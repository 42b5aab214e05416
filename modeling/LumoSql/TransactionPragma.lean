import LumoSql.ConnectionCalls

/-! `PRAGMA lmdb_transaction`: where the transaction model is stored, and which transaction ends when
it is. -/
namespace LumoSql.Btree
open StateLogic Lmdb RowidEncoding SortedEntries

def putMeta32Direct (txn idx iValue : ℕ) : Call Rc :=
  lmdb (mdbPut txn .metadata (metaKey idx) (put4byte iValue))

/-- `put_meta_32_notxn` from where it has a transaction; `abort_txn` is `NULL` for one it did not
begin. -/
def putUsing (idx iValue txn : ℕ) (abortTxn : Bool) : Call Rc := do
  let rc ← putMeta32Direct txn idx iValue
  if rc ≠ 0 then do
    if abortTxn then lmdb (mdbTxnAbort txn) else pure ()
    pure (errorMap rc)
  else do
    let rc ← lmdb (mdbTxnCommit txn)
    pure (errorMap rc)

def putMeta32Notxn (idx iValue : ℕ) : Call Rc := do
  let p ← getP
  if p.inTrans = .write then do
    let txn ← topTxn
    putUsing idx iValue txn false
  else if p.readonly then pure sqliteReadonly
  else if p.inTrans = .read then pure sqliteBusy
  else do
    let r ← lmdb (mdbTxnBegin none false)
    if r.1 ≠ 0 then pure (errorMap r.1)
    else do
      let rc ← lmdb (mdbDbiOpen r.2 .metadata false)
      if rc ≠ 0 then do
        lmdb (mdbTxnAbort r.2)
        pure (errorMap rc)
      else putUsing idx iValue r.2 true

/-- The transaction types as `PRAGMA lmdb_transaction` reads and prints them. -/
def transactionOfName (zRight : String) : Option ℕ :=
  if zRight = "optimistic" then some transactionOptimistic
  else if zRight = "noupgrade" then some transactionNoupgrade
  else if zRight = "serialise" ∨ zRight = "serialize" then some transactionSerialise
  else none

def transactionName (transType : ℕ) : Option String :=
  if transType = transactionOptimistic then some "optimistic"
  else if transType = transactionNoupgrade then some "noupgrade"
  else if transType = transactionSerialise then some "serialise"
  else none

/-- The result code and `*zResult`; `p` is the handle of the main database. -/
def lumoBackendPragma (zLeft : String) (zRight : Option String) : Call (Rc × Option String) := do
  if zLeft = "lmdb_transaction" then
    match zRight with
    | some zRight =>
      match transactionOfName zRight with
      | none => pure (sqliteError, some "Invalid rowsum algorithm")
      | some transType => do
        let rc ← putMeta32Notxn lumoLmdbTransaction transType
        if rc = sqliteOk then setP fun p => { p with transType := transType } else pure ()
        pure (rc, none)
    | none => do
      let p ← getP
      match transactionName p.transType with
      | some name => pure (sqliteOk, some name)
      | none => pure (sqliteCorrupt, some "Internal error, invalid value stored in database")
  else pure (sqliteNotfound, none)

/-- Only the value under `idx` may differ. -/
structure OnlyValue (idx : ℕ) (c c' : Contents) : Prop where
  tables : ∀ db, db ≠ .metadata → c' db = c db
  values : (c' .metadata).map (List.filter fun e => e.1 ≠ metaKey idx) =
    (c .metadata).map (List.filter fun e => e.1 ≠ metaKey idx)

/-- The transactions of the user are still open, and to roll them back leaves the disk as it is; without
one only the value under `idx` has changed there. -/
structure KeepsTransaction (idx : ℕ) (w w' : World) : Prop where
  stack : w'.p = w.p
  writers : w.p.inTrans = .write → w'.env.writers.map WriteTxn.id = w.env.writers.map WriteTxn.id
  rollback : w.p.inTrans = .write → ∀ (tripCode : Rc) (writeOnly : Bool) (E : Halt → Prop), Lenient E w' →
    Ensures E (sqlite3BtreeRollback tripCode writeOnly)
      (fun _ w'' => w''.env.disk.contents = w.env.disk.contents) w'
  values : w.p.inTrans ≠ .write → OnlyValue idx w.env.disk.contents w'.env.disk.contents

section Put

variable {E : Halt → Prop} {w : World}

theorem memcmp_eq_iff {a b : Bytes} : memcmp a b = .eq ↔ a = b := by
  induction a generalizing b with
  | nil => cases b <;> simp [memcmp]
  | cons x xs ih =>
    cases b with
    | nil => simp [memcmp]
    | cons y ys =>
      rw [memcmp, Ordering.then_eq_eq, compare_eq_iff_eq, ih, UInt8.toNat_inj, List.cons.injEq]

theorem OnlyValue.refl (idx : ℕ) (c : Contents) : OnlyValue idx c c := ⟨fun _ _ => rfl, rfl⟩

theorem OnlyValue.put (idx : ℕ) {c : Contents} {es : Entries} (hes : c .metadata = some es) (val : Bytes) :
    OnlyValue idx c (Function.update c .metadata (some (putEntry es (metaKey idx) val))) := by
  refine ⟨fun db hdb => Function.update_of_ne hdb _ _, ?_⟩
  rw [Function.update_self, hes, Option.map_some, Option.map_some]
  congr 1
  refine filter_place (by simp) fun o ho => ?_
  have hkey : metaKey idx = o.1 := memcmp_eq_iff.mp (mem_of_lookup ho).2
  refine ⟨by simp [hkey], ?_⟩
  rw [overwrite]
  split_ifs <;> simp [hkey]

/-- The innermost transaction is gone after `mdb_txn_commit`, whether it succeeds or not. -/
theorem txnCommit_length {e : Env} {t : WriteTxn} {ts : List WriteTxn} (hw : e.writers = t :: ts) :
    Ensures E (mdbTxnCommit t.id) (fun _ e' => e'.writers.length = ts.length) e := by
  have hpop : (e.pop .txnCommit).writers = t :: ts := hw
  rw [documented.txnCommit hw]
  split_ifs
  · exact congrArg (fun e => e.writers.length) (abort_writer hpop)
  · cases ts with
    | nil => exact congrArg (fun e => e.writers.length) (commit_outermost hpop)
    | cons p ps => exact congrArg (fun e => e.writers.length) (commit_nested hpop)

theorem txnAbort_contents {e : Env} {t : WriteTxn} (hw : e.writers = [t]) :
    Ensures E (mdbTxnAbort t.id) (fun _ e' => e'.disk.contents = e.disk.contents) e := by
  rw [documented.txnAbort hw]
  exact congrArg (fun e => e.disk.contents) (abort_writer hw)

theorem txnCommit_contents {e : Env} {t : WriteTxn} (hw : e.writers = [t]) :
    Ensures E (mdbTxnCommit t.id)
      (fun _ e' => e'.disk.contents = e.disk.contents ∨ e'.disk.contents = t.view) e := by
  have hpop : (e.pop .txnCommit).writers = [t] := hw
  rw [documented.txnCommit hw]
  split_ifs
  · exact Or.inl (congrArg (fun e => e.disk.contents) (abort_writer hpop))
  · exact Or.inr (congrArg (fun e => e.disk.contents) (commit_outermost hpop))

/-- A transaction of the user ends as soon as the value has been put. -/
theorem putUsing_user {t : WriteTxn} {ts : List WriteTxn} (hw : w.env.writers = t :: ts) (idx iValue : ℕ)
    (hmeta : (t.view .metadata).isSome = true) :
    Ensures E (putUsing idx iValue t.id false) (fun _ w' => w'.p = w.p ∧
      (((w.env.answers .put).headD 0 ≠ 0 ∧ w' = w.pop .put) ∨
        ((w.env.answers .put).headD 0 = 0 ∧ w'.env.writers.length = ts.length))) w := by
  obtain ⟨es, hes⟩ := Option.isSome_iff_exists.mp hmeta
  rw [putUsing, ensures_bind, putMeta32Direct, ensures_lmdb,
    documented.put (kind_writer hw) (view_writer hw)]
  by_cases hput : (w.env.answers .put).headD 0 ≠ 0
  · rw [if_pos hput, if_pos hput]
    exact ⟨rfl, Or.inl ⟨hput, rfl⟩⟩
  · rw [if_neg hput]
    simp only [hes]
    have hset := setView_writers (e := w.env.pop .put) hw .metadata
      (some (putEntry es (metaKey idx) (put4byte iValue)))
    rw [if_neg (not_not.mpr rfl), ensures_bind, ensures_lmdb]
    exact (txnCommit_length hset).imp fun _ e' hlen => ⟨rfl, Or.inr ⟨not_not.mp hput, hlen⟩⟩

/-- A transaction begun for the value leaves the disk as it is or changes only this value. -/
theorem putUsing_own {t : WriteTxn} (hw : w.env.writers = [t]) (idx iValue : ℕ)
    (hview : t.view = w.env.disk.contents) :
    Ensures E (putUsing idx iValue t.id true) (fun _ w' => w'.p = w.p ∧
      OnlyValue idx w.env.disk.contents w'.env.disk.contents) w := by
  have habort : ∀ rc : Rc, Ensures E (do
      lmdb (mdbTxnAbort t.id)
      pure (errorMap rc)) (fun _ w' => w'.p = w.p ∧
        OnlyValue idx w.env.disk.contents w'.env.disk.contents) (w.pop .put) := by
    intro rc
    have hpop : (w.env.pop .put).writers = [t] := hw
    rw [ensures_bind, ensures_lmdb]
    refine (txnAbort_contents hpop).imp fun _ e' hsame => ⟨rfl, ?_⟩
    rw [hsame]
    exact .refl _ _
  rw [putUsing, ensures_bind, putMeta32Direct, ensures_lmdb,
    documented.put (kind_writer hw) (view_writer hw)]
  by_cases hput : (w.env.answers .put).headD 0 ≠ 0
  · rw [if_pos hput, if_pos hput]
    exact habort _
  · rw [if_neg hput]
    cases hes : t.view .metadata with
    | none =>
      simp only
      rw [if_pos (by decide)]
      exact habort _
    | some es =>
      have hset := setView_writers (e := w.env.pop .put) hw .metadata
        (some (putEntry es (metaKey idx) (put4byte iValue)))
      simp only
      rw [if_neg (not_not.mpr rfl), ensures_bind, ensures_lmdb]
      refine (txnCommit_contents hset).imp fun _ e' hdisk => ⟨rfl, ?_⟩
      rcases hdisk with hsame | hnew
      · rw [hsame]
        exact .refl _ _
      · rw [hnew, ← hview]
        exact .put idx hes _

variable {counted : Prop} {n : ℕ}

theorem putNotxn_user (h : Connection counted n w) (hin : w.p.inTrans = .write) (idx iValue : ℕ) :
    Ensures E (putMeta32Notxn idx iValue)
      (fun _ w' => KeepsTransaction idx w w' ↔ (w.env.answers .put).headD 0 ≠ 0) w := by
  have hw := h.inWrite hin
  obtain ⟨t, ts, hwriters⟩ := hw.exists_writer
  obtain ⟨s, rest, hsvp⟩ := List.exists_cons_of_ne_nil hw.nonempty
  have hids := hw.aligned.ids
  rw [hsvp, hwriters, List.map_cons, List.map_cons] at hids
  have htop : s.txn = t.id := (List.cons.inj hids).1
  have hmeta := (hw.counter t (by simp [hwriters])).1.isSome
  rw [putMeta32Notxn, ensures_bind, ensures_getP, if_pos hin, ensures_bind, ensures_topTxn hsvp, htop]
  refine (putUsing_user hwriters idx iValue hmeta).imp fun _ w' hres => ?_
  obtain ⟨hp, ⟨hput, rfl⟩ | ⟨hput, hlen⟩⟩ := hres
  · refine iff_of_true ⟨rfl, fun _ => rfl, fun _ tripCode writeOnly E' hE => ?_, fun hne => absurd hin hne⟩ hput
    have hstack : TxnStack (w.pop .put) := .writing hw.nonempty ⟨hw.aligned.ids, hw.aligned.locked⟩ hw.numbered hw.open
    refine (rollback_spec hE hstack tripCode writeOnly).imp fun _ w'' hend => ?_
    rcases hend.2 with ⟨-, rfl⟩ | ⟨-, hended⟩
    · rfl
    · exact hended.contents
  · refine iff_of_false (fun hkeeps => ?_) (by simpa using hput)
    have hsame := congrArg List.length (hkeeps.writers hin)
    rw [List.length_map, List.length_map, hwriters, List.length_cons] at hsame
    omega

theorem putNotxn_other (h : Connection counted n w) (hin : w.p.inTrans ≠ .write)
    (hblocked : w.env.disk.locked = true → E .blocked) (idx iValue : ℕ) :
    Ensures E (putMeta32Notxn idx iValue) (fun _ w' => KeepsTransaction idx w w') w := by
  have hkeeps : ∀ w' : World, w'.p = w.p → OnlyValue idx w.env.disk.contents w'.env.disk.contents →
      KeepsTransaction idx w w' := fun w' hp hvalues =>
    ⟨hp, fun hwr => absurd hwr hin, fun hwr => absurd hwr hin, fun _ => hvalues⟩
  rw [putMeta32Notxn, ensures_bind, ensures_getP, if_neg hin]
  refine .ite (fun _ => hkeeps w rfl (.refl _ _)) fun hro => ?_
  refine .ite (fun _ => hkeeps w rfl (.refl _ _)) fun _ => ?_
  have hopen : w.env.readonly = true → false = true := fun hr => absurd (h.opened.symm.trans hr) hro
  rw [ensures_bind, ensures_lmdb, documented.txnBegin hopen]
  by_cases hbegin : (w.env.answers .txnBegin).headD 0 ≠ 0
  · rw [if_pos hbegin, if_pos hbegin]
    exact hkeeps _ rfl (.refl _ _)
  rw [if_neg hbegin, if_neg (by decide)]
  by_cases hlocked : w.env.disk.locked = true
  · rw [if_pos hlocked]
    exact hblocked hlocked
  · rw [if_neg hlocked, if_neg (not_not.mpr rfl), ensures_bind, ensures_lmdb]
    have hwriters : (w.env.pop .txnBegin).beginWriter.writers =
        [⟨w.env.next, w.env.disk.contents, w.env.cursors⟩] := rfl
    rw [documented.dbiOpen (kind_writer hwriters) (view_writer hwriters)]
    refine .ite (fun _ => ?_) fun _ => ?_
    · have hpop : ((w.env.pop .txnBegin).beginWriter.pop .dbiOpen).writers =
          [⟨w.env.next, w.env.disk.contents, w.env.cursors⟩] := rfl
      rw [ensures_bind, ensures_lmdb]
      refine (txnAbort_contents hpop).imp fun _ e' hsame => hkeeps _ rfl ?_
      rw [hsame]
      exact .refl _ _
    · refine (putUsing_own (w := { w with env := (w.env.pop .txnBegin).beginWriter.pop .dbiOpen })
        hwriters idx iValue rfl).imp fun _ w' hres => hkeeps w' hres.1 hres.2

/-- The transaction of the user is kept exactly when there is none or the value could not be put. -/
theorem putNotxn_keeps_iff {counted : Prop} {n : ℕ} {E : Halt → Prop} {w : World}
    (h : Connection counted n w) (hblocked : w.env.disk.locked = true → E .blocked) (idx iValue : ℕ) :
    Ensures E (putMeta32Notxn idx iValue) (fun _ w' => KeepsTransaction idx w w' ↔
      w.p.inTrans ≠ .write ∨ (w.env.answers .put).headD 0 ≠ 0) w := by
  by_cases hin : w.p.inTrans = .write
  · refine (putNotxn_user h hin idx iValue).imp fun _ w' hiff => ?_
    rw [hiff]
    simp [hin]
  · exact (putNotxn_other h hin hblocked idx iValue).imp fun _ w' hkeeps => iff_of_true hkeeps (Or.inl hin)

end Put

/-- A name that is accepted stands for a type that is printed with a name for the same type. -/
theorem transactionOfName_name {zRight : String} {transType : ℕ} (h : transactionOfName zRight = some transType) :
    ∃ name, transactionName transType = some name ∧ transactionOfName name = some transType := by
  simp only [transactionOfName] at h
  split_ifs at h <;> obtain rfl := Option.some.inj h
  · exact ⟨"optimistic", by decide, by decide⟩
  · exact ⟨"noupgrade", by decide, by decide⟩
  · exact ⟨"serialise", by decide, by decide⟩

/-- What the pragma has set without an error it prints. -/
theorem pragma_printed {w w' : World} {zRight : String} {text : Option String}
    (hrun : lumoBackendPragma "lmdb_transaction" (some zRight) w = .ok ((sqliteOk, text), w')) :
    ∃ name, lumoBackendPragma "lmdb_transaction" none w' = .ok ((sqliteOk, some name), w') ∧
      transactionOfName name = transactionOfName zRight := by
  have hset : Ensures (fun _ => True) (lumoBackendPragma "lmdb_transaction" (some zRight)) (fun r w' =>
      r.1 = sqliteOk → transactionOfName zRight = some w'.p.transType) w := by
    rw [lumoBackendPragma, if_pos rfl]
    cases hname : transactionOfName zRight with
    | none => exact fun hok => absurd hok (by decide)
    | some transType =>
      rw [ensures_bind]
      refine ensures_iff.mpr ⟨fun rc w₁ _ => ?_, fun _ _ => trivial⟩
      refine Ensures.ite (fun _ _ => rfl) fun hrc hok => absurd hok hrc
  obtain ⟨name, hprint, hsame⟩ := transactionOfName_name (hset.of_ok hrun rfl)
  refine ⟨name, ?_, hsame.trans (hset.of_ok hrun rfl).symm⟩
  have hget : Ensures (fun _ => False) (lumoBackendPragma "lmdb_transaction" none)
      (fun r w'' => r = (sqliteOk, some name) ∧ w'' = w') w' := by
    rw [lumoBackendPragma, if_pos rfl, ensures_bind, ensures_getP, hprint]
    exact ⟨rfl, rfl⟩
  obtain ⟨r, w'', hread, rfl, rfl⟩ := hget.result
  exact hread

theorem InWrite.connection {w : World} (h : InWrite newDisk.contents w) : Connection False 0 w := by
  have hdisk := h.disk
  have hmeta : HasMetadata (w.env.disk.contents .metadata) := by
    rw [hdisk]
    exact ⟨[], rfl, .nil, fun _ h => (by cases h)⟩
  refine ⟨.writing ?_ fun _ => rfl, h.opened, h.metaFree, hmeta⟩
  rw [hdisk]
  exact h

theorem writing_inWrite (answers : Answers) : InWrite newDisk.contents (writing answers) :=
  (writing_committing answers).opened.inWrite

/-- In a savepoint of a write transaction. -/
theorem putNotxn_keeps_iff_sample : ∃ w, sqlite3BtreeBeginStmt 1 (writing fun _ => []) = .ok (sqliteOk, w) ∧
    Ensures (· = .blocked) (putMeta32Notxn lumoLmdbTransaction transactionNoupgrade)
      (fun _ w' => KeepsTransaction lumoLmdbTransaction w w' ↔
        w.p.inTrans ≠ .write ∨ (w.env.answers .put).headD 0 ≠ 0) w := by
  have hbegun : ∃ w, sqlite3BtreeBeginStmt 1 (writing fun _ => []) = .ok (sqliteOk, w) := ⟨_, rfl⟩
  obtain ⟨w, hrun⟩ := hbegun
  have hw : InWrite newDisk.contents w := ((writing_inWrite _).beginStmt 1).of_ok hrun
  exact ⟨w, hrun, putNotxn_keeps_iff (E := (· = .blocked)) hw.connection (fun _ => rfl) _ _⟩

/-- The pragma commits the transaction of the user, and to roll it back passes a dead handle. -/
theorem pragma_commits : ∃ w', Connection False 0 (writing fun _ => []) ∧
    (writing fun _ => []).p.inTrans = .write ∧
    putMeta32Notxn lumoLmdbTransaction transactionNoupgrade (writing fun _ => []) = .ok (sqliteOk, w') ∧
    w'.env.disk.contents .metadata ≠ (writing fun _ => []).env.disk.contents .metadata ∧
    sqlite3BtreeRollback sqliteAbort false w' = .error .deadHandle ∧
    ¬KeepsTransaction lumoLmdbTransaction (writing fun _ => []) w' := by
  refine ⟨_, (writing_inWrite _).connection, rfl, rfl, fun h => ?_, rfl, fun h => ?_⟩
  · cases h
  · have hsame := congrArg List.length (h.writers rfl)
    cases hsame

end LumoSql.Btree
