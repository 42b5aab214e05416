import LumoSql.WriteTransactions

/-! Savepoints as a stack of snapshots, and what a rollback to one of them leaves: the contents
are back, but the savepoint is gone, and with it the way to come back a second time. -/
namespace LumoSql.Btree
open StateLogic Lmdb RowidEncoding SortedEntries

/-- What a connection sees: its innermost write transaction, or the database. -/
def World.visible (w : World) : Contents := (w.env.writers.head?.map WriteTxn.view).getD w.env.disk.contents

theorem CursorsOnly.visible {w w' : World} (h : CursorsOnly w w') : w'.visible = w.visible := by
  rw [World.visible, World.visible, h.env.writers, h.env.disk]

/-- A commit of the innermost levels changes nothing of what is seen. -/
theorem LevelsClosed.visible {w w' : World} {tripCode rc rc' : Rc} {n : ℕ} (hn : n < w.env.writers.length)
    (hclosed : LevelsClosed n true tripCode rc w rc' w') (hok : rc' = 0) : w'.visible = w.visible := by
  have hmerge := (hclosed.committed rfl hok).1
  obtain ⟨t, ts, hw⟩ := List.exists_cons_of_ne_nil (l := w.env.writers) (by rintro heq; simp [heq] at hn)
  rw [hw] at hmerge hn
  obtain ⟨u, us, hdrop⟩ := List.exists_cons_of_ne_nil (l := (t :: ts).drop n) (by
    rw [ne_eq, List.drop_eq_nil_iff]
    omega)
  rw [World.visible, World.visible, hmerge, hw, mergeLevels_eq hdrop]
  rfl

/-- The numbers of the levels of `n` savepoints. -/
def savepointNumbers : ℕ → List ℤ
  | 0 => []
  | n + 1 => (n + 1 : ℕ) :: savepointNumbers n

/-- A write transaction that began on `before`, with savepoints; `saved` is what was visible
when each of them was opened, the last one first. -/
inductive Savepoints (before : Contents) : List Contents → World → Prop
  | begun {w₀ w : World} {wrFlag pSchemaVersion : Bool} {v : Option ℤ} (hready : Ready w₀)
      (hcalm : w₀.env.Calm) (hbefore : w₀.env.disk.contents = before)
      (hbegin : sqlite3BtreeBeginTrans wrFlag pSchemaVersion w₀ = .ok ((sqliteOk, v), w))
      (hwriter : w.env.writers ≠ []) : Savepoints before [] w
  | upgraded {saved : List Contents} {w w' : World} {wrFlag pSchemaVersion : Bool}
      {r : Rc × Option ℤ} (h : Savepoints before saved w)
      (hcall : sqlite3BtreeBeginTrans wrFlag pSchemaVersion w = .ok (r, w')) :
      Savepoints before saved w'
  | wrote {saved : List Contents} {w w' : World} {call : DataCall} (h : Savepoints before saved w)
      (hallowed : call.Allowed w) (hcall : call.run w = .ok ((), w')) : Savepoints before saved w'
  | opened {saved : List Contents} {w w' : World} (h : Savepoints before saved w)
      (hcall : sqlite3BtreeBeginStmt (saved.length + 1) w = .ok (sqliteOk, w')) :
      Savepoints before (w.visible :: saved) w'
  | closed {saved : List Contents} {w w' : World} {op : SavepointOp} {k : ℕ} (h : Savepoints before saved w)
      (hk : k ≤ saved.length) (hcall : sqlite3BtreeSavepoint op k w = .ok (sqliteOk, w')) :
      Savepoints before (saved.drop (saved.length - k)) w'

/-- The levels of the stack are the savepoints, and the transactions around the innermost one
see what was saved. -/
structure Stacked (before : Contents) (saved : List Contents) (w : World) : Prop where
  inWrite : InWrite before w
  hasData : w.p.hasData = true
  calm : w.env.Calm
  numbers : w.p.svp.dropLast.map BtreeSavepoint.nSavepoint = savepointNumbers saved.length
  saved : w.env.writers.tail.map WriteTxn.view = saved

section Numbers

theorem savepointNumbers_length (n : ℕ) : (savepointNumbers n).length = n := by
  induction n with
  | zero => rfl
  | succ n ih => rw [savepointNumbers, List.length_cons, ih]

theorem savepointNumbers_drop (n k : ℕ) (hk : k ≤ n) :
    (savepointNumbers n).drop (n - k) = savepointNumbers k := by
  induction n with
  | zero => rw [Nat.le_zero.mp hk]; rfl
  | succ n ih =>
    rcases Nat.lt_or_eq_of_le hk with hlt | rfl
    · rw [savepointNumbers, show n + 1 - k = (n - k) + 1 by omega, List.drop_succ_cons, ih (by omega)]
    · rw [Nat.sub_self, List.drop_zero]

/-- A rollback to savepoint `k` closes the levels above it and its own. -/
theorem closedCount_numbers {n k : ℕ} (hk : k ≤ n) {levels : List BtreeSavepoint}
    (h : levels.dropLast.map BtreeSavepoint.nSavepoint = savepointNumbers n) :
    closedCount k levels = n - k := by
  induction n generalizing levels with
  | zero =>
    match levels with
    | [] => exact (Nat.zero_sub k).symm
    | [s] => exact (Nat.zero_sub k).symm
    | s :: s' :: rest => simp [savepointNumbers] at h
  | succ n ih =>
    match levels with
    | [] => simp [savepointNumbers] at h
    | [s] => simp [savepointNumbers] at h
    | s :: s' :: rest =>
      rw [List.dropLast_cons_cons, List.map_cons, savepointNumbers, List.cons_eq_cons] at h
      rw [closedCount, h.1]
      by_cases hkn : k = n + 1
      · rw [hkn, if_pos rfl, Nat.sub_self]
      · rw [if_neg (by omega), ih (by omega) h.2]
        omega

end Numbers

section Steps

variable {before : Contents} {saved : List Contents} {w w' : World}

theorem Stacked.visible (h : Stacked before saved w) :
    ∃ t ts, w.env.writers = t :: ts ∧ w.visible = t.view := by
  obtain ⟨t, ts, hw⟩ := h.inWrite.exists_writer
  exact ⟨t, ts, hw, by rw [World.visible, hw]; rfl⟩

theorem Stacked.levels (h : Stacked before saved w) : w.p.svp.length = saved.length + 1 := by
  have hnumbers := congrArg List.length h.numbers
  rw [List.length_map, List.length_dropLast, savepointNumbers_length] at hnumbers
  have := List.length_pos_iff.mpr h.inWrite.nonempty
  omega

theorem Stacked.writers (h : Stacked before saved w) : w.env.writers.length = saved.length + 1 := by
  have := congrArg List.length h.inWrite.aligned.ids
  rw [List.length_map, List.length_map, h.levels] at this
  exact this.symm

/-- A call that leaves the levels alone. -/
theorem Stacked.of_levels (h : Stacked before saved w) (hin : InWrite before w')
    (horder : EnvOrderly w.env w'.env) (hsvp : w'.p.svp = w.p.svp)
    (hdata : w'.p.hasData = w.p.hasData)
    (htail : w'.env.writers.tail.map WriteTxn.view = w.env.writers.tail.map WriteTxn.view) :
    Stacked before saved w' :=
  ⟨hin, hdata.trans h.hasData, fun c => horder.calm c (h.calm c), by rw [hsvp]; exact h.numbers,
    htail.trans h.saved⟩

theorem Stacked.beginTrans (h : Stacked before saved w) {wrFlag pSchemaVersion : Bool}
    {r : Rc × Option ℤ} (hcall : sqlite3BtreeBeginTrans wrFlag pSchemaVersion w = .ok (r, w')) :
    Stacked before saved w' := by
  have hin := h.inWrite
  have hspec := (beginTrans_spec (.inl fun _ => trivial) (fun _ => trivial) hin.stack hin.opened
    wrFlag pSchemaVersion fun _ _ hr htype => by
      rcases hin.inTrans with hw | ⟨_, hserial⟩
      · exact absurd (hw.symm.trans hr) (by decide)
      · exact absurd (hserial.symm.trans htype) (by decide) :
        Ensures (fun _ => True) _ _ _).of_ok hcall
  have hin' := (hin.beginTrans wrFlag pSchemaVersion).of_ok hcall
  have horder : OrderFrame w w' := (orderly_beginTrans wrFlag pSchemaVersion w).of_ok hcall
  obtain ⟨-, hres⟩ := hspec
  cases hres with
  | same ha _ _ =>
    exact h.of_levels hin' (horder hin.metaFree) (by rw [ha.p]) (by rw [ha.p]) (by rw [ha.writers])
  | failed _ hnone _ _ _ _ => exact absurd hnone hin.open
  | began _ _ hnone _ _ _ => exact absurd hnone hin.open
  | serial _ _ _ _ _ ha =>
    exact h.of_levels hin' (horder hin.metaFree) (by rw [ha.p]) (by rw [ha.p]) (by rw [ha.writers])
  | upgraded _ _ _ _ _ _ _ _ hwriters _ _ _ _ =>
    obtain ⟨t, ts, hw⟩ := hin.exists_writer
    exact absurd (hwriters.symm.trans hw) (by simp)

theorem Stacked.wrote (h : Stacked before saved w) {call : DataCall} (hallowed : call.Allowed w)
    (hcall : call.run w = .ok ((), w')) : Stacked before saved w' := by
  have ht := (dataCall_spec h.inWrite.metaFree hallowed).of_ok hcall
  refine h.of_levels (h.inWrite.tables ht) ⟨ht.env.metaFree, ht.env.calm⟩ (by rw [ht.p])
    (by rw [ht.p]) ?_
  have hhead := ht.env.writers
  revert hhead
  generalize w.env.writers = ts
  generalize w'.env.writers = ts'
  intro hhead
  cases hhead <;> rfl

theorem Stacked.opened (h : Stacked before saved w)
    (hcall : sqlite3BtreeBeginStmt (saved.length + 1) w = .ok (sqliteOk, w')) :
    Stacked before (w.visible :: saved) w' := by
  have hin := h.inWrite
  obtain ⟨-, hres⟩ := (beginStmt_spec hin.stack hin.open (saved.length + 1) :
    Ensures (fun _ => True) _ _ _).of_ok hcall
  have hin' := (hin.beginStmt (saved.length + 1)).of_ok hcall
  have horder : OrderFrame w w' := (orderly_beginStmt (saved.length + 1) w).of_ok hcall
  cases hres with
  | same hrc _ => exact absurd rfl hrc
  | opened t ts hrc hw hp hwriters hdisk =>
    obtain ⟨t', ts', hw', hvisible⟩ := h.visible
    rw [hw, List.cons_eq_cons] at hw'
    obtain ⟨rfl, rfl⟩ := hw'
    refine ⟨hin', by rw [hp]; exact h.hasData, fun c => (horder hin.metaFree).calm c (h.calm c), ?_, ?_⟩
    · rw [hp, List.dropLast_cons_of_ne_nil hin.nonempty, List.map_cons, h.numbers]
      rfl
    · rw [hwriters, List.tail_cons, hw, List.map_cons, hvisible]
      have hsaved := h.saved
      rw [hw, List.tail_cons] at hsaved
      rw [hsaved]

/-- A level that is closed hands over what it sees or is forgotten; those around it stay. -/
theorem Stacked.closed (h : Stacked before saved w) {op : SavepointOp} {k : ℕ}
    (hk : k ≤ saved.length) (hcall : sqlite3BtreeSavepoint op k w = .ok (sqliteOk, w')) :
    Stacked before (saved.drop (saved.length - k)) w' ∧
      (op = .rollback → w'.env.writers = w.env.writers.drop (saved.length - k)) := by
  have hin := h.inWrite
  have hspec := (savepoint_spec (.inl fun _ => trivial) trivial hin.stack op k :
    Ensures (fun _ => True) _ _ _).of_ok hcall
  have hin' := (hin.savepoint op k).of_ok hcall
  have horder : OrderFrame w w' := (orderly_savepoint op k w).of_ok hcall
  have hcount := closedCount_numbers hk h.numbers
  cases hspec with
  | ended hneg _ _ => exact absurd hneg (by omega)
  | same hw hwriters =>
    obtain ⟨t, ts, hw'⟩ := hin.exists_writer
    exact absurd (hwriters.symm.trans hw') (by simp)
  | closed rc' hrc _ hne hal hnum hclosed =>
    rw [hcount] at hclosed
    have honly := hclosed.only
    refine ⟨⟨hin', ?_, fun c => (horder hin.metaFree).calm c (h.calm c), ?_, ?_⟩, fun hop => ?_⟩
    · rw [honly.p]
      exact h.hasData
    · rw [hclosed.svp, List.dropLast_drop_eq_drop_dropLast, List.map_drop, h.numbers,
        savepointNumbers_drop _ _ hk, List.length_drop]
      congr 1
      omega
    · rw [hclosed.tail (by rw [h.writers]; omega), List.map_drop, h.saved]
    · exact hclosed.aborted (.inl (by rw [hop]; rfl))

theorem Savepoints.stacked (h : Savepoints before saved w) : Stacked before saved w := by
  induction h with
  | @begun w₀ w wrFlag pSchemaVersion v hready hcalm hbefore hbegin hwriter =>
    obtain ⟨-, s, shadow, hfirst⟩ := hready.firstLevel hbegin hwriter
    have horder : OrderFrame w₀ w := (orderly_beginTrans wrFlag pSchemaVersion w₀).of_ok hbegin
    refine ⟨?_, hfirst.hasData (by rw [hcalm.head]; decide), fun c => (horder hready.metaFree).calm c (hcalm c),
      by rw [hfirst.svp]; rfl, by rw [hfirst.writers]; rfl⟩
    rw [← hbefore]
    exact hready.inWrite hbegin hwriter
  | upgraded _ hcall ih => exact ih.beginTrans hcall
  | wrote _ hallowed hcall ih => exact ih.wrote hallowed hcall
  | opened _ hcall ih => exact ih.opened hcall
  | closed _ hk hcall ih => exact (ih.closed hk hcall).1

end Steps

/-- What savepoint `k`, counted from the outermost, is to bring back; `-1` is the transaction. -/
def rollbackTarget (before : Contents) (saved : List Contents) (k : ℤ) : Contents :=
  if k < 0 then before else (saved.reverse[k.toNat]?).getD before

/-- What a rollback to `k` is said to leave: those contents, and the savepoint open so that
another rollback brings them back after whatever is written; for `-1` the transaction open. -/
structure RollbackKept (target : Contents) (k : ℤ) (w : World) : Prop where
  visible : w.visible = target
  open_transaction : k < 0 → w.p.inTrans = .write
  open_savepoint : 0 ≤ k → ∀ calls w₁ w₂, Run DataCall.run DataCall.Allowed w calls w₁ →
    sqlite3BtreeSavepoint .rollback k w₁ = .ok (sqliteOk, w₂) → w₂.visible = target

section Contract

variable {before : Contents} {saved : List Contents} {w w' : World}

theorem Stacked.rollback_visible (h : Stacked before saved w) {k : ℕ} (hk : k < saved.length)
    (hcall : sqlite3BtreeSavepoint .rollback k w = .ok (sqliteOk, w')) :
    w'.visible = rollbackTarget before saved k := by
  have hwriters := (h.closed hk.le hcall).2 rfl
  have hsaved := h.saved
  obtain ⟨t, ts, hw⟩ := h.inWrite.exists_writer
  rw [hw, List.tail_cons] at hsaved
  have hlen : ts.length = saved.length := by rw [← hsaved, List.length_map]
  have hdrop : w'.env.writers = ts.drop (saved.length - 1 - k) := by
    rw [hwriters, hw, show saved.length - k = (saved.length - 1 - k) + 1 by omega,
      List.drop_succ_cons]
  have hidx : saved.length - 1 - k < ts.length := by omega
  have hget : saved.reverse[k]? = some ts[saved.length - 1 - k].view := by
    have hmap : saved[saved.length - 1 - k]? = (ts.map WriteTxn.view)[saved.length - 1 - k]? := by
      rw [hsaved]
    rw [List.getElem?_reverse hk, hmap, List.getElem?_map, List.getElem?_eq_getElem hidx,
      Option.map_some]
  rw [rollbackTarget, if_neg (by omega), Int.toNat_natCast, hget, World.visible, hdrop,
    List.drop_eq_getElem_cons hidx]
  rfl

/-- Writing a value of the header when nothing fails. -/
theorem Stacked.updateMeta (h : Stacked before saved w) (idx iValue : ℕ) :
    ∃ es w', w.visible .metadata = some es ∧ MetaTable es ∧
      DataCall.run (.updateMeta idx iValue) w = .ok ((), w') ∧ w'.p = w.p ∧
      w'.visible .metadata = some (putEntry es (metaKey idx) (put4byte iValue)) := by
  obtain ⟨t, ts, hw, hvisible⟩ := h.visible
  obtain ⟨s, rest, hsvp⟩ := List.exists_cons_of_ne_nil h.inWrite.nonempty
  have ht : s.txn = t.id := h.inWrite.aligned.top_id hsvp hw
  obtain ⟨es, hes, htable⟩ := (h.inWrite.counter t (by rw [hw]; exact List.mem_cons_self)).1
  have hspec : Ensures (fun _ => False) (DataCall.run (.updateMeta idx iValue)) (fun _ w' =>
      w'.p = w.p ∧
        w'.visible .metadata = some (putEntry es (metaKey idx) (put4byte iValue))) w := by
    rw [DataCall.run, ignore, ensures_bind, sqlite3BtreeUpdateMeta, ensures_bind, putMeta32,
      ensures_bind, ensures_getP, h.hasData, if_neg (by decide), ensures_bind, ensures_topTxn hsvp,
      ensures_lmdb, ht, documented.put (kind_writer hw) (view_writer hw),
      if_neg (not_not.mpr (h.calm.head _)), hes]
    have hwpop : (w.env.pop .put).writers = t :: ts := hw
    refine ⟨rfl, ?_⟩
    rw [World.visible]
    have hset := setView_writers hwpop .metadata (some (putEntry es (metaKey idx) (put4byte iValue)))
    dsimp only
    rw [hset, List.head?_cons, Option.map_some, Option.getD_some]
    exact Function.update_self DbName.metadata _ t.view
  obtain ⟨_, w', hrun, hp, hput⟩ := hspec.result
  exact ⟨es, w', by rw [hvisible, hes], htable, hrun, hp, hput⟩

theorem put4byte_ne : put4byte 0 ≠ put4byte 1 := by decide

/-- Some value of the header is not the one there is. -/
theorem Stacked.changes (h : Stacked before saved w) (target : Contents) :
    ∃ iValue w', DataCall.run (.updateMeta 1 iValue) w = .ok ((), w') ∧ w'.p = w.p ∧
      w'.visible ≠ target := by
  obtain ⟨es, w₀, hes, htable, hrun₀, hp₀, hput₀⟩ := h.updateMeta 1 0
  obtain ⟨es', w₁, hes', -, hrun₁, hp₁, hput₁⟩ := h.updateMeta 1 1
  obtain rfl := Option.some.inj (hes.symm.trans hes')
  by_cases hsame : w₀.visible = target
  · refine ⟨1, w₁, hrun₁, hp₁, fun heq => ?_⟩
    have hentries := Option.some.inj ((hput₀.symm.trans (by rw [hsame, heq])).trans hput₁)
    obtain ⟨e, he, hval⟩ := htable.lookup_put 1 (put4byte 0)
    obtain ⟨e', he', hval'⟩ := htable.lookup_put 1 (put4byte 1)
    rw [hentries, he'] at he
    obtain rfl := Option.some.inj he
    exact put4byte_ne (hval.symm.trans hval')
  · exact ⟨0, w₀, hrun₀, hp₀, hsame⟩

theorem closeLoop_none {nTo : ℤ} {levels : List BtreeSavepoint} (h : closedCount nTo levels = 0)
    (commit : Bool) (tripCode rc : Rc) : closeLoop nTo commit tripCode levels rc = pure rc := by
  match levels with
  | [] => rfl
  | [s] => rfl
  | s :: s' :: rest =>
    rw [closedCount] at h
    by_cases hn : s.nSavepoint = nTo
    · rw [closeLoop, if_pos hn]
    · rw [if_neg hn] at h
      omega

/-- With no level to close a rollback does nothing. -/
theorem savepoint_none {k : ℕ} (h : closedCount k w.p.svp = 0) (op : SavepointOp) :
    sqlite3BtreeSavepoint op k w = .ok (sqliteOk, w) := by
  have hspec : Ensures (fun _ => False) (sqlite3BtreeSavepoint op k)
      (fun rc w' => rc = sqliteOk ∧ w' = w) w := by
    rw [sqlite3BtreeSavepoint, ensures_bind, closeAllSavepoints, ensures_bind, ensures_getP,
      closeLoop_none h, ensures_pure, if_neg (not_not.mpr rfl), if_pos (by omega)]
    exact ⟨rfl, rfl⟩
  obtain ⟨rc, w', hrun, rfl, rfl⟩ := hspec.result
  exact hrun

/-- Every rollback brings the contents back, and no rollback leaves the savepoint, or the
transaction, open. -/
theorem rollback_not_kept (h : Savepoints before saved w) {k : ℤ} (hlo : -1 ≤ k)
    (hhi : k < saved.length) (hcall : sqlite3BtreeSavepoint .rollback k w = .ok (sqliteOk, w')) :
    w'.visible = rollbackTarget before saved k ∧
      ¬ RollbackKept (rollbackTarget before saved k) k w' := by
  have hs := h.stacked
  by_cases hk : k < 0
  · have hspec := (savepoint_spec (.inl fun _ => trivial) trivial hs.inWrite.stack .rollback k :
      Ensures (fun _ => True) _ _ _).of_ok hcall
    cases hspec with
    | same _ hwriters =>
      obtain ⟨t, ts, hw⟩ := hs.inWrite.exists_writer
      exact absurd (hwriters.symm.trans hw) (by simp)
    | closed rc' hrc hfail _ _ _ _ => exact absurd ((errorMap_eq_ok rc').mp hrc.symm) (hfail hk)
    | ended _ _ hended =>
      refine ⟨?_, fun hkept => ?_⟩
      · rw [World.visible, hended.writers, rollbackTarget, if_pos hk]
        exact hended.contents.trans hs.inWrite.disk
      · have hnone : w'.p.inTrans = .none := by rw [hended.p]
        exact absurd (hnone.symm.trans (hkept.open_transaction hk)) (by decide)
  · obtain ⟨n, rfl⟩ := Int.eq_ofNat_of_zero_le (not_lt.mp hk)
    have hn : n < saved.length := by omega
    refine ⟨hs.rollback_visible hn hcall, fun hkept => ?_⟩
    have hs' := (hs.closed hn.le hcall).1
    obtain ⟨iValue, w₁, hrun, hp, hne⟩ := hs'.changes (rollbackTarget before saved n)
    have hcount : closedCount n w₁.p.svp = 0 := by
      rw [hp, closedCount_numbers (k := n) _ hs'.numbers, List.length_drop]
      · omega
      · rw [List.length_drop]
        omega
    refine hne (hkept.open_savepoint (by omega) [.updateMeta 1 iValue] w₁ w₁ ?_
      (savepoint_none hcount .rollback))
    have hallowed : DataCall.Allowed (.updateMeta 1 iValue) w' := show 1 < headerValues by decide
    exact .cons hallowed hrun (.nil _)

end Contract

/-- A second rollback to a savepoint does not undo what was written after the first one. -/
theorem secondRollback_forgets : ∃ w, Savepoints newDisk.contents [newDisk.contents] w ∧
    ∃ w', sqlite3BtreeSavepoint .rollback 0 w = .ok (sqliteOk, w') ∧
      ¬ RollbackKept newDisk.contents 0 w' := by
  have hbegun : ∃ w, sqlite3BtreeBeginTrans true false newConnection = .ok ((sqliteOk, none), w) ∧
      w.env.writers ≠ [] ∧ ∃ w₁, sqlite3BtreeBeginStmt 1 w = .ok (sqliteOk, w₁) ∧
        w.visible = newDisk.contents ∧
        ∃ w₂, DataCall.run (.updateMeta 1 7) w₁ = .ok ((), w₂) ∧
          ∃ w₃, sqlite3BtreeSavepoint .rollback 0 w₂ = .ok (sqliteOk, w₃) ∧
            ∃ w₄, DataCall.run (.updateMeta 1 9) w₃ = .ok ((), w₄) ∧
              ∃ w₅, sqlite3BtreeSavepoint .rollback 0 w₄ = .ok (sqliteOk, w₅) ∧
                w₅.visible ≠ newDisk.contents := by
    refine ⟨_, rfl, fun h => (by cases h), _, rfl, rfl, _, rfl, _, rfl, _, rfl, _, rfl, fun h => ?_⟩
    have hmeta := congrFun h .metadata
    cases hmeta
  obtain ⟨w, hbegin, hwriter, w₁, hstmt, hvisible, w₂, hwrite, w₃, hback, w₄, hagain, w₅, hback',
    hne⟩ := hbegun
  have hopen : Savepoints newDisk.contents [] w :=
    .begun newConnection_ready (fun _ => rfl) rfl hbegin hwriter
  have hsaved : Savepoints newDisk.contents [newDisk.contents] w₁ := by
    have hopened := hopen.opened hstmt
    rw [hvisible] at hopened
    exact hopened
  have hallowed : ∀ v w, DataCall.Allowed (.updateMeta 1 v) w := fun _ _ =>
    show 1 < headerValues by decide
  refine ⟨w₂, .wrote hsaved (hallowed 7 w₁) hwrite, w₃, hback, fun hkept => hne ?_⟩
  exact hkept.open_savepoint (by decide) [.updateMeta 1 9] w₄ w₅
    (.cons (hallowed 9 w₃) hagain (.nil _)) hback'

theorem rollback_not_kept_sample : ∃ w w', Savepoints newDisk.contents [newDisk.contents] w ∧
    w.visible ≠ newDisk.contents ∧ sqlite3BtreeSavepoint .rollback 0 w = .ok (sqliteOk, w') ∧
      w'.visible = newDisk.contents ∧ ¬ RollbackKept newDisk.contents 0 w' := by
  have hbegun : ∃ w, sqlite3BtreeBeginTrans true false newConnection = .ok ((sqliteOk, none), w) ∧
      w.env.writers ≠ [] ∧ w.visible = newDisk.contents ∧
        ∃ w₁, sqlite3BtreeBeginStmt 1 w = .ok (sqliteOk, w₁) ∧
          ∃ w₂, DataCall.run (.updateMeta 1 7) w₁ = .ok ((), w₂) ∧ w₂.visible ≠ newDisk.contents ∧
            ∃ w₃, sqlite3BtreeSavepoint .rollback 0 w₂ = .ok (sqliteOk, w₃) := by
    refine ⟨_, rfl, fun h => (by cases h), rfl, _, rfl, _, rfl, fun h => ?_, _, rfl⟩
    have hmeta := congrFun h .metadata
    cases hmeta
  obtain ⟨w, hbegin, hwriter, hvisible, w₁, hstmt, w₂, hwrite, hchanged, w₃, hback⟩ := hbegun
  have hopened : Savepoints newDisk.contents [w.visible] w₁ :=
    (Savepoints.begun newConnection_ready (fun _ => rfl) rfl hbegin hwriter).opened hstmt
  rw [hvisible] at hopened
  have hallowed : DataCall.Allowed (.updateMeta 1 7) w₁ := show 1 < headerValues by decide
  have hwritten : Savepoints newDisk.contents [newDisk.contents] w₂ := .wrote hopened hallowed hwrite
  have hresult := rollback_not_kept hwritten (k := 0) (by decide) (by decide) hback
  exact ⟨w₂, w₃, hwritten, hchanged, hback, hresult.1, hresult.2⟩

end LumoSql.Btree
