import LumoSql.CommitAtomicity
import LumoSql.CommitCounting
import LumoSql.ReadIsolation

/-! The transactions of any number of connections are isolated: each gets from its calls what it would get
alone on the contents the disk had when it began, and what it commits it commits to these contents. -/
namespace LumoSql.Btree
open StateLogic Lmdb RowidEncoding

/-- What a call returns. -/
inductive Reply
  | code (rc : Rc)
  | codeInt (r : Rc × ℤ)
  | codeOption (r : Rc × Option ℤ)
  | codeNat (r : Rc × ℕ)
  | bool (b : Bool)
  | int (z : ℤ)
  | nat (n : ℕ)
  | bytes (b : Bytes)

def DataCall.ask : DataCall → Call Reply
  | cursorZero => .nat <$> newCursor
  | cursor iTable wrFlag keyInfo i => .code <$> sqlite3BtreeCursor iTable wrFlag keyInfo i
  | closeCursor i => .code <$> sqlite3BtreeCloseCursor i
  | first i => .codeOption <$> sqlite3BtreeFirst i
  | last i => .codeOption <$> sqlite3BtreeLast i
  | next i => .code <$> sqlite3BtreeNext i
  | previous i => .code <$> sqlite3BtreePrevious i
  | eof i => .bool <$> sqlite3BtreeEof i
  | tableMoveto i intKey => .codeInt <$> sqlite3BtreeTableMoveto i intKey
  | indexMoveto i idxKey => .codeInt <$> sqlite3BtreeIndexMoveto i idxKey
  | cursorHasMoved i => .int <$> sqlite3BtreeCursorHasMoved i
  | insert i pX preformat => .code <$> sqlite3BtreeInsert i pX preformat
  | delete i => .code <$> sqlite3BtreeDelete i
  | transferRow pDest pSrc iKey => .code <$> sqlite3BtreeTransferRow pDest pSrc iKey
  | integerKey i => .int <$> sqlite3BtreeIntegerKey i
  | payloadFetch i => .bytes <$> sqlite3BtreePayloadFetch i
  | payloadSize i => .nat <$> sqlite3BtreePayloadSize i
  | count i => .codeNat <$> sqlite3BtreeCount i
  | getMeta idx => .nat <$> sqlite3BtreeGetMeta idx
  | updateMeta idx iValue => .code <$> sqlite3BtreeUpdateMeta idx iValue
  | createTable => .codeNat <$> sqlite3BtreeCreateTable
  | dropTable iTable => .code <$> sqlite3BtreeDropTable iTable
  | clearTable iTable pnChange => .codeNat <$> sqlite3BtreeClearTable iTable pnChange

def TxnCall.ask : TxnCall → Call Reply
  | beginTrans wrFlag pSchemaVersion => .codeOption <$> sqlite3BtreeBeginTrans wrFlag pSchemaVersion
  | beginStmt iStatement => .code <$> sqlite3BtreeBeginStmt iStatement
  | savepoint op iSavepoint => .code <$> sqlite3BtreeSavepoint op iSavepoint
  | commitPhaseOne => .code <$> sqlite3BtreeCommitPhaseOne
  | rollback tripCode writeOnly => .code <$> sqlite3BtreeRollback tripCode writeOnly

def ConnCall.ask : ConnCall → Call Reply
  | txn call => call.ask
  | data call => call.ask

def Reply.rc : Reply → Rc
  | code rc => rc
  | codeOption r => r.1
  | _ => sqliteOk

/-- The code of a transaction call. -/
def ConnCall.code : ConnCall → Reply → Rc
  | txn _, r => r.rc
  | data _, _ => sqliteOk

section Replies

variable {α : Type}

theorem ask_ignored (m : Call α) (f : α → Reply) (rc : Rc) :
    (do
      let _ ← f <$> m
      pure rc : Call Rc) = (do
      let _ ← ignore m
      pure rc) := by
  have hmap : (f <$> m) = m >>= fun a => pure (f a) := rfl
  rw [hmap, ignore, Prog.bind_assoc, Prog.bind_assoc]
  rfl

theorem TxnCall.run_eq_ask (call : TxnCall) : call.run = (do
    let r ← call.ask
    pure r.rc) := by
  have hcode : ∀ m : Call Rc, m = (do
      let r ← Reply.code <$> m
      pure r.rc) := fun m => by
    have hmap : (Reply.code <$> m) = m >>= fun rc => pure (Reply.code rc) := rfl
    rw [hmap, Prog.bind_assoc]
    exact (bind_return m).symm
  cases call with
  | beginTrans wrFlag pSchemaVersion =>
    have hmap : ∀ m : Call (Rc × Option ℤ), (Reply.codeOption <$> m) = m >>= fun r => pure (Reply.codeOption r) := fun _ => rfl
    rw [TxnCall.run, TxnCall.ask, hmap, Prog.bind_assoc]
    rfl
  | beginStmt | savepoint | commitPhaseOne | rollback => exact hcode _

/-- The calls and what they return. -/
theorem ConnCall.run_eq_ask (call : ConnCall) : call.run = (do
    let r ← call.ask
    pure (call.code r)) := by
  cases call with
  | txn call => exact call.run_eq_ask
  | data call =>
    have hdata : ∀ {β : Type} (m : Call β) (f : β → Reply), call.run = ignore m → call.ask = f <$> m →
        (ConnCall.data call).run = (do
          let r ← (ConnCall.data call).ask
          pure ((ConnCall.data call).code r)) := fun m f hrun hask => by
      rw [ConnCall.run, hrun, ConnCall.ask, hask]
      exact (ask_ignored m f sqliteOk).symm
    cases call <;> exact hdata _ _ rfl rfl

end Replies

section Asking

variable {ι : Type} [DecidableEq ι]

/-- A call of one connection, with what it returns. -/
def clusterAsk (k : ClusterStep ι) : Prog (Cluster ι) Halt Reply := do
  let w ← Prog.read k.world
  let r ← Prog.zoom k.world (fun c w => c.put k.conn w) k.call.ask
  Prog.modify fun c => c.record k w.p (k.call.code r)
  pure r

/-- A call of a connection that is alone. -/
def connAsk (k : ConnCall × Answers) : Call Reply := do
  Prog.modify fun w => w.answering k.2
  k.1.ask

variable {c c' : Cluster ι} {k : ClusterStep ι} {r : Reply}

theorem clusterAsk_ok {w : World} (h : k.call.ask (k.world c) = .ok (r, w)) :
    clusterAsk k c = .ok (r, (c.put k.conn w).record k (k.world c).p (k.call.code r)) := by
  have hzoom : Prog.zoom k.world (fun c w => c.put k.conn w) k.call.ask c = .ok (r, c.put k.conn w) := zoom_of_ok h
  rw [clusterAsk, read_bind_apply, bind_of_ok hzoom]
  rfl

theorem clusterAsk_error {e : Halt} (h : k.call.ask (k.world c) = .error e) : clusterAsk k c = .error e := by
  have hzoom : Prog.zoom k.world (fun c w => c.put k.conn w) k.call.ask c = .error e := zoom_of_error h
  rw [clusterAsk, read_bind_apply, bind_of_error hzoom]

/-- A step of the cluster is a call on the world of one connection. -/
theorem clusterAsk_call (h : clusterAsk k c = .ok (r, c')) : k.call.ask (k.world c) = .ok (r, c'.world k.conn) ∧
    clusterStep k c = .ok (k.call.code r, c') := by
  cases hask : k.call.ask (k.world c) with
  | error e =>
    rw [clusterAsk_error hask] at h
    cases h
  | ok p =>
    obtain ⟨r', w⟩ := p
    rw [clusterAsk_ok hask] at h
    obtain ⟨rfl, rfl⟩ := Prod.mk.inj (Except.ok.inj h)
    have hself : ((c.put k.conn w).record k (k.world c).p (k.call.code r')).world k.conn = w := by
      rw [Cluster.world, Cluster.record, Cluster.put]
      simp only [Function.update_self]
    refine ⟨by rw [hself], ?_⟩
    have hrun : k.call.run (k.world c) = .ok (k.call.code r', w) := by
      rw [ConnCall.run_eq_ask, bind_of_ok hask]
      rfl
    have hzoom : Prog.zoom k.world (fun c w => c.put k.conn w) k.call.run c = .ok (k.call.code r', c.put k.conn w) :=
      zoom_of_ok hrun
    rw [clusterStep, read_bind_apply, bind_of_ok hzoom]
    rfl

end Asking

section Locking

variable {counted : Prop} {n : ℕ} {w w' : World}

theorem AnswersOnly.writing (h : AnswersOnly w w') (hw : w.Writing) : w'.Writing := by
  obtain ⟨a, rfl⟩ := h
  exact hw

theorem Began.locks {wrFlag : Bool} (h : Began wrFlag w w') (hrdonly : beginRdonly w.p wrFlag = false) :
    w.env.disk.locked = false ∧ w'.Writing := by
  cases h with
  | reader hrd hasData hdata hp hwriters hreaders hdisk => exact absurd (hrdonly.symm.trans hrd) (by decide)
  | writer hrd hasData hdata hp hwriters hunlocked hdisk =>
    refine ⟨hunlocked, by rw [hwriters]; exact List.cons_ne_nil _ _, ?_⟩
    rw [hp]
    rw [beginRdonly] at hrd
    split_ifs at hrd with htype
    · have hwr : wrFlag = true := by simpa using hrd
      exact .inl (by rw [hwr]; rfl)
    · cases wrFlag with
      | true => exact .inl rfl
      | false => exact .inr ⟨rfl, not_not.mp htype⟩

/-- `sqlite3BtreeBeginTrans` is asked for a write transaction of LMDB that the handle does not have. -/
def World.AsksToWrite (w : World) (wrFlag : Bool) : Prop :=
  w.p.inTrans = .none ∧ beginRdonly w.p wrFlag = false ∨ w.p.inTrans = .read ∧ wrFlag = true

/-- A connection that gets the write transaction finds it free. -/
theorem beginTrans_locks (h : Connection counted n w) (hidle : w.env.writers = []) (wrFlag pSchemaVersion : Bool) :
    Ensures (fun _ => True) (sqlite3BtreeBeginTrans wrFlag pSchemaVersion) (fun r w' => r.1 = sqliteOk →
      w.AsksToWrite wrFlag → w.env.disk.locked = false ∧ w'.Writing) w := by
  have hstack : TxnStack w → Ensures (fun _ => True) (sqlite3BtreeBeginTrans wrFlag pSchemaVersion) (fun r w' =>
      r.1 = sqliteOk → w.AsksToWrite wrFlag → w.env.disk.locked = false ∧ w'.Writing) w := by
    intro hs
    refine (beginTrans_spec (.inl fun _ => trivial) (fun _ => trivial) hs h.opened wrFlag pSchemaVersion
      fun _ _ _ _ => hidle).imp fun r w' hres hok hgets => ?_
    obtain ⟨-, hres⟩ := hres
    cases hres with
    | same ha hrc _ =>
      obtain ⟨hne, hin⟩ := hrc hok
      rcases hgets with ⟨hnone, -⟩ | ⟨hread, hwr⟩
      · exact absurd hnone hne
      · rcases hin with hwrite | hfalse
        · exact absurd (hread.symm.trans hwrite) (by decide)
        · exact absurd (hwr.symm.trans hfalse) (by decide)
    | failed hrc _ _ _ _ _ => exact absurd hok hrc
    | began w₁ _ hin _ hbegan ha =>
      rcases hgets with ⟨-, hrdonly⟩ | ⟨hread, -⟩
      · obtain ⟨hfree, hwriting⟩ := hbegan.locks hrdonly
        exact ⟨hfree, ha.writing hwriting⟩
      · exact absurd (hread.symm.trans hin) (by decide)
    | serial _ hread hwr hro htype _ =>
      cases hs with
      | idle _ hin _ => exact absurd (hread.symm.trans hin) (by decide)
      | reading _ _ _ _ _ hserial _ _ => exact absurd (hro.symm.trans (hserial htype)) (by decide)
      | writing hne hal _ _ => exact absurd hidle (hal.writers_ne hne)
    | upgraded s snapshot w₁ _ _ _ _ _ _ _ _ hup ha =>
      cases hup with
      | unsaved hrc _ _ _ _ _ => exact absurd hok hrc
      | lost hrc _ _ _ _ => exact absurd hok hrc
      | replaced shadow hp hwriters hunlocked _ _ hrc =>
        have hagree : CountersAgree w snapshot := by
          by_contra hno
          rw [if_neg hno, hok] at hrc
          cases hrc
        refine ⟨hunlocked, ha.writing ⟨by rw [hwriters]; exact List.cons_ne_nil _ _, .inl ?_⟩⟩
        rw [hp]
        exact if_pos hagree
  cases h.state with
  | idle hsvp hin hwriters => exact hstack (.idle hsvp hin hwriters)
  | reading s snapshot hsvp hin hwriters hserial hkind hview _ =>
    exact hstack (.reading s snapshot hsvp hin hwriters hserial hkind hview)
  | failed s hsvp hin hwriters =>
    exact (failed_beginTrans hsvp hin wrFlag pSchemaVersion).imp fun _ _ hr hok => absurd hok hr.1
  | lost hsvp hin htype hdata hwriters =>
    refine (lost_beginTrans hsvp hin htype hdata wrFlag pSchemaVersion).imp fun r w' hr hok hgets => ?_
    rcases hgets with ⟨hnone, -⟩ | ⟨-, hwr⟩
    · exact absurd (hin.symm.trans hnone) (by decide)
    · exact absurd hok (hr.1 hwr)
  | late s t _ _ _ hwriters _ _ => exact absurd (hidle.symm.trans hwriters) (List.cons_ne_nil _ _).symm
  | writing hw _ => exact absurd hidle (hw.aligned.writers_ne hw.nonempty)

end Locking

section Isolation

variable {same : Prop} {d : Disk}

theorem DataCall.mirrors (call : DataCall) : Mirrors (OnOtherDisk same d) call.ask := by
  cases call with
  | cursorZero => exact mirrors_newCursor.map _
  | cursor iTable wrFlag keyInfo i => exact (mirrors_cursor _ _ _ _).map _
  | closeCursor i => exact (mirrors_closeCursor i).map _
  | first i | last i => exact (mirrors_cursorMove _ _ _).map _
  | next i | previous i => exact (mirrors_cursorStep _ _).map _
  | eof i => exact ((mirrors_getCur i).bind fun c => .pure _).map _
  | tableMoveto i intKey => exact (mirrors_tableMoveto _ _).map _
  | indexMoveto i idxKey => exact (mirrors_indexMoveto _ _).map _
  | cursorHasMoved i => exact (mirrors_cursorHasMoved i).map _
  | insert i pX preformat => exact (mirrors_insert _ _ _).map _
  | delete i => exact (mirrors_delete i).map _
  | transferRow pDest pSrc iKey => exact (mirrors_transferRow _ _ _).map _
  | integerKey i => exact (mirrors_integerKey i).map _
  | payloadFetch i => exact (mirrors_payloadFetch i).map _
  | payloadSize i => exact (mirrors_payloadSize i).map _
  | count i => exact (mirrors_count i).map _
  | getMeta idx => exact (mirrors_getMeta idx).map _
  | updateMeta idx iValue => exact (mirrors_updateMeta _ _).map _
  | createTable => exact mirrors_createTable.map _
  | dropTable iTable => exact (mirrors_dropTable _).map _
  | clearTable iTable pnChange => exact (mirrors_clearTable _ _).map _

/-- The calls that end a transaction, or a part of it. -/
def TxnCall.closes : TxnCall → Bool
  | savepoint _ _ | commitPhaseOne | rollback _ _ => true
  | beginTrans _ _ | beginStmt _ => false

theorem TxnCall.mirrors (call : TxnCall) (h : call.closes = true) : Mirrors (OnOtherDisk same d) call.ask := by
  cases call with
  | beginTrans | beginStmt => cases h
  | savepoint op iSavepoint => exact (mirrors_savepoint _ _).map _
  | commitPhaseOne => exact mirrors_commitPhaseOne.map _
  | rollback tripCode writeOnly => exact (mirrors_rollback _ _).map _

theorem OnOtherDisk.answering {w a : World} (h : OnOtherDisk same d w a) (answers : Answers) :
    OnOtherDisk same d (w.answering answers) (a.answering answers) := by
  refine ⟨⟨h.env.idle, ?_, h.env.contents⟩, ?_⟩
  · rw [World.answering, World.answering, h.env.other]
    rfl
  · rw [World.answering, World.answering, h.rest]

theorem OnOtherDisk.mono {same' : Prop} {w a : World} (h : OnOtherDisk same d w a) (hsame : same' → same) :
    OnOtherDisk same' d w a := ⟨⟨h.env.idle, h.env.other, fun hs => h.env.contents (hsame hs)⟩, h.rest⟩

/-- How a connection among others is like the connection alone on a disk with the contents `before`, when `n` commits
have been made since it began to read. -/
inductive AsAlone (before : Contents) (n : ℕ) (w a : World) : Prop
  | reading (h : OnOtherDisk False ⟨before, false⟩ w a) (hdisk : n = 0 → w.env.disk.contents = before)
  | writing (hw : InWrite before w) (heq : a = w)

variable {before : Contents} {n : ℕ} {w a : World}

theorem AsAlone.answering (h : AsAlone before n w a) (answers : Answers) :
    AsAlone before n (w.answering answers) (a.answering answers) := by
  cases h with
  | reading h hdisk => exact .reading (h.answering answers) hdisk
  | writing hw heq =>
    rw [heq]
    exact .writing (hw.answersOnly ⟨answers, rfl⟩) rfl

end Isolation

section Steps

variable {ι : Type}

/-- A call inside a transaction: none is begun or ended, and a transaction that reads is only made one that writes when
commits are counted and none has been missed. -/
structure ClusterStep.Inside (counted : Prop) (k : ClusterStep ι) (r : Reply) (c : Cluster ι) : Prop where
  within : k.call.within = true
  goesOn : ∀ wrFlag pSchemaVersion, k.call = .txn (.beginTrans wrFlag pSchemaVersion) → (c.conns k.conn).p.inTrans ≠ .none
  upgraded : k.call.upgrades (c.conns k.conn).p = true → (c.conns k.conn).p.readonly = false →
    (c.conns k.conn).p.transType = transactionOptimistic → counted ∧ k.call.code r = sqliteOk

variable [DecidableEq ι] {counted : Prop} {fixedRowid : Bool} {c c' : Cluster ι} {k : ClusterStep ι} {r : Reply}
  {before : Contents} {a : World} {i : ι}

theorem ConnCall.commits_within {call : ConnCall} (h : call.within = true) (p : Btree) (rc : Rc) :
    call.commits p rc = false := by
  cases call with
  | data call => rfl
  | txn call =>
    cases call with
    | commitPhaseOne => cases h
    | beginTrans | beginStmt | savepoint | rollback => rfl

omit [DecidableEq ι] in
theorem ClusterStep.Inside.opensRead (h : k.Inside counted r c) (rc : Rc) : k.call.opensRead (k.world c).p rc = false := by
  cases hcall : k.call with
  | data call => rfl
  | txn call =>
    cases call with
    | beginTrans wrFlag pSchemaVersion =>
      refine decide_eq_false fun hopens => ?_
      exact h.goesOn wrFlag pSchemaVersion hcall hopens.2.1
    | beginStmt | savepoint | commitPhaseOne | rollback => rfl

theorem clusterAsk_since (h : clusterAsk k c = .ok (r, c')) :
    c'.since = ((c.put k.conn (c'.world k.conn)).record k (k.world c).p (k.call.code r)).since := by
  have hok := clusterAsk_ok (clusterAsk_call h).1
  rw [h] at hok
  have hc' := congrArg Prod.snd (Except.ok.inj hok)
  exact congrArg Cluster.since hc'

/-- The disk is as it was when the transaction began, and nobody writes. -/
theorem OnOtherDisk.same_disk {same : Prop} {w : World} (h : OnOtherDisk same ⟨before, false⟩ w a)
    (hcontents : w.env.disk.contents = before) (hfree : w.env.disk.locked = false) : a = w := by
  have hdisk : (⟨before, false⟩ : Disk) = w.env.disk := by
    rw [← hcontents, ← hfree]
  rw [h.rest, h.env.other, hdisk]
  rfl

/-- A call inside the transaction returns what it returns when the connection is alone. -/
theorem AsAlone.own (ha : AsAlone before (c.since k.conn).length (c.world k.conn) a) (h : Coherent counted fixedRowid c)
    (hallowed : k.Allowed c) (hcount : counted → k.Countable c) (hin : k.Inside counted r c)
    (hstep : clusterAsk k c = .ok (r, c')) :
    ∃ a', connAsk (k.call, k.answers) a = .ok (r, a') ∧
      AsAlone before (c'.since k.conn).length (c'.world k.conn) a' := by
  obtain ⟨hask, hrun⟩ := clusterAsk_call hstep
  have hdone := (clusterStep_done h hallowed hcount).of_ok hrun
  have hsince : (c'.since k.conn).length = (c.since k.conn).length := by
    rw [clusterAsk_since hstep, Cluster.record_since, ConnCall.elapsed_same (hin.opensRead _) (ConnCall.commits_within hin.within _ _)]
    rfl
  have hcontents : (c'.world k.conn).env.disk.contents = c.disk.contents :=
    hdone.effect.contents (ConnCall.commits_within hin.within _ _)
  rw [hsince]
  have hal : AsAlone before (c.since k.conn).length (k.world c) (a.answering k.answers) := ha.answering k.answers
  cases hal with
  | writing hw heq =>
    refine ⟨c'.world k.conn, ?_, .writing ((hw.within hallowed hin.within).of_ok (clusterStep_run hrun).1) rfl⟩
    rw [← hask, ← heq]
    rfl
  | reading hother hdisk =>
    have hmatched : Matched (OnOtherDisk False ⟨before, false⟩) (k.call.ask (k.world c)) (k.call.ask (a.answering k.answers)) →
        ∃ a', connAsk (k.call, k.answers) a = .ok (r, a') ∧
          AsAlone before (c.since k.conn).length (c'.world k.conn) a' := by
      intro hm
      obtain ⟨a', ha', hother'⟩ := hm.of_ok hask
      exact ⟨a', ha', .reading hother' fun hzero => hcontents.trans (hdisk hzero)⟩
    cases hcall : k.call with
    | data call =>
      rw [hcall] at hmatched
      exact hmatched (call.mirrors _ _ hother)
    | txn call =>
      rw [hcall] at hmatched
      cases call with
      | commitPhaseOne | rollback =>
        have hwithin := hin.within
        rw [hcall] at hwithin
        cases hwithin
      | savepoint op iSavepoint => exact hmatched (TxnCall.mirrors (.savepoint op iSavepoint) rfl _ _ hother)
      | beginStmt iStatement =>
        have hwrite : (k.world c).p.inTrans = .write := by
          have hal := hallowed
          rw [ClusterStep.Allowed, hcall] at hal
          exact hal
        have hw := (h.started k).inWrite hwrite
        exact absurd hother.env.idle (hw.aligned.writers_ne hw.nonempty)
      | beginTrans wrFlag pSchemaVersion =>
        have hgoes : (k.world c).p.inTrans ≠ .none := hin.goesOn wrFlag pSchemaVersion hcall
        by_cases hup : (k.world c).p.inTrans = .read ∧ wrFlag = true ∧ (k.world c).p.readonly = false ∧
            (k.world c).p.transType = transactionOptimistic
        · obtain ⟨hread, rfl, hro, htype⟩ := hup
          have hupgrades : k.call.upgrades (k.world c).p = true := by
            rw [hcall]
            exact decide_eq_true ⟨rfl, hread⟩
          obtain ⟨hcounted, hok⟩ := hin.upgraded hupgrades hro htype
          have hcontents₀ : (k.world c).env.disk.contents = before := hdisk (hdone.effect.upgraded hcounted hupgrades hok)
          rw [hcall] at hask hok
          obtain ⟨r', hbegin, rfl⟩ := of_map_ok hask
          obtain ⟨hfree, hwriting⟩ := (beginTrans_locks (h.started k) hother.env.idle true pSchemaVersion).of_ok hbegin hok
            (.inr ⟨hread, rfl⟩)
          have hsame := hother.same_disk hcontents₀ hfree
          refine ⟨c'.world k.conn, ?_, .writing ?_ rfl⟩
          · rw [← hask, ← hsame]
            rfl
          · have hw := hdone.coherent.inWrite hwriting
            have hdisk' : c'.disk.contents = before := (congrArg Disk.contents hdone.disk).trans (hcontents.trans hcontents₀)
            rwa [hdisk'] at hw
        · refine hmatched ((hother.beginTrans (fun hnone => absurd hnone hgoes) (fun hnone => absurd hnone hgoes)
            (fun hread hwr hro htype => hup ⟨hread, hwr, hro, htype⟩) pSchemaVersion).bind fun r => .pure _)

/-- The calls of the other connections are not noticed. -/
theorem AsAlone.other (ha : AsAlone before (c.since i).length (c.world i) a) (h : Coherent counted fixedRowid c)
    (hallowed : k.Allowed c) (hcount : counted → k.Countable c) (hi : i ≠ k.conn) (hstep : clusterAsk k c = .ok (r, c')) :
    AsAlone before (c'.since i).length (c'.world i) a := by
  obtain ⟨hask, hrun⟩ := clusterAsk_call hstep
  have hdone := (clusterStep_done h hallowed hcount).of_ok hrun
  have hconn : c'.conns i = c.conns i := hdone.others i hi
  have hsince : (c'.since i).length = if k.call.commits (k.world c).p (k.call.code r) then (c.since i).length + 1
      else (c.since i).length := by
    rw [clusterAsk_since hstep, Cluster.record_other _ _ _ _ hi]
    rfl
  cases ha with
  | writing hw heq =>
    obtain ⟨-, hdisk, -⟩ := h.quiet hdone.effect hi (hw.aligned.writers_ne hw.nonempty)
    have hworld : c'.world i = c.world i := by
      rw [Cluster.world, Cluster.world, hconn, hdone.disk, hdisk]
    rw [hworld]
    exact .writing hw heq
  | reading hother hdisk =>
    have hworld : c'.world i = { c.world i with env := { (c.world i).env with disk := c'.disk } } := by
      rw [Cluster.world, hconn]
      rfl
    refine .reading ⟨⟨?_, ?_, fun hf => hf.elim⟩, ?_⟩ fun hzero => ?_
    · rw [hworld]
      exact hother.env.idle
    · rw [hother.env.other, hworld]
      rfl
    · rw [hother.rest, hworld]
    · rw [hsince] at hzero
      split_ifs at hzero with hcommits
      rw [Bool.not_eq_true] at hcommits
      have hcontents : c'.disk.contents = c.disk.contents :=
        (congrArg Disk.contents hdone.disk).trans (hdone.effect.contents hcommits)
      rw [hworld]
      exact hcontents.trans (hdisk hzero)

/-- The connection alone on the contents of the disk. -/
def Cluster.alone (c : Cluster ι) (i : ι) : World :=
  { c.conns i with env := { (c.conns i).env with disk := ⟨c.disk.contents, false⟩ } }

/-- A transaction begins as if the connection was alone. -/
theorem Coherent.begins (h : Coherent counted fixedRowid c) (hcount : counted → k.Countable c) {wrFlag pSchemaVersion : Bool}
    (hcall : k.call = .txn (.beginTrans wrFlag pSchemaVersion)) (hnone : (c.conns k.conn).p.inTrans = .none)
    (hstep : clusterAsk k c = .ok (r, c')) (hok : k.call.code r = sqliteOk) :
    ∃ a, connAsk (k.call, k.answers) (c.alone k.conn) = .ok (r, a) ∧
      AsAlone c.disk.contents (c'.since k.conn).length (c'.world k.conn) a := by
  obtain ⟨hask, hrun⟩ := clusterAsk_call hstep
  have hallowed : k.Allowed c := by
    rw [ClusterStep.Allowed, hcall]
    trivial
  have hdone := (clusterStep_done h hallowed hcount).of_ok hrun
  have hcommits : k.call.commits (k.world c).p (k.call.code r) = false := by
    rw [hcall]
    rfl
  have hcontents : (c'.world k.conn).env.disk.contents = c.disk.contents := hdone.effect.contents hcommits
  have hidle : (k.world c).env.writers = [] := by
    cases (h.started k).state with
    | idle _ _ hwriters | failed _ _ _ hwriters => exact hwriters
    | lost _ hin _ _ _ | reading _ _ _ hin _ _ _ _ _ | late _ _ _ hin _ _ _ _ =>
      exact absurd (hin.symm.trans hnone) (by decide)
    | writing hw _ => exact absurd hnone hw.open
  have halone : OnOtherDisk True ⟨c.disk.contents, false⟩ (k.world c) ((c.alone k.conn).answering k.answers) :=
    ⟨⟨hidle, rfl, fun _ => rfl⟩, rfl⟩
  rw [hcall] at hask hok ⊢
  obtain ⟨r', hbegin, rfl⟩ := of_map_ok hask
  by_cases hrdonly : beginRdonly (k.world c).p wrFlag = true
  · have hmatched := halone.beginTrans (fun _ => trivial) (fun _ => hrdonly)
      (fun hread => absurd (hread.symm.trans hnone) (by decide)) pSchemaVersion
    obtain ⟨a, ha, hother⟩ := hmatched.of_ok hbegin
    refine ⟨a, ?_, .reading (hother.mono fun hf => hf.elim) fun _ => hcontents⟩
    exact bind_of_ok ha
  · obtain ⟨hfree, hwriting⟩ := (beginTrans_locks (h.started k) hidle wrFlag pSchemaVersion).of_ok hbegin hok
      (.inl ⟨hnone, by simpa using hrdonly⟩)
    have hsame := halone.same_disk rfl hfree
    refine ⟨c'.world k.conn, ?_, .writing ?_ rfl⟩
    · rw [← hask, ← hsame]
      rfl
    · have hw := hdone.coherent.inWrite hwriting
      have hdisk' : c'.disk.contents = c.disk.contents := (congrArg Disk.contents hdone.disk).trans hcontents
      rwa [hdisk'] at hw

/-- What the connection `i` calls. -/
def ClusterStep.own (i : ι) (k : ClusterStep ι) : Option (ConnCall × Answers) :=
  if k.conn = i then some (k.call, k.answers) else none

/-- A transaction of the connection `i`, begun at `c₁`, among the calls of the others; `calls` are its own and what they
have returned. With `counted` all calls are such that commits are counted. -/
inductive Transaction (counted : Prop) (fixedRowid : Bool) (i : ι) (c₁ c : Cluster ι)
    (calls : List ((ConnCall × Answers) × Reply)) : Prop
  | intro {c₀ c₂ : Cluster ι} {history : List (ClusterStep ι)} {k : ClusterStep ι} {r : Reply}
      {wrFlag pSchemaVersion : Bool} {steps : List (ClusterStep ι × Reply)} (hopened : c₀.Opened fixedRowid)
      (hhistory : Run clusterStep (fun k c => k.Allowed c ∧ (counted → k.Countable c)) c₀ history c₁)
      (hconn : k.conn = i) (hcall : k.call = .txn (.beginTrans wrFlag pSchemaVersion))
      (hcount : counted → k.Countable c₁) (hnone : (c₁.conns i).p.inTrans = .none)
      (hbegin : clusterAsk k c₁ = .ok (r, c₂)) (hok : k.call.code r = sqliteOk)
      (hrun : Trace clusterAsk (fun k r c => k.Allowed c ∧ (counted → k.Countable c) ∧ (k.conn = i → k.Inside counted r c))
        c₂ steps c)
      (hcalls : calls = ((k.call, k.answers), r) :: ownSteps (ClusterStep.own i) steps)

variable {c₁ : Cluster ι} {calls : List ((ConnCall × Answers) × Reply)}

/-- The calls of a transaction return what they return when the connection is alone. -/
theorem Transaction.alone (h : Transaction counted fixedRowid i c₁ c calls) : Coherent counted fixedRowid c ∧
    ∃ a, Trace connAsk (fun _ _ _ => True) (c₁.alone i) calls a ∧
      AsAlone c₁.disk.contents (c.since i).length (c.world i) a := by
  cases h with
  | @intro c₀ c₂ history k r wrFlag pSchemaVersion steps hopened hhistory hconn hcall hcount hnone hbegin hok hrun hcalls =>
    subst hconn hcalls
    have h₁ : Coherent counted fixedRowid c₁ := hopened.coherent.run hhistory
    have hallowed : k.Allowed c₁ := by
      rw [ClusterStep.Allowed, hcall]
      trivial
    have h₂ := ((clusterStep_done h₁ hallowed hcount).of_ok (clusterAsk_call hbegin).2).coherent
    obtain ⟨a₁, hfirst, ha₁⟩ := h₁.begins hcount hcall hnone hbegin hok
    have hcoherent : ∀ (k : ClusterStep ι) (r : Reply) (s s' : Cluster ι), Coherent counted fixedRowid s → k.Allowed s →
        (counted → k.Countable s) → clusterAsk k s = .ok (r, s') → Coherent counted fixedRowid s' :=
      fun k r s s' hs hal hc hstep => ((clusterStep_done hs hal hc).of_ok (clusterAsk_call hstep).2).coherent
    have hproject := Trace.project connAsk (ClusterStep.own k.conn) (fun s a => Coherent counted fixedRowid s ∧
      AsAlone c₁.disk.contents (s.since k.conn).length (s.world k.conn) a) (fun j j' r s s' t hR hcond hown hstep => ?_)
      (fun j r s s' t hR hcond hown hstep => ?_) hrun ⟨h₂, ha₁⟩
    · obtain ⟨a, htrace, hend, ha⟩ := hproject
      exact ⟨hend, a, .cons trivial hfirst htrace, ha⟩
    · obtain ⟨hs, ha⟩ := hR
      obtain ⟨hal, hc, hin⟩ := hcond
      rw [ClusterStep.own] at hown
      split_ifs at hown with hj
      obtain rfl := Option.some.inj hown
      rw [← hj] at ha ⊢
      obtain ⟨t', hask, ha'⟩ := ha.own hs hal hc (hin hj) hstep
      exact ⟨t', hask, hcoherent j r s s' hs hal hc hstep, ha'⟩
    · obtain ⟨hs, ha⟩ := hR
      obtain ⟨hal, hc, -⟩ := hcond
      rw [ClusterStep.own] at hown
      split_ifs at hown with hj
      exact ⟨hcoherent j r s s' hs hal hc hstep, ha.other hs hal hc (fun hi => hj hi.symm) hstep⟩

end Steps

end LumoSql.Btree
