import LumoSql.TransactionEnd
import Mathlib.Tactic.Common

/-! Whether `inTrans` and the stack of transactions agree in every run of the transaction
calls, whichever calls of LMDB fail. -/
namespace LumoSql.Btree
open StateLogic Lmdb

/-- What callers rely on: the stack is empty exactly outside transactions, and its bottom is
alive and of the kind `inTrans` says. -/
structure TxnConsistent (w : World) : Prop where
  none_iff : w.p.inTrans = .none ↔ w.p.svp = []
  bottom : w.p.inTrans ≠ .none → ∃ s k, w.p.svp.getLast? = some s ∧
    w.env.kind s.txn = some k ∧ (w.p.inTrans = .write → k = .readWrite) ∧
    (w.p.inTrans = .read → w.p.transType ≠ transactionSerialise → k = .readOnly)

/-- What the transaction calls keep on a handle without cursors. -/
structure TxnInvariant (w : World) : Prop where
  stack : TxnStack w
  opened : w.env.readonly = w.p.readonly
  noCursors : w.p.firstCursor = none
  kinds : w.p.inTrans = .read → w.p.transType ≠ transactionSerialise → w.env.writers = []

theorem TxnInvariant.consistent {w : World} (h : TxnInvariant w) : TxnConsistent w := by
  cases h.stack with
  | idle hsvp hin hwriters => exact ⟨iff_of_true hin hsvp, fun hne => absurd hin hne⟩
  | reading s snapshot hsvp hin hwriters hserial hkind hview =>
    refine ⟨iff_of_false (by rw [hin]; decide) (by rw [hsvp]; simp), fun _ => ?_⟩
    refine ⟨s, .readOnly, by rw [hsvp]; rfl, hkind, fun hwr => ?_, fun _ _ => rfl⟩
    exact absurd (hin.symm.trans hwr) (by decide)
  | writing hne hal hnum hin =>
    refine ⟨iff_of_false hin hne, fun _ => ?_⟩
    have hmem : (w.p.svp.getLast hne).txn ∈ w.env.writers.map WriteTxn.id := by
      rw [← hal.ids]
      exact List.mem_map_of_mem (List.getLast_mem hne)
    refine ⟨w.p.svp.getLast hne, .readWrite, List.getLast?_eq_some_getLast hne, ?_, fun _ => rfl,
      fun hr htype => ?_⟩
    · rw [Env.kind, if_pos hmem]
    · rw [h.kinds hr htype] at hmem
      simp at hmem

/-- The calls a run is made of. -/
inductive TxnCall
  | beginTrans (wrFlag pSchemaVersion : Bool)
  | beginStmt (iStatement : ℕ)
  | savepoint (op : SavepointOp) (iSavepoint : ℤ)
  | commitPhaseOne
  | rollback (tripCode : Rc) (writeOnly : Bool)

def TxnCall.run : TxnCall → Call Rc
  | beginTrans wrFlag pSchemaVersion => do
    let r ← sqlite3BtreeBeginTrans wrFlag pSchemaVersion
    pure r.1
  | beginStmt iStatement => sqlite3BtreeBeginStmt iStatement
  | savepoint op iSavepoint => sqlite3BtreeSavepoint op iSavepoint
  | commitPhaseOne => sqlite3BtreeCommitPhaseOne
  | rollback tripCode writeOnly => sqlite3BtreeRollback tripCode writeOnly

/-- The state of a call: the codes LMDB gives during it, and the disk as other processes have
left it, unless a write transaction keeps them out. -/
def World.meanwhile (w : World) (answers : Answers) (disk : Disk) : World :=
  { w with env := { w.env with
      answers := answers
      disk := if w.env.writers.isEmpty then disk else w.env.disk } }

structure TxnStep where
  call : TxnCall
  answers : Answers
  disk : Disk

def txnStep (k : TxnStep) : Call Rc := do
  Prog.modify fun w => w.meanwhile k.answers k.disk
  k.call.run

/-- The calls after which the two descriptions agree: an optimistic upgrade that gives up its
snapshot gets a write transaction on the same commit, and a commit that comes to the outermost
transaction succeeds there. A statement is begun only inside a transaction. -/
def TxnCall.Safe (call : TxnCall) (w : World) : Prop :=
  match call with
  | .beginTrans wrFlag _ => wrFlag = true → w.p.inTrans = .read → w.p.readonly = false →
      w.p.transType = transactionOptimistic →
      ¬ BeginStops w ∧ ∀ s ∈ w.p.svp, ∀ c, w.env.view s.txn = some c → CountersAgree w c
  | .beginStmt _ => w.p.inTrans ≠ .none
  | .commitPhaseOne => w.p.inTrans = .write → ¬ CommitStops w
  | _ => True

def TxnStep.Safe (k : TxnStep) (w : World) : Prop := k.call.Safe (w.meanwhile k.answers k.disk)

theorem TxnInvariant.meanwhile {w : World} (h : TxnInvariant w) (answers : Answers) (disk : Disk) :
    TxnInvariant (w.meanwhile answers disk) := by
  refine ⟨?_, h.opened, h.noCursors, h.kinds⟩
  cases h.stack with
  | idle hsvp hin hwriters => exact .idle hsvp hin hwriters
  | reading s snapshot hsvp hin hwriters hserial hkind hview =>
    exact .reading s snapshot hsvp hin hwriters hserial hkind hview
  | writing hne hal hnum hin =>
    refine .writing hne ⟨hal.ids, ?_⟩ hnum hin
    have hids := hal.ids
    rw [World.meanwhile]
    cases hw : w.env.writers with
    | nil =>
      rw [hw] at hids
      exact absurd (List.map_eq_nil_iff.mp hids) hne
    | cons t ts => exact hal.locked

theorem TxnInvariant.answers {w w' : World} (h : TxnInvariant w) (ha : AnswersOnly w w') :
    TxnInvariant w' := by
  have hs := ha.stack h.stack
  obtain ⟨a, rfl⟩ := ha
  exact ⟨hs, h.opened, h.noCursors, h.kinds⟩

theorem TxnInvariant.of_stack {w w' : World} (hw : TxnInvariant w) (hsame : SameHandle w w')
    (hs : TxnStack w')
    (hp : w'.p.readonly = w.p.readonly ∧ w'.p.firstCursor = w.p.firstCursor)
    (hkinds : w'.p.inTrans = .read → w'.p.transType ≠ transactionSerialise →
      w'.env.writers = []) : TxnInvariant w' :=
  ⟨hs, by rw [hsame.readonly, hp.1, hw.opened], hp.2.trans hw.noCursors, hkinds⟩

/-- After the end of a transaction there is none. -/
theorem Ended.invariant {w w' : World} (h : Ended w w') (hw : TxnInvariant w) : TxnInvariant w' := by
  refine ⟨.idle (by rw [h.p]) (by rw [h.p]) h.writers, ?_, by rw [h.p]; exact hw.noCursors, ?_⟩
  · rw [h.readonly, h.p]
    exact hw.opened
  · rw [h.p]
    intro hr
    cases hr

section Step

variable {E : Halt → Prop} {w : World}

theorem beginTrans_invariant (hw : TxnInvariant w) (hblocked : E .blocked)
    {wrFlag pSchemaVersion : Bool} (hsafe : (TxnCall.beginTrans wrFlag pSchemaVersion).Safe w) :
    Ensures E (sqlite3BtreeBeginTrans wrFlag pSchemaVersion) (fun _ w' => TxnInvariant w') w := by
  have hfirst : wrFlag = true → w.p.readonly = false → w.p.inTrans = .read →
      w.p.transType = transactionOptimistic → w.env.writers = [] := by
    intro _ _ hr htype
    exact hw.kinds hr (by rw [htype]; decide)
  refine (beginTrans_spec (.inr hw.noCursors) (fun _ => hblocked) hw.stack hw.opened wrFlag
    pSchemaVersion hfirst).imp fun r w' h => ?_
  obtain ⟨hsame, h⟩ := h
  cases h with
  | same h _ _ => exact hw.answers h
  | failed hrc hin hp hwriters hdisk hcause =>
    have hsvp : w.p.svp = [] := hw.consistent.none_iff.mp hin
    exact hw.of_stack hsame (.idle (by rw [hp, hsvp]) (by rw [hp, hin]) hwriters)
      (by rw [hp]; exact ⟨rfl, rfl⟩) fun _ _ => hwriters
  | began w₁ hrc hin hallowed h h' =>
    have hs := h'.stack (h.stack hallowed)
    cases h with
    | reader hrdonly hasData _ hp hwriters hreaders hdisk =>
      exact hw.of_stack hsame hs (by rw [h'.p, hp]; exact ⟨rfl, rfl⟩) fun _ _ => by
        rw [h'.writers, hwriters]
    | writer hrdonly hasData _ hp hwriters hunlocked hdisk =>
      refine hw.of_stack hsame hs (by rw [h'.p, hp]; exact ⟨rfl, rfl⟩) ?_
      rw [h'.p, hp]
      intro hr htype
      have htype' : w.p.transType ≠ transactionSerialise := htype
      rw [beginRdonly, if_pos htype'] at hrdonly
      have hwr : wrFlag = true := by simpa using hrdonly
      rw [hwr] at hr
      cases hr
  | serial hrc hin hwr hro htype h =>
    have hs : TxnStack { w with p := { w.p with inTrans := .write } } := by
      cases hw.stack with
      | idle _ hnone _ => exact absurd (hnone.symm.trans hin) (by decide)
      | reading _ _ _ _ _ hserial _ _ => exact absurd ((hserial htype).symm.trans hro) (by decide)
      | writing hne hal hnum _ => exact .writing hne ⟨hal.ids, hal.locked⟩ hnum (by simp)
    refine hw.of_stack hsame (h.stack hs) (by rw [h.p]; exact ⟨rfl, rfl⟩) ?_
    rw [h.p]
    intro hr
    cases hr
  | upgraded s snapshot w₁ hin hwr hro htype hsvp hwriters hkind hview h h' =>
    obtain ⟨hstops, hagree⟩ := hsafe hwr hin hro htype
    have hagree' := hagree s (by rw [hsvp]; exact List.mem_cons_self) snapshot hview
    cases h with
    | unsaved hrc hp hwriters' hreaders hdisk hnext =>
      have hs := (Upgraded.unsaved hrc hp hwriters' hreaders hdisk hnext :
        Upgraded w s snapshot _ w₁).stack hw.stack hin hwriters (by rw [hp, hsvp]; simp)
      exact hw.of_stack hsame (h'.stack hs) (by rw [h'.p, hp]; exact ⟨rfl, rfl⟩) fun _ _ => by
        rw [h'.writers, hwriters']
    | lost hrc hp hwriters' hdisk hcause => exact absurd hcause hstops
    | replaced shadow hp hwriters' hunlocked hdisk hdata hrc =>
      have hs := (Upgraded.replaced shadow hp hwriters' hunlocked hdisk hdata hrc :
        Upgraded w s snapshot _ w₁).stack hw.stack hin hwriters (by rw [hp]; simp)
      refine hw.of_stack hsame (h'.stack hs) (by rw [h'.p, hp]; exact ⟨rfl, rfl⟩) ?_
      rw [h'.p, hp, if_pos hagree']
      intro hr
      cases hr

theorem beginStmt_invariant (hw : TxnInvariant w) (hin : w.p.inTrans ≠ .none) (iStatement : ℕ) :
    Ensures E (sqlite3BtreeBeginStmt iStatement) (fun _ w' => TxnInvariant w') w := by
  refine (beginStmt_spec hw.stack hin iStatement).imp fun rc w' h => ?_
  obtain ⟨hsame, h⟩ := h
  cases h with
  | same hrc h => exact hw.answers h
  | opened t ts hrc hwr hp hwriters hdisk =>
    cases hw.stack with
    | idle _ hnone _ => exact absurd hnone hin
    | reading _ _ _ _ hempty _ _ _ => exact absurd (hempty.symm.trans hwr) (by simp)
    | writing hne hal hnum _ =>
      have hs : TxnStack w' := by
        refine .writing (by rw [hp]; simp) ⟨?_, by rw [hdisk]; exact hal.locked⟩ ?_ (by rw [hp]; exact hin)
        · rw [hp, hwriters, List.map_cons, List.map_cons, hal.ids]
        · rw [hp]
          intro s hs
          rw [List.dropLast_cons_of_ne_nil hne] at hs
          rcases List.mem_cons.mp hs with rfl | hs
          · exact Int.natCast_nonneg _
          · exact hnum s hs
      refine hw.of_stack hsame hs (by rw [hp]; exact ⟨rfl, rfl⟩) ?_
      rw [hp]
      intro hr htype
      exact absurd ((hw.kinds hr htype).symm.trans hwr) (by simp)

/-- Closing levels keeps the last one. -/
theorem LevelsClosed.invariant {nTo : ℤ} {commit : Bool} {tripCode rc rc' : Rc} {w' : World}
    (h : LevelsClosed (closedCount nTo w.p.svp) commit tripCode rc w rc' w') (hw : TxnInvariant w)
    (hne : w.p.svp ≠ []) (hal : Aligned w) (hnum : Numbered w.p) : TxnInvariant w' := by
  have hlt := closedCount_lt nTo w.p.svp hne
  have hin : w.p.inTrans ≠ .none := fun hnone => hne (hw.consistent.none_iff.mp hnone)
  have hp : w'.p.inTrans = w.p.inTrans ∧ w'.p.transType = w.p.transType := by
    rw [h.only.p]
    exact ⟨rfl, rfl⟩
  have hs : TxnStack w' := by
    refine .writing ?_ (h.aligned hal hlt) ?_ (by rw [hp.1]; exact hin)
    · rw [h.svp]
      exact List.ne_nil_of_length_pos (by rw [List.length_drop]; omega)
    · intro s hs
      rw [h.svp] at hs
      refine hnum s ?_
      rw [List.dropLast_drop_eq_drop_dropLast] at hs
      exact List.mem_of_mem_drop hs
  refine hw.of_stack ⟨h.only.build, h.only.nCurs, h.only.readonly⟩ hs
    (by rw [h.only.p]; exact ⟨rfl, rfl⟩) fun hr htype => ?_
  have hids := hal.ids
  rw [hw.kinds (hp.1 ▸ hr) (hp.2 ▸ htype)] at hids
  exact absurd (List.map_eq_nil_iff.mp hids) hne

theorem savepoint_invariant (hw : TxnInvariant w) (hnull : E .nullPointer) (op : SavepointOp)
    (iSavepoint : ℤ) :
    Ensures E (sqlite3BtreeSavepoint op iSavepoint) (fun _ w' => TxnInvariant w') w := by
  refine (savepoint_spec (.inr hw.noCursors) hnull hw.stack op iSavepoint).imp fun rc w' h => ?_
  cases h with
  | same h _ =>
    rw [h]
    exact hw
  | closed rc' hrc _ hne hal hnum h => exact h.invariant hw hne hal hnum
  | ended hneg hrc hended => exact hended.invariant hw

theorem commitPhaseOne_invariant (hw : TxnInvariant w) (hsafe : TxnCall.commitPhaseOne.Safe w) :
    Ensures E sqlite3BtreeCommitPhaseOne (fun _ w' => TxnInvariant w') w := by
  cases hin : w.p.inTrans with
  | none =>
    rw [sqlite3BtreeCommitPhaseOne, ensures_bind, ensures_getP, if_pos hin]
    exact hw
  | read => exact (commitPhaseOne_read (.inr hw.noCursors) hw.stack hin).imp fun _ _ h =>
      h.2.invariant hw
  | write =>
    cases hw.stack with
    | idle _ hnone _ => exact absurd (hnone.symm.trans hin) (by decide)
    | reading _ _ _ hread _ _ _ _ => exact absurd (hread.symm.trans hin) (by decide)
    | writing hne hal hnum _ =>
      refine (commitPhaseOne_spec (.inr hw.noCursors) hal hne hnum hin).imp fun rc w' h => ?_
      cases h with
      | nested s b hrc honly hsvp hwriters ht hb _ =>
        have hp : w'.p.inTrans = .write := by rw [honly.p, ← hin]
        have hs : TxnStack w' := by
          refine .writing (by rw [hsvp]; simp) ⟨?_, by rw [honly.disk]; exact hal.locked⟩ ?_
            (by rw [hp]; decide)
          · rw [hsvp, hwriters, List.map_cons, List.map_cons, ht]
            rfl
          · intro s' hs'
            rw [hsvp] at hs'
            cases hs'
        refine hw.of_stack ⟨honly.build, honly.nCurs, honly.readonly⟩ hs
          (by rw [honly.p]; exact ⟨rfl, rfl⟩) fun hr => ?_
        exact absurd (hp.symm.trans hr) (by decide)
      | dropped hrc hended _ => exact hended.invariant hw
      | failed s hrc hbuild hreadonly hp hwriters hdisk hcause => exact absurd hcause (hsafe hin)
      | done t hrc hbuild hnCurs hreadonly hp hwriters ht hdata hdisk _ =>
        exact hw.of_stack ⟨hbuild, hnCurs, hreadonly⟩
          (.idle (by rw [hp]) (by rw [hp]) hwriters) (by rw [hp]; exact ⟨rfl, rfl⟩)
          fun _ _ => hwriters

theorem rollback_invariant (hw : TxnInvariant w) (tripCode : Rc) (writeOnly : Bool) :
    Ensures E (sqlite3BtreeRollback tripCode writeOnly) (fun _ w' => TxnInvariant w') w := by
  refine (rollback_spec (.inr hw.noCursors) hw.stack tripCode writeOnly).imp fun rc w' h => ?_
  obtain ⟨_, ⟨_, rfl⟩ | ⟨_, hended⟩⟩ := h
  · exact hw
  · exact hended.invariant hw

end Step

section Open

variable {E : Halt → Prop} {w : World}

/-- A handle in new memory on an environment without transactions. -/
structure Fresh (w : World) : Prop where
  svp : w.p.svp = []
  inTrans : w.p.inTrans = .none
  firstCursor : w.p.firstCursor = none
  writers : w.env.writers = []
  opened : w.env.readonly = w.p.readonly

/-- While the handle is opened it holds one transaction that is not on its stack. -/
inductive OpenTxn (w w₁ : World) (txn : ℕ) : Prop
  | reader (c : Contents) (transType : ℕ) (hro : w.p.readonly = true)
      (hp : w₁.p = { w.p with transType := transType })
      (hopen : w₁.env.readonly = w.env.readonly) (hwriters : w₁.env.writers = [])
      (hkind : w₁.env.kind txn = some .readOnly) (hview : w₁.env.view txn = some c)
  | writer (t : WriteTxn) (transType : ℕ) (hro : w.p.readonly = false)
      (hp : w₁.p = { w.p with transType := transType })
      (hopen : w₁.env.readonly = w.env.readonly) (hwriters : w₁.env.writers = [t]) (ht : t.id = txn)

theorem Fresh.invariant {w' : World} (h : Fresh w) (transType : ℕ)
    (hp : w'.p = { w.p with transType := transType }) (hopen : w'.env.readonly = w.env.readonly)
    (hwriters : w'.env.writers = []) : TxnInvariant w' := by
  refine ⟨.idle (by rw [hp, ← h.svp]) (by rw [hp, ← h.inTrans]) hwriters, ?_, ?_, fun _ _ => hwriters⟩
  · rw [hopen, hp]
    exact h.opened
  · rw [hp]
    exact h.firstCursor

theorem OpenTxn.abort {w₁ : World} {txn : ℕ} (h : OpenTxn w w₁ txn) (hw : Fresh w) :
    Ensures E (lmdb (mdbTxnAbort txn)) (fun _ w' => TxnInvariant w') w₁ := by
  rw [ensures_lmdb]
  cases h with
  | reader c transType hro hp hopen hwriters hkind hview =>
    rw [documented.txnAbort_reader hkind]
    exact hw.invariant _ hp hopen hwriters
  | writer t transType hro hp hopen hwriters ht =>
    rw [← ht, documented.txnAbort hwriters, abort_writer hwriters]
    exact hw.invariant _ hp hopen rfl

/-- Opening a database for writing keeps the one write transaction. -/
theorem OpenTxn.create {w₁ : World} {t : WriteTxn} {transType : ℕ} (hro : w.p.readonly = false)
    (hp : w₁.p = { w.p with transType := transType }) (hopen : w₁.env.readonly = w.env.readonly)
    (hwriters : w₁.env.writers = [t]) (db : DbName) :
    Ensures E (lmdb (mdbDbiOpen t.id db true)) (fun _ w₂ => OpenTxn w w₂ t.id) w₁ := by
  rw [ensures_lmdb, documented.dbiOpen_create hwriters]
  have hwpop : (w₁.env.pop .dbiOpen).writers = [t] := hwriters
  split_ifs
  · exact .writer t transType hro hp hopen hwriters rfl
  · exact .writer t transType hro hp hopen hwriters rfl
  · exact .writer _ transType hro hp hopen (setView_writers hwpop db (some [])) rfl

theorem openTables_spec {w₁ : World} {txn : ℕ} (h : OpenTxn w w₁ txn) :
    Ensures E (openTables w.p.readonly txn) (fun _ w₂ => OpenTxn w w₂ txn) w₁ := by
  rw [openTables]
  cases h with
  | reader c transType hro hp hopen hwriters hkind hview =>
    rw [if_pos hro, ensures_lmdb, documented.dbiOpen hkind hview]
    exact .reader c transType hro hp hopen hwriters hkind hview
  | writer t transType hro hp hopen hwriters ht =>
    rw [if_neg (by rw [hro]; decide), ensures_bind, ← ht]
    refine (OpenTxn.create hro hp hopen hwriters (.table 1)).imp fun rc w₂ h => ?_
    rw [ensures_ite]
    split_ifs
    · exact h
    · cases h with
      | reader _ _ hro' _ _ _ _ _ => exact absurd (hro'.symm.trans hro) (by decide)
      | writer t' transType' _ hp' hopen' hwriters' ht' =>
        rw [← ht']
        exact OpenTxn.create hro hp' hopen' hwriters' .metadata

theorem OpenTxn.live {w₁ : World} {txn : ℕ} (h : OpenTxn w w₁ txn) :
    ∃ k c, w₁.env.kind txn = some k ∧ w₁.env.view txn = some c := by
  cases h with
  | reader c transType hro hp hopen hwriters hkind hview => exact ⟨_, c, hkind, hview⟩
  | writer t transType hro hp hopen hwriters ht =>
    rw [← ht]
    exact ⟨_, t.view, kind_writer hwriters, view_writer hwriters⟩

theorem openEnd_spec {w₁ : World} {txn : ℕ} (h : OpenTxn w w₁ txn) (hw : Fresh w) (transType : ℕ) :
    Ensures E (openEnd w.p.readonly txn transType) (fun _ w' => TxnInvariant w') w₁ := by
  have h₁ : OpenTxn w { w₁ with p := { w₁.p with transType := transType } } txn := by
    cases h with
    | reader v _ hro hp hopen hwriters hkind hview =>
      exact .reader v transType hro (by rw [hp]) hopen hwriters hkind hview
    | writer t _ hro hp hopen hwriters ht =>
      exact .writer t transType hro (by rw [hp]) hopen hwriters ht
  rw [openEnd, ensures_bind, ensures_setP, ensures_ite]
  split_ifs with htype hro
  · rw [ensures_bind]
    exact h₁.abort hw
  · rw [ensures_bind]
    exact h₁.abort hw
  · rw [ensures_bind, ensures_lmdb]
    cases h₁ with
    | reader _ _ hro' _ _ _ _ _ => exact absurd hro' hro
    | writer t transType' _ hp hopen hwriters ht =>
      rw [← ht]
      refine (documented.txnCommit hwriters _).mpr ?_
      have hwpop : (w₁.env.pop .txnCommit).writers = [t] := hwriters
      split_ifs
      · exact hw.invariant _ hp hopen (congrArg Env.writers (abort_writer hwpop))
      · have hcommit := commit_outermost hwpop
        exact hw.invariant _ hp ((congrArg Env.readonly hcommit).trans hopen)
          (congrArg Env.writers hcommit)

/-- The new transaction is ended in any case. -/
theorem openOpened_spec {w₁ : World} {txn : ℕ} (h : OpenTxn w w₁ txn) (hw : Fresh w) :
    Ensures E (do
      let rc ← openTables w.p.readonly txn
      if rc ≠ 0 then do
        lmdb (mdbTxnAbort txn)
        pure (errorMap rc)
      else do
        let t ← getMeta32Direct txn lumoLmdbTransaction
        openEnd w.p.readonly txn (t % 256).toNat) (fun _ w' => TxnInvariant w') w₁ := by
  rw [ensures_bind]
  refine (openTables_spec h).imp fun rc w₂ h₂ => ?_
  rw [ensures_ite]
  split_ifs
  · rw [ensures_bind]
    exact h₂.abort hw
  · obtain ⟨k, c, hkind, hview⟩ := h₂.live
    rw [ensures_bind, getMeta32Direct, ensures_bind, ensures_lmdb, documented.get hkind hview]
    have h₃ : OpenTxn w (w₂.pop .get) txn := by
      cases h₂ with
      | reader v transType hro hp hopen hwriters hkind hview =>
        exact .reader v transType hro hp hopen hwriters hkind hview
      | writer t transType hro hp hopen hwriters ht =>
        exact .writer t transType hro hp hopen hwriters ht
    simp only [ensures_ite, ensures_pure]
    split_ifs <;> exact openEnd_spec h₃ hw _

theorem open_invariant (hw : Fresh w) (hblocked : E .blocked) :
    Ensures E sqlite3BtreeOpen (fun _ w' => TxnInvariant w') w := by
  rw [sqlite3BtreeOpen, ensures_bind, ensures_getP, ensures_bind, ensures_lmdb, ensures_answer,
    ensures_ite]
  by_cases henv : (w.env.answers .envOpen).headD 0 ≠ 0
  · rw [if_pos henv]
    exact hw.invariant w.p.transType rfl rfl hw.writers
  have hopen : (w.env.pop .envOpen).readonly = true → w.p.readonly = true := fun h =>
    hw.opened.symm.trans h
  rw [if_neg henv, ensures_bind, ensures_lmdb]
  refine (documented.txnBegin hopen _).mpr ?_
  by_cases hrc : ((w.env.pop .envOpen).answers .txnBegin).headD 0 ≠ 0
  · rw [if_pos hrc, if_pos hrc]
    exact hw.invariant w.p.transType rfl rfl hw.writers
  rw [if_neg hrc]
  by_cases hro : w.p.readonly = true
  · have hsnap := view_snapshot (e := ((w.env.pop .envOpen).pop .txnBegin).beginReader)
      (r := ⟨w.env.next, w.env.disk.contents⟩) hw.writers rfl
    rw [if_pos hro, if_neg (not_not.mpr rfl)]
    exact openOpened_spec (.reader _ w.p.transType hro rfl rfl hw.writers hsnap.1 hsnap.2) hw
  rw [if_neg hro]
  by_cases hlocked : (w.env.pop .envOpen).disk.locked = true
  · rw [if_pos hlocked]
    exact hblocked
  · rw [if_neg hlocked, if_neg (not_not.mpr rfl)]
    exact openOpened_spec (.writer _ w.p.transType (by simpa using hro) rfl rfl rfl rfl) hw

end Open

/-- Whatever has happened, a rollback returns and a transaction can be begun after it, if no
other process holds the lock. -/
def RestartsAfterRollback (w : World) : Prop :=
  ∀ tripCode writeOnly answers disk, Ensures (fun _ => False)
    (sqlite3BtreeRollback tripCode writeOnly) (fun _ w' => ∀ wrFlag pSchemaVersion,
      ¬ (wrFlag = true ∧ w'.p.readonly = true) → w'.env.disk.locked = false →
      (w'.env.disk.contents .metadata).isSome = true →
      Ensures (fun _ => False) (sqlite3BtreeBeginTrans wrFlag pSchemaVersion)
        (fun r _ => r.1 = sqliteOk) (w'.meanwhile (fun _ => []) w'.env.disk))
    (w.meanwhile answers disk)

theorem TxnInvariant.begins {w : World} (h : TxnInvariant w) (hin : w.p.inTrans = .none)
    (hcalm : w.env.Calm) {wrFlag pSchemaVersion : Bool}
    (hallowed : ¬ (wrFlag = true ∧ w.p.readonly = true)) (hlocked : w.env.disk.locked = false)
    (hdata : (w.env.disk.contents .metadata).isSome = true) :
    Ensures (fun _ => False) (sqlite3BtreeBeginTrans wrFlag pSchemaVersion)
      (fun r _ => r.1 = sqliteOk) w := by
  have hnot : ∀ {s}, w.p.inTrans = s → s ≠ .none → False := fun hs hne => hne (hs.symm.trans hin)
  refine (beginTrans_spec (.inr h.noCursors) (fun hl => ?_) h.stack h.opened wrFlag pSchemaVersion
    fun _ _ hr _ => (hnot hr (by decide)).elim).imp fun r w' hres => ?_
  · rw [hlocked] at hl
    cases hl
  obtain ⟨-, hres⟩ := hres
  cases hres with
  | same ha hrc hno =>
    by_contra hne
    obtain ⟨hwr, hro | hin'⟩ := hno hne
    · exact hallowed ⟨hwr, hro⟩
    · exact hin' hin
  | failed hrc hin hp hwriters hdisk hcause =>
    rcases hcause with hc | hc | hc | hc
    · exact absurd (hcalm.head .malloc) hc
    · exact absurd (hcalm.head .txnBegin) hc
    · exact absurd (hcalm.head .dbiOpen) hc
    · exact absurd (hc.symm.trans hdata) (by decide)
  | began w₁ hrc hin hallowed h h' => exact hrc
  | serial hrc hr hwr hro htype h => exact hrc
  | upgraded s snapshot w₁ hr _ _ _ _ _ _ _ _ _ => exact (hnot hr (by decide)).elim

theorem TxnInvariant.restarts {w : World} (h : TxnInvariant w) : RestartsAfterRollback w := by
  intro tripCode writeOnly answers disk
  have hw := h.meanwhile answers disk
  refine ((rollback_invariant hw tripCode writeOnly).and (rollback_spec (.inr hw.noCursors) hw.stack
    tripCode writeOnly)).imp fun rc w' hres => ?_
  obtain ⟨hw', -, hend⟩ := hres
  have hin : w'.p.inTrans = .none := by
    rcases hend with ⟨hin, rfl⟩ | ⟨_, hended⟩
    · exact hin
    · rw [hended.p]
  intro wrFlag pSchemaVersion hallowed hlocked hdata
  have hdisk : (w'.meanwhile (fun _ => []) w'.env.disk).env.disk = w'.env.disk := by
    rw [World.meanwhile]
    exact ite_self _
  exact (hw'.meanwhile (fun _ => []) w'.env.disk).begins hin (fun _ => rfl) hallowed
    (by rw [hdisk]; exact hlocked) (by rw [hdisk]; exact hdata)

theorem txnStep_invariant {w : World} (h : TxnInvariant w) {k : TxnStep} (hsafe : k.Safe w) :
    Ensures (fun _ => True) (txnStep k) (fun _ w' => TxnInvariant w') w := by
  have hw := h.meanwhile k.answers k.disk
  rw [txnStep, ensures_bind, ensures_modify]
  rw [TxnStep.Safe] at hsafe
  cases hcall : k.call with
  | beginTrans wrFlag pSchemaVersion =>
    rw [hcall] at hsafe
    rw [TxnCall.run, ensures_bind]
    exact beginTrans_invariant hw trivial hsafe
  | beginStmt iStatement =>
    rw [hcall] at hsafe
    exact beginStmt_invariant hw hsafe iStatement
  | savepoint op iSavepoint => exact savepoint_invariant hw trivial op iSavepoint
  | commitPhaseOne =>
    rw [hcall] at hsafe
    exact commitPhaseOne_invariant hw hsafe
  | rollback tripCode writeOnly => exact rollback_invariant hw tripCode writeOnly

/-- In every run whose calls meet the condition the two descriptions agree after every call,
and a rollback makes room for a new transaction. -/
theorem txn_consistent_of_run {w₀ w w' : World} {rc : Rc} (hfresh : Fresh w₀)
    (hopen : sqlite3BtreeOpen w₀ = .ok (rc, w)) {steps : List TxnStep}
    (hrun : Run txnStep TxnStep.Safe w steps w') : TxnConsistent w' ∧ RestartsAfterRollback w' := by
  have hw : TxnInvariant w := (open_invariant (E := fun _ => True) hfresh trivial).of_ok hopen
  have hw' : TxnInvariant w' := hrun.invariant (fun k s hs hk => txnStep_invariant hs hk) hw
  exact ⟨hw'.consistent, hw'.restarts⟩

/-- A handle on an empty environment. -/
def freshHandle : World where
  fixedRowid := false
  env := ⟨⟨fun _ => none, false⟩, false, [], [], fun _ => none, 0, fun _ => [], .entries⟩
  p := ⟨false, false, false, 0, 0, .none, [], false, none, none, false⟩
  curs := fun _ => .zero
  nCurs := 0

theorem freshHandle_fresh : Fresh freshHandle := ⟨rfl, rfl, rfl, rfl, rfl⟩

/-- The tables `sqlite3BtreeOpen` creates. -/
def newDisk : Disk := ⟨fun db => if db = .table 1 ∨ db = .metadata then some [] else none, false⟩

def plainStep (call : TxnCall) : TxnStep := ⟨call, fun _ => [], newDisk⟩

theorem txn_consistent_of_run_sample : ∃ w w', sqlite3BtreeOpen freshHandle = .ok (sqliteOk, w) ∧
    Run txnStep TxnStep.Safe w [plainStep (.beginTrans true false), plainStep .commitPhaseOne] w' ∧
    TxnConsistent w' ∧ RestartsAfterRollback w' := by
  have hrun : ∃ w w', sqlite3BtreeOpen freshHandle = .ok (sqliteOk, w) ∧
      Run txnStep TxnStep.Safe w
        [plainStep (.beginTrans true false), plainStep .commitPhaseOne] w' :=
    ⟨_, _, rfl, .cons (fun _ hr => by cases hr) rfl
      (.cons (fun _ hstops => hstops.2.2.2 rfl) rfl (.nil _))⟩
  obtain ⟨w, w', hopen, hrun⟩ := hrun
  exact ⟨w, w', hopen, hrun, txn_consistent_of_run freshHandle_fresh hopen hrun⟩

/-- When the last `mdb_txn_commit` fails. -/
def failedCommit : TxnStep :=
  ⟨.commitPhaseOne, Function.update (fun _ => []) .txnCommit [enospc], newDisk⟩

/-- A commit that fails at the outermost transaction leaves it on the stack. -/
theorem failedCommit_inconsistent : ∃ w w', sqlite3BtreeOpen freshHandle = .ok (sqliteOk, w) ∧
    Run txnStep (fun _ _ => True) w [plainStep (.beginTrans true false), failedCommit] w' ∧
    ¬ TxnConsistent w' := by
  refine ⟨_, _, rfl, .cons trivial rfl (.cons trivial rfl (.nil _)), fun h => ?_⟩
  have hsvp := h.none_iff.mp rfl
  cases hsvp

end LumoSql.Btree
