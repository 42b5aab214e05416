import LumoSql.TransactionUpgrade
import LumoSql.SavepointRollback

/-! A write transaction on one of any number of connections is committed as a whole or not at
all: what the transactions that begin after its end see. -/
namespace LumoSql.Btree
open StateLogic Lmdb RowidEncoding SortedEntries

/-- Entries of the metadata other than the commit counter. -/
def notCounter (e : Bytes × Bytes) : Bool := e.1 ≠ metaKey lumoLmdbMetaCounter

/-- The same contents, the commit counter apart. -/
structure ExceptCounter (c c' : Contents) : Prop where
  tables : ∀ db, db ≠ .metadata → c' db = c db
  metadata : (c' .metadata).map (List.filter notCounter) = (c .metadata).map (List.filter notCounter)

/-- The key of the counter is the only one with its rank. -/
theorem MetaTable.counter_key {es : Entries} (h : MetaTable es) {o : Bytes × Bytes}
    (ho : lookup (byteProbe (metaKey lumoLmdbMetaCounter)) es = some o) :
    o.1 = metaKey lumoLmdbMetaCounter := by
  have hmem := List.mem_of_getElem? (mem_of_lookup ho).1
  have hrank := Ascending.rank_of_lookup (h.probes lumoLmdbMetaCounter) ho
  have hlen := h.keys o hmem
  match hkey : o.1, hlen with
  | [b], _ =>
    rw [hkey, bigEndian_cons, bigEndian_nil] at hrank
    have hb : b = UInt8.ofNat lumoLmdbMetaCounter := by
      refine UInt8.toNat_inj.mp ?_
      simpa using hrank
    rw [hb]
    rfl

/-- A commit changes nothing but the counter. -/
theorem bumped_except {w : World} {top : Contents} (hdata : HasMetadata (top .metadata)) :
    ExceptCounter top (bumped w top) := by
  refine ⟨fun db hdb => Function.update_of_ne hdb _ _, ?_⟩
  obtain ⟨es, hes, htable⟩ := hdata
  rw [bumped, Function.update_self, hes, Option.getD_some, Option.map_some, Option.map_some, putEntry]
  refine congrArg some (filter_place (by simp [notCounter]) fun o ho => ?_)
  have hkey := htable.counter_key ho
  have hmerge : ∀ val, (overwrite (metaKey lumoLmdbMetaCounter) val o).1 =
      metaKey lumoLmdbMetaCounter := fun val => by
    rw [overwrite, hkey, ite_self]
  exact ⟨by rw [notCounter, hkey]; simp, by rw [notCounter, hmerge]; simp⟩

/-- What the innermost transaction of a connection sees. -/
def World.seen (w : World) : Option Contents := w.p.svp.head?.bind fun s => w.env.view s.txn

theorem AnswersOnly.seen {w w' : World} (h : AnswersOnly w w') : w'.seen = w.seen := by
  obtain ⟨a, rfl⟩ := h
  rfl

/-- A transaction that begins sees what is on the disk. -/
theorem Began.seen {w w' : World} {wrFlag : Bool} (h : Began wrFlag w w') :
    w'.seen = some w.env.disk.contents := by
  cases h with
  | reader _ hasData _ hp hwriters hreaders _ =>
    rw [World.seen, hp]
    exact (view_snapshot hwriters hreaders).2
  | writer _ hasData _ hp hwriters _ _ =>
    rw [World.seen, hp]
    exact view_writer hwriters

theorem begin_seen {counted : Prop} {n : ℕ} {w : World} (h : Connection counted n w)
    (hin : w.p.inTrans = .none) (wrFlag pSchemaVersion : Bool) :
    Ensures (fun _ => True) (sqlite3BtreeBeginTrans wrFlag pSchemaVersion)
      (fun r w' => r.1 = sqliteOk → w'.seen = some w.env.disk.contents) w := by
  cases h.state with
  | lost _ hin' _ _ _ | reading _ _ _ hin' _ _ _ _ _ | late _ _ _ hin' _ _ _ _ =>
    exact absurd (hin.symm.trans hin') (by decide)
  | writing hw _ => exact absurd hin hw.open
  | failed s hsvp _ _ =>
    exact (failed_beginTrans hsvp hin wrFlag pSchemaVersion).imp fun _ _ hr hok => absurd hok hr.1
  | idle hsvp _ hwriters =>
    refine (beginTrans_spec (.inl fun _ => trivial) (fun _ => trivial) (.idle hsvp hin hwriters)
      h.opened wrFlag pSchemaVersion fun _ _ _ _ => hwriters).imp fun r w' hres hok => ?_
    obtain ⟨-, hres⟩ := hres
    cases hres with
    | same _ hrc _ => exact absurd hin (hrc hok).1
    | failed hrc _ _ _ _ _ => exact absurd hok hrc
    | began w₁ _ _ _ hbegan ha => rw [ha.seen, hbegan.seen]
    | serial _ hread _ _ _ _ => exact absurd (hin.symm.trans hread) (by decide)
    | upgraded _ _ _ hread _ _ _ _ _ _ _ _ _ => exact absurd (hin.symm.trans hread) (by decide)

/-- The connection is outside a transaction, no write transaction of LMDB is left of it, and the
others may write. -/
structure World.Released (w : World) : Prop where
  inTrans : w.p.inTrans = .none
  writers : w.env.writers = []
  unlocked : w.env.disk.locked = false

theorem Ended.released {w w' : World} (h : Ended w w') (hne : w.env.writers ≠ []) : w'.Released :=
  ⟨by rw [h.p], h.writers, h.unlocked hne⟩

theorem AnswersOnly.released {w w' : World} (ha : AnswersOnly w w') (h : w.Released) :
    w'.Released := by
  obtain ⟨a, rfl⟩ := ha
  exact ⟨h.inTrans, h.writers, h.unlocked⟩

/-- Phase one ends the transaction, unless a transaction inside it fails to commit. -/
theorem PhaseOne.released {w w' : World} {rc : Rc} (h : PhaseOne w rc w')
    (hne : w.env.writers ≠ []) (hin : w.p.inTrans = .write) :
    w'.Released ∨ rc ≠ sqliteOk ∧ w'.p.inTrans = .write := by
  cases h with
  | nested s b hrc honly hsvp hwriters ht hb hcause => exact .inr ⟨hrc, by rw [honly.p, hin]⟩
  | dropped hrc hended hcause => exact .inl (hended.released hne)
  | failed s hrc hbuild hreadonly hp hwriters hdisk hcause =>
    exact .inl ⟨by rw [hp], hwriters, by rw [hdisk]⟩
  | done t hrc hbuild hnCurs hreadonly hp hwriters ht hdata hdisk hcause =>
    exact .inl ⟨by rw [hp], hwriters, by rw [hdisk]⟩

/-- A rollback ends the transaction that a failed phase one has left. -/
theorem rollback_released {counted : Prop} {n : ℕ} {w : World} (h : Connection counted n w)
    (hleft : w.Released ∨ w.p.inTrans = .write) (tripCode : Rc) (writeOnly : Bool) :
    Ensures (fun _ => True) (sqlite3BtreeRollback tripCode writeOnly) (fun _ w' => w'.Released) w := by
  rcases hleft with hr | hin
  · rw [sqlite3BtreeRollback, ensures_bind, ensures_getP, if_pos hr.inTrans]
    exact hr
  · have hw := h.inWrite hin
    refine (rollback_spec (.inl fun _ => trivial) hw.stack tripCode writeOnly).imp fun _ w' hres => ?_
    obtain ⟨-, ⟨hnone, -⟩ | ⟨-, hended⟩⟩ := hres
    · exact absurd hnone hw.open
    · exact hended.released (hw.aligned.writers_ne hw.nonempty)

section Later

variable {ι : Type} [DecidableEq ι]

/-- The call commits a write transaction. -/
def ClusterStep.Commits (k : ClusterStep ι) (c : Cluster ι) : Prop :=
  ∃ rc c', clusterStep k c = .ok (rc, c') ∧ k.call.commits (k.world c).p rc = true

/-- Every transaction that a connection outside one begins before the next commit sees contents
of which `P` holds. -/
def LaterSee (c : Cluster ι) (P : Contents → Prop) : Prop :=
  ∀ steps c', Run clusterStep (fun k c => k.Allowed c ∧ ¬ k.Commits c) c steps c' →
    ∀ k wrFlag pSchemaVersion c'', k.call = .txn (.beginTrans wrFlag pSchemaVersion) →
      (k.world c').p.inTrans = .none → clusterStep k c' = .ok (sqliteOk, c'') →
      ∃ contents, (c''.world k.conn).seen = some contents ∧ P contents

variable {counted : Prop} {fixedRowid : Bool} {c c' : Cluster ι} {k : ClusterStep ι}

/-- A call on a connection is what the step of the cluster makes of it. -/
theorem clusterStep_run {rc : Rc} (h : clusterStep k c = .ok (rc, c')) :
    k.call.run (k.world c) = .ok (rc, c'.world k.conn) ∧ c'.disk = (c'.world k.conn).env.disk ∧
      ∀ i, i ≠ k.conn → c'.conns i = c.conns i := by
  have hspec : Ensures (fun _ => True) (clusterStep k) (fun rc c' =>
      k.call.run (k.world c) = .ok (rc, c'.world k.conn) ∧ c'.disk = (c'.world k.conn).env.disk ∧
        ∀ i, i ≠ k.conn → c'.conns i = c.conns i) c := by
    rw [clusterStep, ensures_bind, ensures_read, ensures_bind, ensures_zoom]
    rw [ensures_iff]
    refine ⟨fun rc w' hrun => ?_, fun _ _ => trivial⟩
    rw [ensures_bind, ensures_modify, ensures_pure]
    have hself : ((c.put k.conn w').record k (k.world c).p rc).world k.conn = w' := by
      rw [Cluster.world, Cluster.record, Cluster.put]
      simp only [Function.update_self]
    refine ⟨by rw [hself]; exact hrun, by rw [hself]; rfl, fun i hi => Function.update_of_ne hi _ _⟩
  exact hspec.of_ok h

/-- Without a commit the contents of the disk stay as they are. -/
theorem clusterStep_contents (h : Coherent False fixedRowid c) (hallowed : k.Allowed c)
    (hno : ¬ k.Commits c) :
    Ensures (fun _ => True) (clusterStep k) (fun _ c' => Coherent False fixedRowid c' ∧
      c'.disk.contents = c.disk.contents) c := by
  have hdone := clusterStep_done h hallowed (fun hf => absurd hf not_false)
  rw [ensures_iff] at hdone ⊢
  refine ⟨fun rc c' hstep => ?_, hdone.2⟩
  have hd := hdone.1 rc c' hstep
  have hcommits : k.call.commits (k.world c).p rc = false := by
    by_contra hne
    exact hno ⟨rc, c', hstep, by simpa using hne⟩
  exact ⟨hd.coherent, (congrArg Disk.contents hd.disk).trans (hd.effect.contents hcommits)⟩

/-- What is on the disk is what later transactions see. -/
theorem Coherent.laterSee (h : Coherent False fixedRowid c) {P : Contents → Prop}
    (hp : P c.disk.contents) : LaterSee c P := by
  intro steps c' hrun k wrFlag pSchemaVersion c'' hcall hin hstep
  have hkeep : ∀ (k : ClusterStep ι) (c : Cluster ι),
      Coherent False fixedRowid c ∧ P c.disk.contents → k.Allowed c ∧ ¬ k.Commits c →
      Ensures (fun _ => True) (clusterStep k)
        (fun _ c' => Coherent False fixedRowid c' ∧ P c'.disk.contents) c := fun k c hc hk =>
    (clusterStep_contents hc.1 hk.1 hk.2).imp fun _ c' hc' => ⟨hc'.1, by rw [hc'.2]; exact hc.2⟩
  obtain ⟨hcoherent, hp'⟩ := hrun.invariant hkeep ⟨h, hp⟩
  obtain ⟨hcallrun, -, -⟩ := clusterStep_run hstep
  have hseen : Ensures (fun _ => True) k.call.run
      (fun rc w' => rc = sqliteOk → w'.seen = some c'.disk.contents) (k.world c') := by
    rw [hcall, ConnCall.run, TxnCall.run, ensures_bind]
    exact begin_seen (hcoherent.started k) hin wrFlag pSchemaVersion
  exact ⟨_, hseen.of_ok hcallrun rfl, hp'⟩

/-- The calls that leave a write transaction open. -/
def ConnCall.within : ConnCall → Bool
  | .data _ => true
  | .txn (.beginTrans _ _) => true
  | .txn (.beginStmt _) => true
  | .txn (.savepoint _ iSavepoint) => 0 ≤ iSavepoint
  | .txn .commitPhaseOne => false
  | .txn (.rollback _ _) => false

/-- The connection has a write transaction of LMDB that it knows as one. -/
def World.Writing (w : World) : Prop :=
  w.env.writers ≠ [] ∧
    (w.p.inTrans = .write ∨ w.p.inTrans = .read ∧ w.p.transType = transactionSerialise)

theorem InWrite.within {before : Contents} {w : World} (h : InWrite before w) {call : ConnCall}
    (hallowed : call.Allowed w) (hwithin : call.within = true) :
    Ensures (fun _ => True) call.run (fun _ w' => InWrite before w') w := by
  cases call with
  | data call =>
    rw [ConnCall.run, ensures_bind]
    exact (dataCall_spec h.metaFree hallowed).imp fun _ _ ht => h.tables ht
  | txn call =>
    cases call with
    | beginTrans wrFlag pSchemaVersion =>
      rw [ConnCall.run, TxnCall.run, ensures_bind]
      exact h.beginTrans wrFlag pSchemaVersion
    | beginStmt iStatement => exact h.beginStmt iStatement
    | savepoint op iSavepoint =>
      obtain ⟨i, rfl⟩ := Int.eq_ofNat_of_zero_le (of_decide_eq_true hwithin)
      exact h.savepoint op i
    | commitPhaseOne => cases hwithin
    | rollback tripCode writeOnly => cases hwithin

/-- Calls inside the write transaction of `i`, and calls of the others, keep it. -/
theorem clusterStep_inWrite {before : Contents} {i : ι} (h : Coherent False fixedRowid c)
    (hw : InWrite before (c.world i)) (hallowed : k.Allowed c)
    (hwithin : k.conn = i → k.call.within = true) :
    Ensures (fun _ => True) (clusterStep k) (fun _ c' => Coherent False fixedRowid c' ∧
      InWrite before (c'.world i)) c := by
  have hdone := clusterStep_done h hallowed (fun hf => absurd hf not_false)
  rw [ensures_iff] at hdone ⊢
  refine ⟨fun rc c' hstep => ?_, hdone.2⟩
  have hd := hdone.1 rc c' hstep
  refine ⟨hd.coherent, ?_⟩
  obtain ⟨hrun, hdisk, hothers⟩ := clusterStep_run hstep
  by_cases hi : k.conn = i
  · rw [← hi] at hw ⊢
    have hw' : InWrite before (k.world c) := hw.answersOnly ⟨k.answers, rfl⟩
    exact (hw'.within hallowed (hwithin hi)).of_ok hrun
  · have hwriters : (c.conns i).env.writers ≠ [] := hw.aligned.writers_ne hw.nonempty
    obtain ⟨-, hsame, -⟩ := h.quiet hd.effect (fun hik => hi hik.symm) hwriters
    have hworld : c'.world i = c.world i := by
      rw [Cluster.world, Cluster.world, hothers i (fun hik => hi hik.symm), hdisk, hsame]
    rw [hworld]
    exact hw

omit [DecidableEq ι] in
/-- A connection that writes is in a write transaction on the contents of the disk. -/
theorem Coherent.inWrite (h : Coherent counted fixedRowid c) {i : ι} (hw : (c.world i).Writing) :
    InWrite c.disk.contents (c.world i) := by
  obtain ⟨hwriters, hin⟩ := hw
  cases (h.connection i).state with
  | idle _ _ hnil | failed _ _ _ hnil | lost _ _ _ _ hnil | reading _ _ _ _ hnil _ _ _ _ =>
    exact absurd hnil hwriters
  | late _ _ _ hread htype _ _ _ =>
    rcases hin with hwrite | ⟨-, hserial⟩
    · exact absurd (hread.symm.trans hwrite) (by decide)
    · exact absurd (htype.symm.trans hserial) (by decide)
  | writing hw _ => exact hw

/-- A write transaction of the connection `i`, from the call that begins it on the contents
`before`, with the calls made in it and those of the other connections. -/
inductive WriteTransaction (fixedRowid : Bool) (i : ι) (before : Contents) (c : Cluster ι) : Prop
  | intro (k : ClusterStep ι) (steps : List (ClusterStep ι)) {c₀ c₁ c₂ : Cluster ι}
      {steps₀ : List (ClusterStep ι)} {wrFlag pSchemaVersion : Bool} {rc : Rc} (hopened : c₀.Opened fixedRowid)
      (hhistory : Run clusterStep ClusterStep.Allowed c₀ steps₀ c₁)
      (hbefore : c₁.disk.contents = before) (hconn : k.conn = i)
      (hcall : k.call = .txn (.beginTrans wrFlag pSchemaVersion)) (hnot : ¬ (c₁.world i).Writing)
      (hbegin : clusterStep k c₁ = .ok (rc, c₂)) (hwriting : (c₂.world i).Writing)
      (hrun : Run clusterStep
        (fun k c => k.Allowed c ∧ (k.conn = i → k.call.within = true)) c₂ steps c)

theorem WriteTransaction.inWrite {i : ι} {before : Contents}
    (h : WriteTransaction fixedRowid i before c) :
    Coherent False fixedRowid c ∧ InWrite before (c.world i) := by
  cases h with
  | @intro k steps c₀ c₁ c₂ steps₀ wrFlag pSchemaVersion rc hopened hhistory hbefore hconn hcall hnot
      hbegin hwriting hrun =>
    have h₁ : Coherent False fixedRowid c₁ :=
      hopened.coherent.run (hhistory.mono fun _ _ hk => ⟨hk, fun hf => absurd hf not_false⟩)
    have hallowed : k.Allowed c₁ := by
      rw [ClusterStep.Allowed, hcall]
      trivial
    have hdone := (clusterStep_done h₁ hallowed fun hf => absurd hf not_false).of_ok hbegin
    have hcontents : c₂.disk.contents = before := by
      rw [← hbefore, hdone.disk]
      refine hdone.effect.contents ?_
      rw [hcall]
      rfl
    have hkeep : ∀ (k : ClusterStep ι) (c : Cluster ι),
        Coherent False fixedRowid c ∧ InWrite before (c.world i) →
        k.Allowed c ∧ (k.conn = i → k.call.within = true) →
        Ensures (fun _ => True) (clusterStep k) (fun _ c' => Coherent False fixedRowid c' ∧
          InWrite before (c'.world i)) c := fun k c hc hk =>
      clusterStep_inWrite hc.1 hc.2 hk.1 hk.2
    have hstart : InWrite before (c₂.world i) := by
      rw [← hcontents]
      exact hdone.coherent.inWrite hwriting
    have hend := hrun.invariant hkeep ⟨hdone.coherent, hstart⟩
    exact hend

/-- After a commit later transactions see what the innermost transaction saw, and after an error
and a rollback what there was before; in either case the write transaction is over. -/
theorem commit_atomic {i : ι} {before : Contents} (h : WriteTransaction fixedRowid i before c)
    (hin : (c.conns i).p.inTrans = .write) {answers : Answers} {rc : Rc} {c₁ : Cluster ι}
    (hcommit : clusterStep ⟨i, .txn .commitPhaseOne, answers⟩ c = .ok (rc, c₁)) :
    (rc = sqliteOk →
        (c₁.world i).Released ∧ LaterSee c₁ (ExceptCounter (c.conns i).visible)) ∧
      (rc ≠ sqliteOk → ∀ tripCode writeOnly answers' rc' c₂,
        clusterStep ⟨i, .txn (.rollback tripCode writeOnly), answers'⟩ c₁ = .ok (rc', c₂) →
        (c₂.world i).Released ∧ LaterSee c₂ fun contents => contents = before) := by
  obtain ⟨hcoherent, hw⟩ := h.inWrite
  have hdone := (clusterStep_done (k := ⟨i, .txn .commitPhaseOne, answers⟩) hcoherent trivial
    fun hf => absurd hf not_false).of_ok hcommit
  have hdisk : c.disk.contents = before := hw.disk
  have hphase : (c₁.world i).Released ∨ rc ≠ sqliteOk ∧ (c₁.world i).p.inTrans = .write := by
    have hw' : InWrite before ((c.world i).answering answers) := hw.answersOnly ⟨answers, rfl⟩
    have hspec := commitPhaseOne_spec (E := fun _ => True) (.inl fun _ => trivial) hw'.aligned
      hw'.nonempty hw'.numbered hin
    exact (hspec.of_ok (clusterStep_run hcommit).1).released (hw'.aligned.writers_ne hw'.nonempty) hin
  constructor
  · intro hrc
    obtain ⟨t, ht, hkeeps, -, hcontents⟩ := hdone.effect.committed (decide_eq_true ⟨hin, hrc⟩)
    refine ⟨hphase.resolve_right fun hf => hf.1 hrc, hdone.coherent.laterSee ?_⟩
    have hvisible : (c.conns i).visible = t.view := by
      have ht' : (c.conns i).env.writers.head? = some t := ht
      rw [World.visible, ht', Option.map_some, Option.getD_some]
    rw [hdone.disk, hcontents, hvisible]
    exact bumped_except hkeeps.1
  · intro hrc tripCode writeOnly answers' rc' c₂ hroll
    have hroll' := (clusterStep_done (k := ⟨i, .txn (.rollback tripCode writeOnly), answers'⟩)
      hdone.coherent trivial fun hf => absurd hf not_false).of_ok hroll
    refine ⟨?_, hroll'.coherent.laterSee ?_⟩
    · have hleft : ((c₁.world i).answering answers').Released ∨
          ((c₁.world i).answering answers').p.inTrans = .write :=
        hphase.imp (AnswersOnly.released ⟨answers', rfl⟩) And.right
      exact (rollback_released (hdone.coherent.started ⟨i, .txn (.rollback tripCode writeOnly), answers'⟩)
        hleft tripCode writeOnly).of_ok (clusterStep_run hroll).1
    · have hsame : c₁.disk.contents = c.disk.contents := by
        rw [hdone.disk]
        exact hdone.effect.contents (decide_eq_false fun hf => hrc hf.2)
      rw [hroll'.disk, hroll'.effect.contents rfl, ← hdisk]
      exact hsame

end Later

/-- A write transaction with a statement in it, on one of two connections. -/
def insideStatement : List (ClusterStep Bool) :=
  [⟨true, .txn (.beginStmt 1), fun _ => []⟩, ⟨true, .data (.updateMeta 1 7), fun _ => []⟩]

/-- The answers when the first commit fails, here that of the statement. -/
def firstCommitFails : Answers := Function.update (fun _ => []) .txnCommit [enospc]

theorem commit_atomic_sample : ∃ c c₁ c₂, WriteTransaction false true newDisk.contents c ∧
    (c.conns true).p.inTrans = .write ∧
    clusterStep ⟨true, .txn .commitPhaseOne, firstCommitFails⟩ c = .ok (errorMap enospc, c₁) ∧
    clusterStep ⟨true, .txn (.rollback sqliteAbort false), fun _ => []⟩ c₁ = .ok (sqliteOk, c₂) ∧
    (c₂.world true).Released ∧ LaterSee c₂ fun contents => contents = newDisk.contents := by
  have hrun : ∃ c c₁ c₂, WriteTransaction false true newDisk.contents c ∧
      (c.conns true).p.inTrans = .write ∧
      clusterStep ⟨true, .txn .commitPhaseOne, firstCommitFails⟩ c = .ok (errorMap enospc, c₁) ∧
      clusterStep ⟨true, .txn (.rollback sqliteAbort false), fun _ => []⟩ c₁ = .ok (sqliteOk, c₂) := by
    refine ⟨_, _, _, .intro ⟨true, .txn (.beginTrans true false), fun _ => []⟩
      insideStatement twoConnections_opened (.nil _) rfl rfl
      rfl (fun h => h.1 rfl) rfl ⟨fun h => (by cases h), .inl rfl⟩
      (.cons ⟨rfl, fun _ => rfl⟩ rfl (.cons ⟨(by decide : 1 < headerValues), fun _ => rfl⟩ rfl (.nil _))),
      rfl, rfl, rfl⟩
  obtain ⟨c, c₁, c₂, htxn, hin, hcommit, hroll⟩ := hrun
  exact ⟨c, c₁, c₂, htxn, hin, hcommit, hroll,
    (commit_atomic htxn hin hcommit).2 (by decide) _ _ _ _ _ hroll⟩

end LumoSql.Btree
