import LumoSql.ConnectionCalls

/-! Any number of connections on one environment. Each call of a connection finds the disk as the
calls of all have left it, and what a connection has begun to read is told apart from what has
been committed since. -/
namespace LumoSql.Btree
open StateLogic Lmdb RowidEncoding

/-- The connections on one disk, and for each the connections that have committed a write
transaction since it last began to read, the latest first. -/
structure Cluster (ι : Type) where
  disk : Disk
  conns : ι → World
  since : ι → List ι

variable {ι : Type}

/-- A connection with the disk all share. -/
def Cluster.world (c : Cluster ι) (i : ι) : World :=
  { c.conns i with env := { (c.conns i).env with disk := c.disk } }

/-- A call of one connection, and the codes LMDB gives during it. -/
structure ClusterStep (ι : Type) where
  conn : ι
  call : ConnCall
  answers : Answers

/-- What a call starts from. -/
def ClusterStep.world (k : ClusterStep ι) (c : Cluster ι) : World :=
  (c.world k.conn).answering k.answers

section Steps

variable [DecidableEq ι]

def Cluster.put (c : Cluster ι) (i : ι) (w : World) : Cluster ι :=
  { c with disk := w.env.disk, conns := Function.update c.conns i w }

/-- Take down what a call has begun or committed. -/
def Cluster.record (c : Cluster ι) (k : ClusterStep ι) (p : Btree) (rc : Rc) : Cluster ι :=
  { c with since :=
      if k.call.commits p rc then fun i => k.conn :: c.since i
      else if k.call.opensRead p rc then Function.update c.since k.conn []
      else c.since }

def clusterStep (k : ClusterStep ι) : Prog (Cluster ι) Halt Rc := do
  let w ← Prog.read k.world
  let rc ← Prog.zoom k.world (fun c w => c.put k.conn w) k.call.run
  Prog.modify fun c => c.record k w.p rc
  pure rc

end Steps

def ClusterStep.Allowed (k : ClusterStep ι) (c : Cluster ι) : Prop := k.call.Allowed (k.world c)

def ClusterStep.Countable (k : ClusterStep ι) (c : Cluster ι) : Prop :=
  Btree.Countable k.call (c.since k.conn).length (k.world c)

/-- What all calls keep: only one connection writes. -/
structure Coherent (counted : Prop) (fixedRowid : Bool) (c : Cluster ι) : Prop where
  connection : ∀ i, Connection counted (c.since i).length (c.world i)
  build : ∀ i, (c.conns i).fixedRowid = fixedRowid
  alone : ∀ i j, (c.conns i).env.writers ≠ [] → (c.conns j).env.writers ≠ [] → i = j

/-- The connections have been opened, and none has begun a transaction. -/
structure Cluster.Opened (fixedRowid : Bool) (c : Cluster ι) : Prop where
  ready : ∀ i, Ready (c.world i)
  inTrans : ∀ i, (c.conns i).p.inTrans = .none
  build : ∀ i, (c.conns i).fixedRowid = fixedRowid

section Invariant

variable {counted : Prop} {fixedRowid : Bool} {c c' : Cluster ι} {k : ClusterStep ι}

theorem Cluster.Opened.coherent (h : c.Opened fixedRowid) : Coherent counted fixedRowid c := by
  refine ⟨fun i => ?_, h.build, fun i _ hi _ => absurd (h.ready i).noWriter hi⟩
  have hready := h.ready i
  have hin : (c.world i).p.inTrans = .none := h.inTrans i
  obtain ⟨hsvp, hwriters⟩ := hready.stack.idle_of_none hin
  exact ⟨.idle hsvp hin hwriters, hready.opened, hready.metaFree, hready.metadata⟩

theorem ConnState.locked {n : ℕ} {w : World} (h : ConnState counted n w)
    (hwriters : w.env.writers ≠ []) : w.env.disk.locked = true := by
  cases h with
  | idle _ _ hw | failed _ _ _ hw | lost _ _ _ _ hw | reading _ _ _ _ hw _ _ _ _ =>
    exact absurd hw hwriters
  | late _ _ _ _ _ _ _ hlocked => exact hlocked
  | writing hw _ => exact hw.aligned.locked

theorem Coherent.started (h : Coherent counted fixedRowid c) (k : ClusterStep ι) :
    Connection counted (c.since k.conn).length (k.world c) :=
  (h.connection k.conn).answersOnly ⟨k.answers, rfl⟩

variable [DecidableEq ι]

/-- What a call does to all connections. -/
structure StepDone (counted : Prop) (fixedRowid : Bool) (k : ClusterStep ι) (c : Cluster ι) (rc : Rc)
    (c' : Cluster ι) : Prop where
  coherent : Coherent counted fixedRowid c'
  others : ∀ i, i ≠ k.conn → c'.conns i = c.conns i
  effect : Effect counted (c.since k.conn).length k.call (k.world c) rc (c'.world k.conn)
  disk : c'.disk = (c'.world k.conn).env.disk

theorem Cluster.record_since (c : Cluster ι) (k : ClusterStep ι) (p : Btree) (rc : Rc) :
    ((c.record k p rc).since k.conn).length = k.call.elapsed p rc (c.since k.conn).length := by
  rw [Cluster.record, ConnCall.elapsed]
  by_cases hc : k.call.commits p rc = true
  · rw [ConnCall.opensRead_of_commits hc, hc]
    rfl
  · rw [Bool.not_eq_true] at hc
    rw [hc]
    cases k.call.opensRead p rc with
    | true => simp
    | false => rfl

theorem Cluster.record_other (c : Cluster ι) (k : ClusterStep ι) (p : Btree) (rc : Rc) {i : ι}
    (hi : i ≠ k.conn) : ((c.record k p rc).since i).length =
      if k.call.commits p rc then (c.since i).length + 1 else (c.since i).length := by
  rw [Cluster.record]
  split_ifs
  · rfl
  · simp [Function.update_of_ne hi]
  · rfl

omit [DecidableEq ι] in
/-- While another connection writes, a call of one that does not changes nothing. -/
theorem Coherent.quiet (h : Coherent counted fixedRowid c) {rc : Rc} {w' : World}
    (heff : Effect counted (c.since k.conn).length k.call (k.world c) rc w') {i : ι}
    (hi : i ≠ k.conn) (hwriters : (c.conns i).env.writers ≠ []) :
    w'.env.writers = [] ∧ w'.env.disk = c.disk ∧ k.call.commits (k.world c).p rc = false := by
  have hnil : (k.world c).env.writers = [] := by
    by_contra hne
    exact hi (h.alone i k.conn hwriters hne)
  have hlocked : (k.world c).env.disk.locked = true := (h.connection i).state.locked hwriters
  obtain ⟨hw', hdisk⟩ := heff.quiet hnil hlocked
  refine ⟨hw', hdisk, ?_⟩
  by_contra hne
  obtain ⟨t, ht, -⟩ := heff.committed (by simpa using hne)
  rw [hnil] at ht
  cases ht

theorem clusterStep_done (h : Coherent counted fixedRowid c) (hallowed : k.Allowed c)
    (hcount : counted → k.Countable c) :
    Ensures (fun _ => True) (clusterStep k) (StepDone counted fixedRowid k c) c := by
  rw [clusterStep, ensures_bind, ensures_read, ensures_bind, ensures_zoom]
  refine (ConnCall.effect (h.started k) hallowed hcount).imp fun rc w' heff => ?_
  rw [ensures_bind, ensures_modify, ensures_pure]
  have hself : ((c.put k.conn w').record k (k.world c).p rc).world k.conn = w' := by
    rw [Cluster.world, Cluster.record, Cluster.put]
    simp only [Function.update_self]
  have hconn : ((c.put k.conn w').record k (k.world c).p rc).conns k.conn = w' :=
    Function.update_self _ _ _
  have hother : ∀ i, i ≠ k.conn →
      ((c.put k.conn w').record k (k.world c).p rc).conns i = c.conns i := fun i hi =>
    Function.update_of_ne hi _ _
  have hbuild : ∀ i, (c.world i).fixedRowid = (k.world c).fixedRowid := fun i =>
    (h.build i).trans (h.build k.conn).symm
  refine ⟨⟨fun i => ?_, fun i => ?_, ?_⟩, hother, by rw [hself]; exact heff, by rw [hself]; rfl⟩
  · by_cases hi : i = k.conn
    · rw [hi, hself, Cluster.record_since]
      exact heff.connection
    · have hworld : ((c.put k.conn w').record k (k.world c).p rc).world i =
          { c.world i with env := { (c.world i).env with disk := w'.env.disk } } := by
        rw [Cluster.world, hother i hi]
        rfl
      rw [hworld, Cluster.record_other _ _ _ _ hi]
      refine (h.connection i).onDisk heff.connection.metadata (fun hwriters => ?_) fun hc a ha => ?_
      · obtain ⟨-, hdisk, hcommits⟩ := h.quiet heff hi hwriters
        rw [hcommits]
        exact ⟨hdisk, rfl⟩
      · rw [hbuild i] at ha ⊢
        have hdisk : (c.world i).env.disk = (k.world c).env.disk := rfl
        rw [hdisk] at ha
        cases hcommits : k.call.commits (k.world c).p rc with
        | true =>
          obtain ⟨t, -, hkeeps, hdata, hcontents⟩ := heff.committed hcommits
          rw [hcontents, commitCounter_bumped hkeeps hdata (hcount hc).get, ha, Int.bmod_add_bmod,
            if_pos rfl, Int.add_assoc]
          rfl
        | false =>
          rw [heff.contents hcommits]
          exact ha
  · by_cases hi : i = k.conn
    · rw [hi, hconn, heff.build]
      exact h.build k.conn
    · rw [hother i hi]
      exact h.build i
  · have hnot : ∀ i, i ≠ k.conn → (c.conns i).env.writers ≠ [] → w'.env.writers = [] :=
      fun i hi hwriters => (h.quiet heff hi hwriters).1
    intro i j hi hj
    by_cases hik : i = k.conn
    · by_cases hjk : j = k.conn
      · rw [hik, hjk]
      · rw [hik, hconn] at hi
        rw [hother j hjk] at hj
        exact absurd (hnot j hjk hj) hi
    · rw [hother i hik] at hi
      by_cases hjk : j = k.conn
      · rw [hjk, hconn] at hj
        exact absurd (hnot i hik hi) hj
      · rw [hother j hjk] at hj
        exact h.alone i j hi hj

/-- In every run the connections stay coherent. -/
theorem Coherent.run {steps : List (ClusterStep ι)} (h : Coherent counted fixedRowid c)
    (hrun : Run clusterStep (fun k c => k.Allowed c ∧ (counted → k.Countable c)) c steps c') :
    Coherent counted fixedRowid c' :=
  hrun.invariant (fun _ _ hs hk => (clusterStep_done hs hk.1 hk.2).imp fun _ _ hd => hd.coherent) h

end Invariant

end LumoSql.Btree
