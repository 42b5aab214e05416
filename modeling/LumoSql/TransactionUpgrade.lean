import LumoSql.ConnectionCluster

/-! When a read transaction may be turned into a write transaction: whether anything has been
committed since it began. -/
namespace LumoSql.Btree
open StateLogic Lmdb

variable {ι : Type}

theorem Cluster.Opened.run [DecidableEq ι] {fixedRowid : Bool} {c c' : Cluster ι}
    {steps : List (ClusterStep ι)} (h : c.Opened fixedRowid)
    (hrun : Run clusterStep (fun k c => k.Allowed c ∧ k.Countable c) c steps c') :
    Coherent True fixedRowid c' :=
  h.coherent.run (hrun.mono fun _ _ hk => ⟨hk.1, fun _ => hk.2⟩)

/-- In a run where the counter tells commits apart and no upgrade is tried again after one that
was too late, a connection that gets the write transaction has missed no commit of another. -/
theorem upgrade_current [DecidableEq ι] {fixedRowid : Bool} {c₀ c c' : Cluster ι}
    {steps : List (ClusterStep ι)} (hopened : c₀.Opened fixedRowid)
    (hrun : Run clusterStep (fun k c => k.Allowed c ∧ k.Countable c) c₀ steps c)
    {k : ClusterStep ι} {pSchemaVersion : Bool}
    (hcall : k.call = .txn (.beginTrans true pSchemaVersion)) (hcount : k.Countable c)
    (hread : (c.conns k.conn).p.inTrans = .read) (hstep : clusterStep k c = .ok (sqliteOk, c')) :
    ∀ j ∈ c.since k.conn, j = k.conn := by
  have hallowed : k.Allowed c := by
    rw [ClusterStep.Allowed, hcall]
    trivial
  have hdone := (clusterStep_done (hopened.run hrun) hallowed fun _ => hcount).of_ok hstep
  have hup : k.call.upgrades (k.world c).p = true := by
    rw [hcall]
    exact decide_eq_true ⟨rfl, hread⟩
  have hzero := hdone.effect.upgraded trivial hup rfl
  rw [List.length_eq_zero_iff] at hzero
  rw [hzero]
  exact fun j hj => absurd hj List.not_mem_nil

/-- Two connections to a new database. -/
def twoConnections : Cluster Bool where
  disk := newDisk
  conns := fun _ => newConnection
  since := fun _ => []

theorem twoConnections_opened : twoConnections.Opened false :=
  ⟨fun _ => newConnection_ready, fun _ => rfl, fun _ => rfl⟩

/-- A call during which no call of LMDB fails. -/
def calmStep (conn : Bool) (call : TxnCall) : ClusterStep Bool := ⟨conn, .txn call, fun _ => []⟩

theorem upgrade_current_sample : ∃ c c',
    Run clusterStep (fun k c => k.Allowed c ∧ k.Countable c) twoConnections
      [calmStep true (.beginTrans true false), calmStep true .commitPhaseOne,
        calmStep false (.beginTrans false false)] c ∧
    clusterStep (calmStep false (.beginTrans true false)) c = .ok (sqliteOk, c') ∧
    ∀ j ∈ c.since false, j = false := by
  have hrun : ∃ c c',
      Run clusterStep (fun k c => k.Allowed c ∧ k.Countable c) twoConnections
        [calmStep true (.beginTrans true false), calmStep true .commitPhaseOne,
          calmStep false (.beginTrans false false)] c ∧
      (calmStep false (.beginTrans true false)).Countable c ∧
      (c.conns false).p.inTrans = .read ∧
      clusterStep (calmStep false (.beginTrans true false)) c = .ok (sqliteOk, c') := by
    refine ⟨_, _, .cons ⟨trivial, rfl, by decide, fun h => by cases h⟩ rfl
      (.cons ⟨trivial, rfl, by decide, fun h => by cases h⟩ rfl
      (.cons ⟨trivial, rfl, by decide, fun h => by cases h⟩ rfl (.nil _))),
      ⟨rfl, by decide, fun _ _ => ⟨rfl, fun _ => rfl⟩⟩, rfl, rfl⟩
  obtain ⟨c, c', hrun, hcount, hread, hstep⟩ := hrun
  exact ⟨c, c', hrun, hstep, upgrade_current twoConnections_opened hrun rfl hcount hread hstep⟩

/-- After an upgrade that came too late the next one succeeds. -/
theorem retriedUpgrade_outdated : ∃ c c',
    Run clusterStep (fun k c => k.Allowed c) twoConnections
      [calmStep false (.beginTrans false false), calmStep true (.beginTrans true false),
        calmStep true .commitPhaseOne, calmStep false (.beginTrans true false)] c ∧
    (c.conns false).p.inTrans = .read ∧
    clusterStep (calmStep false (.beginTrans true false)) c = .ok (sqliteOk, c') ∧
    ¬ ∀ j ∈ c.since false, j = false := by
  refine ⟨_, _, .cons trivial rfl (.cons trivial rfl (.cons trivial rfl (.cons trivial rfl (.nil _)))),
    rfl, rfl, fun h => ?_⟩
  exact absurd (h true (.head _)) (by decide)

end LumoSql.Btree
