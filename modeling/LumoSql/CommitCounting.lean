import LumoSql.ConnectionCluster

/-! The commit counter as a count of the commits of all connections: at which values it is exact. It
passes through an `int` on its way from one commit to the next. -/
namespace LumoSql.Btree
open StateLogic Lmdb RowidEncoding

/-- The commit counter in the contents of a database, `0` as long as there is none. -/
def storedCounter (fixedRowid : Bool) (c : Contents) : ℕ :=
  ((counterEntry (c .metadata)).map fun e => get8 fixedRowid e.2).getD 0

/-- Put the value of the counter and get it back. -/
def putGetCounter (uValue : ℕ) : Call ℤ := do
  let _ ← putMeta64 lumoLmdbMetaCounter uValue
  getMeta64 lumoLmdbMetaCounter

/-- The values for which `int` does not matter. -/
def FitsInt (counter : ℕ) : Prop := counter < 2 ^ 31 - 1 ∨ 2 ^ 64 - 2 ^ 31 ≤ counter

section Arithmetic

/-- A `u64` comes back from an `int` if that has its value, or if it is a small negative number. -/
theorem toU64_toInt_iff {m : ℕ} (hm : m < 2 ^ 64) : toU64 (toInt m) = m ↔ m < 2 ^ 31 ∨ 2 ^ 64 - 2 ^ 31 ≤ m := by
  unfold toInt toU64
  rw [Int.bmod_def]
  push_cast
  split_ifs <;> omega

theorem nextCounter_toInt (m : ℕ) : nextCounter (toInt m) = toU64 (toInt (m + 1)) := by
  unfold nextCounter toInt
  rw [Int.bmod_add_bmod]
  push_cast
  rfl

/-- The value is read back and counted on exactly if it fits. -/
theorem exact_iff_fitsInt {m : ℕ} (hm : m < 2 ^ 64 - 1) :
    toU64 (toInt m) = m ∧ nextCounter (toInt m) = m + 1 ↔ FitsInt m := by
  rw [nextCounter_toInt, toU64_toInt_iff (by omega), toU64_toInt_iff (by omega), FitsInt]
  omega

end Arithmetic

section Stored

variable {fixedRowid : Bool} {w : World} {before : Contents}

theorem toInt_zero : toInt 0 = 0 := by
  unfold toInt
  exact Int.zero_bmod

theorem readCounter_stored (c : Contents) :
    readCounter fixedRowid (counterEntry (c .metadata)) 0 = toInt (storedCounter fixedRowid c) := by
  rw [readCounter, if_neg (not_not.mpr rfl), storedCounter]
  generalize counterEntry (c .metadata) = entry
  cases entry with
  | none => rw [Option.map_none, Option.map_none, Option.getD_none, Option.getD_none, toInt_zero]
  | some e => rw [Option.map_some, Option.map_some, Option.getD_some, Option.getD_some]

/-- What a commit stores, when `mdb_get` gives a code. -/
theorem storedCounter_bumped {t : WriteTxn} (hkeeps : KeepsCounter before t) (hdata : w.p.hasData = true) :
    storedCounter w.fixedRowid (bumped w t.view) = if (w.env.answers .get).headD 0 ≠ 0 then 1
      else nextCounter (toInt (storedCounter w.fixedRowid before)) := by
  obtain ⟨e, he, hval⟩ := counterEntry_bumped (w := w) hkeeps.1
  have hold : counterOf w t.view = if (w.env.answers .get).headD 0 ≠ 0 then 0
      else toInt (storedCounter w.fixedRowid before) := by
    rw [counterOf, if_pos hdata, meta64_counter, hkeeps.2]
    split_ifs with hget
    · exact if_pos hget
    · rw [not_not.mp hget, readCounter_stored]
  rw [storedCounter, he, Option.map_some, Option.getD_some, hval, get8_put8 _ (nextCounter_lt _), hold]
  split_ifs
  · exact nextCounter_zero
  · rfl

/-- What is put is got back through an `int`. -/
theorem putGetCounter_spec (hw : InWrite before w) (hdata : w.p.hasData = true) {uValue : ℕ}
    (hlt : uValue < 2 ^ 64) {E : Halt → Prop} :
    Ensures E (putGetCounter uValue) (fun r _ => r = toInt uValue) (w.answering fun _ => []) := by
  obtain ⟨t, ts, hwriters⟩ := hw.exists_writer
  obtain ⟨s, rest, hsvp⟩ := List.exists_cons_of_ne_nil hw.nonempty
  have htop : s.txn = t.id := hw.aligned.top_id hsvp hwriters
  obtain ⟨es, hes, htable⟩ := (hw.counter t (by simp [hwriters])).1
  rw [putGetCounter, ensures_bind, ensures_putMeta64 (w := w.answering fun _ => []) hsvp hwriters htop]
  have hput : ((w.answering fun _ => []).env.answers .put).headD 0 = 0 := rfl
  rw [if_neg (by simp [World.answering, hdata]), hput, if_neg (not_not.mpr rfl)]
  simp only [hes]
  have hset := setView_writers (e := ((w.answering fun _ => []).pop .put).env) hwriters .metadata
    (some (putEntry es (metaKey lumoLmdbMetaCounter) (put8 w.fixedRowid uValue)))
  obtain ⟨e, hfound, hval⟩ := htable.lookup_put lumoLmdbMetaCounter (put8 w.fixedRowid uValue)
  have hkind := kind_writer hset
  have hview := view_writer hset
  refine (ensures_getMeta64 (w := ((w.answering fun _ => []).pop .put).putMetadata (putEntry es
    (metaKey lumoLmdbMetaCounter) (put8 w.fixedRowid uValue))) hsvp (by rw [htop]; exact hkind)
    (by rw [htop]; exact hview) _ _).mpr ?_
  have hcode : ((((w.answering fun _ => []).pop .put).putMetadata (putEntry es (metaKey lumoLmdbMetaCounter)
      (put8 w.fixedRowid uValue))).env.answers .get).headD 0 = 0 := rfl
  have hdata' : ((w.answering fun _ => []).pop .put).p.hasData = true := hdata
  have hentry : counterEntry (Function.update t.view .metadata (some (putEntry es
      (metaKey lumoLmdbMetaCounter) (put8 w.fixedRowid uValue))) .metadata) = some e := by
    rw [counterEntry, Function.update_self, Option.bind_some, hfound]
  rw [World.putMetadata, if_pos hdata', ← World.putMetadata, hcode, meta64_counter]
  refine (congrArg (fun entry => readCounter w.fixedRowid entry 0) hentry).trans ?_
  rw [readCounter, if_neg (not_not.mpr rfl), Option.map_some, Option.getD_some, hval]
  exact congrArg toInt (get8_put8 w.fixedRowid hlt)

end Stored

section Steps

variable {ι : Type} {fixedRowid : Bool}

def Cluster.counter (fixedRowid : Bool) (c : Cluster ι) : ℕ := storedCounter fixedRowid c.disk.contents

/-- The call counts: it adds one to the counter when it commits a write transaction, which reads the
value as it is, and stores nothing otherwise. -/
structure CountsExactly (fixedRowid : Bool) (k : ClusterStep ι) (c : Cluster ι) (rc : Rc) (c' : Cluster ι) :
    Prop where
  quiet : k.call.commits (k.world c).p rc = false → c'.disk.contents = c.disk.contents
  reads : k.call.commits (k.world c).p rc = true → Ensures (fun _ => False) (putGetCounter (c.counter fixedRowid))
    (fun r _ => toU64 r = c.counter fixedRowid) ((k.world c).answering fun _ => [])
  stores : k.call.commits (k.world c).p rc = true → c'.counter fixedRowid = c.counter fixedRowid + 1

/-- The commit can read the counter, and its value fits. -/
def ClusterStep.Counted (fixedRowid : Bool) (k : ClusterStep ι) (c : Cluster ι) : Prop :=
  ((k.answers .get).headD 0 = 0 ∨ c.counter fixedRowid = 0) ∧ FitsInt (c.counter fixedRowid)

/-- A run in which `n` write transactions are committed, at counters that allow it. -/
inductive CountedRun [DecidableEq ι] (fixedRowid : Bool) (c : Cluster ι) : ℕ → Cluster ι → Prop
  | nil : CountedRun fixedRowid c 0 c
  | quiet {n : ℕ} {c₁ c₂ : Cluster ι} {k : ClusterStep ι} {rc : Rc} (hrun : CountedRun fixedRowid c n c₁)
      (hallowed : k.Allowed c₁) (hstep : clusterStep k c₁ = .ok (rc, c₂))
      (hquiet : k.call.commits (k.world c₁).p rc = false) : CountedRun fixedRowid c n c₂
  | commit {n : ℕ} {c₁ c₂ : Cluster ι} {k : ClusterStep ι} {rc : Rc} (hrun : CountedRun fixedRowid c n c₁)
      (hallowed : k.Allowed c₁) (hstep : clusterStep k c₁ = .ok (rc, c₂))
      (hcommit : k.call.commits (k.world c₁).p rc = true) (hcounted : k.Counted fixedRowid c₁)
      (hlt : c₁.counter fixedRowid < 2 ^ 64 - 1) : CountedRun fixedRowid c (n + 1) c₂

theorem ConnCall.inTrans_of_commits {call : ConnCall} {p : Btree} {rc : Rc} (h : call.commits p rc = true) :
    p.inTrans = .write := by
  rcases call with (_ | _ | _ | _ | _) | _ <;> simp [ConnCall.commits] at h
  exact h.1

variable {c c' : Cluster ι} {k : ClusterStep ι} {rc : Rc}

/-- What a commit stores when the counter is read, and when it is not. -/
theorem StepDone.counter [DecidableEq ι] (h : StepDone False fixedRowid k c rc c')
    (hbuild : (k.world c).fixedRowid = fixedRowid) (hcommit : k.call.commits (k.world c).p rc = true) :
    c'.counter fixedRowid = if (k.answers .get).headD 0 ≠ 0 then 1
      else nextCounter (toInt (c.counter fixedRowid)) := by
  obtain ⟨t, -, hkeeps, hdata, hcontents⟩ := h.effect.committed hcommit
  have hstored := storedCounter_bumped hkeeps hdata
  rw [hbuild] at hstored
  rw [Cluster.counter, h.disk, hcontents, hstored]
  rfl

/-- A call counts exactly if it commits nothing, or commits at a counter that allows it. -/
theorem countsExactly_iff [DecidableEq ι] (h : Coherent False fixedRowid c) (hallowed : k.Allowed c)
    (hlt : c.counter fixedRowid < 2 ^ 64 - 1) (hstep : clusterStep k c = .ok (rc, c')) :
    CountsExactly fixedRowid k c rc c' ↔
      (k.call.commits (k.world c).p rc = true → k.Counted fixedRowid c) := by
  have hdone := (clusterStep_done h hallowed fun hf => hf.elim).of_ok hstep
  have hbuild : (k.world c).fixedRowid = fixedRowid := h.build k.conn
  have hquiet : k.call.commits (k.world c).p rc = false → c'.disk.contents = c.disk.contents := fun hc => by
    rw [hdone.disk]
    exact hdone.effect.contents hc
  cases hcommit : k.call.commits (k.world c).p rc with
  | false => exact iff_of_true ⟨hquiet, fun hc => absurd (hcommit.symm.trans hc) (by decide),
      fun hc => absurd (hcommit.symm.trans hc) (by decide)⟩ fun hc => absurd hc (by decide)
  | true =>
    obtain ⟨-, -, -, hdata, -⟩ := hdone.effect.committed hcommit
    have hw := (h.started k).inWrite (ConnCall.inTrans_of_commits hcommit)
    have hstored := hdone.counter hbuild hcommit
    have hread : Ensures (fun _ => False) (putGetCounter (c.counter fixedRowid))
        (fun r _ => r = toInt (c.counter fixedRowid)) ((k.world c).answering fun _ => []) :=
      putGetCounter_spec hw hdata (by omega)
    have hfits := exact_iff_fitsInt hlt
    constructor
    · rintro ⟨-, hreads, hstores⟩ -
      obtain ⟨r, w', hrun, hr⟩ := (hreads hcommit).result
      rw [hread.of_ok hrun] at hr
      have hnext := hstores hcommit
      rw [hstored] at hnext
      split_ifs at hnext with hget
      · have hzero : c.counter fixedRowid = 0 := by omega
        exact ⟨Or.inr hzero, Or.inl (by omega)⟩
      · exact ⟨Or.inl (not_not.mp hget), hfits.mp ⟨hr, hnext⟩⟩
    · intro hcounted
      obtain ⟨hcode, hfit⟩ := hcounted rfl
      obtain ⟨hback, hnext⟩ := hfits.mpr hfit
      refine ⟨hquiet, fun _ => hread.imp fun r _ hr => by rw [hr, hback], fun _ => ?_⟩
      rw [hstored]
      split_ifs with hget
      · rw [hcode.resolve_left hget]
      · exact hnext

/-- In a run that counts the counter grows by one with every commit. -/
theorem CountedRun.counter [DecidableEq ι] {n : ℕ} (hrun : CountedRun fixedRowid c n c')
    (h : Coherent False fixedRowid c) :
    Coherent False fixedRowid c' ∧ c'.counter fixedRowid = c.counter fixedRowid + n := by
  induction hrun with
  | nil => exact ⟨h, rfl⟩
  | @quiet n c₁ c₂ k rc hrun hallowed hstep hquiet ih =>
    obtain ⟨hcoherent, hcount⟩ := ih
    have hdone := (clusterStep_done hcoherent hallowed fun hf => hf.elim).of_ok hstep
    refine ⟨hdone.coherent, ?_⟩
    have hsame : c₂.disk.contents = c₁.disk.contents := by
      rw [hdone.disk]
      exact hdone.effect.contents hquiet
    rw [Cluster.counter, hsame]
    exact hcount
  | @commit n c₁ c₂ k rc hrun hallowed hstep hcommit hcounted hlt ih =>
    obtain ⟨hcoherent, hcount⟩ := ih
    have hdone := (clusterStep_done hcoherent hallowed fun hf => hf.elim).of_ok hstep
    have hexact := (countsExactly_iff hcoherent hallowed hlt hstep).mpr fun _ => hcounted
    refine ⟨hdone.coherent, ?_⟩
    rw [hexact.stores hcommit, hcount, Nat.add_assoc]

end Steps

/-- One connection to a database with this commit counter. -/
def countedDatabase (counter : ℕ) : Cluster Unit where
  disk := { newDisk with
    contents := Function.update newDisk.contents .metadata
      (some [(metaKey lumoLmdbMetaCounter, put8 false counter)]) }
  conns := fun _ => newConnection
  since := fun _ => []

theorem countedDatabase_opened (counter : ℕ) : (countedDatabase counter).Opened false where
  ready _ := by
    refine ⟨.idle rfl rfl rfl, rfl, rfl, ⟨fun _ _ h => (by cases h), fun _ h => (by cases h)⟩,
      _, rfl, ?_, ?_⟩
    · exact List.pairwise_singleton _ _
    · intro e he
      rw [List.mem_singleton.mp he]
      rfl
  inTrans _ := rfl
  build _ := rfl

def beginStep : ClusterStep Unit := ⟨(), .txn (.beginTrans true false), fun _ => []⟩

end LumoSql.Btree
