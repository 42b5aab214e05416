import LumoSql.WriteTransactions

/-! Committing write transactions on several databases: phase one on each in turn, then phase
two on each, or a rollback on each after an error. -/
namespace LumoSql.Btree
open StateLogic Lmdb RowidEncoding

/-- Phase one on each handle in turn, until one returns an error. -/
def phaseOneAll : List World → Except Halt (Rc × List World)
  | [] => pure (sqliteOk, [])
  | w :: ws => do
    let r ← sqlite3BtreeCommitPhaseOne w
    if r.1 ≠ sqliteOk then pure (r.1, r.2 :: ws)
    else do
      let rs ← phaseOneAll ws
      pure (rs.1, r.2 :: rs.2)

def callAll (call : Call Rc) : List World → Except Halt (List World)
  | [] => pure []
  | w :: ws => do
    let r ← call w
    let rs ← callAll call ws
    pure (r.2 :: rs)

/-- The result code of phase one and what is left of the connections. -/
def commitAll (tripCode : Rc) (writeOnly : Bool) (ws : List World) :
    Except Halt (Rc × List World) := do
  let r ← phaseOneAll ws
  let call := if r.1 = sqliteOk then sqlite3BtreeCommitPhaseTwo
    else sqlite3BtreeRollback tripCode writeOnly
  let ws' ← callAll call r.2
  pure (r.1, ws')

/-- What the database of a connection holds. -/
def World.database (w : World) : Contents := w.env.disk.contents

/-- A connection that is asked to commit what it has written since its database held `before`. -/
structure Committing (before : Contents) (w : World) : Prop where
  opened : OpenWrite before w
  write : w.p.inTrans = .write

theorem except_bind_ok {ε α β : Type} {m : Except ε α} {f : α → Except ε β} {b : β}
    (h : m >>= f = .ok b) : ∃ a, m = .ok a ∧ f a = .ok b := by
  cases m with
  | error e => cases h
  | ok a => exact ⟨a, rfl, h⟩

section Counter

theorem bmod_emod (x : ℤ) : Int.bmod (x % 2 ^ 64) (2 ^ 32) = Int.bmod x (2 ^ 32) := by
  have hemod : x % 2 ^ 64 % ((2 ^ 32 : ℕ) : ℤ) = x % ((2 ^ 32 : ℕ) : ℤ) :=
    Int.emod_emod_of_dvd x (by norm_num)
  simp only [Int.bmod, hemod]

theorem natCast_nextCounter (i : ℤ) :
    ((nextCounter i : ℕ) : ℤ) = Int.bmod (i + 1) (2 ^ 32) % 2 ^ 64 := by
  have h : (0 : ℤ) ≤ Int.bmod (i + 1) (2 ^ 32) % 2 ^ 64 := Int.emod_nonneg _ (by norm_num)
  rw [nextCounter, toU64]
  generalize Int.bmod (i + 1) (2 ^ 32) % 2 ^ 64 = x at h ⊢
  exact Int.toNat_of_nonneg h

theorem toInt_nextCounter (i : ℤ) : toInt (nextCounter i) = Int.bmod (i + 1) (2 ^ 32) := by
  calc toInt (nextCounter i) = Int.bmod (Int.bmod (i + 1) (2 ^ 32) % 2 ^ 64) (2 ^ 32) :=
        congrArg (fun x : ℤ => Int.bmod x (2 ^ 32)) (natCast_nextCounter i)
    _ = Int.bmod (i + 1) (2 ^ 32) := by rw [bmod_emod, Int.bmod_bmod]

theorem bmod_succ_ne (i : ℤ) : Int.bmod (i + 1) (2 ^ 32) ≠ i := by
  rw [Int.bmod_def]
  split_ifs <;> omega

theorem nextCounter_lt (i : ℤ) : nextCounter i < 2 ^ 64 := toU64_lt _

variable {w : World} {before top : Contents}

theorem bumped_metadata (hdata : HasMetadata (top .metadata)) :
    HasMetadata (bumped w top .metadata) := by
  obtain ⟨es, hes, htable⟩ := hdata
  refine ⟨_, ?_, htable.put lumoLmdbMetaCounter (put8 w.fixedRowid (nextCounter (counterOf w top)))⟩
  rw [bumped, Function.update_self, hes, Option.getD_some, nextCounter]

/-- The entry of the counter after a commit. -/
theorem counterEntry_bumped (hdata : HasMetadata (top .metadata)) :
    ∃ e, counterEntry (bumped w top .metadata) = some e ∧
      e.2 = put8 w.fixedRowid (nextCounter (counterOf w top)) := by
  obtain ⟨es, hes, htable⟩ := hdata
  have hbumped : bumped w top .metadata = some (putEntry es (metaKey lumoLmdbMetaCounter)
      (put8 w.fixedRowid (nextCounter (counterOf w top)))) := by
    rw [bumped, Function.update_self, hes, Option.getD_some, nextCounter]
  rw [hbumped, counterEntry, Option.bind_some]
  exact htable.lookup_put _ _

/-- A commit that has read the counter changes it. -/
theorem bumped_ne (hdata : HasMetadata (top .metadata))
    (hcounter : counterEntry (top .metadata) = counterEntry (before .metadata))
    (hhas : w.p.hasData = true) (hget : (w.env.answers .get).headD 0 = 0) :
    bumped w top ≠ before := by
  intro heq
  obtain ⟨e, he, hval⟩ := counterEntry_bumped (w := w) hdata
  rw [heq, ← hcounter] at he
  have hread : counterOf w top = toInt (get8 w.fixedRowid e.2) := by
    rw [counterOf, if_pos hhas, meta64_counter, readCounter, hget, if_neg (by decide), he,
      Option.map_some, Option.getD_some]
  rw [hval, get8_put8 _ (nextCounter_lt _), toInt_nextCounter] at hread
  exact bmod_succ_ne _ hread.symm

/-- The commit leaves the database as it is: the counter cannot be read, and the transaction
changes nothing that a counter of `1` would not undo. -/
structure SilentCommit (w : World) : Prop where
  unread : (w.env.answers .get).headD 0 ≠ 0
  same : ∀ t, w.env.writers.head? = some t → Function.update t.view .metadata
    (some (putEntry ((t.view .metadata).getD []) (metaKey lumoLmdbMetaCounter)
      (put8 w.fixedRowid 1))) = w.database

theorem nextCounter_zero : nextCounter 0 = 1 := by decide

theorem silentCommit_iff {t : WriteTxn} (ht : w.env.writers.head? = some t)
    (hkeeps : KeepsCounter before t) (hbefore : w.database = before) (hhas : w.p.hasData = true) :
    bumped w t.view = before ↔ SilentCommit w := by
  have hread : (w.env.answers .get).headD 0 ≠ 0 → bumped w t.view = Function.update t.view .metadata
      (some (putEntry ((t.view .metadata).getD []) (metaKey lumoLmdbMetaCounter)
        (put8 w.fixedRowid 1))) := fun hne => by
    have hzero : counterOf w t.view = 0 := by
      rw [counterOf, if_pos hhas, meta64_counter, readCounter, if_pos hne]
    rw [bumped, hzero, ← nextCounter, nextCounter_zero]
  constructor
  · intro heq
    have hne : (w.env.answers .get).headD 0 ≠ 0 := fun hget =>
      bumped_ne hkeeps.1 hkeeps.2 hhas hget heq
    refine ⟨hne, fun t' ht' => ?_⟩
    obtain rfl := Option.some.inj (ht.symm.trans ht')
    rw [← hread hne, heq, hbefore]
  · rintro ⟨hne, hsame⟩
    rw [hread hne, hsame t ht, hbefore]

end Counter

section Protocol

variable {w w₁ w₂ : World} {before : Contents} {tripCode : Rc} {writeOnly : Bool}

/-- A rollback after phase one: the commit stands when phase one succeeded. -/
theorem PhaseOne.rollback {rc rc' : Rc} (h : PhaseOne w rc w₁) (hw : InWrite before w)
    (hin : w.p.inTrans = .write)
    (hroll : sqlite3BtreeRollback tripCode writeOnly w₁ = .ok (rc', w₂)) :
    (rc ≠ sqliteOk → w₂.database = before) ∧
      (rc = sqliteOk → ∃ t, w.env.writers.head? = some t ∧ w₂.database = bumped w t.view) := by
  have hnone : w₁.p.inTrans = .none → w₂ = w₁ := fun hin₁ => by
    rw [sqlite3BtreeRollback] at hroll
    have hspec : Ensures (fun _ => False) (sqlite3BtreeRollback tripCode writeOnly)
        (fun _ w' => w' = w₁) w₁ := by
      rw [sqlite3BtreeRollback, ensures_bind, ensures_getP, if_pos hin₁]
      exact rfl
    exact hspec.of_ok hroll
  cases h with
  | nested s b hrc honly hsvp hwriters ht hb hcause =>
    refine ⟨fun _ => ?_, fun hok => absurd hok hrc⟩
    have hstack : TxnStack w₁ := by
      refine .writing (by rw [hsvp]; simp) ⟨?_, by rw [honly.disk]; exact hw.aligned.locked⟩ ?_ ?_
      · rw [hsvp, hwriters, List.map_cons, List.map_cons, ht]
        rfl
      · intro s' hs'
        rw [hsvp] at hs'
        cases hs'
      · rw [honly.p, hin]
        decide
    obtain ⟨-, ⟨-, rfl⟩ | ⟨-, hended⟩⟩ := (rollback_spec (.inl fun _ => trivial) hstack tripCode
      writeOnly : Ensures (fun _ => True) _ _ _).of_ok hroll
    · rw [World.database, honly.disk]
      exact hw.disk
    · rw [World.database, hended.contents, honly.disk]
      exact hw.disk
  | dropped hrc hended hcause =>
    refine ⟨fun _ => ?_, fun hok => absurd hok hrc⟩
    rw [hnone (by rw [hended.p]), World.database, hended.contents]
    exact hw.disk
  | failed s hrc hbuild hreadonly hp hwriters hdisk hcause =>
    refine ⟨fun _ => ?_, fun hok => absurd hok hrc⟩
    rw [hnone (by rw [hp]), World.database, hdisk]
    exact hw.disk
  | done t hrc hbuild hnCurs hreadonly hp hwriters ht hdata hdisk hcause =>
    refine ⟨fun hne => absurd hrc hne, fun _ => ⟨t, ht, ?_⟩⟩
    rw [hnone (by rw [hp]), World.database, hdisk]

theorem InWrite.rollback {rc : Rc} (hw : InWrite before w)
    (hroll : sqlite3BtreeRollback tripCode writeOnly w = .ok (rc, w₁)) : w₁.database = before := by
  obtain ⟨-, ⟨-, rfl⟩ | ⟨-, hended⟩⟩ := (rollback_spec (.inl fun _ => trivial) hw.stack tripCode
    writeOnly : Ensures (fun _ => True) _ _ _).of_ok hroll
  · exact hw.disk
  · rw [World.database, hended.contents]
    exact hw.disk

theorem rollbackAll_database {befores : List Contents} {ws ws' : List World}
    (hopen : List.Forall₂ Committing befores ws)
    (h : callAll (sqlite3BtreeRollback tripCode writeOnly) ws = .ok ws') :
    ws'.map World.database = befores := by
  induction hopen generalizing ws' with
  | nil =>
    obtain rfl := Except.ok.inj h
    rfl
  | cons hw hws ih =>
    obtain ⟨⟨rc, w₁⟩, hcall, h⟩ := except_bind_ok h
    obtain ⟨ws₁, hrest, h⟩ := except_bind_ok h
    obtain rfl := Except.ok.inj h
    rw [List.map_cons, hw.opened.inWrite.rollback hcall, ih hrest]

instance (w : World) : Decidable (PhaseOneFails w) :=
  inferInstanceAs (Decidable ((∃ i < _, _ ≠ _) ∨ _ = _ ∨ _ ≠ _ ∨ _ = _))

/-- The connections phase one has come by when it fails. -/
def committedFirst (ws : List World) : List World := ws.takeWhile fun w => ¬ PhaseOneFails w

theorem phaseOneAll_database {befores : List Contents} {ws ws₁ ws₂ : List World} {rc : Rc}
    (hopen : List.Forall₂ Committing befores ws) (h : phaseOneAll ws = .ok (rc, ws₁))
    (hrc : rc ≠ sqliteOk)
    (hroll : callAll (sqlite3BtreeRollback tripCode writeOnly) ws₁ = .ok ws₂) :
    ws₂.map World.database = befores ↔ ∀ w ∈ committedFirst ws, SilentCommit w := by
  induction hopen generalizing ws₁ ws₂ with
  | nil =>
    have hok : sqliteOk = rc := congrArg Prod.fst (Except.ok.inj h)
    exact absurd hok.symm hrc
  | @cons before w befores ws hw hws ih =>
    obtain ⟨⟨rc₁, w₁⟩, hcall, h⟩ := except_bind_ok h
    have hin := hw.opened.inWrite
    have hone := (commitPhaseOne_spec (E := fun _ => True) (.inl fun _ => trivial) hin.aligned
      hin.nonempty hin.numbered hw.write).of_ok hcall
    have hfails := hone.fails_iff hin.nonempty
    by_cases hrc₁ : rc₁ ≠ sqliteOk
    · rw [if_pos hrc₁] at h
      have hpair := Except.ok.inj h
      obtain rfl : w₁ :: ws = ws₁ := congrArg Prod.snd hpair
      obtain ⟨⟨rc₂, w₂⟩, hcall₂, hroll⟩ := except_bind_ok hroll
      obtain ⟨ws₃, hrest, hroll⟩ := except_bind_ok hroll
      obtain rfl := Except.ok.inj hroll
      have hfirst : committedFirst (w :: ws) = [] := by
        rw [committedFirst, List.takeWhile_cons_of_neg]
        simpa using hfails.mp hrc₁
      rw [hfirst, List.map_cons, (hone.rollback hin hw.write hcall₂).1 hrc₁,
        rollbackAll_database hws hrest]
      exact iff_of_true rfl (by simp)
    · have hok := not_not.mp hrc₁
      rw [if_neg hrc₁] at h
      obtain ⟨⟨rc', ws'⟩, hall, h⟩ := except_bind_ok h
      have hpair := Except.ok.inj h
      obtain rfl : rc' = rc := congrArg Prod.fst hpair
      obtain rfl : w₁ :: ws' = ws₁ := congrArg Prod.snd hpair
      obtain ⟨⟨rc₂, w₂⟩, hcall₂, hroll⟩ := except_bind_ok hroll
      obtain ⟨ws₃, hrest, hroll⟩ := except_bind_ok hroll
      obtain rfl := Except.ok.inj hroll
      have hnot : ¬ PhaseOneFails w := fun hf => absurd hok (hfails.mpr hf)
      have hfirst : committedFirst (w :: ws) = w :: committedFirst ws := by
        rw [committedFirst, List.takeWhile_cons_of_pos (by simpa using hnot)]
        rfl
      obtain ⟨t, ht, hstored⟩ := (hone.rollback hin hw.write hcall₂).2 hok
      have hkeeps := hin.counter t (List.mem_of_mem_head? ht)
      have hhas : w.p.hasData = true := by
        by_contra hne
        exact hnot (.inr (.inl (by simpa using hne)))
      rw [hfirst, List.map_cons, List.cons_eq_cons, hstored,
        silentCommit_iff ht hkeeps hin.disk hhas, ih hall hrest]
      simp

/-- After an error in phase one and a rollback of all, the databases hold what they held
before if and only if the commits that were made on the way had nothing to change. -/
theorem commitAll_restores_iff {befores : List Contents} {ws ws' : List World} {rc : Rc}
    (hopen : List.Forall₂ Committing befores ws)
    (h : commitAll tripCode writeOnly ws = .ok (rc, ws')) (hrc : rc ≠ sqliteOk) :
    ws'.map World.database = befores ↔ ∀ w ∈ committedFirst ws, SilentCommit w := by
  obtain ⟨⟨rc₁, ws₁⟩, hall, h⟩ := except_bind_ok h
  obtain ⟨ws₂, hroll, h⟩ := except_bind_ok h
  have hpair := Except.ok.inj h
  obtain rfl : rc₁ = rc := congrArg Prod.fst hpair
  obtain rfl : ws₂ = ws' := congrArg Prod.snd hpair
  rw [if_neg hrc] at hroll
  exact phaseOneAll_database hopen hall hrc hroll

end Protocol

/-- A connection with a write transaction, and the codes its commit will get. -/
def writing (answers : Answers) : World :=
  { newConnection with
    env := { newConnection.env.beginWriter with answers := answers }
    p := begun newConnection.p true 0 true }

theorem writing_committing (answers : Answers) : Committing newDisk.contents (writing answers) :=
  ⟨.intro newConnection _ true false none [⟨.data (.eof 0), answers⟩] newConnection_ready rfl rfl
    (fun h => (by cases h)) (.cons trivial rfl (.nil _)), rfl⟩

/-- A connection whose commit fails at the end. -/
def failingCommit : World := writing (Function.update (fun _ => []) .txnCommit [enospc])

/-- The second of two commits fails and the first one stands. -/
theorem secondCommit_fails : ∃ ws' rc,
    List.Forall₂ Committing [newDisk.contents, newDisk.contents]
      [writing fun _ => [], failingCommit] ∧
    commitAll sqliteAbort false [writing fun _ => [], failingCommit] = .ok (rc, ws') ∧
    rc ≠ sqliteOk ∧ ws'.map World.database ≠ [newDisk.contents, newDisk.contents] := by
  refine ⟨_, _, .cons (writing_committing _) (.cons (writing_committing _) .nil), rfl, by decide, ?_⟩
  intro h
  have hfirst := congrFun (List.cons.inj h).1 .metadata
  cases hfirst

theorem commitAll_restores_iff_sample : ∃ ws',
    commitAll sqliteAbort false [failingCommit, writing fun _ => []] =
      .ok (errorMap enospc, ws') ∧
      ws'.map World.database = [newDisk.contents, newDisk.contents] := by
  have hrun : ∃ ws', commitAll sqliteAbort false [failingCommit, writing fun _ => []] =
      .ok (errorMap enospc, ws') := ⟨_, rfl⟩
  obtain ⟨ws', hrun⟩ := hrun
  have hopen : List.Forall₂ Committing [newDisk.contents, newDisk.contents]
      [failingCommit, writing fun _ => []] :=
    .cons (writing_committing _) (.cons (writing_committing _) .nil)
  have hfirst : committedFirst [failingCommit, writing fun _ => []] = [] := by decide +kernel
  refine ⟨ws', hrun, (commitAll_restores_iff hopen hrun (by decide)).mpr ?_⟩
  rw [hfirst]
  exact fun _ h => (by cases h)

end LumoSql.Btree
