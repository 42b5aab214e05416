import LumoSql.ListInvalidation

/-! Levels that are closed while cursors are open: the cursors are invalidated with the first level,
and from then on there is nothing to do for them. -/
namespace LumoSql.Btree
open StateLogic Lmdb

/-- No cursor of the handle is due. -/
def Resting (w : World) : Prop := ∃ l, Listed w l ∧ ∀ i ∈ l, ¬ (w.curs i).Due

/-- The handle without, or with another, list of cursors. -/
def World.withList (w : World) (o : Option ℕ) : World := { w with p := { w.p with firstCursor := o } }

section Resting

variable {E : Halt → Prop} {w w' : World}

theorem Resting.congr (h : Resting w) (hcurs : w'.curs = w.curs) (hfirst : w'.p.firstCursor = w.p.firstCursor)
    (hcount : w'.nCurs = w.nCurs) : Resting w' := by
  obtain ⟨l, hl, hdue⟩ := h
  refine ⟨l, hl.congr (fun i => ?_) hfirst hcount, fun i hi => ?_⟩
  · rw [World.links, World.links, hcurs]
  · rw [hcurs]
    exact hdue i hi

theorem resting_of_none (h : w.p.firstCursor = none) : Resting w :=
  ⟨[], ⟨by rw [h]; exact .nil, .nil, fun _ hi => absurd hi List.not_mem_nil⟩,
    fun _ hi => absurd hi List.not_mem_nil⟩

theorem invalidateLoop_resting {l : List ℕ} {fuel : ℕ} {o : Option ℕ} (hl : LinkedLists.Follows w.links o l)
    (hfuel : l.length ≤ fuel) (hdue : ∀ i ∈ l, ¬ (w.curs i).Due) (tripCode : Rc) (writeOnly : Bool) (rc : Rc) :
    invalidateLoop tripCode writeOnly fuel o rc w = .ok (rc, w) := by
  induction l generalizing o fuel with
  | nil =>
    cases hl
    cases fuel <;> rfl
  | cons i l ih =>
    cases hl with
    | cons hl =>
      obtain ⟨fuel, rfl⟩ : ∃ n, fuel = n + 1 := Nat.exists_eq_add_one.mpr (by simp at hfuel; omega)
      have hfuel : l.length ≤ fuel := by simp at hfuel; omega
      have hrest := ih hl hfuel fun j hj => hdue j (List.mem_cons_of_mem i hj)
      have hspec : Ensures (fun _ => False) (invalidateLoop tripCode writeOnly (fuel + 1) (some i) rc)
          (fun rc' w' => rc' = rc ∧ w' = w) w := by
        rw [invalidateLoop, ensures_bind, ensures_getCur, ensures_bind]
        apply (invalidateCursor_skips (hdue i List.mem_cons_self) tripCode writeOnly rc).imp
        rintro _ _ ⟨rfl, rfl⟩
        exact ensures_of_ok hrest ⟨rfl, rfl⟩
      obtain ⟨_, _, hrun, rfl, rfl⟩ := hspec.result
      exact hrun

/-- Invalidation has nothing to do. -/
theorem Resting.invalidateCursors (h : Resting w) (tripCode : Rc) (writeOnly : Bool) :
    invalidateCursors tripCode writeOnly w = .ok (0, w) := by
  obtain ⟨l, hl, hdue⟩ := h
  have hspec : Ensures (fun _ => False) (Btree.invalidateCursors tripCode writeOnly)
      (fun rc w' => rc = 0 ∧ w' = w) w := by
    rw [Btree.invalidateCursors, ensures_bind, ensures_getP, ensures_bind, ensures_read]
    exact ensures_of_ok (invalidateLoop_resting hl.visits hl.length_le hdue tripCode writeOnly 0) ⟨rfl, rfl⟩
  obtain ⟨_, _, hrun, rfl, rfl⟩ := hspec.result
  exact hrun

theorem Resting.ensures_invalidateCursors (h : Resting w) (tripCode : Rc) (writeOnly : Bool)
    (Q : Rc → World → Prop) : Ensures E (Btree.invalidateCursors tripCode writeOnly) Q w ↔ Q 0 w := by
  rw [Ensures, h.invalidateCursors tripCode writeOnly]

/-- The end of the transaction of a level. -/
def endLevel (s : BtreeSavepoint) (commit : Bool) (rc : Rc) : Mdb Rc :=
  if commit ∧ rc = 0 then mdbTxnCommit s.txn
  else do
    mdbTxnAbort s.txn
    pure rc

/-- The world with the environment and the stack of `w'`. -/
def World.ended (w w' : World) : World := { w with env := w'.env, p := { w.p with svp := w'.p.svp } }

theorem Resting.ensures_closeLevel (h : Resting w) (s : BtreeSavepoint) (commit : Bool) (tripCode rc : Rc)
    (Q : Rc → World → Prop) : Ensures E (closeLevel s commit tripCode rc) Q w ↔
      Ensures E (endLevel s commit rc) (fun rc' e => Q rc' { w with env := e }) w.env := by
  have hrc : (if rc = 0 then 0 else rc) = rc := by
    split_ifs with hzero
    · exact hzero.symm
    · rfl
  rw [closeLevel, ensures_bind, h.ensures_invalidateCursors]
  simp only [hrc, endLevel, ensures_ite, ensures_lmdb, ensures_bind, ensures_pure]

/-- The levels are closed as if there were no cursors. -/
theorem Resting.ensures_closeLoop (h : Resting w) (nTo : ℤ) (commit : Bool) (tripCode : Rc)
    (levels : List BtreeSavepoint) (rc : Rc) (Q : Rc → World → Prop) :
    Ensures E (closeLoop nTo commit tripCode levels rc) Q w ↔
      Ensures E (closeLoop nTo commit tripCode levels rc) (fun rc' w' => Q rc' (w.ended w')) (w.withList none) := by
  induction levels generalizing w rc with
  | nil => rfl
  | cons s levels ih =>
    cases levels with
    | nil => rfl
    | cons s' levels =>
      rw [closeLoop, ensures_ite, ensures_ite]
      split_ifs
      · rfl
      · have hnone : Resting { w.withList none with p := { (w.withList none).p with svp := s' :: levels } } :=
          resting_of_none rfl
        have hsome : Resting { w with p := { w.p with svp := s' :: levels } } := h.congr rfl rfl rfl
        rw [ensures_bind, ensures_setP, ensures_bind, hsome.ensures_closeLevel, ensures_bind, ensures_setP,
          ensures_bind, hnone.ensures_closeLevel]
        have hrest : ∀ (e : Env) (rc' : Rc), Ensures E (closeLoop nTo commit tripCode (s' :: levels) rc') Q
            { w with env := e, p := { w.p with svp := s' :: levels } } ↔
              Ensures E (closeLoop nTo commit tripCode (s' :: levels) rc') (fun rc' w' => Q rc' (w.ended w'))
              { w.withList none with env := e, p := { (w.withList none).p with svp := s' :: levels } } :=
          fun e rc' => ih (w := { w with env := e, p := { w.p with svp := s' :: levels } })
            (h.congr rfl rfl rfl) rc'
        simp only [hrest]
        rfl

end Resting

def World.withStack (w : World) (levels : List BtreeSavepoint) : World := { w with p := { w.p with svp := levels } }

section Closing

variable {E : Halt → Prop} {w w' : World} {l : List ℕ} {tripCode : Rc} {commit : Bool}

/-- The first invalidation sees the cursors, and what follows is the loop from the world it leaves. -/
theorem closeLoop_first {nTo : ℤ} {s s' : BtreeSavepoint} {levels : List BtreeSavepoint} (hn : s.nSavepoint ≠ nTo)
    {Q : Rc → World → Prop} (hinv : Ensures E (invalidateCursors tripCode false) (fun rc₁ w₁ => Resting w₁ ∧
      w₁.p.svp = s' :: levels ∧
      Ensures E (closeLoop nTo commit tripCode (s :: s' :: levels) rc₁) Q (w₁.withStack (s :: s' :: levels)))
      (w.withStack (s' :: levels))) :
    Ensures E (closeLoop nTo commit tripCode (s :: s' :: levels) 0) Q w := by
  rw [closeLoop, if_neg hn, ensures_bind, ensures_setP, ensures_bind, closeLevel, ensures_bind]
  refine hinv.imp fun rc₁ w₁ h => ?_
  obtain ⟨hrest, hsvp, h⟩ := h
  have hsame : w₁ = w₁.withStack (s' :: levels) := by rw [← hsvp]; rfl
  have hrest : Resting (w₁.withStack (s' :: levels)) := by rwa [← hsame]
  rw [closeLoop, if_neg hn, ensures_bind, ensures_setP, ensures_bind] at h
  have h := (hrest.ensures_closeLevel s commit tripCode rc₁ _).mp h
  simp only [endLevel, ensures_ite, ensures_bind, ensures_pure] at h
  rw [hsame]
  simp only [if_true, ensures_ite, ensures_lmdb, ensures_bind, ensures_pure]
  exact h

theorem LevelsClosed.congr {k : ℕ} {rc rc' : Rc} {w'' : World} (h : LevelsClosed k commit tripCode rc w rc' w')
    (hbuild : w''.fixedRowid = w'.fixedRowid) (hp : w''.p = w'.p) (hcount : w''.nCurs = w'.nCurs)
    (henv : w''.env = w'.env) : LevelsClosed k commit tripCode rc w rc' w'' := by
  obtain ⟨honly, hsvp, haborted, hcommitted, hcodes, hkeeps, hnone, hquiet, hcause⟩ := h
  refine ⟨⟨hbuild.trans honly.build, ?_, hcount.trans honly.nCurs, ?_, ?_, ?_, ?_, ?_⟩, ?_, ?_, ?_, ?_, hkeeps,
    hnone, hquiet, hcause⟩
  · rw [hp]
    exact honly.p
  · rw [henv]
    exact honly.disk
  · rw [henv]
    exact honly.readonly
  · rw [henv]
    exact honly.readers
  · rw [henv]
    exact honly.next
  · rw [henv]
    exact honly.answers
  · rw [hp]
    exact hsvp
  · rw [henv]
    exact haborted
  · rw [henv]
    exact hcommitted
  · rw [henv]
    exact hcodes

/-- What is left when levels have been closed while cursors were open: the cursors as the invalidation
with the code `rc₁` left them, and the levels that are not closed. -/
structure ClosedWith (k : ℕ) (commit : Bool) (tripCode : Rc) (w : World) (rc₁ : Rc) (w₁ : World) (rc : Rc)
    (w' : World) : Prop where
  only : CursorsOnly w w₁
  curs : w'.curs = w₁.curs
  handle : w'.p = { w.p with svp := w'.p.svp }
  count : w'.nCurs = w.nCurs
  levels : LevelsClosed k commit tripCode rc₁ (w₁.withList none) rc (w'.withList none)

/-- Closing levels of a write transaction, of which there is one to close. -/
theorem closeAllSavepoints_with {P : Rc → World → Prop} {nTo : ℤ} (hal : Aligned w)
    (hcount : closedCount nTo w.p.svp ≠ 0)
    (hinv : ∀ levels, Ensures E (invalidateCursors tripCode false) (fun rc₁ w₁ => Resting w₁ ∧
      CursorsOnly (w.withStack levels) w₁ ∧ P rc₁ (w₁.withStack w.p.svp)) (w.withStack levels)) :
    Ensures E (closeAllSavepoints nTo commit tripCode) (fun rc w' => ∃ rc₁ w₁, P rc₁ w₁ ∧
      ClosedWith (closedCount nTo w.p.svp) commit tripCode w rc₁ w₁ rc w') w := by
  rw [closeAllSavepoints, ensures_bind, ensures_getP]
  generalize hsvp : w.p.svp = levels at hcount hinv ⊢
  rcases levels with _ | ⟨s, _ | ⟨s', rest⟩⟩
  · exact absurd rfl hcount
  · exact absurd rfl hcount
  · have hn : s.nSavepoint ≠ nTo := by
      rintro rfl
      simp [closedCount] at hcount
    refine closeLoop_first hn ((hinv (s' :: rest)).imp fun rc₁ w₁ h => ?_)
    obtain ⟨hrest, honly, hP⟩ := h
    refine ⟨hrest, by rw [honly.p]; rfl, ?_⟩
    have hrest' : Resting (w₁.withStack (s :: s' :: rest)) := hrest.congr rfl rfl rfl
    have hp : (w₁.withStack (s :: s' :: rest)).p = w.p := by
      rw [World.withStack, honly.p, ← hsvp]
      rfl
    refine (hrest'.ensures_closeLoop nTo commit tripCode _ rc₁ _).mpr ?_
    refine (closeLoop_spec nTo commit tripCode (s :: s' :: rest) rc₁ (.inr rfl) ⟨?_, ?_⟩ rfl).imp fun rc w' h => ?_
    · rw [← hsvp]
      exact hal.ids.trans (congrArg _ honly.env.writers.symm)
    · exact (congrArg _ honly.env.disk).trans hal.locked
    · refine ⟨rc₁, _, hP, ⟨honly.build, hp, honly.nCurs, honly.env⟩, rfl, ?_, honly.nCurs, ?_⟩
      · rw [World.ended, hp]
      · exact h.congr h.only.build.symm h.only.p.symm h.only.nCurs.symm rfl

theorem BtCursor.tripped_not_due (htrip : tripCode ≠ sqliteOk) (d : BtCursor) : ¬ (d.tripped tripCode false).Due := by
  by_cases hd : d.Due
  · rw [tripped, if_pos ⟨hd, Or.inr rfl⟩]
    exact fun h => htrip h.1
  · rw [tripped_of_not_due hd]
    exact hd

theorem Listed.tripped (hl : Listed w l) (tripCode : Rc) (writeOnly : Bool) :
    Listed (w.tripped l tripCode writeOnly) l := by
  refine hl.congr (fun i => ?_) rfl rfl
  simp only [World.links, World.tripped]
  split_ifs
  · exact BtCursor.tripped_next _
  · rfl

theorem closeAllSavepoints_trips (htrip : tripCode ≠ sqliteOk) {nTo : ℤ} (hal : Aligned w)
    (hcount : closedCount nTo w.p.svp ≠ 0) (hl : Listed w l) :
    Ensures E (closeAllSavepoints nTo commit tripCode) (fun rc w' =>
      ClosedWith (closedCount nTo w.p.svp) commit tripCode w 0 (w.tripped l tripCode false) rc w') w := by
  refine (closeAllSavepoints_with (P := fun rc₁ w₁ => rc₁ = 0 ∧ w₁ = w.tripped l tripCode false) hal hcount
    fun levels => ?_).imp ?_
  · have hl' : Listed (w.withStack levels) l := hl.congr (fun _ => rfl) rfl rfl
    apply (invalidateCursors_trips htrip hl').imp
    rintro _ _ ⟨rfl, rfl⟩
    refine ⟨⟨l, hl'.tripped tripCode false, fun i hi => ?_⟩, ⟨rfl, rfl, rfl, Frame.refl _⟩, rfl, rfl⟩
    simp only [World.tripped, if_pos hi]
    exact BtCursor.tripped_not_due htrip _
  · rintro rc w' ⟨_, _, ⟨rfl, rfl⟩, h⟩
    exact h

theorem ListSaved.resting {rc rc₁ : Rc} {w₁ : World} (h : ListSaved l rc w rc₁ w₁) (hl : Listed w l) :
    Resting w₁ := ⟨l, hl.congr h.links.next h.links.first h.only.nCurs, h.settled⟩

theorem closeAllSavepoints_saves {nTo : ℤ} (hal : Aligned w) (hcount : closedCount nTo w.p.svp ≠ 0)
    (hlive : (∀ h, E h) ∨ ∀ i ∈ l, (w.curs i).Due → Alive w i) (hapart : Apart w l) (hl : Listed w l) :
    Ensures E (closeAllSavepoints nTo commit sqliteOk) (fun rc w' => ∃ rc₁ w₁, ListSaved l 0 w rc₁ w₁ ∧
      ClosedWith (closedCount nTo w.p.svp) commit sqliteOk w rc₁ w₁ rc w') w := by
  refine closeAllSavepoints_with hal hcount fun levels => ?_
  have hl' : Listed (w.withStack levels) l := hl.congr (fun _ => rfl) rfl rfl
  have hsame : ∀ i, SameCursor i w (w.withStack levels) := fun i => ⟨rfl, fun _ _ => rfl, rfl, rfl⟩
  have hlive' : (∀ h, E h) ∨ ∀ i ∈ l, ((w.withStack levels).curs i).Due → Alive (w.withStack levels) i := by
    exact hlive.imp_right fun hall i hi hd => (hsame i).alive (hall i hi hd)
  refine (invalidateCursors_saves hlive' hapart hl' false).imp fun rc₁ w₁ h => ?_
  refine ⟨h.resting hl', h.only, ⟨h.only.build, ?_, h.only.nCurs, h.only.env⟩, ?_, h.calm, h.others, h.skipped,
    h.handles, ?_, h.failed, ?_⟩
  · rw [World.withStack, h.only.p]
    rfl
  · exact ⟨h.links.next, h.links.prev, h.links.opened, h.links.first, h.links.last⟩
  · intro i hi hd
    rcases h.outcome i hi hd with ⟨key, hkey, hsaved⟩ | ⟨htrip, hne, hnone⟩
    · exact .inl ⟨key, (hsame i).symm.holds hkey, hsaved⟩
    · exact .inr ⟨htrip, hne, fun hcalm key hkey => hnone hcalm key ((hsame i).holds hkey)⟩
  · refine fun hcalm hall => h.done hcalm fun i hi hd => ?_
    obtain ⟨key, hkey⟩ := hall i hi hd
    exact ⟨key, (hsame i).holds hkey⟩

end Closing

end LumoSql.Btree
