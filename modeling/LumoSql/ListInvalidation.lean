import LumoSql.CursorLists
import LumoSql.SavedPositions
import Mathlib.Data.List.Perm.Subperm

/-! What invalidation does to the whole list of cursors of a handle: which cursors are tripped,
which are saved, and when saving fails. -/
namespace LumoSql.Btree
open StateLogic Lmdb LinkedLists

/-- Invalidation does not skip the cursor. -/
def BtCursor.Due (d : BtCursor) : Prop := d.tripCode = sqliteOk ∧ d.cursor.isSome = true

instance (d : BtCursor) : Decidable d.Due := inferInstanceAs (Decidable (_ ∧ _))

/-- The cursors of the handle are those of `l`. -/
structure Listed (w : World) (l : List ℕ) : Prop where
  visits : Follows w.links w.p.firstCursor l
  once : l.Nodup
  bound : ∀ i ∈ l, i < w.nCurs

/-- Cursors that are due do not share LMDB cursors. -/
def Apart (w : World) (l : List ℕ) : Prop :=
  ∀ i ∈ l, ∀ j ∈ l, (w.curs i).Due → (w.curs j).Due → (w.curs i).cursor = (w.curs j).cursor → i = j

/-- The LMDB cursor is alive. -/
def Alive (w : World) (i : ℕ) : Prop := ∃ h c es, Reads w i h c es

/-- The cursor is alive on an entry with the key. -/
def Holds (w : World) (i : ℕ) (key : Bytes) : Prop :=
  ∃ h c es data, Reads w i h c es ∧ c.pos.initialized = true ∧ es[c.pos.index]? = some (key, data)

/-- Every cursor that is due stands on an entry. -/
def AllHold (w : World) (l : List ℕ) : Prop := ∀ i ∈ l, (w.curs i).Due → ∃ key, Holds w i key

section Lists

variable {w w' : World} {l : List ℕ}

theorem Listed.length_le (h : Listed w l) : l.length ≤ w.nCurs := by
  have hsub := (h.once.subperm fun i hi => List.mem_range.mpr (h.bound i hi)).length_le
  rwa [List.length_range] at hsub

theorem Listed.congr (h : Listed w l) (hlinks : ∀ i, w'.links i = w.links i)
    (hfirst : w'.p.firstCursor = w.p.firstCursor) (hcurs : w'.nCurs = w.nCurs) : Listed w' l := by
  refine ⟨?_, h.once, ?_⟩
  · rw [hfirst]
    exact h.visits.congr fun i _ => hlinks i
  · rw [hcurs]
    exact h.bound

end Lists

section Tripping

variable {E : Halt → Prop} {w : World} {l : List ℕ} {tripCode : Rc} {writeOnly : Bool}

def BtCursor.tripped (d : BtCursor) (tripCode : Rc) (writeOnly : Bool) : BtCursor :=
  if d.Due ∧ (d.wrFlag = true ∨ writeOnly = false) then { d with tripCode := tripCode } else d

/-- The cursors of `l` have been tripped. -/
def World.tripped (w : World) (l : List ℕ) (tripCode : Rc) (writeOnly : Bool) : World :=
  { w with curs := fun i => if i ∈ l then (w.curs i).tripped tripCode writeOnly else w.curs i }

theorem BtCursor.tripped_next (d : BtCursor) : (d.tripped tripCode writeOnly).next = d.next := by
  rw [tripped]
  split_ifs <;> rfl

theorem BtCursor.tripped_of_not_due {d : BtCursor} (h : ¬ d.Due) : d.tripped tripCode writeOnly = d :=
  if_neg fun hd => h hd.1

theorem invalidateCursor_trips (htrip : tripCode ≠ sqliteOk) (i : ℕ) (rc : Rc) :
    Ensures E (invalidateCursor tripCode writeOnly i rc)
      (fun rc' w' => rc' = rc ∧ w' = w.tripped [i] tripCode writeOnly) w := by
  have hworld : ∀ d : BtCursor, (w.curs i).tripped tripCode writeOnly = d →
      { w with curs := Function.update w.curs i d } = w.tripped [i] tripCode writeOnly := by
    rintro d rfl
    unfold World.tripped
    congr 1
    funext j
    by_cases hj : j = i
    · subst hj
      simp
    · simp [hj]
  rw [invalidateCursor, ensures_bind, ensures_getCur]
  refine Ensures.ite (fun hdue => ?_) fun hskip => ?_
  · rw [if_neg htrip, ensures_bind, ensures_setCur, ensures_pure]
    refine ⟨rfl, hworld _ ?_⟩
    have hdue : (w.curs i).Due := hdue
    have hflags : ((w.curs i).wrFlag = true ∨ (!writeOnly) = true) ↔
        (w.curs i).wrFlag = true ∨ writeOnly = false := by rw [Bool.not_eq_true']
    rw [BtCursor.tripped]
    simp only [hflags, hdue, true_and]
    split_ifs <;> rfl
  · have hskip : ¬ (w.curs i).Due := hskip
    refine ⟨rfl, ?_⟩
    rw [← hworld _ (BtCursor.tripped_of_not_due hskip), Function.update_eq_self]

theorem invalidateLoop_trips (htrip : tripCode ≠ sqliteOk) {fuel : ℕ} {o : Option ℕ} (hl : Follows w.links o l)
    (honce : l.Nodup) (hfuel : l.length ≤ fuel) (rc : Rc) :
    Ensures E (invalidateLoop tripCode writeOnly fuel o rc)
      (fun rc' w' => rc' = rc ∧ w' = w.tripped l tripCode writeOnly) w := by
  induction l generalizing w o fuel with
  | nil =>
    cases hl
    cases fuel <;> exact ⟨rfl, by simp [World.tripped]⟩
  | cons i l ih =>
    cases hl with
    | cons hl =>
      obtain ⟨fuel, rfl⟩ : ∃ n, fuel = n + 1 := Nat.exists_eq_add_one.mpr (by simp at hfuel; omega)
      obtain ⟨hi, honce⟩ := List.nodup_cons.mp honce
      rw [invalidateLoop, ensures_bind, ensures_getCur, ensures_bind]
      apply (invalidateCursor_trips htrip i rc).imp
      rintro _ _ ⟨rfl, rfl⟩
      have hlinks : Follows (w.tripped [i] tripCode writeOnly).links (w.links i) l := by
        refine hl.congr fun j hj => ?_
        simp only [World.links, World.tripped]
        split_ifs
        · exact BtCursor.tripped_next _
        · rfl
      apply (ih hlinks honce (by simp at hfuel; omega)).imp
      rintro _ _ ⟨rfl, rfl⟩
      refine ⟨rfl, ?_⟩
      unfold World.tripped
      congr 1
      funext j
      by_cases hj : j = i
      · subst hj
        simp [hi]
      · simp [hj]

/-- Tripping, with a code that is not `SQLITE_OK`. -/
theorem invalidateCursors_trips (htrip : tripCode ≠ sqliteOk) (hl : Listed w l) :
    Ensures E (invalidateCursors tripCode writeOnly)
      (fun rc w' => rc = 0 ∧ w' = w.tripped l tripCode writeOnly) w := by
  rw [invalidateCursors, ensures_bind, ensures_getP, ensures_bind, ensures_read]
  exact invalidateLoop_trips htrip hl.visits hl.once hl.length_le 0

end Tripping

section Saving

variable {E : Halt → Prop} {w w' : World} {i h : ℕ} {c : MdbCursor} {es : Entries} {l : List ℕ} {rc rc' : Rc}

/-- The position of cursor `i`, with the handle `h`, is saved, or it is lost with an error. -/
structure SavedOne (i h : ℕ) (rc : Rc) (w : World) (rc' : Rc) (w' : World) : Prop where
  only : CursorsOnly w w'
  links : LinksKept w w'
  others : ∀ j, j ≠ i → w'.curs j = w.curs j
  handles : ∀ h', h' ≠ h → w'.env.cursors h' = w.env.cursors h'
  calm : w.env.Calm → w'.env.Calm
  outcome : (rc' = rc ∧ ∃ key, Holds w i key ∧ w'.curs i = (w.curs i).saved key) ∨
    (w'.curs i).tripCode ≠ sqliteOk ∧ rc' ≠ 0 ∧ (w.env.Calm → ∀ key, ¬ Holds w i key)

theorem Reads.holds_iff (hc : Reads w i h c es) {key : Bytes} : Holds w i key ↔
    c.pos.initialized = true ∧ ∃ data, es[c.pos.index]? = some (key, data) := by
  constructor
  · rintro ⟨h', c', es', data, hc', hinit, hentry⟩
    obtain ⟨rfl, rfl, rfl⟩ := hc.unique hc'
    exact ⟨hinit, data, hentry⟩
  · rintro ⟨hinit, data, hentry⟩
    exact ⟨h, c, es, data, hc, hinit, hentry⟩

theorem errorMap_ne {rc : Rc} (hrc : rc ≠ 0) : errorMap rc ≠ sqliteOk := fun hok => hrc ((errorMap_eq_ok _).mp hok)

theorem orElse_ne_zero {rc rc1 : Rc} (h : rc1 ≠ 0) : (if rc = 0 then rc1 else rc) ≠ 0 := by
  split_ifs with hrc
  · exact h
  · exact hrc

theorem invalidateCursor_saves (hdue : (w.curs i).Due) (hc : Reads w i h c es) (writeOnly : Bool) (rc : Rc) :
    Ensures E (invalidateCursor sqliteOk writeOnly i rc) (SavedOne i h rc w) w := by
  have hspec : Ensures E (invalidateCursor sqliteOk writeOnly i rc) (fun rc' w' =>
      (∀ j, j ≠ i → w'.curs j = w.curs j) ∧ (∀ h', h' ≠ h → w'.env.cursors h' = w.env.cursors h') ∧
      (w.env.Calm → w'.env.Calm) ∧ ((rc' = rc ∧ ∃ key, Holds w i key ∧ w'.curs i = (w.curs i).saved key) ∨
        (w'.curs i).tripCode ≠ sqliteOk ∧ rc' ≠ 0 ∧ (w.env.Calm → ∀ key, ¬ Holds w i key))) w := by
    have hdue' : (w.curs i).tripCode = sqliteOk ∧ (w.curs i).cursor.isSome = true := hdue
    rw [invalidateCursor, ensures_bind, ensures_getCur, if_pos hdue', if_pos rfl, ensures_bind, hc.handle,
      hc.ensures_get]
    by_cases hans : (w.env.answers .cursorGet).headD 0 = 0
    · rw [if_neg (not_not.mpr hans)]
      have hmoved : ∀ pos, ((w.moveCursor h c pos).env.Calm ↔ (w.env.pop .cursorGet).Calm) ∧
          ∀ h', h' ≠ h → (w.moveCursor h c pos).env.cursors h' = w.env.cursors h' :=
        fun pos => ⟨Iff.rfl, fun h' hne => Function.update_of_ne hne _ _⟩
      refine Ensures.ite (fun hmove => ?_) fun hmove => ?_
      · refine ⟨fun j hj => Function.update_of_ne hj _ _, (hmoved _).2,
          fun hcalm => by rw [(hmoved _).1, hcalm.pop]; exact hcalm, .inr ⟨?_, orElse_ne_zero hmove, ?_⟩⟩
        · simpa using errorMap_ne hmove
        · rintro - key hkey
          obtain ⟨hinit, data, hentry⟩ := hc.holds_iff.mp hkey
          simp [CursorOp.move, moveCurrent, hinit, hentry] at hmove
      · obtain ⟨hinit, e, hentry⟩ : c.pos.initialized = true ∧ ∃ e, es[c.pos.index]? = some e := by
          rw [CursorOp.move, moveCurrent] at hmove
          cases hinit : c.pos.initialized with
          | false => simp [hinit, einval] at hmove
          | true =>
            cases hentry : es[c.pos.index]? with
            | none => simp [hinit, hentry, mdbNotfound] at hmove
            | some e => exact ⟨rfl, e, rfl⟩
        have hkey : Holds w i e.1 := hc.holds_iff.mpr ⟨hinit, e.2, hentry⟩
        have hmove : (CursorOp.getCurrent.move es c.pos).2 = (0, e.1, e.2) := by
          simp [CursorOp.move, moveCurrent, hinit, hentry]
        have hlive := (hc.move (CursorOp.getCurrent.move es c.pos).1).live
        have hcalm : w.env.Calm → (w.moveCursor h c (CursorOp.getCurrent.move es c.pos).1).env.Calm := by
          intro hcalm
          rw [(hmoved _).1, hcalm.pop]
          exact hcalm
        have hhandles := (hmoved (CursorOp.getCurrent.move es c.pos).1).2
        have hcurs : (w.moveCursor h c (CursorOp.getCurrent.move es c.pos).1).curs = w.curs := rfl
        rw [hmove]
        generalize w.moveCursor h c (CursorOp.getCurrent.move es c.pos).1 = w₁ at hlive hcalm hhandles hcurs
        have hcalm' : w.env.Calm → (w₁.env.pop .malloc).Calm := by
          intro h
          rw [(hcalm h).pop]
          exact hcalm h
        refine (ensures_bind _ _ _).mpr ((ensures_lmdb _ _).mpr ((ensures_answer _ _).mpr ?_))
        refine Ensures.ite (fun hoom => ?_) fun _ => ?_
        · refine ⟨fun j hj => ?_, hhandles, hcalm', .inr ⟨?_, orElse_ne_zero (by decide),
            fun hc => absurd ((hcalm hc).head _) hoom⟩⟩
          · simp only [Function.update_of_ne hj, hcurs]
          · simp only [Function.update_self]
            exact errorMap_ne (by decide)
        · rw [ensures_bind, ensures_setCur, ensures_bind, ensures_lmdb]
          have hlive : (w₁.env.pop .malloc).cursors h = some { c with pos := (CursorOp.getCurrent.move es c.pos).1 } :=
            hlive
          refine (documented.cursorClose hlive _).mpr ?_
          rw [ensures_bind, ensures_setCur, ensures_pure]
          refine ⟨fun j hj => ?_, fun h' hne => ?_, hcalm', .inl ⟨rfl, e.1, hkey, ?_⟩⟩
          · simp only [Function.update_of_ne hj, hcurs]
          · exact (Function.update_of_ne hne _ _).trans (hhandles h' hne)
          · simp only [Function.update_self, hcurs, BtCursor.saved, hdue.1, ite_self]
    · rw [if_pos hans]
      refine Ensures.ite (fun _ => ?_) fun hzero => absurd hans hzero
      refine ⟨fun j hj => Function.update_of_ne hj _ _, fun _ _ => rfl, fun hcalm => ?_,
        .inr ⟨?_, orElse_ne_zero hans, fun hcalm => absurd (hcalm.head _) hans⟩⟩
      · exact absurd (hcalm.head _) hans
      · simpa using errorMap_ne hans
  refine ((hspec.keep (keeps_invalidateCursor sqliteOk writeOnly i rc)).keep
    (linksKept_invalidateCursor sqliteOk writeOnly i rc)).imp fun rc' w' hres => ?_
  obtain ⟨⟨⟨hothers, hhandles, hcalm, houtcome⟩, honly⟩, hlinks⟩ := hres
  exact ⟨honly, hlinks, hothers, hhandles, hcalm, houtcome⟩

theorem invalidateCursor_skips (hskip : ¬ (w.curs i).Due) (tripCode : Rc) (writeOnly : Bool) (rc : Rc) :
    Ensures E (invalidateCursor tripCode writeOnly i rc) (fun rc' w' => rc' = rc ∧ w' = w) w := by
  rw [invalidateCursor, ensures_bind, ensures_getCur]
  exact Ensures.ite (fun hdue => absurd hdue hskip) fun _ => ⟨rfl, rfl⟩

/-- A cursor that is not alive stops the computation. -/
theorem invalidateCursor_dead (hE : ∀ h, E h) (hdue : (w.curs i).Due) (hdead : ¬ Alive w i) (writeOnly : Bool)
    (rc : Rc) (Q : Rc → World → Prop) : Ensures E (invalidateCursor sqliteOk writeOnly i rc) Q w := by
  have hdue' : (w.curs i).tripCode = sqliteOk ∧ (w.curs i).cursor.isSome = true := hdue
  obtain ⟨h, hh⟩ := Option.isSome_iff_exists.mp hdue.2
  rw [invalidateCursor, ensures_bind, ensures_getCur, if_pos hdue', if_pos rfl, ensures_bind, hh, ensures_lmdb,
    mdbCursorGet, ensures_bind, ensures_read]
  cases hc : w.env.cursors h with
  | none => simpa only [id_eq, hc, ensures_halt] using hE _
  | some c =>
    cases hv : w.env.cursorView c with
    | none => simpa only [id_eq, hc, hv, ensures_halt] using hE _
    | some v => exact absurd ⟨h, c, _, hh, hc, v, hv, rfl⟩ hdead

/-- Cursor `i` and what it moves in are the same. -/
structure SameCursor (i : ℕ) (w w' : World) : Prop where
  cur : w'.curs i = w.curs i
  handle : ∀ h, (w.curs i).cursor = some h → w'.env.cursors h = w.env.cursors h
  writers : w'.env.writers = w.env.writers
  readers : w'.env.readers = w.env.readers

theorem SameCursor.symm (hs : SameCursor i w w') : SameCursor i w' w :=
  ⟨hs.cur.symm, fun h hh => (hs.handle h (by rw [← hs.cur]; exact hh)).symm, hs.writers.symm, hs.readers.symm⟩

theorem SameCursor.reads (hs : SameCursor i w w') (hc : Reads w i h c es) : Reads w' i h c es := by
  obtain ⟨v, hview, hes⟩ := hc.view
  refine ⟨?_, (hs.handle h hc.handle).trans hc.live, v, ?_, hes⟩
  · rw [hs.cur]
    exact hc.handle
  · rw [Env.cursorView, hs.writers, hs.readers]
    exact hview

theorem SameCursor.alive (hs : SameCursor i w w') (ha : Alive w i) : Alive w' i := by
  obtain ⟨h, c, es, hc⟩ := ha
  exact ⟨h, c, es, hs.reads hc⟩

theorem SameCursor.holds (hs : SameCursor i w w') {key : Bytes} (hk : Holds w i key) : Holds w' i key := by
  obtain ⟨h, c, es, data, hc, hinit, hentry⟩ := hk
  exact ⟨h, c, es, data, hs.reads hc, hinit, hentry⟩

theorem Holds.alive {key : Bytes} (hk : Holds w i key) : Alive w i := by
  obtain ⟨h, c, es, -, hc, -⟩ := hk
  exact ⟨h, c, es, hc⟩

/-- What saving the positions of the cursors of `l` does, on the way from the result `rc` to `rc'`. -/
structure ListSaved (l : List ℕ) (rc : Rc) (w : World) (rc' : Rc) (w' : World) : Prop where
  only : CursorsOnly w w'
  links : LinksKept w w'
  calm : w.env.Calm → w'.env.Calm
  others : ∀ j, j ∉ l → w'.curs j = w.curs j
  skipped : ∀ i ∈ l, ¬ (w.curs i).Due → w'.curs i = w.curs i
  handles : ∀ h, (∀ i ∈ l, (w.curs i).Due → (w.curs i).cursor ≠ some h) → w'.env.cursors h = w.env.cursors h
  outcome : ∀ i ∈ l, (w.curs i).Due → (∃ key, Holds w i key ∧ w'.curs i = (w.curs i).saved key) ∨
    (w'.curs i).tripCode ≠ sqliteOk ∧ rc' ≠ 0 ∧ (w.env.Calm → ∀ key, ¬ Holds w i key)
  failed : rc ≠ 0 → rc' ≠ 0
  done : w.env.Calm → AllHold w l → rc' = rc

theorem ListSaved.nil (rc : Rc) (w : World) : ListSaved [] rc w rc w :=
  ⟨Frame.refl w, Frame.refl w, id, fun _ _ => rfl, fun _ h => absurd h List.not_mem_nil, fun _ _ => rfl,
    fun _ h => absurd h List.not_mem_nil, id, fun _ _ => rfl⟩

/-- The first cursor of the list has nothing to save. -/
theorem ListSaved.skip (hskip : ¬ (w.curs i).Due) (hi : i ∉ l) (h : ListSaved l rc w rc' w') :
    ListSaved (i :: l) rc w rc' w' := by
  have hsame := h.others i hi
  refine ⟨h.only, h.links, h.calm, fun j hj => h.others j fun hm => hj (List.mem_cons_of_mem i hm), ?_, ?_, ?_,
    h.failed, fun hcalm hall => h.done hcalm fun j hj => hall j (List.mem_cons_of_mem i hj)⟩
  · intro j hj hd
    rcases List.mem_cons.mp hj with rfl | hj
    · exact hsame
    · exact h.skipped j hj hd
  · exact fun n hn => h.handles n fun j hj => hn j (List.mem_cons_of_mem i hj)
  · intro j hj hd
    rcases List.mem_cons.mp hj with rfl | hj
    · exact absurd hd hskip
    · exact h.outcome j hj hd

theorem SavedOne.same {w₁ : World} (h₁ : SavedOne i h rc w rc' w₁) {j : ℕ} (hj : j ≠ i)
    (hne : (w.curs j).cursor ≠ some h) : SameCursor j w w₁ := by
  refine ⟨h₁.others j hj, fun n hn => h₁.handles n ?_, h₁.only.env.writers, h₁.only.env.readers⟩
  rintro rfl
  exact hne hn

/-- The first cursor of the list is saved or lost. -/
theorem ListSaved.cons {w₁ : World} {rc₁ : Rc} (hdue : (w.curs i).Due) (hhandle : (w.curs i).cursor = some h)
    (hi : i ∉ l) (hapart : Apart w (i :: l)) (h₁ : SavedOne i h rc w rc₁ w₁) (h₂ : ListSaved l rc₁ w₁ rc' w') :
    ListSaved (i :: l) rc w rc' w' := by
  have hcur : ∀ j ∈ l, w₁.curs j = w.curs j := fun j hj => h₁.others j (by rintro rfl; exact hi hj)
  have hsame : ∀ j ∈ l, (w.curs j).Due → SameCursor j w w₁ := by
    intro j hj hd
    refine h₁.same (by rintro rfl; exact hi hj) fun heq => ?_
    have := hapart i List.mem_cons_self j (List.mem_cons_of_mem i hj) hdue hd (hhandle.trans heq.symm)
    exact hi (by rw [this]; exact hj)
  have hlast := h₂.others i hi
  refine ⟨Frame.trans h₁.only h₂.only, Frame.trans h₁.links h₂.links, fun hcalm => h₂.calm (h₁.calm hcalm),
    ?_, ?_, ?_, ?_, ?_, ?_⟩
  · intro j hj
    rw [List.mem_cons, not_or] at hj
    rw [h₂.others j hj.2, h₁.others j hj.1]
  · intro j hj hd
    rcases List.mem_cons.mp hj with rfl | hj
    · exact absurd hdue hd
    · rw [h₂.skipped j hj (by rw [hcur j hj]; exact hd), hcur j hj]
  · intro n hn
    rw [h₂.handles n, h₁.handles n]
    · rintro rfl
      exact hn i List.mem_cons_self hdue hhandle
    · intro j hj hd
      rw [hcur j hj] at hd ⊢
      exact hn j (List.mem_cons_of_mem i hj) hd
  · intro j hj hd
    rcases List.mem_cons.mp hj with rfl | hj
    · rcases h₁.outcome with ⟨-, hsaved⟩ | ⟨htrip, hne, hnone⟩
      · exact .inl (by rw [hlast]; exact hsaved)
      · exact .inr ⟨by rw [hlast]; exact htrip, h₂.failed hne, hnone⟩
    · have hs := hsame j hj hd
      rcases h₂.outcome j hj (by rw [hcur j hj]; exact hd) with ⟨key, hkey, hsaved⟩ | ⟨htrip, hne, hnone⟩
      · exact .inl ⟨key, hs.symm.holds hkey, by rw [hsaved, hcur j hj]⟩
      · exact .inr ⟨htrip, hne, fun hcalm key hkey => hnone (h₁.calm hcalm) key (hs.holds hkey)⟩
  · intro hne
    apply h₂.failed
    rcases h₁.outcome with ⟨rfl, -⟩ | ⟨-, hne', -⟩
    · exact hne
    · exact hne'
  · intro hcalm hall
    obtain ⟨key, hkey⟩ := hall i List.mem_cons_self hdue
    have hall' : AllHold w₁ l := by
      intro j hj hd
      rw [hcur j hj] at hd
      obtain ⟨key, hkey⟩ := hall j (List.mem_cons_of_mem i hj) hd
      exact ⟨key, (hsame j hj hd).holds hkey⟩
    rcases h₁.outcome with ⟨rfl, -⟩ | ⟨-, -, hnone⟩
    · exact h₂.done (h₁.calm hcalm) hall'
    · exact absurd hkey (hnone hcalm key)

theorem invalidateLoop_saves (hlive : (∀ h, E h) ∨ ∀ i ∈ l, (w.curs i).Due → Alive w i) (hapart : Apart w l)
    {fuel : ℕ} {o : Option ℕ} (hl : Follows w.links o l) (honce : l.Nodup) (hfuel : l.length ≤ fuel)
    (writeOnly : Bool) (rc : Rc) :
    Ensures E (invalidateLoop sqliteOk writeOnly fuel o rc) (ListSaved l rc w) w := by
  induction l generalizing w o fuel rc with
  | nil =>
    cases hl
    cases fuel <;> exact .nil rc w
  | cons i l ih =>
    cases hl with
    | cons hl =>
      obtain ⟨fuel, rfl⟩ : ∃ n, fuel = n + 1 := Nat.exists_eq_add_one.mpr (by simp at hfuel; omega)
      obtain ⟨hi, honce⟩ := List.nodup_cons.mp honce
      have hfuel : l.length ≤ fuel := by simp at hfuel; omega
      have hapart' : Apart w l := fun j hj k hk =>
        hapart j (List.mem_cons_of_mem i hj) k (List.mem_cons_of_mem i hk)
      have hlive' := hlive.imp_right fun hall j hj => hall j (List.mem_cons_of_mem i hj)
      rw [invalidateLoop, ensures_bind, ensures_getCur, ensures_bind]
      by_cases hdue : (w.curs i).Due
      · by_cases halive : Alive w i
        · obtain ⟨h, c, es, hc⟩ := halive
          apply (invalidateCursor_saves hdue hc writeOnly rc).imp
          intro rc₁ w₁ h₁
          have hcur : ∀ j ∈ l, w₁.curs j = w.curs j := fun j hj => h₁.others j (by rintro rfl; exact hi hj)
          have hlinks : Follows w₁.links (w.links i) l := hl.congr fun j _ => h₁.links.next j
          refine (ih ?_ ?_ hlinks honce hfuel rc₁).imp fun rc' w' h₂ => .cons hdue hc.handle hi hapart h₁ h₂
          · refine hlive'.imp_right fun hall j hj hd => ?_
            rw [hcur j hj] at hd
            refine (h₁.same (by rintro rfl; exact hi hj) fun heq => ?_).alive (hall j hj hd)
            have := hapart i List.mem_cons_self j (List.mem_cons_of_mem i hj) hdue hd (hc.handle.trans heq.symm)
            exact hi (by rw [this]; exact hj)
          · intro j hj k hk
            rw [hcur j hj, hcur k hk]
            exact hapart' j hj k hk
        · rcases hlive with hE | hall
          · exact invalidateCursor_dead hE hdue halive writeOnly rc _
          · exact absurd (hall i List.mem_cons_self hdue) halive
      · apply (invalidateCursor_skips hdue sqliteOk writeOnly rc).imp
        rintro _ _ ⟨rfl, rfl⟩
        exact (ih hlive' hapart' hl honce hfuel _).imp fun _ _ h => .skip hdue hi h

/-- Saving, for every cursor of the handle. -/
theorem invalidateCursors_saves (hlive : (∀ h, E h) ∨ ∀ i ∈ l, (w.curs i).Due → Alive w i) (hapart : Apart w l)
    (hl : Listed w l) (writeOnly : Bool) :
    Ensures E (invalidateCursors sqliteOk writeOnly) (ListSaved l 0 w) w := by
  rw [invalidateCursors, ensures_bind, ensures_getP, ensures_bind, ensures_read]
  exact invalidateLoop_saves hlive hapart hl.visits hl.once hl.length_le writeOnly 0

theorem BtCursor.saved_not_due {d : BtCursor} {key : Bytes} : ¬ (d.saved key).Due := fun h => Bool.false_ne_true h.2

/-- No cursor is due any more. -/
theorem ListSaved.settled (hs : ListSaved l rc w rc' w') (i : ℕ) (hi : i ∈ l) : ¬ (w'.curs i).Due := by
  by_cases hdue : (w.curs i).Due
  · rcases hs.outcome i hi hdue with ⟨key, -, hsaved⟩ | ⟨htrip, -, -⟩
    · rw [hsaved]
      exact BtCursor.saved_not_due
    · exact fun hd => htrip hd.1
  · rw [hs.skipped i hi hdue]
    exact hdue

/-- A cursor that was not tripped is not if saving succeeds. -/
theorem ListSaved.untripped (hs : ListSaved l rc w rc' w') (hok : rc' = 0) {i : ℕ}
    (htrip : (w.curs i).tripCode = sqliteOk) : (w'.curs i).tripCode = sqliteOk := by
  by_cases hi : i ∈ l
  · by_cases hdue : (w.curs i).Due
    · rcases hs.outcome i hi hdue with ⟨key, -, hsaved⟩ | ⟨-, hne, -⟩
      · rw [hsaved]
        exact htrip
      · exact absurd hok hne
    · rw [hs.skipped i hi hdue]
      exact htrip
  · rw [hs.others i hi]
    exact htrip

end Saving

end LumoSql.Btree
