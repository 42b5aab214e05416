import LumoSql.CallParts

/-! The LMDB cursors of a handle: every cursor has its own, whichever calls are made and whichever
calls of LMDB fail. -/
namespace LumoSql.Btree
open StateLogic Lmdb

/-- What has a number has been given it, and no two cursors have the same LMDB cursor. -/
structure Handles (w : World) : Prop where
  issued : w.env.Issued
  disjoint : w.env.Disjoint
  below : ∀ i h, (w.curs i).cursor = some h → h < w.env.next
  apart : ∀ i j h, (w.curs i).cursor = some h → (w.curs j).cursor = some h → i = j

/-- The handles are kept apart, and the memory for cursors does not shrink. -/
structure HandlesKept (w w' : World) : Prop where
  handles : Handles w → Handles w'
  count : w.nCurs ≤ w'.nCurs

instance : Frame HandlesKept where
  refl _ := ⟨id, Nat.le_refl _⟩
  trans h h' := ⟨fun hw => h'.handles (h.handles hw), h.count.trans h'.count⟩

section Parts

variable {w : World} {i : ℕ}

theorem Handles.env (hw : Handles w) {closes : ℕ → Prop} {reads : Prop} {e : Env} (h : w.env.Step closes reads e) : Handles { w with env := e } := by
  obtain ⟨hissued, hnext⟩ := h.issued hw.issued
  exact ⟨hissued, h.disjoint hw.issued hw.disjoint, fun i h hi => (hw.below i h hi).trans_le hnext, hw.apart⟩

/-- A cursor that is set keeps its LMDB cursor, or has none. -/
theorem Handles.setCur (hw : Handles w) {d : BtCursor} (hd : d.cursor = (w.curs i).cursor ∨ d.cursor = none) :
    Handles { w with curs := Function.update w.curs i d } := by
  have hsub : ∀ j h, (Function.update w.curs i d j).cursor = some h → (w.curs j).cursor = some h := by
    intro j h hj
    by_cases hji : j = i
    · rw [hji, Function.update_self] at hj
      rw [hji]
      rcases hd with hd | hd
      · rwa [hd] at hj
      · rw [hd] at hj
        cases hj
    · rwa [Function.update_of_ne hji] at hj
  exact ⟨hw.issued, hw.disjoint, fun j h hj => hw.below j h (hsub j h hj),
    fun j k h hj hk => hw.apart j k h (hsub j h hj) (hsub k h hk)⟩

/-- A cursor gets an LMDB cursor that none has. -/
theorem Handles.setNew (hw : Handles w) {h : ℕ} (hlt : h < w.env.next) (hnew : ∀ j, (w.curs j).cursor ≠ some h)
    {d : BtCursor} (hd : d.cursor = some h) : Handles { w with curs := Function.update w.curs i d } := by
  have hcases : ∀ j h', (Function.update w.curs i d j).cursor = some h' →
      j = i ∧ h' = h ∨ j ≠ i ∧ (w.curs j).cursor = some h' := by
    intro j h' hj
    by_cases hji : j = i
    · rw [hji, Function.update_self, hd] at hj
      exact .inl ⟨hji, (Option.some.inj hj).symm⟩
    · rw [Function.update_of_ne hji] at hj
      exact .inr ⟨hji, hj⟩
  refine ⟨hw.issued, hw.disjoint, fun j h' hj => ?_, fun j k h' hj hk => ?_⟩
  · rcases hcases j h' hj with ⟨-, rfl⟩ | ⟨-, hj⟩
    · exact hlt
    · exact hw.below j h' hj
  · rcases hcases j h' hj with ⟨hji, hh⟩ | ⟨-, hj'⟩ <;> rcases hcases k h' hk with ⟨hki, hh'⟩ | ⟨-, hk'⟩
    · rw [hji, hki]
    · rw [hh] at hk'
      exact absurd hk' (hnew k)
    · rw [hh'] at hj'
      exact absurd hj' (hnew j)
    · exact hw.apart j k h' hj' hk'

theorem handles_lmdb {closes : ℕ → Prop} {reads : Prop} {α : Type} {m : Mdb α} (h : Steps closes reads m) : Keeps HandlesKept (lmdb m) := by
  intro w
  rw [ensures_lmdb]
  exact (h w.env).imp fun _ _ hstep => ⟨fun hw => hw.env hstep, Nat.le_refl _⟩

theorem handles_setCur (i : ℕ) {f : BtCursor → BtCursor}
    (hf : ∀ c, (f c).cursor = c.cursor ∨ (f c).cursor = none) : Keeps HandlesKept (setCur i f) :=
  .modify fun w => ⟨fun hw => hw.setCur (hf (w.curs i)), Nat.le_refl _⟩

theorem handles_setP (f : Btree → Btree) : Keeps HandlesKept (setP f) :=
  .modify fun _ => ⟨fun hw => ⟨hw.issued, hw.disjoint, hw.below, hw.apart⟩, Nat.le_refl _⟩

/-- A new LMDB cursor has the number that was the next one. -/
structure NewCursor (t iTable : ℕ) (e : Env) (h : ℕ) (e' : Env) : Prop where
  number : h = e.next
  next : e'.next = e.next + 1
  live : e'.Live t
  pinned : e.Issued → e'.Pinned h t (.table iTable)

theorem mdbCursorOpen_number (t iTable : ℕ) (e : Env) : Ensures (fun _ => True) (mdbCursorOpen t (.table iTable))
    (fun r e' => e.Step (fun _ => False) False e' ∧ (r.1 = 0 → NewCursor t iTable e r.2 e')) e := by
  refine (steps_cursorOpen t iTable e).and ?_
  rw [mdbCursorOpen, ensures_bind, ensures_read, id_eq]
  cases hkind : e.kind t with
  | none => trivial
  | some k =>
    dsimp only
    cases e.view t with
    | none => exact fun h => absurd h (by decide)
    | some c =>
      dsimp only
      rw [ensures_bind, ensures_answer]
      refine .ite (fun hrc h => absurd h hrc) fun _ => .ite (fun _ h => absurd h (by decide)) fun _ => ?_
      refine fun _ => ⟨rfl, rfl, ?_, fun hissued => ⟨?_, ?_, ?_⟩⟩
      · exact (congrArg (· ≠ none) (hkind : e.kind t = some k)).mpr (Option.some_ne_none k)
      · simp
      · rintro h' d hd rfl
        simp at hd
        rw [← hd]
        exact ⟨rfl, rfl⟩
      · rintro u hu h' d hd rfl
        exact absurd (hissued.cursors.shadows u hu _ d hd).1 (lt_irrefl _)

theorem handles_openInto (i t iTable : ℕ) (f : BtCursor → BtCursor) : Keeps HandlesKept (openInto i t iTable f) := by
  intro w
  rw [openInto, ensures_bind, ensures_lmdb]
  refine (mdbCursorOpen_number t iTable w.env).imp fun r e h => ?_
  obtain ⟨hstep, hnumber⟩ := h
  refine .ite (fun _ => ⟨fun hw => hw.env hstep, Nat.le_refl _⟩) fun hrc => ?_
  obtain ⟨hnew, hnext, -, -⟩ := hnumber (not_not.mp hrc)
  rw [ensures_bind, ensures_setCur, ensures_pure]
  refine ⟨fun hw => ?_, Nat.le_refl _⟩
  refine (hw.env hstep).setNew (h := r.2) ?_ (fun j hj => ?_) rfl
  · rw [hnew]
    exact hnext ▸ Nat.lt_succ_self _
  · have := hw.below j r.2 hj
    omega

theorem MovePart.handles {α : Type} {m : Call α} (h : MovePart True α m) : Keeps HandlesKept m := by
  cases h with
  | lmdb h => exact handles_lmdb h.steps
  | setCur i f hf => exact handles_setCur i fun c => (hf c).cursor
  | openInto i t iTable f hf => exact handles_openInto i t iTable f

theorem DataPart.handles {α : Type} {m : Call α} (h : DataPart True α m) : Keeps HandlesKept m := by
  cases h with
  | move h => exact h.handles
  | setCur i f hf => exact handles_setCur i fun c => (hf c).2
  | setList f hf => exact handles_setP f
  | newCursor =>
    intro w
    refine ⟨fun hw => ?_, Nat.le_succ _⟩
    have hset := hw.setCur (i := w.nCurs) (d := .zero) (.inr rfl)
    exact ⟨hset.issued, hset.disjoint, hset.below, hset.apart⟩

theorem InvalidationPart.handles {i : ℕ} {α : Type} {m : Call α} (h : InvalidationPart i α m) : Keeps HandlesKept m := by
  cases h with
  | lmdb h => exact handles_lmdb h.steps
  | setCur f hf => exact handles_setCur i fun c => (hf c).2

theorem TxnPart.handles {reads : Prop} {α : Type} {m : Call α} (h : TxnPart reads α m) : Keeps HandlesKept m := by
  cases h with
  | lmdb h => exact handles_lmdb (h.steps : Steps (fun _ => False) reads _)
  | setP f hf => exact handles_setP f
  | invalidateCursor tripCode writeOnly i rc =>
    exact (built_invalidateCursor tripCode writeOnly i rc).keeps InvalidationPart.handles

theorem ClosePart.handles {α : Type} {m : Call α} (h : ClosePart α m) : Keeps HandlesKept m := by
  cases h with
  | txn h => exact h.handles
  | closeEnv => exact handles_lmdb fun _ => (Env.Change.close fun _ => trivial : Env.Change (fun _ => True) False _ _).step

theorem Part.handles {α : Type} {m : Call α} (h : Part True α m) : Keeps HandlesKept m := by
  cases h with
  | data h => exact h.handles
  | close h => exact h.handles

/-- Whatever call is made, the handles stay apart. -/
theorem handles_built {α : Type} {m : Call α} (h : Built (Part True) m) : Keeps HandlesKept m := h.keeps Part.handles

end Parts

end LumoSql.Btree
