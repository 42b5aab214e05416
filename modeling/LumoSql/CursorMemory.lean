import LumoSql.CursorLists
import LumoSql.ListInvalidation

/-! What the calls leave of the memory of cursors: the table a cursor is on, and the code of one that
has been tripped. -/
namespace LumoSql.Btree
open StateLogic Lmdb

/-- The cursors `kept` stay on their tables, and those of them that have been tripped stay so. -/
structure Remembers (kept : ℕ → Prop) (w w' : World) : Prop where
  root : ∀ j, kept j → (w'.curs j).rootPage = (w.curs j).rootPage
  tripped : ∀ j, kept j → (w.curs j).tripCode ≠ sqliteOk → (w'.curs j).tripCode = (w.curs j).tripCode

/-- The table and the transaction that a cursor was opened with. -/
structure SameOpening (c d : BtCursor) : Prop where
  dbi : d.dbi = c.dbi
  txn : d.txn = c.txn
  root : d.rootPage = c.rootPage

theorem SameOpening.refl (c : BtCursor) : SameOpening c c := ⟨rfl, rfl, rfl⟩

theorem SameOpening.trans {c d e : BtCursor} (h : SameOpening c d) (h' : SameOpening d e) : SameOpening c e :=
  ⟨h'.dbi.trans h.dbi, h'.txn.trans h.txn, h'.root.trans h.root⟩

section Parts

variable {kept : ℕ → Prop}

instance : Frame (Remembers kept) where
  refl _ := ⟨fun _ _ => rfl, fun _ _ _ => rfl⟩
  trans h h' := by
    refine ⟨fun j hj => (h'.root j hj).trans (h.root j hj), fun j hj htrip => ?_⟩
    have hsame := h.tripped j hj htrip
    exact (h'.tripped j hj (by rw [hsame]; exact htrip)).trans hsame

theorem remembers_lmdb {α : Type} (m : Mdb α) : Keeps (Remembers kept) (lmdb m) := by
  intro w
  rw [ensures_lmdb, ensures_iff]
  exact ⟨fun _ _ _ => ⟨fun _ _ => rfl, fun _ _ _ => rfl⟩, fun _ _ => trivial⟩

theorem remembers_setP (f : Btree → Btree) : Keeps (Remembers kept) (setP f) :=
  .modify fun _ => ⟨fun _ _ => rfl, fun _ _ _ => rfl⟩

theorem remembers_setCur (i : ℕ) {f : BtCursor → BtCursor}
    (hf : kept i → ∀ c, (f c).rootPage = c.rootPage ∧ (f c).tripCode = c.tripCode) :
    Keeps (Remembers kept) (setCur i f) := by
  apply Keeps.modify
  intro w
  have hcur : ∀ j, kept j → (Function.update w.curs i (f (w.curs i)) j).rootPage = (w.curs j).rootPage ∧
      (Function.update w.curs i (f (w.curs i)) j).tripCode = (w.curs j).tripCode := by
    intro j hj
    by_cases hji : j = i
    · subst hji
      simpa using hf hj (w.curs j)
    · simp [hji]
  exact ⟨fun j hj => (hcur j hj).1, fun j hj _ => (hcur j hj).2⟩

theorem Moved.memory {c d : BtCursor} (h : Moved c d) : d.rootPage = c.rootPage ∧ d.tripCode = c.tripCode := by
  rw [h.same]
  exact ⟨rfl, rfl⟩

theorem MovePart.remembers {α : Type} {m : Call α} (h : MovePart True α m) : Keeps (Remembers kept) m := by
  cases h with
  | lmdb h => exact remembers_lmdb _
  | setCur i f hf => exact remembers_setCur i fun _ c => (hf c).memory
  | openInto i t iTable f hf =>
    refine Keeps.bind (remembers_lmdb _) fun r => .ite (.pure _) ?_
    exact Keeps.bind (remembers_setCur i fun _ c => (hf c).memory) fun _ => .pure _

theorem others_lmdb {α : Type} (i : ℕ) (m : Mdb α) : Keeps (OthersKept i) (lmdb m) := by
  intro w
  rw [ensures_lmdb, ensures_iff]
  exact ⟨fun _ _ _ => ⟨rfl, fun _ _ => rfl⟩, fun _ _ => trivial⟩

theorem InvalidationPart.others {i : ℕ} {α : Type} {m : Call α} (h : InvalidationPart i α m) :
    Keeps (OthersKept i) m := by
  cases h with
  | lmdb h => exact others_lmdb i _
  | setCur f hf => exact .modify fun w => ⟨rfl, fun j hj => Function.update_of_ne hj _ _⟩

/-- What a cursor was opened with is left to it, whether it is invalidated or not. -/
def OpeningKept (i : ℕ) (w w' : World) : Prop := SameOpening (w.curs i) (w'.curs i)

instance (i : ℕ) : Frame (OpeningKept i) where
  refl _ := .refl _
  trans h h' := SameOpening.trans h h'

theorem InvalidationPart.opening {i : ℕ} {α : Type} {m : Call α} (h : InvalidationPart i α m) :
    Keeps (OpeningKept i) m := by
  cases h with
  | lmdb h =>
    intro w
    rw [ensures_lmdb, ensures_iff]
    exact ⟨fun _ _ _ => .refl _, fun _ _ => trivial⟩
  | setCur f hf =>
    apply Keeps.modify
    intro w
    have hsame : SameOpening (w.curs i) (f (w.curs i)) := by
      rw [(hf (w.curs i)).1]
      exact ⟨rfl, rfl, rfl⟩
    simpa [OpeningKept] using hsame

/-- A cursor that has been tripped is skipped. -/
theorem remembers_invalidateCursor (tripCode : Rc) (writeOnly : Bool) (i : ℕ) (rc : Rc) :
    Keeps (Remembers kept) (invalidateCursor tripCode writeOnly i rc) := by
  intro w
  by_cases htrip : (w.curs i).tripCode = sqliteOk
  · have hbuilt := built_invalidateCursor tripCode writeOnly i rc
    refine ((hbuilt.keeps InvalidationPart.others w).and (hbuilt.keeps InvalidationPart.opening w)).imp fun _ w' h => ?_
    obtain ⟨hothers, hopening⟩ := h
    refine ⟨fun j _ => ?_, fun j _ hj => ?_⟩
    · by_cases hji : j = i
      · rw [hji]
        exact hopening.root
      · rw [hothers.curs j hji]
    · have hji : j ≠ i := by
        rintro rfl
        exact hj htrip
      rw [hothers.curs j hji]
  · apply (invalidateCursor_skips (fun hdue => htrip hdue.1) tripCode writeOnly rc).imp
    rintro _ _ ⟨-, rfl⟩
    exact Frame.refl _

theorem TxnPart.remembers {reads : Prop} {α : Type} {m : Call α} (h : TxnPart reads α m) : Keeps (Remembers kept) m := by
  cases h with
  | lmdb h => exact remembers_lmdb _
  | setP f hf => exact remembers_setP f
  | invalidateCursor tripCode writeOnly i rc => exact remembers_invalidateCursor tripCode writeOnly i rc

theorem ClosePart.remembers {α : Type} {m : Call α} (h : ClosePart α m) : Keeps (Remembers kept) m := by
  cases h with
  | txn h => exact h.remembers
  | closeEnv => exact remembers_lmdb _

end Parts

section Calls

variable {kept : ℕ → Prop}

theorem remembers_linkCursor (i : ℕ) : Keeps (Remembers kept) (linkCursor i) := by
  refine Keeps.bind (.read _) fun p => Keeps.bind (remembers_setCur i fun _ _ => ⟨rfl, rfl⟩) fun _ => ?_
  cases p.lastCursor with
  | none => exact Keeps.bind (remembers_setP _) fun _ => remembers_setP _
  | some j => exact Keeps.bind (remembers_setCur j fun _ _ => ⟨rfl, rfl⟩) fun _ => remembers_setP _

theorem remembers_unlinkNext (next prev : Option ℕ) : Keeps (Remembers kept) (match next with
    | some j => setCur j fun d => { d with prev := prev }
    | none => setP fun p => { p with lastCursor := prev }) := by
  cases next with
  | none => exact remembers_setP _
  | some j => exact remembers_setCur j fun _ _ => ⟨rfl, rfl⟩

theorem remembers_unlinkCursor (i : ℕ) : Keeps (Remembers kept) (unlinkCursor i) := by
  refine Keeps.bind (.read _) fun c => ?_
  cases c.prev with
  | none => exact Keeps.bind (remembers_setP _) fun _ => remembers_unlinkNext c.next none
  | some j => exact Keeps.bind (remembers_setCur j fun _ _ => ⟨rfl, rfl⟩) fun _ => remembers_unlinkNext c.next (some j)

theorem remembers_closeCursor (i : ℕ) : Keeps (Remembers kept) (sqlite3BtreeCloseCursor i) := by
  have hclose : ∀ c : BtCursor, Keeps (Remembers kept) (do
      setCur i fun c => { c with savedKey := none }
      if c.pBtree then do
        unlinkCursor i
        setCur i fun c => { c with pBtree := false }
        let p ← getP
        if p.single then do
          let _ ← sqlite3BtreeClose
          pure sqliteOk
        else pure sqliteOk
      else pure sqliteOk) := by
    intro c
    refine Keeps.bind (remembers_setCur i fun _ _ => ⟨rfl, rfl⟩) fun _ => .ite ?_ (.pure _)
    refine Keeps.bind (remembers_unlinkCursor i) fun _ => ?_
    refine Keeps.bind (remembers_setCur i fun _ _ => ⟨rfl, rfl⟩) fun _ => Keeps.bind (.read _) fun p => .ite ?_ (.pure _)
    exact Keeps.bind (built_close.keeps ClosePart.remembers) fun _ => .pure _
  refine Keeps.bind (.read _) fun c => .ite ?_ (hclose c)
  refine Keeps.bind (remembers_lmdb _) fun _ => ?_
  exact Keeps.bind (remembers_setCur i fun _ _ => ⟨rfl, rfl⟩) fun _ => hclose c

/-- Opening a cursor leaves the others. -/
theorem remembers_cursor {i : ℕ} (hi : ¬ kept i) (iTable : ℕ) (wrFlag : Bool) (keyInfo : Option KeyInfo) :
    Keeps (Remembers kept) (sqlite3BtreeCursor iTable wrFlag keyInfo i) := by
  have hset : ∀ f, Keeps (Remembers kept) (setCur i f) := fun f => remembers_setCur i fun h => absurd h hi
  have hlink : Keeps (Remembers kept) (do
      linkCursor i
      setCur i fun c => { c with wrFlag := wrFlag }
      pure sqliteOk) :=
    Keeps.bind (remembers_linkCursor i) fun _ => Keeps.bind (hset _) fun _ => .pure _
  refine Keeps.bind (.read _) fun c => .ite (.pure _) ?_
  refine Keeps.bind keeps_topTxn fun txn => Keeps.bind (hset _) fun _ => ?_
  refine Keeps.bind ((built_getTable (fun h => .lmdb (.table h)) _ (absurd · Bool.false_ne_true)).keeps MovePart.remembers) fun rc => .ite (.pure _) ?_
  refine Keeps.bind (hset _) fun _ => Keeps.bind (remembers_lmdb _) fun r => .ite (.pure _) ?_
  refine Keeps.bind (hset _) fun _ => Keeps.bind (remembers_lmdb _) fun g => ?_
  exact .ite (Keeps.bind (hset _) fun _ => hlink) hlink

/-- The memory that the call does not set up. -/
def CursorCall.Spares (call : CursorCall) (j : ℕ) : Prop :=
  match call with
  | zero i => j ≠ i
  | cursor i _ _ _ => j ≠ i
  | close _ => True

theorem CursorCall.remembers (call : CursorCall) : Keeps (Remembers call.Spares) call.run := by
  cases call with
  | zero i =>
    refine Keeps.bind (.modify fun w => ⟨fun j hj => ?_, fun j hj _ => ?_⟩) fun _ => .pure _
    · have hj : j ≠ i := hj
      simp [hj]
    · have hj : j ≠ i := hj
      simp [hj]
  | cursor i iTable wrFlag keyInfo => exact remembers_cursor (fun h => h rfl) iTable wrFlag keyInfo
  | close i => exact remembers_closeCursor i

/-- Cursors that are open are not set up again. -/
theorem Ledger.Allows.spares {w : World} {l : Ledger} {call : CursorCall} (hallows : l.Allows call)
    (hw : ListInvariant w l) {j : ℕ} (hj : j ∈ l.opened) : call.Spares j := by
  have husage := (hw.listed j).mp hj
  cases call with
  | zero i =>
    rintro rfl
    rcases hallows with h | h
    · exact absurd (h.symm.trans husage) (by decide)
    · exact absurd (h.symm.trans husage) (by decide)
  | cursor i iTable wrFlag keyInfo =>
    rintro rfl
    have h : l.usage j = .zeroed := hallows
    exact absurd (h.symm.trans husage) (by decide)
  | close i => trivial

/-- A cursor that has been opened is on a table. -/
theorem cursor_rooted (i iTable : ℕ) (wrFlag : Bool) (keyInfo : Option KeyInfo) (w : World) :
    Ensures (fun _ => True) (sqlite3BtreeCursor iTable wrFlag keyInfo i)
      (fun rc w' => rc = sqliteOk → 0 < (w'.curs i).rootPage) w := by
  have hset : ∀ f : BtCursor → BtCursor, (∀ c, (f c).rootPage = c.rootPage ∧ (f c).tripCode = c.tripCode) →
      Keeps (Remembers fun _ => True) (setCur i f) := fun f hf => remembers_setCur i fun _ => hf
  have hlink : Keeps (Remembers fun _ => True) (do
      linkCursor i
      setCur i fun c => { c with wrFlag := wrFlag }
      pure sqliteOk) :=
    Keeps.bind (remembers_linkCursor i) fun _ => Keeps.bind (hset _ fun _ => ⟨rfl, rfl⟩) fun _ => .pure _
  rw [sqlite3BtreeCursor, ensures_bind, ensures_getCur]
  refine .ite (fun _ h => absurd h (by decide)) fun _ => ?_
  rw [ensures_bind]
  refine (keeps_topTxn (R := Remembers fun _ => True) w).imp fun txn w₁ _ => ?_
  rw [ensures_bind, ensures_setCur]
  by_cases hpage : iTable < 1
  · rw [ensures_bind, getTable, ensures_bind, ensures_getP, if_pos hpage, ensures_pure, if_pos (by decide)]
    exact fun h => absurd h (by decide)
  · suffices hkeeps : Keeps (Remembers fun _ => True) _ by
      refine (hkeeps _).imp fun rc w' h _ => ?_
      rw [h.root i trivial]
      simp only [Function.update_self]
      exact Nat.pos_of_ne_zero fun hzero => hpage (hzero ▸ Nat.one_pos)
    refine Keeps.bind ((built_getTable (fun h => .lmdb (.table h)) _ (absurd · Bool.false_ne_true)).keeps MovePart.remembers) fun rc => .ite (.pure _) ?_
    refine Keeps.bind (hset _ fun _ => ⟨rfl, rfl⟩) fun _ => Keeps.bind (remembers_lmdb _) fun r => .ite (.pure _) ?_
    refine Keeps.bind (hset _ fun _ => ⟨rfl, rfl⟩) fun _ => Keeps.bind (remembers_lmdb _) fun g => ?_
    exact .ite (Keeps.bind (hset _ fun _ => ⟨rfl, rfl⟩) fun _ => hlink) hlink

end Calls

end LumoSql.Btree
