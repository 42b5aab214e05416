import Mathlib.Data.List.Basic

/-! Memory blocks written through an advancing pointer. A write outside the block has no
result; a cell nothing has written is told apart from one that holds its initial value. -/
namespace LumoSql.WriteBlocks

variable {α : Type*}

/-- An allocated block; `none` marks a cell that has not been written. -/
structure Block (α : Type*) where
  cells : List (Option α)
  deriving DecidableEq

/-- A block and the position of the next write. -/
structure Writer (α : Type*) where
  block : Block α
  pos : ℕ
  deriving DecidableEq

def Block.alloc (n : ℕ) : Block α := ⟨List.replicate n none⟩

def Block.size (b : Block α) : ℕ := b.cells.length

/-- What the block holds when every cell started as `z`. -/
def Block.contents (z : α) (b : Block α) : List α := b.cells.map (·.getD z)

/-- Overwrite `xs.length` cells from `off` on. -/
def Block.write (b : Block α) (off : ℕ) (xs : List α) : Option (Block α) :=
  if off + xs.length ≤ b.cells.length then
    some ⟨b.cells.take off ++ xs.map some ++ b.cells.drop (off + xs.length)⟩
  else none

/-- Write at the pointer and advance it past what was written. -/
def Writer.emit (w : Writer α) (xs : List α) : Option (Writer α) :=
  (w.block.write w.pos xs).map fun b => ⟨b, w.pos + xs.length⟩

/-- A write made only under a condition. -/
def Writer.emitIf (w : Writer α) (c : Prop) [Decidable c] (xs : List α) : Option (Writer α) :=
  if c then w.emit xs else some w

/-- The cells `start, …, stop - 1` of an object, if they all exist. -/
def readRange (m : List α) (start stop : ℕ) : Option (List α) :=
  if start ≤ stop ∧ stop ≤ m.length then some ((m.take stop).drop start) else none

/-- The last `n` cells of an object, if it has that many. -/
def readLast (m : List α) (n : ℕ) : Option (List α) :=
  if n ≤ m.length then some (m.drop (m.length - n)) else none

/-- The first cells written with `xs`, `n` cells untouched, the pointer between them. -/
def filled (xs : List α) (n : ℕ) : Writer α := ⟨⟨xs.map some ++ List.replicate n none⟩, xs.length⟩

theorem Writer.emit_pos {w w' : Writer α} {xs : List α} (h : w.emit xs = some w') :
    w'.pos = w.pos + xs.length := by
  obtain ⟨b, _, rfl⟩ := Option.map_eq_some_iff.mp h
  rfl

theorem alloc_filled (n : ℕ) : (⟨Block.alloc n, 0⟩ : Writer α) = filled [] n := rfl

@[simp] theorem filled_pos (xs : List α) (n : ℕ) : (filled xs n).pos = xs.length := rfl

theorem filled_size (xs : List α) (n : ℕ) : (filled xs n).block.size = xs.length + n := by
  simp [filled, Block.size]

theorem filled_write (xs ys : List α) (n : ℕ) (h : ys.length ≤ n) :
    (filled xs n).block.write xs.length ys = some (filled (xs ++ ys) (n - ys.length)).block := by
  rw [Block.write, if_pos (by simpa [filled] using h)]
  simp only [filled]
  rw [List.take_left' (by simp), ← List.drop_drop, List.drop_left' (by simp), List.drop_replicate,
    List.map_append]

theorem filled_emit (xs ys : List α) (n : ℕ) (h : ys.length ≤ n) :
    (filled xs n).emit ys = some (filled (xs ++ ys) (n - ys.length)) := by
  have hw := filled_write xs ys n h
  simp only [Writer.emit, filled_pos, hw, Option.map_some, Option.some.injEq]
  simp [filled]

/-- A write that is skipped when there is nothing to write. -/
theorem filled_emitIf {c : Prop} [Decidable c] (xs ys : List α) (n : ℕ) (hc : ¬c → ys = [])
    (h : ys.length ≤ n) : (filled xs n).emitIf c ys = some (filled (xs ++ ys) (n - ys.length)) := by
  by_cases hp : c
  · rw [Writer.emitIf, if_pos hp, filled_emit xs ys n h]
  · rw [Writer.emitIf, if_neg hp]
    simp [hc hp]

/-- The untouched cells read as their initial value. -/
theorem filled_contents (z : α) (xs : List α) (n : ℕ) :
    (filled xs n).block.contents z = xs ++ List.replicate n z := by
  simp [filled, Block.contents, Function.comp_def]

theorem filled_full (xs : List α) : (filled xs 0).block.cells = xs.map some := by
  simp [filled]

end LumoSql.WriteBlocks
