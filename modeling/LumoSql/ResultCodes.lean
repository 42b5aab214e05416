import Mathlib.Data.Int.ModEq
import Mathlib.Tactic.Common

/-! Conversions between C's integer types, and result codes of SQLite and of LMDB with the
system errors it passes on. Both are plain integers in the source, and some functions mix
the two. -/
namespace LumoSql

/-- An unsigned value as `int` or `i64`, and a signed one as `u64`. -/
def toInt (n : ℕ) : ℤ := Int.bmod n (2 ^ 32)
def toI64 (n : ℕ) : ℤ := Int.bmod n (2 ^ 64)
def toU64 (i : ℤ) : ℕ := (i % 2 ^ 64).toNat

theorem toU64_natCast {n : ℕ} (h : n < 2 ^ 64) : toU64 n = n := by
  rw [toU64]
  omega

theorem toU64_lt (i : ℤ) : toU64 i < 2 ^ 64 := by
  rw [toU64]
  omega

theorem toInt_natCast {n : ℕ} (h : n < 2 ^ 31) : toInt n = n := by
  unfold toInt
  rw [Int.bmod_def]
  push_cast
  split_ifs <;> omega

/-- An `u32` comes back from an `int`. -/
theorem toNat_toInt {n : ℕ} (h : n < 2 ^ 32) : (toInt n % 2 ^ 32).toNat = n := by
  unfold toInt
  rw [Int.bmod_def]
  push_cast
  split_ifs <;> omega

theorem toI64_natCast {n : ℕ} (h : n < 2 ^ 63) : toI64 n = n := by
  unfold toI64
  rw [Int.bmod_def]
  push_cast
  split_ifs <;> omega

theorem toI64_nonneg_iff {n : ℕ} (h : n < 2 ^ 64) : 0 ≤ toI64 n ↔ n < 2 ^ 63 := by
  unfold toI64
  rw [Int.bmod_def]
  push_cast
  split_ifs <;> omega

/-- Signed values survive the way through `u64`. -/
theorem toI64_toU64 {i : ℤ} (hlo : -2 ^ 63 ≤ i) (hhi : i < 2 ^ 63) : toI64 (toU64 i) = i := by
  unfold toI64 toU64
  rw [Int.bmod_def]
  push_cast
  split_ifs <;> omega

/-- A C `int` used as a result code; `0` is success on both sides. -/
abbrev Rc := ℤ

def sqliteOk : Rc := 0
def sqliteError : Rc := 1
def sqliteInternal : Rc := 2
def sqlitePerm : Rc := 3
def sqliteAbort : Rc := 4
def sqliteBusy : Rc := 5
def sqliteNomem : Rc := 7
def sqliteReadonly : Rc := 8
def sqliteIoerr : Rc := 10
def sqliteCorrupt : Rc := 11
def sqliteNotfound : Rc := 12
def sqliteFull : Rc := 13
def sqliteCantopen : Rc := 14
def sqliteSchema : Rc := 17
def sqliteToobig : Rc := 18
def sqliteMisuse : Rc := 21
def sqliteNotadb : Rc := 26
def sqliteDone : Rc := 101

def eperm : Rc := 1
def enoent : Rc := 2
def eio : Rc := 5
def enomem : Rc := 12
def eacces : Rc := 13
def einval : Rc := 22
def enospc : Rc := 28

def mdbSuccess : Rc := 0
def mdbNotfound : Rc := -30798
def mdbPageNotfound : Rc := -30797
def mdbCorrupted : Rc := -30796
def mdbPanic : Rc := -30795
def mdbVersionMismatch : Rc := -30794
def mdbInvalid : Rc := -30793
def mdbMapFull : Rc := -30792
def mdbIncompatible : Rc := -30784
def mdbBadRslot : Rc := -30783
def mdbBadTxn : Rc := -30782
def mdbBadValsize : Rc := -30781

/-- The cases of the switch in `error_map`. -/
def errorCases : List (Rc × Rc) := [
  (0, sqliteOk), (eacces, sqliteReadonly), (eio, sqliteIoerr), (mdbPanic, sqliteIoerr),
  (eperm, sqlitePerm), (enomem, sqliteNomem), (enoent, sqliteCantopen), (enospc, sqliteFull),
  (mdbMapFull, sqliteFull), (mdbNotfound, sqliteNotfound), (mdbVersionMismatch, sqliteNotadb),
  (mdbInvalid, sqliteNotadb), (mdbPageNotfound, sqliteCorrupt), (mdbCorrupted, sqliteCorrupt),
  (mdbIncompatible, sqliteSchema), (mdbBadRslot, sqliteMisuse), (mdbBadTxn, sqliteAbort),
  (mdbBadValsize, sqliteToobig)]

/-- Map of LMDB and system errors to SQLite errors. -/
def errorMap (rc : Rc) : Rc := (errorCases.lookup rc).getD sqliteInternal

@[simp] theorem errorMap_zero : errorMap 0 = sqliteOk := rfl

private theorem mem_pair_of_lookup {α β : Type*} [BEq α] [LawfulBEq α] {l : List (α × β)} {a : α} {b : β}
    (h : l.lookup a = some b) : (a, b) ∈ l := by
  induction l with
  | nil => simp at h
  | cons p l ih =>
    obtain ⟨x, y⟩ := p
    rw [List.lookup_cons] at h
    split at h
    · rename_i hx
      obtain rfl := Option.some.inj h
      obtain rfl := eq_of_beq hx
      exact List.mem_cons_self
    · exact List.mem_cons_of_mem _ (ih h)

theorem errorMap_cases (rc : Rc) : (rc, errorMap rc) ∈ errorCases ∨ errorMap rc = sqliteInternal := by
  cases h : errorCases.lookup rc with
  | none => exact .inr (by simp [errorMap, h])
  | some e =>
    have hm := mem_pair_of_lookup h
    exact .inl (by simpa [errorMap, h] using hm)

/-- No error is mapped to success. -/
theorem errorMap_eq_ok (rc : Rc) : errorMap rc = sqliteOk ↔ rc = 0 := by
  have htable : ∀ p ∈ errorCases, p.2 = sqliteOk → p.1 = 0 := by decide
  constructor
  · intro h
    rcases errorMap_cases rc with hm | hm
    · exact htable _ hm h
    · exact absurd (h.symm.trans hm) (by decide)
  · rintro rfl
    rfl

/-- The failure of an LMDB call never looks like a busy database. -/
theorem errorMap_ne_busy (rc : Rc) : errorMap rc ≠ sqliteBusy := by
  have htable : ∀ p ∈ errorCases, p.2 ≠ sqliteBusy := by decide
  rcases errorMap_cases rc with hm | hm
  · exact htable _ hm
  · exact fun h => absurd (h.symm.trans hm) (by decide)

end LumoSql
