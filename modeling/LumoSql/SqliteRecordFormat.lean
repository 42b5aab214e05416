import Mathlib.Data.List.Basic
import Mathlib.Tactic.IntervalCases
import Mathlib.Tactic.Linarith
import Mathlib.Tactic.Ring

/-! The parts of SQLite's record format that the Lumo extension calls and that
this repository does not contain: variable-length integers and serial types.
They enter as a parameter; its laws are the documented file format. -/
namespace LumoSql

/-- A run of bytes of memory, as behind an `MDB_val` or an `unsigned char *`. -/
abbrev Bytes := List UInt8

namespace SqliteRecordFormat

/-- Length of a column body by serial type, the table of the file format. -/
def serialTypeSize (t : ℕ) : ℕ :=
  if 12 ≤ t then (t - 12) / 2
  else match t with
    | 1 => 1 | 2 => 2 | 3 => 3 | 4 => 4 | 5 => 6 | 6 => 8 | 7 => 8 | _ => 0

/-- Number of bytes of the minimal varint of a 32 bit value. -/
def varintSize (v : ℕ) : ℕ :=
  if v < 2 ^ 7 then 1 else if v < 2 ^ 14 then 2 else if v < 2 ^ 21 then 3
  else if v < 2 ^ 28 then 4 else 5

end SqliteRecordFormat

open SqliteRecordFormat in
/-- SQLite's varint and serial type functions. `getVarint32` reads from the head of the
accessible bytes and yields the value and the number of bytes read, `none` when it runs
off their end. -/
structure SqliteFormat where
  sqlite3VarintLen : ℕ → ℕ
  putVarint32 : ℕ → Bytes
  getVarint32 : Bytes → Option (ℕ × ℕ)
  sqlite3VdbeSerialTypeLen : ℕ → ℕ
  varintLen_eq : ∀ v, v < 2 ^ 32 → sqlite3VarintLen v = varintSize v
  putVarint32_length : ∀ v, v < 2 ^ 32 → (putVarint32 v).length = varintSize v
  putVarint32_byte : ∀ v, v < 2 ^ 7 → putVarint32 v = [UInt8.ofNat v]
  getVarint32_put : ∀ v rest, v < 2 ^ 32 →
    getVarint32 (putVarint32 v ++ rest) = some (v, varintSize v)
  getVarint32_bounds : ∀ bs v n, getVarint32 bs = some (v, n) →
    v < 2 ^ 32 ∧ 1 ≤ n ∧ n ≤ 9 ∧ n ≤ bs.length
  serialTypeLen_eq : ∀ t, t < 2 ^ 32 → sqlite3VdbeSerialTypeLen t = serialTypeSize t

namespace SqliteRecordFormat

/-- A blob of `n` bytes has serial type `2 n + 12`. -/
theorem serialTypeSize_blob (n : ℕ) : serialTypeSize (n * 2 + 12) = n := by
  have h : 12 ≤ n * 2 + 12 := Nat.le_add_left _ _
  unfold serialTypeSize
  rw [if_pos h]
  omega

theorem varintSize_pos (v : ℕ) : 1 ≤ varintSize v := by
  unfold varintSize
  split_ifs <;> omega

theorem varintSize_le (v : ℕ) : varintSize v ≤ 5 := by
  unfold varintSize
  split_ifs <;> omega

theorem varintSize_mono {v w : ℕ} (h : v ≤ w) : varintSize v ≤ varintSize w := by
  unfold varintSize
  split_ifs <;> omega

theorem varintSize_le_iff (v : ℕ) {k : ℕ} (h1 : 1 ≤ k) (h4 : k ≤ 4) :
    varintSize v ≤ k ↔ v < 2 ^ (7 * k) := by
  unfold varintSize
  interval_cases k <;> split_ifs <;> omega

/-- A small step in value lengthens a varint by at most one byte, and only once. -/
theorem varintSize_add_le (v : ℕ) {d : ℕ} (hd : d ≤ 127) : varintSize (v + d) ≤ varintSize v + 1 := by
  have hpos := varintSize_pos v
  by_cases h : varintSize v ≤ 3
  · have hv := (varintSize_le_iff v hpos (by omega)).mp (le_refl _)
    rw [varintSize_le_iff _ (by omega) (by omega)]
    have hpow : 2 ^ (7 * (varintSize v + 1)) = 128 * 2 ^ (7 * varintSize v) := by ring
    have hbase : 2 ^ 7 ≤ 2 ^ (7 * varintSize v) := Nat.pow_le_pow_right (by decide) (by omega)
    omega
  · have := varintSize_le (v + d)
    omega

/-- Decoding a varint's bytes with `i` bytes read and `acc` accumulated. -/
def getGroups : ℕ → ℕ → Bytes → Option (ℕ × ℕ)
  | _, _, [] => none
  | i, acc, b :: bs =>
    if i = 8 then some (acc * 256 + b.toNat, 9)
    else if b.toNat < 128 then some (acc * 128 + b.toNat, i + 1)
    else getGroups (i + 1) (acc * 128 + (b.toNat - 128)) bs

/-- The `n + 1` low groups of seven bits, high groups first, all but the last marked. -/
def putGroups : ℕ → ℕ → Bytes
  | 0, v => [UInt8.ofNat (v % 128)]
  | n + 1, v => UInt8.ofNat (v / 128 ^ (n + 1) % 128 + 128) :: putGroups n v

theorem putGroups_length (n v : ℕ) : (putGroups n v).length = n + 1 := by
  induction n with
  | zero => rfl
  | succ n ih => simp [putGroups, ih]

theorem getGroups_put (n v i acc : ℕ) (rest : Bytes) (hi : i + n < 8) :
    getGroups i acc (putGroups n v ++ rest) =
      some (acc * 128 ^ (n + 1) + v % 128 ^ (n + 1), i + n + 1) := by
  induction n generalizing i acc with
  | zero =>
    have hlt : v % 128 < 128 := Nat.mod_lt _ (by decide)
    simp only [putGroups, List.singleton_append, getGroups, UInt8.toNat_ofNat']
    rw [if_neg (by omega), Nat.mod_eq_of_lt (by omega : v % 128 < 2 ^ 8), if_pos hlt]
    simp
  | succ n ih =>
    have hlt : v / 128 ^ (n + 1) % 128 < 128 := Nat.mod_lt _ (by decide)
    simp only [putGroups, List.cons_append, getGroups, UInt8.toNat_ofNat']
    rw [if_neg (by omega), Nat.mod_eq_of_lt (by omega : v / 128 ^ (n + 1) % 128 + 128 < 2 ^ 8),
      if_neg (by omega), ih _ _ (by omega), Nat.add_sub_cancel]
    have hsplit : v % 128 ^ (n + 1 + 1) = v % 128 ^ (n + 1) + 128 ^ (n + 1) * (v / 128 ^ (n + 1) % 128) := by
      rw [pow_succ, Nat.mod_mul]
    rw [hsplit]
    congr 2
    · ring
    · omega

theorem getGroups_bounds (bs : Bytes) (i acc v n : ℕ) (hi : i ≤ 8)
    (h : getGroups i acc bs = some (v, n)) : i + 1 ≤ n ∧ n ≤ 9 ∧ n ≤ i + bs.length := by
  induction bs generalizing i acc with
  | nil => simp [getGroups] at h
  | cons b bs ih =>
    simp only [getGroups] at h
    split_ifs at h with h8 hb
    · simp only [Option.some.injEq, Prod.mk.injEq] at h
      simp only [List.length_cons]
      omega
    · simp only [Option.some.injEq, Prod.mk.injEq] at h
      simp only [List.length_cons]
      omega
    · have hih := ih (i + 1) _ (by omega) h
      simp only [List.length_cons]
      omega

/-- `sqlite3GetVarint32`: values that need more than 32 bits come back as `0xffffffff`. -/
def documentedGet (bs : Bytes) : Option (ℕ × ℕ) :=
  (getGroups 0 0 bs).map fun p => (if p.1 < 2 ^ 32 then p.1 else 2 ^ 32 - 1, p.2)

/-- The format as documented. -/
def documented : SqliteFormat where
  sqlite3VarintLen := varintSize
  putVarint32 v := putGroups (varintSize v - 1) v
  getVarint32 := documentedGet
  sqlite3VdbeSerialTypeLen := serialTypeSize
  varintLen_eq _ _ := rfl
  putVarint32_length v _ := by
    have := varintSize_pos v
    rw [putGroups_length]
    omega
  putVarint32_byte v h := by
    simp only [varintSize, if_pos h, Nat.sub_self, putGroups]
    rw [Nat.mod_eq_of_lt (by omega)]
  getVarint32_put v rest h := by
    have hpos := varintSize_pos v
    have hle := varintSize_le v
    have hv : v < 128 ^ (varintSize v - 1 + 1) := by
      unfold varintSize
      split_ifs <;> simp <;> omega
    have hget := getGroups_put (varintSize v - 1) v 0 0 rest (by omega)
    rw [Nat.mod_eq_of_lt hv] at hget
    simp only [documentedGet, hget, Option.map_some, zero_mul, zero_add, if_pos h,
      Nat.sub_add_cancel hpos]
  getVarint32_bounds bs v n h := by
    simp only [documentedGet, Option.map_eq_some_iff, Prod.mk.injEq] at h
    obtain ⟨⟨w, m⟩, hg, hv, hn⟩ := h
    have hb := getGroups_bounds bs 0 0 w m (by omega) hg
    simp only at hv hn
    subst hn
    refine ⟨?_, by omega, by omega, by omega⟩
    rw [← hv]
    split_ifs <;> omega
  serialTypeLen_eq _ _ := rfl

end SqliteRecordFormat
end LumoSql
