import LumoSql.SqliteRecordFormat
import Mathlib.Order.Basic
import Mathlib.Data.Nat.ModEq

/-! Keys of rowid tables and 64 bit metadata values: numbers as strings that sort like
numbers, of variable length or, with `LUMO_LMDB_FIXED_ROWID`, of eight bytes. -/
namespace LumoSql.RowidEncoding

/-- The number a big endian string stands for. -/
def bigEndian (bs : Bytes) : ℕ := bs.foldl (fun res b => res * 256 + b.toNat) 0

def put4byte (v : ℕ) : Bytes :=
  [UInt8.ofNat (v / 2 ^ 24), UInt8.ofNat (v / 2 ^ 16), UInt8.ofNat (v / 2 ^ 8), UInt8.ofNat v]

/-- The loop of the variable-length `put8`, `n` bytes of the buffer left in front of `d`. -/
def putBytes : ℕ → ℕ → Bytes → Bytes
  | 0, _, d => d
  | n + 1, v, d =>
    let d := UInt8.ofNat (v % 256) :: d
    if v / 256 = 0 then d else putBytes n (v / 256) d

/-- The key for a `u64`; `fixedRowid` is the build with `LUMO_LMDB_FIXED_ROWID`. -/
def put8 (fixedRowid : Bool) (v : ℕ) : Bytes :=
  if fixedRowid then put4byte (v / 2 ^ 32 % 2 ^ 32) ++ put4byte (v % 2 ^ 32)
  else putBytes 8 v []

/-- The `u64` a key stands for, `0` for one of a wrong length in the fixed build. -/
def get8 (fixedRowid : Bool) (d : Bytes) : ℕ :=
  if fixedRowid then (if d.length ≠ 8 then 0 else bigEndian d)
  else d.foldl (fun res b => (res * 256 + b.toNat) % 2 ^ 64) 0

def memcmp : Bytes → Bytes → Ordering
  | [], [] => .eq
  | [], _ :: _ => .lt
  | _ :: _, [] => .gt
  | a :: as, b :: bs => (compare a.toNat b.toNat).then (memcmp as bs)

def rowidCompare (a b : Bytes) : Ordering :=
  (compare a.length b.length).then (memcmp a b)

/-- The order of a rowid table: `rowid_compare`, or bytewise where it is not compiled in. -/
def keyCompare (fixedRowid : Bool) (a b : Bytes) : Ordering :=
  if fixedRowid then memcmp a b else rowidCompare a b

theorem foldl_bigEndian (bs : Bytes) (r : ℕ) :
    bs.foldl (fun res b => res * 256 + b.toNat) r = r * 256 ^ bs.length + bigEndian bs := by
  rw [bigEndian]
  induction bs generalizing r with
  | nil => simp
  | cons b bs ih =>
    rw [List.foldl_cons, List.foldl_cons, ih, ih (0 * 256 + b.toNat), List.length_cons, pow_succ]
    ring

@[simp] theorem bigEndian_nil : bigEndian [] = 0 := rfl

theorem bigEndian_cons (b : UInt8) (bs : Bytes) :
    bigEndian (b :: bs) = b.toNat * 256 ^ bs.length + bigEndian bs := by
  rw [bigEndian, List.foldl_cons, foldl_bigEndian]
  ring

theorem bigEndian_append (as bs : Bytes) :
    bigEndian (as ++ bs) = bigEndian as * 256 ^ bs.length + bigEndian bs := by
  rw [bigEndian, List.foldl_append, foldl_bigEndian, ← bigEndian]

theorem bigEndian_lt (bs : Bytes) : bigEndian bs < 256 ^ bs.length := by
  induction bs with
  | nil => simp
  | cons b bs ih =>
    rw [bigEndian_cons, List.length_cons, pow_succ]
    have hb : b.toNat < 256 := b.toNat_lt
    nlinarith [Nat.mul_le_mul_right (256 ^ bs.length) (show b.toNat ≤ 255 by omega)]

/-- Strings of one length sort like the numbers they stand for. -/
theorem memcmp_eq_compare {as bs : Bytes} (h : as.length = bs.length) :
    memcmp as bs = compare (bigEndian as) (bigEndian bs) := by
  induction as generalizing bs with
  | nil =>
    obtain rfl := List.length_eq_zero_iff.mp h.symm
    rfl
  | cons a as ih =>
    cases bs with
    | nil => simp at h
    | cons b bs =>
      have hlen : as.length = bs.length := by simpa using h
      have ha := bigEndian_lt as
      have hb := bigEndian_lt bs
      rw [memcmp, ih hlen, bigEndian_cons, bigEndian_cons, hlen]
      rw [hlen] at ha
      generalize 256 ^ bs.length = w at *
      rcases Nat.lt_trichotomy a.toNat b.toNat with hlt | heq | hgt
      · have hmul : (a.toNat + 1) * w ≤ b.toNat * w := Nat.mul_le_mul_right _ hlt
        have hfull : a.toNat * w + bigEndian as < b.toNat * w + bigEndian bs := by nlinarith
        rw [compare_lt_iff_lt.mpr hlt, compare_lt_iff_lt.mpr hfull]
        rfl
      · rw [heq, compare_eq_iff_eq.mpr rfl]
        rcases Nat.lt_trichotomy (bigEndian as) (bigEndian bs) with h | h | h
        · rw [compare_lt_iff_lt.mpr h, compare_lt_iff_lt.mpr (by omega)]
          rfl
        · rw [h, compare_eq_iff_eq.mpr rfl, compare_eq_iff_eq.mpr rfl]
          rfl
        · rw [compare_gt_iff_gt.mpr h, compare_gt_iff_gt.mpr (by omega)]
          rfl
      · have hmul : (b.toNat + 1) * w ≤ a.toNat * w := Nat.mul_le_mul_right _ hgt
        have hfull : b.toNat * w + bigEndian bs < a.toNat * w + bigEndian as := by nlinarith
        rw [compare_gt_iff_gt.mpr hgt, compare_gt_iff_gt.mpr hfull]
        rfl

theorem get8_eq_mod (d : Bytes) : get8 false d = bigEndian d % 2 ^ 64 := by
  have hfold : ∀ r, d.foldl (fun res b => (res * 256 + b.toNat) % 2 ^ 64) (r % 2 ^ 64) =
      d.foldl (fun res b => res * 256 + b.toNat) r % 2 ^ 64 := by
    induction d with
    | nil => simp
    | cons b d ih =>
      intro r
      have hstep : (r % 2 ^ 64 * 256 + b.toNat) % 2 ^ 64 = (r * 256 + b.toNat) % 2 ^ 64 := by omega
      rw [List.foldl_cons, List.foldl_cons, ← ih (r * 256 + b.toNat), hstep]
  have h0 := hfold 0
  rw [Nat.zero_mod] at h0
  rw [get8, if_neg (by decide), h0, bigEndian]

/-- The bytes put in front of `d` are the digits of `v`, with no leading zero but for `0`. -/
theorem putBytes_eq (n v : ℕ) (d : Bytes) (hv : v < 256 ^ n) (hn : 0 < n) :
    ∃ ds : Bytes, putBytes n v d = ds ++ d ∧ bigEndian ds = v ∧ ds.length ≤ n ∧ 0 < ds.length ∧
      (ds.length = 1 ∨ 256 ^ (ds.length - 1) ≤ v) := by
  induction n generalizing v d with
  | zero => omega
  | succ n ih =>
    have hbyte : (UInt8.ofNat (v % 256)).toNat = v % 256 := by
      rw [UInt8.toNat_ofNat']
      exact Nat.mod_eq_of_lt (Nat.mod_lt _ (by decide))
    rw [putBytes]
    by_cases h0 : v / 256 = 0
    · refine ⟨[UInt8.ofNat (v % 256)], by simp [h0], ?_, by simp, by simp, .inl rfl⟩
      rw [bigEndian_cons, hbyte]
      simp
      omega
    · have hdiv : v / 256 < 256 ^ n := by
        rw [Nat.div_lt_iff_lt_mul (by decide), ← pow_succ]
        exact hv
      have hpos : 0 < n := by
        by_contra hz
        obtain rfl := Nat.eq_zero_of_not_pos hz
        rw [pow_zero] at hdiv
        omega
      obtain ⟨ds, hds, hval, hle, hlen, hlead⟩ := ih (v / 256) (UInt8.ofNat (v % 256) :: d) hdiv hpos
      refine ⟨ds ++ [UInt8.ofNat (v % 256)], ?_, ?_, ?_, by simp, .inr ?_⟩
      · simp [h0, hds]
      · rw [bigEndian_append, hval, bigEndian_cons, hbyte]
        simp
        omega
      · simp
        omega
      · rw [List.length_append, List.length_singleton, Nat.add_sub_cancel]
        have hsplit : 256 ^ ds.length = 256 ^ (ds.length - 1) * 256 := by
          rw [← pow_succ]
          congr 1
          omega
        rcases hlead with h1 | hlead
        · rw [h1]
          omega
        · rw [hsplit]
          omega

theorem bigEndian_put4byte {v : ℕ} (hv : v < 2 ^ 32) : bigEndian (put4byte v) = v := by
  simp only [put4byte, bigEndian_cons, bigEndian_nil, List.length_cons, List.length_nil,
    UInt8.toNat_ofNat']
  omega

theorem put8_bigEndian (fixedRowid : Bool) {v : ℕ} (hv : v < 2 ^ 64) :
    bigEndian (put8 fixedRowid v) = v := by
  cases fixedRowid with
  | true =>
    have hlen : (put4byte (v % 2 ^ 32)).length = 4 := rfl
    rw [put8, if_pos rfl, bigEndian_append, bigEndian_put4byte (Nat.mod_lt _ (by decide)),
      bigEndian_put4byte (Nat.mod_lt _ (by decide)), hlen]
    omega
  | false =>
    obtain ⟨ds, hds, hval, _⟩ := putBytes_eq 8 v [] (hv.trans_le (by decide)) (by decide)
    rw [put8, if_neg (by decide), hds, List.append_nil, hval]

theorem get8_put8 (fixedRowid : Bool) {v : ℕ} (hv : v < 2 ^ 64) :
    get8 fixedRowid (put8 fixedRowid v) = v := by
  cases fixedRowid with
  | true =>
    have hlen : (put8 true v).length = 8 := rfl
    rw [get8, if_pos rfl, if_neg (by simp [hlen]), put8_bigEndian true hv]
  | false => rw [get8_eq_mod, put8_bigEndian false hv, Nat.mod_eq_of_lt hv]

/-- Both builds order the keys of all 64 bit numbers as unsigned numbers. -/
theorem keyCompare_put8 (fixedRowid : Bool) {a b : ℕ} (ha : a < 2 ^ 64) (hb : b < 2 ^ 64) :
    keyCompare fixedRowid (put8 fixedRowid a) (put8 fixedRowid b) = compare a b := by
  have hva := put8_bigEndian fixedRowid ha
  have hvb := put8_bigEndian fixedRowid hb
  cases fixedRowid with
  | true =>
    have hlen : (put8 true a).length = (put8 true b).length := rfl
    rw [keyCompare, if_pos rfl, memcmp_eq_compare hlen, hva, hvb]
  | false =>
    obtain ⟨as, has, _, _, hapos, halead⟩ := putBytes_eq 8 a [] (ha.trans_le (by decide)) (by decide)
    obtain ⟨bs, hbs, _, _, hbpos, hblead⟩ := putBytes_eq 8 b [] (hb.trans_le (by decide)) (by decide)
    have hpa : put8 false a = as := by rw [put8, if_neg (by decide), has, List.append_nil]
    have hpb : put8 false b = bs := by rw [put8, if_neg (by decide), hbs, List.append_nil]
    rw [hpa] at hva ⊢
    rw [hpb] at hvb ⊢
    have hau := bigEndian_lt as
    have hbu := bigEndian_lt bs
    rw [keyCompare, if_neg (by decide), rowidCompare]
    rcases Nat.lt_trichotomy as.length bs.length with hlt | heq | hgt
    · have hpow : 256 ^ as.length ≤ 256 ^ (bs.length - 1) :=
        Nat.pow_le_pow_right (by decide) (by omega)
      rw [compare_lt_iff_lt.mpr hlt, compare_lt_iff_lt.mpr (by omega)]
      rfl
    · rw [heq, compare_eq_iff_eq.mpr rfl, memcmp_eq_compare heq, hva, hvb]
      rfl
    · have hpow : 256 ^ bs.length ≤ 256 ^ (as.length - 1) :=
        Nat.pow_le_pow_right (by decide) (by omega)
      rw [compare_gt_iff_gt.mpr hgt, compare_gt_iff_gt.mpr (by omega)]
      rfl

/-- The keys of the default build are between one and eight bytes long, and only `0` has a
leading zero byte. -/
theorem put8_digits {v : ℕ} (hv : v < 2 ^ 64) :
    1 ≤ (put8 false v).length ∧ (put8 false v).length ≤ 8 ∧
      ((put8 false v).head? = some 0 → v = 0) := by
  obtain ⟨ds, hds, hval, hle, hpos, hlead⟩ :=
    putBytes_eq 8 v [] (hv.trans_le (by decide)) (by decide)
  have hput : put8 false v = ds := by simp [put8, hds]
  rw [hput]
  refine ⟨hpos, hle, ?_⟩
  intro hhead
  cases ds with
  | nil => simp at hhead
  | cons b ds =>
    obtain rfl : b = 0 := by simpa using hhead
    have hrest : bigEndian ds = v := by simpa [bigEndian_cons] using hval
    have hlt := bigEndian_lt ds
    rcases hlead with h1 | hlead
    · have hnil : ds = [] := by simpa using h1
      rw [← hrest, hnil, bigEndian_nil]
    · simp only [List.length_cons, Nat.add_sub_cancel] at hlead
      omega

/-- Both encodings give the number back and sort like it, so that the two builds order and
identify the rows of a table alike. -/
theorem encodings_agree (a b : UInt64) :
    (get8 false (put8 false a.toNat) = a.toNat ∧
      1 ≤ (put8 false a.toNat).length ∧ (put8 false a.toNat).length ≤ 8 ∧
      ((put8 false a.toNat).head? = some 0 → a = 0) ∧
      rowidCompare (put8 false a.toNat) (put8 false b.toNat) = compare a b) ∧
    (get8 true (put8 true a.toNat) = a.toNat ∧
      memcmp (put8 true a.toNat) (put8 true b.toNat) = compare a b) ∧
    keyCompare false (put8 false a.toNat) (put8 false b.toNat) =
      keyCompare true (put8 true a.toNat) (put8 true b.toNat) ∧
    (put8 false a.toNat = put8 false b.toNat ↔ put8 true a.toNat = put8 true b.toNat) := by
  have ha : a.toNat < 2 ^ 64 := a.toNat_lt
  have hb : b.toNat < 2 ^ 64 := b.toNat_lt
  have hcompare : compare a.toNat b.toNat = compare a b := by
    simp only [compare, compareOfLessAndEq, UInt64.lt_iff_toNat_lt, ← UInt64.toNat_inj]
  have hinj : ∀ fixedRowid, put8 fixedRowid a.toNat = put8 fixedRowid b.toNat ↔ a = b := by
    intro fixedRowid
    constructor
    · intro heq
      have hget := congrArg (get8 fixedRowid) heq
      rw [get8_put8 fixedRowid ha, get8_put8 fixedRowid hb] at hget
      exact UInt64.toNat_inj.mp hget
    · intro heq
      rw [heq]
  obtain ⟨hpos, hle, hlead⟩ := put8_digits ha
  have hvar := keyCompare_put8 false ha hb
  have hfixed := keyCompare_put8 true ha hb
  refine ⟨⟨get8_put8 false ha, hpos, hle, ?_, ?_⟩, ⟨get8_put8 true ha, ?_⟩, ?_, ?_⟩
  · intro hhead
    exact UInt64.toNat_inj.mp (hlead hhead)
  · rw [← hcompare, ← hvar]
    rfl
  · rw [← hcompare, ← hfixed]
    rfl
  · rw [hvar, hfixed]
  · rw [hinj, hinj]

end LumoSql.RowidEncoding
