import LumoSql.SqliteRecordFormat
import Mathlib.Order.Fin.Basic
/-! The permutation of the SHA3 hashes. The code runs four rounds at a time and leaves the
lanes where they are: each round reads them in the order in which the one before has left them. -/
namespace LumoSql.Keccak

/-- The lanes of a state by column and row. -/
abbrev State := Fin 5 → Fin 5 → UInt64

section Rounds

def rotl (a : UInt64) (n : ℕ) : UInt64 := ⟨a.toBitVec.rotateLeft n⟩

def parity (A : State) (x : Fin 5) : UInt64 := A x 0 ^^^ A x 1 ^^^ A x 2 ^^^ A x 3 ^^^ A x 4

/-- The bytes of the lanes, the low ones first. -/
def stateByte (A : State) (i : ℕ) : UInt8 :=
  (A (Fin.ofNat 5 (i / 8)) (Fin.ofNat 5 (i / 8 / 5)) >>> (8 * (i % 8)).toUInt64).toUInt8

def theta (A : State) : State := fun x y => A x y ^^^ (parity A (x - 1) ^^^ rotl (parity A (x + 1)) 1)

/-- The walk over all lanes but the one in the middle. -/
def rhoWalk : ℕ → Fin 5 × Fin 5
  | 0 => (1, 0)
  | t + 1 => ((rhoWalk t).2, 2 * (rhoWalk t).1 + 3 * (rhoWalk t).2)

def rhoOffset (x y : Fin 5) : ℕ :=
  ((List.range 24).find? fun t => rhoWalk t = (x, y)).elim 0 fun t => (t + 1) * (t + 2) / 2 % 64

def rho (A : State) : State := fun x y => rotl (A x y) (rhoOffset x y)

def pi (A : State) : State := fun x y => A (x + 3 * y) x

def chi (A : State) : State := fun x y => A x y ^^^ (~~~A (x + 1) y &&& A (x + 2) y)

def iota (rc : UInt64) (A : State) : State := fun x y => if x = 0 ∧ y = 0 then A x y ^^^ rc else A x y

/-- The shift register that gives the round constants. -/
def lfsr : ℕ → BitVec 8
  | 0 => 1
  | t + 1 => if (lfsr t).msb then (lfsr t <<< 1) ^^^ 0x71 else lfsr t <<< 1

/-- Bit `2 ^ j - 1` of the constant of a round is the bit `j + 7 * round` of the register. -/
def roundConstant (round : ℕ) : BitVec 64 :=
  (List.range 7).foldl (fun rc j => if (lfsr (j + 7 * round)).getLsbD 0 then rc ||| (1 <<< (2 ^ j - 1)) else rc) 0

def keccakRound (A : State) (round : ℕ) : State := iota ⟨roundConstant round⟩ (chi (pi (rho (theta A))))

def keccakF (A : State) : State := (List.range 24).foldl keccakRound A

end Rounds

section Code

/-- The 25 words of the context; the lane named `a23` there is in row 2 and column 3. -/
abbrev Lanes := Vector UInt64 25

def lane (row column : Fin 5) : Fin 25 := ⟨5 * row + column, by omega⟩

/-- `ROL64`; the lane that is not rotated has the amount 0. -/
def rol64 (a x : UInt64) : UInt64 := (a <<< x) ||| (a >>> (64 - x))

def rc : Vector UInt64 24 := #v[
  0x0000000000000001, 0x0000000000008082, 0x800000000000808a, 0x8000000080008000,
  0x000000000000808b, 0x0000000080000001, 0x8000000080008081, 0x8000000000008009,
  0x000000000000008a, 0x0000000000000088, 0x0000000080008009, 0x000000008000000a,
  0x000000008000808b, 0x800000000000008b, 0x8000000000008089, 0x8000000000008003,
  0x8000000000008002, 0x8000000000000080, 0x000000000000800a, 0x800000008000000a,
  0x8000000080008081, 0x8000000000008080, 0x0000000080000001, 0x8000000080008008]

abbrev Rows := Vector (Vector (Fin 5) 5) 5

/-- Where one of the four rounds in the loop finds its lanes: for each column the rows in the order in which
they are added up, and for each of its five groups the row of the lane it takes from each column. -/
structure Layout where
  columns : Rows
  planes : Rows

def layouts : Vector Layout 4 := #v[
  ⟨#v[#v[0, 1, 2, 3, 4], #v[0, 1, 2, 3, 4], #v[0, 1, 2, 3, 4], #v[0, 1, 2, 3, 4], #v[0, 1, 2, 3, 4]],
   #v[#v[0, 1, 2, 3, 4], #v[2, 3, 4, 0, 1], #v[4, 0, 1, 2, 3], #v[1, 2, 3, 4, 0], #v[3, 4, 0, 1, 2]]⟩,
  ⟨#v[#v[0, 2, 4, 1, 3], #v[1, 3, 0, 2, 4], #v[2, 4, 1, 3, 0], #v[3, 0, 2, 4, 1], #v[4, 1, 3, 0, 2]],
   #v[#v[0, 3, 1, 4, 2], #v[4, 2, 0, 3, 1], #v[3, 1, 4, 2, 0], #v[2, 0, 3, 1, 4], #v[1, 4, 2, 0, 3]]⟩,
  ⟨#v[#v[0, 4, 3, 2, 1], #v[3, 2, 1, 0, 4], #v[1, 0, 4, 3, 2], #v[4, 3, 2, 1, 0], #v[2, 1, 0, 4, 3]],
   #v[#v[0, 2, 4, 1, 3], #v[3, 0, 2, 4, 1], #v[1, 3, 0, 2, 4], #v[4, 1, 3, 0, 2], #v[2, 4, 1, 3, 0]]⟩,
  ⟨#v[#v[0, 3, 1, 4, 2], #v[2, 0, 3, 1, 4], #v[4, 2, 0, 3, 1], #v[1, 4, 2, 0, 3], #v[3, 1, 4, 2, 0]],
   #v[#v[0, 0, 0, 0, 0], #v[1, 1, 1, 1, 1], #v[2, 2, 2, 2, 2], #v[3, 3, 3, 3, 3], #v[4, 4, 4, 4, 4]]⟩]

/-- By how much each group rotates the lane it takes from each column. -/
def rotations : Vector (Vector UInt64 5) 5 := #v[
  #v[0, 44, 43, 21, 14], #v[3, 45, 61, 28, 20], #v[18, 1, 6, 25, 8], #v[36, 10, 15, 56, 27], #v[41, 2, 62, 55, 39]]

/-- Which of `b0` to `b4` each group sets from the lane in column 0. -/
def firsts : Vector (Fin 5) 5 := #v[0, 2, 4, 1, 3]

/-- One group of assignments: `b0` to `b4` from a lane in each column, and these five lanes from them. -/
def plane (s : Lanes) (d : Vector UInt64 5) (rows : Vector (Fin 5) 5) (rots : Vector UInt64 5) (first : Fin 5) : Lanes :=
  let b : Vector UInt64 5 := Vector.ofFn fun i => rol64 (s[lane rows[i - first] (i - first)] ^^^ d[i - first]) rots[i - first]
  (List.finRange 5).foldl (fun s i => s.set (lane rows[i] i) (b[i] ^^^ (~~~b[i + 1] &&& b[i + 2]))) s

/-- `c0` to `c4`. -/
def sums (s : Lanes) (columns : Rows) : Vector UInt64 5 := Vector.ofFn fun x =>
  let row (i : Fin 5) : UInt64 := s[lane columns[x][i] x]
  row 0 ^^^ row 1 ^^^ row 2 ^^^ row 3 ^^^ row 4

/-- `d0` to `d4`. -/
def mixes (sum : Vector UInt64 5) : Vector UInt64 5 := Vector.ofFn fun x => sum[x - 1] ^^^ rol64 sum[x + 1] 1

def round (s : Lanes) (layout : Layout) (rc : UInt64) : Lanes :=
  let d := mixes (sums s layout.columns)
  let s := plane s d layout.planes[0] rotations[0] firsts[0]
  let s := s.set 0 (s[0] ^^^ rc)
  [1, 2, 3, 4].foldl (fun s (i : Fin 5) => plane s d layout.planes[i] rotations[i] firsts[i]) s

/-- A single step of the mixing function: four rounds in each turn of the loop. -/
def keccakF1600Step (s : Lanes) : Lanes :=
  (List.finRange 6).foldl (fun s i =>
    (List.finRange 4).foldl (fun s j => round s layouts[j] rc[4 * i.val + j.val]) s) s

end Code

section Lanes

variable {s t : Lanes} {d : Vector UInt64 5} {rows : Vector (Fin 5) 5} {rots : Vector UInt64 5} {first : Fin 5}

theorem lane_inj {r r' c c' : Fin 5} : lane r c = lane r' c' ↔ r = r' ∧ c = c' := by
  simp only [lane, Fin.ext_iff]
  omega

/-- What a group sets `b` to, for the lane in a column of the state it is read from. -/
def planeIn (s : Lanes) (d : Vector UInt64 5) (rows : Vector (Fin 5) 5) (rots : Vector UInt64 5) (c : Fin 5) : UInt64 :=
  rol64 (s[lane rows[c] c] ^^^ d[c]) rots[c]

def planeOut (s : Lanes) (d : Vector UInt64 5) (rows : Vector (Fin 5) 5) (rots : Vector UInt64 5) (first i : Fin 5) : UInt64 :=
  let b (i : Fin 5) : UInt64 := planeIn s d rows rots (i - first)
  b i ^^^ (~~~b (i + 1) &&& b (i + 2))

theorem set_lane_get (s : Lanes) (r c r' c' : Fin 5) (v : UInt64) :
    (s.set (lane r c) v)[lane r' c'] = if r = r' ∧ c = c' then v else s[lane r' c'] := by
  rw [Fin.getElem_fin, Vector.getElem_set]
  simp only [Fin.val_inj, lane_inj, Fin.getElem_fin]

theorem foldl_set_lane (rows : Vector (Fin 5) 5) (f : Fin 5 → UInt64) (r c : Fin 5) (is : List (Fin 5)) (s : Lanes) :
    (is.foldl (fun s i => s.set (lane rows[i] i) (f i)) s)[lane r c] =
      if c ∈ is ∧ rows[c] = r then f c else s[lane r c] := by
  induction is generalizing s with
  | nil => simp
  | cons i is ih =>
    rw [List.foldl_cons, ih, set_lane_get]
    by_cases hi : i = c
    · subst hi
      by_cases hr : rows[i] = r
      · simp [hr]
      · rw [if_neg fun h => hr h.2, if_neg fun h => hr h.1, if_neg fun h => hr h.2]
    · simp [hi, Ne.symm hi]

theorem plane_get (r c : Fin 5) :
    (plane s d rows rots first)[lane r c] = if rows[c] = r then planeOut s d rows rots first c else s[lane r c] := by
  rw [plane]
  have hget := foldl_set_lane rows (planeOut s d rows rots first) r c (List.finRange 5) s
  simp only [List.mem_finRange, true_and] at hget
  rw [← hget]
  simp only [planeOut, planeIn, Fin.getElem_fin, Vector.getElem_ofFn, Fin.eta]

/-- A group reads the lanes it writes and no others. -/
theorem planeOut_congr (h : ∀ c, s[lane rows[c] c] = t[lane rows[c] c]) (i : Fin 5) :
    planeOut s d rows rots first i = planeOut t d rows rots first i := by
  simp only [planeOut, planeIn, h]

/-- Groups that use different lanes do not get in the way of each other. -/
theorem foldl_plane_get {planes : Rows} (hne : ∀ i j c : Fin 5, planes[i][c] = planes[j][c] → i = j) {is : List (Fin 5)}
    (hnodup : is.Nodup) (s : Lanes) (i c : Fin 5) :
    (is.foldl (fun s (i : Fin 5) => plane s d planes[i] rotations[i] firsts[i]) s)[lane planes[i][c] c] =
      if i ∈ is then planeOut s d planes[i] rotations[i] firsts[i] c else s[lane planes[i][c] c] := by
  induction is generalizing s with
  | nil => simp
  | cons j is ih =>
    obtain ⟨hj, hnodup⟩ := List.nodup_cons.mp hnodup
    rw [List.foldl_cons, ih hnodup, plane_get]
    by_cases hji : j = i
    · subst hji
      simp [hj]
    · have hother (c : Fin 5) : planes[j][c] ≠ planes[i][c] := fun h => hji (hne j i c h)
      have hcongr : planeOut (plane s d planes[j] rotations[j] firsts[j]) d planes[i] rotations[i] firsts[i] c =
          planeOut s d planes[i] rotations[i] firsts[i] c := by
        refine planeOut_congr (fun c => ?_) c
        rw [plane_get, if_neg (hother c)]
      rw [hcongr, if_neg (hother c)]
      simp [Ne.symm hji]

end Lanes

section Views

/-- The state as a round finds it, with the lane of a column in a given row. -/
def view (row : Fin 5 → Fin 5 → Fin 5) (s : Lanes) : State := fun x y => s[lane (row x y) x]

/-- Where the lanes are after some of the four rounds. -/
def rowAt : ℕ → Fin 5 → Fin 5 → Fin 5
  | 0, _, y => y
  | j + 1, x, y => rowAt j x (x + 2 * y)

/-- A layout reads the lanes where they are. -/
structure Layout.Fits (layout : Layout) (row : Fin 5 → Fin 5 → Fin 5) : Prop where
  columns : ∀ x i : Fin 5, layout.columns[x][i] = row x i
  planes : ∀ i c : Fin 5, layout.planes[i][c] = row c (c + 2 * i)
  injective : ∀ x y y' : Fin 5, row x y = row x y' → y = y'
  zero : row 0 0 = 0

theorem layouts_fit (j : Fin 4) : layouts[j].Fits (rowAt j) := by
  constructor
  · revert j
    decide
  · revert j
    decide
  · revert j
    decide
  · revert j
    decide

theorem rowAt_four (x y : Fin 5) : rowAt 4 x y = y := by
  revert x y
  decide

theorem rotations_eq (i c : Fin 5) : (rotations[i][c]).toNat = rhoOffset c (c + 2 * i) := by
  revert i c
  decide +kernel

theorem rotations_lt (i c : Fin 5) : (rotations[i][c]).toNat < 64 := by
  revert i c
  decide

theorem rol64_eq (a x : UInt64) (h : x.toNat < 64) : rol64 a x = rotl a x.toNat := by
  refine UInt64.toBitVec_inj.mp ?_
  by_cases hzero : x.toNat = 0
  · have hx : x = 0 := UInt64.toNat_inj.mp hzero
    have hnone : a.toBitVec >>> 64 = 0#64 := BitVec.ushiftRight_eq_zero (Nat.le_refl _)
    simp [hx, rol64, rotl, BitVec.rotateLeft_def, hnone]
  · simp [rol64, rotl, BitVec.rotateLeft_def, UInt64.toBitVec_shiftLeft, UInt64.toBitVec_shiftRight, Nat.mod_eq_of_lt h]
    congr 2
    omega

theorem rc_eq (i : Fin 24) : rc[i].toBitVec = roundConstant i := by
  revert i
  decide +kernel

theorem fin_sub_two_mul (x i : Fin 5) : x - 2 * i = x + 3 * i := by
  revert x i
  decide

theorem fin_add_five_mul (x i : Fin 5) : x + 3 * i + 2 * i = x := by
  revert x i
  decide

theorem fin_two_mul_inj (c i j : Fin 5) (h : c + 2 * i = c + 2 * j) : i = j := by
  revert c i j
  decide

theorem fin_mem_or_zero (i : Fin 5) : i ∈ ([1, 2, 3, 4] : List (Fin 5)) ∨ i = 0 := by
  revert i
  decide

theorem firsts_eq (i : Fin 5) : firsts[i] = 2 * i := by
  revert i
  decide

variable {layout : Layout} {row : Fin 5 → Fin 5 → Fin 5}

/-- What a group of lanes becomes. -/
theorem planeOut_view (h : layout.Fits row) (s : Lanes) {d : Vector UInt64 5}
    (hd : ∀ x : Fin 5, d[x] = parity (view row s) (x - 1) ^^^ rotl (parity (view row s) (x + 1)) 1) (i c : Fin 5) :
    planeOut s d layout.planes[i] rotations[i] firsts[i] c = chi (pi (rho (theta (view row s)))) c i := by
  have hin (x : Fin 5) : planeIn s d layout.planes[i] rotations[i] x = rho (theta (view row s)) x (x + 2 * i) := by
    rw [planeIn, rol64_eq _ _ (rotations_lt i x), rotations_eq, hd]
    simp only [h.planes]
    rfl
  have hb (x : Fin 5) : planeIn s d layout.planes[i] rotations[i] (x - firsts[i]) = pi (rho (theta (view row s))) x i := by
    rw [hin, firsts_eq, fin_sub_two_mul, fin_add_five_mul, pi]
  simp only [planeOut, hb, chi]

/-- One round, with the lanes where the one before has left them. -/
theorem round_view (h : layout.Fits row) (s : Lanes) (rc : UInt64) :
    view (fun x y => row x (x + 2 * y)) (round s layout rc) = iota rc (chi (pi (rho (theta (view row s))))) := by
  have hd : ∀ x : Fin 5, (mixes (sums s layout.columns))[x] =
      parity (view row s) (x - 1) ^^^ rotl (parity (view row s) (x + 1)) 1 := by
    intro x
    have hsum (x : Fin 5) : (sums s layout.columns)[x] = parity (view row s) x := by
      simp only [sums, Fin.getElem_fin, Vector.getElem_ofFn, Fin.eta]
      simp only [← Fin.getElem_fin, h.columns]
      rfl
    have hmix : (mixes (sums s layout.columns))[x] =
        (sums s layout.columns)[x - 1] ^^^ rol64 (sums s layout.columns)[x + 1] 1 := by
      simp only [mixes, Fin.getElem_fin, Vector.getElem_ofFn]
    rw [hmix, hsum, hsum, rol64_eq _ _ (by decide)]
    rfl
  have hne : ∀ i j c : Fin 5, layout.planes[i][c] = layout.planes[j][c] → i = j := by
    intro i j c hij
    rw [h.planes, h.planes] at hij
    exact fin_two_mul_inj c i j (h.injective c _ _ hij)
  have hzero : layout.planes[(0 : Fin 5)][(0 : Fin 5)] = 0 := by rw [h.planes]; exact h.zero
  have hout := planeOut_view h s hd
  rw [round]
  generalize hfirst : plane s (mixes (sums s layout.columns)) layout.planes[0] rotations[0] firsts[0] = t
  have hget (r c : Fin 5) : t[lane r c] = if layout.planes[(0 : Fin 5)][c] = r then
      planeOut s (mixes (sums s layout.columns)) layout.planes[(0 : Fin 5)] rotations[(0 : Fin 5)] firsts[(0 : Fin 5)] c
      else s[lane r c] := by
    rw [← hfirst]
    exact plane_get r c
  have hset (r c : Fin 5) : (t.set 0 (t[0] ^^^ rc))[lane r c] = if 0 = r ∧ 0 = c then t[lane 0 0] ^^^ rc else t[lane r c] :=
    set_lane_get t 0 0 r c _
  funext x y
  simp only [view, ← h.planes]
  rw [foldl_plane_get hne (by decide)]
  rcases fin_mem_or_zero y with hy | rfl
  · have hy0 : y ≠ 0 := fun hy0 => absurd (hy0 ▸ hy) (by decide)
    have hcongr : planeOut (t.set 0 (t[0] ^^^ rc)) (mixes (sums s layout.columns)) layout.planes[y] rotations[y] firsts[y] x =
        planeOut s (mixes (sums s layout.columns)) layout.planes[y] rotations[y] firsts[y] x := by
      refine planeOut_congr (fun c => ?_) x
      have hother : layout.planes[(0 : Fin 5)][c] ≠ layout.planes[y][c] := fun hc => hy0 (hne 0 y c hc).symm
      have hmiddle : ¬ (0 = layout.planes[y][c] ∧ 0 = c) := fun hc => hother (by rw [← hc.1, ← hc.2, hzero])
      rw [hset, if_neg hmiddle, hget, if_neg hother]
    rw [if_pos hy, hcongr, hout, iota, if_neg fun hxy => hy0 hxy.2]
  · rw [if_neg (by decide), hset]
    by_cases hx : 0 = x
    · subst hx
      rw [if_pos ⟨hzero.symm, rfl⟩, hget, if_pos hzero, hout, iota, if_pos ⟨rfl, rfl⟩]
    · rw [if_neg fun hc => hx hc.2, hget, if_pos rfl, hout, iota, if_neg fun hc => hx hc.1.symm]

theorem round_step (s : Lanes) (i : Fin 6) (j : Fin 4) :
    view (rowAt (j + 1)) (round s layouts[j] rc[4 * i.val + j.val]) = keccakRound (view (rowAt j) s) (4 * i + j) := by
  have hconstant : rc[4 * i.val + j.val] = ⟨roundConstant (4 * i + j)⟩ :=
    UInt64.toBitVec_inj.mp (rc_eq ⟨4 * i.val + j.val, by omega⟩)
  rw [keccakRound, ← hconstant, ← round_view (layouts_fit j) s]
  rfl

/-- The words of a context as a state. -/
def lanesView (s : Lanes) : State := view (fun _ y => y) s

/-- After four rounds the lanes are where they were. -/
theorem four_rounds (s : Lanes) (i : Fin 6) :
    lanesView ((List.finRange 4).foldl (fun s j => round s layouts[j] rc[4 * i.val + j.val]) s) =
      [4 * i.val, 4 * i.val + 1, 4 * i.val + 2, 4 * i.val + 3].foldl keccakRound (lanesView s) := by
  have hrow : rowAt 4 = fun _ y => y := by
    funext x y
    exact rowAt_four x y
  have hlanes : List.finRange 4 = [0, 1, 2, 3] := by decide
  have hstart : view (rowAt 0) s = view (fun _ y => y) s := rfl
  rw [hlanes, lanesView, ← hrow, lanesView, ← hstart]
  simp only [List.foldl_cons, List.foldl_nil]
  refine (round_step _ i 3).trans (congrArg (fun A => keccakRound A (4 * i + 3)) ?_)
  refine (round_step _ i 2).trans (congrArg (fun A => keccakRound A (4 * i + 2)) ?_)
  refine (round_step _ i 1).trans (congrArg (fun A => keccakRound A (4 * i + 1)) ?_)
  exact round_step s i 0

theorem step_view (s : Lanes) : lanesView (keccakF1600Step s) = keccakF (lanesView s) := by
  have hrange : List.range 24 = (List.finRange 6).flatMap fun i => [4 * i.val, 4 * i.val + 1, 4 * i.val + 2, 4 * i.val + 3] := by
    decide
  rw [keccakF1600Step, keccakF, hrange]
  generalize List.finRange 6 = is
  induction is generalizing s with
  | nil => rfl
  | cons i is ih => rw [List.foldl_cons, ih, four_rounds, List.flatMap_cons, List.foldl_append]

/-- The unrolled code computes the permutation, lane by lane. -/
theorem keccakF1600Step_eq (s : Lanes) (x y : Fin 5) :
    (keccakF1600Step s)[lane y x] = keccakF (fun x y => s[lane y x]) x y := congrFun (congrFun (step_view s) x) y

end Views

end LumoSql.Keccak
