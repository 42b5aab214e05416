import Mathlib.Algebra.Group.Nat.Defs
import Mathlib.Data.List.TakeDrop
import Mathlib.Tactic.Common

/-! # Binary hash trees whose left parts are complete, computed with a stack of subtrees

`cv` finishes a node and `parent` joins two finished nodes. The left part of a tree has
the largest power of two of leaves that leaves a right part. A stack holds the finished
subtrees of the leaves so far, the last one on top, with one entry for each bit set in
their number once everything that can be merged has been merged. -/
namespace LumoSql.MergeTrees

/-- How many bits of a number are set. -/
def ones (n : ℕ) : ℕ := if n = 0 then 0 else n % 2 + ones (n / 2)

@[simp] theorem ones_zero : ones 0 = 0 := by simp [ones]

theorem ones_eq (n : ℕ) : ones n = n % 2 + ones (n / 2) := by
  by_cases hn : n = 0
  · simp [hn]
  · rw [ones, if_neg hn]

theorem ones_two_pow_add {k m : ℕ} (h : m < 2 ^ k) : ones (2 ^ k + m) = ones m + 1 := by
  induction k generalizing m with
  | zero =>
    obtain rfl : m = 0 := by simpa using h
    simp [ones]
  | succ k ih =>
    rw [Nat.pow_succ] at h ⊢
    have hmod : (2 ^ k * 2 + m) % 2 = m % 2 := by omega
    have hdiv : (2 ^ k * 2 + m) / 2 = 2 ^ k + m / 2 := by omega
    rw [ones_eq, hmod, hdiv, ih (by omega), ones_eq m]
    omega

@[simp] theorem ones_two_pow (k : ℕ) : ones (2 ^ k) = 1 := by
  simpa using ones_two_pow_add (m := 0) (Nat.two_pow_pos k)

theorem ones_le {n k : ℕ} (h : n < 2 ^ k) : ones n ≤ k := by
  induction k generalizing n with
  | zero => simp [show n = 0 by simpa using h]
  | succ k ih =>
    have := ih (n := n / 2) (by rw [Nat.pow_succ] at h; omega)
    rw [ones_eq]
    omega

theorem ones_pos {n : ℕ} (h : 0 < n) : 0 < ones n := by
  by_contra hzero
  have hlow := Nat.log2_self_le (n := n) (by omega)
  have hhigh : n < 2 ^ (n.log2 + 1) := Nat.lt_log2_self
  rw [Nat.pow_succ] at hhigh
  have hones := ones_two_pow_add (k := n.log2) (m := n - 2 ^ n.log2) (by omega)
  rw [Nat.add_sub_of_le hlow] at hones
  omega

theorem ones_succ_le (n : ℕ) : ones (n + 1) ≤ ones n + 1 := by
  induction n using Nat.strongRecOn with
  | ind n ih =>
    rw [ones_eq (n + 1), ones_eq n]
    rcases Nat.mod_two_eq_zero_or_one n with heven | hodd
    · rw [show (n + 1) / 2 = n / 2 by omega]
      omega
    · rw [show (n + 1) / 2 = n / 2 + 1 by omega]
      have := ih (n / 2) (by omega)
      omega

theorem ones_add_two_pow_le (n j : ℕ) : ones (n + 2 ^ j) ≤ ones n + 1 := by
  induction j generalizing n with
  | zero => exact ones_succ_le n
  | succ j ih =>
    rw [Nat.pow_succ, ones_eq, ones_eq n, show (n + 2 ^ j * 2) / 2 = n / 2 + 2 ^ j by omega]
    have := ih (n / 2)
    omega

theorem ones_add_two_pow {n j : ℕ} (h : 2 ^ (j + 1) ∣ n) : ones (n + 2 ^ j) = ones n + 1 := by
  induction j generalizing n with
  | zero =>
    rw [ones_eq (n + 2 ^ 0), ones_eq n, show (n + 2 ^ 0) / 2 = n / 2 by omega]
    omega
  | succ j ih =>
    obtain ⟨c, rfl⟩ := h
    rw [ones_eq, ones_eq (2 ^ (j + 1 + 1) * c), Nat.pow_succ 2 (j + 1), Nat.pow_succ 2 j,
      show (2 ^ j * 2 * 2 * c + 2 ^ j * 2) / 2 = 2 ^ (j + 1) * c + 2 ^ j by rw [Nat.pow_succ, Nat.mul_right_comm]; omega,
      show 2 ^ j * 2 * 2 * c / 2 = 2 ^ (j + 1) * c by rw [Nat.pow_succ, Nat.mul_right_comm]; omega,
      ih (Nat.dvd_mul_right _ _), Nat.mul_right_comm]
    omega

/-- A multiple of `2 ^ j` between `2 ^ k` and its double is at least a whole step below the double. -/
theorem two_pow_dvd_add {j k m : ℕ} (h : 2 ^ j ∣ 2 ^ k + m) (hm : m < 2 ^ k) : 2 ^ j ∣ m ∧ m + 2 ^ j ≤ 2 ^ k := by
  have hjk : j ≤ k := by
    by_contra hkj
    have hle := Nat.le_of_dvd (by omega) h
    have hpow : 2 ^ (k + 1) ≤ 2 ^ j := Nat.pow_le_pow_right (by omega) (by omega)
    rw [Nat.pow_succ] at hpow
    omega
  have hdvd : 2 ^ j ∣ m := (Nat.dvd_add_right (Nat.pow_dvd_pow 2 hjk)).mp h
  refine ⟨hdvd, ?_⟩
  obtain ⟨a, rfl⟩ := hdvd
  obtain ⟨b, hb⟩ := Nat.pow_dvd_pow 2 hjk
  rw [hb] at hm ⊢
  calc 2 ^ j * a + 2 ^ j = 2 ^ j * (a + 1) := (Nat.mul_succ _ _).symm
    _ ≤ 2 ^ j * b := Nat.mul_le_mul_left _ (Nat.lt_of_mul_lt_mul_left hm)

/-- Lists are built from the right part up, each time with a power of two in front that
is larger than all that follows it. -/
theorem peel_induction {α : Type} {motive : List α → Prop} (nil : motive [])
    (step : ∀ (k : ℕ) (big small : List α), big.length = 2 ^ k → small.length < 2 ^ k → motive small →
      motive (big ++ small)) (xs : List α) : motive xs := by
  induction hn : xs.length using Nat.strongRecOn generalizing xs with
  | ind n ih =>
    subst hn
    rcases List.eq_nil_or_concat xs with rfl | ⟨_, _, hne⟩
    · exact nil
    have hpos : xs.length ≠ 0 := by simp [hne]
    have hlow := Nat.log2_self_le hpos
    have hhigh : xs.length < 2 ^ (xs.length.log2 + 1) := Nat.lt_log2_self
    rw [Nat.pow_succ] at hhigh
    have htwo := Nat.two_pow_pos xs.length.log2
    rw [← List.take_append_drop (2 ^ xs.length.log2) xs]
    refine step xs.length.log2 _ _ (by simp [hlow]) ?_ (ih _ ?_ _ rfl)
    · simp only [List.length_drop]; omega
    · simp only [List.length_drop]; omega

/-- The largest power of two below a number. -/
def leftSize (n : ℕ) : ℕ := 2 ^ (n - 1).log2

theorem leftSize_pos (n : ℕ) : 0 < leftSize n := Nat.two_pow_pos _

theorem leftSize_lt {n : ℕ} (h : 1 < n) : leftSize n < n := by
  have := Nat.log2_self_le (n := n - 1) (by omega)
  simp only [leftSize]
  omega

theorem leftSize_eq {k m : ℕ} (hpos : 0 < m) (hle : m ≤ 2 ^ k) : leftSize (2 ^ k + m) = 2 ^ k := by
  have htwo := Nat.two_pow_pos k
  have hlog : (2 ^ k + m - 1).log2 = k := (Nat.log2_eq_iff (by omega)).mpr ⟨by omega, by rw [Nat.pow_succ]; omega⟩
  rw [leftSize, hlog]

variable {O C : Type} (cv : O → C) (parent : C → C → O)

section Stacks

/-- Merges the two entries on top until no more than `n` are left. -/
def mergeTo (n : ℕ) : List C → List C
  | right :: left :: s => if n < s.length + 2 then mergeTo n (cv (parent left right) :: s) else right :: left :: s
  | s => s
termination_by s => s.length

/-- Joins a node with everything on the stack, from the top down. -/
def rollUp (node : O) (s : List C) : O := s.foldl (fun node left => parent left (cv node)) node

/-- One layer of parents; an odd entry at the end stays as it is. -/
def pairUp : List C → List C
  | left :: right :: s => cv (parent left right) :: pairUp s
  | s => s

variable {cv parent}

theorem mergeTo_of_le {n : ℕ} {s : List C} (h : s.length ≤ n) : mergeTo cv parent n s = s := by
  cases s with
  | nil => simp [mergeTo]
  | cons right s =>
    cases s with
    | nil => simp [mergeTo]
    | cons left s =>
      simp only [List.length_cons] at h
      rw [mergeTo, if_neg (by omega)]

theorem mergeTo_cons_cons {n : ℕ} {left right : C} {s : List C} (h : n < s.length + 2) :
    mergeTo cv parent n (right :: left :: s) = mergeTo cv parent n (cv (parent left right) :: s) := by
  rw [mergeTo, if_pos h]

/-- What lies at the bottom is not merged as long as something may stay on top of it. -/
theorem mergeTo_append {n : ℕ} (hn : 0 < n) (s : List C) (bottom : C) :
    mergeTo cv parent (n + 1) (s ++ [bottom]) = mergeTo cv parent n s ++ [bottom] := by
  fun_induction mergeTo cv parent n s with
  | case1 right left s h ih =>
    have hlen : n + 1 < (s ++ [bottom]).length + 2 := by
      rw [List.length_append, List.length_singleton]
      omega
    rw [List.cons_append, List.cons_append, mergeTo_cons_cons hlen, ← ih, List.cons_append]
  | case2 right left s h =>
    refine mergeTo_of_le ?_
    simp only [List.length_append, List.length_cons, List.length_nil]
    omega
  | case3 s h =>
    refine mergeTo_of_le ?_
    cases s with
    | nil => simp
    | cons right s =>
      cases s with
      | nil => simpa using Nat.succ_le_of_lt hn
      | cons left s => exact absurd rfl (h right left s)

theorem mergeTo_mergeTo {m n : ℕ} (hmn : m ≤ n) (s : List C) :
    mergeTo cv parent m (mergeTo cv parent n s) = mergeTo cv parent m s := by
  fun_induction mergeTo cv parent n s with
  | case1 right left s h ih => rw [ih, mergeTo_cons_cons (by omega)]
  | case2 right left s h => rfl
  | case3 s h => rfl

theorem rollUp_append (node : O) (s t : List C) :
    rollUp cv parent node (s ++ t) = rollUp cv parent (rollUp cv parent node s) t := List.foldl_append

end Stacks

section Trees

variable [Inhabited O]

/-- The root of the tree over a list of leaves. -/
def tree (xs : List O) : O :=
  if xs.length ≤ 1 then xs.headD default
  else parent (cv (tree (xs.take (leftSize xs.length)))) (cv (tree (xs.drop (leftSize xs.length))))
termination_by xs.length
decreasing_by
  · simp only [List.length_take]
    have := leftSize_lt (n := xs.length) (by omega)
    omega
  · simp only [List.length_drop]
    have := leftSize_pos xs.length
    omega

/-- The finished subtrees of a list of leaves, the last one first. -/
def subtrees (xs : List O) : List C :=
  if xs.length = 0 then []
  else subtrees (xs.drop (2 ^ xs.length.log2)) ++ [cv (tree cv parent (xs.take (2 ^ xs.length.log2)))]
termination_by xs.length
decreasing_by
  simp only [List.length_drop]
  have := Nat.two_pow_pos xs.length.log2
  omega

/-- The finished subtrees of a list of leaves, `w` leaves each. -/
def layer (w : ℕ) (xs : List O) : List C :=
  if xs.length = 0 ∨ w = 0 then [] else cv (tree cv parent (xs.take w)) :: layer w (xs.drop w)
termination_by xs.length
decreasing_by simp only [List.length_drop]; omega

variable {cv parent}

@[simp] theorem tree_singleton (x : O) : tree cv parent [x] = x := by simp [tree]

theorem tree_append {k : ℕ} {xs ys : List O} (hxs : xs.length = 2 ^ k) (hpos : 0 < ys.length) (hle : ys.length ≤ 2 ^ k) :
    tree cv parent (xs ++ ys) = parent (cv (tree cv parent xs)) (cv (tree cv parent ys)) := by
  have htwo := Nat.two_pow_pos k
  have hlen : (xs ++ ys).length = 2 ^ k + ys.length := by rw [List.length_append, hxs]
  rw [tree, if_neg (by omega), hlen, leftSize_eq hpos hle, List.take_left' hxs, List.drop_left' hxs]

@[simp] theorem subtrees_nil : subtrees cv parent ([] : List O) = [] := by simp [subtrees]

theorem subtrees_append {k : ℕ} {big small : List O} (hbig : big.length = 2 ^ k) (hsmall : small.length < 2 ^ k) :
    subtrees cv parent (big ++ small) = subtrees cv parent small ++ [cv (tree cv parent big)] := by
  have htwo := Nat.two_pow_pos k
  have hlen : (big ++ small).length = 2 ^ k + small.length := by rw [List.length_append, hbig]
  have hlog : (2 ^ k + small.length).log2 = k :=
    (Nat.log2_eq_iff (by omega)).mpr ⟨by omega, by rw [Nat.pow_succ]; omega⟩
  rw [subtrees, if_neg (by omega), hlen, hlog, List.take_left' hbig, List.drop_left' hbig]

theorem subtrees_two_pow {k : ℕ} {xs : List O} (hxs : xs.length = 2 ^ k) :
    subtrees cv parent xs = [cv (tree cv parent xs)] := by
  have hsplit : subtrees cv parent (xs ++ []) = subtrees cv parent [] ++ [cv (tree cv parent xs)] :=
    subtrees_append hxs (Nat.two_pow_pos k)
  simpa using hsplit

theorem subtrees_length (xs : List O) : (subtrees cv parent xs).length = ones xs.length := by
  induction xs using peel_induction with
  | nil => simp
  | step k big small hbig hsmall ih =>
    rw [subtrees_append hbig hsmall, List.length_append, List.length_append, hbig, ones_two_pow_add hsmall, ih]
    rfl

/-- Pushing a complete subtree and merging gives the stack of all leaves so far. -/
theorem mergeTo_push {j : ℕ} {xs ys : List O} (hys : ys.length = 2 ^ j) (hxs : 2 ^ j ∣ xs.length) :
    mergeTo cv parent (ones (xs.length + 2 ^ j)) (cv (tree cv parent ys) :: subtrees cv parent xs) =
      subtrees cv parent (xs ++ ys) := by
  induction xs using peel_induction with
  | nil => simp [subtrees_two_pow hys, mergeTo_of_le]
  | step k big small hbig hsmall ih =>
    rw [List.length_append, hbig] at hxs
    have htwo := Nat.two_pow_pos j
    obtain ⟨hdvd, hle⟩ := two_pow_dvd_add hxs hsmall
    have hlen : (small ++ ys).length = small.length + 2 ^ j := by rw [List.length_append, hys]
    have hcount : (big ++ small).length + 2 ^ j = 2 ^ k + (small.length + 2 ^ j) := by
      rw [List.length_append, hbig, Nat.add_assoc]
    have hpos : 0 < ones (small.length + 2 ^ j) := ones_pos (by omega)
    rw [hcount, subtrees_append hbig hsmall, ← List.cons_append, List.append_assoc]
    rcases Nat.lt_or_eq_of_le hle with hlt | hfull
    · rw [ones_two_pow_add hlt, mergeTo_append hpos, ih hdvd, subtrees_append hbig (by omega)]
    · -- The new subtree completes a tree as large as the one at the bottom.
      have hhalf : (small ++ ys).length = 2 ^ k := by rw [hlen, hfull]
      have hwhole : (big ++ (small ++ ys)).length = 2 ^ (k + 1) := by
        rw [List.length_append, hbig, hhalf, Nat.pow_succ]
        omega
      have hmerged := ih hdvd
      rw [hfull, ones_two_pow, subtrees_two_pow hhalf] at hmerged
      have hcarry : ones (2 ^ k + 2 ^ k) = 1 := by rw [← Nat.two_mul, ← Nat.pow_succ', ones_two_pow]
      rw [hfull, hcarry, ← mergeTo_mergeTo (by omega : 1 ≤ 2), mergeTo_append (by omega : 0 < 1), hmerged,
        subtrees_two_pow hwhole, tree_append hbig (by omega) (by omega)]
      simp [mergeTo]

/-- Rolling the last leaves up through the stack gives the tree over all of them. -/
theorem rollUp_subtrees {j : ℕ} {xs ys : List O} (hpos : 0 < ys.length) (hys : ys.length ≤ 2 ^ j) (hxs : 2 ^ j ∣ xs.length) :
    rollUp cv parent (tree cv parent ys) (subtrees cv parent xs) = tree cv parent (xs ++ ys) := by
  induction xs using peel_induction with
  | nil => simp [rollUp]
  | step k big small hbig hsmall ih =>
    rw [List.length_append, hbig] at hxs
    obtain ⟨hdvd, hle⟩ := two_pow_dvd_add hxs hsmall
    rw [subtrees_append hbig hsmall, rollUp_append, ih hdvd, List.append_assoc,
      tree_append hbig (by rw [List.length_append]; omega) (by rw [List.length_append]; omega)]
    rfl

@[simp] theorem layer_nil (w : ℕ) : layer cv parent w ([] : List O) = [] := by simp [layer]

/-- A layer has the finished tree of its first leaves in front. -/
theorem layer_append_left {w : ℕ} {xs ys : List O} (hw : 0 < w) (hxs : xs.length = w) :
    layer cv parent w (xs ++ ys) = cv (tree cv parent xs) :: layer cv parent w ys := by
  rw [layer, if_neg (by rw [List.length_append]; omega), List.take_left' hxs, List.drop_left' hxs]

theorem layer_self {w : ℕ} {xs : List O} (hw : 0 < w) (hxs : xs.length = w) :
    layer cv parent w xs = [cv (tree cv parent xs)] := by
  have hsplit : layer cv parent w (xs ++ []) = _ := layer_append_left hw hxs
  simpa using hsplit

/-- A list of whole groups of `w` is empty or starts with such a group. -/
theorem exists_group {α : Type} {n w : ℕ} {xs : List α} (h : xs.length = (n + 1) * w) :
    ∃ ys zs, xs = ys ++ zs ∧ ys.length = w ∧ zs.length = n * w := by
  refine ⟨xs.take w, xs.drop w, (List.take_append_drop w xs).symm, ?_, ?_⟩
  · rw [List.length_take, h, Nat.succ_mul]
    omega
  · rw [List.length_drop, h, Nat.succ_mul]
    omega

theorem layer_append {n w : ℕ} {xs : List O} (hw : 0 < w) (hxs : xs.length = n * w) (ys : List O) :
    layer cv parent w (xs ++ ys) = layer cv parent w xs ++ layer cv parent w ys := by
  induction n generalizing xs with
  | zero =>
    obtain rfl : xs = [] := List.eq_nil_of_length_eq_zero (by omega)
    simp
  | succ n ih =>
    obtain ⟨us, vs, rfl, hus, hvs⟩ := exists_group hxs
    rw [List.append_assoc, layer_append_left hw hus, ih hvs, layer_append_left hw hus, List.cons_append]

theorem layer_length {n w : ℕ} {xs : List O} (hw : 0 < w) (hxs : xs.length = n * w) :
    (layer cv parent w xs).length = n := by
  induction n generalizing xs with
  | zero =>
    obtain rfl : xs = [] := List.eq_nil_of_length_eq_zero (by omega)
    simp
  | succ n ih =>
    obtain ⟨us, vs, rfl, hus, hvs⟩ := exists_group hxs
    rw [layer_append_left hw hus, List.length_cons, ih hvs]

/-- The parents of a layer of complete subtrees are the layer above. -/
theorem pairUp_layer {e n : ℕ} {xs : List O} (hxs : xs.length = n * 2 ^ (e + 1)) :
    pairUp cv parent (layer cv parent (2 ^ e) xs) = layer cv parent (2 ^ (e + 1)) xs := by
  have htwo := Nat.two_pow_pos e
  induction n generalizing xs with
  | zero =>
    obtain rfl : xs = [] := List.eq_nil_of_length_eq_zero (by omega)
    simp [pairUp]
  | succ n ih =>
    obtain ⟨us, vs, rfl, hus, hvs⟩ := exists_group hxs
    have hhalves : us.length = (1 + 1) * 2 ^ e := by rw [hus, Nat.pow_succ']
    obtain ⟨ls, rs, rfl, hls, hrs⟩ := exists_group hhalves
    have htree : tree cv parent (ls ++ rs) = parent (cv (tree cv parent ls)) (cv (tree cv parent rs)) :=
      tree_append hls (by omega) (by omega)
    rw [layer_append_left (Nat.two_pow_pos _) hus, List.append_assoc, layer_append_left htwo hls,
      layer_append_left htwo (by omega), pairUp, ih hvs, htree]

end Trees

end LumoSql.MergeTrees
