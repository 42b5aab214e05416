import LumoSql.Blake3Chunks

/-! The hasher computes the root of the tree over the chunks of its message, for any
sequence of updates and any instruction set. -/
namespace LumoSql.Blake3
open MergeTrees

section Subtrees

variable {key : Words} {flags : UInt8} {counter : ℕ} {simd : Simd}

/-- One block hashed as a parent is what a parent node finishes to. -/
theorem hashOne_parent {left right : Bytes} (h : (left ++ right).length ≤ blockLen) :
    hashOne (left ++ right) 1 key 0 (flags ||| Flag.parent) 0 0 = outputChainingValue (parentOf key flags left right) := by
  rw [hashOne, hashOneBlocks, if_pos rfl, hashOneBlocks, List.take_of_length_le h, UInt8.or_zero, UInt8.or_zero]
  rfl

theorem compressParentsParallel_eq {cvs : List Bytes} (h : ∀ c ∈ cvs, c.length = 32) :
    compressParentsParallel cvs key flags = pairUp outputChainingValue (parentOf key flags) cvs := by
  fun_induction pairUp outputChainingValue (parentOf key flags) cvs with
  | case1 left right cvs ih =>
    have hlr : (left ++ right).length ≤ blockLen := by
      rw [List.length_append, h left (by simp), h right (by simp)]
      decide
    rw [← ih fun c hc => h c (by simp [hc])]
    simp only [compressParentsParallel, parentsArray, hashMany, hashOne_parent hlr, List.cons_append]
    rfl
  | case2 cvs hcvs =>
    rw [compressParentsParallel, parentsArray]
    · rfl
    · exact hcvs

theorem layer_member {w : ℕ} {xs : List Output} {c : Bytes}
    (h : c ∈ layer outputChainingValue (parentOf key flags) w xs) : c.length = 32 := by
  fun_induction layer outputChainingValue (parentOf key flags) w xs with
  | case1 xs hxs => simp at h
  | case2 xs hxs ih =>
    rcases List.mem_cons.mp h with rfl | h
    · exact outputChainingValue_length _
    · exact ih h

theorem layer_one (xs : List Output) :
    layer outputChainingValue (parentOf key flags) 1 xs = xs.map outputChainingValue := by
  induction xs with
  | nil => simp
  | cons x xs ih =>
    have hcons : layer outputChainingValue (parentOf key flags) 1 ([x] ++ xs) = _ := layer_append_left (by omega) rfl
    rw [List.singleton_append, tree_singleton] at hcons
    rw [hcons, ih, List.map_cons]

theorem leftLen_two_pow (i : ℕ) : leftLen (2 ^ (i + 1) * chunkLen) = 2 ^ i * chunkLen := by
  have htwo := Nat.two_pow_pos i
  have hdiv : (2 ^ (i + 1) * chunkLen - 1) / chunkLen = 2 ^ (i + 1) - 1 := by
    simp only [chunkLen]
    omega
  have hlog : (2 ^ (i + 1) - 1).log2 = i := (Nat.log2_eq_iff (by rw [Nat.pow_succ]; omega)).mpr ⟨by rw [Nat.pow_succ]; omega, by omega⟩
  rw [leftLen, hdiv, roundDownToPowerOf2_eq (by rw [Nat.pow_succ]; omega), hlog]

/-- The width at which subtrees are hashed side by side, which is never less than two. -/
def wideLog (simd : Simd) : ℕ := max (simdDegree simd).log2 1

theorem simdDegree_eq (simd : Simd) : simdDegree simd = 2 ^ (simdDegree simd).log2 := by cases simd <;> decide

theorem cvArray_eq {degree : ℕ} {left : List Bytes} (h : left.length = degree) (right : List Bytes) :
    cvArray degree left right = left ++ right := by
  rw [cvArray, h, Nat.sub_self, List.take_of_length_le (by omega), List.replicate_zero, List.append_nil]

theorem exists_halves {i : ℕ} {input : Bytes} (h : input.length = 2 ^ (i + 1) * chunkLen) :
    ∃ ls rs, input = ls ++ rs ∧ ls.length = 2 ^ i * chunkLen ∧ rs.length = 2 ^ i * chunkLen := by
  have hlen : input.length = 2 ^ i * chunkLen + 2 ^ i * chunkLen := by
    rw [h, Nat.pow_succ, Nat.mul_right_comm, Nat.mul_two]
  refine ⟨input.take (2 ^ i * chunkLen), input.drop (2 ^ i * chunkLen), (List.take_append_drop _ _).symm, ?_, ?_⟩
  · rw [List.length_take]; omega
  · rw [List.length_drop]; omega

/-- The number of subtrees of a complete subtree that are finished. -/
theorem leaves_groups {i : ℕ} {input : Bytes} (h : input.length = 2 ^ i * chunkLen) (w : ℕ) :
    (leaves key flags counter input).length = 2 ^ min i w * 2 ^ (i - w) := by
  rw [leaves_length h, ← Nat.pow_add]
  congr 1
  omega

/-- A complete subtree is hashed up to the layer that is as wide as the instruction set allows. -/
theorem compressSubtreeWide_eq {i : ℕ} {input : Bytes} (h : input.length = 2 ^ i * chunkLen) :
    compressSubtreeWide simd input key counter flags =
      layer outputChainingValue (parentOf key flags) (2 ^ (i - wideLog simd)) (leaves key flags counter input) := by
  have hdegree := simdDegree_eq simd
  have hwide : wideLog simd = max (simdDegree simd).log2 1 := rfl
  generalize (simdDegree simd).log2 = d at hdegree hwide
  induction i generalizing input counter with
  | zero =>
    have hshort : input.length ≤ simdDegree simd * chunkLen := by
      rw [h, hdegree]
      exact Nat.mul_le_mul_right _ (Nat.pow_le_pow_right (by omega) (Nat.zero_le d))
    rw [compressSubtreeWide, if_pos hshort, compressChunksParallel_eq, Nat.zero_sub, Nat.pow_zero, layer_one]
  | succ i ih =>
    rw [compressSubtreeWide]
    by_cases hshort : i + 1 ≤ d
    · have hle : input.length ≤ simdDegree simd * chunkLen := by
        rw [h, hdegree]
        exact Nat.mul_le_mul_right _ (Nat.pow_le_pow_right (by omega) hshort)
      rw [if_pos hle, compressChunksParallel_eq, Nat.sub_eq_zero_of_le (by omega), Nat.pow_zero, layer_one]
    · have hlong : ¬ input.length ≤ simdDegree simd * chunkLen := by
        rw [h, hdegree, Nat.not_le]
        exact Nat.mul_lt_mul_of_pos_right (Nat.pow_lt_pow_right (by omega) (by omega)) (by decide)
      obtain ⟨ls, rs, rfl, hls, hrs⟩ := exists_halves h
      have htwo := Nat.two_pow_pos (i - wideLog simd)
      have hleft : (leaves key flags counter ls).length = _ * 2 ^ (i - wideLog simd) := leaves_groups hls _
      have hright : (leaves key flags (counter + 2 ^ i) rs).length = _ * 2 ^ (i - wideLog simd) := leaves_groups hrs _
      have hcvs : (layer outputChainingValue (parentOf key flags) (2 ^ (i - wideLog simd)) (leaves key flags counter ls)).length =
          2 ^ min i (wideLog simd) := layer_length htwo hleft
      have hcvs' : (layer outputChainingValue (parentOf key flags) (2 ^ (i - wideLog simd))
          (leaves key flags (counter + 2 ^ i) rs)).length = 2 ^ min i (wideLog simd) := layer_length htwo hright
      have hcount : (2 ^ i * chunkLen > chunkLen ∧ simdDegree simd = 1) ↔ 0 < i ∧ d = 0 := by
        rw [hdegree, gt_iff_lt, Nat.lt_mul_iff_one_lt_left (by decide), Nat.one_lt_two_pow_iff, Nat.pow_eq_one]
        simp [Nat.pos_iff_ne_zero]
      have hwidth : (if 2 ^ i * chunkLen > chunkLen ∧ simdDegree simd = 1 then 2 else simdDegree simd) = 2 ^ min i (wideLog simd) := by
        rw [hdegree] at hcount ⊢
        rw [if_congr hcount rfl rfl]
        split
        · rw [show min i (wideLog simd) = 1 by omega, Nat.pow_one]
        · rw [show min i (wideLog simd) = d by omega]
      rw [if_neg hlong, h, leftLen_two_pow]
      dsimp only
      rw [List.take_left' hls, List.drop_left' hls, Nat.mul_div_cancel _ (by decide : 0 < chunkLen), ih hls, ih hrs,
        hcvs, hcvs', hwidth, cvArray_eq hcvs, ← layer_append htwo hleft, ← leaves_append hls]
      have hlen : (leaves key flags counter (ls ++ rs)).length = (2 ^ min i (wideLog simd) + 2 ^ min i (wideLog simd)) *
          2 ^ (i - wideLog simd) := by
        rw [leaves_append hls, List.length_append, hleft, hright, Nat.add_mul]
      have hle : (layer outputChainingValue (parentOf key flags) (2 ^ (i - wideLog simd))
          (leaves key flags counter (ls ++ rs))).length = 2 ^ min i (wideLog simd) + 2 ^ min i (wideLog simd) :=
        layer_length htwo hlen
      by_cases hone : 2 ^ min i (wideLog simd) = 1
      · -- Two chunks with nothing to hash them side by side are returned as they are.
        have hi : i + 1 - wideLog simd = i - wideLog simd := by
          rw [Nat.pow_eq_one] at hone
          omega
        rw [if_pos hone, List.take_of_length_le (by rw [hle, hone]), hi]
      · have hi : i + 1 - wideLog simd = i - wideLog simd + 1 := by
          have : i ≠ 0 := fun hzero => hone (by rw [hzero, Nat.zero_min, Nat.pow_zero])
          omega
        have hgroups : (leaves key flags counter (ls ++ rs)).length = _ * 2 ^ (i + 1 - wideLog simd) := leaves_groups h _
        rw [hi] at hgroups
        rw [if_neg hone, List.take_of_length_le (Nat.le_of_eq hle), compressParentsParallel_eq fun c hc => layer_member hc,
          hi, pairUp_layer hgroups]

/-- Parents are formed until two values are left. -/
theorem condense_layer {e i : ℕ} {xs : List Output} (hxs : xs.length = 2 ^ (i + 1)) (he : e ≤ i) :
    condense (layer outputChainingValue (parentOf key flags) (2 ^ e) xs) key flags =
      layer outputChainingValue (parentOf key flags) (2 ^ i) xs := by
  induction hn : i - e generalizing e with
  | zero =>
    obtain rfl : e = i := by omega
    have hlen : xs.length = 2 * 2 ^ e := by rw [hxs, Nat.pow_succ']
    rw [condense, if_neg (by rw [layer_length (Nat.two_pow_pos e) hlen]; omega)]
  | succ n ih =>
    have hlen : xs.length = 2 ^ (n + 1 + 1) * 2 ^ e := by
      rw [hxs, ← Nat.pow_add]
      congr 1
      omega
    have hlen' : xs.length = 2 ^ (n + 1) * 2 ^ (e + 1) := by
      rw [hxs, ← Nat.pow_add]
      congr 1
      omega
    have htwo : 2 ^ 2 ≤ 2 ^ (n + 1 + 1) := Nat.pow_le_pow_right (by omega) (by omega)
    rw [condense, if_pos (by rw [layer_length (Nat.two_pow_pos e) hlen]; omega),
      compressParentsParallel_eq fun c hc => layer_member hc, pairUp_layer hlen', ih (by omega) (by omega)]

variable (key flags counter) in
/-- The node at the root of the chunks of some input. -/
def chunkTree (bytes : Bytes) : Output := tree outputChainingValue (parentOf key flags) (leaves key flags counter bytes)

theorem compressSubtreeToParentNode_eq {i : ℕ} {ls rs : Bytes} (hls : ls.length = 2 ^ i * chunkLen)
    (hrs : rs.length = 2 ^ i * chunkLen) :
    compressSubtreeToParentNode simd (ls ++ rs) key counter flags =
      [outputChainingValue (chunkTree key flags counter ls), outputChainingValue (chunkTree key flags (counter + 2 ^ i) rs)] := by
  have hlen : (ls ++ rs).length = 2 ^ (i + 1) * chunkLen := by
    rw [List.length_append, hls, hrs, Nat.pow_succ, Nat.mul_right_comm, Nat.mul_two]
  have htwo := Nat.two_pow_pos i
  have hwide : 0 < wideLog simd := by simp only [wideLog]; omega
  rw [compressSubtreeToParentNode, compressSubtreeWide_eq hlen, condense_layer (leaves_length hlen) (by omega),
    leaves_append hls, layer_append_left htwo (leaves_length hls), layer_self htwo (leaves_length hrs)]
  rfl

end Subtrees

theorem shrink_eq {a count : ℕ} (ha : 10 ≤ a) (h : 2 ^ 10 ∣ count) :
    ∃ b, shrink (2 ^ a) count = 2 ^ b ∧ 10 ≤ b ∧ b ≤ a ∧ 2 ^ b ∣ count := by
  induction a, ha using Nat.le_induction with
  | base =>
    refine ⟨10, ?_, by omega, by omega, h⟩
    rw [shrink, Nat.and_comm, Nat.and_two_pow_sub_one_eq_mod, Nat.mod_eq_zero_of_dvd h, if_neg (by omega)]
  | succ a ha ih =>
    obtain ⟨b, hb, hten, hba, hdvd⟩ := ih
    rw [shrink, Nat.and_comm, Nat.and_two_pow_sub_one_eq_mod]
    by_cases hzero : count % 2 ^ (a + 1) = 0
    · exact ⟨a + 1, if_neg (by omega), by omega, by omega, Nat.dvd_of_mod_eq_zero hzero⟩
    · refine ⟨b, ?_, hten, by omega, hdvd⟩
      rw [if_pos hzero, Nat.pow_succ, Nat.mul_div_cancel _ (by omega), hb]

section Hashers

variable {key : Words} {flags : UInt8} {simd : Simd}

/-- The stack of the finished subtrees of some input. -/
def stackOf (key : Words) (flags : UInt8) (bytes : Bytes) : List Bytes :=
  subtrees outputChainingValue (parentOf key flags) (leaves key flags 0 bytes)

variable {n : ℕ} {bytes more ps ls rs : Bytes} {s : List Bytes}

theorem leaves_message (h : ps.length = n * chunkLen) (more : Bytes) :
    leaves key flags 0 (ps ++ more) = leaves key flags 0 ps ++ leaves key flags n more := by
  rw [leaves_append h, Nat.zero_add]

/-- A complete subtree of chunks is pushed. -/
theorem push_chunks {i : ℕ} (hps : ps.length = n * chunkLen) (hdvd : 2 ^ i ∣ n) (hls : ls.length = 2 ^ i * chunkLen) :
    mergeTo outputChainingValue (parentOf key flags) (ones (n + 2 ^ i))
      (outputChainingValue (chunkTree key flags n ls) :: stackOf key flags ps) = stackOf key flags (ps ++ ls) := by
  have hn : (leaves key flags 0 ps).length = n := leaves_length hps
  rw [stackOf, stackOf, chunkTree, leaves_message hps]
  refine Eq.trans ?_ (mergeTo_push (leaves_length hls) (by rwa [hn]))
  rw [hn]

/-- Merging leaves the finished subtrees of whole chunks. -/
def Mergeable (key : Words) (flags : UInt8) (n : ℕ) (bytes : Bytes) (s : List Bytes) : Prop :=
  bytes.length = n * chunkLen ∧ mergeTo outputChainingValue (parentOf key flags) (ones n) s = stackOf key flags bytes

/-- The two values on top are the halves of a complete subtree, which have not been merged. -/
inductive Paired (key : Words) (flags : UInt8) : ℕ → Bytes → List Bytes → Prop
  | intro {i n : ℕ} {ps ls rs : Bytes} (hps : ps.length = n * chunkLen) (hdvd : 2 ^ (i + 1) ∣ n)
      (hls : ls.length = 2 ^ i * chunkLen) (hrs : rs.length = 2 ^ i * chunkLen) :
      Paired key flags (n + 2 ^ (i + 1)) (ps ++ (ls ++ rs)) (outputChainingValue (chunkTree key flags (n + 2 ^ i) rs) ::
        outputChainingValue (chunkTree key flags n ls) :: stackOf key flags ps)

theorem chunkTree_halves {i : ℕ} (hls : ls.length = 2 ^ i * chunkLen) (hrs : rs.length = 2 ^ i * chunkLen) :
    chunkTree key flags n (ls ++ rs) = parentOf key flags (outputChainingValue (chunkTree key flags n ls))
      (outputChainingValue (chunkTree key flags (n + 2 ^ i) rs)) := by
  have htwo := Nat.two_pow_pos i
  have hlen : (leaves key flags (n + 2 ^ i) rs).length = 2 ^ i := leaves_length hrs
  rw [chunkTree, leaves_append hls]
  exact tree_append (leaves_length hls) (by omega) (by omega)

theorem Paired.mergeable (h : Paired key flags n bytes s) : Mergeable key flags n bytes s := by
  cases h with
  | @intro i n ps ls rs hps hdvd hls hrs =>
    have hlen : (ls ++ rs).length = 2 ^ (i + 1) * chunkLen := by
      rw [List.length_append, hls, hrs, Nat.pow_succ, Nat.mul_right_comm, Nat.mul_two]
    have hstack : (stackOf key flags ps).length = ones n := by
      rw [stackOf, subtrees_length, leaves_length hps]
    have hones := ones_add_two_pow_le n (i + 1)
    refine ⟨by rw [List.length_append, hps, hlen, Nat.add_mul], ?_⟩
    rw [mergeTo_cons_cons (by omega), ← chunkTree_halves hls hrs, push_chunks hps hdvd hlen]

/-- The finished half of a subtree stays on the stack until the other half is there. -/
theorem stackOf_half {i : ℕ} (hps : ps.length = n * chunkLen) (hdvd : 2 ^ (i + 1) ∣ n) (hls : ls.length = 2 ^ i * chunkLen) :
    stackOf key flags (ps ++ ls) = outputChainingValue (chunkTree key flags n ls) :: stackOf key flags ps := by
  have hlen : (stackOf key flags ps).length = ones n := by rw [stackOf, subtrees_length, leaves_length hps]
  have hhalf : 2 ^ i ∣ n := (Nat.pow_dvd_pow 2 (Nat.le_succ i)).trans hdvd
  rw [← push_chunks hps hhalf hls]
  refine mergeTo_of_le ?_
  rw [List.length_cons, hlen, ones_add_two_pow hdvd]

theorem mergeable_push {i : ℕ} (hps : ps.length = n * chunkLen) (hdvd : 2 ^ i ∣ n) (hls : ls.length = 2 ^ i * chunkLen) :
    Mergeable key flags (n + 2 ^ i) (ps ++ ls) (outputChainingValue (chunkTree key flags n ls) :: stackOf key flags ps) := by
  refine ⟨?_, push_chunks hps hdvd hls⟩
  rw [List.length_append, hps, hls, Nat.add_mul]

/-- A hasher that has started on a chunk. -/
def hasherOf (key : Words) (flags : UInt8) (n : ℕ) (bytes : Bytes) (s : List Bytes) : Hasher :=
  ⟨key, chunkStateOf key flags n bytes, s⟩

/-- What is pushed lies on the finished subtrees of all that came before. -/
def PushesAt (key : Words) (flags : UInt8) (push : Hasher → Bytes → ℕ → Hasher) (n : ℕ) : Prop :=
  ∀ (ps : Bytes) (s : List Bytes) (counter : ℕ) (bytes cv : Bytes), Mergeable key flags n ps s →
    push (hasherOf key flags counter bytes s) cv n = hasherOf key flags counter bytes (cv :: stackOf key flags ps)

theorem merge_hasherOf (h : Mergeable key flags n ps s) (counter : ℕ) (bytes : Bytes) :
    hasherMergeCvStack (hasherOf key flags counter bytes s) n = hasherOf key flags counter bytes (stackOf key flags ps) := by
  simp only [hasherMergeCvStack, hasherOf, chunkStateOf_flags, popcnt, h.2]

theorem pushCv_pushesAt (n : ℕ) : PushesAt key flags hasherPushCv n := by
  intro ps s counter bytes cv h
  rw [hasherPushCv, merge_hasherOf h]
  rfl

/-- There is room for one more value as long as the chunks are counted in 54 bits. -/
theorem pushCvBounded_pushesAt (overrun : Hasher → Bytes → Hasher) (hn : n < 2 ^ maxDepth) :
    PushesAt key flags (hasherPushCvBounded overrun) n := by
  intro ps s counter bytes cv h
  have hroom : (hasherOf key flags counter bytes (stackOf key flags ps)).cvStack.length < maxDepth + 1 := by
    have hstack : (stackOf key flags ps).length = ones n := by rw [stackOf, subtrees_length, leaves_length h.1]
    have hones := ones_le hn
    exact Nat.lt_succ_of_le (hstack.trans_le hones)
  rw [hasherPushCvBounded, merge_hasherOf h, if_pos hroom]
  rfl

variable {push : Hasher → Bytes → ℕ → Hasher}

theorem chunkTree_last (hpos : 0 < bytes.length) (hle : bytes.length ≤ chunkLen) :
    chunkTree key flags n bytes = chunkOutput key flags n bytes := by
  rw [chunkTree, leaves_last hpos hle, tree_singleton]

theorem chunkTree_chunk (h : bytes.length = chunkLen) : chunkTree key flags n bytes = chunkOutput key flags n bytes :=
  chunkTree_last (by rw [h]; decide) (Nat.le_of_eq h)

theorem hasherSkipChunks_of (k : ℕ) : hasherSkipChunks (hasherOf key flags n [] s) k = hasherOf key flags (n + k) [] s := rfl

/-- A single chunk goes on the stack by itself. -/
theorem pushSubtree_chunk (hpush : PushesAt key flags push n) (h : Mergeable key flags n ps s) (hls : ls.length = chunkLen) :
    hasherPushSubtree push simd (hasherOf key flags n [] s) (ls ++ more) chunkLen =
      hasherOf key flags n [] (outputChainingValue (chunkTree key flags n ls) :: stackOf key flags ps) := by
  have hkey : (hasherOf key flags n [] s).key = key := rfl
  have hchunk : (hasherOf key flags n [] s).chunk = chunkStateOf key flags n [] := rfl
  rw [hasherPushSubtree, if_pos (Nat.le_refl _)]
  dsimp only
  rw [List.take_left' hls, hkey, hchunk, chunkStateOf_flags, chunkStateOf_chunkCounter, chunkStateInitAt_eq, chunkStateUpdate_of,
    List.nil_append, chunkTree_chunk hls, chunkOutput, hpush _ _ _ _ _ h]

/-- More chunks go on the stack as the two halves of their subtree. -/
theorem pushSubtree_pair {i : ℕ} (hpush : PushesAt key flags push n) (hpush' : PushesAt key flags push (n + 2 ^ i))
    (h : Mergeable key flags n ps s) (hdvd : 2 ^ (i + 1) ∣ n) (hls : ls.length = 2 ^ i * chunkLen)
    (hrs : rs.length = 2 ^ i * chunkLen) :
    hasherPushSubtree push simd (hasherOf key flags n [] s) ((ls ++ rs) ++ more) (2 ^ (i + 1) * chunkLen) =
      hasherOf key flags n [] (outputChainingValue (chunkTree key flags (n + 2 ^ i) rs) ::
        outputChainingValue (chunkTree key flags n ls) :: stackOf key flags ps) := by
  have hlen : (ls ++ rs).length = 2 ^ (i + 1) * chunkLen := by
    rw [List.length_append, hls, hrs, Nat.pow_succ, Nat.mul_right_comm, Nat.mul_two]
  have htwo := Nat.two_pow_pos i
  have hmany : ¬ 2 ^ (i + 1) * chunkLen ≤ chunkLen := by
    rw [Nat.pow_succ, chunkLen]
    omega
  have hhalf : 2 ^ (i + 1) / 2 = 2 ^ i := by rw [Nat.pow_succ, Nat.mul_div_cancel _ (by decide)]
  have hkey : (hasherOf key flags n [] s).key = key := rfl
  have hchunk (t : List Bytes) : (hasherOf key flags n [] t).chunk = chunkStateOf key flags n [] := rfl
  have hsecond : Mergeable key flags (n + 2 ^ i) (ps ++ ls) _ :=
    mergeable_push h.1 ((Nat.pow_dvd_pow 2 (Nat.le_succ i)).trans hdvd) hls
  rw [hasherPushSubtree, if_neg hmany]
  dsimp only
  rw [List.take_left' hlen, Nat.mul_div_cancel _ (by decide : 0 < chunkLen), hhalf, hkey, hchunk, chunkStateOf_flags,
    chunkStateOf_chunkCounter, compressSubtreeToParentNode_eq hls hrs, List.getD_cons_succ, List.getD_cons_zero,
    List.getD_cons_zero, hpush _ _ _ _ _ h, hchunk, chunkStateOf_chunkCounter, hpush' _ _ _ _ _ hsecond,
    stackOf_half h.1 hdvd hls]

/-- The subtree taken next is complete, not longer than the input, and fits behind the chunks so far. -/
theorem subtreeLen_eq {input : Bytes} (h : input.length > chunkLen) (n : ℕ) :
    ∃ i, shrink (roundDownToPowerOf2 input.length) (n * chunkLen) = 2 ^ i * chunkLen ∧ 2 ^ i * chunkLen ≤ input.length ∧
      2 ^ i ∣ n := by
  have hpos : 0 < input.length := by omega
  have hten : 10 ≤ input.length.log2 := (Nat.le_log2 (by omega)).mpr (Nat.le_of_lt h)
  obtain ⟨b, hb, htenb, hle, hdvd⟩ := shrink_eq hten (Nat.dvd_mul_left (2 ^ 10) n)
  obtain ⟨i, rfl⟩ := Nat.exists_eq_add_of_le' htenb
  have hsize : 2 ^ (i + 10) = 2 ^ i * chunkLen := Nat.pow_add 2 i 10
  refine ⟨i, ?_, ?_, ?_⟩
  · rw [roundDownToPowerOf2_eq hpos, ← hsize]
    exact hb
  · rw [← hsize]
    exact (Nat.pow_le_pow_right (by omega) hle).trans (Nat.log2_self_le (by omega))
  · rw [hsize] at hdvd
    exact Nat.dvd_of_mul_dvd_mul_right (by decide) hdvd

/-- One round of the loop. Only a single chunk leaves a stack without a pair on top. -/
theorem pushSubtree_of (simd : Simd) (more : Bytes) {i : ℕ} {front : Bytes} (hpush : ∀ c < n + 2 ^ i, PushesAt key flags push c)
    (h : Mergeable key flags n ps s) (hdvd : 2 ^ i ∣ n)
    (hfront : front.length = 2 ^ i * chunkLen) :
    ∃ s', hasherSkipChunks (hasherPushSubtree push simd (hasherOf key flags n [] s) (front ++ more) (2 ^ i * chunkLen)) (2 ^ i) =
        hasherOf key flags (n + 2 ^ i) [] s' ∧ Mergeable key flags (n + 2 ^ i) (ps ++ front) s' ∧
          (front.length = chunkLen ∨ Paired key flags (n + 2 ^ i) (ps ++ front) s') := by
  cases i with
  | zero =>
    rw [Nat.pow_zero, Nat.one_mul] at *
    refine ⟨_, ?_, mergeable_push (i := 0) h.1 hdvd (by rw [hfront, Nat.pow_zero, Nat.one_mul]), .inl hfront⟩
    rw [pushSubtree_chunk (hpush n (by omega)) h hfront, hasherSkipChunks_of]
  | succ i =>
    obtain ⟨ls, rs, rfl, hls, hrs⟩ := exists_halves hfront
    have hpair : Paired key flags (n + 2 ^ (i + 1)) (ps ++ (ls ++ rs)) _ := .intro h.1 hdvd hls hrs
    refine ⟨_, ?_, hpair.mergeable, .inr hpair⟩
    rw [pushSubtree_pair (hpush n (by omega)) (hpush _ (by rw [Nat.pow_succ]; omega)) h hdvd hls hrs, hasherSkipChunks_of]

/-- The loop puts whole chunks on the stack. If it leaves nothing, the last two values on the stack are a pair. -/
theorem updateSubtrees_of (simd : Simd) {input : Bytes}
    (hpush : ∀ c, c * chunkLen < n * chunkLen + input.length → PushesAt key flags push c) (h : Mergeable key flags n ps s) (hend : 0 < input.length ∨ Paired key flags n ps s) :
    ∃ n' ps' s' rest, hasherUpdateSubtrees push simd (hasherOf key flags n [] s) input = (hasherOf key flags n' [] s', rest) ∧
      ps ++ input = ps' ++ rest ∧ rest.length ≤ chunkLen ∧ Mergeable key flags n' ps' s' ∧
        (0 < rest.length ∨ Paired key flags n' ps' s') := by
  induction hlen : input.length using Nat.strongRecOn generalizing n ps s input with
  | ind len ih =>
    subst hlen
    rw [hasherUpdateSubtrees]
    by_cases hlong : input.length > chunkLen
    · obtain ⟨i, hsub, hle, hdvd⟩ := subtreeLen_eq hlong n
      have hcounter : (hasherOf key flags n [] s).chunk.chunkCounter = n := rfl
      have hpos : 0 < 2 ^ i * chunkLen := Nat.mul_pos (Nat.two_pow_pos i) (by decide)
      have htake : (input.take (2 ^ i * chunkLen)).length = 2 ^ i * chunkLen := by rw [List.length_take]; omega
      have hdrop : (input.drop (2 ^ i * chunkLen)).length = input.length - 2 ^ i * chunkLen := List.length_drop
      have hfront : ∀ c < n + 2 ^ i, PushesAt key flags push c := by
        intro c hc
        refine hpush c ?_
        calc c * chunkLen < (n + 2 ^ i) * chunkLen := Nat.mul_lt_mul_of_pos_right hc (by decide)
          _ = n * chunkLen + 2 ^ i * chunkLen := Nat.add_mul _ _ _
          _ ≤ n * chunkLen + input.length := by omega
      have hnext : ∀ c, c * chunkLen < (n + 2 ^ i) * chunkLen + (input.drop (2 ^ i * chunkLen)).length → PushesAt key flags push c := by
        intro c hc
        rw [hdrop, Nat.add_mul] at hc
        exact hpush c (by omega)
      obtain ⟨s', hrun, hmerge, hpair⟩ := pushSubtree_of simd (input.drop (2 ^ i * chunkLen)) hfront h hdvd htake
      rw [List.take_append_drop] at hrun
      rw [if_pos hlong, hcounter, hsub]
      dsimp only
      rw [Nat.mul_div_cancel _ (by decide : 0 < chunkLen), hrun]
      obtain ⟨n', ps', s'', rest, hrun', hsplit, hrest⟩ := ih _ (by omega) hnext hmerge
        (hpair.imp_left fun hone => show 0 < (input.drop (2 ^ i * chunkLen)).length by omega) rfl
      refine ⟨n', ps', s'', rest, hrun', ?_, hrest⟩
      rw [← hsplit, List.append_assoc, List.take_append_drop]
    · rw [if_neg hlong]
      exact ⟨n, ps, s, input, rfl, rfl, by omega, h, hend⟩

/-- Everything absorbed so far is in whole chunks on the stack and in a chunk that has been started. Without
such a chunk the top of the stack has not been merged, so that it can still become the root. -/
inductive Absorbed (key : Words) (flags : UInt8) : Bytes → Hasher → Prop
  | started {n : ℕ} {ps bytes : Bytes} (hps : ps.length = n * chunkLen) (hpos : 0 < bytes.length) (hle : bytes.length ≤ chunkLen) :
      Absorbed key flags (ps ++ bytes) (hasherOf key flags n bytes (stackOf key flags ps))
  | whole {n : ℕ} {ps : Bytes} {s : List Bytes} (h : Paired key flags n ps s) : Absorbed key flags ps (hasherOf key flags n [] s)
  | empty : Absorbed key flags [] (hasherOf key flags 0 [] [])

theorem absorbed_init : Absorbed key flags [] (hasherInitBase key flags) := .empty

theorem updateClear_of (simd : Simd) {input : Bytes}
    (hpush : ∀ c, c * chunkLen < n * chunkLen + input.length → PushesAt key flags push c) (h : Mergeable key flags n ps s) (hpos : 0 < input.length) :
    Absorbed key flags (ps ++ input) (hasherUpdateClear push simd (hasherOf key flags n [] s) input) := by
  obtain ⟨n', ps', s', rest, hrun, hsplit, hle, hmerge, hend⟩ := updateSubtrees_of simd hpush h (.inl hpos)
  rw [hasherUpdateClear, hrun, hsplit]
  dsimp only
  by_cases hrest : rest.length > 0
  · have hchunk : (hasherOf key flags n' [] s').chunk = chunkStateOf key flags n' [] := rfl
    rw [if_pos hrest, hchunk, chunkStateUpdate_of, List.nil_append]
    have hstarted : Absorbed key flags (ps' ++ rest) _ := .started hmerge.1 hrest hle
    rw [← merge_hasherOf hmerge] at hstarted
    exact hstarted
  · obtain rfl : rest = [] := List.eq_nil_of_length_eq_zero (by omega)
    rw [if_neg hrest, List.append_nil]
    exact .whole (hend.resolve_left hrest)

theorem mergeable_stackOf (hps : ps.length = n * chunkLen) : Mergeable key flags n ps (stackOf key flags ps) := by
  refine ⟨hps, mergeTo_of_le ?_⟩
  rw [stackOf, subtrees_length, leaves_length hps]

/-- A chunk that is full goes on the stack once there is more input. -/
theorem finishChunk_of (hpush : PushesAt key flags push n) (hps : ps.length = n * chunkLen) (hls : ls.length = chunkLen) :
    hasherFinishChunk push (hasherOf key flags n ls (stackOf key flags ps)) =
      hasherOf key flags (n + 1) [] (outputChainingValue (chunkTree key flags n ls) :: stackOf key flags ps) := by
  have hchunk (t : List Bytes) : (hasherOf key flags n ls t).chunk = chunkStateOf key flags n ls := rfl
  rw [hasherFinishChunk, hchunk, chunkStateOf_chunkCounter, hpush _ _ _ _ _ (mergeable_stackOf hps), chunkTree_chunk hls,
    chunkOutput]
  rfl

theorem chunkStateLen_hasherOf : chunkStateLen (hasherOf key flags n bytes s).chunk = bytes.length := chunkStateLen_of _

theorem Absorbed.update {m : Bytes} {hasher : Hasher} (h : Absorbed key flags m hasher) (simd : Simd) (input : Bytes)
    (hpush : ∀ c, c * chunkLen < (m ++ input).length → PushesAt key flags push c) :
    Absorbed key flags (m ++ input) (hasherUpdate push simd hasher input) := by
  by_cases hempty : input.length = 0
  · obtain rfl := List.eq_nil_of_length_eq_zero hempty
    rwa [hasherUpdate, if_pos hempty, List.append_nil]
  rw [hasherUpdate, if_neg hempty]
  cases h with
  | @started n ps bytes hps hpos hle =>
    obtain ⟨k, hk⟩ : ∃ k, bytes.length + k = chunkLen := ⟨chunkLen - bytes.length, by omega⟩
    have hroom : chunkLen - bytes.length = k := by omega
    have htake : (if k > input.length then input.length else k) = min k input.length := by split <;> omega
    have hfilled : { hasherOf key flags n bytes (stackOf key flags ps) with
        chunk := chunkStateUpdate (hasherOf key flags n bytes (stackOf key flags ps)).chunk (input.take k) } =
          hasherOf key flags n (bytes ++ input.take k) (stackOf key flags ps) := by
      simp only [hasherOf, chunkStateUpdate_of]
    rw [chunkStateLen_hasherOf, if_pos hpos]
    dsimp only
    rw [hroom, htake, ← List.take_eq_take_min, hfilled, ← List.drop_eq_drop_min]
    by_cases hmore : (input.drop k).length > 0
    · have hlen : (bytes ++ input.take k).length = chunkLen := by
        rw [List.length_drop] at hmore
        rw [List.length_append, List.length_take]
        omega
      have hmerge : Mergeable key flags (n + 1) (ps ++ (bytes ++ input.take k)) _ :=
        mergeable_push (i := 0) hps (Nat.one_dvd n) (by rw [hlen, Nat.pow_zero, Nat.one_mul])
      have htotal : ((ps ++ bytes) ++ input).length = (n + 1) * chunkLen + (input.drop k).length := by
        rw [List.length_append, List.length_append, hps, Nat.succ_mul, List.length_drop]
        rw [List.length_drop] at hmore
        omega
      have hclear := updateClear_of simd (by rwa [htotal] at hpush) hmerge hmore
      have hcounter : n * chunkLen < ((ps ++ bytes) ++ input).length := by
        rw [htotal, Nat.succ_mul]
        omega
      rw [if_pos hmore, finishChunk_of (hpush n hcounter) hps hlen]
      rwa [List.append_assoc, List.append_assoc, List.take_append_drop, ← List.append_assoc] at hclear
    · have hall : input.length ≤ k := by rw [List.length_drop] at hmore; omega
      rw [if_neg hmore, List.take_of_length_le hall, List.append_assoc]
      exact .started hps (by rw [List.length_append]; omega) (by rw [List.length_append]; omega)
  | whole h =>
    rw [chunkStateLen_hasherOf, if_neg (by simp)]
    refine updateClear_of simd ?_ h.mergeable (by omega)
    rwa [List.length_append, h.mergeable.1] at hpush
  | empty =>
    rw [chunkStateLen_hasherOf, if_neg (by simp)]
    have hmerge : Mergeable key flags 0 [] (stackOf key flags []) := mergeable_stackOf rfl
    have hstack : stackOf key flags [] = [] := by simp [stackOf]
    rw [hstack] at hmerge
    refine updateClear_of simd ?_ hmerge (by omega)
    rwa [List.length_append] at hpush

/-- The last part of a message rolled up through the stack. -/
theorem rollUp_chunks {i : ℕ} (hps : ps.length = n * chunkLen) (hpos : 0 < (leaves key flags n bytes).length)
    (hle : (leaves key flags n bytes).length ≤ 2 ^ i) (hdvd : 2 ^ i ∣ n) :
    rollUp outputChainingValue (parentOf key flags) (chunkTree key flags n bytes) (stackOf key flags ps) =
      chunkTree key flags 0 (ps ++ bytes) := by
  rw [chunkTree, stackOf, rollUp_subtrees hpos hle (by rwa [leaves_length hps]), ← leaves_message hps, chunkTree]

/-- The root of a message: a message of no bytes has one empty chunk. -/
def messageRoot (key : Words) (flags : UInt8) (m : Bytes) : Output :=
  if m.length = 0 then chunkOutput key flags 0 [] else chunkTree key flags 0 m

theorem Absorbed.root {m : Bytes} {hasher : Hasher} (h : Absorbed key flags m hasher) : hasherRoot hasher = messageRoot key flags m := by
  rw [messageRoot]
  cases h with
  | @started n ps bytes hps hpos hle =>
    have hlast : leaves key flags n bytes = [chunkOutput key flags n bytes] := leaves_last hpos hle
    have hroll : rollUp outputChainingValue (parentOf key flags) (chunkTree key flags n bytes) (stackOf key flags ps) =
        chunkTree key flags 0 (ps ++ bytes) := rollUp_chunks (i := 0) hps (by simp [hlast]) (by simp [hlast]) (Nat.one_dvd n)
    rw [chunkTree_last hpos hle] at hroll
    rw [if_neg (by rw [List.length_append]; omega), ← hroll, hasherRoot, chunkStateLen_hasherOf, if_pos hpos]
    by_cases hstack : (hasherOf key flags n bytes (stackOf key flags ps)).cvStack.length = 0
    · have hnil : stackOf key flags ps = [] := List.eq_nil_of_length_eq_zero hstack
      rw [if_pos hstack, hnil]
      rfl
    · rw [if_neg hstack]
      rfl
  | @whole n ps s h =>
    cases h with
    | @intro i n ps ls rs hps hdvd hls hrs =>
      have htwo := Nat.two_pow_pos i
      have hlen : (ls ++ rs).length = 2 ^ (i + 1) * chunkLen := by
        rw [List.length_append, hls, hrs, Nat.pow_succ, Nat.mul_right_comm, Nat.mul_two]
      have hgroup : (leaves key flags n (ls ++ rs)).length = 2 ^ (i + 1) := leaves_length hlen
      have hroll : rollUp outputChainingValue (parentOf key flags) (chunkTree key flags n (ls ++ rs)) (stackOf key flags ps) =
          chunkTree key flags 0 (ps ++ (ls ++ rs)) := rollUp_chunks hps (by omega) (Nat.le_of_eq hgroup) hdvd
      have hsome : 0 < (ps ++ (ls ++ rs)).length := by
        rw [List.length_append, hlen]
        exact Nat.add_pos_right _ (Nat.mul_pos (Nat.two_pow_pos _) (by decide))
      rw [if_neg (by omega), ← hroll, hasherRoot, chunkStateLen_hasherOf, chunkTree_halves hls hrs]
      rfl
  | empty => rfl

theorem Absorbed.updates {m : Bytes} {hasher : Hasher} (h : Absorbed key flags m hasher) (simd : Simd) (inputs : List Bytes)
    (hpush : ∀ c, c * chunkLen < (m ++ inputs.flatten).length → PushesAt key flags push c) :
    Absorbed key flags (m ++ inputs.flatten) (inputs.foldl (hasherUpdate push simd) hasher) := by
  induction inputs generalizing m hasher with
  | nil => simpa using h
  | cons input inputs ih =>
    rw [List.flatten_cons, ← List.append_assoc] at hpush ⊢
    refine ih (h.update simd input fun c hc => hpush c ?_) hpush
    rw [List.length_append]
    omega

end Hashers

section Outputs

variable {key : Words} {flags : UInt8}

theorem take_drop_eq_map {xs : Bytes} {offset k : ℕ} (h : offset + k ≤ xs.length) :
    (xs.drop offset).take k = (List.range k).map fun i => xs.getD (offset + i) 0 := by
  refine List.ext_getElem ?_ fun i hi hi' => ?_
  · rw [List.length_take, List.length_drop, List.length_map, List.length_range]
    omega
  · have hik : i < k := by simpa using hi'
    rw [List.getElem_take, List.getElem_drop, List.getElem_map, List.getElem_range, List.getD_eq_getElem?_getD,
      List.getElem?_eq_getElem (by omega), Option.getD_some]

theorem outputRootBytesFrom_eq (self : Output) (counter : ℕ) (offset : Fin 64) (outLen : ℕ) :
    outputRootBytesFrom self counter offset outLen = (List.range outLen).map fun i => rootByte self (64 * counter + offset + i) := by
  induction hn : outLen using Nat.strongRecOn generalizing counter offset outLen with
  | ind n ih =>
    subst hn
    rw [outputRootBytesFrom]
    by_cases hzero : outLen = 0
    · rw [if_pos hzero, hzero]
      rfl
    have hoffset := offset.isLt
    have htake : (if outLen > 64 - offset.val then 64 - offset.val else outLen) = min (64 - offset.val) outLen := by
      split <;> omega
    rw [if_neg hzero]
    dsimp only
    rw [htake, take_drop_eq_map (by rw [compressXof_length]; omega), ih _ (by omega) _ _ _ rfl]
    obtain ⟨k, hk⟩ : ∃ k, k = min (64 - offset.val) outLen := ⟨_, rfl⟩
    obtain ⟨rest, hrest⟩ : ∃ rest, outLen = k + rest := ⟨outLen - k, by omega⟩
    rw [← hk, hrest, Nat.add_sub_cancel_left, List.range_add, List.map_append, List.map_map]
    refine congrArg₂ List.append ?_ ?_
    · refine List.map_congr_left fun i hi => ?_
      have hik : i < k := List.mem_range.mp hi
      rw [rootByte, show (64 * counter + offset + i) / 64 = counter by omega,
        show (64 * counter + offset + i) % 64 = offset + i by omega]
    · refine List.map_congr_left fun i hi => ?_
      have hik : i < rest := List.mem_range.mp hi
      have hfull : k = 64 - offset.val := by omega
      refine congrArg (rootByte self) ?_
      simp only [Fin.val_zero]
      omega

theorem outputRootBytes_eq (self : Output) (seek outLen : ℕ) :
    outputRootBytes self seek outLen = (List.range outLen).map fun i => rootByte self (seek + i) := by
  rw [outputRootBytes, outputRootBytesFrom_eq]
  simp only [Nat.div_add_mod]

theorem finalizeSeek_absorbed {m : Bytes} {hasher : Hasher} (h : Absorbed key flags m hasher) (seek outLen : ℕ) :
    hasherFinalizeSeek hasher seek outLen = (List.range outLen).map fun i => rootByte (messageRoot key flags m) (seek + i) := by
  rw [hasherFinalizeSeek, h.root, outputRootBytes_eq]
  by_cases hzero : outLen = 0
  · rw [if_pos hzero, hzero]
    rfl
  · rw [if_neg hzero]

/-- However a message is split, and whatever is hashed side by side, the output is that of the tree over its chunks. -/
theorem hasherFinalizeSeek_eq (simd : Simd) (key : Words) (flags : UInt8) (inputs : List Bytes) (seek outLen : ℕ) :
    hasherFinalizeSeek (inputs.foldl (hasherUpdate hasherPushCv simd) (hasherInitBase key flags)) seek outLen =
      (List.range outLen).map fun i => rootByte (messageRoot key flags inputs.flatten) (seek + i) := by
  have habsorbed : Absorbed key flags [] (hasherInitBase key flags) := absorbed_init
  have hall := habsorbed.updates simd inputs fun c _ => pushCv_pushesAt c
  rw [List.nil_append] at hall
  exact finalizeSeek_absorbed hall seek outLen

/-- A message of less than `2 ^ 64` bytes never needs more room on the stack than there is: whatever a write past
its end would do, the output is the same. -/
theorem hasherFinalizeSeek_bounded (overrun : Hasher → Bytes → Hasher) (simd : Simd) (key : Words) (flags : UInt8)
    {inputs : List Bytes} (h : inputs.flatten.length < 2 ^ 64) (seek outLen : ℕ) :
    hasherFinalizeSeek (inputs.foldl (hasherUpdate (hasherPushCvBounded overrun) simd) (hasherInitBase key flags)) seek outLen =
      (List.range outLen).map fun i => rootByte (messageRoot key flags inputs.flatten) (seek + i) := by
  have habsorbed : Absorbed key flags [] (hasherInitBase key flags) := absorbed_init
  have hpush : ∀ c, c * chunkLen < ([] ++ inputs.flatten).length → PushesAt key flags (hasherPushCvBounded overrun) c := by
    intro c hc
    refine pushCvBounded_pushesAt overrun ?_
    rw [List.nil_append, chunkLen] at hc
    rw [maxDepth]
    omega
  have hall := habsorbed.updates simd inputs hpush
  rw [List.nil_append] at hall
  exact finalizeSeek_absorbed hall seek outLen

/-- A message of two chunks in three parts. -/
def twoChunks : List Bytes := [List.replicate 1000 97, List.replicate 600 98, [99]]

theorem hasherFinalizeSeek_bounded_sample : chunkLen < twoChunks.flatten.length ∧
    hasherFinalizeSeek (twoChunks.foldl (hasherUpdate (hasherPushCvBounded fun _ _ => hasherInit) .portable) hasherInit) 0 32 =
      (List.range 32).map fun i => rootByte (messageRoot iv 0 twoChunks.flatten) (0 + i) := by
  have hlength : twoChunks.flatten.length = 1601 := by
    rw [twoChunks, List.length_flatten, List.map_cons, List.map_cons, List.map_singleton, List.length_replicate,
      List.length_replicate]
    rfl
  have hbound : twoChunks.flatten.length < 2 ^ 64 := by
    rw [hlength]
    decide
  refine ⟨?_, hasherFinalizeSeek_bounded (fun _ _ => hasherInit) .portable iv 0 hbound 0 32⟩
  rw [hlength, chunkLen]
  decide

end Outputs

end LumoSql.Blake3
