import LumoSql.Blake3Compression
import LumoSql.MergeTrees

/-! The streaming hasher of BLAKE3. The stack of chaining values has its top in front. -/
namespace LumoSql.Blake3
open MergeTrees

/-- Find index of the highest set bit; `x` is assumed to be nonzero. -/
def highestOne (x : ℕ) : ℕ := x.log2

/-- Largest power of two less than or equal to `x`. As a special case, returns 1 when `x` is 0. -/
def roundDownToPowerOf2 (x : ℕ) : ℕ := 1 <<< highestOne (x ||| 1)

def popcnt (x : ℕ) : ℕ := ones x

/-- Given some input larger than one chunk, the number of bytes that should go in the left subtree. -/
def leftLen (contentLen : ℕ) : ℕ := roundDownToPowerOf2 ((contentLen - 1) / chunkLen) * chunkLen

/-- The instruction sets the dispatcher tells apart. -/
inductive Simd | portable | sse2 | sse41 | neon | avx2 | avx512 deriving DecidableEq

def simdDegree : Simd → ℕ
  | .avx512 => 16
  | .avx2 => 8
  | .sse41 => 4
  | .sse2 => 4
  | .neon => 4
  | .portable => 1

/-- The whole chunks in front of the input, and the rest. -/
def chunksArray (input : Bytes) : List Bytes × Bytes :=
  if input.length ≥ chunkLen then
    let (chunks, rest) := chunksArray (input.drop chunkLen)
    (input.take chunkLen :: chunks, rest)
  else ([], input)
termination_by input.length
decreasing_by simp only [List.length_drop, chunkLen] at *; omega

def compressChunksParallel (input : Bytes) (key : Words) (chunkCounter : ℕ) (flags : UInt8) : List Bytes :=
  let (chunks, rest) := chunksArray input
  let out := hashMany chunks (chunkLen / blockLen) key chunkCounter true flags Flag.chunkStart Flag.chunkEnd
  if rest.length > 0 then
    let chunkState := chunkStateInitAt key flags (chunkCounter + chunks.length)
    out ++ [outputChainingValue (chunkStateOutput (chunkStateUpdate chunkState rest))]
  else out

/-- The pairs of chaining values, and what is left over. -/
def parentsArray : List Bytes → List Bytes × List Bytes
  | left :: right :: cvs =>
    let (parents, rest) := parentsArray cvs
    ((left ++ right) :: parents, rest)
  | cvs => ([], cvs)

def compressParentsParallel (childChainingValues : List Bytes) (key : Words) (flags : UInt8) : List Bytes :=
  let (parents, rest) := parentsArray childChainingValues
  -- Parents always use counter 0 and have no start flags and no end flags.
  hashMany parents 1 key 0 false (flags ||| Flag.parent) 0 0 ++ rest

/-- Two runs of chaining values in one array, the second one at a fixed place. -/
def cvArray (degree : ℕ) (left right : List Bytes) : List Bytes :=
  left.take degree ++ List.replicate (degree - left.length) [] ++ right

theorem roundDownToPowerOf2_pos (x : ℕ) : 0 < roundDownToPowerOf2 x := by
  rw [roundDownToPowerOf2, Nat.one_shiftLeft]
  exact Nat.two_pow_pos _

theorem roundDownToPowerOf2_eq {x : ℕ} (hx : 0 < x) : roundDownToPowerOf2 x = 2 ^ x.log2 := by
  have hlog : (x ||| 1).log2 = x.log2 := by
    refine (Nat.log2_eq_iff (by simp)).mpr ⟨(Nat.log2_self_le (by omega)).trans Nat.left_le_or, ?_⟩
    exact Nat.or_lt_two_pow Nat.lt_log2_self (Nat.one_lt_two_pow (by omega))
  rw [roundDownToPowerOf2, highestOne, hlog, Nat.one_shiftLeft]

theorem roundDownToPowerOf2_le {x : ℕ} (hx : 0 < x) : roundDownToPowerOf2 x ≤ x := by
  rw [roundDownToPowerOf2_eq hx]
  exact Nat.log2_self_le (by omega)

theorem leftLen_pos (n : ℕ) : 0 < leftLen n := Nat.mul_pos (roundDownToPowerOf2_pos _) (by decide)

theorem leftLen_lt {n : ℕ} (h : chunkLen < n) : leftLen n < n := by
  have hle := roundDownToPowerOf2_le (x := (n - 1) / chunkLen) (Nat.div_pos (by omega) (by decide))
  have := (Nat.mul_le_mul_right chunkLen hle).trans (Nat.div_mul_le_self _ _)
  rw [← leftLen] at this
  omega

theorem simdDegree_pos (simd : Simd) : 0 < simdDegree simd := by cases simd <;> decide

def compressSubtreeWide (simd : Simd) (input : Bytes) (key : Words) (chunkCounter : ℕ) (flags : UInt8) : List Bytes :=
  if input.length ≤ simdDegree simd * chunkLen then compressChunksParallel input key chunkCounter flags
  else
    let leftInputLen := leftLen input.length
    let rightChunkCounter := chunkCounter + leftInputLen / chunkLen
    let degree := if leftInputLen > chunkLen ∧ simdDegree simd = 1 then 2 else simdDegree simd
    let left := compressSubtreeWide simd (input.take leftInputLen) key chunkCounter flags
    let right := compressSubtreeWide simd (input.drop leftInputLen) key rightChunkCounter flags
    let cvs := cvArray degree left right
    -- With a single value on the left the two are returned as they are, so that there are always two.
    if left.length = 1 then cvs.take 2
    else compressParentsParallel (cvs.take (left.length + right.length)) key flags
termination_by input.length
decreasing_by
  all_goals
    have hdegree := Nat.mul_le_mul_right chunkLen (simdDegree_pos simd)
    have hlt := leftLen_lt (n := input.length) (by omega)
    have hpos := leftLen_pos input.length
    simp only [List.length_take, List.length_drop]
    omega

theorem parentsArray_length (cvs : List Bytes) :
    2 * (parentsArray cvs).1.length + (parentsArray cvs).2.length = cvs.length ∧ (parentsArray cvs).2.length ≤ 1 := by
  fun_induction parentsArray cvs with
  | case1 left right cvs parents rest h ih =>
    simp only [h] at ih
    simp only [List.length_cons]
    omega
  | case2 cvs h =>
    cases cvs with
    | nil => simp
    | cons left cvs =>
      cases cvs with
      | nil => simp
      | cons right cvs => exact absurd rfl (h left right cvs)

theorem hashMany_length {inputs : List Bytes} {blocks : ℕ} {key : Words} {counter : ℕ} {incrementCounter : Bool}
    {flags flagsStart flagsEnd : UInt8} :
    (hashMany inputs blocks key counter incrementCounter flags flagsStart flagsEnd).length = inputs.length := by
  induction inputs generalizing counter with
  | nil => rfl
  | cons input inputs ih => rw [hashMany, List.length_cons, ih, List.length_cons]

theorem compressParentsParallel_length (cvs : List Bytes) (key : Words) (flags : UInt8) :
    (compressParentsParallel cvs key flags).length = (cvs.length + 1) / 2 := by
  have := parentsArray_length cvs
  rw [compressParentsParallel, List.length_append, hashMany_length]
  omega

/-- The loop that condenses the chaining values of a subtree down to two. -/
def condense (cvs : List Bytes) (key : Words) (flags : UInt8) : List Bytes :=
  if cvs.length > 2 then condense (compressParentsParallel cvs key flags) key flags else cvs
termination_by cvs.length
decreasing_by rw [compressParentsParallel_length]; omega

def compressSubtreeToParentNode (simd : Simd) (input : Bytes) (key : Words) (chunkCounter : ℕ) (flags : UInt8) : List Bytes :=
  (condense (compressSubtreeWide simd input key chunkCounter flags) key flags).take 2

structure Hasher where
  key : Words
  chunk : ChunkState
  cvStack : List Bytes
  deriving DecidableEq

def hasherInitBase (key : Words) (flags : UInt8) : Hasher := ⟨key, chunkStateInit key flags, []⟩

def hasherInit : Hasher := hasherInitBase iv 0

def hasherInitKeyed (key : Bytes) : Hasher := hasherInitBase (loadKeyWords key) Flag.keyedHash

/-- Two chaining values joined by a parent node. -/
def parentOf (key : Words) (flags : UInt8) (left right : Bytes) : Output := parentOutput (left ++ right) key flags

/-- The top two values are merged while there are more than there are bits set in the count. -/
def hasherMergeCvStack (self : Hasher) (totalLen : ℕ) : Hasher :=
  { self with cvStack := mergeTo outputChainingValue (parentOf self.key self.chunk.flags) (popcnt totalLen) self.cvStack }

def hasherPushCv (self : Hasher) (newCv : Bytes) (chunkCounter : ℕ) : Hasher :=
  let self := hasherMergeCvStack self chunkCounter
  { self with cvStack := newCv :: self.cvStack }

/-- The same, where the stack has room for `BLAKE3_MAX_DEPTH + 1` values and a write past its end does
whatever `overrun` does. -/
def hasherPushCvBounded (overrun : Hasher → Bytes → Hasher) (self : Hasher) (newCv : Bytes) (chunkCounter : ℕ) : Hasher :=
  let self := hasherMergeCvStack self chunkCounter
  if self.cvStack.length < maxDepth + 1 then { self with cvStack := newCv :: self.cvStack } else overrun self newCv

/-- Shrinks a subtree until it evenly divides the count so far. -/
def shrink (subtreeLen countSoFar : ℕ) : ℕ :=
  if (subtreeLen - 1) &&& countSoFar ≠ 0 then shrink (subtreeLen / 2) countSoFar else subtreeLen
termination_by subtreeLen
decreasing_by
  refine Nat.div_lt_self (Nat.pos_of_ne_zero ?_) (by omega)
  rintro rfl
  simp at *

theorem shrink_pos {n : ℕ} (hn : 0 < n) (count : ℕ) : 0 < shrink n count := by
  fun_induction shrink n count with
  | case1 n h ih =>
    refine ih (Nat.div_pos ?_ (by omega))
    by_contra hlt
    obtain rfl : n = 1 := by omega
    simp at h
  | case2 n h => exact hn

section Updates

variable (push : Hasher → Bytes → ℕ → Hasher)

/-- The subtree in front of the input is pushed: one chunk by itself, and more of them as a pair. -/
def hasherPushSubtree (simd : Simd) (self : Hasher) (input : Bytes) (subtreeLen : ℕ) : Hasher :=
  if subtreeLen ≤ chunkLen then
    let chunkState := chunkStateInitAt self.key self.chunk.flags self.chunk.chunkCounter
    let output := chunkStateOutput (chunkStateUpdate chunkState (input.take subtreeLen))
    push self (outputChainingValue output) self.chunk.chunkCounter
  else
    let cvPair := compressSubtreeToParentNode simd (input.take subtreeLen) self.key self.chunk.chunkCounter self.chunk.flags
    let self := push self (cvPair.getD 0 []) self.chunk.chunkCounter
    push self (cvPair.getD 1 []) (self.chunk.chunkCounter + subtreeLen / chunkLen / 2)

def hasherSkipChunks (self : Hasher) (chunks : ℕ) : Hasher :=
  { self with chunk := { self.chunk with chunkCounter := self.chunk.chunkCounter + chunks } }

/-- The loop over the subtrees of the input. What is left is no more than a chunk. -/
def hasherUpdateSubtrees (simd : Simd) (self : Hasher) (input : Bytes) : Hasher × Bytes :=
  if input.length > chunkLen then
    let subtreeLen := shrink (roundDownToPowerOf2 input.length) (self.chunk.chunkCounter * chunkLen)
    hasherUpdateSubtrees simd (hasherSkipChunks (hasherPushSubtree push simd self input subtreeLen) (subtreeLen / chunkLen))
      (input.drop subtreeLen)
  else (self, input)
termination_by input.length
decreasing_by
  have := shrink_pos (roundDownToPowerOf2_pos input.length) (self.chunk.chunkCounter * chunkLen)
  simp only [List.length_drop]
  omega

/-- The second part of `blake3_hasher_update`, where the chunk state is clear and there is more input. -/
def hasherUpdateClear (simd : Simd) (self : Hasher) (input : Bytes) : Hasher :=
  let (self, input) := hasherUpdateSubtrees push simd self input
  if input.length > 0 then
    let self := { self with chunk := chunkStateUpdate self.chunk input }
    hasherMergeCvStack self self.chunk.chunkCounter
  else self

/-- The chunk state is finished, pushed and cleared; it is not the root. -/
def hasherFinishChunk (self : Hasher) : Hasher :=
  let self := push self (outputChainingValue (chunkStateOutput self.chunk)) self.chunk.chunkCounter
  { self with chunk := chunkStateReset self.chunk self.key (self.chunk.chunkCounter + 1) }

def hasherUpdate (simd : Simd) (self : Hasher) (input : Bytes) : Hasher :=
  if input.length = 0 then self
  else if chunkStateLen self.chunk > 0 then
    let take := chunkLen - chunkStateLen self.chunk
    let take := if take > input.length then input.length else take
    let self := { self with chunk := chunkStateUpdate self.chunk (input.take take) }
    let input := input.drop take
    if input.length > 0 then hasherUpdateClear push simd (hasherFinishChunk push self) input else self
  else hasherUpdateClear push simd self input

end Updates

/-- The node at the root of everything absorbed. -/
def hasherRoot (self : Hasher) : Output :=
  if self.cvStack.length = 0 then chunkStateOutput self.chunk
  else if chunkStateLen self.chunk > 0 then
    rollUp outputChainingValue (parentOf self.key self.chunk.flags) (chunkStateOutput self.chunk) self.cvStack
  else
    let output := parentOf self.key self.chunk.flags (self.cvStack.getD 1 []) (self.cvStack.getD 0 [])
    rollUp outputChainingValue (parentOf self.key self.chunk.flags) output (self.cvStack.drop 2)

def hasherFinalizeSeek (self : Hasher) (seek outLen : ℕ) : Bytes :=
  if outLen = 0 then [] else outputRootBytes (hasherRoot self) seek outLen

def hasherFinalize (self : Hasher) (outLen : ℕ) : Bytes := hasherFinalizeSeek self 0 outLen

/-- The key of a derivation is the hash of its context. -/
def hasherInitDeriveKeyRaw (simd : Simd) (context : Bytes) : Hasher :=
  let contextHasher := hasherUpdate hasherPushCv simd (hasherInitBase iv Flag.deriveKeyContext) context
  hasherInitBase (loadKeyWords (hasherFinalize contextHasher 32)) Flag.deriveKeyMaterial

end LumoSql.Blake3
