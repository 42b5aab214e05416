import LumoSql.Blake3Hasher

/-! What the chunk state holds after any sequence of updates, and that hashing whole
chunks at once gives the same chaining values. -/
namespace LumoSql.Blake3

section Chunks

variable (key : Words) (flags : UInt8) (counter : ℕ)

/-- The chaining value after the first `m` blocks of a chunk. -/
def chunkCv (bytes : Bytes) : ℕ → Words
  | 0 => key
  | m + 1 => compressInPlace (chunkCv bytes m) ((bytes.drop (blockLen * m)).take blockLen) blockLen counter
      (flags ||| if m = 0 then Flag.chunkStart else 0)

/-- The chunk state with `m` blocks compressed and the other bytes held back. -/
def chunkAt (bytes : Bytes) (m : ℕ) : ChunkState :=
  let held := bytes.drop (blockLen * m)
  ⟨chunkCv key flags counter bytes m, counter, held ++ List.replicate (blockLen - held.length) 0, held.length, m, flags⟩

/-- The last block is held back, even where it is full. -/
def chunkStateOf (bytes : Bytes) : ChunkState := chunkAt key flags counter bytes ((bytes.length - 1) / blockLen)

def chunkOutput (bytes : Bytes) : Output := chunkStateOutput (chunkStateOf key flags counter bytes)

variable {key flags counter} {bytes input : Bytes} {m : ℕ}

theorem chunkCv_append (h : blockLen * m ≤ bytes.length) (more : Bytes) :
    chunkCv key flags counter (bytes ++ more) m = chunkCv key flags counter bytes m := by
  induction m with
  | zero => rfl
  | succ m ih =>
    rw [Nat.mul_succ] at h
    rw [chunkCv, chunkCv, ih (by omega), List.drop_append_of_le_length (by omega),
      List.take_append_of_le_length (by rw [List.length_drop]; omega)]

@[simp] theorem chunkStateOf_flags : (chunkStateOf key flags counter bytes).flags = flags := rfl

@[simp] theorem chunkStateOf_chunkCounter : (chunkStateOf key flags counter bytes).chunkCounter = counter := rfl

theorem chunkStateInitAt_eq : chunkStateInitAt key flags counter = chunkStateOf key flags counter [] := rfl

theorem chunkStateLen_at (h : blockLen * m ≤ bytes.length) : chunkStateLen (chunkAt key flags counter bytes m) = bytes.length := by
  simp only [chunkStateLen, chunkAt, List.length_drop]
  omega

theorem chunkStateLen_of (bytes : Bytes) : chunkStateLen (chunkStateOf key flags counter bytes) = bytes.length := by
  refine chunkStateLen_at ?_
  have := Nat.div_mul_le_self (bytes.length - 1) blockLen
  rw [Nat.mul_comm] at this
  omega

/-- Filling the buffer moves bytes of the input behind those held back. -/
theorem fillBuf_at {k : ℕ} (h : blockLen * m ≤ bytes.length) (hk : bytes.length + k = blockLen * m + blockLen) :
    chunkStateFillBuf (chunkAt key flags counter bytes m) input =
      (chunkAt key flags counter (bytes ++ input.take k) m, min k input.length) := by
  have hheld : (bytes.drop (blockLen * m)).length = blockLen - k := by rw [List.length_drop]; omega
  have hk' : k ≤ blockLen := by omega
  have htake : (if k > input.length then input.length else k) = min k input.length := by
    split <;> omega
  have hroom : blockLen - (blockLen - k) = k := by omega
  have hbuf : (bytes.drop (blockLen * m) ++ List.replicate k (0 : UInt8)).drop (blockLen - k + min k input.length) =
      List.replicate (k - min k input.length) 0 := by
    rw [← hheld, List.drop_append, List.drop_replicate, List.drop_eq_nil_of_le (Nat.le_add_right _ _), Nat.add_sub_cancel_left,
      List.nil_append]
  rw [chunkStateFillBuf]
  simp only [chunkAt, hheld, hroom, htake, List.take_left' hheld, hbuf, chunkCv_append h]
  rw [List.drop_append_of_le_length h, List.length_append, hheld, List.length_take, ← List.take_eq_take_min]
  congr 2
  simp only [List.append_assoc]
  congr 3
  omega

/-- A block of the input is compressed from where it is. -/
theorem compress_at {block : Bytes} (h : bytes.length = blockLen * m) (hblock : block.length = blockLen) :
    chunkStateCompress (chunkAt key flags counter bytes m) block = chunkAt key flags counter (bytes ++ block) (m + 1) := by
  have hcv : chunkCv key flags counter (bytes ++ block) (m + 1) =
      compressInPlace (chunkCv key flags counter bytes m) block blockLen counter
        (flags ||| if m = 0 then Flag.chunkStart else 0) := by
    rw [chunkCv, chunkCv_append (by omega), List.drop_left' h, List.take_of_length_le (by omega)]
  have hlen : (bytes ++ block).length ≤ blockLen * (m + 1) := by
    rw [List.length_append, h, hblock, Nat.mul_succ]
  simp only [chunkStateCompress, chunkAt, hcv, chunkStateMaybeStartFlag, List.drop_eq_nil_of_le hlen,
    List.drop_eq_nil_of_le (Nat.le_of_eq h)]

/-- A buffer that is full is compressed and cleared. -/
theorem compress_full (h : bytes.length = blockLen * m + blockLen) :
    { chunkStateCompress (chunkAt key flags counter bytes m) (chunkAt key flags counter bytes m).buf with
      bufLen := 0, buf := List.replicate blockLen 0 } = chunkAt key flags counter bytes (m + 1) := by
  have hheld : (bytes.drop (blockLen * m)).length = blockLen := by rw [List.length_drop]; omega
  have hlen : bytes.length ≤ blockLen * (m + 1) := by rw [h, Nat.mul_succ]
  simp only [chunkStateCompress, chunkAt, chunkStateMaybeStartFlag, hheld, Nat.sub_self, List.replicate_zero,
    List.append_nil, List.drop_eq_nil_of_le hlen, List.length_nil, Nat.sub_zero, List.nil_append]
  congr 2
  rw [List.take_of_length_le (by omega)]

theorem chunkStateOf_at (hle : bytes.length ≤ blockLen * m + blockLen) (h : m = 0 ∨ blockLen * m < bytes.length) :
    chunkAt key flags counter bytes m = chunkStateOf key flags counter bytes := by
  have hm : (bytes.length - 1) / blockLen = m := by
    simp only [blockLen] at *
    omega
  rw [chunkStateOf, hm]

/-- The loop compresses whole blocks and leaves at least a byte of the input. -/
theorem updateBlocks_at (h : bytes.length = blockLen * m) (hpos : m = 0 ∨ 0 < input.length) :
    (chunkStateFillBuf (chunkStateUpdateBlocks (chunkAt key flags counter bytes m) input).1
      (chunkStateUpdateBlocks (chunkAt key flags counter bytes m) input).2).1 =
        chunkStateOf key flags counter (bytes ++ input) := by
  induction hn : input.length using Nat.strongRecOn generalizing bytes m input with
  | ind n ih =>
    subst hn
    rw [chunkStateUpdateBlocks]
    by_cases hlong : input.length > blockLen
    · have hblock : (input.take blockLen).length = blockLen := by rw [List.length_take]; omega
      have hrest : (input.drop blockLen).length < input.length := by
        rw [List.length_drop]
        exact Nat.sub_lt (by omega) (by decide)
      rw [if_pos hlong, compress_at h hblock, ih _ hrest (by rw [List.length_append, h, hblock, Nat.mul_succ])
        (.inr (by rw [List.length_drop]; omega)) rfl, List.append_assoc, List.take_append_drop]
    · rw [if_neg hlong]
      dsimp only
      rw [fillBuf_at (k := blockLen) (by omega) (by omega), List.take_of_length_le (by omega)]
      refine chunkStateOf_at (by rw [List.length_append]; omega) ?_
      exact hpos.imp_right fun hpos => by rw [List.length_append]; omega

/-- The chunk state depends on the bytes it was given, not on how they were split. -/
theorem chunkStateUpdate_of (bytes input : Bytes) :
    chunkStateUpdate (chunkStateOf key flags counter bytes) input = chunkStateOf key flags counter (bytes ++ input) := by
  have hmod := Nat.div_add_mod (bytes.length - 1) blockLen
  have hlt := Nat.mod_lt (bytes.length - 1) (by decide : 0 < blockLen)
  rw [chunkStateOf]
  generalize hm : (bytes.length - 1) / blockLen = m at *
  have hheld : (chunkAt key flags counter bytes m).bufLen = bytes.length - blockLen * m := List.length_drop
  rw [chunkStateUpdate, hheld]
  by_cases hzero : bytes.length - blockLen * m = 0
  · have hempty : bytes = [] := List.eq_nil_of_length_eq_zero (by omega)
    subst hempty
    simp only [List.length_nil] at hm
    have hm0 : m = 0 := by rw [← hm]; rfl
    rw [if_neg (by omega)]
    exact updateBlocks_at (by rw [hm0]; rfl) (.inl hm0)
  · obtain ⟨k, hk⟩ : ∃ k, bytes.length + k = blockLen * m + blockLen := ⟨blockLen * m + blockLen - bytes.length, by omega⟩
    rw [if_pos (by omega), fillBuf_at (by omega) hk]
    simp only [List.length_drop]
    by_cases hmore : input.length - min k input.length > 0
    · have hmin : min k input.length = k := by omega
      have hfull : (bytes ++ input.take k).length = blockLen * m + blockLen := by
        rw [List.length_append, List.length_take, hmin, hk]
      rw [if_pos hmore, hmin, compress_full hfull,
        updateBlocks_at (by rw [hfull, Nat.mul_succ]) (.inr (by rw [List.length_drop]; omega)),
        List.append_assoc, List.take_append_drop]
    · have hall : input.length ≤ k := by omega
      rw [if_neg hmore, Nat.min_eq_right hall, List.drop_eq_nil_of_le (Nat.le_refl _), List.take_of_length_le hall]
      have hlen : (bytes ++ input).length + (k - input.length) = blockLen * m + blockLen := by
        rw [List.length_append]; omega
      rw [chunkStateUpdateBlocks, if_neg (by simp)]
      dsimp only
      rw [fillBuf_at (by omega) hlen, List.take_nil, List.append_nil]
      exact chunkStateOf_at (by omega) (.inr (by rw [List.length_append]; omega))

theorem hashOneBlocks_at (key : Words) (flags : UInt8) (counter : ℕ) (bytes : Bytes) (m n : ℕ) :
    hashOneBlocks (chunkCv key flags counter bytes m) (bytes.drop (blockLen * m)) counter flags Flag.chunkEnd
        (flags ||| if m = 0 then Flag.chunkStart else 0) (n + 1) =
      compressInPlace (chunkCv key flags counter bytes (m + n)) ((bytes.drop (blockLen * (m + n))).take blockLen) blockLen
        counter ((flags ||| if m + n = 0 then Flag.chunkStart else 0) ||| Flag.chunkEnd) := by
  induction n generalizing m with
  | zero => rfl
  | succ n ih =>
    have hflags : flags = flags ||| if m + 1 = 0 then Flag.chunkStart else 0 := by simp
    have hnext := ih (m + 1)
    rw [← hflags, Nat.add_right_comm, Nat.add_assoc] at hnext
    rw [hashOneBlocks, if_neg (Nat.succ_ne_zero n), List.drop_drop, ← Nat.mul_succ]
    exact hnext

/-- A whole chunk hashed in one go has the chaining value that the chunk state gives. -/
theorem hashOne_chunk (h : bytes.length = chunkLen) :
    hashOne bytes (chunkLen / blockLen) key counter flags Flag.chunkStart Flag.chunkEnd =
      outputChainingValue (chunkOutput key flags counter bytes) := by
  have hblocks := hashOneBlocks_at key flags counter bytes 0 15
  have hm : (bytes.length - 1) / blockLen = 15 := by rw [h]; rfl
  have hheld : (bytes.drop (blockLen * 15)).length = blockLen := by rw [List.length_drop, h]; rfl
  rw [hashOne, show chunkLen / blockLen = 15 + 1 from rfl]
  simp only [chunkOutput, chunkStateOf, hm, chunkStateOutput, chunkAt, hheld, Nat.sub_self, List.replicate_zero,
    List.append_nil, outputChainingValue, chunkStateMaybeStartFlag]
  refine congrArg storeCvWords (hblocks.trans ?_)
  rw [List.take_of_length_le (by rw [Nat.zero_add]; omega), Nat.zero_add]

variable (key flags counter) in
/-- The chunks of a message, with the counters they have in it. -/
def leaves (counter : ℕ) (bytes : Bytes) : List Output :=
  if bytes.length = 0 then []
  else chunkOutput key flags counter (bytes.take chunkLen) :: leaves (counter + 1) (bytes.drop chunkLen)
termination_by bytes.length
decreasing_by
  simp only [List.length_drop]
  exact Nat.sub_lt (by omega) (by decide)

@[simp] theorem leaves_nil : leaves key flags counter [] = [] := by simp [leaves]

theorem leaves_chunk {more : Bytes} (h : bytes.length = chunkLen) :
    leaves key flags counter (bytes ++ more) = chunkOutput key flags counter bytes :: leaves key flags (counter + 1) more := by
  rw [leaves, if_neg (by rw [List.length_append, h, chunkLen]; omega), List.take_left' h, List.drop_left' h]

theorem leaves_last (hpos : 0 < bytes.length) (h : bytes.length ≤ chunkLen) :
    leaves key flags counter bytes = [chunkOutput key flags counter bytes] := by
  rw [leaves, if_neg (by omega), List.take_of_length_le h, List.drop_eq_nil_of_le h, leaves_nil]

theorem leaves_append {n : ℕ} {more : Bytes} (h : bytes.length = n * chunkLen) :
    leaves key flags counter (bytes ++ more) = leaves key flags counter bytes ++ leaves key flags (counter + n) more := by
  induction n generalizing bytes counter with
  | zero =>
    obtain rfl : bytes = [] := List.eq_nil_of_length_eq_zero (by omega)
    simp
  | succ n ih =>
    obtain ⟨us, vs, rfl, hus, hvs⟩ := MergeTrees.exists_group h
    rw [List.append_assoc, leaves_chunk hus, ih hvs, leaves_chunk hus, Nat.add_right_comm, Nat.add_assoc, List.cons_append]

theorem leaves_length {n : ℕ} (h : bytes.length = n * chunkLen) : (leaves key flags counter bytes).length = n := by
  induction n generalizing bytes counter with
  | zero =>
    obtain rfl : bytes = [] := List.eq_nil_of_length_eq_zero (by omega)
    simp
  | succ n ih =>
    obtain ⟨us, vs, rfl, hus, hvs⟩ := MergeTrees.exists_group h
    rw [leaves_chunk hus, List.length_cons, ih hvs]

theorem compressChunksParallel_chunk (h : bytes.length = chunkLen) (more : Bytes) :
    compressChunksParallel (bytes ++ more) key counter flags =
      outputChainingValue (chunkOutput key flags counter bytes) :: compressChunksParallel more key (counter + 1) flags := by
  have hlong : (bytes ++ more).length ≥ chunkLen := by rw [List.length_append]; omega
  rw [compressChunksParallel, chunksArray, if_pos hlong, List.take_left' h, List.drop_left' h, compressChunksParallel]
  simp only [hashMany, hashOne_chunk h, List.length_cons, if_true, List.cons_append, Nat.add_assoc, Nat.add_comm 1]
  exact (apply_ite (List.cons _) _ _ _).symm

/-- The chunks hashed side by side are the chunks hashed one after the other. -/
theorem compressChunksParallel_eq (input : Bytes) :
    compressChunksParallel input key counter flags = (leaves key flags counter input).map outputChainingValue := by
  induction hn : input.length using Nat.strongRecOn generalizing input counter with
  | ind n ih =>
    subst hn
    by_cases hlong : input.length ≥ chunkLen
    · have hchunk : (input.take chunkLen).length = chunkLen := by rw [List.length_take]; omega
      have hrest : (input.drop chunkLen).length < input.length := by
        rw [List.length_drop]
        exact Nat.sub_lt (Nat.lt_of_lt_of_le (by decide) hlong) (by decide)
      conv => lhs; rw [← List.take_append_drop chunkLen input]
      conv => rhs; rw [← List.take_append_drop chunkLen input]
      rw [compressChunksParallel_chunk hchunk, leaves_chunk hchunk, ih _ hrest _ rfl, List.map_cons]
    · rw [compressChunksParallel, chunksArray, if_neg hlong]
      dsimp only
      by_cases hpos : input.length > 0
      · rw [if_pos hpos, leaves_last hpos (by omega), chunkStateInitAt_eq, chunkStateUpdate_of]
        rfl
      · obtain rfl : input = [] := List.eq_nil_of_length_eq_zero (by omega)
        rw [if_neg hpos, leaves_nil]
        rfl

end Chunks

end LumoSql.Blake3
