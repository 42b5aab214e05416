import LumoSql.SqliteRecordFormat
import Mathlib.Data.List.TakeDrop

/-! The BLAKE3 compression function and the hashing of single chunks. Counters are
natural numbers, and what the portable code keeps in arrays is lists of bytes. -/
namespace LumoSql.Blake3

def blockLen : ℕ := 64
def chunkLen : ℕ := 1024
def maxDepth : ℕ := 54

namespace Flag

def chunkStart : UInt8 := (1 : UInt8) <<< 0
def chunkEnd : UInt8 := (1 : UInt8) <<< 1
def parent : UInt8 := (1 : UInt8) <<< 2
def root : UInt8 := (1 : UInt8) <<< 3
def keyedHash : UInt8 := (1 : UInt8) <<< 4
def deriveKeyContext : UInt8 := (1 : UInt8) <<< 5
def deriveKeyMaterial : UInt8 := (1 : UInt8) <<< 6

end Flag

abbrev Words := Vector UInt32 8

def iv : Words := #v[0x6A09E667, 0xBB67AE85, 0x3C6EF372, 0xA54FF53A, 0x510E527F, 0x9B05688C, 0x1F83D9AB, 0x5BE0CD19]

def msgSchedule : Vector (Vector (Fin 16) 16) 7 := #v[
  #v[0, 1, 2, 3, 4, 5, 6, 7, 8, 9, 10, 11, 12, 13, 14, 15],
  #v[2, 6, 3, 10, 7, 0, 4, 13, 1, 11, 12, 5, 9, 14, 15, 8],
  #v[3, 4, 10, 12, 13, 2, 7, 14, 6, 5, 9, 0, 11, 15, 8, 1],
  #v[10, 7, 12, 9, 14, 3, 13, 15, 4, 0, 11, 2, 5, 8, 1, 6],
  #v[12, 13, 9, 11, 15, 10, 14, 8, 7, 2, 5, 3, 0, 1, 6, 4],
  #v[9, 14, 11, 5, 8, 12, 15, 1, 13, 3, 0, 10, 2, 6, 4, 7],
  #v[11, 15, 5, 0, 1, 9, 8, 6, 14, 10, 2, 12, 3, 4, 7, 13]]

def rotr32 (w c : UInt32) : UInt32 := (w >>> c) ||| (w <<< (32 - c))

def g (state : Vector UInt32 16) (a b c d : Fin 16) (x y : UInt32) : Vector UInt32 16 :=
  let state := state.set a (state[a] + state[b] + x)
  let state := state.set d (rotr32 (state[d] ^^^ state[a]) 16)
  let state := state.set c (state[c] + state[d])
  let state := state.set b (rotr32 (state[b] ^^^ state[c]) 12)
  let state := state.set a (state[a] + state[b] + y)
  let state := state.set d (rotr32 (state[d] ^^^ state[a]) 8)
  let state := state.set c (state[c] + state[d])
  state.set b (rotr32 (state[b] ^^^ state[c]) 7)

def roundFn (state msg : Vector UInt32 16) (round : Fin 7) : Vector UInt32 16 :=
  let m (i : Fin 16) : UInt32 := msg[msgSchedule[round][i]]
  -- Mix the columns.
  let state := g state 0 4 8 12 (m 0) (m 1)
  let state := g state 1 5 9 13 (m 2) (m 3)
  let state := g state 2 6 10 14 (m 4) (m 5)
  let state := g state 3 7 11 15 (m 6) (m 7)
  -- Mix the rows.
  let state := g state 0 5 10 15 (m 8) (m 9)
  let state := g state 1 6 11 12 (m 10) (m 11)
  let state := g state 2 7 8 13 (m 12) (m 13)
  g state 3 4 9 14 (m 14) (m 15)

def counterLow (counter : ℕ) : UInt32 := counter.toUInt32
def counterHigh (counter : ℕ) : UInt32 := (counter >>> 32).toUInt32

def load32 (src : Bytes) : UInt32 :=
  let p (i : ℕ) : UInt32 := (src.getD i 0).toUInt32
  (p 0 <<< 0) ||| (p 1 <<< 8) ||| (p 2 <<< 16) ||| (p 3 <<< 24)

def store32 (w : UInt32) : Bytes := [(w >>> 0).toUInt8, (w >>> 8).toUInt8, (w >>> 16).toUInt8, (w >>> 24).toUInt8]

def loadKeyWords (key : Bytes) : Words := Vector.ofFn fun i => load32 (key.drop (i * 4))

def storeCvWords (cv : Words) : Bytes := cv.toList.flatMap store32

def compressPre (cv : Words) (block : Bytes) (blockLen counter : ℕ) (flags : UInt8) : Vector UInt32 16 :=
  let blockWords : Vector UInt32 16 := Vector.ofFn fun i => load32 (block.drop (4 * i))
  let state : Vector UInt32 16 := #v[
    cv[0], cv[1], cv[2], cv[3], cv[4], cv[5], cv[6], cv[7], iv[0], iv[1], iv[2], iv[3],
    counterLow counter, counterHigh counter, blockLen.toUInt32, flags.toUInt32]
  (List.finRange 7).foldl (fun state round => roundFn state blockWords round) state

/-- The two halves of the last state. -/
def compressInPlace (cv : Words) (block : Bytes) (blockLen counter : ℕ) (flags : UInt8) : Words :=
  let state := compressPre cv block blockLen counter flags
  Vector.ofFn fun i => state[i.val] ^^^ state[i.val + 8]

def compressXof (cv : Words) (block : Bytes) (blockLen counter : ℕ) (flags : UInt8) : Bytes :=
  let state := compressPre cv block blockLen counter flags
  storeCvWords (Vector.ofFn fun i => state[i.val] ^^^ state[i.val + 8]) ++
    storeCvWords (Vector.ofFn fun i => state[i.val + 8] ^^^ cv[i])

theorem store32_length (w : UInt32) : (store32 w).length = 4 := rfl

theorem storeCvWords_length (cv : Words) : (storeCvWords cv).length = 32 := by
  rw [storeCvWords, List.length_flatMap]
  simp [store32_length]

theorem compressXof_length (cv : Words) (block : Bytes) (blockLen counter : ℕ) (flags : UInt8) :
    (compressXof cv block blockLen counter flags).length = 64 := by
  simp [compressXof, storeCvWords_length]

/-- A node that has not been compressed yet; what it gives depends on whether it is the root. -/
structure Output where
  inputCv : Words
  block : Bytes
  blockLen : ℕ
  counter : ℕ
  flags : UInt8
  deriving DecidableEq, Inhabited

def outputChainingValue (self : Output) : Bytes :=
  storeCvWords (compressInPlace self.inputCv self.block self.blockLen self.counter self.flags)

theorem outputChainingValue_length (self : Output) : (outputChainingValue self).length = 32 := storeCvWords_length _

/-- The loop of `output_root_bytes`, from a block of the output and an offset in it. -/
def outputRootBytesFrom (self : Output) (outputBlockCounter : ℕ) (offsetWithinBlock : Fin 64) (outLen : ℕ) : Bytes :=
  if outLen = 0 then []
  else
    let wideBuf := compressXof self.inputCv self.block self.blockLen outputBlockCounter (self.flags ||| Flag.root)
    let availableBytes := 64 - offsetWithinBlock.val
    let memcpyLen := if outLen > availableBytes then availableBytes else outLen
    (wideBuf.drop offsetWithinBlock).take memcpyLen ++
      outputRootBytesFrom self (outputBlockCounter + 1) 0 (outLen - memcpyLen)
termination_by outLen
decreasing_by split <;> omega

def outputRootBytes (self : Output) (seek outLen : ℕ) : Bytes :=
  outputRootBytesFrom self (seek / 64) ⟨seek % 64, Nat.mod_lt _ (by omega)⟩ outLen

/-- One byte of the endless output of a root node. -/
def rootByte (self : Output) (i : ℕ) : UInt8 :=
  (compressXof self.inputCv self.block self.blockLen (i / 64) (self.flags ||| Flag.root)).getD (i % 64) 0

def parentOutput (block : Bytes) (key : Words) (flags : UInt8) : Output := ⟨key, block, blockLen, 0, flags ||| Flag.parent⟩

structure ChunkState where
  cv : Words
  chunkCounter : ℕ
  buf : Bytes
  bufLen : ℕ
  blocksCompressed : ℕ
  flags : UInt8
  deriving DecidableEq

def chunkStateInit (key : Words) (flags : UInt8) : ChunkState := ⟨key, 0, List.replicate blockLen 0, 0, 0, flags⟩

/-- A fresh chunk state for the chunk with a given counter. -/
def chunkStateInitAt (key : Words) (flags : UInt8) (chunkCounter : ℕ) : ChunkState :=
  { chunkStateInit key flags with chunkCounter }

def chunkStateReset (self : ChunkState) (key : Words) (chunkCounter : ℕ) : ChunkState :=
  ⟨key, chunkCounter, List.replicate blockLen 0, 0, 0, self.flags⟩

def chunkStateLen (self : ChunkState) : ℕ := blockLen * self.blocksCompressed + self.bufLen

/-- Fills the buffer; the number of bytes taken is returned too. -/
def chunkStateFillBuf (self : ChunkState) (input : Bytes) : ChunkState × ℕ :=
  let take := blockLen - self.bufLen
  let take := if take > input.length then input.length else take
  ({ self with
      buf := self.buf.take self.bufLen ++ input.take take ++ self.buf.drop (self.bufLen + take)
      bufLen := self.bufLen + take }, take)

def chunkStateMaybeStartFlag (self : ChunkState) : UInt8 := if self.blocksCompressed = 0 then Flag.chunkStart else 0

/-- Compresses one whole block into the chaining value. -/
def chunkStateCompress (self : ChunkState) (block : Bytes) : ChunkState :=
  { self with
    cv := compressInPlace self.cv block blockLen self.chunkCounter (self.flags ||| chunkStateMaybeStartFlag self)
    blocksCompressed := self.blocksCompressed + 1 }

/-- The loop of `chunk_state_update`, which leaves the last block in the input. -/
def chunkStateUpdateBlocks (self : ChunkState) (input : Bytes) : ChunkState × Bytes :=
  if input.length > blockLen then
    chunkStateUpdateBlocks (chunkStateCompress self (input.take blockLen)) (input.drop blockLen)
  else (self, input)
termination_by input.length
decreasing_by simp only [List.length_drop, blockLen] at *; omega

def chunkStateUpdate (self : ChunkState) (input : Bytes) : ChunkState :=
  let (self, input) :=
    if self.bufLen > 0 then
      let (self, take) := chunkStateFillBuf self input
      let input := input.drop take
      if input.length > 0 then
        ({ chunkStateCompress self self.buf with bufLen := 0, buf := List.replicate blockLen 0 }, input)
      else (self, input)
    else (self, input)
  let (self, input) := chunkStateUpdateBlocks self input
  (chunkStateFillBuf self input).1

def chunkStateOutput (self : ChunkState) : Output :=
  ⟨self.cv, self.buf, self.bufLen, self.chunkCounter, self.flags ||| chunkStateMaybeStartFlag self ||| Flag.chunkEnd⟩

/-- The loop of `hash_one_portable`. -/
def hashOneBlocks (cv : Words) (input : Bytes) (counter : ℕ) (flags flagsEnd blockFlags : UInt8) : ℕ → Words
  | 0 => cv
  | blocks + 1 =>
    let blockFlags := if blocks = 0 then blockFlags ||| flagsEnd else blockFlags
    hashOneBlocks (compressInPlace cv (input.take blockLen) blockLen counter blockFlags) (input.drop blockLen)
      counter flags flagsEnd flags blocks

def hashOne (input : Bytes) (blocks : ℕ) (key : Words) (counter : ℕ) (flags flagsStart flagsEnd : UInt8) : Bytes :=
  storeCvWords (hashOneBlocks key input counter flags flagsEnd (flags ||| flagsStart) blocks)

def hashMany (inputs : List Bytes) (blocks : ℕ) (key : Words) (counter : ℕ) (incrementCounter : Bool)
    (flags flagsStart flagsEnd : UInt8) : List Bytes :=
  match inputs with
  | [] => []
  | input :: inputs => hashOne input blocks key counter flags flagsStart flagsEnd ::
      hashMany inputs blocks key (if incrementCounter then counter + 1 else counter) incrementCounter flags flagsStart flagsEnd

end LumoSql.Blake3
