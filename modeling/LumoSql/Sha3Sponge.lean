import LumoSql.KeccakPermutation
import Mathlib.Data.List.TakeDrop

/-! The SHA3 hashes: bytes are added to the state one by one or eight at a time, on machines
of either byte order. The code keeps the state in words and addresses it by bytes too. -/
namespace LumoSql.Keccak

/-- Eight bytes as the word they are in memory with the low byte first; bytes that are missing count as zero. -/
def leWord (bytes : Bytes) : UInt64 :=
  (List.range 8).foldl (fun w i => w ^^^ (bytes.getD i 0).toUInt64 <<< (8 * i).toUInt64) 0

section Sponge

def absorbBlock (A : State) (block : Bytes) : State :=
  keccakF fun x y => A x y ^^^ leWord (block.drop (8 * (5 * y.val + x.val)))

/-- The state after the first blocks of a message. -/
def absorbed (rate : ℕ) (message : Bytes) : ℕ → State
  | 0 => fun _ _ => 0
  | k + 1 => absorbBlock (absorbed rate message k) ((message.drop (rate * k)).take rate)

/-- The suffix `01` of the hash functions and the padding `10*1`. -/
def padding (rate length : ℕ) : Bytes :=
  if length % rate = rate - 1 then [0x86] else [0x06] ++ List.replicate (rate - 2 - length % rate) 0 ++ [0x80]

/-- The first bytes of the sponge over a message. -/
def sponge (rate : ℕ) (message : Bytes) (n : ℕ) : Bytes :=
  let padded := message ++ padding rate message.length
  (List.range n).map (stateByte (absorbed rate padded (padded.length / rate)))

end Sponge

section Code

/-- What is known of the byte order at compile time; where nothing is, the machine has one all the same. -/
inductive ByteOrder | little | big | unknown (bigEndian : Bool) deriving DecidableEq

def ByteOrder.bigEndian : ByteOrder → Bool
  | .little => false
  | .big => true
  | .unknown bigEndian => bigEndian

/-- Added to the place of a byte in the context. -/
def ByteOrder.ixMask : ByteOrder → ℕ
  | .little => 0
  | .big => 7
  | .unknown bigEndian => if bigEndian then 7 else 0

structure Sha3Context where
  s : Lanes
  nRate : ℕ
  nLoaded : ℕ
  ixMask : ℕ

/-- Which byte of its word the byte `x[i]` is. -/
def bytePlace (bigEndian : Bool) (i : ℕ) : ℕ := if bigEndian then 7 - i % 8 else i % 8

def xorWord (s : Lanes) (j : ℕ) (w : UInt64) : Lanes := Vector.ofFn fun k => if k.val = j then s[k] ^^^ w else s[k]

def xorByte (bigEndian : Bool) (s : Lanes) (i : ℕ) (v : UInt8) : Lanes :=
  xorWord s (i / 8) (v.toUInt64 <<< (8 * bytePlace bigEndian i).toUInt64)

def byteAt (bigEndian : Bool) (s : Lanes) (i : ℕ) : UInt8 :=
  ((s.toList.getD (i / 8) 0) >>> (8 * bytePlace bigEndian i).toUInt64).toUInt8

def sha3Rate (iSize : ℕ) : ℕ :=
  if iSize ≥ 128 ∧ iSize ≤ 512 then (1600 - (iSize + 31) / 32 * 32 * 2) / 8 else (1600 - 2 * 256) / 8

def sha3Init (order : ByteOrder) (iSize : ℕ) : Sha3Context where
  s := Vector.replicate 25 0
  nRate := sha3Rate iSize
  nLoaded := 0
  ixMask := order.ixMask

/-- The loop that adds whole words; what it leaves is returned too. -/
def sha3UpdateWords (p : Sha3Context) (aData : Bytes) : Sha3Context × Bytes :=
  if aData.length > 7 then
    let s := xorWord p.s (p.nLoaded / 8) (leWord aData)
    let nLoaded := p.nLoaded + 8
    if nLoaded ≥ p.nRate then sha3UpdateWords { p with s := keccakF1600Step s, nLoaded := 0 } (aData.drop 8)
    else sha3UpdateWords { p with s, nLoaded } (aData.drop 8)
  else (p, aData)
termination_by aData.length
decreasing_by all_goals simp only [List.length_drop]; omega

def xorNextByte (order : ByteOrder) (p : Sha3Context) (v : UInt8) : Lanes :=
  match order with
  | .little => xorByte false p.s p.nLoaded v
  | .big => xorByte true p.s (p.nLoaded ^^^ 7) v
  | .unknown bigEndian => xorByte bigEndian p.s (p.nLoaded ^^^ p.ixMask) v

def sha3UpdateByte (order : ByteOrder) (p : Sha3Context) (v : UInt8) : Sha3Context :=
  let s := xorNextByte order p v
  let nLoaded := p.nLoaded + 1
  if nLoaded = p.nRate then { p with s := keccakF1600Step s, nLoaded := 0 } else { p with s, nLoaded }

/-- `aligned` tells whether the data starts at a multiple of eight. -/
def sha3Update (order : ByteOrder) (aligned : Bool) (p : Sha3Context) (aData : Bytes) : Sha3Context :=
  if order = .little ∧ p.nLoaded % 8 = 0 ∧ aligned then
    let (p, aData) := sha3UpdateWords p aData
    aData.foldl (sha3UpdateByte order) p
  else aData.foldl (sha3UpdateByte order) p

/-- The padding; single bytes are never added as words, whatever their address. -/
def sha3Pad (order : ByteOrder) (p : Sha3Context) : Sha3Context :=
  if p.nLoaded = p.nRate - 1 then sha3Update order false p [0x86]
  else
    let p := sha3Update order false p [0x06]
    sha3Update order false { p with nLoaded := p.nRate - 1 } [0x80]

/-- The hash value, as many bytes as a block has. -/
def sha3Final (order : ByteOrder) (p : Sha3Context) : Bytes :=
  let p := sha3Pad order p
  (List.range p.nRate).map fun i => byteAt order.bigEndian p.s (i ^^^ p.ixMask)

end Code

end LumoSql.Keccak
