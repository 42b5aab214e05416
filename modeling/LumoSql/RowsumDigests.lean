import LumoSql.RowsumAlgorithms
import LumoSql.Blake3Trees
import LumoSql.Sha3Updates

/-! The hash functions compiled into the extension, as its table of algorithms uses them. -/
namespace LumoSql.RowsumAlgorithms
open Keccak Blake3

section Sha3

variable (order : ByteOrder) (k : ℕ)

def lumoInitSha3 : Sha3Context := sha3Init order k

def lumoUpdateSha3 (aligned : Bool) (ctx : Sha3Context) (p : Bytes) : Sha3Context := sha3Update order aligned ctx p

/-- What follows the hash value in the context has never been anything but zero. -/
def lumoFinalSha3 (ctx : Sha3Context) : Bytes :=
  let d := sha3Final order ctx
  (d ++ List.replicate (k / 8 - d.length) 0).take (k / 8)

def lumoGenerateSha3 (aligned : Bool) (p : Bytes) : Bytes :=
  lumoFinalSha3 order k (lumoUpdateSha3 order aligned (lumoInitSha3 order k) p)

/-- Neither the split of a record nor the addresses of its parts change its sum. -/
theorem lumoSha3_stream (aligned : Bool) (inputs : List (Bool × Bytes)) :
    lumoFinalSha3 order k (inputs.foldl (fun ctx a => lumoUpdateSha3 order a.1 ctx a.2) (lumoInitSha3 order k)) =
      lumoGenerateSha3 order k aligned (inputs.map Prod.snd).flatten := by
  have hone := sha3Final_eq order k [(aligned, (inputs.map Prod.snd).flatten)]
  have hall := sha3Final_eq order k inputs
  simp only [List.foldl_cons, List.foldl_nil, List.map_cons, List.map_nil, List.flatten_singleton] at hone
  rw [← hone] at hall
  simp only [lumoGenerateSha3, lumoFinalSha3, lumoUpdateSha3, lumoInitSha3, hall]

theorem sponge_take {rate n n' : ℕ} (h : n ≤ n') (m : Bytes) : (sponge rate m n').take n = sponge rate m n := by
  rw [sponge, sponge, ← List.map_take, List.take_range, Nat.min_eq_left h]

theorem lumoGenerateSha3_eq (h : k / 8 ≤ sha3Rate k) (aligned : Bool) (m : Bytes) :
    lumoGenerateSha3 order k aligned m = sponge (sha3Rate k) m (k / 8) := by
  have hone := sha3Final_eq order k [(aligned, m)]
  simp only [List.foldl_cons, List.foldl_nil, List.map_cons, List.map_nil, List.flatten_singleton] at hone
  have hlen : k / 8 ≤ (sponge (sha3Rate k) m (sha3Rate k)).length := by simpa [sponge] using h
  simp only [lumoGenerateSha3, lumoFinalSha3, lumoUpdateSha3, lumoInitSha3, hone]
  rw [List.take_append_of_le_length hlen, sponge_take h]

end Sha3

section Blake3

variable (simd : Simd) (k : ℕ)

def lumoInitBlake3 : Hasher := hasherInit

def lumoUpdateBlake3 (ctx : Hasher) (p : Bytes) : Hasher := hasherUpdate hasherPushCv simd ctx p

def lumoFinalBlake3 (ctx : Hasher) : Bytes := hasherFinalize ctx (k / 8)

def lumoGenerateBlake3 (p : Bytes) : Bytes := lumoFinalBlake3 k (lumoUpdateBlake3 simd lumoInitBlake3 p)

theorem lumoBlake3_stream (inputs : List Bytes) :
    lumoFinalBlake3 k (inputs.foldl (lumoUpdateBlake3 simd) lumoInitBlake3) = lumoGenerateBlake3 simd k inputs.flatten := by
  have hone := hasherFinalizeSeek_eq simd iv 0 [inputs.flatten] 0 (k / 8)
  rw [List.flatten_singleton, ← hasherFinalizeSeek_eq simd iv 0 inputs 0 (k / 8)] at hone
  exact hone.symm

end Blake3

/-- The two families as the table takes them, for any addresses of the parts of a record. -/
def rowsumHashes (order : ByteOrder) (aligned : Bytes → Bool) (simd : Simd) : RowsumHashes where
  sha3 k := {
    Ctx := Sha3Context
    init := lumoInitSha3 order k
    update := fun ctx p => lumoUpdateSha3 order (aligned p) ctx p
    final := lumoFinalSha3 order k
    generate := fun p => lumoGenerateSha3 order k (aligned p) p
    final_foldl := fun chunks => by
      have h := lumoSha3_stream order k (aligned chunks.flatten) (chunks.map fun p => (aligned p, p))
      rw [List.foldl_map, List.map_map] at h
      simpa [Function.comp_def] using h
    generate_length := fun p => by
      rw [lumoGenerateSha3, lumoFinalSha3, List.length_take, List.length_append, List.length_replicate]
      omega }
  blake3 k := {
    Ctx := Hasher
    init := lumoInitBlake3
    update := lumoUpdateBlake3 simd
    final := lumoFinalBlake3 k
    generate := lumoGenerateBlake3 simd k
    final_foldl := lumoBlake3_stream simd k
    generate_length := fun p => by
      have h : lumoGenerateBlake3 simd k p = _ := hasherFinalizeSeek_eq simd iv 0 [p] 0 (k / 8)
      rw [h, List.length_map, List.length_range] }

/-- The digests of the algorithms by their number: four of SHA3 and four of BLAKE3. -/
def standardDigest (alg : ℕ) (m : Bytes) : Bytes :=
  match alg with
  | 1 => sponge 72 m 64
  | 2 => sponge 104 m 48
  | 3 => sponge 136 m 32
  | 4 => sponge 144 m 28
  | 5 => (List.range 64).map (rootByte (messageRoot iv 0 m))
  | 6 => (List.range 48).map (rootByte (messageRoot iv 0 m))
  | 7 => (List.range 32).map (rootByte (messageRoot iv 0 m))
  | 8 => (List.range 28).map (rootByte (messageRoot iv 0 m))
  | _ => []

theorem lumoGenerateBlake3_eq (simd : Simd) (k : ℕ) (m : Bytes) :
    lumoGenerateBlake3 simd k m = (List.range (k / 8)).map (rootByte (messageRoot iv 0 m)) := by
  have h : lumoGenerateBlake3 simd k m = _ := hasherFinalizeSeek_eq simd iv 0 [m] 0 (k / 8)
  simpa using h

/-- Whatever the machine, the sum of a record given in parts is the standard digest of the whole record. -/
theorem rowsum_standard (order : ByteOrder) (aligned : Bytes → Bool) (simd : Simd) {alg : ℕ} {spec : LumoRowsumSpec}
    (h : (lumoRowsumAlgorithms (rowsumHashes order aligned simd))[alg]? = some spec) {hash : StreamHash spec.length}
    (hhash : spec.hash = some hash) (parts : List Bytes) :
    hash.final (parts.foldl hash.update hash.init) = standardDigest alg parts.flatten := by
  rw [hash.final_foldl]
  generalize parts.flatten = m
  have hlt := lt_of_spec h
  interval_cases alg
  all_goals obtain rfl := Option.some.inj h
  · cases hhash
  all_goals obtain rfl := Option.some.inj hhash
  · exact lumoGenerateSha3_eq order 512 (by decide) _ m
  · exact lumoGenerateSha3_eq order 384 (by decide) _ m
  · exact lumoGenerateSha3_eq order 256 (by decide) _ m
  · exact lumoGenerateSha3_eq order 224 (by decide) _ m
  · exact lumoGenerateBlake3_eq simd 512 m
  · exact lumoGenerateBlake3_eq simd 384 m
  · exact lumoGenerateBlake3_eq simd 256 m
  · exact lumoGenerateBlake3_eq simd 224 m

theorem rowsum_standard_sample :
    (hasherFinalize (hasherUpdate hasherPushCv .portable (hasherUpdate hasherPushCv .portable hasherInit [97]) [98, 99]) 28) =
      standardDigest 8 [97, 98, 99] :=
  rowsum_standard .little (fun _ => true) .portable
    (show (lumoRowsumAlgorithms (rowsumHashes .little (fun _ => true) .portable))[8]? = some _ from rfl) rfl [[97], [98, 99]]

end LumoSql.RowsumAlgorithms
