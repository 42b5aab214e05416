import LumoSql.SqliteRecordFormat

/-! The table of rowsum algorithms. The hash functions are a parameter; all that is known
of them is that they are streaming and have the digest length the table states. -/
namespace LumoSql.RowsumAlgorithms

/-- A hash with digests of `n` bytes, computed over any split of its input. -/
structure StreamHash (n : ℕ) where
  Ctx : Type
  init : Ctx
  update : Ctx → Bytes → Ctx
  final : Ctx → Bytes
  generate : Bytes → Bytes
  final_foldl : ∀ chunks : List Bytes, final (chunks.foldl update init) = generate chunks.flatten
  generate_length : ∀ m, (generate m).length = n

/-- The two hash families compiled into the extension, by digest size in bits. -/
structure RowsumHashes where
  sha3 : (k : ℕ) → StreamHash (k / 8)
  blake3 : (k : ℕ) → StreamHash (k / 8)

/-- `lumo_rowsum_spec`; `none` stands for the `NULL` functions of the empty algorithm. -/
structure LumoRowsumSpec where
  name : String
  length : ℕ
  hash : Option (StreamHash length)

def rowsumIdNone : ℕ := 65535

def lumoRowsumAlgorithms (H : RowsumHashes) : List LumoRowsumSpec := [
  ⟨"empty", 0, none⟩,
  ⟨"sha3_512", 512 / 8, some (H.sha3 512)⟩,
  ⟨"sha3_384", 384 / 8, some (H.sha3 384)⟩,
  ⟨"sha3_256", 256 / 8, some (H.sha3 256)⟩,
  ⟨"sha3_224", 224 / 8, some (H.sha3 224)⟩,
  ⟨"blake3_512", 512 / 8, some (H.blake3 512)⟩,
  ⟨"blake3_384", 384 / 8, some (H.blake3 384)⟩,
  ⟨"blake3_256", 256 / 8, some (H.blake3 256)⟩,
  ⟨"blake3_224", 224 / 8, some (H.blake3 224)⟩]

def lumoRowsumNAlgorithms (H : RowsumHashes) : ℕ := (lumoRowsumAlgorithms H).length

/-- The `length` of the algorithm in the table. -/
def rowsumLength (H : RowsumHashes) (alg : ℕ) : ℕ :=
  match (lumoRowsumAlgorithms H)[alg]? with
  | some spec => spec.length
  | none => 0

variable {H : RowsumHashes}

theorem rowsumLength_eq {alg : ℕ} {spec : LumoRowsumSpec}
    (h : (lumoRowsumAlgorithms H)[alg]? = some spec) : rowsumLength H alg = spec.length := by
  simp [rowsumLength, h]

theorem lt_of_spec {alg : ℕ} {spec : LumoRowsumSpec}
    (h : (lumoRowsumAlgorithms H)[alg]? = some spec) : alg < 9 :=
  (List.getElem?_eq_some_iff.mp h).1

theorem spec_of_lt {alg : ℕ} (h : alg < lumoRowsumNAlgorithms H) :
    ∃ spec, (lumoRowsumAlgorithms H)[alg]? = some spec :=
  ⟨_, List.getElem?_eq_getElem h⟩

theorem spec_length_le {alg : ℕ} {spec : LumoRowsumSpec}
    (h : (lumoRowsumAlgorithms H)[alg]? = some spec) : spec.length ≤ 64 := by
  have hall : ∀ s ∈ lumoRowsumAlgorithms H, s.length ≤ 64 := by
    simp [lumoRowsumAlgorithms]
  exact hall spec (List.mem_of_getElem? h)

/-- Only the empty algorithm lacks a hash, and only its digest is empty. -/
theorem spec_hash_isSome {alg : ℕ} {spec : LumoRowsumSpec}
    (h : (lumoRowsumAlgorithms H)[alg]? = some spec) : spec.hash.isSome ↔ 0 < spec.length := by
  have hall : ∀ s ∈ lumoRowsumAlgorithms H, (s.hash.isSome ↔ 0 < s.length) := by
    simp [lumoRowsumAlgorithms]
  exact hall spec (List.mem_of_getElem? h)

/-- The digest an algorithm stores for a message. -/
def LumoRowsumSpec.digest (spec : LumoRowsumSpec) (m : Bytes) : Bytes :=
  match spec.hash with
  | some h => h.generate m
  | none => []

theorem digest_length {alg : ℕ} {spec : LumoRowsumSpec}
    (h : (lumoRowsumAlgorithms H)[alg]? = some spec) (m : Bytes) :
    (spec.digest m).length = spec.length := by
  have hs := spec_hash_isSome h
  cases hh : spec.hash with
  | some f => simp [LumoRowsumSpec.digest, hh, f.generate_length]
  | none =>
    simp only [hh, Option.isSome_none, Bool.false_eq_true, false_iff, not_lt, Nat.le_zero] at hs
    simp [LumoRowsumSpec.digest, hh, hs]

/-- A streaming function that pads or cuts its whole input to `n` bytes, for evaluation. -/
def prefixHash (n : ℕ) : StreamHash n where
  Ctx := Bytes
  init := []
  update c bs := c ++ bs
  final c := (c ++ List.replicate n 0).take n
  generate m := (m ++ List.replicate n 0).take n
  final_foldl chunks := by
    have hfold : ∀ c : Bytes, chunks.foldl (fun c bs => c ++ bs) c = c ++ chunks.flatten := by
      induction chunks with
      | nil => simp
      | cons x xs ih => simp [ih]
    rw [hfold, List.nil_append]
  generate_length m := by simp

def prefixHashes : RowsumHashes := ⟨fun k => prefixHash (k / 8), fun k => prefixHash (k / 8)⟩

end LumoSql.RowsumAlgorithms
