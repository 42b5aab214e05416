import LumoSql.LumoExtension
import Mathlib.Data.List.Flatten

/-! What `lumoExtensionAdd` writes: for a table a record with one more blob column, for an
index the old key, the extension and the rowid once more. Every byte of the new buffer is
written and none outside it. -/
namespace LumoSql.LumoExtension
open RowsumAlgorithms WriteBlocks SqliteRecordFormat

variable {F : SqliteFormat} {H : RowsumHashes}

/-- A packed record whose last `nZero` bytes of zeros are implied, with a minimal header
size as `OP_MakeRecord` stores it. -/
structure Record (F : SqliteFormat) where
  types : List ℕ
  body : Bytes
  nZero : ℕ
  nHdr : ℕ
  types_ne : types ≠ []
  types_lt : ∀ t ∈ types, t < 2 ^ 32
  nHdr_eq : nHdr = (F.putVarint32 nHdr ++ types.flatMap F.putVarint32).length
  body_eq : body.length + nZero = (types.map F.sqlite3VdbeSerialTypeLen).sum

def Record.header (R : Record F) : Bytes := F.putVarint32 R.nHdr ++ R.types.flatMap F.putVarint32

/-- The bytes of the record, without the implied zeros. -/
def Record.packed (R : Record F) : Bytes := R.header ++ R.body

/-- The size of the record, implied zeros included. -/
def Record.size (R : Record F) : ℕ := R.nHdr + R.body.length + R.nZero

@[simp] theorem Record.header_length (R : Record F) : R.header.length = R.nHdr := R.nHdr_eq.symm

theorem Record.packed_length (R : Record F) : R.packed.length = R.nHdr + R.body.length := by
  simp [Record.packed]

theorem Record.size_eq (R : Record F) :
    R.size = R.nHdr + (R.types.map F.sqlite3VdbeSerialTypeLen).sum := by
  rw [← R.body_eq]
  simp only [Record.size]
  omega

theorem Record.nHdr_lt (R : Record F) (h : R.size < 2 ^ 30) : R.nHdr < 2 ^ 30 := by
  simp only [Record.size] at h
  omega

theorem Record.nHdr_split (R : Record F) (h : R.size < 2 ^ 30) :
    R.nHdr = varintSize R.nHdr + (R.types.flatMap F.putVarint32).length := by
  have hn := R.nHdr_eq
  rw [List.length_append, F.putVarint32_length _ ((R.nHdr_lt h).trans (by decide))] at hn
  exact hn

theorem Record.getVarint32_packed (R : Record F) (h : R.size < 2 ^ 30) :
    F.getVarint32 R.packed = some (R.nHdr, varintSize R.nHdr) := by
  rw [Record.packed, Record.header, List.append_assoc]
  exact F.getVarint32_put _ _ ((R.nHdr_lt h).trans (by decide))

theorem Record.header_tail (R : Record F) (h : R.size < 2 ^ 30) :
    readRange R.packed (varintSize R.nHdr) R.nHdr = some (R.types.flatMap F.putVarint32) := by
  have hn := R.nHdr_split h
  have hl := F.putVarint32_length R.nHdr ((R.nHdr_lt h).trans (by decide))
  rw [readRange, if_pos ⟨by omega, by rw [R.packed_length]; omega⟩, Record.packed,
    List.take_left' R.header_length, Record.header, List.drop_left' hl]

theorem Record.drop_header (R : Record F) : R.packed.drop R.nHdr = R.body := by
  rw [Record.packed, List.drop_left' R.header_length]

/-- The extension over the message `m`. -/
def extensionBytes (alg : ℕ) (spec : LumoRowsumSpec) (m : Bytes) : Bytes :=
  lumoExtensionMagic ++ [UInt8.ofNat lumoRowsumType, UInt8.ofNat alg, UInt8.ofNat spec.length] ++
    spec.digest m ++ [UInt8.ofNat lumoEndType]

theorem extensionBytes_length {alg : ℕ} {spec : LumoRowsumSpec}
    (hs : (lumoRowsumAlgorithms H)[alg]? = some spec) (m : Bytes) :
    (extensionBytes alg spec m).length = lumoExtensionLength F H alg := by
  have halg := lt_of_spec hs
  have hlen := spec_length_le hs
  have hsize : ∀ v, v < 2 ^ 7 → F.sqlite3VarintLen v = 1 := fun v hv => by
    rw [F.varintLen_eq v (hv.trans (by decide)), varintSize, if_pos hv]
  have hext : lumoExtensionLength F H alg = 1 + 1 + 1 + spec.length + (4 + 1) := by
    simp only [lumoExtensionLength, hs, hsize lumoRowsumType (by decide), hsize alg (by omega),
      hsize spec.length (by omega), hsize lumoEndType (by decide)]
    exact if_pos (show 0 < 1 + 1 + 1 + spec.length by omega)
  rw [hext]
  simp only [extensionBytes, List.length_append, digest_length hs, List.length_cons, List.length_nil,
    lumoExtensionMagic]
  omega

theorem lumoExtensionLength_eq {alg : ℕ} {spec : LumoRowsumSpec}
    (hs : (lumoRowsumAlgorithms H)[alg]? = some spec) :
    lumoExtensionLength F H alg = spec.length + 8 := by
  rw [← extensionBytes_length (F := F) hs []]
  simp only [extensionBytes, List.length_append, digest_length hs, List.length_cons,
    List.length_nil, lumoExtensionMagic]
  omega

theorem zeroChunks_flatten (n : ℕ) : (zeroChunks n).flatten = List.replicate n 0 := by
  have hsplit : n = n / 1024 * 1024 + n % 1024 := (Nat.div_add_mod' n 1024).symm
  have hhead : (List.replicate (n / 1024) (List.replicate 1024 (0 : UInt8))).flatten =
      List.replicate (n / 1024 * 1024) 0 := List.flatten_replicate_replicate
  rw [zeroChunks, List.flatten_append, hhead]
  by_cases h : 0 < n % 1024
  · rw [if_pos h, List.flatten_singleton, List.replicate_append_replicate, ← hsplit]
  · rw [if_neg h, List.flatten_nil, List.append_nil]
    congr 1
    omega

/-- Hashing the data and then the implied zeros hashes their concatenation. -/
theorem rowsumOf_eq {n : ℕ} (h : StreamHash n) (zSum : Bytes) (nZero : ℕ) :
    rowsumOf h zSum nZero = h.generate (zSum ++ List.replicate nZero 0) := by
  have hdata : (if 0 < zSum.length then [zSum] else []).flatten = zSum := by
    cases zSum <;> simp
  rw [rowsumOf, h.final_foldl, List.flatten_append, hdata, zeroChunks_flatten]

/-- `lumoExtension` appends the extension over the bytes written so far. -/
theorem lumoExtension_filled {alg : ℕ} {spec : LumoRowsumSpec}
    (hs : (lumoRowsumAlgorithms H)[alg]? = some spec) (xs : Bytes) (n : ℕ)
    (hn : lumoExtensionLength F H alg ≤ n) :
    lumoExtension F H alg 0 xs.length (filled xs n) =
      some (filled (xs ++ extensionBytes alg spec xs) (n - lumoExtensionLength F H alg)) := by
  have halg := lt_of_spec hs
  have hlen := spec_length_le hs
  have hext := lumoExtensionLength_eq (F := F) hs
  have hhash := spec_hash_isSome hs
  have hmagic : lumoExtensionMagic.length = 4 := rfl
  rw [hext] at hn ⊢
  have hput := F.putVarint32_byte
  simp only [lumoExtension, hs, hput lumoRowsumType (by decide), hput alg (by omega),
    hput spec.length (by omega), hput lumoEndType (by decide)]
  rw [filled_emit _ _ _ (by omega)]
  simp only [Option.bind_eq_bind, Option.bind_some]
  rw [filled_emit _ _ _ (by simp; omega)]
  simp only [Option.bind_some]
  rw [filled_emit _ _ _ (by simp; omega)]
  simp only [Option.bind_some]
  rw [filled_emit _ _ _ (by simp; omega)]
  simp only [Option.bind_some]
  cases hh : spec.hash with
  | none =>
    have hzero : spec.length = 0 := by simpa [hh] using hhash
    have hdigest : spec.digest xs = [] := by simp [LumoRowsumSpec.digest, hh]
    rw [if_neg (by omega), filled_emit _ _ _ (by simp; omega)]
    simp only [extensionBytes, hdigest, List.append_assoc, List.append_nil, List.cons_append,
      List.nil_append, List.length_cons, List.length_nil, hmagic]
    congr 2
    omega
  | some h =>
    have hpos : 0 < spec.length := hhash.mp (by simp [hh])
    have hdigest : spec.digest xs = h.generate xs := by simp [LumoRowsumSpec.digest, hh]
    rw [if_pos hpos]
    simp only [filled_contents, List.append_assoc, List.take_left', rowsumOf_eq, List.replicate_zero,
      List.append_nil]
    rw [filled_emit _ _ _ (by simp [h.generate_length]; omega)]
    simp only [Option.bind_some]
    rw [filled_emit _ _ _ (by simp [h.generate_length]; omega)]
    simp only [extensionBytes, hdigest, List.append_assoc, List.cons_append, List.nil_append,
      List.length_cons, List.length_nil, hmagic, h.generate_length]
    congr 2
    omega

/-- The new header size counts its own varint, also where one more entry lengthens it. -/
theorem extendedHeader_eq {h n st : ℕ} (hh : h = varintSize h + n) (hlt : h < 2 ^ 30)
    (hst : st < 2 ^ 14) :
    extendedHeader F h (varintSize h) st =
      varintSize (extendedHeader F h (varintSize h) st) + n + varintSize st ∧
    h < extendedHeader F h (varintSize h) st ∧
    extendedHeader F h (varintSize h) st ≤ h + 3 := by
  have hst2 : varintSize st ≤ 2 := (varintSize_le_iff st (by decide) (by decide)).mpr hst
  have hst1 := varintSize_pos st
  have hvle := varintSize_le h
  have hnew := F.varintLen_eq (h + varintSize st) (by omega)
  have hup := varintSize_add_le h (d := varintSize st) (by omega)
  have hmono := varintSize_mono (Nat.le_add_right h (varintSize st))
  simp only [extendedHeader, F.varintLen_eq st (by omega), hnew]
  by_cases hgrow : varintSize h < varintSize (h + varintSize st)
  · have hstep : varintSize (h + varintSize st) = varintSize h + 1 := by omega
    -- one more byte of header size never crosses the next boundary
    have hsame : varintSize (h + varintSize st + 1) = varintSize h + 1 := by
      have hlow := varintSize_mono (Nat.le_add_right (h + varintSize st) 1)
      have hhigh := varintSize_add_le h (d := varintSize st + 1) (by omega)
      rw [← Nat.add_assoc] at hhigh
      omega
    rw [if_pos hgrow, hstep, Nat.add_sub_cancel_left, F.varintLen_eq _ (by omega), hsame,
      if_neg (lt_irrefl _), hsame]
    omega
  · rw [if_neg hgrow]
    have hsame : varintSize (h + varintSize st) = varintSize h := by omega
    rw [hsame]
    omega

/-- The table record before the extension is appended: the message that is hashed. -/
def tableMessage (R : Record F) (newHdr serialType : ℕ) : Bytes :=
  F.putVarint32 newHdr ++ R.types.flatMap F.putVarint32 ++ F.putVarint32 serialType ++ R.body ++
    List.replicate R.nZero 0

theorem writeRecord_table {alg : ℕ} {spec : LumoRowsumSpec}
    (hs : (lumoRowsumAlgorithms H)[alg]? = some spec) (R : Record F) (hR : R.size < 2 ^ 30)
    (newHdr serialType : ℕ) :
    writeRecord F H alg false R.packed R.nZero R.nHdr (varintSize R.nHdr) newHdr serialType
        (lumoExtensionLength F H alg) (tableMessage R newHdr serialType).length 0
        ((tableMessage R newHdr serialType).length + lumoExtensionLength F H alg) =
      some (filled (tableMessage R newHdr serialType ++
        extensionBytes alg spec (tableMessage R newHdr serialType)) 0).block := by
  have hn := R.nHdr_split hR
  have hbody : ¬R.nHdr < R.packed.length → R.body = [] := by
    intro h
    rw [R.packed_length] at h
    exact List.length_eq_zero_iff.mp (by omega)
  have hzero : ¬0 < R.nZero → List.replicate R.nZero (0 : UInt8) = [] := by
    intro h
    rw [Nat.eq_zero_of_not_pos h, List.replicate_zero]
  have hmsg : (tableMessage R newHdr serialType).length = (F.putVarint32 newHdr).length +
      (R.types.flatMap F.putVarint32).length + (F.putVarint32 serialType).length +
      R.body.length + R.nZero := by
    simp [tableMessage, Nat.add_assoc]
  have hrest : (tableMessage R newHdr serialType).length + lumoExtensionLength F H alg -
      (F.putVarint32 newHdr).length - (R.types.flatMap F.putVarint32).length -
      (F.putVarint32 serialType).length - R.body.length -
      (List.replicate R.nZero (0 : UInt8)).length = lumoExtensionLength F H alg := by
    rw [List.length_replicate]
    omega
  have hext := lumoExtension_filled (F := F) hs (tableMessage R newHdr serialType)
    (lumoExtensionLength F H alg) (le_refl _)
  simp only [writeRecord, R.header_tail hR, R.drop_header, alloc_filled, Option.bind_eq_bind]
  rw [filled_emit _ _ _ (by omega), Option.bind_some, Option.bind_some,
    filled_emit _ _ _ (by omega), Option.bind_some,
    filled_emitIf _ _ _ (by simp) (by omega), Option.bind_some,
    filled_emitIf _ _ _ hbody (by omega), Option.bind_some,
    filled_emitIf _ _ _ hzero (by rw [List.length_replicate]; omega), Option.bind_some, hrest, List.nil_append,
    ← tableMessage, hext, Option.bind_some]
  simp [readLast, Writer.emitIf]

/-- The copy of the rowid that ends an index entry. -/
def rowidBytes (R : Record F) (t : ℕ) : Bytes :=
  R.body.drop (R.body.length - F.sqlite3VdbeSerialTypeLen t)

theorem isRowidType_lt {t : ℕ} (h : isRowidType t = true) : t < 10 := by
  simp only [isRowidType, Bool.not_eq_true', Bool.or_eq_false_iff, decide_eq_false_iff_not] at h
  omega

/-- The last header byte is `t` and is taken for the serial type of a rowid. -/
structure Record.RowidByte (R : Record F) (t : ℕ) : Prop where
  isRowid : isRowidType t = true
  last : R.header[R.nHdr - 1]? = some (UInt8.ofNat t)
  complete : R.nZero = 0

theorem Record.exists_last (R : Record F) : ∃ init t, R.types = init ++ [t] :=
  ⟨_, _, (List.dropLast_append_getLast R.types_ne).symm⟩

theorem Record.last_byte (R : Record F) {init : List ℕ} {t : ℕ} (ht : R.types = init ++ [t])
    (h7 : t < 2 ^ 7) : R.header[R.nHdr - 1]? = some (UInt8.ofNat t) := by
  have hpre : R.header = (F.putVarint32 R.nHdr ++ init.flatMap F.putVarint32) ++ [UInt8.ofNat t] := by
    simp [Record.header, ht, List.flatMap_append, F.putVarint32_byte t h7]
  have hlen := R.header_length
  rw [hpre, List.length_append, List.length_singleton] at hlen
  rw [hpre, List.getElem?_append_right (by omega),
    show R.nHdr - 1 - (F.putVarint32 R.nHdr ++ init.flatMap F.putVarint32).length = 0 by omega]
  rfl

theorem Record.rowidByte (R : Record F) {init : List ℕ} {t : ℕ} (ht : R.types = init ++ [t])
    (hr : isRowidType t = true) (hz : R.nZero = 0) : R.RowidByte t :=
  ⟨hr, R.last_byte ht ((isRowidType_lt hr).trans (by decide)), hz⟩

/-- The body has room for a rowid, also when the last byte ends a longer serial type. -/
theorem Record.RowidByte.le {R : Record F} {t : ℕ} (h : R.RowidByte t) :
    F.sqlite3VdbeSerialTypeLen t ≤ R.body.length := by
  obtain ⟨init, last, ht⟩ := R.exists_last
  have hb := R.body_eq
  have hlt := isRowidType_lt h.isRowid
  have hlast := R.types_lt last (by simp [ht])
  simp only [ht, h.complete, List.map_append, List.sum_append, List.map_cons, List.map_nil,
    List.sum_cons, List.sum_nil] at hb
  rw [F.serialTypeLen_eq t (by omega)]
  rw [F.serialTypeLen_eq last hlast] at hb
  by_cases h7 : last < 2 ^ 7
  · have hbyte := h.last
    rw [R.last_byte ht h7, Option.some.injEq] at hbyte
    have heq := congrArg UInt8.toNat hbyte
    rw [UInt8.toNat_ofNat', UInt8.toNat_ofNat', Nat.mod_eq_of_lt (by omega),
      Nat.mod_eq_of_lt (by omega)] at heq
    subst heq
    omega
  · have hlong : serialTypeSize last = (last - 12) / 2 := by
      unfold serialTypeSize
      rw [if_pos (by omega)]
    have hshort : serialTypeSize t ≤ 8 := by
      interval_cases t <;> decide
    omega

theorem rowidBytes_length {R : Record F} {t : ℕ} (h : R.RowidByte t) :
    (rowidBytes R t).length = F.sqlite3VdbeSerialTypeLen t := by
  have := h.le
  simp only [rowidBytes, List.length_drop]
  omega

theorem Record.readLast_rowid {R : Record F} {t : ℕ} (h : R.RowidByte t) :
    readLast R.packed (F.sqlite3VdbeSerialTypeLen t) = some (rowidBytes R t) := by
  have hle := h.le
  have hl := R.packed_length
  have hh := R.header_length
  rw [readLast, if_pos (by omega), hl, Record.packed, List.drop_append,
    List.drop_of_length_le (by omega), List.nil_append, rowidBytes, hh]
  congr 2
  omega

theorem Record.nHdr_pos (R : Record F) : 0 < R.nHdr := by
  obtain ⟨init, t, ht⟩ := R.exists_last
  have hput := F.putVarint32_length t (R.types_lt t (by simp [ht]))
  have hpos := varintSize_pos t
  have hn := R.nHdr_eq
  simp only [ht, List.flatMap_append, List.flatMap_cons, List.flatMap_nil, List.append_nil,
    List.length_append] at hn
  omega

theorem Record.last_byte_append {R : Record F} {t : ℕ} (h : R.RowidByte t) (tail : Bytes) :
    (R.header ++ tail)[R.nHdr - 1]? = some (UInt8.ofNat t) := by
  have hpos := R.nHdr_pos
  rw [List.getElem?_append_left (by rw [R.header_length]; omega), h.last]

theorem writeRecord_index {alg : ℕ} {spec : LumoRowsumSpec}
    (hs : (lumoRowsumAlgorithms H)[alg]? = some spec) (R : Record F) (hR : R.size < 2 ^ 30)
    {t : ℕ} (ht : R.RowidByte t) :
    writeRecord F H alg true R.packed 0 R.nHdr (varintSize R.nHdr) R.nHdr 0
        (lumoExtensionLength F H alg) R.packed.length (F.sqlite3VdbeSerialTypeLen t)
        (R.packed.length + lumoExtensionLength F H alg + F.sqlite3VdbeSerialTypeLen t) =
      some (filled (R.packed ++ extensionBytes alg spec R.packed ++ rowidBytes R t) 0).block := by
  have hn := R.nHdr_split hR
  have hbody : ¬R.nHdr < R.packed.length → R.body = [] := by
    intro h
    rw [R.packed_length] at h
    exact List.length_eq_zero_iff.mp (by omega)
  have hhdr := R.header_length
  rw [Record.header, List.length_append] at hhdr
  have hl := R.packed_length
  have hrow := rowidBytes_length ht
  have hnorow : ¬0 < F.sqlite3VdbeSerialTypeLen t → rowidBytes R t = [] := fun h =>
    List.length_eq_zero_iff.mp (by omega)
  have hextlen := extensionBytes_length (F := F) hs R.packed
  have hrest : R.packed.length + lumoExtensionLength F H alg + F.sqlite3VdbeSerialTypeLen t -
      (F.putVarint32 R.nHdr).length - (R.types.flatMap F.putVarint32).length - R.body.length =
      lumoExtensionLength F H alg + F.sqlite3VdbeSerialTypeLen t := by omega
  have hext := lumoExtension_filled (F := F) hs R.packed
    (lumoExtensionLength F H alg + F.sqlite3VdbeSerialTypeLen t) (Nat.le_add_right _ _)
  simp only [writeRecord, R.header_tail hR, R.drop_header, Record.readLast_rowid ht, alloc_filled,
    Option.bind_eq_bind]
  rw [filled_emit _ _ _ (by omega), Option.bind_some, Option.bind_some,
    filled_emit _ _ _ (by omega), Option.bind_some, Writer.emitIf, if_neg (by simp), Option.bind_some,
    filled_emitIf _ _ _ hbody (by omega), Option.bind_some, Writer.emitIf, if_neg (lt_irrefl 0),
    Option.bind_some, hrest, List.nil_append, ← Record.header, ← Record.packed, hext,
    Option.bind_some, Option.bind_some, Nat.add_sub_cancel_left, filled_pos]
  have hpos : (R.packed ++ extensionBytes alg spec R.packed).length =
      R.packed.length + lumoExtensionLength F H alg := by rw [List.length_append, hextlen]
  have hlast := filled_emitIf (R.packed ++ extensionBytes alg spec R.packed) (rowidBytes R t)
    (F.sqlite3VdbeSerialTypeLen t) hnorow (by omega)
  rw [hrow, Nat.sub_self] at hlast
  rw [← hpos]
  exact congrArg (fun w => Option.bind w fun zWptr => some zWptr.block) hlast

theorem tableMessage_length (R : Record F) (hR : R.size < 2 ^ 30) {st : ℕ} (hst : st < 2 ^ 14) :
    (tableMessage R (extendedHeader F R.nHdr (varintSize R.nHdr) st) st).length =
      extendedHeader F R.nHdr (varintSize R.nHdr) st + R.body.length + R.nZero := by
  have hn := R.nHdr_split hR
  have hlt := R.nHdr_lt hR
  obtain ⟨heq, _, hle⟩ := extendedHeader_eq (F := F) hn hlt hst
  have hput := F.putVarint32_length (extendedHeader F R.nHdr (varintSize R.nHdr) st) (by omega)
  simp only [tableMessage, List.length_append, hput, F.putVarint32_length st (by omega),
    List.length_replicate]
  omega

/-- Serial type of the blob that holds the extension. -/
def blobType (F : SqliteFormat) (H : RowsumHashes) (alg : ℕ) : ℕ := lumoExtensionLength F H alg * 2 + 12

theorem blobType_lt {alg : ℕ} {spec : LumoRowsumSpec}
    (hs : (lumoRowsumAlgorithms H)[alg]? = some spec) : blobType F H alg < 2 ^ 14 := by
  have := spec_length_le hs
  rw [blobType, lumoExtensionLength_eq hs]
  omega

theorem blobType_size {alg : ℕ} {spec : LumoRowsumSpec}
    (hs : (lumoRowsumAlgorithms H)[alg]? = some spec) :
    F.sqlite3VdbeSerialTypeLen (blobType F H alg) = lumoExtensionLength F H alg := by
  have hst := blobType_lt (F := F) hs
  rw [F.serialTypeLen_eq _ (by omega), blobType, serialTypeSize_blob]

/-- The record a table row becomes, up to where the extension starts. -/
def tableRecord (F : SqliteFormat) (H : RowsumHashes) (alg : ℕ) (R : Record F) : Bytes :=
  tableMessage R (extendedHeader F R.nHdr (varintSize R.nHdr) (blobType F H alg)) (blobType F H alg)

theorem lumoExtensionAdd_table {alg : ℕ} {spec : LumoRowsumSpec}
    (hs : (lumoRowsumAlgorithms H)[alg]? = some spec) (R : Record F) (hR : R.size < 2 ^ 30) :
    lumoExtensionAdd F H alg false false R.packed R.nZero = some ⟨sqliteOk,
      some (filled (tableRecord F H alg R ++ extensionBytes alg spec (tableRecord F H alg R)) 0).block⟩ := by
  have hext := lumoExtensionLength_eq (F := F) hs
  have hlen := spec_length_le hs
  have hst := blobType_lt (F := F) hs
  obtain ⟨_, hlo, hhi⟩ := extendedHeader_eq (F := F) (R.nHdr_split hR) (R.nHdr_lt hR) hst
  have hmsg := tableMessage_length R hR hst
  have hsize := hR
  rw [Record.size] at hsize
  have hsum : (R.packed.length + R.nZero + extendedHeader F R.nHdr (varintSize R.nHdr)
      (blobType F H alg) - R.nHdr) % 2 ^ 32 = (tableRecord F H alg R).length := by
    rw [Nat.mod_eq_of_lt (by rw [R.packed_length]; omega), tableRecord, hmsg, R.packed_length]
    omega
  have hdata : ((tableRecord F H alg R).length + lumoExtensionLength F H alg) % 2 ^ 32 =
      (tableRecord F H alg R).length + lumoExtensionLength F H alg := by
    rw [Nat.mod_eq_of_lt]
    rw [tableRecord, hmsg]
    omega
  have hwrite := writeRecord_table (F := F) hs R hR
    (extendedHeader F R.nHdr (varintSize R.nHdr) (blobType F H alg)) (blobType F H alg)
  have hpos : 0 < lumoExtensionLength F H alg := by omega
  have hblob : lumoExtensionLength F H alg * 2 + 12 = blobType F H alg := rfl
  rw [← tableRecord] at hwrite
  simp only [lumoExtensionAdd, if_pos hpos, R.getVarint32_packed hR, Option.bind_eq_bind,
    Option.bind_some, Bool.false_eq_true, if_false, hblob, hsum, hdata, hwrite]

theorem lumoExtensionAdd_index {alg : ℕ} {spec : LumoRowsumSpec}
    (hs : (lumoRowsumAlgorithms H)[alg]? = some spec) (R : Record F) (hR : R.size < 2 ^ 30)
    {t : ℕ} (ht : R.RowidByte t) :
    lumoExtensionAdd F H alg false true R.packed 0 = some ⟨sqliteOk,
      some (filled (R.packed ++ extensionBytes alg spec R.packed ++ rowidBytes R t) 0).block⟩ := by
  have hext := lumoExtensionLength_eq (F := F) hs
  have hlen := spec_length_le hs
  have hrow := ht.le
  have hsize := hR
  rw [Record.size] at hsize
  have htype : (UInt8.ofNat t).toNat = t := by
    have := isRowidType_lt ht.isRowid
    rw [UInt8.toNat_ofNat', Nat.mod_eq_of_lt (by omega)]
  have hhdr : R.nHdr ≠ 0 := R.nHdr_pos.ne'
  have hbyte : R.packed[R.nHdr - 1]? = some (UInt8.ofNat t) := Record.last_byte_append ht _
  have hpl := R.packed_length
  have hsum : (R.packed.length + 0 + R.nHdr - R.nHdr) % 2 ^ 32 = R.packed.length := by
    rw [Nat.mod_eq_of_lt (by omega)]
    omega
  have hdata : (R.packed.length + lumoExtensionLength F H alg + F.sqlite3VdbeSerialTypeLen t) % 2 ^ 32 =
      R.packed.length + lumoExtensionLength F H alg + F.sqlite3VdbeSerialTypeLen t :=
    Nat.mod_eq_of_lt (by omega)
  have hpos : 0 < lumoExtensionLength F H alg := by omega
  simp only [lumoExtensionAdd, if_pos hpos, R.getVarint32_packed hR, Option.bind_eq_bind,
    Option.bind_some, if_true, if_neg hhdr, hbyte, htype, ht.isRowid, Bool.not_true,
    Bool.false_eq_true, if_false, hsum, hdata, writeRecord_index hs R hR ht]

/-- The table record with its blob column, as a record of its own. -/
theorem exists_tableRecord {alg : ℕ} {spec : LumoRowsumSpec}
    (hs : (lumoRowsumAlgorithms H)[alg]? = some spec) (R : Record F) (hR : R.size < 2 ^ 30)
    (ext : Bytes) (hext : ext.length = lumoExtensionLength F H alg) :
    ∃ R' : Record F, R'.packed = tableRecord F H alg R ++ ext ∧
      R'.types = R.types ++ [blobType F H alg] ∧
      R'.body = R.body ++ List.replicate R.nZero 0 ++ ext ∧ R'.nZero = 0 ∧
      R'.nHdr = extendedHeader F R.nHdr (varintSize R.nHdr) (blobType F H alg) := by
  have hst := blobType_lt (F := F) hs
  obtain ⟨heq, hlo, hhi⟩ := extendedHeader_eq (F := F) (R.nHdr_split hR) (R.nHdr_lt hR) hst
  have hlt := R.nHdr_lt hR
  have hblob := (blobType_size (F := F) hs).trans hext.symm
  refine ⟨⟨R.types ++ [blobType F H alg], R.body ++ List.replicate R.nZero 0 ++ ext, 0,
    extendedHeader F R.nHdr (varintSize R.nHdr) (blobType F H alg), by simp, ?_, ?_, ?_⟩,
    ?_, rfl, rfl, rfl, rfl⟩
  · intro t ht
    rcases List.mem_append.mp ht with ht | ht
    · exact R.types_lt t ht
    · rw [List.mem_singleton.mp ht]
      omega
  · simp only [List.length_append, List.flatMap_append, List.flatMap_cons, List.flatMap_nil,
      List.append_nil]
    rw [F.putVarint32_length _ (by omega), F.putVarint32_length _ (by omega)]
    omega
  · have hb := R.body_eq
    simp only [List.length_append, List.length_replicate, List.map_append, List.sum_append,
      List.map_cons, List.map_nil, List.sum_cons, List.sum_nil, hblob]
    omega
  · simp only [Record.packed, Record.header, tableRecord, tableMessage, List.flatMap_append,
      List.flatMap_cons, List.flatMap_nil, List.append_assoc, List.append_nil]

theorem lumoExtension_pos {alg : ℕ} {spec : LumoRowsumSpec}
    (hs : (lumoRowsumAlgorithms H)[alg]? = some spec) {nZero nSum : ℕ} {w w' : Writer UInt8}
    (h : lumoExtension F H alg nZero nSum w = some w') :
    w'.pos = w.pos + lumoExtensionLength F H alg := by
  have halg := lt_of_spec hs
  have hlen := spec_length_le hs
  have hput : ∀ v, v < 2 ^ 7 → (F.putVarint32 v).length = 1 := fun v hv => by
    rw [F.putVarint32_byte v hv, List.length_singleton]
  have h1 := hput lumoRowsumType (by decide)
  have h2 := hput alg (by omega)
  have h3 := hput spec.length (by omega)
  have h4 := hput lumoEndType (by decide)
  have hmagic : lumoExtensionMagic.length = 4 := rfl
  rw [lumoExtensionLength_eq hs]
  simp only [lumoExtension, hs, Option.bind_eq_bind, Option.bind_eq_some_iff] at h
  obtain ⟨a, ha, b, hb, c, hc, d, hd, he⟩ := h
  have pa := Writer.emit_pos ha
  have pb := Writer.emit_pos hb
  have pc := Writer.emit_pos hc
  have pd := Writer.emit_pos hd
  split_ifs at he with hpos
  · cases hh : spec.hash with
    | none => simp [hh] at he
    | some f =>
      rw [hh, Option.bind_eq_some_iff] at he
      obtain ⟨e, he, hend⟩ := he
      have pe := Writer.emit_pos he
      have pend := Writer.emit_pos hend
      rw [rowsumOf_eq, f.generate_length] at pe
      omega
  · have pend := Writer.emit_pos he
    omega

/-- The new table record is a record with one more column, a blob that is the extension,
and fills its buffer. -/
def TableReadable (F : SqliteFormat) (H : RowsumHashes) (alg : ℕ) (R : Record F) : Prop :=
  ∃ (R' : Record F) (blob : ℕ) (ext : Bytes) (zNew : Block UInt8),
    lumoExtensionAdd F H alg false false R.packed R.nZero = some ⟨sqliteOk, some zNew⟩ ∧
    zNew.cells = R'.packed.map some ∧
    R'.types = R.types ++ [blob] ∧ R'.body = R.body ++ List.replicate R.nZero 0 ++ ext ∧
    R'.nZero = 0 ∧ 12 ≤ blob ∧ blob % 2 = 0 ∧
    ext.length = F.sqlite3VdbeSerialTypeLen blob ∧ ext.length = lumoExtensionLength F H alg ∧
    R'.nHdr + (R'.types.map F.sqlite3VdbeSerialTypeLen).sum = zNew.size

/-- The new index entry starts with the old one, ends in its rowid and fills its buffer. -/
def IndexReadable (F : SqliteFormat) (H : RowsumHashes) (alg : ℕ) (R : Record F) : Prop :=
  ∀ init t, R.types = init ++ [t] → isRowidType t = true → R.nZero = 0 →
    ∃ (ext : Bytes) (zNew : Block UInt8),
      lumoExtensionAdd F H alg false true R.packed 0 = some ⟨sqliteOk, some zNew⟩ ∧
      zNew.cells = (R.packed ++ ext ++ rowidBytes R t).map some ∧
      (rowidBytes R t).length = F.sqlite3VdbeSerialTypeLen t ∧
      ext.length = lumoExtensionLength F H alg

theorem tableReadable {alg : ℕ} {spec : LumoRowsumSpec}
    (hs : (lumoRowsumAlgorithms H)[alg]? = some spec) (R : Record F) (hR : R.size < 2 ^ 30) :
    TableReadable F H alg R := by
  have hext := extensionBytes_length (F := F) hs (tableRecord F H alg R)
  obtain ⟨R', hp, ht, hb, hz, _⟩ := exists_tableRecord hs R hR _ hext
  refine ⟨R', blobType F H alg, _, _, lumoExtensionAdd_table hs R hR, ?_, ht, hb, hz, ?_, ?_,
    hext.trans (blobType_size hs).symm, hext, ?_⟩
  · rw [filled_full, hp]
  · exact Nat.le_add_left _ _
  · rw [blobType]
    omega
  · have hbody := R'.body_eq
    rw [filled_size, ← hp, R'.packed_length, Nat.add_zero]
    omega

theorem indexReadable {alg : ℕ} {spec : LumoRowsumSpec}
    (hs : (lumoRowsumAlgorithms H)[alg]? = some spec) (R : Record F) (hR : R.size < 2 ^ 30) :
    IndexReadable F H alg R := fun _ _ ht hr hz =>
  have hbyte := R.rowidByte ht hr hz
  ⟨_, _, lumoExtensionAdd_index hs R hR hbyte, filled_full _, rowidBytes_length hbyte,
    extensionBytes_length hs _⟩

/-- Unmodified SQLite can read what was written, for a table and for an index, and
`lumoExtension` writes as many bytes as `lumoExtensionLength` reserved for it. -/
theorem lumoExtensionAdd_readable (F : SqliteFormat) (H : RowsumHashes) (alg : ℕ)
    (halg : alg < lumoRowsumNAlgorithms H) (R : Record F) (hR : R.size < 2 ^ 30) :
    TableReadable F H alg R ∧ IndexReadable F H alg R ∧
    ∀ (nZero nSum : ℕ) (w w' : Writer UInt8), lumoExtension F H alg nZero nSum w = some w' →
      w'.pos = w.pos + lumoExtensionLength F H alg := by
  obtain ⟨spec, hs⟩ := spec_of_lt halg
  exact ⟨tableReadable hs R hR, indexReadable hs R hR, fun _ _ _ _ h => lumoExtension_pos hs h⟩

/-- A row of two small integers, the second of which can be a rowid. -/
def sampleRecord : Record documented := ⟨[1, 1], [5, 7], 0, 3, by decide, by decide, by decide, by decide⟩

theorem lumoExtensionAdd_readable_sample :
    TableReadable documented prefixHashes 3 sampleRecord ∧
    IndexReadable documented prefixHashes 3 sampleRecord ∧
    ∀ (nZero nSum : ℕ) (w w' : Writer UInt8),
      lumoExtension documented prefixHashes 3 nZero nSum w = some w' →
      w'.pos = w.pos + lumoExtensionLength documented prefixHashes 3 :=
  lumoExtensionAdd_readable documented prefixHashes 3 (by decide) sampleRecord (by decide)

end LumoSql.LumoExtension
