import LumoSql.LumoExtensionLayout

/-! Which index keys `lumoExtensionAdd` accepts: not every key ends in a rowid, and the last byte of
the header is taken for its serial type. -/
namespace LumoSql.LumoExtension
open RowsumAlgorithms WriteBlocks SqliteRecordFormat

variable {F : SqliteFormat} {H : RowsumHashes}

/-- The serial types of integers. -/
def IsInteger (t : ℕ) : Prop := 1 ≤ t ∧ t ≤ 6 ∨ t = 8 ∨ t = 9

theorem isRowidType_iff (t : ℕ) : isRowidType t = true ↔ IsInteger t := by
  simp only [isRowidType, IsInteger, Bool.not_eq_true', Bool.or_eq_false_iff, decide_eq_false_iff_not,
    beq_eq_false_iff_ne]
  omega

def Record.lastType (R : Record F) : ℕ := R.types.getLast R.types_ne

/-- The body of the last column, of a record without implied zeros. -/
def Record.lastColumn (R : Record F) : Bytes :=
  R.body.drop (R.body.length - F.sqlite3VdbeSerialTypeLen R.lastType)

/-- A valid key is accepted, and the bytes behind the extension are its last column if that is
an integer, as a rowid is. -/
structure KeyAccepted (F : SqliteFormat) (H : RowsumHashes) (alg : ℕ) (R : Record F) (r : AddResult) :
    Prop where
  rc : r.rc = sqliteOk ∨ r.rc = sqliteNomem
  repeated : ∀ zNew, r.zNew = some zNew → ∃ ext again : Bytes,
    zNew.cells = (R.packed ++ ext ++ again).map some ∧ ext.length = lumoExtensionLength F H alg ∧
    (again = R.lastColumn ↔ IsInteger R.lastType)

/-- The last byte of the header can be the serial type of a rowid. -/
def Record.RowidLooking (R : Record F) : Prop := ∃ b, R.header.getLast? = some b ∧ IsInteger b.toNat

theorem Record.types_append (R : Record F) : R.types = R.types.dropLast ++ [R.lastType] :=
  (List.dropLast_append_getLast R.types_ne).symm

theorem Record.getLast_header (R : Record F) : R.header.getLast? = R.header[R.nHdr - 1]? := by
  rw [List.getLast?_eq_getElem?, R.header_length]

theorem Record.RowidLooking.rowidByte {R : Record F} (h : R.RowidLooking) (hz : R.nZero = 0) :
    ∃ t, R.RowidByte t := by
  obtain ⟨b, hb, ht⟩ := h
  refine ⟨b.toNat, (isRowidType_iff _).mpr ht, ?_, hz⟩
  rw [← R.getLast_header, hb, UInt8.ofNat_toNat]

theorem Record.lastColumn_length (R : Record F) (hz : R.nZero = 0) :
    R.lastColumn.length = F.sqlite3VdbeSerialTypeLen R.lastType := by
  have hbody := R.body_eq
  rw [R.types_append] at hbody
  simp only [hz, List.map_append, List.sum_append, List.map_cons, List.map_nil, List.sum_cons,
    List.sum_nil] at hbody
  simp only [Record.lastColumn, List.length_drop]
  omega

/-- The repeated bytes are the last column if its type is in the header byte that is read; a longer type
has a longer body than any rowid. -/
theorem Record.RowidByte.repeats {R : Record F} {t : ℕ} (h : R.RowidByte t) :
    rowidBytes R t = R.lastColumn ↔ IsInteger R.lastType := by
  have ht := isRowidType_lt h.isRowid
  have hlast := R.types_lt R.lastType (by rw [R.types_append]; simp)
  by_cases hone : R.lastType < 2 ^ 7
  · have hbyte := R.last_byte R.types_append hone
    rw [h.last, Option.some.injEq] at hbyte
    have hmod := congrArg UInt8.toNat hbyte
    rw [UInt8.toNat_ofNat', UInt8.toNat_ofNat', Nat.mod_eq_of_lt (by omega),
      Nat.mod_eq_of_lt (by omega)] at hmod
    rw [← hmod, ← isRowidType_iff]
    exact iff_of_true (by rw [rowidBytes, Record.lastColumn, hmod]) h.isRowid
  · refine iff_of_false (fun heq => ?_) fun hint => ?_
    · have hlen := congrArg List.length heq
      rw [rowidBytes_length h, R.lastColumn_length h.complete, F.serialTypeLen_eq t (by omega),
        F.serialTypeLen_eq _ hlast] at hlen
      have hshort : serialTypeSize t ≤ 8 := by
        unfold serialTypeSize
        interval_cases t <;> simp
      have hlong : serialTypeSize R.lastType = (R.lastType - 12) / 2 := by
        unfold serialTypeSize
        exact if_pos (by omega)
      omega
    · simp only [IsInteger] at hint
      omega

/-- The codes of `lumoExtensionAdd` for an index, and that it repeats what it takes for a rowid. -/
theorem lumoExtensionAdd_index_cases {alg : ℕ} {spec : LumoRowsumSpec}
    (hs : (lumoRowsumAlgorithms H)[alg]? = some spec) (R : Record F) (hR : R.size < 2 ^ 30)
    (hz : R.nZero = 0) (oom : Bool) :
    (R.RowidLooking ∧ ∃ r, lumoExtensionAdd F H alg oom true R.packed 0 = some r ∧
      KeyAccepted F H alg R r) ∨
    (¬R.RowidLooking ∧ lumoExtensionAdd F H alg oom true R.packed 0 = some ⟨sqliteCorrupt, none⟩) := by
  have hpos : 0 < lumoExtensionLength F H alg := by
    rw [lumoExtensionLength_eq hs]
    omega
  have hhdr := R.header_length
  have hbyte : R.packed[R.nHdr - 1]? = R.header.getLast? := by
    rw [R.getLast_header, Record.packed, List.getElem?_append_left (by have := R.nHdr_pos; omega)]
  by_cases hrow : R.RowidLooking
  · refine Or.inl ⟨hrow, ?_⟩
    obtain ⟨t, ht⟩ := hrow.rowidByte hz
    cases oom with
    | true =>
      have htype : (UInt8.ofNat t).toNat = t := by
        have := isRowidType_lt ht.isRowid
        rw [UInt8.toNat_ofNat', Nat.mod_eq_of_lt (by omega)]
      refine ⟨⟨sqliteNomem, none⟩, ?_, ⟨Or.inr rfl, fun zNew hnew => by cases hnew⟩⟩
      simp only [lumoExtensionAdd, if_pos hpos, R.getVarint32_packed hR, Option.bind_eq_bind,
        Option.bind_some, if_true, if_neg R.nHdr_pos.ne', hbyte, R.getLast_header, ht.last, htype,
        ht.isRowid, Bool.not_true, Bool.false_eq_true, if_false]
    | false =>
      refine ⟨_, lumoExtensionAdd_index hs R hR ht, Or.inl rfl, fun zNew hnew => ?_⟩
      obtain rfl := Option.some.inj hnew
      exact ⟨_, _, filled_full _, extensionBytes_length hs _, ht.repeats⟩
  · refine Or.inr ⟨hrow, ?_⟩
    cases hlast : R.header.getLast? with
    | none =>
      rw [List.getLast?_eq_none_iff] at hlast
      rw [hlast, List.length_nil] at hhdr
      exact absurd hhdr.symm R.nHdr_pos.ne'
    | some b =>
      have htype : isRowidType b.toNat = false := by
        rw [← Bool.not_eq_true, isRowidType_iff]
        exact fun h => hrow ⟨b, hlast, h⟩
      simp only [lumoExtensionAdd, if_pos hpos, R.getVarint32_packed hR, Option.bind_eq_bind,
        Option.bind_some, if_true, if_neg R.nHdr_pos.ne', hbyte, hlast, htype, Bool.not_false]

/-- A key is accepted exactly when nothing is added to it or its header ends in a byte that can be
the type of a rowid. -/
theorem indexKey_accepted_iff (F : SqliteFormat) (H : RowsumHashes) (alg : ℕ) (oom : Bool) (R : Record F)
    (hR : R.size < 2 ^ 30) (hz : R.nZero = 0) :
    (∃ r, lumoExtensionAdd F H alg oom true R.packed 0 = some r ∧ KeyAccepted F H alg R r) ↔
      lumoRowsumNAlgorithms H ≤ alg ∨ R.RowidLooking := by
  by_cases halg : lumoRowsumNAlgorithms H ≤ alg
  · refine iff_of_true ⟨⟨sqliteOk, none⟩, ?_, Or.inl rfl, fun zNew hnew => by cases hnew⟩ (Or.inl halg)
    have hnone : (lumoRowsumAlgorithms H)[alg]? = none := List.getElem?_eq_none halg
    simp [lumoExtensionAdd, lumoExtensionLength, hnone]
  · obtain ⟨spec, hs⟩ := spec_of_lt (not_le.mp halg)
    rcases lumoExtensionAdd_index_cases hs R hR hz oom with ⟨hrow, hok⟩ | ⟨hrow, hbad⟩
    · exact iff_of_true hok (Or.inr hrow)
    · refine iff_of_false ?_ (by simp [halg, hrow])
      rintro ⟨r, hr, hacc, -⟩
      obtain rfl := Option.some.inj (hbad.symm.trans hr)
      rcases hacc with h | h <;> cases h

theorem indexKey_accepted_iff_sample :
    (∃ r, lumoExtensionAdd documented prefixHashes 3 false true sampleRecord.packed 0 = some r ∧
      KeyAccepted documented prefixHashes 3 sampleRecord r) ↔
    lumoRowsumNAlgorithms prefixHashes ≤ 3 ∨ sampleRecord.RowidLooking :=
  indexKey_accepted_iff documented prefixHashes 3 false sampleRecord (by decide) rfl

/-- The key `'a'` of a `WITHOUT ROWID` table. -/
def textKey : Record documented := ⟨[15], [97], 0, 2, by decide, by decide, by decide, by decide⟩

theorem textKey_rejected :
    lumoExtensionAdd documented prefixHashes 3 false true textKey.packed 0 = some ⟨sqliteCorrupt, none⟩ ∧
    ¬∃ r, lumoExtensionAdd documented prefixHashes 3 false true textKey.packed 0 = some r ∧
      KeyAccepted documented prefixHashes 3 textKey r := by
  have hadd : lumoExtensionAdd documented prefixHashes 3 false true textKey.packed 0 =
      some ⟨sqliteCorrupt, none⟩ := by decide
  refine ⟨hadd, ?_⟩
  rintro ⟨r, hr, hacc, -⟩
  obtain rfl := Option.some.inj (hadd.symm.trans hr)
  rcases hacc with h | h <;> cases h

end LumoSql.LumoExtension
