import LumoSql.LumoColumnBounds

/-! The Lumo column of a table row seen through cursors that know of fewer or of more columns than
the row has. -/
namespace LumoSql.LumoExtension
open RowsumAlgorithms WriteBlocks SqliteRecordFormat

variable {F : SqliteFormat} {H : RowsumHashes}

namespace Record

/-- Whatever is reported for a table is described by the header entry with the number `nField`. -/
theorem present_table_entry (R : Record F) {pre post : List ℕ} (ht : R.types = pre ++ post) {tail : Bytes}
    {nField nData nStart nLen : ℕ} (hle : pre.length ≤ nField) (hh : R.nHdr + 8 < 2 ^ 32) (hnd : nData < 2 ^ 63)
    (hfound : lumoExtensionPresent F false pre.length (R.entryOffset pre) (R.columnOffset pre) nField
      (R.header ++ tail) R.nHdr nData = some (some (nStart, nLen))) :
    ∃ t, R.types[nField]? = some t ∧ F.sqlite3VdbeSerialTypeLen t = nLen ∧ 4 < nLen ∧
      nStart = R.columnOffset (R.types.take nField) := by
  have htypes := R.headerTypes ht tail
  by_cases hdescribes : Describes F nData (R.columnOffset pre) post (nField - pre.length)
  · obtain ⟨t, hentry, hbig, hlt, heven, hstart, hlen⟩ := (present_table_iff htypes hh hnd hdescribes).mp hfound
    refine ⟨t, ?_, ?_, by omega, ?_⟩
    · rw [ht, List.getElem?_append_right hle]
      exact hentry
    · rw [hlen, F.serialTypeLen_eq t (by omega)]
      unfold serialTypeSize
      rw [if_pos (by omega)]
    · rw [hstart, columnsEnd, ht, List.take_append, List.take_of_length_le hle, columnOffset_append]
  · simp [present_not_described htypes hh hnd hdescribes] at hfound

/-- A column that is not empty starts before the columns behind it. -/
theorem columnOffset_take_lt (R : Record F) {k n t : ℕ} (hk : R.types[k]? = some t)
    (hlen : 0 < F.sqlite3VdbeSerialTypeLen t) (hlt : k < n) :
    R.columnOffset (R.types.take k) < R.columnOffset (R.types.take n) := by
  obtain ⟨hbound, hget⟩ := List.getElem?_eq_some_iff.mp hk
  obtain ⟨m, rfl⟩ := Nat.exists_eq_add_of_lt hlt
  have hsplit : R.types.take (k + m + 1) = R.types.take k ++ t :: (R.types.drop (k + 1)).take m := by
    rw [Nat.add_assoc, List.take_add, List.drop_eq_getElem_cons hbound, hget, List.take_succ_cons]
  rw [hsplit, columnOffset_append, List.map_cons, List.sum_cons]
  omega

end Record

/-- From every parsed prefix of the header the column of the new row is found where it is by a
cursor that has as many columns as the row had, and by no other. -/
def FoundByColumns (F : SqliteFormat) (H : RowsumHashes) (alg : ℕ) (R : Record F) : Prop :=
  ∃ (zNew : Block UInt8) (nHeader nLenHeader : ℕ),
    lumoExtensionAdd F H alg false false R.packed R.nZero = some ⟨sqliteOk, some zNew⟩ ∧
    F.getVarint32 (zNew.contents 0) = some (nHeader, nLenHeader) ∧
    ∀ pre post nField, R.types ++ [blobType F H alg] = pre ++ post → pre.length ≤ nField →
      (lumoExtensionPresent F false pre.length (nLenHeader + (pre.flatMap F.putVarint32).length)
          (nHeader + (pre.map F.sqlite3VdbeSerialTypeLen).sum) nField (zNew.contents 0) nHeader zNew.size =
        some (some ((tableRecord F H alg R).length, lumoExtensionLength F H alg)) ↔
      nField = R.types.length)

theorem foundByColumns {alg : ℕ} (halg : alg < lumoRowsumNAlgorithms H) (R : Record F) (hR : R.size < 2 ^ 30) :
    FoundByColumns F H alg R := by
  obtain ⟨spec, hs⟩ := spec_of_lt halg
  have hlen := lumoExtensionLength_eq (F := F) hs
  have hspec := spec_length_le hs
  obtain ⟨R', hp, ht, hh, hmsg, hcol⟩ := exists_storedRecord hs R hR
  have hnData : R'.packed.length + 0 = R'.columnOffset R.types + lumoExtensionLength F H alg := by
    rw [hp, List.length_append, hmsg, extensionBytes_length hs, Nat.add_zero]
  refine ⟨_, R'.nHdr, (F.putVarint32 R'.nHdr).length, lumoExtensionAdd_table hs R hR, ?_, ?_⟩
  · rw [← hp]
    exact getVarint32_filled R' hh
  · intro pre post nField hpre hle
    rw [← hp, filled_packed, filled_size, hnData, hmsg]
    constructor
    · intro hfound
      obtain ⟨t, hentry, hsize, hbig, hstart⟩ :=
        R'.present_table_entry (ht.trans hpre) hle (by omega) (by omega) hfound
      have hall : R'.types.take R.types.length = R.types := by rw [ht, List.take_left' rfl]
      have hbound := (List.getElem?_eq_some_iff.mp hentry).1
      rw [ht, List.length_append, List.length_singleton] at hbound
      by_contra hne
      have hbefore := R'.columnOffset_take_lt (n := R.types.length) hentry (by omega) (by omega)
      rw [hall] at hbefore
      omega
    · rintro rfl
      obtain ⟨mid, hmid⟩ : ∃ mid, R.types = pre ++ mid := by
        have htake := congrArg (List.take pre.length) hpre
        rw [List.take_append_of_le_length hle, List.take_left' rfl] at htake
        exact ⟨R.types.drop pre.length, by rw [← htake, List.length_take, min_eq_left hle, List.take_append_drop]⟩
      rw [hmid]
      exact present_table R' (by rw [ht, hmid, blobType]) (by omega) (by omega) R'.body (by omega)
        (by rw [← hmid]; omega) (by rw [← hmid]; omega)

theorem foundByColumns_sample : FoundByColumns documented prefixHashes 3 sampleRecord :=
  foundByColumns (by decide) sampleRecord (by decide)

/-- A row of two columns: a cursor opened for the first of them, as for a query that needs no
other, and one opened after a column was added find nothing. -/
theorem other_cursors_miss_column :
    ∃ zNew, lumoExtensionAdd documented prefixHashes 3 false false sampleRecord.packed sampleRecord.nZero =
        some ⟨sqliteOk, some zNew⟩ ∧
      lumoExtensionPresent documented false 1 2 5 2 (zNew.contents 0) 4 zNew.size = some (some (6, 40)) ∧
      lumoExtensionPresent documented false 1 2 5 1 (zNew.contents 0) 4 zNew.size = some none ∧
      lumoExtensionPresent documented false 1 2 5 3 (zNew.contents 0) 4 zNew.size = some none := by
  refine ⟨_, rfl, ?_⟩
  decide +kernel

end LumoSql.LumoExtension
