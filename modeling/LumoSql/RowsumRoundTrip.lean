import LumoSql.LumoExtensionLayout
import LumoSql.RowsumChecking

/-! A Lumo column that was written is found again from any parsed prefix of the header, and
the checker accepts it. -/
namespace LumoSql.LumoExtension
open RowsumAlgorithms WriteBlocks SqliteRecordFormat

variable {F : SqliteFormat} {H : RowsumHashes}

theorem getVarint32_byte (F : SqliteFormat) {b : ℕ} (h : b < 2 ^ 7) (rest : Bytes) :
    F.getVarint32 (UInt8.ofNat b :: rest) = some (b, 1) := by
  have hget := F.getVarint32_put b rest (h.trans (by decide))
  rw [F.putVarint32_byte b h, varintSize, if_pos h] at hget
  exact hget

/-- The header entries of the columns `mid` are parsed one by one. -/
theorem skipColumns_run {zData rest : Bytes} {nHeader nData : ℕ} (mid : List ℕ) (o c : ℕ)
    (hmid : ∀ t ∈ mid, t < 2 ^ 32)
    (hdata : zData.drop o = mid.flatMap F.putVarint32 ++ rest)
    (hhdr : o + (mid.flatMap F.putVarint32).length ≤ nHeader) (hlt : nHeader < 2 ^ 32)
    (hcol : c + (mid.map F.sqlite3VdbeSerialTypeLen).sum < nData) (hnd : nData < 2 ^ 64) :
    skipColumns F zData nHeader nData mid.length o c =
      some (0, o + (mid.flatMap F.putVarint32).length,
        c + (mid.map F.sqlite3VdbeSerialTypeLen).sum) := by
  induction mid generalizing o c with
  | nil => rfl
  | cons t mid ih =>
    have ht := hmid t List.mem_cons_self
    have hput := F.putVarint32_length t ht
    have hpos := varintSize_pos t
    have hget := F.getVarint32_put t (mid.flatMap F.putVarint32 ++ rest) ht
    simp only [List.flatMap_cons, List.append_assoc, List.length_append, List.map_cons,
      List.sum_cons] at hdata hhdr hcol ⊢
    have hnext : zData.drop (o + varintSize t) = mid.flatMap F.putVarint32 ++ rest := by
      rw [← List.drop_drop, hdata, List.drop_left' hput]
    have hrun := ih (o + varintSize t) (c + F.sqlite3VdbeSerialTypeLen t)
      (fun u hu => hmid u (List.mem_cons_of_mem _ hu)) hnext (by omega) (by omega)
    simp only [List.length_cons, skipColumns, hdata, hget, Option.bind_eq_bind, Option.bind_some]
    rw [if_pos ⟨by omega, by omega⟩, Nat.mod_eq_of_lt (by omega), Nat.mod_eq_of_lt (by omega), hrun]
    simp only [hput, Nat.add_assoc]

/-- An extension that was written is a well-formed column with one element. -/
theorem extension_wellFormed {alg : ℕ} {spec : LumoRowsumSpec}
    (hs : (lumoRowsumAlgorithms H)[alg]? = some spec) (m rest : Bytes) :
    LumoColumn F (extensionBytes alg spec m ++ rest) (lumoExtensionLength F H alg)
      [⟨lumoRowsumType, alg, spec.digest m⟩] := by
  have halg := lt_of_spec hs
  have hlen := spec_length_le hs
  have hdig := digest_length hs m
  have hrow : extensionBytes alg spec m ++ rest = lumoExtensionMagic ++
      (UInt8.ofNat lumoRowsumType :: UInt8.ofNat alg :: UInt8.ofNat spec.length ::
        (spec.digest m ++ (UInt8.ofNat lumoEndType :: rest))) := by
    simp [extensionBytes]
  have hmagic : lumoExtensionMagic.length = 4 := rfl
  have hdrop : ∀ n, (extensionBytes alg spec m ++ rest).drop (4 + n) =
      (UInt8.ofNat lumoRowsumType :: UInt8.ofNat alg :: UInt8.ofNat spec.length ::
        (spec.digest m ++ (UInt8.ofNat lumoEndType :: rest))).drop n := by
    intro n
    rw [hrow, ← List.drop_drop, List.drop_left' hmagic]
  have h0 := hdrop 0
  have h1 := hdrop 1
  have h2 := hdrop 2
  have h3 := hdrop 3
  simp only [Nat.add_zero, Nat.reduceAdd, List.drop_zero, List.drop_succ_cons] at h0 h1 h2 h3
  rw [lumoExtensionLength_eq hs]
  refine ⟨⟨by omega, ?_⟩, by rw [hrow, List.take_left' rfl], ?_, ?_⟩
  · rw [hrow]
    simp only [List.length_append, List.length_cons, hdig, hmagic]
    omega
  · rw [hrow, List.getElem?_append_right (by omega), hmagic,
      show spec.length + 8 - 1 - 4 = spec.length + 1 + 1 + 1 by omega, List.getElem?_cons_succ,
      List.getElem?_cons_succ, List.getElem?_cons_succ, List.getElem?_append_right (by omega), hdig,
      Nat.sub_self]
    rfl
  · have htype : F.getVarint32 ((extensionBytes alg spec m ++ rest).drop 4) =
        some (lumoRowsumType, 1) := by
      rw [h0]
      exact getVarint32_byte F (by decide) _
    have hsub : F.getVarint32 ((extensionBytes alg spec m ++ rest).drop (4 + 1)) = some (alg, 1) := by
      rw [h1]
      exact getVarint32_byte F (by omega) _
    have hxlen : F.getVarint32 ((extensionBytes alg spec m ++ rest).drop (4 + 1 + 1)) =
        some ((spec.digest m).length, 1) := by
      rw [h2, hdig]
      exact getVarint32_byte F (by omega) _
    have hdata : ((extensionBytes alg spec m ++ rest).drop (4 + 1 + 1 + 1)).take
        (spec.digest m).length = spec.digest m := by
      rw [h3, List.take_left' rfl]
    have hend : ElementsAt F (extensionBytes alg spec m ++ rest) (spec.length + 8 - 1)
        (4 + 1 + 1 + 1 + (spec.digest m).length) [] := by
      rw [hdig, show 4 + 1 + 1 + 1 + spec.length = spec.length + 8 - 1 by omega]
      exact .done
    exact .element htype (show lumoRowsumType ≠ lumoEndType by decide) hsub hxlen hdata hend

/-- The rowsum over the first bytes of the stored row holds, when these can be read. -/
theorem extension_status {alg : ℕ} {spec : LumoRowsumSpec}
    (hs : (lumoRowsumAlgorithms H)[alg]? = some spec) {pC : PayloadReader} {m : Bytes}
    (hm : pC.stored.take m.length = m) :
    Element.status H pC m.length ⟨lumoRowsumType, alg, spec.digest m⟩ =
      if spec.length = 0 ∨ Readable pC m.length then .accepted else .rejected := by
  have hlen := digest_length hs m
  rw [Element.status, if_neg (by simp)]
  simp only [hs, hlen, hm, ne_eq, not_true_eq_false, if_false, if_true]
  by_cases hzero : spec.length = 0
  · simp [hzero]
  · by_cases hread : Readable pC m.length
    · simp [hzero, hread, not_unreadable_iff.mpr hread]
    · have hu : Unreadable pC m.length := not_not.mp (mt not_unreadable_iff.mp hread)
      simp [hzero, hread, hu]

/-- The checker accepts the extension over the first bytes of the stored row. -/
theorem handle_extension {alg : ℕ} {spec : LumoRowsumSpec}
    (hs : (lumoRowsumAlgorithms H)[alg]? = some spec) {pC : PayloadReader} (hC : pC.Complete)
    {m : Bytes} (hm : pC.stored.take m.length = m) (check : ℕ) (rest : Bytes) :
    lumoExtensionHandle F H check (extensionBytes alg spec m ++ rest) m.length
      (lumoExtensionLength F H alg) pC = some 1 := by
  have hcol := extension_wellFormed (F := F) hs m rest
  by_cases hcheck : check = 0
  · rw [hcheck, handle_verdict hcol]
    rfl
  · have hstored : m.length ≤ pC.stored.length := by
      have := congrArg List.length hm
      rw [List.length_take] at this
      omega
    rw [handle_verdict hcol, checkedStatuses, if_neg hcheck, List.map_singleton,
      extension_status hs hm, if_pos (Or.inr (hC.readable hstored))]
    rfl

/-- When every rowsum is demanded, the extension is accepted only if the bytes it was made of
can be read again, or its digest has no bytes. -/
theorem handle_extension_always {alg : ℕ} {spec : LumoRowsumSpec}
    (hs : (lumoRowsumAlgorithms H)[alg]? = some spec) {pC : PayloadReader} {m : Bytes}
    (hm : pC.stored.take m.length = m) (rest : Bytes) :
    lumoExtensionHandle F H 2 (extensionBytes alg spec m ++ rest) m.length
      (lumoExtensionLength F H alg) pC =
        some (if spec.length = 0 ∨ Readable pC m.length then 1 else -1) := by
  rw [handle_verdict (extension_wellFormed hs m rest), checkedStatuses, if_neg (by decide),
    List.map_singleton, extension_status hs hm]
  split_ifs <;> rfl

/-- Where the header entry and the body of the column after `pre` start. -/
def Record.entryOffset (R : Record F) (pre : List ℕ) : ℕ :=
  (F.putVarint32 R.nHdr).length + (pre.flatMap F.putVarint32).length

def Record.columnOffset (R : Record F) (pre : List ℕ) : ℕ :=
  R.nHdr + (pre.map F.sqlite3VdbeSerialTypeLen).sum

theorem Record.skipColumns_header (R : Record F) {pre mid post : List ℕ}
    (ht : R.types = pre ++ mid ++ post) (tail : Bytes) {nData : ℕ} (hh : R.nHdr < 2 ^ 32)
    (hcol : R.columnOffset (pre ++ mid) < nData) (hnd : nData < 2 ^ 64) :
    skipColumns F (R.header ++ tail) R.nHdr nData mid.length (R.entryOffset pre)
        (R.columnOffset pre) =
      some (0, R.entryOffset (pre ++ mid), R.columnOffset (pre ++ mid)) := by
  have hlen := R.header_length
  simp only [Record.header, ht, List.flatMap_append, List.length_append] at hlen
  have hdrop : (R.header ++ tail).drop (R.entryOffset pre) =
      mid.flatMap F.putVarint32 ++ (post.flatMap F.putVarint32 ++ tail) := by
    have hpre : R.header ++ tail = (F.putVarint32 R.nHdr ++ pre.flatMap F.putVarint32) ++
        (mid.flatMap F.putVarint32 ++ (post.flatMap F.putVarint32 ++ tail)) := by
      simp only [Record.header, ht, List.flatMap_append, List.append_assoc]
    rw [hpre, List.drop_left' (by rw [List.length_append, Record.entryOffset])]
  have hsum : R.columnOffset (pre ++ mid) =
      R.columnOffset pre + (mid.map F.sqlite3VdbeSerialTypeLen).sum := by
    simp only [Record.columnOffset, List.map_append, List.sum_append, Nat.add_assoc]
  have hoff : R.entryOffset (pre ++ mid) =
      R.entryOffset pre + (mid.flatMap F.putVarint32).length := by
    simp only [Record.entryOffset, List.flatMap_append, List.length_append, Nat.add_assoc]
  rw [hsum] at hcol ⊢
  rw [hoff]
  refine skipColumns_run mid _ _ ?_ hdrop ?_ hh hcol hnd
  · intro t hm
    exact R.types_lt t (by rw [ht]; simp [hm])
  · rw [Record.entryOffset]
    omega

theorem blobTypeLength_blob {n : ℕ} (h4 : 4 < n) :
    blobTypeLength ((n * 2 + 12 : ℕ) : ℤ) = some (n : ℤ) := by
  have hhalf : (((n * 2 + 12 : ℕ) : ℤ) - 12) / 2 = (n : ℤ) := by omega
  rw [blobTypeLength, if_neg (by omega), hhalf]

theorem blobLength_put {zData tail : Bytes} {nHeader nOffset n : ℕ} (hn : n < 2 ^ 29)
    (h4 : 4 < n) (hoff : nOffset < nHeader)
    (hdrop : zData.drop nOffset = F.putVarint32 (n * 2 + 12) ++ tail) :
    blobLength F zData nHeader nOffset = some (some (n : ℤ)) := by
  have hint : toInt (n * 2 + 12 : ℕ) = ((n * 2 + 12 : ℕ) : ℤ) := toInt_natCast (by omega)
  have hget := F.getVarint32_put (n * 2 + 12) tail (by omega)
  rw [blobLength, if_neg (by omega), hdrop, hget, Option.map_some, hint, blobTypeLength_blob h4]

theorem trailerLength_eq {zData : Bytes} {nHeader nData nCol t n : ℕ} (hn : n < 2 ^ 31)
    (hr : isRowidType t = true) (hpos : nHeader ≠ 0)
    (hbyte : zData[nHeader - 1]? = some (UInt8.ofNat t))
    (hnData : nData = nCol + n + F.sqlite3VdbeSerialTypeLen t) :
    trailerLength F zData nHeader nData nCol = some (some (n : ℤ)) := by
  have htype : (UInt8.ofNat t).toNat = t := by
    have := isRowidType_lt hr
    rw [UInt8.toNat_ofNat', Nat.mod_eq_of_lt (by omega)]
  have hdiff : (nData : ℤ) - (F.sqlite3VdbeSerialTypeLen t : ℕ) - (nCol : ℕ) = (n : ℤ) := by omega
  have hint : toInt (toU64 (n : ℤ)) = (n : ℤ) := by
    rw [toU64_natCast (by omega), toInt_natCast hn]
  rw [trailerLength, if_neg hpos, hbyte]
  simp only [Option.bind_eq_bind, Option.bind_some, htype, hr, Bool.not_true, Bool.false_eq_true,
    if_false]
  rw [hdiff, hint]

/-- In a table the extension is the blob after the columns. -/
theorem present_table (R : Record F) {pre mid : List ℕ} {n : ℕ}
    (ht : R.types = pre ++ mid ++ [n * 2 + 12]) (h4 : 4 < n) (hn : n < 2 ^ 29) (tail : Bytes)
    {nData : ℕ} (hh : R.nHdr < 2 ^ 32) (hcol : R.columnOffset (pre ++ mid) < nData)
    (hnd : nData < 2 ^ 64) :
    lumoExtensionPresent F false pre.length (R.entryOffset pre) (R.columnOffset pre)
        (pre ++ mid).length (R.header ++ tail) R.nHdr nData =
      some (some (R.columnOffset (pre ++ mid), n)) := by
  have hskip := R.skipColumns_header ht tail hh hcol hnd
  have hleft : (pre ++ mid).length - pre.length = mid.length := by simp
  have hlen := R.header_length
  have hput := F.putVarint32_length (n * 2 + 12) (by omega)
  have hpos := varintSize_pos (n * 2 + 12)
  simp only [Record.header, ht, List.flatMap_append, List.flatMap_cons, List.flatMap_nil,
    List.append_nil, List.length_append] at hlen
  have hdrop : (R.header ++ tail).drop (R.entryOffset (pre ++ mid)) =
      F.putVarint32 (n * 2 + 12) ++ tail := by
    have hpre : R.header ++ tail = (F.putVarint32 R.nHdr ++ (pre ++ mid).flatMap F.putVarint32) ++
        (F.putVarint32 (n * 2 + 12) ++ tail) := by
      simp only [Record.header, ht, List.flatMap_append, List.flatMap_cons, List.flatMap_nil,
        List.append_nil, List.append_assoc]
    rw [hpre, List.drop_left' (by rw [List.length_append, Record.entryOffset])]
  have hoff : R.entryOffset (pre ++ mid) < R.nHdr := by
    simp only [Record.entryOffset, List.flatMap_append, List.length_append]
    omega
  rw [lumoExtensionPresent, hleft, hskip]
  simp only [Option.bind_eq_bind, Option.bind_some, lt_irrefl, if_false, Bool.false_eq_true,
    blobLength_put hn h4 hoff hdrop, toU64_natCast (show n < 2 ^ 64 by omega)]
  rw [if_neg (by simpa [lumoExtensionMagic] using h4)]

/-- In an index the extension is between the old key and the copy of the rowid. -/
theorem present_index (R : Record F) {pre mid : List ℕ} {t n : ℕ}
    (ht : R.types = pre ++ mid) (hr : R.RowidByte t)
    (h4 : 4 < n) (hn : n < 2 ^ 31) (tail : Bytes) {nData : ℕ} (hh : R.nHdr < 2 ^ 32)
    (hcol : nData = R.columnOffset R.types + n + F.sqlite3VdbeSerialTypeLen t)
    (hnd : nData < 2 ^ 64) :
    lumoExtensionPresent F true pre.length (R.entryOffset pre) (R.columnOffset pre)
        R.types.length (R.header ++ tail) R.nHdr nData =
      some (some (R.columnOffset R.types, n)) := by
  have hskip := R.skipColumns_header (show R.types = pre ++ mid ++ [] by simpa using ht) tail hh
    (by rw [← ht]; omega) hnd
  have hleft : R.types.length - pre.length = mid.length := by simp [ht]
  have hbyte : (R.header ++ tail)[R.nHdr - 1]? = some (UInt8.ofNat t) :=
    Record.last_byte_append hr tail
  rw [← ht] at hskip
  rw [lumoExtensionPresent, hleft, hskip]
  simp only [Option.bind_eq_bind, Option.bind_some, lt_irrefl, if_false, if_true,
    trailerLength_eq hn hr.isRowid R.nHdr_pos.ne' hbyte hcol, toU64_natCast (show n < 2 ^ 64 by omega)]
  rw [if_neg (by simpa [lumoExtensionMagic] using h4)]

/-- The new record has its extension found from every parsed prefix and accepted in every
check mode. The last part is what `lumoExtension` wrote behind the message it hashed. -/
def RoundTrips (F : SqliteFormat) (H : RowsumHashes) (alg : ℕ) (isIndex : Bool) (R : Record F) :
    Prop :=
  ∃ (zNew : Block UInt8) (nHeader nLenHeader : ℕ) (message ext : Bytes),
    lumoExtensionAdd F H alg false isIndex R.packed R.nZero = some ⟨sqliteOk, some zNew⟩ ∧
    F.getVarint32 (zNew.contents 0) = some (nHeader, nLenHeader) ∧
    (∀ pre mid, R.types = pre ++ mid →
      lumoExtensionPresent F isIndex pre.length
          (nLenHeader + (pre.flatMap F.putVarint32).length)
          (nHeader + (pre.map F.sqlite3VdbeSerialTypeLen).sum) R.types.length (zNew.contents 0)
          nHeader zNew.size = some (some (message.length, ext.length))) ∧
    (∀ check pC, pC.stored = zNew.contents 0 → pC.Complete →
      lumoExtensionHandle F H check ext message.length ext.length pC = some 1) ∧
    message ++ ext <+: zNew.contents 0 ∧
    ∀ n, lumoExtension F H alg 0 message.length (filled message (ext.length + n)) =
      some (filled (message ++ ext) n)

/-- The new table record as a record of its own: its blob starts where the message ends. -/
theorem exists_storedRecord {alg : ℕ} {spec : LumoRowsumSpec}
    (hs : (lumoRowsumAlgorithms H)[alg]? = some spec) (R : Record F) (hR : R.size < 2 ^ 30) :
    ∃ R' : Record F, R'.packed = tableRecord F H alg R ++ extensionBytes alg spec (tableRecord F H alg R) ∧
      R'.types = R.types ++ [blobType F H alg] ∧ R'.nHdr < 2 ^ 31 ∧
      (tableRecord F H alg R).length = R'.columnOffset R.types ∧ R'.columnOffset R.types < 2 ^ 31 := by
  have hext := extensionBytes_length (F := F) hs (tableRecord F H alg R)
  have hst := blobType_lt (F := F) hs
  obtain ⟨R', hp, ht, hb, hz, hhdr⟩ := exists_tableRecord hs R hR _ hext
  obtain ⟨_, hlo, hhi⟩ := extendedHeader_eq (F := F) (R.nHdr_split hR) (R.nHdr_lt hR) hst
  have hmsg : (tableRecord F H alg R).length = R'.columnOffset R.types := by
    have hsum := R.body_eq
    rw [tableRecord, tableMessage_length R hR hst, Record.columnOffset, hhdr]
    omega
  have hRlt := R.nHdr_lt hR
  have hsize := hR
  rw [R.size_eq] at hsize
  refine ⟨R', hp, ht, by omega, hmsg, ?_⟩
  rw [Record.columnOffset, hhdr]
  omega

theorem filled_packed (R : Record F) : (filled R.packed 0).block.contents (0 : UInt8) = R.header ++ R.body := by
  rw [filled_contents, List.replicate_zero, List.append_nil, Record.packed]

theorem getVarint32_filled (R : Record F) (hh : R.nHdr < 2 ^ 31) :
    F.getVarint32 ((filled R.packed 0).block.contents (0 : UInt8)) =
      some (R.nHdr, (F.putVarint32 R.nHdr).length) := by
  rw [filled_packed, Record.header, List.append_assoc, F.getVarint32_put _ _ (by omega),
    F.putVarint32_length _ (by omega)]

theorem roundTrips_table {alg : ℕ} {spec : LumoRowsumSpec}
    (hs : (lumoRowsumAlgorithms H)[alg]? = some spec) (R : Record F) (hR : R.size < 2 ^ 30) :
    RoundTrips F H alg false R := by
  have hlen := lumoExtensionLength_eq (F := F) hs
  have hspec := spec_length_le hs
  have hext := extensionBytes_length (F := F) hs (tableRecord F H alg R)
  obtain ⟨R', hp, ht, hh, hmsg, hcol⟩ := exists_storedRecord hs R hR
  have hnData : R'.packed.length + 0 = R'.columnOffset R.types + lumoExtensionLength F H alg := by
    rw [hp, List.length_append, hmsg, hext, Nat.add_zero]
  refine ⟨_, R'.nHdr, (F.putVarint32 R'.nHdr).length, tableRecord F H alg R,
    extensionBytes alg spec (tableRecord F H alg R), lumoExtensionAdd_table hs R hR, ?_, ?_, ?_, ?_, ?_⟩
  · rw [← hp]
    exact getVarint32_filled R' hh
  · intro pre mid hpre
    rw [← hp, filled_packed, filled_size, hnData, hext, hmsg, hpre]
    exact present_table R' (by rw [ht, hpre, blobType]) (by omega) (by omega) R'.body (by omega)
      (by rw [← hpre]; omega) (by rw [← hpre]; omega)
  · intro check pC hstored hC
    rw [hext, ← List.append_nil (extensionBytes _ _ _)]
    refine handle_extension hs hC ?_ check []
    rw [hstored, filled_contents, List.replicate_zero, List.append_nil, List.take_left' rfl]
  · exact ⟨[], by rw [filled_contents, List.replicate_zero]⟩
  · intro n
    rw [lumoExtension_filled hs _ _ (by omega), hext, Nat.add_sub_cancel_left]

theorem roundTrips_index {alg : ℕ} {spec : LumoRowsumSpec}
    (hs : (lumoRowsumAlgorithms H)[alg]? = some spec) (R : Record F) (hR : R.size < 2 ^ 30)
    {t : ℕ} (hr : R.RowidByte t) : RoundTrips F H alg true R := by
  have hz := hr.complete
  have hlen := lumoExtensionLength_eq (F := F) hs
  have hspec := spec_length_le hs
  have hext := extensionBytes_length (F := F) hs R.packed
  have hmsg : R.packed.length = R.columnOffset R.types := by
    have hsum := R.body_eq
    rw [R.packed_length, Record.columnOffset]
    omega
  have hh : R.nHdr < 2 ^ 32 := (R.nHdr_lt hR).trans (by decide)
  have hsize := hR
  rw [R.size_eq, ← Record.columnOffset] at hsize
  have hrow := rowidBytes_length hr
  have hle := hr.le
  have hpl := R.packed_length
  have hcontents : (filled (R.packed ++ extensionBytes alg spec R.packed ++ rowidBytes R t) 0).block.contents
      (0 : UInt8) = R.header ++ (R.body ++ extensionBytes alg spec R.packed ++ rowidBytes R t) := by
    rw [filled_contents, List.replicate_zero, List.append_nil, Record.packed, List.append_assoc,
      List.append_assoc, List.append_assoc]
  rw [RoundTrips, hz]
  refine ⟨_, R.nHdr, (F.putVarint32 R.nHdr).length, R.packed, extensionBytes alg spec R.packed,
    lumoExtensionAdd_index hs R hR hr, ?_, ?_, ?_, ?_, ?_⟩
  · rw [hcontents, Record.header, List.append_assoc, F.getVarint32_put _ _ hh,
      F.putVarint32_length _ hh]
  · intro pre mid hpre
    rw [hcontents, filled_size, hext, hmsg]
    refine present_index R hpre hr (by omega) (by omega) _ hh ?_ ?_
    · simp only [List.length_append, hext, hmsg, hrow, Nat.add_zero]
    · simp only [List.length_append, hext, hmsg, hrow]
      omega
  · intro check pC hstored hC
    rw [hext, ← List.append_nil (extensionBytes _ _ _)]
    refine handle_extension hs hC ?_ check []
    rw [hstored, filled_contents, List.replicate_zero, List.append_nil, List.append_assoc,
      List.take_left' rfl]
  · rw [filled_contents, List.replicate_zero, List.append_nil]
    exact List.prefix_append _ _
  · intro n
    rw [lumoExtension_filled hs _ _ (by omega), hext, Nat.add_sub_cancel_left]

/-- Rowsum round trip, for rows of tables and for index keys that end in a rowid. -/
theorem rowsum_roundTrip (F : SqliteFormat) (H : RowsumHashes) (alg : ℕ)
    (halg : alg < lumoRowsumNAlgorithms H) (R : Record F) (hR : R.size < 2 ^ 30) :
    RoundTrips F H alg false R ∧
    ∀ init t, R.types = init ++ [t] → isRowidType t = true → R.nZero = 0 →
      RoundTrips F H alg true R := by
  obtain ⟨spec, hs⟩ := spec_of_lt halg
  exact ⟨roundTrips_table hs R hR, fun _ _ ht hr hz =>
    roundTrips_index hs R hR (R.rowidByte ht hr hz)⟩

theorem rowsum_roundTrip_sample :
    RoundTrips documented prefixHashes 3 false sampleRecord ∧
    ∀ init t, sampleRecord.types = init ++ [t] → isRowidType t = true → sampleRecord.nZero = 0 →
      RoundTrips documented prefixHashes 3 true sampleRecord :=
  rowsum_roundTrip documented prefixHashes 3 (by decide) sampleRecord (by decide)

end LumoSql.LumoExtension
