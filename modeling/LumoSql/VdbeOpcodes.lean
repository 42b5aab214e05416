import LumoSql.RowsumRoundTrip

/-! The opcodes that store rows and the check made when a row's header is first parsed:
which of the stored rows pass it when every row must carry a rowsum. -/
namespace LumoSql.VdbeOpcodes
open LumoExtension RowsumAlgorithms WriteBlocks SqliteRecordFormat

structure VdbeCursor where
  isTable : Bool
  isEphemeral : Bool
  deriving DecidableEq

/-- Data of a table row with `nZero` zeros implied, or the key of an index row. -/
structure BtreePayload where
  data : Bytes
  nZero : ℕ
  deriving DecidableEq

/-- What `sqlite3BtreeInsert` stores for a payload that is not preformatted. -/
def BtreePayload.row (x : BtreePayload) : Bytes := x.data ++ List.replicate x.nZero 0

/-- An opcode jumps to `abort_due_to_error` or calls `sqlite3BtreeInsert`. -/
inductive OpResult
  | abortDueToError (rc : Rc)
  | btreeInsert (x : BtreePayload)
  deriving DecidableEq

/-- The payload with the extension in it; `nZero` keeps its value. -/
def BtreePayload.extend (x : BtreePayload) (r : AddResult) : OpResult :=
  if r.rc ≠ sqliteOk then .abortDueToError r.rc
  else match r.zNew with
    | some zLumoExt => .btreeInsert { x with data := zLumoExt.contents 0 }
    | none => .btreeInsert x

variable (F : SqliteFormat) (H : RowsumHashes)

def opInsert (alg : ℕ) (oom preformat : Bool) (pC : VdbeCursor) (x : BtreePayload) :
    Option OpResult :=
  if !preformat && !pC.isEphemeral then
    (lumoExtensionAdd F H alg oom false x.data x.nZero).map x.extend
  else some (.btreeInsert x)

def opIdxInsert (alg : ℕ) (oom : Bool) (x : BtreePayload) : Option OpResult :=
  (lumoExtensionAdd F H alg oom true x.data 0).map x.extend

/-- The Lumo part of `OP_Column`, made once the header is parsed for the first time: `true`
is the jump to `op_column_corrupt`. `zData` is what is in memory from `pC->aRow` on. -/
def opColumnCheck (check : ℕ) (pC : VdbeCursor) (nHdrParsed iHdrOffset aOffset nField : ℕ)
    (zData : Bytes) (nHeader payloadSize : ℕ) (pCursor : PayloadReader) : Option Bool := do
  match ← lumoExtensionPresent F (!pC.isTable) nHdrParsed iHdrOffset aOffset nField zData nHeader
      payloadSize with
  | some (nStart, nLen) =>
    let ok ← lumoExtensionHandle F H check (zData.drop nStart) nStart nLen pCursor
    if ok < 0 then some true
    else some (decide (ok = 0 ∧ lumoExtensionMissing check = 0))
  | none => some (decide (lumoExtensionMissing check = 0))

/-- `pC->aRow` points at the first `szRow` bytes of the row; the copy of a longer header has
been released by the time of the check. -/
def aRow (row : Bytes) (nHeader szRow : ℕ) : Bytes :=
  if szRow < nHeader then [] else row.take szRow

/-- How a row came to be stored: by `OP_Insert` or `OP_IdxInsert`, from a record or, when
preformatted, as a copy of a row of another table or index. -/
inductive Insertion (F : SqliteFormat)
  | insert (isEphemeral oom : Bool) (R : Record F)
  | idxInsert (isEphemeral oom : Bool) (R : Record F) (complete : R.nZero = 0)
  | preformat (isEphemeral oom : Bool) (x : BtreePayload) (source : Insertion F)

variable {F}

def Insertion.isTable : Insertion F → Bool
  | insert _ _ _ => true
  | idxInsert _ _ _ _ => false
  | preformat _ _ _ source => source.isTable

def Insertion.record : Insertion F → Record F
  | insert _ _ R => R
  | idxInsert _ _ R _ => R
  | preformat _ _ _ source => source.record

/-- The stored row, `none` when the opcode stores nothing. -/
def Insertion.stored (alg : ℕ) : Insertion F → Option Bytes
  | insert isEphemeral oom R =>
    match opInsert F H alg oom false ⟨true, isEphemeral⟩ ⟨R.packed, R.nZero⟩ with
    | some (.btreeInsert x) => some x.row
    | _ => none
  | idxInsert _ oom R _ =>
    match opIdxInsert F H alg oom ⟨R.packed, 0⟩ with
    | some (.btreeInsert x) => some x.row
    | _ => none
  | preformat isEphemeral oom x source =>
    match (if source.isTable then opInsert F H alg oom true ⟨true, isEphemeral⟩ x
      else opIdxInsert F H alg oom x) with
    | some (.btreeInsert _) => source.stored alg
    | _ => none

/-- The row does not come from `OP_Insert` into an ephemeral table. -/
def Insertion.Extended : Insertion F → Prop
  | insert isEphemeral _ _ => isEphemeral = false
  | idxInsert _ _ _ _ => True
  | preformat _ _ _ source => source.Extended

/-- The length of what the rowsum is the digest of; the Lumo column comes next. -/
def Insertion.lumoStart (alg : ℕ) : Insertion F → ℕ
  | insert _ _ R => (tableRecord F H alg R).length
  | idxInsert _ _ R _ => R.packed.length
  | preformat _ _ _ source => source.lumoStart alg

/-- Where the Lumo column of the row ends. -/
def Insertion.lumoEnd (alg : ℕ) (ins : Insertion F) : ℕ :=
  ins.lumoStart H alg + lumoExtensionLength F H alg

/-- The rowsum of the first `nSum` bytes can be computed again: it has no bytes, or they can be
read. -/
def Recomputable (alg : ℕ) (pCursor : PayloadReader) (nSum : ℕ) : Prop :=
  rowsumLength H alg = 0 ∨ Readable pCursor nSum

variable {H}

/-- The check cannot pass on an extension that is not all in memory. -/
theorem handle_short {check nSum nLen : ℕ} {zRow : Bytes} (h4 : 4 < nLen)
    (hshort : zRow.length < nLen) (pC : PayloadReader) :
    lumoExtensionHandle F H check zRow nSum nLen pC = none ∨
    lumoExtensionHandle F H check zRow nSum nLen pC = some 0 := by
  have hmagic : lumoExtensionMagic.length = 4 := rfl
  rw [lumoExtensionHandle, hmagic, if_neg (by omega)]
  simp only [Option.bind_eq_bind]
  by_cases hlen : zRow.length < 4
  · rw [if_pos hlen]
    exact Or.inl rfl
  · rw [if_neg hlen]
    by_cases hm : zRow.take 4 ≠ lumoExtensionMagic
    · rw [if_pos hm]
      exact Or.inr rfl
    · rw [if_neg hm, List.getElem?_eq_none (by omega)]
      exact Or.inl rfl

theorem getVarint32_nil : F.getVarint32 [] = none := by
  cases h : F.getVarint32 [] with
  | none => rfl
  | some p =>
    have := F.getVarint32_bounds [] p.1 p.2 h
    simp only [List.length_nil] at this
    omega

/-- Nothing is found when nothing is in memory. -/
theorem present_nil (isIndex : Bool) (nParsed o c nField nHeader nData : ℕ) (p : ℕ × ℕ) :
    lumoExtensionPresent F isIndex nParsed o c nField [] nHeader nData ≠ some (some p) := by
  intro h
  rw [lumoExtensionPresent, Option.bind_eq_bind, Option.bind_eq_some_iff] at h
  obtain ⟨⟨left, o', c'⟩, hskip, h⟩ := h
  by_cases hleft : 0 < left
  · simp [hleft] at h
  · obtain rfl := Nat.eq_zero_of_not_pos hleft
    cases isIndex with
    | true =>
      by_cases hz : nHeader = 0
      · simp [trailerLength, hz] at h
      · simp [trailerLength, hz] at h
    | false =>
      by_cases ho : nHeader ≤ o'
      · simp [blobLength, ho] at h
      · simp [blobLength, ho, getVarint32_nil] at h

/-- Where parsing the entries of `mid` leads, if it gets through them all. -/
theorem skipColumns_offset {zData rest : Bytes} {nHeader nData : ℕ} (mid : List ℕ) (o c : ℕ)
    {o' c' : ℕ} (hmid : ∀ t ∈ mid, t < 2 ^ 32)
    (hdata : zData.drop o = mid.flatMap F.putVarint32 ++ rest)
    (hlt : o + (mid.flatMap F.putVarint32).length < 2 ^ 32)
    (h : skipColumns F zData nHeader nData mid.length o c = some (0, o', c')) :
    o' = o + (mid.flatMap F.putVarint32).length := by
  induction mid generalizing o c with
  | nil =>
    simp only [List.length_nil, skipColumns, Option.some.injEq, Prod.mk.injEq] at h
    simp [h.2.1]
  | cons t mid ih =>
    have ht := hmid t List.mem_cons_self
    have hput := F.putVarint32_length t ht
    have hget := F.getVarint32_put t (mid.flatMap F.putVarint32 ++ rest) ht
    simp only [List.flatMap_cons, List.append_assoc, List.length_append] at hdata hlt ⊢
    have hnext : zData.drop (o + varintSize t) = mid.flatMap F.putVarint32 ++ rest := by
      rw [← List.drop_drop, hdata, List.drop_left' hput]
    rw [List.length_cons, skipColumns] at h
    split_ifs at h
    · simp only [hdata, hget, Option.bind_eq_bind, Option.bind_some] at h
      rw [Nat.mod_eq_of_lt (by omega)] at h
      have := ih _ _ (fun u hu => hmid u (List.mem_cons_of_mem _ hu)) hnext (by omega) h
      omega
    · simp at h

/-- No blob is found behind the columns of a record that was stored as it was packed. -/
theorem present_bare (R : Record F) (hR : R.size < 2 ^ 30) {pre mid : List ℕ}
    (hpre : R.types = pre ++ mid) (tail : Bytes) (nData : ℕ) (p : ℕ × ℕ) :
    lumoExtensionPresent F false pre.length (R.entryOffset pre) (R.columnOffset pre) R.types.length
      (R.header ++ tail) R.nHdr nData ≠ some (some p) := by
  intro h
  have hlen := R.header_length
  have hlt := R.nHdr_lt hR
  have hheader : R.header = (F.putVarint32 R.nHdr ++ pre.flatMap F.putVarint32) ++
      mid.flatMap F.putVarint32 := by
    rw [Record.header, hpre, List.flatMap_append, List.append_assoc]
  have hdrop : (R.header ++ tail).drop (R.entryOffset pre) = mid.flatMap F.putVarint32 ++ tail := by
    rw [hheader, List.append_assoc, List.drop_left' (by rw [List.length_append, Record.entryOffset])]
  have hoff : R.entryOffset pre + (mid.flatMap F.putVarint32).length = R.nHdr := by
    rw [← hlen, hheader]
    simp only [List.length_append, Record.entryOffset]
  have hmid : ∀ t ∈ mid, t < 2 ^ 32 := fun t ht => R.types_lt t (by simp [hpre, ht])
  have hleft : R.types.length - pre.length = mid.length := by simp [hpre]
  rw [lumoExtensionPresent, hleft, Option.bind_eq_bind, Option.bind_eq_some_iff] at h
  obtain ⟨⟨left, o, c⟩, hskip, h⟩ := h
  by_cases hpos : 0 < left
  · simp [hpos] at h
  · obtain rfl := Nat.eq_zero_of_not_pos hpos
    have ho := skipColumns_offset mid _ _ hmid hdrop (by omega) hskip
    have hend : R.nHdr ≤ o := by omega
    simp [blobLength, hend] at h

theorem opColumnCheck_missing {pC : VdbeCursor} {nHdrParsed iHdrOffset aOffset nField : ℕ}
    {zData : Bytes} {nHeader payloadSize : ℕ} {pCursor : PayloadReader}
    (h : ∀ p, lumoExtensionPresent F (!pC.isTable) nHdrParsed iHdrOffset aOffset nField zData
      nHeader payloadSize ≠ some (some p)) :
    opColumnCheck F H 2 pC nHdrParsed iHdrOffset aOffset nField zData nHeader payloadSize pCursor ≠
      some false := by
  rw [opColumnCheck, Option.bind_eq_bind]
  cases hp : lumoExtensionPresent F (!pC.isTable) nHdrParsed iHdrOffset aOffset nField zData
      nHeader payloadSize with
  | none => simp
  | some found =>
    cases found with
    | none => simp [lumoExtensionMissing]
    | some p => exact absurd hp (h p)

/-- Where the extension over `m` is found behind `m`, the check passes when all of it is in
memory and `m` can be read again. -/
theorem opColumnCheck_present {alg : ℕ} {spec : LumoRowsumSpec}
    (hs : (lumoRowsumAlgorithms H)[alg]? = some spec) {pC : VdbeCursor}
    {nHdrParsed iHdrOffset aOffset nField : ℕ} {m rest : Bytes} {nHeader payloadSize szRow : ℕ}
    {pCursor : PayloadReader}
    (hrow : pCursor.stored = m ++ (extensionBytes alg spec m ++ rest))
    (h : lumoExtensionPresent F (!pC.isTable) nHdrParsed iHdrOffset aOffset nField
      (pCursor.stored.take szRow) nHeader payloadSize =
        some (some (m.length, lumoExtensionLength F H alg))) :
    opColumnCheck F H 2 pC nHdrParsed iHdrOffset aOffset nField (pCursor.stored.take szRow) nHeader
        payloadSize pCursor = some false ↔
      m.length + lumoExtensionLength F H alg ≤ szRow ∧ Recomputable H alg pCursor m.length := by
  have hext := extensionBytes_length (F := F) hs m
  have h8 := lumoExtensionLength_eq (F := F) hs
  have hdrop : (pCursor.stored.take szRow).drop m.length =
      (extensionBytes alg spec m ++ rest).take (szRow - m.length) := by
    rw [hrow, List.drop_take, List.drop_left' rfl]
  rw [opColumnCheck, h]
  simp only [Option.bind_eq_bind, Option.bind_some, hdrop]
  by_cases hin : m.length + lumoExtensionLength F H alg ≤ szRow
  · have htake : pCursor.stored.take m.length = m := by rw [hrow, List.take_left' rfl]
    rw [List.take_append, List.take_of_length_le (by omega), handle_extension_always hs htake,
      Recomputable, rowsumLength_eq hs]
    by_cases hread : spec.length = 0 ∨ Readable pCursor m.length
    · simp [hin, hread]
    · simp [hread]
  · have hshort : ((extensionBytes alg spec m ++ rest).take (szRow - m.length)).length <
        lumoExtensionLength F H alg := by
      rw [List.length_take]
      omega
    have hcases : lumoExtensionHandle F H 2 _ m.length _ pCursor = none ∨
        lumoExtensionHandle F H 2 _ m.length _ pCursor = some 0 :=
      handle_short (by omega) hshort pCursor
    rcases hcases with h | h
    · simp [h, hin]
    · simp [h, hin, lumoExtensionMissing]

theorem lumoExtensionAdd_oom {alg : ℕ} {spec : LumoRowsumSpec}
    (hs : (lumoRowsumAlgorithms H)[alg]? = some spec) {isIndex : Bool} {zOld : Bytes} {nZero : ℕ}
    {r : AddResult} (h : lumoExtensionAdd F H alg true isIndex zOld nZero = some r) :
    r.rc ≠ sqliteOk := by
  have hpos : 0 < lumoExtensionLength F H alg := by
    rw [lumoExtensionLength_eq hs]
    omega
  rw [lumoExtensionAdd, if_pos hpos, Option.bind_eq_bind, Option.bind_eq_some_iff] at h
  obtain ⟨⟨oldHdr, oldLen⟩, _, h⟩ := h
  cases isIndex with
  | true =>
    by_cases h0 : oldHdr = 0
    · simp [h0] at h
    · simp only [if_true, if_neg h0, Option.bind_eq_bind, Option.bind_eq_some_iff] at h
      obtain ⟨b, _, h⟩ := h
      split_ifs at h <;> obtain rfl := Option.some.inj h <;> decide
  | false =>
    simp only [Bool.false_eq_true, if_false, if_true] at h
    obtain rfl := Option.some.inj h
    decide

/-- An index key is only extended when its last header byte can be that of a rowid. -/
theorem rowidByte_of_add {alg : ℕ} {spec : LumoRowsumSpec}
    (hs : (lumoRowsumAlgorithms H)[alg]? = some spec) {R : Record F} (hR : R.size < 2 ^ 30)
    (hz : R.nZero = 0) {r : AddResult}
    (h : lumoExtensionAdd F H alg false true R.packed 0 = some r) (hok : r.rc = sqliteOk) :
    ∃ t, R.RowidByte t := by
  have hpos : 0 < lumoExtensionLength F H alg := by
    rw [lumoExtensionLength_eq hs]
    omega
  simp only [lumoExtensionAdd, if_pos hpos, R.getVarint32_packed hR, Option.bind_eq_bind,
    Option.bind_some, if_true, if_neg R.nHdr_pos.ne', Option.bind_eq_some_iff] at h
  obtain ⟨b, hb, h⟩ := h
  have hr : isRowidType b.toNat = true := by
    by_contra hr
    rw [if_pos (by simpa using hr), Option.some.injEq] at h
    subst h
    exact absurd hok (by decide)
  have hpos := R.nHdr_pos
  rw [Record.packed, List.getElem?_append_left (by rw [R.header_length]; omega)] at hb
  exact ⟨b.toNat, hr, by rw [hb, UInt8.ofNat_toNat], hz⟩

/-- A row `OP_Insert` stores in a persistent table. -/
theorem stored_insert {alg : ℕ} {spec : LumoRowsumSpec}
    (hs : (lumoRowsumAlgorithms H)[alg]? = some spec) {R : Record F} (hR : R.size < 2 ^ 30)
    {oom : Bool} {row : Bytes} (h : (Insertion.insert false oom R).stored H alg = some row) :
    row = tableRecord F H alg R ++ (extensionBytes alg spec (tableRecord F H alg R) ++
      List.replicate R.nZero 0) := by
  cases oom with
  | true =>
    simp only [Insertion.stored, opInsert, Bool.not_false, Bool.and_self, if_true] at h
    cases hadd : lumoExtensionAdd F H alg true false R.packed R.nZero with
    | none => simp [hadd] at h
    | some r => simp [hadd, BtreePayload.extend, lumoExtensionAdd_oom hs hadd] at h
  | false =>
    simp only [Insertion.stored, opInsert, Bool.not_false, Bool.and_self, if_true,
      lumoExtensionAdd_table hs R hR, Option.map_some, BtreePayload.extend, ne_eq, not_true_eq_false,
      if_false, filled_contents, List.replicate_zero, List.append_nil, BtreePayload.row,
      Option.some.injEq] at h
    rw [← h, List.append_assoc]

theorem stored_insert_ephemeral {alg : ℕ} {R : Record F} {oom : Bool} {row : Bytes}
    (h : (Insertion.insert true oom R).stored H alg = some row) :
    row = R.header ++ (R.body ++ List.replicate R.nZero 0) := by
  simp only [Insertion.stored, opInsert, Bool.not_true, Bool.and_false, Bool.false_eq_true, if_false,
    BtreePayload.row, Option.some.injEq] at h
  rw [← h, Record.packed, List.append_assoc]

theorem stored_idxInsert {alg : ℕ} {spec : LumoRowsumSpec}
    (hs : (lumoRowsumAlgorithms H)[alg]? = some spec) {R : Record F} (hR : R.size < 2 ^ 30)
    {isEphemeral oom : Bool} {hz : R.nZero = 0} {row : Bytes}
    (h : (Insertion.idxInsert isEphemeral oom R hz).stored H alg = some row) :
    ∃ t, R.RowidByte t ∧ row = R.packed ++ (extensionBytes alg spec R.packed ++ rowidBytes R t) := by
  simp only [Insertion.stored, opIdxInsert] at h
  cases hadd : lumoExtensionAdd F H alg oom true R.packed 0 with
  | none => simp [hadd] at h
  | some r =>
    by_cases hok : r.rc = sqliteOk
    · cases oom with
      | true => exact absurd hok (lumoExtensionAdd_oom hs hadd)
      | false =>
        obtain ⟨t, ht⟩ := rowidByte_of_add hs hR hz hadd hok
        rw [lumoExtensionAdd_index hs R hR ht] at h
        simp only [Option.map_some, BtreePayload.extend, ne_eq, not_true_eq_false, if_false,
          filled_contents, List.replicate_zero, List.append_nil, BtreePayload.row,
          Option.some.injEq] at h
        exact ⟨t, ht, by rw [← h, List.append_assoc]⟩
    · simp [hadd, BtreePayload.extend, hok] at h

/-- A copied row is the source's row. -/
theorem stored_preformat {alg : ℕ} {isEphemeral oom : Bool} {x : BtreePayload}
    {source : Insertion F} {row : Bytes}
    (h : (Insertion.preformat isEphemeral oom x source).stored H alg = some row) :
    source.stored H alg = some row := by
  rw [Insertion.stored] at h
  split at h
  · exact h
  · simp at h

/-- The check on a stored row, from the columns in `pre` parsed so far. -/
def rowCheck (F : SqliteFormat) (H : RowsumHashes) (pC : VdbeCursor) (R : Record F) (pre : List ℕ)
    (nHeader nLenHeader szRow : ℕ) (pCursor : PayloadReader) : Option Bool :=
  opColumnCheck F H 2 pC pre.length (nLenHeader + (pre.flatMap F.putVarint32).length)
    (nHeader + (pre.map F.sqlite3VdbeSerialTypeLen).sum) R.types.length
    (aRow pCursor.stored nHeader szRow) nHeader pCursor.stored.length pCursor

/-- Without the header in memory there is no verdict in favour of the row. -/
theorem rowCheck_short {pC : VdbeCursor} {R : Record F} {pre : List ℕ}
    {nHeader nLenHeader szRow : ℕ} {pCursor : PayloadReader} (h : szRow < nHeader) :
    rowCheck F H pC R pre nHeader nLenHeader szRow pCursor ≠ some false := by
  rw [rowCheck, aRow, if_pos h]
  exact opColumnCheck_missing fun p => present_nil _ _ _ _ _ _ _ p

theorem rowCheck_insert {alg : ℕ} {spec : LumoRowsumSpec}
    (hs : (lumoRowsumAlgorithms H)[alg]? = some spec) {R : Record F} (hR : R.size < 2 ^ 30)
    {pre mid : List ℕ} (hpre : R.types = pre ++ mid) {pC : VdbeCursor} (hkind : pC.isTable = true)
    {pCursor : PayloadReader}
    (hrow : pCursor.stored = tableRecord F H alg R ++
      (extensionBytes alg spec (tableRecord F H alg R) ++ List.replicate R.nZero 0))
    {nHeader nLenHeader : ℕ} (hget : F.getVarint32 pCursor.stored = some (nHeader, nLenHeader))
    (szRow : ℕ) :
    rowCheck F H pC R pre nHeader nLenHeader szRow pCursor = some false ↔
      (tableRecord F H alg R).length + lumoExtensionLength F H alg ≤ szRow ∧
        Recomputable H alg pCursor (tableRecord F H alg R).length := by
  have hlen := lumoExtensionLength_eq (F := F) hs
  have hspec := spec_length_le hs
  have hext := extensionBytes_length (F := F) hs (tableRecord F H alg R)
  have hst := blobType_lt (F := F) hs
  obtain ⟨R', hp, ht, hb, hz, hhdr⟩ := exists_tableRecord hs R hR _ hext
  obtain ⟨_, hlo, hhi⟩ := extendedHeader_eq (F := F) (R.nHdr_split hR) (R.nHdr_lt hR) hst
  have hmsg : (tableRecord F H alg R).length = R'.columnOffset R.types := by
    have hsum := R.body_eq
    rw [tableRecord, tableMessage_length R hR hst, Record.columnOffset, hhdr]
    omega
  have hRlt := R.nHdr_lt hR
  have hsize := hR
  rw [R.size_eq] at hsize
  have hcol : R'.columnOffset R.types < 2 ^ 31 := by
    rw [Record.columnOffset, hhdr]
    omega
  have hzero : R.nZero < 2 ^ 30 := by
    rw [Record.size] at hR
    omega
  have hh : R'.nHdr < 2 ^ 32 := by omega
  have hle : R'.nHdr ≤ (tableRecord F H alg R).length := by
    rw [hmsg, Record.columnOffset]
    omega
  have hstored : pCursor.stored = R'.header ++ (R'.body ++ List.replicate R.nZero 0) := by
    rw [hrow, ← List.append_assoc, ← hp, Record.packed, List.append_assoc]
  have hsz : pCursor.stored.length = R'.columnOffset R.types + lumoExtensionLength F H alg + R.nZero := by
    rw [hrow]
    simp only [List.length_append, List.length_replicate, hext, hmsg]
    omega
  have hhead : nHeader = R'.nHdr ∧ nLenHeader = (F.putVarint32 R'.nHdr).length := by
    rw [hstored, Record.header, List.append_assoc, F.getVarint32_put _ _ hh, Option.some.injEq,
      Prod.mk.injEq] at hget
    exact ⟨hget.1.symm, by rw [F.putVarint32_length _ hh, hget.2]⟩
  obtain ⟨rfl, rfl⟩ := hhead
  by_cases hin : szRow < R'.nHdr
  · exact ⟨fun h => absurd h (rowCheck_short hin), fun h => by have := h.1; omega⟩
  · have htake : pCursor.stored.take szRow =
        R'.header ++ (R'.body ++ List.replicate R.nZero 0).take (szRow - R'.nHdr) := by
      rw [hstored, List.take_append, List.take_of_length_le (by rw [R'.header_length]; omega),
        R'.header_length]
    have hpresent : lumoExtensionPresent F (!pC.isTable) pre.length (R'.entryOffset pre)
        (R'.columnOffset pre) R.types.length (pCursor.stored.take szRow) R'.nHdr
        pCursor.stored.length =
        some (some ((tableRecord F H alg R).length, lumoExtensionLength F H alg)) := by
      rw [htake, hkind, Bool.not_true, hpre, hmsg, hpre]
      exact present_table R' (by rw [ht, hpre, blobType]) (by omega) (by omega) _ hh
        (by rw [← hpre]; omega) (by omega)
    rw [rowCheck, aRow, if_neg hin]
    exact opColumnCheck_present hs hrow hpresent

/-- A row stored without the extension does not pass. -/
theorem rowCheck_ephemeral {R : Record F} (hR : R.size < 2 ^ 30) {pre mid : List ℕ}
    (hpre : R.types = pre ++ mid) {pC : VdbeCursor} (hkind : pC.isTable = true)
    {pCursor : PayloadReader} {tail : Bytes} (hrow : pCursor.stored = R.header ++ tail)
    {nHeader nLenHeader : ℕ} (hget : F.getVarint32 pCursor.stored = some (nHeader, nLenHeader))
    (szRow : ℕ) : rowCheck F H pC R pre nHeader nLenHeader szRow pCursor ≠ some false := by
  have hh := (R.nHdr_lt hR).trans (show 2 ^ 30 < 2 ^ 32 by decide)
  have hhead : nHeader = R.nHdr ∧ nLenHeader = (F.putVarint32 R.nHdr).length := by
    rw [hrow, Record.header, List.append_assoc, F.getVarint32_put _ _ hh, Option.some.injEq,
      Prod.mk.injEq] at hget
    exact ⟨hget.1.symm, by rw [F.putVarint32_length _ hh, hget.2]⟩
  obtain ⟨rfl, rfl⟩ := hhead
  by_cases hin : szRow < R.nHdr
  · exact rowCheck_short hin
  · rw [rowCheck, aRow, if_neg hin]
    refine opColumnCheck_missing fun p => ?_
    rw [hkind, Bool.not_true, hrow, List.take_append,
      List.take_of_length_le (by rw [R.header_length]; omega)]
    exact present_bare R hR hpre _ _ p

theorem rowCheck_idxInsert {alg : ℕ} {spec : LumoRowsumSpec}
    (hs : (lumoRowsumAlgorithms H)[alg]? = some spec) {R : Record F} (hR : R.size < 2 ^ 30)
    {t : ℕ} (ht : R.RowidByte t) {pre mid : List ℕ} (hpre : R.types = pre ++ mid)
    {pC : VdbeCursor} (hkind : pC.isTable = false) {pCursor : PayloadReader}
    (hrow : pCursor.stored = R.packed ++ (extensionBytes alg spec R.packed ++ rowidBytes R t))
    {nHeader nLenHeader : ℕ} (hget : F.getVarint32 pCursor.stored = some (nHeader, nLenHeader))
    (szRow : ℕ) :
    rowCheck F H pC R pre nHeader nLenHeader szRow pCursor = some false ↔
      R.packed.length + lumoExtensionLength F H alg ≤ szRow ∧
        Recomputable H alg pCursor R.packed.length := by
  have hlen := lumoExtensionLength_eq (F := F) hs
  have hspec := spec_length_le hs
  have hext := extensionBytes_length (F := F) hs R.packed
  have hh := (R.nHdr_lt hR).trans (show 2 ^ 30 < 2 ^ 32 by decide)
  have hpl := R.packed_length
  have hmsg : R.packed.length = R.columnOffset R.types := by
    have hsum := R.body_eq
    rw [Record.columnOffset, ← hsum, ht.complete]
    omega
  have hrowid := rowidBytes_length ht
  have hle := ht.le
  have hsize := hR
  rw [Record.size] at hsize
  have hsz : pCursor.stored.length =
      R.columnOffset R.types + lumoExtensionLength F H alg + F.sqlite3VdbeSerialTypeLen t := by
    rw [hrow]
    simp only [List.length_append, hext, hmsg, hrowid]
    omega
  have hhead : nHeader = R.nHdr ∧ nLenHeader = (F.putVarint32 R.nHdr).length := by
    rw [hrow, Record.packed, Record.header, List.append_assoc, List.append_assoc,
      F.getVarint32_put _ _ hh, Option.some.injEq, Prod.mk.injEq] at hget
    exact ⟨hget.1.symm, by rw [F.putVarint32_length _ hh, hget.2]⟩
  obtain ⟨rfl, rfl⟩ := hhead
  by_cases hin : szRow < R.nHdr
  · exact ⟨fun h => absurd h (rowCheck_short hin), fun h => by have := h.1; omega⟩
  · have htake : pCursor.stored.take szRow = R.header ++
        (R.body ++ (extensionBytes alg spec R.packed ++ rowidBytes R t)).take (szRow - R.nHdr) := by
      rw [hrow, Record.packed, List.append_assoc, List.take_append,
        List.take_of_length_le (by rw [R.header_length]; omega), R.header_length]
    have hpresent : lumoExtensionPresent F (!pC.isTable) pre.length (R.entryOffset pre)
        (R.columnOffset pre) R.types.length (pCursor.stored.take szRow) R.nHdr
        pCursor.stored.length =
        some (some (R.packed.length, lumoExtensionLength F H alg)) := by
      rw [htake, hkind, Bool.not_false, hmsg]
      exact present_index R hpre ht (by omega) (by omega) _ hh hsz (by omega)
    rw [rowCheck, aRow, if_neg hin]
    exact opColumnCheck_present hs hrow hpresent

/-- With every rowsum demanded, the check passes a stored row exactly when the row does not
come from `OP_Insert` into an ephemeral table, its Lumo column is in memory, and its rowsum has
no bytes or those it was made of can be read from the cursor. -/
theorem opColumn_accepts_iff (F : SqliteFormat) (H : RowsumHashes) (alg : ℕ)
    (halg : alg < lumoRowsumNAlgorithms H) (ins : Insertion F) (hR : ins.record.size < 2 ^ 30)
    {pCursor : PayloadReader} (hrow : ins.stored H alg = some pCursor.stored) {pC : VdbeCursor}
    (hkind : pC.isTable = ins.isTable) {pre mid : List ℕ} (hpre : ins.record.types = pre ++ mid)
    {nHeader nLenHeader : ℕ} (hget : F.getVarint32 pCursor.stored = some (nHeader, nLenHeader))
    (szRow : ℕ) :
    rowCheck F H pC ins.record pre nHeader nLenHeader szRow pCursor = some false ↔
      ins.Extended ∧ ins.lumoEnd H alg ≤ szRow ∧ Recomputable H alg pCursor (ins.lumoStart H alg) := by
  obtain ⟨spec, hs⟩ := spec_of_lt halg
  induction ins with
  | insert isEphemeral oom R =>
    cases isEphemeral with
    | false =>
      rw [Insertion.Extended, Insertion.lumoEnd, Insertion.lumoStart, eq_self, true_and]
      exact rowCheck_insert hs hR hpre hkind (stored_insert hs hR hrow) hget szRow
    | true =>
      refine ⟨fun h => ?_, fun h => absurd h.1 (by simp [Insertion.Extended])⟩
      exact absurd h (rowCheck_ephemeral hR hpre hkind (stored_insert_ephemeral hrow) hget szRow)
  | idxInsert isEphemeral oom R hz =>
    obtain ⟨t, ht, hidx⟩ := stored_idxInsert hs hR hrow
    rw [Insertion.Extended, Insertion.lumoEnd, Insertion.lumoStart, true_and]
    exact rowCheck_idxInsert hs hR ht hpre hkind hidx hget szRow
  | preformat isEphemeral oom x source ih =>
    exact ih hR (stored_preformat hrow) hkind hpre

/-- A cursor that has the whole row in memory has its Lumo column there. -/
theorem lumoEnd_le_stored {alg : ℕ} (halg : alg < lumoRowsumNAlgorithms H) {ins : Insertion F}
    (hR : ins.record.size < 2 ^ 30) {row : Bytes} (hrow : ins.stored H alg = some row)
    (hext : ins.Extended) : ins.lumoEnd H alg ≤ row.length := by
  obtain ⟨spec, hs⟩ := spec_of_lt halg
  induction ins with
  | insert isEphemeral oom R =>
    obtain rfl : isEphemeral = false := hext
    rw [stored_insert (R := R) hs hR hrow, Insertion.lumoEnd, Insertion.lumoStart]
    simp only [List.length_append, extensionBytes_length (F := F) hs]
    omega
  | idxInsert isEphemeral oom R hz =>
    obtain ⟨t, _, hidx⟩ := stored_idxInsert (R := R) hs hR hrow
    rw [hidx, Insertion.lumoEnd, Insertion.lumoStart]
    simp only [List.length_append, extensionBytes_length (F := F) hs]
    omega
  | preformat isEphemeral oom x source ih => exact ih hR (stored_preformat hrow) hext

/-- A row of an ephemeral table. -/
def ephemeralRow : Insertion documented := .insert true false sampleRecord

/-- A row of a table, copied into an ephemeral one as it is. -/
def copiedRow : Insertion documented :=
  .preformat true false ⟨[], 0⟩ (.insert false false sampleRecord)

def copiedBytes : Bytes :=
  [4, 1, 1, 92, 5, 7] ++ (lumoExtensionMagic ++ ([1, 3, 32] ++
    ([4, 1, 1, 92, 5, 7] ++ List.replicate 26 0 ++ [UInt8.ofNat lumoEndType])))

theorem opColumn_accepts_iff_sample :
    rowCheck documented prefixHashes ⟨true, true⟩ copiedRow.record [1] 4 1 46
        (PayloadReader.ofBytes copiedBytes) = some false ↔
      copiedRow.Extended ∧ copiedRow.lumoEnd prefixHashes 3 ≤ 46 ∧
        Recomputable prefixHashes 3 (PayloadReader.ofBytes copiedBytes)
          (copiedRow.lumoStart prefixHashes 3) :=
  opColumn_accepts_iff documented prefixHashes 3 (by decide) copiedRow (by decide) (by decide) rfl
    (show copiedRow.record.types = [1] ++ [1] from rfl) (by decide) 46

/-- On a cursor of the LMDB backend no rowsum with a digest can be computed again. -/
theorem recomputable_lmdb {alg nSum : ℕ} (hpos : 0 < nSum) (stored : Bytes) :
    Recomputable H alg (PayloadReader.lmdb stored) nSum ↔ rowsumLength H alg = 0 := by
  rw [Recomputable, PayloadReader.readable_lmdb]
  exact or_iff_left hpos.ne'

/-- A row `OP_Insert` has just stored in an ephemeral table is reported as corrupt. -/
theorem ephemeralRow_rejected :
    ¬ ∀ (F : SqliteFormat) (H : RowsumHashes) (alg : ℕ) (ins : Insertion F)
      (pCursor : PayloadReader) (pC : VdbeCursor) (pre mid : List ℕ) (nHeader nLenHeader : ℕ),
      alg < lumoRowsumNAlgorithms H → ins.record.size < 2 ^ 30 → pCursor.Complete →
      ins.stored H alg = some pCursor.stored → pC.isTable = ins.isTable →
      ins.record.types = pre ++ mid →
      F.getVarint32 pCursor.stored = some (nHeader, nLenHeader) →
      rowCheck F H pC ins.record pre nHeader nLenHeader pCursor.stored.length pCursor ≠
        some true := by
  intro h
  refine h documented prefixHashes 3 ephemeralRow (PayloadReader.ofBytes [3, 1, 1, 5, 7])
    ⟨true, true⟩ [1] [1] 3 1 (by decide) (by decide) (PayloadReader.ofBytes_complete _) (by decide)
    rfl rfl (by decide) ?_
  decide

end LumoSql.VdbeOpcodes
