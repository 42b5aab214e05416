import LumoSql.ResultCodes
import LumoSql.RowsumAlgorithms
import LumoSql.WriteBlocks

/-! The Lumo column: extra data added to a packed record, found again and checked when
the record is read. Results are `none` where the C code would touch memory outside the
object it was given. -/
namespace LumoSql.LumoExtension
open RowsumAlgorithms WriteBlocks

def lumoExtensionMagic : Bytes := [0x4c, 0x75, 0x6d, 0x6f]
def lumoEndType : ℕ := 0
def lumoRowsumType : ℕ := 1

variable (F : SqliteFormat) (H : RowsumHashes)

/-- Space needed for the extension, `0` if there is nothing to add; `alg` is the global
`lumo_rowsum_algorithm`, and the record itself is not looked at. -/
def lumoExtensionLength (alg : ℕ) : ℕ :=
  let iLumoExt := match (lumoRowsumAlgorithms H)[alg]? with
    | some spec => F.sqlite3VarintLen lumoRowsumType + F.sqlite3VarintLen alg +
        F.sqlite3VarintLen spec.length + spec.length
    | none => 0
  if 0 < iLumoExt then iLumoExt + (lumoExtensionMagic.length + F.sqlite3VarintLen lumoEndType)
  else iLumoExt

/-- The buffers of zeros hashed for `nZero` implied bytes, at most 1024 at a time. -/
def zeroChunks (nZero : ℕ) : List Bytes :=
  List.replicate (nZero / 1024) (List.replicate 1024 0) ++
    (if 0 < nZero % 1024 then [List.replicate (nZero % 1024) 0] else [])

/-- Init, update over the data and the zeros, final. -/
def rowsumOf {n : ℕ} (h : StreamHash n) (zSum : Bytes) (nZero : ℕ) : Bytes :=
  h.final (((if 0 < zSum.length then [zSum] else []) ++ zeroChunks nZero).foldl h.update h.init)

/-- Write the extension at `zDest`; the bytes to hash are in the same block. -/
def lumoExtension (alg nZero nSum : ℕ) (zDest : Writer UInt8) : Option (Writer UInt8) := do
  let zDest ← zDest.emit lumoExtensionMagic
  let zDest ← match (lumoRowsumAlgorithms H)[alg]? with
    | none => some zDest
    | some spec => do
      let zDest ← zDest.emit (F.putVarint32 lumoRowsumType)
      let zDest ← zDest.emit (F.putVarint32 alg)
      let zDest ← zDest.emit (F.putVarint32 spec.length)
      if 0 < spec.length then
        match spec.hash with
        | some h => zDest.emit (rowsumOf h ((zDest.block.contents 0).take nSum) nZero)
        | none => none
      else some zDest
  zDest.emit (F.putVarint32 lumoEndType)

/-- What `lumoExtensionAdd` returns: a code and the new record, `none` for `NULL`. -/
structure AddResult where
  rc : Rc
  zNew : Option (Block UInt8)
  deriving DecidableEq

/-- Header length of the record with one more header entry. -/
def extendedHeader (oldHdr oldLen serialType : ℕ) : ℕ :=
  let newHdr := oldHdr + F.sqlite3VarintLen serialType
  let newLen := F.sqlite3VarintLen newHdr
  if oldLen < newLen then
    let newHdr := newHdr + (newLen - oldLen)
    if newLen < F.sqlite3VarintLen newHdr then newHdr + 1 else newHdr
  else newHdr

/-- Serial type in the last header byte, when it can be that of a rowid. -/
def isRowidType (t : ℕ) : Bool := !(t < 1 || t == 7 || 9 < t)

/-- Fill the new record: header, old data, implied zeros, extension, second rowid. -/
def writeRecord (alg : ℕ) (isIndex : Bool) (zOld : Bytes) (nZero oldHdr oldLen newHdr serialType
    iLumoExt nSum nRowid nData : ℕ) : Option (Block UInt8) := do
  let zWptr : Writer UInt8 := ⟨Block.alloc nData, 0⟩
  let zWptr ← zWptr.emit (F.putVarint32 newHdr)
  let zWptr ← zWptr.emit (← readRange zOld oldLen oldHdr)
  let zWptr ← zWptr.emitIf (isIndex = false) (F.putVarint32 serialType)
  let zWptr ← zWptr.emitIf (oldHdr < zOld.length) (zOld.drop oldHdr)
  let zWptr ← zWptr.emitIf (0 < nZero) (List.replicate nZero 0)
  let zDest ← lumoExtension F H alg 0 nSum zWptr
  let zWptr ← Writer.emitIf ⟨zDest.block, zWptr.pos + iLumoExt⟩ (0 < nRowid)
    (← readLast zOld nRowid)
  some zWptr.block

/-- Take a packed record and add the extension data; `oom` is a failed allocation. -/
def lumoExtensionAdd (alg : ℕ) (oom isIndex : Bool) (zOld : Bytes) (nZero : ℕ) :
    Option AddResult := do
  let iLumoExt := lumoExtensionLength F H alg
  if 0 < iLumoExt then do
    let (oldHdr, oldLen) ← F.getVarint32 zOld
    if isIndex then do
      if oldHdr = 0 then none
      let typeRowid ← zOld[oldHdr - 1]?
      if !isRowidType typeRowid.toNat then some ⟨sqliteCorrupt, none⟩
      else do
        let nRowid := F.sqlite3VdbeSerialTypeLen typeRowid.toNat
        let nSum := (zOld.length + nZero + oldHdr - oldHdr) % 2 ^ 32
        let nData := (nSum + iLumoExt + nRowid) % 2 ^ 32
        if oom then some ⟨sqliteNomem, none⟩
        else do
          let zNew ← writeRecord F H alg true zOld nZero oldHdr oldLen oldHdr 0 iLumoExt nSum
            nRowid nData
          some ⟨sqliteOk, some zNew⟩
    else do
      let serialType := iLumoExt * 2 + 12
      let newHdr := extendedHeader F oldHdr oldLen serialType
      let nSum := (zOld.length + nZero + newHdr - oldHdr) % 2 ^ 32
      let nData := (nSum + iLumoExt) % 2 ^ 32
      if oom then some ⟨sqliteNomem, none⟩
      else do
        let zNew ← writeRecord F H alg false zOld nZero oldHdr oldLen newHdr serialType iLumoExt
          nSum 0 nData
        some ⟨sqliteOk, some zNew⟩
  else some ⟨sqliteOk, none⟩

/-- The loop over the header entries of the `left` columns still to be parsed. -/
def skipColumns (zData : Bytes) (nHeader nData : ℕ) : ℕ → ℕ → ℕ → Option (ℕ × ℕ × ℕ)
  | 0, nOffset, nCol => some (0, nOffset, nCol)
  | left + 1, nOffset, nCol =>
    if nOffset < nHeader ∧ nCol < nData then do
      let (iType, n) ← F.getVarint32 (zData.drop nOffset)
      skipColumns zData nHeader nData left ((nOffset + n) % 2 ^ 32)
        ((nCol + F.sqlite3VdbeSerialTypeLen iType) % 2 ^ 64)
    else some (left + 1, nOffset, nCol)

/-- `iLen` for a column of serial type `iType`; `none` where the function returns 0. -/
def blobTypeLength (iType : ℤ) : Option ℤ :=
  if iType < 14 ∨ iType % 2 ≠ 0 then none else some ((iType - 12) / 2)

/-- `iLen` for a table: the column after the last is a blob with a header entry. -/
def blobLength (zData : Bytes) (nHeader nOffset : ℕ) : Option (Option ℤ) :=
  if nHeader ≤ nOffset then some none
  else (F.getVarint32 (zData.drop nOffset)).map fun p => blobTypeLength (toInt p.1)

/-- `iLen` for an index: what is between the rowid and its second copy. -/
def trailerLength (zData : Bytes) (nHeader nData nCol : ℕ) : Option (Option ℤ) := do
  if nHeader = 0 then none
  let typeRowid ← zData[nHeader - 1]?
  if !isRowidType typeRowid.toNat then some none
  else
    let nRowid := F.sqlite3VdbeSerialTypeLen typeRowid.toNat
    some (some (toInt (toU64 ((nData : ℤ) - nRowid - nCol))))

/-- See if a Lumo column is present; its start and length if it is. -/
def lumoExtensionPresent (isIndex : Bool) (nParsed nOffset nCol nField : ℕ) (zData : Bytes)
    (nHeader nData : ℕ) : Option (Option (ℕ × ℕ)) := do
  let (left, nOffset, nCol) ← skipColumns F zData nHeader nData (nField - nParsed) nOffset nCol
  if 0 < left then some none
  else do
    match ← (if isIndex then trailerLength F zData nHeader nData nCol
      else blobLength F zData nHeader nOffset) with
    | none => some none
    | some iLen =>
      -- the comparison is made in `size_t`: a negative `iLen` passes it
      if toU64 iLen ≤ lumoExtensionMagic.length then some none
      else some (some (nCol, toU64 iLen))

/-- The stored row as the checker sees it: `sqlite3BtreePayload` yields its bytes or fails. -/
structure PayloadReader where
  stored : Bytes
  sqlite3BtreePayload : ℕ → ℕ → Option Bytes
  payload_eq : ∀ offset amt bs, sqlite3BtreePayload offset amt = some bs →
    offset + amt ≤ stored.length ∧ bs = (stored.drop offset).take amt

/-- The row in pieces of at most 4096 bytes, `none` once a piece cannot be read. -/
def readChunks (pC : PayloadReader) : ℕ → ℕ → ℕ → Option (List Bytes)
  | 0, _, _ => some []
  | fuel + 1, nCheck, nPos =>
    if 0 < nCheck then do
      let todo := if nCheck < 4096 then nCheck else 4096
      let buffer ← pC.sqlite3BtreePayload nPos todo
      let rest ← readChunks pC fuel (nCheck - todo) (nPos + todo)
      some (buffer :: rest)
    else some []

/-- Result of `check_rowsum` and the new value of `need_rowsum`. -/
def checkRowsum (zH : Bytes) (xlen xsubtype nSum : ℕ) (pC : PayloadReader) (needRowsum : Bool) :
    Option (ℤ × Bool) :=
  match (lumoRowsumAlgorithms H)[xsubtype]? with
  | none => some (1, false)
  | some spec =>
    if spec.length ≠ xlen then some (0, needRowsum)
    else if xlen ≠ 0 then
      match spec.hash, readChunks pC nSum nSum 0 with
      | none, _ => none
      | some _, none => some (-1, needRowsum)
      | some h, some chunks =>
        let rowsum := h.final (chunks.foldl h.update h.init)
        if zH.length < xlen then none
        else if rowsum ≠ zH.take xlen then some (-1, needRowsum)
        else some (1, false)
    else some (1, false)

/-- The loop over the elements from `zH` to `zEnd`, positions in the column. -/
def handleElements (check : ℕ) (zRow : Bytes) (zEnd nSum : ℕ) (pC : PayloadReader) :
    ℕ → ℕ → Bool → Option ℤ
  | 0, _, _ => none
  | fuel + 1, zH, needRowsum =>
    if zH < zEnd then do
      let (xtype, n) ← F.getVarint32 (zRow.drop zH)
      let zH := zH + n
      if xtype = lumoEndType then some (-1)
      else if zEnd ≤ zH then some (-1)
      else do
        let (xsubtype, n) ← F.getVarint32 (zRow.drop zH)
        let zH := zH + n
        if zEnd ≤ zH then some (-1)
        else do
          let (xlen, n) ← F.getVarint32 (zRow.drop zH)
          let zH := zH + n
          if zEnd < zH + xlen then some (-1)
          else if xtype = lumoRowsumType ∧ check ≠ 0 then do
            let (ok, needRowsum) ← checkRowsum H (zRow.drop zH) xlen xsubtype nSum pC needRowsum
            if ok = 0 then some (-1)
            else handleElements check zRow zEnd nSum pC fuel (zH + xlen) needRowsum
          else handleElements check zRow zEnd nSum pC fuel (zH + xlen) needRowsum
    else if needRowsum then some (-1)
    else some 1

/-- Handle data in a Lumo column, if it really is one: `0` if it is not, `1` if it is in
order, `-1` if not; `check` is the global `lumo_extension_check_rowsum`. -/
def lumoExtensionHandle (check : ℕ) (zRow : Bytes) (nSum nLen : ℕ) (pC : PayloadReader) :
    Option ℤ := do
  let needRowsum := decide (1 < check)
  if nLen ≤ lumoExtensionMagic.length then some 0
  else do
    if zRow.length < lumoExtensionMagic.length then none
    if zRow.take lumoExtensionMagic.length ≠ lumoExtensionMagic then some 0
    else do
      let zEnd := nLen - 1
      let last ← zRow[zEnd]?
      if last.toNat ≠ lumoEndType then some (-1)
      else handleElements F H check zRow zEnd nSum pC nLen lumoExtensionMagic.length needRowsum

/-- No metadata was found: `0` if that is an error. -/
def lumoExtensionMissing (check : ℕ) : ℤ := if 1 < check then 0 else 1

end LumoSql.LumoExtension
