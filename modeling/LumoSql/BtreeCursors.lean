import LumoSql.BtreeTransactions

/-! The cursor calls of the backend. -/
namespace LumoSql.Btree
open StateLogic Lmdb RowidEncoding

/-- Append to the handle's list of cursors. -/
def linkCursor (i : ℕ) : Call Unit := do
  let p ← getP
  setCur i fun c => { c with prev := p.lastCursor, next := none }
  match p.lastCursor with
  | some j => setCur j fun c => { c with next := some i }
  | none => setP fun p => { p with firstCursor := some i }
  setP fun p => { p with lastCursor := some i }

def sqlite3BtreeCursor (iTable : ℕ) (wrFlag : Bool) (keyInfo : Option KeyInfo) (i : ℕ) :
    Call Rc := do
  let c ← getCur i
  if c.prev.isSome ∨ c.next.isSome then pure sqliteInternal
  else do
    let txn ← topTxn
    setCur i fun c => { c with
      pBtree := true, keyInfo := keyInfo, rootPage := iTable, txn := some txn, cursor := none }
    let rc ← getTable iTable false
    if rc ≠ 0 then pure (errorMap rc)
    else do
      setCur i fun c => { c with dbi := .table iTable }
      let r ← lmdb (mdbCursorOpen txn (.table iTable))
      if r.1 ≠ 0 then pure (errorMap r.1)
      else do
        setCur i fun c => { c with cursor := some r.2, atEof := false }
        let g ← lmdb (mdbCursorGet (some r.2) .first)
        if g.1 ≠ 0 then setCur i fun c => { c with atEof := true } else pure ()
        linkCursor i
        setCur i fun c => { c with wrFlag := wrFlag }
        pure sqliteOk

/-- `sqlite3BtreeCursorZero` on memory not used before. -/
def newCursor : Call ℕ := do
  let i ← Prog.read World.nCurs
  Prog.modify fun w => { w with
    curs := Function.update w.curs i .zero
    nCurs := i + 1 }
  pure i

/-- Take a cursor out of the list, whether it is in it or not. -/
def unlinkCursor (i : ℕ) : Call Unit := do
  let c ← getCur i
  match c.prev with
  | some j => setCur j fun d => { d with next := c.next }
  | none => setP fun p => { p with firstCursor := c.next }
  match c.next with
  | some j => setCur j fun d => { d with prev := c.prev }
  | none => setP fun p => { p with lastCursor := c.prev }

def sqlite3BtreeCloseCursor (i : ℕ) : Call Rc := do
  let c ← getCur i
  if c.cursor.isSome then do
    lmdb (mdbCursorClose c.cursor)
    setCur i fun c => { c with cursor := none }
  else pure ()
  setCur i fun c => { c with savedKey := none }
  if c.pBtree then do
    unlinkCursor i
    setCur i fun c => { c with pBtree := false }
    let p ← getP
    if p.single then do
      let _ ← sqlite3BtreeClose
      pure sqliteOk
    else pure sqliteOk
  else pure sqliteOk

/-- Probes for the key of a rowid and for an unpacked index key. -/
def rowidProbe (fixedRowid : Bool) (key : Bytes) : Bytes → Ordering := keyCompare fixedRowid key
def indexProbe (unpacked : Bytes → Ordering) : Bytes → Ordering := fun b => (unpacked b).swap

/-- The entries that an LMDB cursor moves in. -/
def entriesOf (e : Env) (h : ℕ) : Entries :=
  ((e.cursors h).bind fun c => (e.cursorView c).bind fun v => v c.db).getD []

/-- Go back to a saved key; on an index that is not empty the comparison function reads behind
the saved key. -/
def repositionCursor (h : ℕ) (keyInfo : Option KeyInfo) (savedKey : Bytes) : Call Rc := do
  let fixedRowid ← build
  let e ← Prog.read World.env
  if keyInfo.isSome ∧ entriesOf e h ≠ [] then Prog.halt .undefined
  else do
    let g ← lmdb (mdbCursorGet (some h) (.set (rowidProbe fixedRowid savedKey)))
    pure g.1

/-- The part of `restoreCursor` that gets a new cursor; `c` is the old one. -/
def reopenCursor (i : ℕ) (c : BtCursor) (savedKey : Bytes) (reposition : Bool) : Call Rc := do
  let rc ← getTable c.rootPage false
  if rc ≠ 0 then pure (errorMap rc)
  else do
    setCur i fun d => { d with dbi := .table c.rootPage }
    let txn ← topTxn
    let r ← lmdb (mdbCursorOpen txn (.table c.rootPage))
    if r.1 ≠ 0 then pure (errorMap r.1)
    else do
      setCur i fun d => { d with cursor := some r.2 }
      let rc ← if reposition then repositionCursor r.2 c.keyInfo savedKey else pure 0
      if rc ≠ 0 then pure (errorMap rc)
      else do
        setCur i fun d => { d with savedKey := none }
        pure sqliteOk

/-- Restore a cursor whose position was saved. -/
def restoreCursor (i : ℕ) (reposition : Bool) : Call Rc := do
  let c ← getCur i
  if c.tripCode ≠ sqliteOk then pure c.tripCode
  else match c.savedKey with
    | none => pure sqliteOk
    | some savedKey => do
      if c.cursor.isSome then lmdb (mdbCursorClose c.cursor) else pure ()
      setCur i fun c => { c with cursor := none }
      if !c.pBtree then Prog.halt .nullPointer else reopenCursor i c savedKey reposition

/-- The result code and `*pRes`. -/
def sqlite3BtreeTableMoveto (i : ℕ) (intKey : ℤ) : Call (Rc × ℤ) := do
  let keyVal := toU64 intKey
  let rc ← restoreCursor i false
  if rc ≠ sqliteOk then pure (rc, 0)
  else do
    setCur i fun c => { c with atEof := false }
    let c ← getCur i
    let fixedRowid ← build
    let g ← lmdb (mdbCursorGet c.cursor (.setRange (rowidProbe fixedRowid (put8 fixedRowid keyVal))))
    if g.1 = 0 then pure (sqliteOk, if keyVal ≠ get8 fixedRowid g.2.1 then 1 else 0)
    else if g.1 ≠ mdbNotfound then pure (errorMap g.1, 0)
    else do
      -- the cursor is put on the first item
      let _ ← lmdb (mdbCursorGet c.cursor .first)
      pure (sqliteOk, -1)

/-- The unpacked key is given by how a stored record compares with it. -/
def sqlite3BtreeIndexMoveto (i : ℕ) (idxKey : Bytes → Ordering) : Call (Rc × ℤ) := do
  let rc ← restoreCursor i false
  if rc ≠ sqliteOk then pure (rc, 0)
  else do
    setCur i fun c => { c with atEof := false }
    let c ← getCur i
    let g ← lmdb (mdbCursorGet c.cursor (.setRange (indexProbe idxKey)))
    if g.1 = 0 then pure (sqliteOk, if idxKey g.2.1 ≠ .eq then 1 else 0)
    else if g.1 ≠ mdbNotfound then pure (errorMap g.1, 0)
    else do
      let _ ← lmdb (mdbCursorGet c.cursor .first)
      pure (sqliteOk, -1)

/-- Nonzero when the cursor cannot read its entry. -/
def sqlite3BtreeCursorHasMoved (i : ℕ) : Call ℤ := do
  let c ← getCur i
  let g ← lmdb (mdbCursorGet c.cursor .getCurrent)
  pure (if g.1 ≠ 0 then 1 else 0)

def sqlite3BtreeDelete (i : ℕ) : Call Rc := do
  let rc ← restoreCursor i true
  if rc ≠ sqliteOk then pure rc
  else do
    let c ← getCur i
    let rc ← lmdb (mdbCursorDel c.cursor)
    pure (errorMap rc)

def sqlite3BtreeTransferRow (pDest pSrc : ℕ) (iKey : ℤ) : Call Rc := do
  setCur pDest fun c => { c with srcCursor := some pSrc, srcKey := iKey }
  pure sqliteOk

/-- The fields of a payload that the backend uses; `aMem` is the unpacked key, if given. -/
structure Payload where
  nKey : ℤ
  pKey : Bytes
  pData : Bytes
  nZero : ℕ
  aMem : Option (Bytes → Ordering)

/-- The row to copy: key and data of the source cursor. -/
def preformatted (i : ℕ) : Call (Rc × Bytes × Bytes) := do
  let c ← getCur i
  match c.srcCursor with
  | none => Prog.halt .nullPointer
  | some src => do
    let rc ← restoreCursor src true
    if rc ≠ sqliteOk then pure (rc, [], [])
    else do
      let s ← getCur src
      let g ← lmdb (mdbCursorGet s.cursor .getCurrent)
      setCur i fun c => { c with srcCursor := none }
      if g.1 ≠ 0 then pure (errorMap g.1, [], []) else pure (sqliteOk, g.2)

/-- The unpacked key of an index row. -/
def unpackKey (keyInfo : KeyInfo) (pX : Payload) : Call (Rc × (Bytes → Ordering)) := do
  match pX.aMem with
  | some unpacked => pure (sqliteOk, unpacked)
  | none => do
    let oom ← lmdb (answer .malloc)
    if oom ≠ 0 then pure (sqliteNomem, fun _ => .eq)
    else match keyInfo.unpack pX.pKey with
      | none => pure (sqliteCorrupt, fun _ => .eq)
      | some unpacked => pure (sqliteOk, unpacked)

/-- Whether `mdb_cursor_put` gets as far as comparing keys. -/
def comparesKeys (e : Env) (h : Option ℕ) : Bool :=
  h.any fun h => (e.cursors h).any fun c => c.txn ∈ e.writers.map WriteTxn.id ∧ entriesOf e h ≠ []

/-- A row is copied into an index; the key to compare with has not been set. -/
def insertCopied (i : ℕ) (src : Bytes × Bytes) : Call Rc := do
  let c ← getCur i
  let e ← Prog.read World.env
  if comparesKeys e c.cursor then Prog.halt .undefined
  else do
    let rc ← lmdb (mdbCursorPut c.cursor (fun _ => .eq) src.1 src.2)
    pure (errorMap rc)

def insertIndex (i : ℕ) (keyInfo : KeyInfo) (pX : Payload) (preformat : Bool) (src : Bytes × Bytes) : Call Rc := do
  let u ← unpackKey keyInfo pX
  if u.1 ≠ sqliteOk then pure u.1
  else if preformat then insertCopied i src
  else if lumoLmdbMaxKey < pX.pKey.length then pure sqliteInternal
  else do
    let c ← getCur i
    let p ← getP
    let rc ← lmdb (mdbCursorPut c.cursor (indexProbe u.2) pX.pKey
      (0 :: if p.lumoData then pX.pData else []))
    pure (errorMap rc)

def insertRow (i : ℕ) (nKey : ℤ) (data : Bytes) : Call Rc := do
  let c ← getCur i
  let fixedRowid ← build
  let key := put8 fixedRowid (toU64 nKey)
  let rc ← lmdb (mdbCursorPut c.cursor (rowidProbe fixedRowid key) key data)
  pure (errorMap rc)

/-- The insertion from where the row to copy has been read. -/
def insertSource (i : ℕ) (pX : Payload) (preformat : Bool) (src : Rc × Bytes × Bytes) : Call Rc := do
  if src.1 ≠ sqliteOk then pure src.1
  else do
    let c ← getCur i
    match c.keyInfo with
    | some keyInfo => insertIndex i keyInfo pX preformat src.2
    | none =>
      if preformat then insertRow i c.srcKey src.2.2
      else insertRow i pX.nKey (pX.pData ++ List.replicate pX.nZero 0)

def sqlite3BtreeInsert (i : ℕ) (pX : Payload) (preformat : Bool) : Call Rc := do
  let c ← getCur i
  if !c.pBtree then Prog.halt .nullPointer
  else do
  let rc ← restoreCursor i false
  if rc ≠ sqliteOk then pure rc
  else do
    let src ← if preformat then preformatted i else pure (sqliteOk, [], [])
    insertSource i pX preformat src

/-- The result code and `*pRes`, which a failure leaves alone. -/
def cursorMove (i : ℕ) (op : CursorOp) (reposition : Bool) : Call (Rc × Option ℤ) := do
  let rc ← restoreCursor i reposition
  if rc ≠ sqliteOk then pure (rc, none)
  else do
    let c ← getCur i
    let g ← lmdb (mdbCursorGet c.cursor op)
    if g.1 = 0 then do
      setCur i fun c => { c with atEof := false }
      pure (sqliteOk, some 0)
    else if g.1 ≠ mdbNotfound then pure (errorMap g.1, none)
    else do
      setCur i fun c => { c with atEof := true }
      pure (sqliteOk, some 1)

def sqlite3BtreeFirst (i : ℕ) : Call (Rc × Option ℤ) := cursorMove i .first false
def sqlite3BtreeLast (i : ℕ) : Call (Rc × Option ℤ) := cursorMove i .last false

/-- `sqlite3BtreeNext` and `sqlite3BtreePrevious` by the direction of the move. -/
def cursorStep (i : ℕ) (op : CursorOp) : Call Rc := do
  let r ← cursorMove i op true
  if r.1 ≠ sqliteOk then pure r.1
  else do
    let c ← getCur i
    pure (if c.atEof then sqliteDone else sqliteOk)

def sqlite3BtreeNext (i : ℕ) : Call Rc := cursorStep i .next
def sqlite3BtreePrevious (i : ℕ) : Call Rc := cursorStep i .prev

def sqlite3BtreeEof (i : ℕ) : Call Bool := do
  let c ← getCur i
  pure c.atEof

def sqlite3BtreeIntegerKey (i : ℕ) : Call ℤ := do
  let c ← getCur i
  let fixedRowid ← build
  match c.savedKey with
  | some key => pure (toI64 (get8 fixedRowid key))
  | none => do
    let g ← lmdb (mdbCursorGet c.cursor .getCurrent)
    pure (if g.1 ≠ 0 then 0 else toI64 (get8 fixedRowid g.2.1))

/-- The payload, empty when it cannot be read; its length is `*pAmt`. -/
def sqlite3BtreePayloadFetch (i : ℕ) : Call Bytes := do
  let c ← getCur i
  match c.keyInfo, c.savedKey with
  | some _, some key => pure key
  | some _, none => do
    let g ← lmdb (mdbCursorGet c.cursor .getCurrent)
    pure (if g.1 ≠ 0 then [] else g.2.1)
  | none, _ => do
    let rc ← restoreCursor i true
    if rc ≠ sqliteOk then pure []
    else do
      let c ← getCur i
      let g ← lmdb (mdbCursorGet c.cursor .getCurrent)
      pure (if g.1 ≠ 0 then [] else g.2.2)

/-- The function reads what `sqlite3BtreePayloadFetch` reads. -/
def sqlite3BtreePayloadSize (i : ℕ) : Call ℕ := do
  let payload ← sqlite3BtreePayloadFetch i
  pure payload.length

/-- The result code and `*pnEntry`; the transaction is the one the cursor was opened in. -/
def sqlite3BtreeCount (i : ℕ) : Call (Rc × ℕ) := do
  let c ← getCur i
  match c.txn with
  | none => pure (errorMap einval, 0)
  | some txn => do
    let r ← lmdb (mdbStat txn c.dbi)
    if r.1 ≠ 0 then pure (errorMap r.1, 0) else pure (sqliteOk, r.2)

end LumoSql.Btree
