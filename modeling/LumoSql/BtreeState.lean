import LumoSql.LmdbEnvironment

/-! The state of a `Btree` handle with its cursors, and the functions the transaction and
cursor calls share: metadata values, opening of a table, invalidation of cursors and closing
of savepoints. The debugging output is left out. -/
namespace LumoSql.Btree
open StateLogic Lmdb RowidEncoding

/-- `SQLITE_TXN_NONE`, `SQLITE_TXN_READ` and `SQLITE_TXN_WRITE`. -/
inductive TxnState
  | none | read | write
  deriving DecidableEq

def transactionOptimistic : ℕ := 0
def transactionNoupgrade : ℕ := 1
def transactionSerialise : ℕ := 2

def lumoLmdbMetaCounter : ℕ := 101
def lumoLmdbTransaction : ℕ := 102
def lumoLmdbMaxKey : ℕ := 479

def btreeSchemaVersion : ℕ := 1
def btreeLargestRootPage : ℕ := 4
def btreeDataVersion : ℕ := 15

structure BtreeSavepoint where
  txn : ℕ
  nSavepoint : ℤ
  deriving DecidableEq

/-- `readonly`, `single` and `lumoData` are bits of `vfsFlags` and `flags`; `svp` is the
stack with its top first, and `dataDbi` is always the metadata. -/
structure Btree where
  readonly : Bool
  single : Bool
  lumoData : Bool
  transType : ℕ
  iDataVersion : ℕ
  inTrans : TxnState
  svp : List BtreeSavepoint
  hasData : Bool
  firstCursor : Option ℕ
  lastCursor : Option ℕ
  closed : Bool

/-- `index_compare` uses of a key's description that a record can be unpacked with it and
then compared with the records stored; `none` is a record that does not fit it. -/
structure KeyInfo where
  unpack : Bytes → Option (Bytes → Ordering)

/-- `pBtree` tells whether the field is set; other cursors are known by number. -/
structure BtCursor where
  pBtree : Bool
  prev : Option ℕ
  next : Option ℕ
  dbi : DbName
  txn : Option ℕ
  cursor : Option ℕ
  keyInfo : Option KeyInfo
  rootPage : ℕ
  tripCode : Rc
  atEof : Bool
  wrFlag : Bool
  srcCursor : Option ℕ
  srcKey : ℤ
  savedKey : Option Bytes

/-- The memory `sqlite3BtreeCursorZero` leaves. -/
def BtCursor.zero : BtCursor :=
  ⟨false, none, none, .metadata, none, none, none, 0, sqliteOk, false, false, none, 0, none⟩

/-- One connection: its environment, its handle and the memory of `nCurs` cursors. -/
structure World where
  fixedRowid : Bool
  env : Env
  p : Btree
  curs : ℕ → BtCursor
  nCurs : ℕ

abbrev Call := Prog World Halt

def lmdb {α : Type} (m : Mdb α) : Call α := Prog.zoom World.env (fun w e => { w with env := e }) m

def getP : Call Btree := Prog.read World.p
def setP (f : Btree → Btree) : Call Unit := Prog.modify fun w => { w with p := f w.p }
def getCur (i : ℕ) : Call BtCursor := Prog.read fun w => w.curs i
def setCur (i : ℕ) (f : BtCursor → BtCursor) : Call Unit :=
  Prog.modify fun w => { w with curs := Function.update w.curs i (f (w.curs i)) }
def build : Call Bool := Prog.read World.fixedRowid

section Rules

variable {α : Type} {E : Halt → Prop} {w : World}

@[simp] theorem ensures_lmdb (m : Mdb α) (Q : α → World → Prop) :
    Ensures E (lmdb m) Q w ↔ Ensures E m (fun a e => Q a { w with env := e }) w.env :=
  ensures_zoom _ _ m Q w

@[simp] theorem ensures_getP (Q : Btree → World → Prop) : Ensures E getP Q w ↔ Q w.p w := Iff.rfl

@[simp] theorem ensures_setP (f : Btree → Btree) (Q : Unit → World → Prop) :
    Ensures E (setP f) Q w ↔ Q () { w with p := f w.p } := Iff.rfl

@[simp] theorem ensures_getCur (i : ℕ) (Q : BtCursor → World → Prop) :
    Ensures E (getCur i) Q w ↔ Q (w.curs i) w := Iff.rfl

@[simp] theorem ensures_setCur (i : ℕ) (f : BtCursor → BtCursor) (Q : Unit → World → Prop) :
    Ensures E (setCur i f) Q w ↔
      Q () { w with curs := Function.update w.curs i (f (w.curs i)) } := Iff.rfl

@[simp] theorem ensures_build (Q : Bool → World → Prop) :
    Ensures E build Q w ↔ Q w.fixedRowid w := Iff.rfl

end Rules

/-- `p->svp->txn`. -/
def topTxn : Call ℕ := do
  let p ← getP
  match p.svp with
  | [] => Prog.halt .nullPointer
  | s :: _ => pure s.txn

/-- The key of a metadata value, the index as one byte. -/
def metaKey (idx : ℕ) : Bytes := [UInt8.ofNat idx]

def getMeta32Direct (txn : ℕ) (idx : ℕ) : Call ℤ := do
  let r ← lmdb (mdbGet txn .metadata (metaKey idx))
  if r.1 ≠ 0 then pure 0
  else if r.2.length ≠ 4 then pure 0
  else pure (toInt (bigEndian r.2))

def getMeta32 (idx : ℕ) : Call ℤ := do
  let p ← getP
  if !p.hasData then pure 0
  else do
    let txn ← topTxn
    getMeta32Direct txn idx

/-- The value is returned as an `int`. -/
def getMeta64 (idx : ℕ) : Call ℤ := do
  let p ← getP
  if !p.hasData then pure 0
  else do
    let txn ← topTxn
    let r ← lmdb (mdbGet txn .metadata (metaKey idx))
    if r.1 ≠ 0 then pure 0
    else do
      let fixedRowid ← build
      pure (toInt (get8 fixedRowid r.2))

def putMeta32 (idx iValue : ℕ) : Call Rc := do
  let p ← getP
  if !p.hasData then pure eacces
  else do
    let txn ← topTxn
    lmdb (mdbPut txn .metadata (metaKey idx) (put4byte iValue))

def putMeta64 (idx uValue : ℕ) : Call Rc := do
  let p ← getP
  if !p.hasData then pure eacces
  else do
    let txn ← topTxn
    let fixedRowid ← build
    lmdb (mdbPut txn .metadata (metaKey idx) (put8 fixedRowid uValue))

/-- Open the database of a table. The comparison function that is set for it is the one the
cursor functions compare with. -/
def getTable (iTable : ℕ) (create : Bool) : Call Rc := do
  let p ← getP
  if iTable < 1 then pure sqliteCorrupt
  else match p.svp with
    | [] => pure sqliteInternal
    | s :: _ => lmdb (mdbDbiOpen s.txn (.table iTable) create)

/-- The error path of a position that cannot be saved. -/
def saveFailed (i : ℕ) (rc1 rc : Rc) : Call Rc := do
  setCur i fun c => { c with tripCode := errorMap rc1 }
  pure (if rc = 0 then rc1 else rc)

/-- The body of the loop of `invalidateCursors`, for one cursor. -/
def invalidateCursor (tripCode : Rc) (writeOnly : Bool) (i : ℕ) (rc : Rc) : Call Rc := do
  let c ← getCur i
  if c.tripCode = sqliteOk ∧ c.cursor.isSome then
    if tripCode = sqliteOk then do
      let r ← lmdb (mdbCursorGet c.cursor .getCurrent)
      if r.1 ≠ 0 then saveFailed i r.1 rc
      else do
        let oom ← lmdb (answer .malloc)
        if oom ≠ 0 then do
          setCur i fun c => { c with savedKey := none }
          saveFailed i enomem rc
        else do
          setCur i fun c => { c with savedKey := some r.2.1 }
          lmdb (mdbCursorClose c.cursor)
          setCur i fun c => { c with
            cursor := none
            tripCode := if c.wrFlag ∨ !writeOnly then tripCode else c.tripCode }
          pure rc
    else do
      setCur i fun c => { c with
        tripCode := if c.wrFlag ∨ !writeOnly then tripCode else c.tripCode }
      pure rc
  else pure rc

/-- The loop, with a bound on the number of cursors the list can have. -/
def invalidateLoop (tripCode : Rc) (writeOnly : Bool) : ℕ → Option ℕ → Rc → Call Rc
  | _, none, rc => pure rc
  | 0, some _, _ => Prog.halt .diverges
  | fuel + 1, some i, rc => do
    let c ← getCur i
    let rc ← invalidateCursor tripCode writeOnly i rc
    invalidateLoop tripCode writeOnly fuel c.next rc

def invalidateCursors (tripCode : Rc) (writeOnly : Bool) : Call Rc := do
  let p ← getP
  let fuel ← Prog.read World.nCurs
  invalidateLoop tripCode writeOnly fuel p.firstCursor 0

/-- End one level of the stack, which is no longer on it. -/
def closeLevel (s : BtreeSavepoint) (commit : Bool) (tripCode : Rc) (rc : Rc) : Call Rc := do
  let rc1 ← invalidateCursors tripCode false
  let rc := if rc = 0 then rc1 else rc
  if commit ∧ rc = 0 then lmdb (mdbTxnCommit s.txn)
  else do
    lmdb (mdbTxnAbort s.txn)
    pure rc

/-- The loop of `closeAllSavepoints`, which never closes the last level. -/
def closeLoop (nTo : ℤ) (commit : Bool) (tripCode : Rc) : List BtreeSavepoint → Rc → Call Rc
  | s :: s' :: rest, rc =>
    if s.nSavepoint = nTo then pure rc
    else do
      setP fun p => { p with svp := s' :: rest }
      let rc ← closeLevel s commit tripCode rc
      closeLoop nTo commit tripCode (s' :: rest) rc
  | _, rc => pure rc

def closeAllSavepoints (nTo : ℤ) (commit : Bool) (tripCode : Rc) : Call Rc := do
  let p ← getP
  closeLoop nTo commit tripCode p.svp 0

end LumoSql.Btree
