import LumoSql.BtreeState

/-! The transaction calls of the backend, and those that create, drop and clear tables and
change metadata. -/
namespace LumoSql.Btree
open StateLogic Lmdb RowidEncoding

/-- Open the databases that every table needs. -/
def openTables (readonly : Bool) (txn : ℕ) : Call Rc := do
  if readonly then lmdb (mdbDbiOpen txn .metadata false)
  else do
    let rc ← lmdb (mdbDbiOpen txn (.table 1) true)
    if rc ≠ 0 then pure rc else lmdb (mdbDbiOpen txn .metadata true)

/-- Set the transaction model and end the transaction. -/
def openEnd (readonly : Bool) (txn transType : ℕ) : Call Rc := do
  setP fun p => { p with transType := transType }
  if transType ≠ transactionOptimistic ∧ transType ≠ transactionNoupgrade ∧
      transType ≠ transactionSerialise then do
    lmdb (mdbTxnAbort txn)
    pure (errorMap sqliteCorrupt)
  else if readonly then do
    lmdb (mdbTxnAbort txn)
    pure sqliteOk
  else do
    let rc ← lmdb (mdbTxnCommit txn)
    pure (errorMap rc)

/-- From where the environment has been created; a code other than `SQLITE_OK` means that
there is no handle. -/
def sqlite3BtreeOpen : Call Rc := do
  let p ← getP
  let rc ← lmdb (answer .envOpen)
  if rc ≠ 0 then pure (errorMap rc)
  else do
    let r ← lmdb (mdbTxnBegin none p.readonly)
    if r.1 ≠ 0 then pure (errorMap r.1)
    else do
      let rc ← openTables p.readonly r.2
      if rc ≠ 0 then do
        lmdb (mdbTxnAbort r.2)
        pure (errorMap rc)
      else do
        let t ← getMeta32Direct r.2 lumoLmdbTransaction
        -- the field is an `u8`
        openEnd p.readonly r.2 (t % 256).toNat

/-- The handle is gone afterwards, and the environment with all its handles. -/
def sqlite3BtreeClose : Call Rc := do
  let p ← getP
  if p.svp ≠ [] then do
    let _ ← closeAllSavepoints (-1) false sqliteInternal
    let _ ← invalidateCursors sqliteInternal false
    let txn ← topTxn
    lmdb (mdbTxnAbort txn)
  else pure ()
  lmdb (Prog.modify fun e => { e with writers := [], readers := [], cursors := fun _ => none })
  setP fun p => { p with svp := [], closed := true }
  pure sqliteOk

/-- `get_version` of `sqlite3BtreeBeginTrans`; the version is only read when asked for. -/
def beginGetVersion (pSchemaVersion : Bool) : Call (Rc × Option ℤ) := do
  if pSchemaVersion then do
    let v ← getMeta32 btreeSchemaVersion
    pure (sqliteOk, some v)
  else pure (sqliteOk, none)

/-- `out_error` of the upgrade. -/
def upgradeError (rc : Rc) : Call Rc := do
  setP fun p => { p with svp := [] }
  pure (errorMap rc)

/-- The upgrade from where the write transaction has begun. -/
def upgradeOpened (uCounterRO : ℤ) (txn : ℕ) : Call Rc := do
  setP fun p => { p with svp := match p.svp with
    | s :: rest => { s with txn := txn } :: rest
    | [] => [] }
  let rc ← lmdb (mdbDbiOpen txn .metadata false)
  if rc ≠ 0 then do
    lmdb (mdbTxnAbort txn)
    upgradeError rc
  else do
    setP fun p => { p with hasData := true }
    let uCounterRW ← getMeta64 lumoLmdbMetaCounter
    if toU64 uCounterRO ≠ toU64 uCounterRW then pure sqliteBusy
    else do
      setP fun p => { p with inTrans := .write }
      pure sqliteOk

/-- The optimistic upgrade; `SQLITE_OK` is the jump to `get_version`. -/
def upgradeOptimistic : Call Rc := do
  let uCounterRO ← getMeta64 lumoLmdbMetaCounter
  let rc ← invalidateCursors sqliteOk false
  if rc ≠ 0 then pure (errorMap rc)
  else do
    setP fun p => { p with hasData := false }
    let txn ← topTxn
    lmdb (mdbTxnAbort txn)
    let r ← lmdb (mdbTxnBegin none false)
    if r.1 ≠ 0 then upgradeError r.1 else upgradeOpened uCounterRO r.2

/-- A new transaction from where it has begun. -/
def beginOpened (wrFlag : Bool) (txn : ℕ) : Call Rc := do
  setP fun p => { p with svp := [⟨txn, -1⟩] }
  let rc ← lmdb (mdbDbiOpen txn .metadata false)
  if rc = mdbNotfound ∧ !wrFlag then do
    setP fun p => { p with hasData := false, inTrans := if wrFlag then .write else .read }
    pure sqliteOk
  else if rc ≠ 0 then do
    lmdb (mdbTxnAbort txn)
    setP fun p => { p with svp := [] }
    pure (errorMap rc)
  else do
    setP fun p => { p with hasData := true, inTrans := if wrFlag then .write else .read }
    pure sqliteOk

/-- Whether `sqlite3BtreeBeginTrans` asks LMDB for a read transaction. -/
def beginRdonly (p : Btree) (wrFlag : Bool) : Bool :=
  if p.transType ≠ transactionSerialise then !wrFlag else p.readonly

/-- Begin a transaction when there is none; `SQLITE_OK` is the jump to `get_version`. -/
def beginNew (wrFlag : Bool) : Call Rc := do
  let p ← getP
  if p.svp ≠ [] then pure sqliteInternal
  else do
    let oom ← lmdb (answer .malloc)
    if oom ≠ 0 then pure sqliteNomem
    else do
      let r ← lmdb (mdbTxnBegin none (beginRdonly p wrFlag))
      if r.1 ≠ 0 then pure (errorMap r.1) else beginOpened wrFlag r.2

/-- Upgrade a read transaction as the transaction model says. -/
def beginUpgrade : Call Rc := do
  let p ← getP
  if p.transType = transactionNoupgrade then pure sqliteBusy
  else if p.transType = transactionOptimistic then upgradeOptimistic
  else if p.transType = transactionSerialise then do
    setP fun p => { p with inTrans := .write }
    pure sqliteOk
  else pure sqliteCorrupt

/-- The result code and the schema version. -/
def sqlite3BtreeBeginTrans (wrFlag pSchemaVersion : Bool) : Call (Rc × Option ℤ) := do
  let p ← getP
  if p.inTrans = .write then beginGetVersion pSchemaVersion
  else if wrFlag ∧ p.readonly then pure (sqliteReadonly, none)
  else if p.inTrans ≠ .none ∧ !wrFlag then beginGetVersion pSchemaVersion
  else do
    let rc ← if p.inTrans ≠ .none then beginUpgrade else beginNew wrFlag
    if rc ≠ sqliteOk then pure (rc, none) else beginGetVersion pSchemaVersion

/-- The last transaction, when its counter has been put with the result `rc`. -/
def commitOutermost (rc : Rc) : Call Rc := do
  let txn ← topTxn
  if rc ≠ 0 then do
    lmdb (mdbTxnAbort txn)
    setP fun p => { p with svp := [], inTrans := .none }
    pure (errorMap rc)
  else do
    let rc ← lmdb (mdbTxnCommit txn)
    setP fun p => { p with inTrans := .none }
    if rc ≠ 0 then pure (errorMap rc)
    else do
      setP fun p => { p with svp := [] }
      pure sqliteOk

def sqlite3BtreeCommitPhaseOne : Call Rc := do
  let p ← getP
  if p.inTrans = .none then pure sqliteOk
  else do
    let rc ← closeAllSavepoints (-1) (p.inTrans = .write) sqliteInternal
    if rc ≠ 0 then pure (errorMap rc)
    else do
      let _ ← invalidateCursors sqliteInternal false
      if p.inTrans = .write then do
        let c ← getMeta64 lumoLmdbMetaCounter
        -- the addition is made in `int`
        let uCounter := toU64 (Int.bmod (c + 1) (2 ^ 32))
        let rc ← putMeta64 lumoLmdbMetaCounter uCounter
        commitOutermost rc
      else do
        let txn ← topTxn
        lmdb (mdbTxnAbort txn)
        setP fun p => { p with svp := [], inTrans := .none }
        pure sqliteOk

def sqlite3BtreeCommitPhaseTwo : Call Rc := pure sqliteOk

def sqlite3BtreeRollback (tripCode : Rc) (writeOnly : Bool) : Call Rc := do
  let p ← getP
  if p.inTrans = .none then pure sqliteOk
  else do
    let _ ← closeAllSavepoints (-1) false tripCode
    let _ ← invalidateCursors tripCode writeOnly
    let txn ← topTxn
    lmdb (mdbTxnAbort txn)
    setP fun p => { p with svp := [], inTrans := .none }
    pure sqliteOk

/-- `iStatement` is a number of savepoints. -/
def sqlite3BtreeBeginStmt (iStatement : ℕ) : Call Rc := do
  let oom ← lmdb (answer .malloc)
  if oom ≠ 0 then pure sqliteNomem
  else do
    let p ← getP
    let r ← lmdb (mdbTxnBegin (p.svp.head?.map BtreeSavepoint.txn) false)
    if r.1 ≠ 0 then pure (errorMap r.1)
    else do
      setP fun p => { p with svp := ⟨r.2, iStatement⟩ :: p.svp }
      pure sqliteOk

/-- The `op` of `sqlite3BtreeSavepoint`. -/
inductive SavepointOp
  | release | rollback
  deriving DecidableEq

def sqlite3BtreeSavepoint (op : SavepointOp) (iSavepoint : ℤ) : Call Rc := do
  let rc ← closeAllSavepoints iSavepoint (op = .release) sqliteOk
  if rc ≠ 0 then pure (errorMap rc)
  else if 0 ≤ iSavepoint then pure sqliteOk
  else do
    let _ ← invalidateCursors sqliteOk false
    let txn ← topTxn
    lmdb (mdbTxnAbort txn)
    setP fun p => { p with svp := p.svp.tail, inTrans := .none }
    pure sqliteOk

def sqlite3BtreeGetMeta (idx : ℕ) : Call ℕ := do
  let p ← getP
  if idx = btreeDataVersion then pure p.iDataVersion
  else do
    let v ← getMeta32 idx
    pure (v % 2 ^ 32).toNat

/-- `info` are the code of `mdb_env_info` and its `me_last_pgno`. -/
def sqlite3BtreeLastPage (info : Rc × ℕ) : Call ℕ := do
  if info.1 ≠ 0 then pure (2 ^ 32 - 1)
  else do
    let p ← getP
    if p.svp = [] then pure (info.2 % 2 ^ 32)
    else do
      let pgnoRoot ← sqlite3BtreeGetMeta btreeLargestRootPage
      -- a page number has 32 bits
      pure ((if info.2 < pgnoRoot then pgnoRoot else info.2) % 2 ^ 32)

def sqlite3BtreeUpdateMeta (idx iValue : ℕ) : Call Rc := do
  let rc ← putMeta32 idx iValue
  pure (errorMap rc)

/-- The result code and the root page of the new table. -/
def sqlite3BtreeCreateTable : Call (Rc × ℕ) := do
  let largest ← sqlite3BtreeGetMeta btreeLargestRootPage
  let pgnoRoot := if largest < 2 then 3 else (largest + 1) % 2 ^ 32
  let rc ← getTable pgnoRoot true
  if rc ≠ 0 then pure (errorMap rc, pgnoRoot)
  else do
    let rc ← sqlite3BtreeUpdateMeta btreeLargestRootPage pgnoRoot
    pure (rc, pgnoRoot)

/-- The number of the table is an `int`. -/
def sqlite3BtreeDropTable (iTable : ℕ) : Call Rc := do
  let rc ← getTable iTable false
  if rc ≠ 0 then pure (errorMap rc)
  else do
    let txn ← topTxn
    let rc ← lmdb (mdbDrop txn (.table iTable) (1 < toInt iTable))
    pure (errorMap rc)

/-- The result code and the number of entries, when asked for. -/
def sqlite3BtreeClearTable (iTable : ℕ) (pnChange : Bool) : Call (Rc × ℕ) := do
  let rc ← getTable iTable false
  if rc ≠ 0 then pure (errorMap rc, 0)
  else do
    let txn ← topTxn
    let entries ← if pnChange then do
        let r ← lmdb (mdbStat txn (.table iTable))
        pure (if r.1 = 0 then r.2 else 0)
      else pure 0
    let rc ← lmdb (mdbDrop txn (.table iTable) false)
    if rc ≠ 0 then pure (errorMap rc, 0) else pure (sqliteOk, entries)

end LumoSql.Btree
