import LumoSql.ResultCodes
import LumoSql.RowidEncoding
import LumoSql.SortedEntries
import LumoSql.StateLogic
import Mathlib.Logic.Function.Basic

/-! LMDB as its manual describes it: one environment of a process on a database that other
processes may write too, with snapshots for read transactions, one writer at a time, nested
write transactions and cursors. A handle that is no longer alive stops the computation. -/
namespace LumoSql.Lmdb
open StateLogic SortedEntries

/-- Why a call does not return: `NULL` is dereferenced, a transaction or cursor that has
ended is passed to LMDB, the writer lock is held elsewhere, or anything may happen. -/
inductive Halt
  | nullPointer | deadHandle | blocked | undefined | diverges
  deriving DecidableEq

/-- The named databases the backend uses. -/
inductive DbName
  | metadata
  | table (iTable : ℕ)
  deriving DecidableEq

abbrev Entries := List (Bytes × Bytes)
abbrev Contents := DbName → Option Entries

/-- Where an LMDB cursor stands in its entries. -/
structure Position where
  initialized : Bool
  eof : Bool
  deleted : Bool
  index : ℕ
  deriving DecidableEq

def Position.unset : Position := ⟨false, false, false, 0⟩

structure MdbCursor where
  txn : ℕ
  db : DbName
  pos : Position
  deriving DecidableEq

/-- A write transaction; `shadow` are the cursors as they were when it began. -/
structure WriteTxn where
  id : ℕ
  view : Contents
  shadow : ℕ → Option MdbCursor

structure ReadTxn where
  id : ℕ
  view : Contents

/-- What all processes share: the committed contents and the writer lock. -/
structure Disk where
  contents : Contents
  locked : Bool

/-- The calls that can fail for reasons of their own. -/
inductive Fallible
  | envOpen | txnBegin | txnCommit | dbiOpen | get | put | drop | stat
  | cursorOpen | cursorGet | cursorPut | cursorDel | malloc
  deriving DecidableEq

/-- The codes of the coming calls of each kind, `0` when the list has run out. -/
abbrev Answers := Fallible → List Rc

/-- Where the cursors of the write transactions go when another cursor puts an entry among theirs or
deletes one, and when a database is dropped. The manual does not say, so this is left open. -/
structure Tracking where
  put (es : Entries) (index : ℕ) (inserted : Bool) (h : ℕ) (pos : Position) : Position
  del (es : Entries) (index h : ℕ) (pos : Position) : Position
  drop (h : ℕ) (pos : Position) : Position

/-- Every cursor stays on its entry, one whose entry is deleted stands before the next, and in a
database without entries none is anywhere. -/
def Tracking.entries : Tracking where
  put _ index inserted _ pos :=
    if inserted ∧ index ≤ pos.index then { pos with index := pos.index + 1 } else pos
  del es index _ pos :=
    if es.length ≤ 1 then .unset
    else if pos.index = index then { pos with deleted := true }
    else if index < pos.index then { pos with index := pos.index - 1 }
    else pos
  drop _ _ := .unset

/-- An environment; the innermost write transaction comes first. -/
structure Env where
  disk : Disk
  readonly : Bool
  writers : List WriteTxn
  readers : List ReadTxn
  cursors : ℕ → Option MdbCursor
  next : ℕ
  answers : Answers
  tracking : Tracking

inductive TxnKind
  | readWrite | readOnly
  deriving DecidableEq

/-- The kind of a live transaction. -/
def Env.kind (e : Env) (t : ℕ) : Option TxnKind :=
  if t ∈ e.writers.map WriteTxn.id then some .readWrite
  else if t ∈ e.readers.map ReadTxn.id then some .readOnly
  else none

/-- What a live transaction sees, `none` while a nested one is open. -/
def Env.view (e : Env) (t : ℕ) : Option Contents :=
  match e.writers with
  | w :: rest =>
    if w.id = t then some w.view
    else if t ∈ rest.map WriteTxn.id then none
    else (e.readers.find? fun r => r.id = t).map ReadTxn.view
  | [] => (e.readers.find? fun r => r.id = t).map ReadTxn.view

abbrev Mdb := Prog Env Halt

/-- The environment after the next code for `c` has been given. -/
def Env.pop (e : Env) (c : Fallible) : Env :=
  { e with answers := Function.update e.answers c (e.answers c).tail }

def answer (c : Fallible) : Mdb Rc := do
  let e ← Prog.read id
  Prog.modify fun e => e.pop c
  pure ((e.answers c).headD 0)

/-- Change what the innermost write transaction sees. -/
def Env.setView (e : Env) (db : DbName) (es : Option Entries) : Env :=
  { e with writers := match e.writers with
      | w :: rest => { w with view := Function.update w.view db es } :: rest
      | [] => [] }

/-- The cursors left when only the write transactions `rest` go on; a cursor that `rest`
keeps goes back to where `shadow` has it. Cursors of read transactions are not ended. -/
def Env.survivors (e : Env) (rest : List WriteTxn) (shadow : ℕ → Option MdbCursor) :
    ℕ → Option MdbCursor := fun h =>
  match e.cursors h with
  | none => none
  | some c =>
    if c.txn ∈ e.writers.map WriteTxn.id ∧ c.txn ∉ rest.map WriteTxn.id then none
    else some ((shadow h).getD c)

/-- The write transactions around `t`. -/
def Env.outer (e : Env) (t : ℕ) : List WriteTxn := (e.writers.dropWhile fun w => w.id ≠ t).tail

def Env.shadowOf (e : Env) (t : ℕ) : ℕ → Option MdbCursor :=
  ((e.writers.find? fun w => w.id = t).map WriteTxn.shadow).getD fun _ => none

/-- End `t` and what is nested in it without effect. -/
def Env.abort (e : Env) (t : ℕ) : Env :=
  { e with
    writers := e.outer t
    cursors := e.survivors (e.outer t) (e.shadowOf t)
    disk := { e.disk with locked := !(e.outer t).isEmpty } }

/-- End `t` and hand what it sees to the transaction around it or to the disk. -/
def Env.commit (e : Env) (t : ℕ) : Env :=
  match e.writers with
  | [] => e
  | w :: _ =>
    { e with
      writers := match e.outer t with
        | p :: ps => { p with view := w.view } :: ps
        | [] => []
      cursors := e.survivors (e.outer t) fun _ => none
      disk := match e.outer t with
        | _ :: _ => e.disk
        | [] => ⟨w.view, false⟩ }

/-- A snapshot of the disk. -/
def Env.beginReader (e : Env) : Env :=
  { e with readers := ⟨e.next, e.disk.contents⟩ :: e.readers, next := e.next + 1 }

def Env.beginWriter (e : Env) : Env :=
  { e with
    writers := [⟨e.next, e.disk.contents, e.cursors⟩]
    disk := { e.disk with locked := true }
    next := e.next + 1 }

def Env.beginNested (e : Env) (view : Contents) : Env :=
  { e with writers := ⟨e.next, view, e.cursors⟩ :: e.writers, next := e.next + 1 }

def mdbTxnBegin (parent : Option ℕ) (rdonly : Bool) : Mdb (Rc × ℕ) := do
  let e ← Prog.read id
  match parent with
  | some t =>
    match e.kind t with
    | none => Prog.halt .deadHandle
    | some .readOnly => pure (einval, 0)
    | some .readWrite =>
      match e.view t with
      | none => pure (mdbBadTxn, 0)
      | some view =>
        if rdonly then pure (einval, 0)
        else do
          let rc ← answer .txnBegin
          if rc ≠ 0 then pure (rc, 0)
          else do
            Prog.modify fun e => e.beginNested view
            pure (0, e.next)
  | none =>
    if e.readonly ∧ !rdonly then pure (eacces, 0)
    else do
      let rc ← answer .txnBegin
      if rc ≠ 0 then pure (rc, 0)
      else if rdonly then do
        Prog.modify Env.beginReader
        pure (0, e.next)
      else if e.disk.locked then Prog.halt .blocked
      else do
        Prog.modify Env.beginWriter
        pure (0, e.next)

def Env.endReader (e : Env) (t : ℕ) : Env :=
  { e with readers := e.readers.filter fun r => r.id ≠ t }

def mdbTxnAbort (t : ℕ) : Mdb Unit := do
  let e ← Prog.read id
  match e.kind t with
  | none => Prog.halt .deadHandle
  | some .readOnly => Prog.modify fun e => e.endReader t
  | some .readWrite => Prog.modify fun e => e.abort t

/-- A commit that fails ends the transaction without effect. -/
def mdbTxnCommit (t : ℕ) : Mdb Rc := do
  let e ← Prog.read id
  match e.kind t with
  | none => Prog.halt .deadHandle
  | some .readOnly => do
    Prog.modify fun e => e.endReader t
    pure 0
  | some .readWrite => do
    let rc ← answer .txnCommit
    if rc ≠ 0 then do
      Prog.modify fun e => e.abort t
      pure rc
    else do
      Prog.modify fun e => e.commit t
      pure 0

/-- Run `m` on what a live transaction sees. -/
def withView (t : ℕ) (m : Contents → Mdb (Rc × Bytes)) : Mdb (Rc × Bytes) := do
  let e ← Prog.read id
  match e.kind t with
  | none => Prog.halt .deadHandle
  | some _ =>
    match e.view t with
    | none => pure (mdbBadTxn, [])
    | some c => m c

def mdbDbiOpen (t : ℕ) (db : DbName) (create : Bool) : Mdb Rc := do
  let r ← withView t fun c => do
    let rc ← answer .dbiOpen
    if rc ≠ 0 then pure (rc, [])
    else if (c db).isSome then pure (0, [])
    else if !create then pure (mdbNotfound, [])
    else do
      let e ← Prog.read id
      if e.kind t ≠ some .readWrite then pure (eacces, [])
      else do
        Prog.modify fun e => e.setView db (some [])
        pure (0, [])
  pure r.1

/-- Probe for a key in a database without a comparison function of its own. -/
def byteProbe (key : Bytes) : Bytes → Ordering := RowidEncoding.memcmp key

def mdbGet (t : ℕ) (db : DbName) (key : Bytes) : Mdb (Rc × Bytes) :=
  withView t fun c => do
    let rc ← answer .get
    if rc ≠ 0 then pure (rc, [])
    else match c db with
      | none => pure (einval, [])
      | some es =>
        match lookup (byteProbe key) es with
        | some e => pure (0, e.2)
        | none => pure (mdbNotfound, [])

/-- An equal key is kept when the value has the length of the old one. -/
def overwrite (key val : Bytes) (old : Bytes × Bytes) : Bytes × Bytes :=
  (if old.2.length = val.length then old.1 else key, val)

def mdbPut (t : ℕ) (db : DbName) (key val : Bytes) : Mdb Rc := do
  let r ← withView t fun c => do
    let e ← Prog.read id
    if e.kind t ≠ some .readWrite then pure (eacces, [])
    else do
      let rc ← answer .put
      if rc ≠ 0 then pure (rc, [])
      else match c db with
        | none => pure (einval, [])
        | some es => do
          Prog.modify fun e =>
            e.setView db (some (place (byteProbe key) (key, val) (overwrite key val) es))
          pure (0, [])
  pure r.1

/-- The cursors on `db` of the write transactions go where `f` has them. -/
def Env.adjust (e : Env) (db : DbName) (f : ℕ → Position → Position) : Env :=
  { e with cursors := fun h =>
      match e.cursors h with
      | none => none
      | some c =>
        if c.db = db ∧ c.txn ∈ e.writers.map WriteTxn.id then some { c with pos := f h c.pos }
        else some c }

/-- Empty a database, or delete it. -/
def mdbDrop (t : ℕ) (db : DbName) (del : Bool) : Mdb Rc := do
  let r ← withView t fun c => do
    let e ← Prog.read id
    if e.kind t ≠ some .readWrite then pure (eacces, [])
    else do
      let rc ← answer .drop
      if rc ≠ 0 then pure (rc, [])
      else if (c db).isNone then pure (einval, [])
      else do
        Prog.modify fun e => (e.setView db (if del then none else some [])).adjust db e.tracking.drop
        pure (0, [])
  pure r.1

/-- Number of entries of a database. -/
def mdbStat (t : ℕ) (db : DbName) : Mdb (Rc × ℕ) := do
  let e ← Prog.read id
  match e.kind t with
  | none => Prog.halt .deadHandle
  | some _ =>
    match e.view t with
    | none => pure (mdbBadTxn, 0)
    | some c => do
      let rc ← answer .stat
      if rc ≠ 0 then pure (rc, 0)
      else match c db with
        | none => pure (einval, 0)
        | some es => pure (0, es.length)

def mdbCursorOpen (t : ℕ) (db : DbName) : Mdb (Rc × ℕ) := do
  let e ← Prog.read id
  match e.kind t with
  | none => Prog.halt .deadHandle
  | some _ =>
    match e.view t with
    | none => pure (mdbBadTxn, 0)
    | some c => do
      let rc ← answer .cursorOpen
      if rc ≠ 0 then pure (rc, 0)
      else if (c db).isNone then pure (einval, 0)
      else do
        Prog.modify fun e => { e with
          cursors := Function.update e.cursors e.next (some ⟨t, db, .unset⟩)
          next := e.next + 1 }
        pure (0, e.next)

/-- Nothing is done for `NULL`. -/
def mdbCursorClose (h : Option ℕ) : Mdb Unit := do
  match h with
  | none => pure ()
  | some h => do
    let e ← Prog.read id
    match e.cursors h with
    | none => Prog.halt .deadHandle
    | some _ => Prog.modify fun e => { e with cursors := Function.update e.cursors h none }

inductive CursorOp
  | first | last | next | prev | getCurrent
  | set (probe : Bytes → Ordering)
  | setRange (probe : Bytes → Ordering)

/-- Stand on the entry `i`. -/
def land (es : Entries) (i : ℕ) (eof : Bool) : Position × Rc × Bytes × Bytes :=
  match es[i]? with
  | some e => (⟨true, eof, false, i⟩, 0, e.1, e.2)
  | none => (⟨es ≠ [], true, false, i⟩, mdbNotfound, [], [])

def moveNext (es : Entries) (pos : Position) : Position × Rc × Bytes × Bytes :=
  if !pos.initialized then land es 0 false
  else if pos.eof ∧ es.length ≤ pos.index + 1 then
    ({ pos with deleted := false }, mdbNotfound, [], [])
  else if pos.deleted then land es pos.index false
  else if es.length ≤ pos.index + 1 then ({ pos with eof := true }, mdbNotfound, [], [])
  else land es (pos.index + 1) false

def movePrev (es : Entries) (pos : Position) : Position × Rc × Bytes × Bytes :=
  if !pos.initialized ∧ es = [] then (.unset, mdbNotfound, [], [])
  else
    let index := if pos.initialized then pos.index else es.length
    if index = 0 then (⟨true, false, false, 0⟩, mdbNotfound, [], [])
    else land es (index - 1) false

def moveCurrent (es : Entries) (pos : Position) : Position × Rc × Bytes × Bytes :=
  if !pos.initialized then (pos, einval, [], [])
  else match es[pos.index]? with
    | some e => ({ pos with deleted := false }, 0, e.1, e.2)
    | none => ({ pos with deleted := false, index := es.length }, mdbNotfound, [], [])

def moveSetRange (probe : Bytes → Ordering) (es : Entries) : Position × Rc × Bytes × Bytes :=
  land es (lowerBound probe es) false

def moveSet (probe : Bytes → Ordering) (es : Entries) : Position × Rc × Bytes × Bytes :=
  match lookup probe es with
  | some _ => land es (lowerBound probe es) false
  | none => (⟨es ≠ [], false, false, lowerBound probe es⟩, mdbNotfound, [], [])

def CursorOp.move (op : CursorOp) (es : Entries) (pos : Position) : Position × Rc × Bytes × Bytes :=
  match op with
  | .first => land es 0 false
  | .last => land es (es.length - 1) true
  | .next => moveNext es pos
  | .prev => movePrev es pos
  | .getCurrent => moveCurrent es pos
  | .set probe => moveSet probe es
  | .setRange probe => moveSetRange probe es

/-- What a cursor moves in: the innermost write transaction for a cursor of any of them,
nothing that is defined for a cursor whose read transaction has ended. -/
def Env.cursorView (e : Env) (c : MdbCursor) : Option Contents :=
  if c.txn ∈ e.writers.map WriteTxn.id then e.writers.head?.map WriteTxn.view
  else (e.readers.find? fun r => r.id = c.txn).map ReadTxn.view

def Env.setCursor (e : Env) (h : ℕ) (c : MdbCursor) (pos : Position) : Env :=
  { e with cursors := Function.update e.cursors h (some { c with pos := pos }) }

def mdbCursorGet (h : Option ℕ) (op : CursorOp) : Mdb (Rc × Bytes × Bytes) := do
  match h with
  | none => pure (einval, [], [])
  | some h => do
    let e ← Prog.read id
    match e.cursors h with
    | none => Prog.halt .deadHandle
    | some c =>
      match e.cursorView c with
      | none => Prog.halt .undefined
      | some v => do
        let rc ← answer .cursorGet
        if rc ≠ 0 then pure (rc, [], [])
        else do
          let moved := op.move ((v c.db).getD []) c.pos
          Prog.modify fun e => e.setCursor h c moved.1
          pure moved.2

def maxKey : ℕ := 511

def mdbCursorPut (h : Option ℕ) (probe : Bytes → Ordering) (key val : Bytes) : Mdb Rc := do
  match h with
  | none => pure einval
  | some h => do
    let e ← Prog.read id
    match e.cursors h with
    | none => Prog.halt .deadHandle
    | some c =>
      if c.txn ∉ e.writers.map WriteTxn.id then pure eacces
      else match e.cursorView c with
        | none => Prog.halt .undefined
        | some v => do
          let rc ← answer .cursorPut
          if rc ≠ 0 then pure rc
          else if key = [] ∨ maxKey < key.length then pure mdbBadValsize
          else do
            let es := (v c.db).getD []
            let i := lowerBound probe es
            let inserted := (lookup probe es).isNone
            Prog.modify fun e =>
              ((e.setView c.db (some (place probe (key, val) (overwrite key val) es))).adjust c.db
                (e.tracking.put es i inserted)).setCursor h c ⟨true, false, false, i⟩
            pure 0

def mdbCursorDel (h : Option ℕ) : Mdb Rc := do
  match h with
  | none => Prog.halt .nullPointer
  | some h => do
    let e ← Prog.read id
    match e.cursors h with
    | none => Prog.halt .deadHandle
    | some c =>
      if c.txn ∉ e.writers.map WriteTxn.id then pure eacces
      else match e.cursorView c with
        | none => Prog.halt .undefined
        | some v => do
          let rc ← answer .cursorDel
          let es := (v c.db).getD []
          if rc ≠ 0 then pure rc
          else if !c.pos.initialized then pure einval
          else if es.length ≤ c.pos.index then pure mdbNotfound
          else do
            let rest := es.eraseIdx c.pos.index
            Prog.modify fun e =>
              ((e.setView c.db (some rest)).adjust c.db (e.tracking.del es c.pos.index)).setCursor h c
                ⟨!rest.isEmpty, decide (rest.length ≤ c.pos.index), true, c.pos.index⟩
            pure 0

end LumoSql.Lmdb
