import LumoSql.BtreeCursors
import LumoSql.LmdbLifetimes
import LumoSql.MetadataValues

/-! What the calls of the backend are made of: the calls of LMDB they make and what they change in
the memory of the handle and of its cursors. What all of these keep, every call keeps. -/
namespace LumoSql.Btree
open StateLogic Lmdb RowidEncoding

/-- The calls of LMDB on tables and metadata that neither open nor close a cursor. Tables are only
created and rows only put with `alters`, and so is the number of the last table. -/
inductive TableOp (alters : Prop) : {α : Type} → Mdb α → Prop
  | answer (c : Fallible) : TableOp alters (answer c)
  | dbiOpen (t iTable : ℕ) {create : Bool} (hc : create = true → alters) :
      TableOp alters (mdbDbiOpen t (.table iTable) create)
  | get (t : ℕ) (db : DbName) (key : Bytes) : TableOp alters (mdbGet t db key)
  | putHeader (t : ℕ) {idx : ℕ} (hidx : idx < headerValues) (hlargest : idx = btreeLargestRootPage → alters)
      (iValue : ℕ) : TableOp alters (mdbPut t .metadata (metaKey idx) (put4byte iValue))
  | drop (t iTable : ℕ) (del : Bool) : TableOp alters (mdbDrop t (.table iTable) del)
  | stat (t : ℕ) (db : DbName) : TableOp alters (mdbStat t db)
  | cursorGet (h : Option ℕ) (op : CursorOp) : TableOp alters (mdbCursorGet h op)
  | cursorPut (ha : alters) (h : Option ℕ) (probe : Bytes → Ordering) (key val : Bytes) :
      TableOp alters (mdbCursorPut h probe key val)
  | cursorDel (h : Option ℕ) : TableOp alters (mdbCursorDel h)

/-- The calls of LMDB that the calls on tables and metadata make. -/
inductive DataOp (alters : Prop) : {α : Type} → Mdb α → Prop
  | table {α : Type} {m : Mdb α} (h : TableOp alters m) : DataOp alters m
  | cursorOpen (t iTable : ℕ) : DataOp alters (mdbCursorOpen t (.table iTable))
  | cursorClose (h : Option ℕ) : DataOp alters (mdbCursorClose h)

/-- The calls of LMDB that the calls on transactions make, apart from those that invalidate cursors; a
transaction for reading is only begun with `reads`. -/
inductive MdbOp (reads : Prop) : {α : Type} → Mdb α → Prop
  | table {α : Type} {m : Mdb α} (h : TableOp False m) : MdbOp reads m
  | txnBegin (parent : Option ℕ) {rdonly : Bool} (hr : rdonly = true → reads) : MdbOp reads (mdbTxnBegin parent rdonly)
  | txnAbort (t : ℕ) : MdbOp reads (mdbTxnAbort t)
  | txnCommit (t : ℕ) : MdbOp reads (mdbTxnCommit t)
  | metaOpen (t : ℕ) : MdbOp reads (mdbDbiOpen t .metadata false)
  | putCounter (t : ℕ) (val : Bytes) : MdbOp reads (mdbPut t .metadata (metaKey lumoLmdbMetaCounter) val)

theorem TableOp.steps {alters : Prop} {closes : ℕ → Prop} {reads : Prop} {α : Type} {m : Mdb α} (h : TableOp alters m) :
    Steps closes reads m := by
  cases h with
  | answer c => exact steps_answer c
  | dbiOpen t iTable hc => exact steps_dbiOpen t _ _
  | get t db key => exact steps_get t db key
  | putHeader t hidx hlargest iValue => exact steps_put t _ _ _
  | drop t iTable del => exact steps_drop t _ del
  | stat t db => exact steps_stat t db
  | cursorGet h op => exact steps_cursorGet h op
  | cursorPut ha h probe key val => exact steps_cursorPut h probe key val
  | cursorDel h => exact steps_cursorDel h

theorem DataOp.steps {alters : Prop} {α : Type} {m : Mdb α} (h : DataOp alters m) : Steps (fun _ => True) False m := by
  cases h with
  | table h => exact h.steps
  | cursorOpen t iTable => exact steps_cursorOpen t iTable
  | cursorClose h => exact steps_cursorClose fun _ _ => trivial

theorem MdbOp.steps {closes : ℕ → Prop} {reads : Prop} {α : Type} {m : Mdb α} (h : MdbOp reads m) : Steps closes reads m := by
  cases h with
  | table h => exact h.steps
  | txnBegin parent hr => exact steps_txnBegin parent hr
  | txnAbort t => exact steps_txnAbort t
  | txnCommit t => exact steps_txnCommit t
  | metaOpen t => exact steps_dbiOpen t _ _
  | putCounter t val => exact steps_put t _ _ _

/-- What a call on an open cursor may change of it. -/
structure Moved (c d : BtCursor) : Prop where
  same : d = { c with dbi := d.dbi, cursor := d.cursor, atEof := d.atEof, srcCursor := d.srcCursor, srcKey := d.srcKey,
                      savedKey := d.savedKey }
  cursor : d.cursor = c.cursor ∨ d.cursor = none

/-- Open the LMDB cursor of cursor `i`; on success other fields are set by `f`. -/
def openInto (i t iTable : ℕ) (f : BtCursor → BtCursor) : Call (Rc × ℕ) := do
  let r ← lmdb (mdbCursorOpen t (.table iTable))
  if r.1 ≠ 0 then pure r
  else do
    setCur i fun c => { f c with cursor := some r.2 }
    pure r

/-- What is done with open cursors. -/
inductive UsePart (alters : Prop) : (α : Type) → Call α → Prop
  | lmdb {α : Type} {m : Mdb α} (h : TableOp alters m) : UsePart alters α (lmdb m)
  | setCur (i : ℕ) (f : BtCursor → BtCursor)
      (hf : ∀ c, f c = { c with atEof := (f c).atEof, srcCursor := (f c).srcCursor, srcKey := (f c).srcKey }) :
      UsePart alters Unit (setCur i f)
  | restoreCursor (i : ℕ) (reposition : Bool) : UsePart alters Rc (restoreCursor i reposition)

/-- What is done to open cursor `i` again, which has no LMDB cursor. -/
inductive ReopenPart (alters : Prop) (i : ℕ) : (α : Type) → Call α → Prop
  | lmdb {α : Type} {m : Mdb α} (h : TableOp alters m) : ReopenPart alters i α (lmdb m)
  | setCur (f : BtCursor → BtCursor) (hf : ∀ c, Moved c (f c)) : ReopenPart alters i Unit (setCur i f)
  | openInto (t iTable : ℕ) (f : BtCursor → BtCursor) (hf : ∀ c, Moved c (f c)) :
      ReopenPart alters i (Rc × ℕ) (openInto i t iTable f)

/-- What is done with open cursors and what a cursor is restored with. -/
inductive MovePart (alters : Prop) : (α : Type) → Call α → Prop
  | lmdb {α : Type} {m : Mdb α} (h : DataOp alters m) : MovePart alters α (lmdb m)
  | setCur (i : ℕ) (f : BtCursor → BtCursor) (hf : ∀ c, Moved c (f c)) : MovePart alters Unit (setCur i f)
  | openInto (i t iTable : ℕ) (f : BtCursor → BtCursor) (hf : ∀ c, Moved c (f c)) :
      MovePart alters (Rc × ℕ) (openInto i t iTable f)

inductive DataPart (alters : Prop) : (α : Type) → Call α → Prop
  | move {α : Type} {m : Call α} (h : MovePart alters α m) : DataPart alters α m
  | setCur (i : ℕ) (f : BtCursor → BtCursor)
      (hf : ∀ c, (f c).tripCode = c.tripCode ∧ ((f c).cursor = c.cursor ∨ (f c).cursor = none)) :
      DataPart alters Unit (setCur i f)
  | setList (f : Btree → Btree)
      (hf : ∀ p, f p = { p with firstCursor := (f p).firstCursor, lastCursor := (f p).lastCursor }) :
      DataPart alters Unit (setP f)
  | newCursor : DataPart alters ℕ newCursor

/-- What transactions are begun and ended with. -/
inductive TxnPart (reads : Prop) : (α : Type) → Call α → Prop
  | lmdb {α : Type} {m : Mdb α} (h : MdbOp reads m) : TxnPart reads α (lmdb m)
  | setP (f : Btree → Btree) (hf : ∀ p, (f p).firstCursor = p.firstCursor ∧ (f p).lastCursor = p.lastCursor) :
      TxnPart reads Unit (setP f)
  | invalidateCursor (tripCode : Rc) (writeOnly : Bool) (i : ℕ) (rc : Rc) :
      TxnPart reads Rc (invalidateCursor tripCode writeOnly i rc)

/-- What the handle is closed with. -/
inductive ClosePart : (α : Type) → Call α → Prop
  | txn {α : Type} {m : Call α} (h : TxnPart False α m) : ClosePart α m
  | closeEnv : ClosePart Unit
      (lmdb (Prog.modify fun e => { e with writers := [], readers := [], cursors := fun _ => none }))

/-- A code that says that a cursor has been tripped is only set when a cursor is invalidated. -/
inductive Part (alters : Prop) : (α : Type) → Call α → Prop
  | data {α : Type} {m : Call α} (h : DataPart alters α m) : Part alters α m
  | close {α : Type} {m : Call α} (h : ClosePart α m) : Part alters α m

/-- What the invalidation of cursor `i` is made of. -/
inductive InvalidationPart (i : ℕ) : (α : Type) → Call α → Prop
  | lmdb {α : Type} {m : Mdb α} (h : DataOp False m) : InvalidationPart i α (lmdb m)
  | setCur (f : BtCursor → BtCursor)
      (hf : ∀ c, f c = { c with cursor := (f c).cursor, savedKey := (f c).savedKey, tripCode := (f c).tripCode } ∧
        ((f c).cursor = c.cursor ∨ (f c).cursor = none)) :
      InvalidationPart i Unit (setCur i f)

theorem built_saveFailed (i : ℕ) (rc1 rc : Rc) : Built (InvalidationPart i) (saveFailed i rc1 rc) :=
  Built.bind (.part (.setCur _ fun _ => ⟨rfl, .inl rfl⟩)) fun _ => .pure _

theorem built_invalidateCursor (tripCode : Rc) (writeOnly : Bool) (i : ℕ) (rc : Rc) :
    Built (InvalidationPart i) (invalidateCursor tripCode writeOnly i rc) := by
  refine Built.bind (.read _) fun c => .ite (.ite ?_ ?_) (.pure _)
  · refine Built.bind (.part (.lmdb (.table (.cursorGet _ _)))) fun r => .ite (built_saveFailed _ _ _) ?_
    refine Built.bind (.part (.lmdb (.table (.answer _)))) fun oom => ?_
    refine Built.ite (Built.bind (.part (.setCur _ fun _ => ⟨rfl, .inl rfl⟩)) fun _ => built_saveFailed _ _ _) ?_
    refine Built.bind (.part (.setCur _ fun _ => ⟨rfl, .inl rfl⟩)) fun _ => ?_
    refine Built.bind (.part (.lmdb (.cursorClose _))) fun _ => ?_
    exact Built.bind (.part (.setCur _ fun _ => ⟨rfl, .inr rfl⟩)) fun _ => .pure _
  · exact Built.bind (.part (.setCur _ fun _ => ⟨rfl, .inl rfl⟩)) fun _ => .pure _

section Data

variable {alters : Prop}

theorem built_topTxn {P : (α : Type) → Call α → Prop} : Built P topTxn := by
  refine Built.bind (.read _) fun p => ?_
  cases p.svp with
  | nil => exact .halt _
  | cons s rest => exact .pure _

theorem openInto_bind {α : Type} (i t iTable : ℕ) (f : BtCursor → BtCursor) (k k' : Rc × ℕ → Call α) :
    (openInto i t iTable f >>= fun r => if r.1 ≠ 0 then k r else k' r) = (do
      let r ← lmdb (mdbCursorOpen t (.table iTable))
      if r.1 ≠ 0 then k r
      else do
        setCur i fun c => { f c with cursor := some r.2 }
        k' r) := by
  rw [openInto, Prog.bind_assoc]
  congr 1
  funext r
  by_cases hr : r.1 ≠ 0
  · rw [if_pos hr, if_pos hr, Prog.pure_bind, if_pos hr]
  · rw [if_neg hr, if_neg hr, Prog.bind_assoc]
    congr 1
    funext u
    rw [Prog.pure_bind, if_neg hr]

/-- A cursor that is opened is set at once. -/
theorem built_openInto {P : (α : Type) → Call α → Prop} {α : Type} {i t iTable : ℕ} {f : BtCursor → BtCursor}
    (hP : P (Rc × ℕ) (openInto i t iTable f)) {k k' : Rc × ℕ → Call α} (hk : ∀ r, Built P (k r))
    (hk' : ∀ r, Built P (k' r)) : Built P (do
      let r ← lmdb (mdbCursorOpen t (.table iTable))
      if r.1 ≠ 0 then k r
      else do
        setCur i fun c => { f c with cursor := some r.2 }
        k' r) := by
  rw [← openInto_bind]
  exact Built.bind (.part hP) fun r => .ite (hk r) (hk' r)

theorem built_getTable {P : (α : Type) → Call α → Prop}
    (hP : ∀ {α : Type} {m : Mdb α}, TableOp alters m → P α (lmdb m)) (iTable : ℕ) {create : Bool}
    (hc : create = true → alters) : Built P (getTable iTable create) := by
  refine Built.bind (.read _) fun p => .ite (.pure _) ?_
  cases p.svp with
  | nil => exact .pure _
  | cons s rest => exact .part (hP (.dbiOpen _ _ hc))

theorem built_getMeta32 {P : (α : Type) → Call α → Prop}
    (hP : ∀ {α : Type} {m : Mdb α}, TableOp alters m → P α (lmdb m)) (idx : ℕ) : Built P (getMeta32 idx) := by
  refine Built.bind (.read _) fun p => .ite (.pure _) ?_
  refine Built.bind built_topTxn fun txn => ?_
  refine Built.bind (.part (hP (.get _ _ _))) fun r => ?_
  exact .ite (.pure _) (.ite (.pure _) (.pure _))

theorem built_getMeta (idx : ℕ) : Built (UsePart alters) (sqlite3BtreeGetMeta idx) := by
  refine Built.bind (.read _) fun p => .ite (.pure _) ?_
  exact Built.bind (built_getMeta32 .lmdb idx) fun v => .pure _

theorem built_updateMeta {idx : ℕ} (hidx : idx < headerValues) (hlargest : idx = btreeLargestRootPage → alters)
    (iValue : ℕ) :
    Built (UsePart alters) (sqlite3BtreeUpdateMeta idx iValue) := by
  refine Built.bind ?_ fun rc => .pure _
  refine Built.bind (.read _) fun p => .ite (.pure _) ?_
  refine Built.bind built_topTxn fun txn => ?_
  exact .part (.lmdb (.putHeader txn hidx hlargest iValue))

theorem built_createTable (ha : alters) : Built (UsePart alters) sqlite3BtreeCreateTable := by
  refine Built.bind (built_getMeta _) fun largest => ?_
  refine Built.bind (built_getTable .lmdb _ fun _ => ha) fun rc => .ite (.pure _) ?_
  exact Built.bind (built_updateMeta (by decide) (fun _ => ha) _) fun rc => .pure _

theorem built_dropTable (iTable : ℕ) : Built (UsePart alters) (sqlite3BtreeDropTable iTable) := by
  refine Built.bind (built_getTable .lmdb _ (absurd · Bool.false_ne_true)) fun rc => .ite (.pure _) ?_
  refine Built.bind built_topTxn fun txn => ?_
  exact Built.bind (.part (.lmdb (.drop _ _ _))) fun rc => .pure _

theorem built_clearTable (iTable : ℕ) (pnChange : Bool) :
    Built (UsePart alters) (sqlite3BtreeClearTable iTable pnChange) := by
  refine Built.bind (built_getTable .lmdb _ (absurd · Bool.false_ne_true)) fun rc => .ite (.pure _) ?_
  refine Built.bind built_topTxn fun txn => ?_
  have hclear : ∀ entries : ℕ, Built (UsePart alters) (do
      let rc ← lmdb (mdbDrop txn (.table iTable) false)
      if rc ≠ 0 then pure (errorMap rc, 0) else pure (sqliteOk, entries)) := fun entries =>
    Built.bind (.part (.lmdb (.drop _ _ _))) fun rc => .ite (.pure _) (.pure _)
  refine Built.ite ?_ (Built.bind (.pure _) hclear)
  exact Built.bind (.part (.lmdb (.stat _ _))) fun r => Built.bind (.pure _) hclear

theorem built_reopenCursor (i : ℕ) (c : BtCursor) (savedKey : Bytes) (reposition : Bool) :
    Built (ReopenPart alters i) (reopenCursor i c savedKey reposition) := by
  refine Built.bind (built_getTable .lmdb _ (absurd · Bool.false_ne_true)) fun rc => .ite (.pure _) ?_
  refine Built.bind (.part (.setCur _ fun _ => ⟨rfl, .inl rfl⟩)) fun _ => Built.bind built_topTxn fun txn => ?_
  have hend : ∀ rc : Rc, Built (ReopenPart alters i) (if rc ≠ 0 then pure (errorMap rc)
      else do
        setCur i fun d => { d with savedKey := none }
        pure sqliteOk) := fun rc =>
    .ite (.pure _) (Built.bind (.part (.setCur _ fun _ => ⟨rfl, .inl rfl⟩)) fun _ => .pure _)
  have hrest : ∀ r : Rc × ℕ, Built (ReopenPart alters i) (do
      let rc ← if reposition then repositionCursor r.2 c.keyInfo savedKey else pure 0
      if rc ≠ 0 then pure (errorMap rc)
      else do
        setCur i fun d => { d with savedKey := none }
        pure sqliteOk) := fun r => by
    refine Built.ite (Built.bind ?_ hend) (Built.bind (.pure _) hend)
    refine Built.bind (.read _) fun fixedRowid => Built.bind (.read _) fun e => .ite (.halt _) ?_
    exact Built.bind (.part (.lmdb (.cursorGet _ _))) fun g => .pure _
  exact built_openInto (.openInto _ _ id fun _ => ⟨rfl, .inl rfl⟩) (fun _ => .pure _) hrest

theorem ReopenPart.move {i : ℕ} {α : Type} {m : Call α} (h : ReopenPart alters i α m) : MovePart alters α m := by
  cases h with
  | lmdb h => exact .lmdb (.table h)
  | setCur f hf => exact .setCur i f hf
  | openInto t iTable f hf => exact .openInto i t iTable f hf

theorem built_restoreCursor (i : ℕ) (reposition : Bool) :
    Built (MovePart alters) (restoreCursor i reposition) := by
  refine Built.bind (.read _) fun c => .ite (.pure _) ?_
  cases c.savedKey with
  | none => exact .pure _
  | some savedKey =>
    have hclosed : Built (MovePart alters) (do
        setCur i fun c => { c with cursor := none }
        if !c.pBtree then Prog.halt .nullPointer else reopenCursor i c savedKey reposition) :=
      Built.bind (.part (.setCur _ _ fun _ => ⟨rfl, .inr rfl⟩)) fun _ => .ite (.halt _) ((built_reopenCursor _ _ _ _).mono ReopenPart.move)
    exact .ite (Built.bind (.part (.lmdb (.cursorClose _))) fun _ => hclosed) hclosed

/-- Cursors are restored with the other parts. -/
theorem UsePart.built {α : Type} {m : Call α} (h : UsePart alters α m) : Built (MovePart alters) m := by
  cases h with
  | lmdb h => exact .part (.lmdb (.table h))
  | setCur i f hf =>
    refine .part (.setCur i f fun c => ⟨?_, .inl ?_⟩)
    · rw [hf c]
    · rw [hf c]
  | restoreCursor i reposition => exact built_restoreCursor i reposition

theorem built_cursorMove (i : ℕ) (op : CursorOp) (reposition : Bool) :
    Built (UsePart alters) (cursorMove i op reposition) := by
  refine Built.bind (.part (.restoreCursor _ _)) fun rc => .ite (.pure _) ?_
  refine Built.bind (.read _) fun c => ?_
  refine Built.bind (.part (.lmdb (.cursorGet _ _))) fun g => ?_
  refine Built.ite (Built.bind (.part (.setCur _ _ fun _ => rfl)) fun _ => .pure _) (.ite (.pure _) ?_)
  exact Built.bind (.part (.setCur _ _ fun _ => rfl)) fun _ => .pure _

theorem built_cursorStep (i : ℕ) (op : CursorOp) : Built (UsePart alters) (cursorStep i op) := by
  refine Built.bind (built_cursorMove _ _ _) fun r => .ite (.pure _) ?_
  exact Built.bind (.read _) fun c => .pure _

theorem built_tableMoveto (i : ℕ) (intKey : ℤ) :
    Built (UsePart alters) (sqlite3BtreeTableMoveto i intKey) := by
  refine Built.bind (.part (.restoreCursor _ _)) fun rc => .ite (.pure _) ?_
  refine Built.bind (.part (.setCur _ _ fun _ => rfl)) fun _ => Built.bind (.read _) fun c => ?_
  refine Built.bind (.read _) fun fixedRowid => ?_
  refine Built.bind (.part (.lmdb (.cursorGet _ _))) fun g => ?_
  refine Built.ite (.pure _) (.ite (.pure _) ?_)
  exact Built.bind (.part (.lmdb (.cursorGet _ _))) fun _ => .pure _

theorem built_indexMoveto (i : ℕ) (idxKey : Bytes → Ordering) :
    Built (UsePart alters) (sqlite3BtreeIndexMoveto i idxKey) := by
  refine Built.bind (.part (.restoreCursor _ _)) fun rc => .ite (.pure _) ?_
  refine Built.bind (.part (.setCur _ _ fun _ => rfl)) fun _ => Built.bind (.read _) fun c => ?_
  refine Built.bind (.part (.lmdb (.cursorGet _ _))) fun g => ?_
  refine Built.ite (.pure _) (.ite (.pure _) ?_)
  exact Built.bind (.part (.lmdb (.cursorGet _ _))) fun _ => .pure _

theorem built_delete (i : ℕ) : Built (UsePart alters) (sqlite3BtreeDelete i) := by
  refine Built.bind (.part (.restoreCursor _ _)) fun rc => .ite (.pure _) ?_
  refine Built.bind (.read _) fun c => ?_
  exact Built.bind (.part (.lmdb (.cursorDel _))) fun rc => .pure _

theorem built_preformatted (i : ℕ) : Built (UsePart alters) (preformatted i) := by
  refine Built.bind (.read _) fun c => ?_
  cases c.srcCursor with
  | none => exact .halt _
  | some src =>
    refine Built.bind (.part (.restoreCursor _ _)) fun rc => .ite (.pure _) ?_
    refine Built.bind (.read _) fun s => ?_
    refine Built.bind (.part (.lmdb (.cursorGet _ _))) fun g => ?_
    exact Built.bind (.part (.setCur _ _ fun _ => rfl)) fun _ => .ite (.pure _) (.pure _)

theorem built_unpackKey (keyInfo : KeyInfo) (pX : Payload) :
    Built (UsePart alters) (unpackKey keyInfo pX) := by
  rw [unpackKey]
  cases pX.aMem with
  | some unpacked => exact .pure _
  | none =>
    refine Built.bind (.part (.lmdb (.answer _))) fun oom => .ite (.pure _) ?_
    cases keyInfo.unpack pX.pKey with
    | none => exact .pure _
    | some unpacked => exact .pure _

theorem built_insertCopied (ha : alters) (i : ℕ) (src : Bytes × Bytes) :
    Built (UsePart alters) (insertCopied i src) := by
  refine Built.bind (.read _) fun c => Built.bind (.read _) fun e => .ite (.halt _) ?_
  exact Built.bind (.part (.lmdb (.cursorPut ha _ _ _ _))) fun rc => .pure _

theorem built_insertIndex (ha : alters) (i : ℕ) (keyInfo : KeyInfo) (pX : Payload) (preformat : Bool)
    (src : Bytes × Bytes) : Built (UsePart alters) (insertIndex i keyInfo pX preformat src) := by
  refine Built.bind (built_unpackKey _ _) fun u => .ite (.pure _) (.ite (built_insertCopied ha _ _) ?_)
  refine Built.ite (.pure _) (Built.bind (.read _) fun c => Built.bind (.read _) fun p => ?_)
  exact Built.bind (.part (.lmdb (.cursorPut ha _ _ _ _))) fun rc => .pure _

theorem built_insertRow (ha : alters) (i : ℕ) (nKey : ℤ) (data : Bytes) :
    Built (UsePart alters) (insertRow i nKey data) := by
  refine Built.bind (.read _) fun c => Built.bind (.read _) fun fixedRowid => ?_
  exact Built.bind (.part (.lmdb (.cursorPut ha _ _ _ _))) fun rc => .pure _

theorem built_insertSource (ha : alters) (i : ℕ) (pX : Payload) (preformat : Bool) (src : Rc × Bytes × Bytes) :
    Built (UsePart alters) (insertSource i pX preformat src) := by
  refine .ite (.pure _) (Built.bind (.read _) fun c => ?_)
  cases c.keyInfo with
  | some keyInfo => exact built_insertIndex ha _ _ _ _ _
  | none => exact .ite (built_insertRow ha _ _ _) (built_insertRow ha _ _ _)

theorem built_insert (ha : alters) (i : ℕ) (pX : Payload) (preformat : Bool) :
    Built (UsePart alters) (sqlite3BtreeInsert i pX preformat) := by
  refine Built.bind (.read _) fun c => .ite (.halt _) ?_
  refine Built.bind (.part (.restoreCursor _ _)) fun rc => .ite (.pure _) ?_
  have hput := built_insertSource ha i pX preformat
  exact .ite (Built.bind (built_preformatted i) hput) (Built.bind (.pure _) hput)

theorem built_integerKey (i : ℕ) : Built (UsePart alters) (sqlite3BtreeIntegerKey i) := by
  refine Built.bind (.read _) fun c => Built.bind (.read _) fun fixedRowid => ?_
  cases c.savedKey with
  | some key => exact .pure _
  | none => exact Built.bind (.part (.lmdb (.cursorGet _ _))) fun g => .pure _

theorem built_payloadFetch (i : ℕ) : Built (UsePart alters) (sqlite3BtreePayloadFetch i) := by
  refine Built.bind (.read _) fun c => ?_
  have hget : ∀ (h : Option ℕ) (f : Rc × Bytes × Bytes → Bytes), Built (UsePart alters) (do
      let g ← lmdb (mdbCursorGet h .getCurrent)
      pure (f g)) := fun h f =>
    Built.bind (.part (.lmdb (.cursorGet _ _))) fun g => .pure _
  cases c.keyInfo with
  | some keyInfo =>
    cases c.savedKey with
    | some key => exact .pure _
    | none => exact hget _ _
  | none =>
    refine Built.bind (.part (.restoreCursor _ _)) fun rc => .ite (.pure _) ?_
    exact Built.bind (.read _) fun c => hget _ _

theorem built_count (i : ℕ) : Built (UsePart alters) (sqlite3BtreeCount i) := by
  refine Built.bind (.read _) fun c => ?_
  cases c.txn with
  | none => exact .pure _
  | some txn =>
    exact Built.bind (.part (.lmdb (.stat _ _))) fun r => .ite (.pure _) (.pure _)

theorem built_cursorHasMoved (i : ℕ) : Built (UsePart alters) (sqlite3BtreeCursorHasMoved i) := by
  refine Built.bind (.read _) fun c => ?_
  exact Built.bind (.part (.lmdb (.cursorGet _ _))) fun g => .pure _

theorem built_linkCursor (i : ℕ) : Built (DataPart alters) (linkCursor i) := by
  refine Built.bind (.read _) fun p => Built.bind (.part (.setCur _ _ fun _ => ⟨rfl, .inl rfl⟩)) fun _ => ?_
  cases p.lastCursor with
  | none => exact Built.bind (.part (.setList _ fun _ => rfl)) fun _ => .part (.setList _ fun _ => rfl)
  | some j => exact Built.bind (.part (.setCur _ _ fun _ => ⟨rfl, .inl rfl⟩)) fun _ => .part (.setList _ fun _ => rfl)

theorem built_cursor (iTable : ℕ) (wrFlag : Bool) (keyInfo : Option KeyInfo) (i : ℕ) :
    Built (DataPart alters) (sqlite3BtreeCursor iTable wrFlag keyInfo i) := by
  refine Built.bind (.read _) fun c => .ite (.pure _) ?_
  refine Built.bind built_topTxn fun txn => Built.bind (.part (.setCur _ _ fun _ => ⟨rfl, .inr rfl⟩)) fun _ => ?_
  refine Built.bind (built_getTable (fun h => .move (.lmdb (.table h))) _ (absurd · Bool.false_ne_true)) fun rc => .ite (.pure _) ?_
  refine Built.bind (.part (.setCur _ _ fun _ => ⟨rfl, .inl rfl⟩)) fun _ => ?_
  have hlink : Built (DataPart alters) (do
      linkCursor i
      setCur i fun c => { c with wrFlag := wrFlag }
      pure sqliteOk) :=
    Built.bind (built_linkCursor i) fun _ =>
      Built.bind (.part (.setCur _ _ fun _ => ⟨rfl, .inl rfl⟩)) fun _ => .pure _
  have hfirst : ∀ r : Rc × ℕ, Built (DataPart alters) (do
      let g ← lmdb (mdbCursorGet (some r.2) .first)
      if g.1 ≠ 0 then setCur i fun c => { c with atEof := true } else pure ()
      linkCursor i
      setCur i fun c => { c with wrFlag := wrFlag }
      pure sqliteOk) := fun r =>
    Built.bind (.part (.move (.lmdb (.table (.cursorGet _ _))))) fun g =>
      .ite (Built.bind (.part (.setCur _ _ fun _ => ⟨rfl, .inl rfl⟩)) fun _ => hlink) hlink
  exact built_openInto (f := fun c => { c with atEof := false })
    (.move (.openInto _ _ _ _ fun _ => ⟨rfl, .inl rfl⟩)) (fun _ => .pure _) hfirst

theorem built_unlinkNext (next prev : Option ℕ) : Built (DataPart alters) (match next with
    | some j => setCur j fun d => { d with prev := prev }
    | none => setP fun p => { p with lastCursor := prev }) := by
  cases next with
  | none => exact .part (.setList _ fun _ => rfl)
  | some j => exact .part (.setCur _ _ fun _ => ⟨rfl, .inl rfl⟩)

theorem built_unlinkCursor (i : ℕ) : Built (DataPart alters) (unlinkCursor i) := by
  refine Built.bind (.read _) fun c => ?_
  cases c.prev with
  | none => exact Built.bind (.part (.setList _ fun _ => rfl)) fun _ => built_unlinkNext c.next none
  | some j => exact Built.bind (.part (.setCur _ _ fun _ => ⟨rfl, .inl rfl⟩)) fun _ => built_unlinkNext c.next (some j)

end Data

section Transactions

variable {alters reads : Prop}

theorem built_getMeta64 (idx : ℕ) : Built (TxnPart reads) (getMeta64 idx) := by
  refine Built.bind (.read _) fun p => .ite (.pure _) (Built.bind built_topTxn fun _ => ?_)
  refine Built.bind (.part (.lmdb (.table (.get _ _ _)))) fun r => .ite (.pure _) ?_
  exact Built.bind (.read _) fun fixedRowid => .pure _

theorem built_putMeta64 (uValue : ℕ) : Built (TxnPart reads) (putMeta64 lumoLmdbMetaCounter uValue) := by
  refine Built.bind (.read _) fun p => .ite (.pure _) (Built.bind built_topTxn fun _ => ?_)
  exact Built.bind (.read _) fun fixedRowid => .part (.lmdb (.putCounter _ _))

theorem built_invalidateLoop (tripCode : Rc) (writeOnly : Bool) (fuel : ℕ) (o : Option ℕ) (rc : Rc) :
    Built (TxnPart reads) (invalidateLoop tripCode writeOnly fuel o rc) := by
  induction fuel generalizing o rc with
  | zero =>
    cases o with
    | none => exact .pure _
    | some i => exact .halt _
  | succ fuel ih =>
    cases o with
    | none => exact .pure _
    | some i =>
      refine Built.bind (.read _) fun c => ?_
      exact Built.bind (.part (.invalidateCursor _ _ _ _)) fun rc => ih c.next rc

theorem built_invalidateCursors (tripCode : Rc) (writeOnly : Bool) :
    Built (TxnPart reads) (invalidateCursors tripCode writeOnly) :=
  Built.bind (.read _) fun p => Built.bind (.read _) fun fuel => built_invalidateLoop _ _ fuel p.firstCursor 0

theorem built_closeLevel (s : BtreeSavepoint) (commit : Bool) (tripCode rc : Rc) :
    Built (TxnPart reads) (closeLevel s commit tripCode rc) := by
  refine Built.bind (built_invalidateCursors _ _) fun rc1 => ?_
  exact .ite (.part (.lmdb (.txnCommit _)))
    (Built.bind (.part (.lmdb (.txnAbort _))) fun _ => .pure _)

theorem built_closeLoop (nTo : ℤ) (commit : Bool) (tripCode : Rc) (levels : List BtreeSavepoint) (rc : Rc) :
    Built (TxnPart reads) (closeLoop nTo commit tripCode levels rc) := by
  induction levels generalizing rc with
  | nil => exact .pure _
  | cons s levels ih =>
    cases levels with
    | nil => exact .pure _
    | cons s' levels =>
      refine Built.ite (.pure _) (Built.bind (.part (.setP _ fun _ => ⟨rfl, rfl⟩)) fun _ => ?_)
      exact Built.bind (built_closeLevel _ _ _ _) fun rc => ih rc

theorem built_closeAllSavepoints (nTo : ℤ) (commit : Bool) (tripCode : Rc) :
    Built (TxnPart reads) (closeAllSavepoints nTo commit tripCode) :=
  Built.bind (.read _) fun p => built_closeLoop nTo commit tripCode p.svp 0

theorem built_endTxn {f : Btree → Btree}
    (hf : ∀ p, (f p).firstCursor = p.firstCursor ∧ (f p).lastCursor = p.lastCursor) : Built (TxnPart reads) (do
    let txn ← topTxn
    lmdb (mdbTxnAbort txn)
    setP f
    pure sqliteOk) :=
  Built.bind built_topTxn fun _ => Built.bind (.part (.lmdb (.txnAbort _))) fun _ =>
    Built.bind (.part (.setP f hf)) fun _ => .pure _

theorem built_beginGetVersion (pSchemaVersion : Bool) :
    Built (TxnPart reads) (beginGetVersion pSchemaVersion) :=
  .ite (Built.bind (built_getMeta32 (fun h => .lmdb (.table h)) _) fun _ => .pure _) (.pure _)

theorem built_upgradeError (rc : Rc) : Built (TxnPart reads) (upgradeError rc) :=
  Built.bind (.part (.setP _ fun _ => ⟨rfl, rfl⟩)) fun _ => .pure _

theorem built_upgradeOpened (uCounterRO : ℤ) (txn : ℕ) :
    Built (TxnPart reads) (upgradeOpened uCounterRO txn) := by
  refine Built.bind (.part (.setP _ fun _ => ⟨rfl, rfl⟩)) fun _ => Built.bind (.part (.lmdb (.metaOpen _))) fun rc => ?_
  refine Built.ite (Built.bind (.part (.lmdb (.txnAbort _))) fun _ => built_upgradeError rc) ?_
  refine Built.bind (.part (.setP _ fun _ => ⟨rfl, rfl⟩)) fun _ => Built.bind (built_getMeta64 _) fun uCounterRW => ?_
  exact .ite (.pure _) (Built.bind (.part (.setP _ fun _ => ⟨rfl, rfl⟩)) fun _ => .pure _)

theorem built_upgradeOptimistic : Built (TxnPart reads) upgradeOptimistic := by
  refine Built.bind (built_getMeta64 _) fun uCounterRO => ?_
  refine Built.bind (built_invalidateCursors _ _) fun rc => .ite (.pure _) ?_
  refine Built.bind (.part (.setP _ fun _ => ⟨rfl, rfl⟩)) fun _ => Built.bind built_topTxn fun _ => ?_
  refine Built.bind (.part (.lmdb (.txnAbort _))) fun _ => ?_
  exact Built.bind (.part (.lmdb (.txnBegin _ fun h => absurd h Bool.false_ne_true))) fun r =>
    .ite (built_upgradeError _) (built_upgradeOpened _ _)

theorem built_beginOpened (wrFlag : Bool) (txn : ℕ) : Built (TxnPart reads) (beginOpened wrFlag txn) := by
  refine Built.bind (.part (.setP _ fun _ => ⟨rfl, rfl⟩)) fun _ => Built.bind (.part (.lmdb (.metaOpen _))) fun rc => ?_
  refine Built.ite (Built.bind (.part (.setP _ fun _ => ⟨rfl, rfl⟩)) fun _ => .pure _) (.ite ?_ ?_)
  · exact Built.bind (.part (.lmdb (.txnAbort _))) fun _ =>
      Built.bind (.part (.setP _ fun _ => ⟨rfl, rfl⟩)) fun _ => .pure _
  · exact Built.bind (.part (.setP _ fun _ => ⟨rfl, rfl⟩)) fun _ => .pure _

theorem built_beginNew (hr : reads) (wrFlag : Bool) : Built (TxnPart reads) (beginNew wrFlag) := by
  refine Built.bind (.read _) fun p => .ite (.pure _) ?_
  refine Built.bind (.part (.lmdb (.table (.answer _)))) fun oom => .ite (.pure _) ?_
  exact Built.bind (.part (.lmdb (.txnBegin _ fun _ => hr))) fun r =>
    .ite (.pure _) (built_beginOpened _ _)

theorem built_beginTrans (wrFlag pSchemaVersion : Bool) :
    Built (TxnPart True) (sqlite3BtreeBeginTrans wrFlag pSchemaVersion) := by
  refine Built.bind (.read _) fun p => .ite (built_beginGetVersion _) (.ite (.pure _) ?_)
  refine Built.ite (built_beginGetVersion _) ?_
  have hend : ∀ rc : Rc, Built (TxnPart True) (if rc ≠ sqliteOk then pure (rc, none)
      else beginGetVersion pSchemaVersion) := fun rc => .ite (.pure _) (built_beginGetVersion _)
  refine Built.ite (Built.bind ?_ hend) (Built.bind (built_beginNew trivial _) hend)
  refine Built.bind (.read _) fun p => .ite (.pure _) (.ite built_upgradeOptimistic ?_)
  exact .ite (Built.bind (.part (.setP _ fun _ => ⟨rfl, rfl⟩)) fun _ => .pure _) (.pure _)

theorem built_beginStmt (iStatement : ℕ) : Built (TxnPart False) (sqlite3BtreeBeginStmt iStatement) := by
  refine Built.bind (.part (.lmdb (.table (.answer _)))) fun oom => .ite (.pure _) ?_
  refine Built.bind (.read _) fun p => Built.bind (.part (.lmdb (.txnBegin _ fun h => absurd h Bool.false_ne_true))) fun r => ?_
  exact .ite (.pure _) (Built.bind (.part (.setP _ fun _ => ⟨rfl, rfl⟩)) fun _ => .pure _)

theorem built_savepoint (op : SavepointOp) (iSavepoint : ℤ) :
    Built (TxnPart False) (sqlite3BtreeSavepoint op iSavepoint) := by
  refine Built.bind (built_closeAllSavepoints _ _ _) fun rc => .ite (.pure _) (.ite (.pure _) ?_)
  exact Built.bind (built_invalidateCursors _ _) fun _ => built_endTxn fun _ => ⟨rfl, rfl⟩

theorem built_commitOutermost (rc : Rc) : Built (TxnPart reads) (commitOutermost rc) := by
  refine Built.bind built_topTxn fun _ => .ite ?_ ?_
  · exact Built.bind (.part (.lmdb (.txnAbort _))) fun _ =>
      Built.bind (.part (.setP _ fun _ => ⟨rfl, rfl⟩)) fun _ => .pure _
  · refine Built.bind (.part (.lmdb (.txnCommit _))) fun rc => ?_
    refine Built.bind (.part (.setP _ fun _ => ⟨rfl, rfl⟩)) fun _ => .ite (.pure _) ?_
    exact Built.bind (.part (.setP _ fun _ => ⟨rfl, rfl⟩)) fun _ => .pure _

theorem built_commitPhaseOne : Built (TxnPart False) sqlite3BtreeCommitPhaseOne := by
  refine Built.bind (.read _) fun p => .ite (.pure _) ?_
  refine Built.bind (built_closeAllSavepoints _ _ _) fun rc => .ite (.pure _) ?_
  refine Built.bind (built_invalidateCursors _ _) fun _ => .ite ?_ (built_endTxn fun _ => ⟨rfl, rfl⟩)
  refine Built.bind (built_getMeta64 _) fun c => Built.bind (built_putMeta64 _) fun rc => ?_
  exact built_commitOutermost rc

theorem built_rollback (tripCode : Rc) (writeOnly : Bool) :
    Built (TxnPart False) (sqlite3BtreeRollback tripCode writeOnly) := by
  refine Built.bind (.read _) fun p => .ite (.pure _) ?_
  refine Built.bind (built_closeAllSavepoints _ _ _) fun _ => ?_
  exact Built.bind (built_invalidateCursors _ _) fun _ => built_endTxn fun _ => ⟨rfl, rfl⟩

theorem built_close : Built ClosePart sqlite3BtreeClose := by
  have hclose : Built ClosePart (do
      lmdb (Prog.modify fun e => { e with writers := [], readers := [], cursors := fun _ => none })
      setP fun p => { p with svp := [], closed := true }
      pure sqliteOk) :=
    Built.bind (.part .closeEnv) fun _ => Built.bind (.part (.txn (.setP _ fun _ => ⟨rfl, rfl⟩))) fun _ => .pure _
  refine Built.bind (.read _) fun p => .ite ?_ hclose
  refine Built.bind ((built_closeAllSavepoints _ _ _).mono .txn) fun _ => ?_
  refine Built.bind ((built_invalidateCursors _ _).mono .txn) fun _ => ?_
  exact Built.bind built_topTxn fun _ => Built.bind (.part (.txn (.lmdb (.txnAbort _)))) fun _ => hclose

theorem built_closeCursor (i : ℕ) : Built (Part alters) (sqlite3BtreeCloseCursor i) := by
  have hunlink : ∀ c : BtCursor, Built (Part alters) (do
      setCur i fun c => { c with savedKey := none }
      if c.pBtree then do
        unlinkCursor i
        setCur i fun c => { c with pBtree := false }
        let p ← getP
        if p.single then do
          let _ ← sqlite3BtreeClose
          pure sqliteOk
        else pure sqliteOk
      else pure sqliteOk) := fun c => by
    refine Built.bind (.part (.data (.setCur _ _ fun _ => ⟨rfl, .inl rfl⟩))) fun _ => .ite ?_ (.pure _)
    refine Built.bind ((built_unlinkCursor i).mono .data) fun _ => ?_
    refine Built.bind (.part (.data (.setCur _ _ fun _ => ⟨rfl, .inl rfl⟩))) fun _ => Built.bind (.read _) fun p => ?_
    exact .ite (Built.bind (built_close.mono .close) fun _ => .pure _) (.pure _)
  refine Built.bind (.read _) fun c => .ite ?_ (hunlink c)
  refine Built.bind (.part (.data (.move (.lmdb (.cursorClose _))))) fun _ => ?_
  exact Built.bind (.part (.data (.setCur _ _ fun _ => ⟨rfl, .inr rfl⟩))) fun _ => hunlink c

end Transactions

end LumoSql.Btree
