import LumoSql.CursorHandles
import LumoSql.RowUpserts

/-! Rows that are copied from one table or index to another: `sqlite3BtreeTransferRow` and `sqlite3BtreeInsert`
with a preformatted row, and the insertion of the same row. -/
namespace LumoSql.Btree
open StateLogic Lmdb RowidEncoding SortedEntries

/-- Reading the row to copy when the source is cursor `j` of another connection. -/
def preformattedAcross (i j : ℕ) : Prog (World × World) Halt (Rc × Bytes × Bytes) := do
  let rc ← Prog.zoom Prod.snd (fun s w => (s.1, w)) (restoreCursor j true)
  if rc ≠ sqliteOk then pure (rc, [], [])
  else do
    let g ← Prog.zoom Prod.snd (fun s w => (s.1, w)) (do
      let s ← getCur j
      lmdb (mdbCursorGet s.cursor .getCurrent))
    Prog.zoom Prod.fst (fun s w => (w, s.2)) (setCur i fun c => { c with srcCursor := none })
    if g.1 ≠ 0 then pure (errorMap g.1, [], []) else pure (sqliteOk, g.2)

/-- `sqlite3BtreeInsert` of a row to copy from cursor `j` of another connection, the second one. -/
def insertAcross (i j : ℕ) (pX : Payload) : Prog (World × World) Halt Rc := do
  let c ← Prog.zoom Prod.fst (fun s w => (w, s.2)) (getCur i)
  if !c.pBtree then Prog.halt .nullPointer
  else do
    let rc ← Prog.zoom Prod.fst (fun s w => (w, s.2)) (restoreCursor i false)
    if rc ≠ sqliteOk then pure rc
    else do
      let src ← preformattedAcross i j
      Prog.zoom Prod.fst (fun s w => (w, s.2)) (insertSource i pX true src)

/-- The connections of two cursors: the same one, or one for the destination and one for the source. -/
inductive Connections
  | one (w : World)
  | two (dest source : World)

namespace Connections

def dest : Connections → World
  | one w => w
  | two dest _ => dest

def source : Connections → World
  | one w => w
  | two _ source => source

/-- A row is copied from cursor `j` to cursor `i`: the result code and the connection of the destination. -/
def copyRow (i j : ℕ) (iKey : ℤ) (pX : Payload) : Connections → Except Halt (Rc × World)
  | one w => (do
      let _ ← sqlite3BtreeTransferRow i j iKey
      sqlite3BtreeInsert i pX true) w
  | two dest source => ((do
      let _ ← Prog.zoom Prod.fst (fun s w => (w, s.2)) (sqlite3BtreeTransferRow i j iKey)
      insertAcross i j pX) (dest, source)).map fun (r : Rc × World × World) => (r.1, r.2.1)

/-- Two cursors of one connection have LMDB cursors of their own. -/
def Apart (i j : ℕ) : Connections → Prop
  | one w => i ≠ j ∧ Handles w
  | two _ _ => True

end Connections

/-- What cursor `i` can put rows into: its table has the entries `es` in the write transaction `t`, and it has an LMDB
cursor on the table, or a saved position. -/
structure Target (w : World) (i : ℕ) (t : WriteTxn) (es : Entries) : Prop where
  opened : (w.curs i).pBtree = true
  untripped : (w.curs i).tripCode = sqliteOk
  root : 1 ≤ (w.curs i).rootPage
  top : ∃ s rest ts, w.p.svp = s :: rest ∧ w.env.writers = t :: ts ∧ s.txn = t.id
  entries : t.view (.table (w.curs i).rootPage) = some es
  ready : ((w.curs i).savedKey = none ∧ ∃ h c, (w.curs i).cursor = some h ∧ w.env.cursors h = some c ∧
      c.txn ∈ w.env.writers.map WriteTxn.id ∧ c.db = .table (w.curs i).rootPage) ∨
    (w.curs i).savedKey ≠ none ∧ (w.curs i).cursor = none

/-- Cursor `j` is positioned on the entry `e`: its LMDB cursor stands there, or its position was saved there and the
entry is visible still. -/
structure Source (w : World) (j : ℕ) (e : Bytes × Bytes) : Prop where
  opened : (w.curs j).pBtree = true
  untripped : (w.curs j).tripCode = sqliteOk
  root : 1 ≤ (w.curs j).rootPage
  on : ((w.curs j).savedKey = none ∧ ∃ h c es, Reads w j h c es ∧ OnRow c es e) ∨
    (w.curs j).savedKey = some e.1 ∧ (w.curs j).cursor = none ∧ ∃ s rest k v es, w.p.svp = s :: rest ∧
      w.env.kind s.txn = some k ∧ w.env.view s.txn = some v ∧ v (.table (w.curs j).rootPage) = some es ∧ e ∈ es ∧
      ((w.curs j).keyInfo = none → RowTable w.fixedRowid es)

/-- The cursors are on two tables, or on two indexes: then the destination can unpack the keys of the source, whose
rows are as `sqlite3BtreeInsert` writes them. -/
inductive Compatible (dest source : World) (i j : ℕ) (e : Bytes × Bytes) : Prop
  | tables (hdest : (dest.curs i).keyInfo = none) (hsource : (source.curs j).keyInfo = none)
  | indexes (keyInfo : KeyInfo) (hdest : (dest.curs i).keyInfo = some keyInfo)
      (hsource : (source.curs j).keyInfo.isSome = true) (hkey : e.1 ≠ [] ∧ e.1.length ≤ lumoLmdbMaxKey)
      (hunpacks : (keyInfo.unpack e.1).isSome = true)
      (hdata : e.2 = 0 :: if dest.p.lumoData then e.2.tail else [])

/-- The row as it is inserted: under `iKey` into a table, under its key into an index. -/
def rowPayload (keyInfo : Option KeyInfo) (iKey : ℤ) (e : Bytes × Bytes) : Payload :=
  match keyInfo with
  | none => ⟨iKey, [], e.2, 0, none⟩
  | some _ => ⟨e.1.length, e.1, e.2.tail, 0, none⟩

/-- Copying the row does what inserting it does: both return the same code and leave the same contents. -/
def CopiesAsInserted (c : Connections) (i j : ℕ) (iKey : ℤ) (e : Bytes × Bytes) (pX : Payload) : Prop :=
  ∃ rc w w', sqlite3BtreeInsert i (rowPayload (c.dest.curs i).keyInfo iKey e) false c.dest = .ok (rc, w) ∧
    c.copyRow i j iKey pX = .ok (rc, w') ∧ w'.visible = w.visible

/-- A row of a table is copied, or the row an LMDB cursor stands on is copied into an index without entries, with a
payload that gives an unpacked key. -/
def Copyable (c : Connections) (i j : ℕ) (es : Entries) (pX : Payload) : Prop :=
  (c.dest.curs i).keyInfo = none ∨ (c.source.curs j).savedKey = none ∧ es = [] ∧
    ∃ keyInfo, (c.dest.curs i).keyInfo = some keyInfo ∧ (pX.unpacked keyInfo).isSome = true

/-- No call of LMDB fails, and a row is copied from an entry cursor `j` is positioned on with cursor `i`, which can be
written. -/
structure RowCopy (c : Connections) (i j : ℕ) (t : WriteTxn) (es : Entries) (e : Bytes × Bytes) : Prop where
  apart : c.Apart i j
  calm : c.dest.env.Calm
  sourceCalm : c.source.env.Calm
  target : Target c.dest i t es
  source : Source c.source j e
  compatible : Compatible c.dest c.source i j e

section Putting

variable {E : Halt → Prop} {w : World} {i : ℕ} {t : WriteTxn} {es : Entries}

/-- Cursor `i` has an LMDB cursor to put rows with. -/
structure Writes (w : World) (i : ℕ) (t : WriteTxn) (es : Entries) : Prop where
  calm : w.env.Calm
  writer : ∃ ts, w.env.writers = t :: ts
  handle : ∃ h c, (w.curs i).cursor = some h ∧ w.env.cursors h = some c ∧ c.txn ∈ w.env.writers.map WriteTxn.id ∧
    c.db = .table (w.curs i).rootPage
  entries : t.view (.table (w.curs i).rootPage) = some es

theorem Writes.put (hw : Writes w i t es) (probe : Bytes → Ordering) {key : Bytes} (val : Bytes)
    (hkey : key ≠ [] ∧ key.length ≤ maxKey) :
    Ensures E (lmdb (mdbCursorPut (w.curs i).cursor probe key val)) (fun rc w' => rc = 0 ∧ w'.visible =
      Function.update t.view (.table (w.curs i).rootPage) (some (place probe (key, val) (overwrite key val) es))) w := by
  obtain ⟨h, c, hhandle, hc, hmem, hdb⟩ := hw.handle
  obtain ⟨ts, hwriters⟩ := hw.writer
  have hvalid : ¬ (key = [] ∨ maxKey < key.length) := by
    rw [not_or, not_lt]
    exact hkey
  obtain ⟨f, hlaw⟩ := documented.cursorPut hc hwriters hmem probe key val
  rw [hhandle, ensures_lmdb, hlaw, hw.calm.head, if_neg (not_not.mpr rfl), if_neg hvalid, hdb, hw.entries,
    Option.getD_some]
  refine ⟨rfl, ?_⟩
  rw [World.visible, Env.setCursor, Env.adjust, hw.calm.pop, setView_writers hwriters]
  rfl

theorem put8_valid (fixedRowid : Bool) (key : ℤ) :
    put8 fixedRowid (toU64 key) ≠ [] ∧ (put8 fixedRowid (toU64 key)).length ≤ maxKey := by
  have hlength : 1 ≤ (put8 fixedRowid (toU64 key)).length ∧ (put8 fixedRowid (toU64 key)).length ≤ 8 := by
    cases fixedRowid with
    | true =>
      have hlength : (put8 true (toU64 key)).length = 8 := rfl
      rw [hlength]
      decide
    | false => exact ⟨(put8_digits (toU64_lt key)).1, (put8_digits (toU64_lt key)).2.1⟩
  refine ⟨List.ne_nil_of_length_pos hlength.1, hlength.2.trans ?_⟩
  decide

theorem Writes.insertRow (hw : Writes w i t es) (key : ℤ) (data : Bytes) :
    Ensures E (insertRow i key data) (fun rc w' => rc = sqliteOk ∧ w'.visible =
      Function.update t.view (.table (w.curs i).rootPage) (some (putRow w.fixedRowid key data es))) w := by
  rw [Btree.insertRow, ensures_bind, ensures_getCur, ensures_bind, ensures_build, ensures_bind]
  refine (hw.put _ data (put8_valid w.fixedRowid key)).imp fun rc w' h => ?_
  obtain ⟨rfl, hvisible⟩ := h
  exact ⟨rfl, hvisible⟩

/-- Keys are compared if there are any. -/
theorem Writes.comparesKeys_eq (hw : Writes w i t es) : comparesKeys w.env (w.curs i).cursor = decide (es ≠ []) := by
  obtain ⟨h, c, hhandle, hc, hmem, hdb⟩ := hw.handle
  obtain ⟨ts, hwriters⟩ := hw.writer
  have hview : w.env.cursorView c = some t.view := by
    rw [Env.cursorView, if_pos hmem, hwriters]
    rfl
  have hentries : entriesOf w.env h = es := by
    rw [entriesOf, hc, Option.bind_some, hview, Option.bind_some, hdb, hw.entries]
    rfl
  rw [comparesKeys, hhandle, Option.any_some, hc, Option.any_some, hentries]
  simp [hmem]

/-- Into an index without entries a row is copied. -/
theorem Writes.insertCopied (hw : Writes w i t []) {src : Bytes × Bytes} (hkey : src.1 ≠ [] ∧ src.1.length ≤ maxKey) :
    Ensures E (insertCopied i src) (fun rc w' => rc = sqliteOk ∧ w'.visible =
      Function.update t.view (.table (w.curs i).rootPage) (some [src])) w := by
  rw [Btree.insertCopied, ensures_bind, ensures_getCur, ensures_bind, ensures_read, hw.comparesKeys_eq]
  refine .ite (fun hne => absurd rfl (of_decide_eq_true hne)) fun _ => ?_
  rw [ensures_bind]
  refine (hw.put _ src.2 hkey).imp fun rc w' h => ?_
  obtain ⟨rfl, hvisible⟩ := h
  exact ⟨rfl, hvisible⟩

/-- Into an index with entries none is. -/
theorem Writes.insertCopied_undefined (hw : Writes w i t es) (hne : es ≠ []) (src : Bytes × Bytes)
    (Q : Rc → World → Prop) : Ensures (fun _ => True) (Btree.insertCopied i src) Q w := by
  rw [Btree.insertCopied, ensures_bind, ensures_getCur, ensures_bind, ensures_read, hw.comparesKeys_eq,
    if_pos (decide_eq_true hne)]
  trivial

theorem unpackKey_calm (hcalm : w.env.Calm) (keyInfo : KeyInfo) (pX : Payload) :
    Ensures E (unpackKey keyInfo pX) (fun u w' => w' = w ∧ (u.1 = sqliteOk ↔ (pX.unpacked keyInfo).isSome = true) ∧
      ∀ unpacked, pX.unpacked keyInfo = some unpacked → u.2 = unpacked) w := by
  rw [unpackKey, Payload.unpacked]
  cases pX.aMem with
  | some unpacked => exact ⟨rfl, iff_of_true rfl rfl, fun _ h => Option.some.inj h⟩
  | none =>
    dsimp only
    rw [ensures_bind, ensures_lmdb, ensures_answer, hcalm.head, hcalm.pop, if_neg (not_not.mpr rfl)]
    cases keyInfo.unpack pX.pKey with
    | none => exact ⟨rfl, iff_of_false (by decide) (by decide), fun _ h => by cases h⟩
    | some unpacked => exact ⟨rfl, iff_of_true rfl rfl, fun _ h => Option.some.inj h⟩

/-- A row is inserted into an index. -/
theorem Writes.insertIndex (hw : Writes w i t es) {keyInfo : KeyInfo} {pX : Payload} {unpacked : Bytes → Ordering}
    (hunpacks : pX.unpacked keyInfo = some unpacked) (hkey : pX.pKey ≠ [] ∧ pX.pKey.length ≤ lumoLmdbMaxKey)
    (src : Bytes × Bytes) :
    Ensures E (insertIndex i keyInfo pX false src) (fun rc w' => rc = sqliteOk ∧ w'.visible =
      Function.update t.view (.table (w.curs i).rootPage) (some (place (indexProbe unpacked)
        (pX.pKey, pX.indexData w.p.lumoData) (overwrite pX.pKey (pX.indexData w.p.lumoData)) es))) w := by
  have hvalid : pX.pKey ≠ [] ∧ pX.pKey.length ≤ maxKey := ⟨hkey.1, hkey.2.trans (by decide)⟩
  rw [Btree.insertIndex, ensures_bind]
  refine (unpackKey_calm hw.calm keyInfo pX).imp fun u w' hu => ?_
  obtain ⟨rfl, hok, hsame⟩ := hu
  have hsome : u.1 = sqliteOk := hok.mpr (by rw [hunpacks]; rfl)
  rw [if_neg (not_not.mpr hsome), if_neg Bool.false_ne_true, if_neg (Nat.not_lt.mpr hkey.2), ensures_bind,
    ensures_getCur, ensures_bind, ensures_getP, ensures_bind, hsame unpacked hunpacks]
  refine (hw.put _ _ hvalid).imp fun rc w' h => ?_
  obtain ⟨rfl, hvisible⟩ := h
  exact ⟨rfl, hvisible⟩

end Putting

section Restoring

variable {E : Halt → Prop} {w : World} {i : ℕ} {s : BtreeSavepoint} {v : Contents} {es : Entries} {key : Bytes}

/-- The position of cursor `i` was saved on `key`, and its table can be opened in the transaction of `s`, which is on
top, when no call of LMDB fails. -/
structure Resumable (w : World) (i : ℕ) (key : Bytes) (s : BtreeSavepoint) (v : Contents) (es : Entries) : Prop where
  opened : (w.curs i).pBtree = true
  untripped : (w.curs i).tripCode = sqliteOk
  saved : (w.curs i).savedKey = some key
  cursor : (w.curs i).cursor = none
  root : 1 ≤ (w.curs i).rootPage
  calm : w.env.Calm
  top : ∃ rest k, w.p.svp = s :: rest ∧ w.env.kind s.txn = some k
  view : w.env.view s.txn = some v
  entries : v (.table (w.curs i).rootPage) = some es

/-- Cursor `i` has got a new LMDB cursor of the transaction `t`, and no position is saved. -/
def World.reopened (w : World) (i t : ℕ) (pos : Position) : World :=
  { w with
    env := { w.env with
      cursors := Function.update w.env.cursors w.env.next (some ⟨t, .table (w.curs i).rootPage, pos⟩)
      next := w.env.next + 1 }
    curs := Function.update w.curs i { w.curs i with
      dbi := .table (w.curs i).rootPage, cursor := some w.env.next, savedKey := none } }

/-- Cursor `i` has got a new LMDB cursor, and its position is saved still. -/
def World.opening (w : World) (i t : ℕ) : World :=
  { w.reopened i t .unset with
    curs := Function.update w.curs i { w.curs i with dbi := .table (w.curs i).rootPage, cursor := some w.env.next } }

theorem Resumable.reads (h : Resumable w i key s v es) :
    Reads (w.opening i s.txn) i w.env.next ⟨s.txn, .table (w.curs i).rootPage, .unset⟩ es := by
  refine ⟨by simp [World.opening], by simp [World.opening, World.reopened], v, cursorView_of_view h.view _ _, ?_⟩
  rw [h.entries]
  rfl

theorem Resumable.ensures_restore (h : Resumable w i key s v es) (reposition : Bool) (Q : Rc → World → Prop) :
    Ensures E (restoreCursor i reposition) Q w ↔ Ensures E (do
      let rc ← if reposition then repositionCursor w.env.next (w.curs i).keyInfo key else pure 0
      if rc ≠ 0 then pure (errorMap rc)
      else do
        setCur i fun d => { d with savedKey := none }
        pure sqliteOk) Q (w.opening i s.txn) := by
  obtain ⟨rest, k, hsvp, hkind⟩ := h.top
  have hsame : ({ w with curs := Function.update w.curs i { w.curs i with cursor := none } } : World) = w := by
    have hcur : ({ w.curs i with cursor := none } : BtCursor) = w.curs i := by rw [← h.cursor]
    rw [hcur, Function.update_eq_self]
  rw [restoreCursor, ensures_bind, ensures_getCur, if_neg (not_not.mpr h.untripped), h.saved]
  dsimp only
  rw [h.cursor, Option.isSome_none, if_neg Bool.false_ne_true, ensures_bind, ensures_setCur, hsame, h.opened,
    Bool.not_true, if_neg Bool.false_ne_true, reopenCursor, ensures_bind, ensures_getTable hsvp hkind h.view,
    if_neg (Nat.not_lt.mpr h.root), h.calm.head, h.calm.pop, h.entries, Option.isSome_some, if_neg (not_not.mpr rfl),
    if_pos rfl, if_neg (not_not.mpr rfl), ensures_bind, ensures_setCur, ensures_bind, topTxn, ensures_bind, ensures_getP]
  simp only [hsvp, ensures_pure, ensures_bind, ensures_lmdb]
  rw [documented.cursorOpen hkind h.view, h.calm.head, h.calm.pop, if_neg (not_not.mpr rfl), h.entries,
    Option.isNone_some, if_neg Bool.false_ne_true, if_neg (not_not.mpr rfl), ensures_bind, ensures_setCur]
  simp only [Function.update_self, Function.update_idem]
  rfl

/-- A saved cursor is restored without going back to its position. -/
theorem Resumable.reopens (h : Resumable w i key s v es) :
    Ensures E (restoreCursor i false) (fun rc w' => rc = sqliteOk ∧ w' = w.reopened i s.txn .unset) w := by
  rw [h.ensures_restore, if_neg Bool.false_ne_true, ensures_bind, ensures_pure]
  refine .ite (fun hne => absurd rfl hne) fun _ => ?_
  rw [ensures_bind, ensures_setCur]
  refine ⟨rfl, ?_⟩
  simp only [World.opening, World.reopened, Function.update_self, Function.update_idem]

/-- A saved cursor on a table goes back to its entry. -/
theorem Resumable.goesBack (h : Resumable w i key s v es) (hinfo : (w.curs i).keyInfo = none)
    (hrows : RowTable w.fixedRowid es) {data : Bytes} (he : (key, data) ∈ es) :
    Ensures E (restoreCursor i true) (fun rc w' => rc = sqliteOk ∧
      w' = w.reopened i s.txn ⟨true, false, false, lowerBound (rowidProbe w.fixedRowid key) es⟩) w := by
  have hlookup := hrows.lookup_eq he
  have hmove : (CursorOp.set (rowidProbe w.fixedRowid key)).move es Position.unset =
      (⟨true, false, false, lowerBound (rowidProbe w.fixedRowid key) es⟩, 0, key, data) := by
    simp only [CursorOp.move, moveSet, hlookup, land, (mem_of_lookup hlookup).1]
  have hcalm : (w.opening i s.txn).env.Calm := h.calm
  have hbuild : (w.opening i s.txn).fixedRowid = w.fixedRowid := rfl
  rw [h.ensures_restore, if_pos rfl, ensures_bind, hinfo, repositionCursor, ensures_bind, ensures_build, ensures_bind,
    ensures_read]
  refine .ite (fun hsome => absurd hsome.1 Bool.false_ne_true) fun _ => ?_
  rw [ensures_bind, h.reads.ensures_get, hcalm.head, if_neg (not_not.mpr rfl), hbuild, hmove, ensures_pure]
  refine .ite (fun hne => absurd rfl hne) fun _ => ?_
  rw [ensures_bind, ensures_setCur]
  refine ⟨rfl, ?_⟩
  rw [World.moveCursor, hcalm.pop]
  simp only [World.opening, World.reopened, Env.setCursor, Function.update_self, Function.update_idem]

/-- A saved cursor on an index does not. -/
theorem Resumable.undefined (h : Resumable w i key s v es) (hinfo : (w.curs i).keyInfo.isSome = true) (hne : es ≠ [])
    (hE : E .undefined) (Q : Rc → World → Prop) : Ensures E (restoreCursor i true) Q w := by
  rw [h.ensures_restore, if_pos rfl, ensures_bind, repositionCursor, ensures_bind, ensures_build, ensures_bind,
    ensures_read]
  refine .ite (fun _ => hE) fun hdefined => ?_
  exact absurd ⟨hinfo, by rw [h.reads.entriesOf_eq]; exact hne⟩ hdefined

end Restoring

section Reading

variable {E : Halt → Prop} {w w' : World} {i j : ℕ} {t : WriteTxn} {es : Entries} {e : Bytes × Bytes}

/-- Only cursor `j` and what it moves with have changed, and no call of LMDB fails. -/
structure Elsewhere (j : ℕ) (w w' : World) : Prop where
  build : w'.fixedRowid = w.fixedRowid
  p : w'.p = w.p
  writers : w'.env.writers = w.env.writers
  readers : w'.env.readers = w.env.readers
  calm : w'.env.Calm
  others : ∀ i, i ≠ j → w'.curs i = w.curs i
  handles : ∀ h < w.env.next, (w.curs j).cursor ≠ some h → w'.env.cursors h = w.env.cursors h

theorem Elsewhere.refl (j : ℕ) (hcalm : w.env.Calm) : Elsewhere j w w :=
  ⟨rfl, rfl, rfl, rfl, hcalm, fun _ _ => rfl, fun _ _ _ => rfl⟩

theorem Elsewhere.reopened (j : ℕ) (hcalm : w.env.Calm) (n : ℕ) (pos : Position) : Elsewhere j w (w.reopened j n pos) := by
  refine ⟨rfl, rfl, rfl, rfl, hcalm, fun i hi => Function.update_of_ne hi _ _, fun h hlt _ => ?_⟩
  exact Function.update_of_ne (Nat.ne_of_lt hlt) _ _

/-- The LMDB cursor is moved, be it an old one or a new one. -/
theorem Elsewhere.move (h : Elsewhere j w w') {n : ℕ} (hn : w.env.next ≤ n ∨ (w.curs j).cursor = some n) (c : MdbCursor)
    (pos : Position) : Elsewhere j w (w'.moveCursor n c pos) := by
  refine ⟨h.build, h.p, h.writers, h.readers, ?_, h.others, fun m hlt hne => ?_⟩
  · rw [World.moveCursor, h.calm.pop]
    exact h.calm
  · have hmn : m ≠ n := by
      rintro rfl
      rcases hn with hle | hown
      · omega
      · exact hne hown
    exact (Function.update_of_ne hmn _ _).trans (h.handles m hlt hne)

theorem Elsewhere.same (h : Elsewhere j w w') (hw : Handles w) (hij : i ≠ j) : SameCursor i w w' := by
  refine ⟨h.others i hij, fun n hn => h.handles n (hw.below i n hn) fun hj => ?_, h.writers, h.readers⟩
  exact hij (hw.apart i j n hn hj)

theorem Writes.elsewhere (hw : Writes w i t es) (h : Elsewhere j w w') (hhandles : Handles w) (hij : i ≠ j) :
    Writes w' i t es := by
  obtain ⟨ts, hwriters⟩ := hw.writer
  obtain ⟨n, c, hhandle, hc, hmem, hdb⟩ := hw.handle
  have hsame := h.same hhandles hij
  refine ⟨h.calm, ⟨ts, h.writers.trans hwriters⟩, ⟨n, c, ?_, ?_, ?_, ?_⟩, ?_⟩
  · rw [hsame.cur, hhandle]
  · rw [hsame.handle n hhandle, hc]
  · rw [h.writers]
    exact hmem
  · rw [hsame.cur, hdb]
  · rw [hsame.cur]
    exact hw.entries

theorem Source.elsewhere (hs : Source w j e) (h : Elsewhere i w w') (hhandles : Handles w) (hij : i ≠ j) :
    Source w' j e := by
  have hsame := h.same hhandles hij.symm
  refine ⟨by rw [hsame.cur, hs.opened], by rw [hsame.cur, hs.untripped], by rw [hsame.cur]; exact hs.root, ?_⟩
  rcases hs.on with ⟨hsaved, n, c, es, hreads, hon⟩ | ⟨hsaved, hcursor, s, rest, k, v, es, hsvp, hkind, hview, htable, he, hrows⟩
  · exact .inl ⟨by rw [hsame.cur, hsaved], n, c, es, hsame.reads hreads, hon⟩
  · refine .inr ⟨by rw [hsame.cur, hsaved], by rw [hsame.cur, hcursor], s, rest, k, v, es, by rw [h.p, hsvp], ?_, ?_, ?_, he, ?_⟩
    · rw [kind_congr h.writers h.readers, hkind]
    · rw [view_congr h.writers h.readers, hview]
    · rw [hsame.cur, htable]
    · rw [hsame.cur, h.build]
      exact hrows

/-- The destination is restored if need be, and can be written. -/
theorem Target.restore (ht : Target w i t es) (hcalm : w.env.Calm) :
    Ensures E (restoreCursor i false) (fun rc w' => rc = sqliteOk ∧ Writes w' i t es ∧ Elsewhere i w w' ∧
      (w'.curs i).keyInfo = (w.curs i).keyInfo ∧ (w'.curs i).rootPage = (w.curs i).rootPage ∧
      (w'.curs i).srcCursor = (w.curs i).srcCursor ∧ (w'.curs i).srcKey = (w.curs i).srcKey) w := by
  obtain ⟨s, rest, ts, hsvp, hwriters, htop⟩ := ht.top
  rcases ht.ready with ⟨hsaved, hhandle⟩ | ⟨hsaved, hcursor⟩
  · rw [restoreCursor, ensures_bind, ensures_getCur, if_neg (not_not.mpr ht.untripped), hsaved]
    exact ⟨rfl, ⟨hcalm, ⟨ts, hwriters⟩, hhandle, ht.entries⟩, .refl i hcalm, rfl, rfl, rfl, rfl⟩
  · obtain ⟨key, hkey⟩ := Option.ne_none_iff_exists'.mp hsaved
    have hkind : w.env.kind s.txn = some .readWrite := by rw [htop, kind_writer hwriters]
    have hview : w.env.view s.txn = some t.view := by rw [htop, view_writer hwriters]
    have hresumable : Resumable w i key s t.view es :=
      ⟨ht.opened, ht.untripped, hkey, hcursor, ht.root, hcalm, ⟨rest, _, hsvp, hkind⟩, hview, ht.entries⟩
    refine hresumable.reopens.imp fun rc w' h => ?_
    obtain ⟨rfl, rfl⟩ := h
    refine ⟨rfl, ⟨hcalm, ⟨ts, hwriters⟩, ⟨w.env.next, ⟨s.txn, .table (w.curs i).rootPage, .unset⟩, ?_, ?_, ?_, ?_⟩, ?_⟩,
      .reopened i hcalm s.txn .unset, ?_, ?_, ?_, ?_⟩
    · simp [World.reopened]
    · simp [World.reopened]
    · have hmem : s.txn ∈ w.env.writers.map WriteTxn.id := by
        rw [hwriters, htop]
        exact List.mem_cons_self
      exact hmem
    all_goals simp [World.reopened, ht.entries]

/-- The row of cursor `j` can be read: the cursor is on a table, or it has not been saved. -/
def Readable (w : World) (j : ℕ) : Prop := (w.curs j).keyInfo = none ∨ (w.curs j).savedKey = none

/-- The row of the source is read, unless the source is a saved cursor on an index. -/
theorem Source.read (hs : Source w j e) (hcalm : w.env.Calm) (hE : Readable w j ∨ E .undefined) :
    Ensures E (restoreCursor j true) (fun rc w₁ => rc = sqliteOk ∧ Readable w j ∧
      Ensures E (lmdb (mdbCursorGet (w₁.curs j).cursor .getCurrent)) (fun g w₂ => g = (0, e) ∧ Elsewhere j w w₂) w₁) w := by
  have hget : ∀ {w₁ : World} {n : ℕ} {c : MdbCursor} {es : Entries}, Reads w₁ j n c es → OnRow c es e →
      Elsewhere j w w₁ → (w.env.next ≤ n ∨ (w.curs j).cursor = some n) →
      Ensures E (lmdb (mdbCursorGet (w₁.curs j).cursor .getCurrent)) (fun g w₂ => g = (0, e) ∧ Elsewhere j w w₂) w₁ := by
    intro w₁ n c es hreads hon helse hn
    have hmove : CursorOp.getCurrent.move es c.pos = ({ c.pos with deleted := false }, 0, e) := by
      simp only [CursorOp.move, moveCurrent, hon.1, Bool.not_true, Bool.false_eq_true, if_false, hon.2]
    rw [hreads.handle, hreads.ensures_get, helse.calm.head, if_neg (not_not.mpr rfl), hmove]
    exact ⟨rfl, helse.move hn c _⟩
  rcases hs.on with ⟨hsaved, n, c, es, hreads, hon⟩ | ⟨hsaved, hcursor, s, rest, k, v, es, hsvp, hkind, hview, htable, he, hrows⟩
  · rw [restoreCursor, ensures_bind, ensures_getCur, if_neg (not_not.mpr hs.untripped), hsaved]
    exact ⟨rfl, .inr hsaved, hget hreads hon (.refl j hcalm) (.inr hreads.handle)⟩
  · have hresumable : Resumable w j e.1 s v es :=
      ⟨hs.opened, hs.untripped, hsaved, hcursor, hs.root, hcalm, ⟨rest, k, hsvp, hkind⟩, hview, htable⟩
    cases hinfo : (w.curs j).keyInfo with
    | some keyInfo =>
      have hunreadable : ¬ Readable w j := by
        rw [Readable, hinfo, hsaved]
        simp
      exact hresumable.undefined (by rw [hinfo]; rfl) (List.ne_nil_of_mem he) (hE.resolve_left hunreadable) _
    | none =>
      refine (hresumable.goesBack hinfo (hrows hinfo) he).imp fun rc w₁ h => ?_
      obtain ⟨rfl, rfl⟩ := h
      have hentry : es[lowerBound (rowidProbe w.fixedRowid e.1) es]? = some e :=
        (mem_of_lookup ((hrows hinfo).lookup_eq he)).1
      generalize lowerBound (rowidProbe w.fixedRowid e.1) es = m at hentry
      have hreads : Reads (w.reopened j s.txn ⟨true, false, false, m⟩) j w.env.next
          ⟨s.txn, .table (w.curs j).rootPage, ⟨true, false, false, m⟩⟩ es := by
        refine ⟨by simp [World.reopened], by simp [World.reopened], v, cursorView_of_view hview _ _, ?_⟩
        rw [htable]
        rfl
      exact ⟨rfl, .inl hinfo, hget hreads ⟨rfl, hentry⟩ (.reopened j hcalm s.txn _) (.inl (Nat.le_refl _))⟩

end Reading

section Copying

variable {E : Halt → Prop} {w : World} {i j : ℕ} {t : WriteTxn} {es : Entries} {e : Bytes × Bytes} {iKey : ℤ} {pX : Payload}

/-- The entries after a row has been copied into a table, or into an index without entries. -/
def copiedEntries (fixedRowid : Bool) (keyInfo : Option KeyInfo) (iKey : ℤ) (e : Bytes × Bytes) (es : Entries) : Entries :=
  if keyInfo.isSome then [e] else putRow fixedRowid iKey e.2 es

/-- The row is inserted. -/
theorem insert_rowPayload (ht : Target w i t es) (hcalm : w.env.Calm) {source : World} (hcompat : Compatible w source i j e) :
    Ensures E (sqlite3BtreeInsert i (rowPayload (w.curs i).keyInfo iKey e) false) (fun rc w' => rc = sqliteOk ∧
      ((w.curs i).keyInfo = none ∨ es = [] → w'.visible = Function.update t.view (.table (w.curs i).rootPage)
        (some (copiedEntries w.fixedRowid (w.curs i).keyInfo iKey e es)))) w := by
  rw [sqlite3BtreeInsert, ensures_bind, ensures_getCur, ht.opened, Bool.not_true, if_neg Bool.false_ne_true, ensures_bind]
  refine (ht.restore hcalm).imp fun rc w₁ h => ?_
  obtain ⟨rfl, hw, helse, hinfo, hroot, -, -⟩ := h
  rw [if_neg (not_not.mpr rfl), if_neg Bool.false_ne_true, ensures_bind, ensures_pure]
  refine .ite (fun hne => absurd rfl hne) fun _ => ?_
  rw [ensures_bind, ensures_getCur, hinfo, ← hroot, ← helse.build, copiedEntries]
  cases hcompat with
  | tables hdest _ =>
    rw [hdest, rowPayload]
    dsimp only
    rw [if_neg Bool.false_ne_true, Option.isSome_none, if_neg Bool.false_ne_true, List.replicate_zero, List.append_nil]
    exact (hw.insertRow iKey e.2).imp fun rc w' h => ⟨h.1, fun _ => h.2⟩
  | indexes keyInfo hdest _ hkey hunpacks hdata =>
    obtain ⟨unpacked, hunpacked⟩ := Option.isSome_iff_exists.mp hunpacks
    rw [hdest, rowPayload]
    dsimp only
    have hpayload : Payload.unpacked ⟨e.1.length, e.1, e.2.tail, 0, none⟩ keyInfo = some unpacked := hunpacked
    refine (hw.insertIndex hpayload hkey _).imp fun rc w' h => ⟨h.1, fun hempty => h.2.trans ?_⟩
    obtain rfl := hempty.resolve_left (Option.some_ne_none keyInfo)
    rw [Option.isSome_some, if_pos rfl, Payload.indexData, helse.p, ← hdata]
    rfl

/-- What is copied once the row has been read. -/
theorem Writes.insertSource_copies (hw : Writes w i t es) (hkey : (w.curs i).srcKey = iKey)
    (hentry : (w.curs i).keyInfo.isSome = true → e.1 ≠ [] ∧ e.1.length ≤ maxKey)
    (hcopyable : ∀ keyInfo, (w.curs i).keyInfo = some keyInfo → es = [] ∧ (pX.unpacked keyInfo).isSome = true) :
    Ensures E (insertSource i pX true (sqliteOk, e)) (fun rc w' => rc = sqliteOk ∧ w'.visible =
      Function.update t.view (.table (w.curs i).rootPage)
        (some (copiedEntries w.fixedRowid (w.curs i).keyInfo iKey e es))) w := by
  rw [insertSource, if_neg (not_not.mpr rfl), ensures_bind, ensures_getCur, copiedEntries]
  cases hinfo : (w.curs i).keyInfo with
  | none =>
    dsimp only
    rw [if_pos rfl, Option.isSome_none, if_neg Bool.false_ne_true, hkey]
    exact hw.insertRow iKey e.2
  | some keyInfo =>
    obtain ⟨rfl, hunpacks⟩ := hcopyable keyInfo hinfo
    rw [hinfo] at hentry
    dsimp only
    rw [Btree.insertIndex, ensures_bind, Option.isSome_some, if_pos rfl]
    refine (unpackKey_calm hw.calm keyInfo pX).imp fun u w' hu => ?_
    obtain ⟨rfl, hok, -⟩ := hu
    rw [if_neg (not_not.mpr (hok.mpr hunpacks)), if_pos rfl]
    exact hw.insertCopied (hentry rfl)

/-- Otherwise the copy of an index row fails. -/
theorem Writes.insertSource_fails (hw : Writes w i t es) {keyInfo : KeyInfo} (hinfo : (w.curs i).keyInfo = some keyInfo)
    (hnot : ¬ (es = [] ∧ (pX.unpacked keyInfo).isSome = true)) :
    Ensures (fun _ => True) (insertSource i pX true (sqliteOk, e)) (fun rc _ => rc ≠ sqliteOk) w := by
  rw [insertSource, if_neg (not_not.mpr rfl), ensures_bind, ensures_getCur, hinfo]
  dsimp only
  rw [Btree.insertIndex, ensures_bind]
  refine (unpackKey_calm hw.calm keyInfo pX).imp fun u w' hu => ?_
  obtain ⟨rfl, hok, -⟩ := hu
  refine .ite id fun hunpacked => ?_
  rw [if_pos rfl]
  exact hw.insertCopied_undefined (fun hempty => hnot ⟨hempty, hok.mp (not_not.mp hunpacked)⟩) e _

/-- What is there once the row has been read. -/
structure RowRead (w w' : World) (i : ℕ) (t : WriteTxn) (es : Entries) : Prop where
  writes : Writes w' i t es
  build : w'.fixedRowid = w.fixedRowid
  keyInfo : (w'.curs i).keyInfo = (w.curs i).keyInfo
  rootPage : (w'.curs i).rootPage = (w.curs i).rootPage
  srcKey : (w'.curs i).srcKey = (w.curs i).srcKey

theorem Writes.setSource (hw : Writes w i t es) (o : Option ℕ) :
    Writes { w with curs := Function.update w.curs i { w.curs i with srcCursor := o } } i t es := by
  obtain ⟨n, c, hhandle, hc, hmem, hdb⟩ := hw.handle
  refine ⟨hw.calm, hw.writer, ⟨n, c, ?_, hc, hmem, ?_⟩, ?_⟩
  · simpa using hhandle
  · simpa using hdb
  · simpa using hw.entries

/-- The insertion of a row to copy within one connection, from where the row has been read. -/
theorem insert_reads (ht : Target w i t es) (hs : Source w j e) (hcalm : w.env.Calm) (hhandles : Handles w) (hij : i ≠ j)
    (hsource : (w.curs i).srcCursor = some j) (hE : Readable w j ∨ E .undefined) {Q : Rc → World → Prop}
    (hQ : Readable w j → ∀ w', RowRead w w' i t es → Ensures E (insertSource i pX true (sqliteOk, e)) Q w') :
    Ensures E (sqlite3BtreeInsert i pX true) Q w := by
  rw [sqlite3BtreeInsert, ensures_bind, ensures_getCur, ht.opened, Bool.not_true, if_neg Bool.false_ne_true, ensures_bind]
  have hkeeps : Keeps HandlesKept (restoreCursor i false) := (built_restoreCursor i false).keeps MovePart.handles
  refine ((ht.restore hcalm).keep hkeeps).imp fun rc w₁ h => ?_
  obtain ⟨⟨rfl, hw, helse, hinfo, hroot, hsource₁, hkey⟩, hkept⟩ := h
  have hhandles₁ := hkept.handles hhandles
  have hs₁ := hs.elsewhere helse hhandles hij
  have hreadable : Readable w₁ j ↔ Readable w j := by rw [Readable, Readable, helse.others j hij.symm]
  rw [if_neg (not_not.mpr rfl), if_pos rfl, ensures_bind, preformatted, ensures_bind, ensures_getCur, hsource₁, hsource]
  dsimp only
  rw [ensures_bind]
  refine (hs₁.read helse.calm (by rw [hreadable]; exact hE)).imp fun rc w₂ h => ?_
  obtain ⟨rfl, hread, hget⟩ := h
  rw [if_neg (not_not.mpr rfl), ensures_bind, ensures_getCur, ensures_bind]
  refine hget.imp fun g w₃ h => ?_
  obtain ⟨rfl, helse'⟩ := h
  have hsame := helse'.same hhandles₁ hij
  rw [ensures_bind, ensures_setCur, if_neg (not_not.mpr rfl), ensures_pure]
  refine hQ (hreadable.mp hread) _ ⟨(hw.elsewhere helse' hhandles₁ hij).setSource none, ?_, ?_, ?_, ?_⟩
  · exact helse'.build.trans helse.build
  all_goals simp [hsame.cur, hinfo, hroot, hkey]

/-- The same between two connections. -/
theorem insertAcross_reads {source : World} (ht : Target w i t es) (hs : Source source j e) (hcalm : w.env.Calm)
    (hcalm' : source.env.Calm) (hE : Readable source j ∨ E .undefined) {Q : Rc → World × World → Prop}
    (hQ : Readable source j → ∀ w' source', RowRead w w' i t es →
      Ensures E (insertSource i pX true (sqliteOk, e)) (fun rc w => Q rc (w, source')) w') :
    Ensures E (insertAcross i j pX) Q (w, source) := by
  rw [insertAcross, ensures_bind, ensures_zoom, ensures_getCur]
  dsimp only
  rw [ht.opened, Bool.not_true, if_neg Bool.false_ne_true, ensures_bind, ensures_zoom]
  refine (ht.restore hcalm).imp fun rc w₁ h => ?_
  obtain ⟨rfl, hw, helse, hinfo, hroot, -, hkey⟩ := h
  rw [if_neg (not_not.mpr rfl), ensures_bind, preformattedAcross, ensures_bind, ensures_zoom]
  refine (hs.read hcalm' hE).imp fun rc source₁ h => ?_
  obtain ⟨rfl, hread, hget⟩ := h
  rw [if_neg (not_not.mpr rfl), ensures_bind, ensures_zoom, ensures_bind, ensures_getCur]
  refine hget.imp fun g source₂ h => ?_
  obtain ⟨rfl, -⟩ := h
  rw [ensures_bind, ensures_zoom, ensures_setCur, if_neg (not_not.mpr rfl), ensures_pure, ensures_zoom]
  refine hQ hread _ source₂ ⟨hw.setSource none, helse.build, ?_, ?_, ?_⟩
  all_goals simp [hinfo, hroot, hkey]

/-- The cursors after `sqlite3BtreeTransferRow`. -/
def World.transferred (w : World) (i j : ℕ) (iKey : ℤ) : World :=
  { w with curs := Function.update w.curs i { w.curs i with srcCursor := some j, srcKey := iKey } }

theorem Target.transferred (ht : Target w i t es) (j : ℕ) (iKey : ℤ) : Target (w.transferred i j iKey) i t es := by
  have hcur : (w.transferred i j iKey).curs i = { w.curs i with srcCursor := some j, srcKey := iKey } :=
    Function.update_self _ _ _
  refine ⟨?_, ?_, ?_, ht.top, ?_, ?_⟩
  all_goals rw [hcur]
  · exact ht.opened
  · exact ht.untripped
  · exact ht.root
  · exact ht.entries
  · exact ht.ready

theorem Source.transferred (hs : Source w j e) (hcalm : w.env.Calm) (hhandles : Handles w) (hij : i ≠ j) (iKey : ℤ) :
    Source (w.transferred i j iKey) j e := by
  have helse : Elsewhere i w (w.transferred i j iKey) :=
    ⟨rfl, rfl, rfl, rfl, hcalm, fun m hm => Function.update_of_ne hm _ _, fun _ _ _ => rfl⟩
  exact hs.elsewhere helse hhandles hij

/-- What a computation on two connections ensures of the first one. -/
theorem ensures_first {m : Prog (World × World) Halt Rc} {Q : Rc → World → Prop} {s : World × World}
    (h : Ensures E m (fun rc s => Q rc s.1) s) :
    Ensures E (fun _ => (m s).map fun r => (r.1, r.2.1)) Q s.1 := by
  unfold Ensures at h ⊢
  cases hm : m s with
  | ok r =>
    rw [hm] at h
    exact h
  | error e =>
    rw [hm] at h
    exact h

/-- The copy of a row, from where the row has been read. -/
theorem copyRow_reads {c : Connections} (h : RowCopy c i j t es e) (hE : Readable c.source j ∨ E .undefined)
    {Q : Rc → World → Prop}
    (hQ : Readable c.source j → ∀ w', RowRead (c.dest.transferred i j iKey) w' i t es →
      Ensures E (insertSource i pX true (sqliteOk, e)) Q w') :
    Ensures E (fun _ => c.copyRow i j iKey pX) Q c.dest := by
  cases c with
  | one w =>
    obtain ⟨hij, hhandles⟩ := h.apart
    have hcur : ((w.transferred i j iKey).curs i).srcCursor = some j := by simp [World.transferred]
    have hreadable : Readable (w.transferred i j iKey) j ↔ Readable w j := by
      simp [Readable, World.transferred, Function.update_of_ne hij.symm]
    have hcopies : Ensures E (do
        let _ ← sqlite3BtreeTransferRow i j iKey
        sqlite3BtreeInsert i pX true) Q w := by
      rw [ensures_bind, sqlite3BtreeTransferRow, ensures_bind, ensures_setCur, ensures_pure]
      exact insert_reads (h.target.transferred j iKey) (h.source.transferred h.calm hhandles hij iKey) h.calm
        (hhandles.setCur (.inl rfl)) hij hcur (hE.imp_left hreadable.mpr) fun hread => hQ (hreadable.mp hread)
    exact hcopies
  | two dest source =>
    have hcopies : Ensures E (do
        let _ ← Prog.zoom Prod.fst (fun (s : World × World) w => (w, s.2)) (sqlite3BtreeTransferRow i j iKey)
        insertAcross i j pX) (fun rc s => Q rc s.1) (dest, source) := by
      rw [ensures_bind, ensures_zoom, sqlite3BtreeTransferRow, ensures_bind, ensures_setCur, ensures_pure]
      exact insertAcross_reads (h.target.transferred j iKey) h.source h.calm h.sourceCalm hE
        fun hread w' _ => hQ hread w'
    exact ensures_first hcopies

/-- What a copy leaves when it succeeds. -/
theorem copyRow_copies {c : Connections} (h : RowCopy c i j t es e) (hcopyable : Copyable c i j es pX) (iKey : ℤ) :
    ∃ w', c.copyRow i j iKey pX = .ok (sqliteOk, w') ∧ w'.visible = Function.update t.view
      (.table (c.dest.curs i).rootPage) (some (copiedEntries c.dest.fixedRowid (c.dest.curs i).keyInfo iKey e es)) := by
  have hentry : (c.dest.curs i).keyInfo.isSome = true → e.1 ≠ [] ∧ e.1.length ≤ maxKey := by
    intro hsome
    cases h.compatible with
    | tables hdest _ =>
      rw [hdest] at hsome
      cases hsome
    | indexes keyInfo _ _ hkey _ _ => exact ⟨hkey.1, hkey.2.trans (by decide)⟩
  have hreadable : Readable c.source j := by
    rcases hcopyable with htable | ⟨hsaved, -⟩
    · cases h.compatible with
      | tables _ hsource => exact .inl hsource
      | indexes keyInfo hdest _ _ _ _ =>
        rw [hdest] at htable
        cases htable
    · exact .inr hsaved
  have hunpacks : ∀ keyInfo, (c.dest.curs i).keyInfo = some keyInfo → es = [] ∧ (pX.unpacked keyInfo).isSome = true := by
    intro keyInfo hinfo
    rcases hcopyable with htable | ⟨-, hempty, keyInfo', hinfo', hunpacks⟩
    · rw [hinfo] at htable
      cases htable
    · obtain rfl := Option.some.inj (hinfo.symm.trans hinfo')
      exact ⟨hempty, hunpacks⟩
  have hcopies : Ensures (fun _ => False) (fun _ => c.copyRow i j iKey pX) (fun rc w' => rc = sqliteOk ∧ w'.visible =
      Function.update t.view (.table (c.dest.curs i).rootPage)
        (some (copiedEntries c.dest.fixedRowid (c.dest.curs i).keyInfo iKey e es))) c.dest := by
    refine copyRow_reads h (.inl hreadable) fun _ w' hread => ?_
    have hcur : (c.dest.transferred i j iKey).curs i = { c.dest.curs i with srcCursor := some j, srcKey := iKey } :=
      Function.update_self _ _ _
    have hinfo : (w'.curs i).keyInfo = (c.dest.curs i).keyInfo := by rw [hread.keyInfo, hcur]
    have hroot : (w'.curs i).rootPage = (c.dest.curs i).rootPage := by rw [hread.rootPage, hcur]
    have hbuild : w'.fixedRowid = c.dest.fixedRowid := hread.build
    rw [← hinfo, ← hroot, ← hbuild]
    refine hread.writes.insertSource_copies ?_ ?_ ?_
    · rw [hread.srcKey, hcur]
    · rw [hinfo]
      exact hentry
    · rw [hinfo]
      exact hunpacks
  obtain ⟨rc, w', hrun, rfl, hvisible⟩ := hcopies.result
  exact ⟨w', hrun, hvisible⟩

/-- Any other copy fails, or it compares keys with an unpacked record that was never set. -/
theorem copyRow_fails {c : Connections} (h : RowCopy c i j t es e) (hnot : ¬ Copyable c i j es pX) (iKey : ℤ) :
    Ensures (fun _ => True) (fun _ => c.copyRow i j iKey pX) (fun rc _ => rc ≠ sqliteOk) c.dest := by
  refine copyRow_reads h (.inr trivial) fun hreadable w' hread => ?_
  cases h.compatible with
  | tables hdest _ => exact absurd (.inl hdest) hnot
  | indexes keyInfo hdest hsource _ _ _ =>
    have hsaved : (c.source.curs j).savedKey = none := hreadable.resolve_left fun hnone => by
      rw [hnone] at hsource
      cases hsource
    have hinfo : (w'.curs i).keyInfo = some keyInfo := by
      rw [hread.keyInfo]
      simpa [World.transferred] using hdest
    exact hread.writes.insertSource_fails hinfo fun hempty => hnot (.inr ⟨hsaved, hempty.1, keyInfo, hdest, hempty.2⟩)

/-- Copying a row does what inserting it does for tables, and for indexes just if the position of the source was not
saved, the destination is empty and the payload gives an unpacked key. -/
theorem copyRow_inserts_iff (c : Connections) (i j : ℕ) (t : WriteTxn) (es : Entries) (e : Bytes × Bytes)
    (h : RowCopy c i j t es e) (iKey : ℤ) (pX : Payload) :
    CopiesAsInserted c i j iKey e pX ↔ Copyable c i j es pX := by
  have hinsert : Ensures (fun _ => False) (sqlite3BtreeInsert i (rowPayload (c.dest.curs i).keyInfo iKey e) false)
      _ c.dest := insert_rowPayload h.target h.calm h.compatible
  obtain ⟨rc, w, hrun, rfl, hvisible⟩ := hinsert.result
  constructor
  · rintro ⟨rc, w₁, w', hrun₁, hcopy, -⟩
    by_contra hnot
    rw [hrun] at hrun₁
    cases hrun₁
    exact (copyRow_fails h hnot iKey).of_ok (a := sqliteOk) hcopy rfl
  · intro hcopyable
    obtain ⟨w', hcopy, hcopied⟩ := copyRow_copies h hcopyable iKey
    refine ⟨sqliteOk, w, w', hrun, hcopy, hcopied.trans (hvisible ?_).symm⟩
    rcases hcopyable with htable | ⟨-, hempty, -⟩
    · exact .inl htable
    · exact .inr hempty

end Copying

/-- A write transaction with cursor `0` on the row `5, 6` of a `WITHOUT ROWID` table. -/
def onIndexRow : World := { withoutRowid with
  env := { withoutRowid.env with
    writers := [⟨0, fun db => if db = .table 3 then some [([5, 6], [0])] else none, fun _ => none⟩]
    cursors := fun h => if h = 1 then some ⟨0, .table 3, ⟨true, false, false, 0⟩⟩ else none } }

/-- The same for the row of a table with the rowid `1`. -/
def onRow : World := { emptyTable false with
  env := { (emptyTable false).env with
    writers := [⟨0, fun db => if db = .table 3 then some [([1], [7])] else none, fun _ => none⟩]
    cursors := fun h => if h = 1 then some ⟨0, .table 3, ⟨true, false, false, 0⟩⟩ else none } }

theorem copyRow_inserts_iff_sample :
    CopiesAsInserted (.two (emptyTable false) onRow) 0 0 2 ([1], [7]) (keyOnly []) := by
  have htarget : Target (emptyTable false) 0
      ⟨0, fun db => if db = .table 3 then some [] else none, fun _ => none⟩ [] :=
    ⟨rfl, rfl, by decide, ⟨⟨0, -1⟩, [], [], rfl, rfl, rfl⟩, rfl,
      .inl ⟨rfl, 1, ⟨0, .table 3, .unset⟩, rfl, rfl, List.mem_cons_self, rfl⟩⟩
  have hsource : Source onRow 0 ([1], [7]) :=
    ⟨rfl, rfl, by decide, .inl ⟨rfl, 1, ⟨0, .table 3, ⟨true, false, false, 0⟩⟩, [([1], [7])],
      ⟨rfl, rfl, _, rfl, rfl⟩, rfl, rfl⟩⟩
  have hcopy : RowCopy (.two (emptyTable false) onRow) 0 0 _ [] ([1], [7]) :=
    ⟨trivial, fun _ => rfl, fun _ => rfl, htarget, hsource, .tables rfl rfl⟩
  exact (copyRow_inserts_iff _ 0 0 _ [] ([1], [7]) hcopy 2 (keyOnly [])).mpr (.inl rfl)

/-- A row is inserted into an index that has another one, and it is not copied there: the copy compares the keys with
what the source left uninitialised. -/
theorem index_copy_undefined : (sqlite3BtreeInsert 0 (rowPayload (withoutRowid.curs 0).keyInfo 0 ([5, 6], [0])) false
      withoutRowid).toOption.map (fun r => r.1) = some sqliteOk ∧
    (Connections.two withoutRowid onIndexRow).copyRow 0 0 0 (keyOnly [5, 6]) = .error .undefined ∧
    ¬ CopiesAsInserted (.two withoutRowid onIndexRow) 0 0 0 ([5, 6], [0]) (keyOnly [5, 6]) := by
  have hcopy : (Connections.two withoutRowid onIndexRow).copyRow 0 0 0 (keyOnly [5, 6]) = .error .undefined := rfl
  refine ⟨by decide +kernel, hcopy, ?_⟩
  rintro ⟨rc, w, w', -, hrun, -⟩
  rw [hcopy] at hrun
  cases hrun

end LumoSql.Btree
