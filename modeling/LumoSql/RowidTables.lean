import LumoSql.BtreeCursors
import LumoSql.LmdbLaws

/-! Rowid tables under the cursor calls: the keys stay in the order of their unsigned
values, whatever is inserted and deleted and whichever calls fail. -/
namespace LumoSql.Btree
open StateLogic Lmdb RowidEncoding SortedEntries

/-- The entries of a table as the innermost write transaction sees them. -/
def World.rows (w : World) (n : ℕ) : Entries :=
  ((w.env.writers.head?.bind fun t => t.view (.table n))).getD []

/-- Cursor `i` stands on the rowid table `n` in a write transaction, by the handle `h`. -/
structure TableCursor (w : World) (n i h : ℕ) (c : MdbCursor) : Prop where
  opened : (w.curs i).pBtree = true
  untripped : (w.curs i).tripCode = sqliteOk
  unsaved : (w.curs i).savedKey = none
  isTable : (w.curs i).keyInfo = none
  handle : (w.curs i).cursor = some h
  live : w.env.cursors h = some c
  db : c.db = .table n
  writer : c.txn ∈ w.env.writers.map WriteTxn.id

def OnTable (w : World) (n i : ℕ) : Prop := ∃ h c, TableCursor w n i h c

/-- Entries in the order of their unsigned rowids, under the keys `put8` makes. -/
structure RowTable (fixedRowid : Bool) (es : Entries) : Prop where
  ascending : Ascending (get8 fixedRowid) es
  keys : ∀ e ∈ es, ∃ v < 2 ^ 64, e.1 = put8 fixedRowid v

theorem RowTable.probes {fixedRowid : Bool} {es : Entries} (h : RowTable fixedRowid es) {v : ℕ}
    (hv : v < 2 ^ 64) :
    Probes (rowidProbe fixedRowid (put8 fixedRowid v)) (get8 fixedRowid) v es := by
  intro e he
  obtain ⟨k, hk, hkey⟩ := h.keys e he
  rw [hkey, rowidProbe, keyCompare_put8 fixedRowid hv hk, get8_put8 fixedRowid hk]

theorem RowTable.place {fixedRowid : Bool} {es : Entries} (h : RowTable fixedRowid es) {v : ℕ}
    (hv : v < 2 ^ 64) (val : Bytes) :
    RowTable fixedRowid (place (rowidProbe fixedRowid (put8 fixedRowid v))
      (put8 fixedRowid v, val) (overwrite (put8 fixedRowid v) val) es) := by
  have hkey := get8_put8 fixedRowid hv
  have hover : ∀ o : Bytes × Bytes, get8 fixedRowid o.1 = v →
      get8 fixedRowid (overwrite (put8 fixedRowid v) val o).1 = v := by
    intro o ho
    rw [overwrite]
    split_ifs
    · exact ho
    · exact hkey
  refine ⟨h.ascending.place (h.probes hv) hkey hover, ?_⟩
  intro e he
  rw [SortedEntries.place] at he
  split at he
  · rename_i o ho
    obtain ⟨hmem, _⟩ := mem_of_lookup ho
    rcases List.mem_append.mp he with he | he
    · exact h.keys e (List.mem_of_mem_take he)
    · rcases List.mem_cons.mp he with rfl | he
      · rw [overwrite]
        split_ifs
        · exact h.keys o (List.mem_of_getElem? hmem)
        · exact ⟨v, hv, rfl⟩
      · exact h.keys e (List.mem_of_mem_drop he)
  · rcases List.mem_append.mp he with he | he
    · exact h.keys e (List.mem_of_mem_take he)
    · rcases List.mem_cons.mp he with rfl | he
      · exact ⟨v, hv, rfl⟩
      · exact h.keys e (List.mem_of_mem_drop he)

theorem RowTable.eraseIdx {fixedRowid : Bool} {es : Entries} (h : RowTable fixedRowid es)
    (i : ℕ) : RowTable fixedRowid (es.eraseIdx i) :=
  ⟨h.ascending.eraseIdx i, fun e he => h.keys e (List.mem_of_mem_eraseIdx he)⟩

/-- The write transactions keep their ids and every cursor is still there, perhaps moved. -/
structure Repositions (e e' : Env) : Prop where
  writers : e'.writers.map WriteTxn.id = e.writers.map WriteTxn.id
  cursors : ∀ h c, e.cursors h = some c → ∃ pos, e'.cursors h = some { c with pos := pos }

theorem Repositions.refl (e : Env) : Repositions e e := ⟨rfl, fun _ c hc => ⟨c.pos, hc⟩⟩

theorem Repositions.trans {e₁ e₂ e₃ : Env} (h : Repositions e₁ e₂) (h' : Repositions e₂ e₃) :
    Repositions e₁ e₃ := by
  refine ⟨h'.writers.trans h.writers, fun i c hc => ?_⟩
  obtain ⟨pos, hpos⟩ := h.cursors i c hc
  obtain ⟨pos', hpos'⟩ := h'.cursors i _ hpos
  exact ⟨pos', hpos'⟩

theorem setView_ids (e : Env) (db : DbName) (es : Option Entries) :
    (e.setView db es).writers.map WriteTxn.id = e.writers.map WriteTxn.id := by
  rw [Env.setView]
  cases e.writers <;> rfl

theorem Repositions.pop (e : Env) (c : Fallible) : Repositions e (e.pop c) :=
  ⟨rfl, fun _ d hd => ⟨d.pos, hd⟩⟩

theorem Repositions.setView (e : Env) (db : DbName) (es : Option Entries) :
    Repositions e (e.setView db es) := ⟨setView_ids e db es, fun _ c hc => ⟨c.pos, hc⟩⟩

theorem Repositions.adjust (e : Env) (db : DbName) (f : ℕ → Position → Position) :
    Repositions e (e.adjust db f) := by
  refine ⟨rfl, fun h c hc => ?_⟩
  rw [Env.adjust]
  simp only [hc]
  split_ifs
  · exact ⟨_, rfl⟩
  · exact ⟨c.pos, rfl⟩

theorem Repositions.setCursor {e : Env} {h : ℕ} {c c' : MdbCursor} (hc : e.cursors h = some c')
    (hsame : c.txn = c'.txn ∧ c.db = c'.db) (pos : Position) :
    Repositions e (e.setCursor h c pos) := by
  refine ⟨rfl, fun i d hd => ?_⟩
  by_cases hi : i = h
  · subst hi
    obtain rfl := Option.some.inj (hd.symm.trans hc)
    refine ⟨pos, ?_⟩
    rw [Env.setCursor]
    simp only [Function.update_self]
    rw [← hsame.1, ← hsame.2]
  · exact ⟨d.pos, by rw [Env.setCursor]; simp only [Function.update_of_ne hi, hd]⟩

/-- Cursors stay on their table when only positions and the end flag of a cursor change. -/
theorem OnTable.keep {w w' : World} {n : ℕ} (henv : Repositions w.env w'.env)
    (hcurs : ∀ i, ∃ b, w'.curs i = { w.curs i with atEof := b }) {i : ℕ} (h : OnTable w n i) :
    OnTable w' n i := by
  obtain ⟨hd, c, hc⟩ := h
  obtain ⟨b, hb⟩ := hcurs i
  obtain ⟨pos, hpos⟩ := henv.cursors hd c hc.live
  exact ⟨hd, { c with pos := pos }, by rw [hb]; exact hc.opened, by rw [hb]; exact hc.untripped,
    by rw [hb]; exact hc.unsaved, by rw [hb]; exact hc.isTable, by rw [hb]; exact hc.handle, hpos,
    hc.db, by rw [henv.writers]; exact hc.writer⟩

theorem setCur_atEof (w : World) (j : ℕ) (b : Bool) (i : ℕ) :
    ∃ b', Function.update w.curs j { w.curs j with atEof := b } i = { w.curs i with atEof := b' } := by
  by_cases hi : i = j
  · subst hi
    exact ⟨b, by rw [Function.update_self]⟩
  · exact ⟨(w.curs i).atEof, by rw [Function.update_of_ne hi]⟩

section Calls

variable {E : Halt → Prop} {w : World} {n i h : ℕ} {c : MdbCursor}

theorem TableCursor.exists_writer (hc : TableCursor w n i h c) :
    ∃ t rest, w.env.writers = t :: rest ∧ w.rows n = (t.view c.db).getD [] := by
  cases hw : w.env.writers with
  | nil =>
    have := hc.writer
    rw [hw] at this
    simp at this
  | cons t rest => exact ⟨t, rest, rfl, by rw [World.rows, hw, hc.db]; rfl⟩

/-- A cursor whose position is not saved needs no restoring. -/
theorem TableCursor.ensures_restore (hc : TableCursor w n i h c) (reposition : Bool)
    (Q : Rc → World → Prop) : Ensures E (restoreCursor i reposition) Q w ↔ Q sqliteOk w := by
  rw [restoreCursor, ensures_bind, ensures_getCur, if_neg (not_not.mpr hc.untripped), hc.unsaved]
  rfl

/-- The world after a cursor of a table has been moved. -/
def World.moveCursor (w : World) (h : ℕ) (c : MdbCursor) (pos : Position) : World :=
  { w with env := (w.env.pop .cursorGet).setCursor h c pos }

theorem TableCursor.ensures_get (hc : TableCursor w n i h c) (op : CursorOp)
    (Q : Rc × Bytes × Bytes → World → Prop) :
    Ensures E (lmdb (mdbCursorGet (some h) op)) Q w ↔
      if (w.env.answers .cursorGet).headD 0 ≠ 0 then
        Q ((w.env.answers .cursorGet).headD 0, [], []) { w with env := w.env.pop .cursorGet }
      else Q (op.move (w.rows n) c.pos).2 (w.moveCursor h c (op.move (w.rows n) c.pos).1) := by
  obtain ⟨t, rest, hw, hrows⟩ := hc.exists_writer
  rw [ensures_lmdb, documented.cursorGet hc.live (cursorView_writer hw hc.writer), hrows]
  rfl

/-- What every call on the cursors of a rowid table keeps. -/
structure RowInvariant (n : ℕ) (cursors : Set ℕ) (w : World) : Prop where
  onTable : ∀ i ∈ cursors, OnTable w n i
  rows : RowTable w.fixedRowid (w.rows n)

/-- Only positions, answers and end flags change. -/
structure Moves (w w' : World) : Prop where
  build : w'.fixedRowid = w.fixedRowid
  writers : w'.env.writers = w.env.writers
  env : Repositions w.env w'.env
  curs : ∀ i, ∃ b, w'.curs i = { w.curs i with atEof := b }

theorem Moves.trans {w₁ w₂ w₃ : World} (h : Moves w₁ w₂) (h' : Moves w₂ w₃) : Moves w₁ w₃ := by
  refine ⟨h'.build.trans h.build, h'.writers.trans h.writers, h.env.trans h'.env, fun i => ?_⟩
  obtain ⟨b, hb⟩ := h.curs i
  obtain ⟨b', hb'⟩ := h'.curs i
  exact ⟨b', by rw [hb', hb]⟩

theorem Moves.rows {w w' : World} (h : Moves w w') (n : ℕ) : w'.rows n = w.rows n := by
  rw [World.rows, World.rows, h.writers]

theorem Moves.invariant {w w' : World} {cursors : Set ℕ} (h : Moves w w')
    (hw : RowInvariant n cursors w) : RowInvariant n cursors w' := by
  refine ⟨fun i hi => (hw.onTable i hi).keep h.env h.curs, ?_⟩
  rw [h.rows n, h.build]
  exact hw.rows

theorem Moves.pop (w : World) (c : Fallible) : Moves w { w with env := w.env.pop c } :=
  ⟨rfl, rfl, .pop _ c, fun i => ⟨(w.curs i).atEof, rfl⟩⟩

theorem Moves.atEof (w : World) (i : ℕ) (b : Bool) :
    Moves w { w with curs := Function.update w.curs i { w.curs i with atEof := b } } :=
  ⟨rfl, rfl, .refl _, setCur_atEof w i b⟩

theorem TableCursor.moves (hc : TableCursor w n i h c) (pos : Position) :
    Moves w (w.moveCursor h c pos) :=
  have hlive : (w.env.pop .cursorGet).cursors h = some c := hc.live
  ⟨rfl, rfl, (Repositions.pop _ _).trans (.setCursor hlive ⟨rfl, rfl⟩ pos),
    fun i => ⟨(w.curs i).atEof, rfl⟩⟩

theorem TableCursor.get_moves (hc : TableCursor w n i h c) (op : CursorOp) :
    Ensures E (lmdb (mdbCursorGet (some h) op)) (fun _ w' => Moves w w') w := by
  rw [hc.ensures_get]
  split_ifs
  · exact .pop w _
  · exact hc.moves _

theorem cursorMove_moves (hi : OnTable w n i) (op : CursorOp) (reposition : Bool) :
    Ensures E (cursorMove i op reposition) (fun _ w' => Moves w w') w := by
  obtain ⟨h, c, hc⟩ := hi
  rw [cursorMove, ensures_bind, hc.ensures_restore, if_neg (by decide), ensures_bind, ensures_getCur,
    hc.handle, ensures_bind]
  refine (hc.get_moves op).imp fun g w' hm => ?_
  simp only [ensures_ite, ensures_bind, ensures_setCur, ensures_pure]
  split_ifs
  · exact hm.trans (.atEof w' i false)
  · exact hm
  · exact hm.trans (.atEof w' i true)

theorem tableMoveto_moves (hi : OnTable w n i) (intKey : ℤ) :
    Ensures E (sqlite3BtreeTableMoveto i intKey) (fun _ w' => Moves w w') w := by
  obtain ⟨h, c, hc⟩ := hi
  rw [sqlite3BtreeTableMoveto, ensures_bind, hc.ensures_restore, if_neg (by decide), ensures_bind,
    ensures_setCur]
  have hm := Moves.atEof w i false
  obtain ⟨h', c', hc'⟩ := OnTable.keep hm.env hm.curs ⟨h, c, hc⟩
  rw [ensures_bind, ensures_getCur, hc'.handle, ensures_bind, ensures_build, ensures_bind]
  refine (hc'.get_moves _).imp fun g w' hm' => ?_
  simp only [ensures_ite, ensures_bind, ensures_pure]
  have hall := hm.trans hm'
  split_ifs
  · exact hall
  · exact hall
  · obtain ⟨h'', c'', hc''⟩ := OnTable.keep hm'.env hm'.curs ⟨h', c', hc'⟩
    have hh' : h' = h'' := by
      obtain ⟨b, hb⟩ := hm'.curs i
      have := hc''.handle
      rw [hb] at this
      exact Option.some.inj (hc'.handle.symm.trans this)
    rw [hh']
    exact (hc''.get_moves .first).imp fun _ _ h => hall.trans h

/-- The world after a cursor wrote `es` to its table. -/
def World.write (w : World) (h : ℕ) (c : MdbCursor) (k : Fallible) (es : Entries)
    (f : ℕ → Position → Position) (pos : Position) : World :=
  { w with env := (((w.env.pop k).setView c.db (some es)).adjust c.db f).setCursor h c pos }

theorem TableCursor.write_rows (hc : TableCursor w n i h c) (k : Fallible) (es : Entries)
    (f : ℕ → Position → Position) (pos : Position) : (w.write h c k es f pos).rows n = es := by
  obtain ⟨t, rest, hw, _⟩ := hc.exists_writer
  have hwriters : (w.write h c k es f pos).env.writers =
      { t with view := Function.update t.view c.db (some es) } :: rest := by
    have hpop : (w.env.pop k).writers = t :: rest := hw
    simp only [World.write, Env.setCursor, Env.adjust, Env.setView, hpop]
  rw [World.rows, hwriters, hc.db]
  simp

theorem TableCursor.write_env (hc : TableCursor w n i h c) (k : Fallible) (es : Entries)
    (f : ℕ → Position → Position) (pos : Position) :
    Repositions w.env (w.write h c k es f pos).env := by
  have hset := (Repositions.pop w.env k).trans (.setView _ c.db (some es))
  have hadj := hset.trans (.adjust _ c.db f)
  obtain ⟨pos', hlive⟩ := hadj.cursors h c hc.live
  exact hadj.trans (.setCursor hlive ⟨rfl, rfl⟩ pos)

theorem TableCursor.write_onTable (hc : TableCursor w n i h c) {k : Fallible} {es : Entries}
    {f : ℕ → Position → Position} {pos : Position} {j : ℕ} (hj : OnTable w n j) :
    OnTable (w.write h c k es f pos) n j :=
  hj.keep (hc.write_env k es f pos) fun i => ⟨(w.curs i).atEof, rfl⟩

/-- What an insertion of a rowid does when it succeeds. -/
structure Inserted (w : World) (n : ℕ) (key : ℤ) (data : Bytes) (w' : World) : Prop where
  build : w'.fixedRowid = w.fixedRowid
  onTable : ∀ j, OnTable w n j → OnTable w' n j
  rows : w'.rows n = place (rowidProbe w.fixedRowid (put8 w.fixedRowid (toU64 key)))
    (put8 w.fixedRowid (toU64 key), data) (overwrite (put8 w.fixedRowid (toU64 key)) data) (w.rows n)

theorem insert_spec (hi : OnTable w n i) (pX : Payload) :
    Ensures E (sqlite3BtreeInsert i pX false) (fun rc w' =>
      (rc ≠ sqliteOk ∧ Moves w w') ∨
      (rc = sqliteOk ∧ Inserted w n pX.nKey (pX.pData ++ List.replicate pX.nZero 0) w')) w := by
  obtain ⟨h, c, hc⟩ := hi
  obtain ⟨t, rest, hw, hrows⟩ := hc.exists_writer
  rw [sqlite3BtreeInsert, ensures_bind, ensures_getCur, hc.opened, if_neg (by decide), ensures_bind,
    hc.ensures_restore, if_neg (by decide), if_neg (by decide), ensures_bind, ensures_pure]
  dsimp only
  rw [insertSource, if_neg (by decide), ensures_bind, ensures_getCur, hc.isTable]
  dsimp only
  rw [if_neg Bool.false_ne_true, insertRow, ensures_bind, ensures_getCur, hc.handle, ensures_bind, ensures_build,
    ensures_bind, ensures_lmdb]
  obtain ⟨f, hput⟩ := documented.cursorPut hc.live hw hc.writer (rowidProbe w.fixedRowid (put8 w.fixedRowid (toU64 pX.nKey)))
    (put8 w.fixedRowid (toU64 pX.nKey)) (pX.pData ++ List.replicate pX.nZero 0)
  have hfailed : ∀ rc, rc ≠ 0 → errorMap rc ≠ sqliteOk := fun rc hrc hok => hrc ((errorMap_eq_ok rc).mp hok)
  rw [hput]
  split_ifs with hcode hsize
  · exact .inl ⟨hfailed _ hcode, .pop w _⟩
  · exact .inl ⟨hfailed _ (by decide), .pop w _⟩
  · rw [← hrows]
    refine .inr ⟨rfl, rfl, fun j hj => ?_, ?_⟩
    · exact hc.write_onTable hj
    · exact hc.write_rows _ _ _ _

/-- What a deletion does when it succeeds. -/
structure Deleted (w : World) (n : ℕ) (w' : World) : Prop where
  build : w'.fixedRowid = w.fixedRowid
  onTable : ∀ j, OnTable w n j → OnTable w' n j
  rows : ∃ k < (w.rows n).length, w'.rows n = (w.rows n).eraseIdx k

theorem delete_spec (hi : OnTable w n i) :
    Ensures E (sqlite3BtreeDelete i) (fun rc w' =>
      (rc ≠ sqliteOk ∧ Moves w w') ∨ (rc = sqliteOk ∧ Deleted w n w')) w := by
  obtain ⟨h, c, hc⟩ := hi
  obtain ⟨t, rest, hw, hrows⟩ := hc.exists_writer
  rw [sqlite3BtreeDelete, ensures_bind, hc.ensures_restore, if_neg (by decide), ensures_bind,
    ensures_getCur, hc.handle, ensures_bind, ensures_lmdb]
  obtain ⟨f, pos, -, -, hdel⟩ := documented.cursorDel hc.live hw hc.writer
  have hfailed : ∀ rc, rc ≠ 0 → errorMap rc ≠ sqliteOk := fun rc hrc hok => hrc ((errorMap_eq_ok rc).mp hok)
  rw [hdel]
  split_ifs with hcode hinit hidx
  · exact .inl ⟨hfailed _ hcode, .pop w _⟩
  · exact .inl ⟨hfailed _ (by decide), .pop w _⟩
  · exact .inl ⟨hfailed _ (by decide), .pop w _⟩
  · rw [← hrows] at hidx ⊢
    have hidx := not_le.mp hidx
    refine .inr ⟨rfl, rfl, fun j hj => ?_, c.pos.index, hidx, ?_⟩
    · exact hc.write_onTable hj
    · exact hc.write_rows _ _ _ _

end Calls

/-- The calls on a cursor of a rowid table. -/
inductive RowCall
  | insert (pX : Payload)
  | delete | first | last | next | previous
  | moveto (intKey : ℤ)

def RowCall.run (i : ℕ) : RowCall → Call Rc
  | insert pX => sqlite3BtreeInsert i pX false
  | delete => sqlite3BtreeDelete i
  | first => do
    let r ← sqlite3BtreeFirst i
    pure r.1
  | last => do
    let r ← sqlite3BtreeLast i
    pure r.1
  | next => sqlite3BtreeNext i
  | previous => sqlite3BtreePrevious i
  | moveto intKey => do
    let r ← sqlite3BtreeTableMoveto i intKey
    pure r.1

/-- One call on cursor `k.1`, with the codes LMDB gives during it. -/
def rowStep (k : ℕ × RowCall × Answers) : Call Rc := do
  Prog.modify fun w => { w with env := { w.env with answers := k.2.2 } }
  k.2.1.run k.1

theorem Moves.answers (w : World) (a : Answers) :
    Moves w { w with env := { w.env with answers := a } } :=
  ⟨rfl, rfl, ⟨rfl, fun _ c hc => ⟨c.pos, hc⟩⟩, fun i => ⟨(w.curs i).atEof, rfl⟩⟩

theorem cursorStep_moves {E : Halt → Prop} {w : World} {n i : ℕ} (hi : OnTable w n i)
    (op : CursorOp) : Ensures E (cursorStep i op) (fun _ w' => Moves w w') w := by
  rw [cursorStep, ensures_bind]
  refine (cursorMove_moves hi op true).imp fun r w' hm => ?_
  simp only [ensures_ite, ensures_bind, ensures_getCur, ensures_pure]
  split_ifs <;> exact hm

/-- What a call does to the table: nothing, an insertion or a deletion. -/
inductive RowEffect (n : ℕ) (w w' : World) : RowCall → Prop
  | moves {call : RowCall} : Moves w w' → RowEffect n w w' call
  | inserted (pX : Payload) :
      Inserted w n pX.nKey (pX.pData ++ List.replicate pX.nZero 0) w' →
        RowEffect n w w' (.insert pX)
  | deleted : Deleted w n w' → RowEffect n w w' .delete

theorem rowCall_effect {n i : ℕ} {w : World} (hon : OnTable w n i) (call : RowCall)
    {E : Halt → Prop} : Ensures E (call.run i) (fun _ w' => RowEffect n w w' call) w := by
  cases call with
  | insert pX =>
    refine (insert_spec hon pX).imp fun rc w' h => ?_
    rcases h with ⟨_, hm⟩ | ⟨_, hins⟩
    · exact .moves hm
    · exact .inserted pX hins
  | delete =>
    refine (delete_spec hon).imp fun rc w' h => ?_
    rcases h with ⟨_, hm⟩ | ⟨_, hdel⟩
    · exact .moves hm
    · exact .deleted hdel
  | first =>
    rw [RowCall.run, ensures_bind]
    exact (cursorMove_moves hon _ _).imp fun _ _ hm => .moves hm
  | last =>
    rw [RowCall.run, ensures_bind]
    exact (cursorMove_moves hon _ _).imp fun _ _ hm => .moves hm
  | next => exact (cursorStep_moves hon _).imp fun _ _ hm => .moves hm
  | previous => exact (cursorStep_moves hon _).imp fun _ _ hm => .moves hm
  | moveto intKey =>
    rw [RowCall.run, ensures_bind]
    exact (tableMoveto_moves hon intKey).imp fun _ _ hm => .moves hm

theorem RowEffect.invariant {n : ℕ} {cursors : Set ℕ} {w w' : World} {call : RowCall}
    (h : RowEffect n w w' call) (hw : RowInvariant n cursors w) : RowInvariant n cursors w' := by
  cases h with
  | moves hm => exact hm.invariant hw
  | inserted pX hins =>
    refine ⟨fun j hj => hins.onTable j (hw.onTable j hj), ?_⟩
    rw [hins.rows, hins.build]
    exact hw.rows.place (toU64_lt _) _
  | deleted hdel =>
    obtain ⟨k, _, hrows⟩ := hdel.rows
    refine ⟨fun j hj => hdel.onTable j (hw.onTable j hj), ?_⟩
    rw [hrows, hdel.build]
    exact hw.rows.eraseIdx k

/-- The rows after one call, seen from the world with the codes of that call. -/
theorem rowStep_effect {n : ℕ} {cursors : Set ℕ} {w : World} (hw : RowInvariant n cursors w)
    {k : ℕ × RowCall × Answers} (hk : k.1 ∈ cursors) {E : Halt → Prop} :
    Ensures E (rowStep k) (fun _ w' => ∃ w₁, Moves w w₁ ∧ RowEffect n w₁ w' k.2.1) w := by
  have hm := Moves.answers w k.2.2
  rw [rowStep, ensures_bind, ensures_modify]
  exact (rowCall_effect ((hm.invariant hw).onTable _ hk) _).imp fun _ _ h => ⟨_, hm, h⟩

/-- The rows of a table are in the order of their unsigned rowids after every run. -/
theorem rows_invariant {n : ℕ} {cursors : Set ℕ} {w w' : World} (hw : RowInvariant n cursors w)
    {calls : List (ℕ × RowCall × Answers)}
    (hrun : Run rowStep (fun k _ => k.1 ∈ cursors) w calls w') : RowInvariant n cursors w' := by
  refine hrun.invariant (fun k s hs hk => ?_) hw
  refine (rowStep_effect hs hk).imp fun _ _ ⟨w₁, hm, heff⟩ => ?_
  exact heff.invariant (hm.invariant hs)

end LumoSql.Btree
