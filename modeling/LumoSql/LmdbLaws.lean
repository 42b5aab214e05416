import LumoSql.LmdbEnvironment

/-! What the calls of LMDB do, one rule for each. -/
namespace LumoSql.Lmdb
open StateLogic SortedEntries

variable {E : Halt → Prop} {e : Env} {rdonly : Bool}

@[simp] theorem pop_disk (c : Fallible) : (e.pop c).disk = e.disk := rfl
@[simp] theorem pop_readonly (c : Fallible) : (e.pop c).readonly = e.readonly := rfl
@[simp] theorem pop_writers (c : Fallible) : (e.pop c).writers = e.writers := rfl
@[simp] theorem pop_readers (c : Fallible) : (e.pop c).readers = e.readers := rfl
@[simp] theorem pop_cursors (c : Fallible) : (e.pop c).cursors = e.cursors := rfl
@[simp] theorem pop_next (c : Fallible) : (e.pop c).next = e.next := rfl
@[simp] theorem pop_kind (c : Fallible) (t : ℕ) : (e.pop c).kind t = e.kind t := rfl
@[simp] theorem pop_view (c : Fallible) (t : ℕ) : (e.pop c).view t = e.view t := rfl

@[simp] theorem pop_answers_self (c : Fallible) : (e.pop c).answers c = (e.answers c).tail := by
  rw [Env.pop]
  exact Function.update_self ..

theorem pop_answers_of_ne {c d : Fallible} (h : d ≠ c) : (e.pop c).answers d = e.answers d := by
  rw [Env.pop]
  exact Function.update_of_ne h ..

@[simp] theorem ensures_answer (c : Fallible) (Q : Rc → Env → Prop) :
    Ensures E (answer c) Q e ↔ Q ((e.answers c).headD 0) (e.pop c) := Iff.rfl

/-- No call to come fails on its own. -/
def Env.Calm (e : Env) : Prop := ∀ c, e.answers c = []

theorem Env.Calm.pop (h : e.Calm) (c : Fallible) : e.pop c = e := by
  have hsame : Function.update e.answers c (e.answers c).tail = e.answers := by
    rw [Function.update_eq_self_iff, h c, List.tail_nil]
  rw [Env.pop, hsame]

theorem Env.Calm.head (h : e.Calm) (c : Fallible) : (e.answers c).headD 0 = 0 := by
  rw [h c, List.headD_nil]

/-- A top-level transaction; a writer waits for the lock. -/
theorem ensures_txnBegin (hopen : e.readonly = true → rdonly = true)
    (Q : Rc × ℕ → Env → Prop) :
    Ensures E (mdbTxnBegin none rdonly) Q e ↔
      if (e.answers .txnBegin).headD 0 ≠ 0 then
        Q ((e.answers .txnBegin).headD 0, 0) (e.pop .txnBegin)
      else if rdonly then Q (0, e.next) (e.pop .txnBegin).beginReader
      else if e.disk.locked then E .blocked
      else Q (0, e.next) (e.pop .txnBegin).beginWriter := by
  have hnot : ¬ (e.readonly = true ∧ (!rdonly) = true) := by
    rintro ⟨h, h'⟩
    rw [hopen h] at h'
    cases h'
  rw [mdbTxnBegin, ensures_bind, ensures_read]
  simp only [id_eq, if_neg hnot, ensures_bind, ensures_answer, ensures_ite, ensures_pure,
    ensures_modify, ensures_halt]

section Writer

variable {w : WriteTxn} {rest : List WriteTxn}

theorem kind_writer (hw : e.writers = w :: rest) : e.kind w.id = some .readWrite := by
  rw [Env.kind, if_pos (by rw [hw]; exact List.mem_cons_self)]

theorem view_writer (hw : e.writers = w :: rest) : e.view w.id = some w.view := by
  rw [Env.view, hw]
  exact if_pos rfl

theorem setView_writers (hw : e.writers = w :: rest) (db : DbName) (es : Option Entries) :
    (e.setView db es).writers = { w with view := Function.update w.view db es } :: rest := by
  rw [Env.setView]
  simp only [hw]

/-- A transaction nested in the innermost one. -/
theorem ensures_txnBegin_nested (hw : e.writers = w :: rest) (Q : Rc × ℕ → Env → Prop) :
    Ensures E (mdbTxnBegin (some w.id) false) Q e ↔
      if (e.answers .txnBegin).headD 0 ≠ 0 then
        Q ((e.answers .txnBegin).headD 0, 0) (e.pop .txnBegin)
      else Q (0, e.next) ((e.pop .txnBegin).beginNested w.view) := by
  rw [mdbTxnBegin, ensures_bind, ensures_read]
  simp only [id_eq, kind_writer hw, view_writer hw, Bool.false_eq_true, if_false, ensures_bind,
    ensures_answer, ensures_ite, ensures_pure, ensures_modify]

theorem outer_writer (hw : e.writers = w :: rest) : e.outer w.id = rest := by
  rw [Env.outer, hw, List.dropWhile_cons_of_neg (by simp), List.tail_cons]

theorem abort_writer (hw : e.writers = w :: rest) : e.abort w.id =
    { e with
      writers := rest
      cursors := e.survivors rest w.shadow
      disk := { e.disk with locked := !rest.isEmpty } } := by
  have hshadow : e.shadowOf w.id = w.shadow := by
    rw [Env.shadowOf, hw, List.find?_cons_of_pos (by simp)]
    rfl
  rw [Env.abort, outer_writer hw, hshadow]

theorem ensures_abort_writer (hw : e.writers = w :: rest) (Q : Unit → Env → Prop) :
    Ensures E (mdbTxnAbort w.id) Q e ↔ Q () (e.abort w.id) := by
  rw [mdbTxnAbort, ensures_bind, ensures_read]
  simp only [id_eq, kind_writer hw, ensures_modify]

theorem commit_nested {p : WriteTxn} {ps : List WriteTxn} (hw : e.writers = w :: p :: ps) :
    e.commit w.id =
      { e with
        writers := { p with view := w.view } :: ps
        cursors := e.survivors (p :: ps) fun _ => none } := by
  rw [Env.commit, outer_writer hw]
  simp only [hw]

theorem commit_outermost (hw : e.writers = [w]) :
    e.commit w.id =
      { e with
        writers := []
        cursors := e.survivors [] fun _ => none
        disk := ⟨w.view, false⟩ } := by
  rw [Env.commit, outer_writer hw]
  simp only [hw]

theorem ensures_commit_writer (hw : e.writers = w :: rest) (Q : Rc → Env → Prop) :
    Ensures E (mdbTxnCommit w.id) Q e ↔
      if (e.answers .txnCommit).headD 0 ≠ 0 then
        Q ((e.answers .txnCommit).headD 0) ((e.pop .txnCommit).abort w.id)
      else Q 0 ((e.pop .txnCommit).commit w.id) := by
  rw [mdbTxnCommit, ensures_bind, ensures_read]
  simp only [id_eq, kind_writer hw, ensures_bind, ensures_answer, ensures_ite, ensures_pure,
    ensures_modify]

end Writer

/-- What a live write transaction sees is what the innermost one sees. -/
theorem writer_of_view {t : ℕ} {c : Contents} (hkind : e.kind t = some .readWrite)
    (hview : e.view t = some c) : ∃ w rest, e.writers = w :: rest ∧ w.id = t ∧ w.view = c := by
  have hmem : t ∈ e.writers.map WriteTxn.id := by
    by_contra hnot
    rw [Env.kind, if_neg hnot] at hkind
    split_ifs at hkind
    cases hkind
  rw [Env.view] at hview
  cases hw : e.writers with
  | nil =>
    rw [hw] at hmem
    cases hmem
  | cons w rest =>
    rw [hw] at hmem hview
    dsimp only at hview
    by_cases ht : w.id = t
    · rw [if_pos ht] at hview
      exact ⟨w, rest, rfl, ht, Option.some.inj hview⟩
    · have hrest : t ∈ rest.map WriteTxn.id := by
        rcases List.mem_cons.mp hmem with rfl | hrest
        · exact absurd rfl ht
        · exact hrest
      rw [if_neg ht, if_pos hrest] at hview
      cases hview

section Reader

variable {t : ℕ}

theorem kind_reader (ht : t ∈ e.readers.map ReadTxn.id) (hw : t ∉ e.writers.map WriteTxn.id) :
    e.kind t = some .readOnly := by
  rw [Env.kind, if_neg hw, if_pos ht]

theorem view_reader (hw : e.writers = []) :
    e.view t = (e.readers.find? fun r => r.id = t).map ReadTxn.view := by
  rw [Env.view, hw]

theorem ensures_abort_reader (hkind : e.kind t = some .readOnly) (Q : Unit → Env → Prop) :
    Ensures E (mdbTxnAbort t) Q e ↔ Q () (e.endReader t) := by
  rw [mdbTxnAbort, ensures_bind, ensures_read]
  simp only [id_eq, hkind, ensures_modify]

end Reader

section View

variable {t : ℕ} {k : TxnKind} {c : Contents}

theorem ensures_withView (hkind : e.kind t = some k) (hview : e.view t = some c)
    (m : Contents → Mdb (Rc × Bytes)) (Q : Rc × Bytes → Env → Prop) :
    Ensures E (withView t m) Q e ↔ Ensures E (m c) Q e := by
  rw [withView, ensures_bind, ensures_read]
  simp only [id_eq, hkind, hview]

/-- What `mdb_get` returns when it does not fail on its own. -/
def Contents.get (c : Contents) (db : DbName) (key : Bytes) : Rc × Bytes :=
  match c db with
  | none => (einval, [])
  | some es =>
    match lookup (byteProbe key) es with
    | some e => (0, e.2)
    | none => (mdbNotfound, [])

theorem ensures_mdbGet (hkind : e.kind t = some k) (hview : e.view t = some c) (db : DbName)
    (key : Bytes) (Q : Rc × Bytes → Env → Prop) :
    Ensures E (mdbGet t db key) Q e ↔
      Q (if (e.answers .get).headD 0 ≠ 0 then ((e.answers .get).headD 0, []) else c.get db key)
        (e.pop .get) := by
  rw [mdbGet, ensures_withView hkind hview, ensures_bind, ensures_answer, ensures_ite]
  by_cases hrc : (e.answers .get).headD 0 ≠ 0
  · rw [if_pos hrc, if_pos hrc, ensures_pure]
  · rw [if_neg hrc, if_neg hrc, Contents.get]
    cases c db with
    | none => rfl
    | some es =>
      dsimp only
      cases lookup (byteProbe key) es <;> rfl

/-- What `mdb_put` makes of a database. -/
def putEntry (es : Entries) (key val : Bytes) : Entries :=
  place (byteProbe key) (key, val) (overwrite key val) es

theorem ensures_mdbPut (hkind : e.kind t = some .readWrite) (hview : e.view t = some c)
    (db : DbName) (key val : Bytes) (Q : Rc → Env → Prop) :
    Ensures E (mdbPut t db key val) Q e ↔
      if (e.answers .put).headD 0 ≠ 0 then Q ((e.answers .put).headD 0) (e.pop .put)
      else match c db with
        | none => Q einval (e.pop .put)
        | some es => Q 0 ((e.pop .put).setView db (some (putEntry es key val))) := by
  rw [mdbPut, ensures_bind, ensures_withView hkind hview, ensures_bind, ensures_read, id_eq, hkind,
    if_neg (not_not.mpr rfl), ensures_bind, ensures_answer, ensures_ite]
  by_cases hrc : (e.answers .put).headD 0 ≠ 0
  · rw [if_pos hrc, if_pos hrc, ensures_pure, ensures_pure]
  · rw [if_neg hrc, if_neg hrc]
    cases c db <;> rfl

theorem ensures_mdbDbiOpen (hkind : e.kind t = some k) (hview : e.view t = some c) (db : DbName)
    (Q : Rc → Env → Prop) :
    Ensures E (mdbDbiOpen t db false) Q e ↔
      Q (if (e.answers .dbiOpen).headD 0 ≠ 0 then (e.answers .dbiOpen).headD 0
        else if (c db).isSome then 0 else mdbNotfound) (e.pop .dbiOpen) := by
  rw [mdbDbiOpen, ensures_bind, ensures_withView hkind hview, ensures_bind, ensures_answer]
  simp only [ensures_ite, ensures_pure, Bool.not_false, if_true]
  split_ifs <;> rfl

/-- Opening a database in the innermost write transaction, which creates it when needed. -/
theorem ensures_mdbDbiOpen_create {w : WriteTxn} {rest : List WriteTxn} (hw : e.writers = w :: rest)
    (db : DbName) (Q : Rc → Env → Prop) :
    Ensures E (mdbDbiOpen w.id db true) Q e ↔
      if (e.answers .dbiOpen).headD 0 ≠ 0 then Q ((e.answers .dbiOpen).headD 0) (e.pop .dbiOpen)
      else if (w.view db).isSome then Q 0 (e.pop .dbiOpen)
      else Q 0 ((e.pop .dbiOpen).setView db (some [])) := by
  rw [mdbDbiOpen, ensures_bind, ensures_withView (kind_writer hw) (view_writer hw), ensures_bind,
    ensures_answer, ensures_ite]
  by_cases hrc : (e.answers .dbiOpen).headD 0 ≠ 0
  · rw [if_pos hrc, if_pos hrc, ensures_pure, ensures_pure]
  rw [if_neg hrc, if_neg hrc, ensures_ite]
  by_cases hsome : (w.view db).isSome = true
  · rw [if_pos hsome, if_pos hsome, ensures_pure, ensures_pure]
  have hkind : (e.pop .dbiOpen).kind w.id = some .readWrite := kind_writer hw
  rw [if_neg hsome, if_neg hsome, if_neg (by decide), ensures_bind, ensures_read, id_eq, hkind,
    if_neg (not_not.mpr rfl)]
  rfl

end View

/-- Reading with a cursor of a live transaction. -/
theorem ensures_mdbCursorGet {h : ℕ} {c : MdbCursor} (hc : e.cursors h = some c) {v : Contents}
    (hview : e.cursorView c = some v) (op : CursorOp) (Q : Rc × Bytes × Bytes → Env → Prop) :
    Ensures E (mdbCursorGet (some h) op) Q e ↔
      if (e.answers .cursorGet).headD 0 ≠ 0 then
        Q ((e.answers .cursorGet).headD 0, [], []) (e.pop .cursorGet)
      else
        Q (op.move ((v c.db).getD []) c.pos).2
          ((e.pop .cursorGet).setCursor h c (op.move ((v c.db).getD []) c.pos).1) := by
  rw [mdbCursorGet, ensures_bind, ensures_read]
  simp only [id_eq, hc, hview, ensures_bind, ensures_answer, ensures_ite, ensures_pure,
    ensures_modify]

theorem ensures_mdbCursorClose {h : ℕ} {c : MdbCursor} (hc : e.cursors h = some c) (Q : Unit → Env → Prop) :
    Ensures E (mdbCursorClose (some h)) Q e ↔ Q () { e with cursors := Function.update e.cursors h none } := by
  rw [mdbCursorClose, ensures_bind, ensures_read]
  simp only [id_eq, hc, ensures_modify]

/-- A cursor that is opened moves in what its transaction sees. -/
theorem ensures_mdbCursorOpen {t : ℕ} {k : TxnKind} {c : Contents} (hkind : e.kind t = some k)
    (hview : e.view t = some c) (db : DbName) (Q : Rc × ℕ → Env → Prop) :
    Ensures E (mdbCursorOpen t db) Q e ↔
      if (e.answers .cursorOpen).headD 0 ≠ 0 then
        Q ((e.answers .cursorOpen).headD 0, 0) (e.pop .cursorOpen)
      else if (c db).isNone then Q (einval, 0) (e.pop .cursorOpen)
      else Q (0, e.next) { e.pop .cursorOpen with
        cursors := Function.update e.cursors e.next (some ⟨t, db, .unset⟩)
        next := e.next + 1 } := by
  rw [mdbCursorOpen, ensures_bind, ensures_read]
  simp only [id_eq, hkind, hview, ensures_bind, ensures_answer, ensures_ite, ensures_pure,
    ensures_modify, pop_cursors, pop_next]

theorem cursorView_of_view {t : ℕ} {c : Contents} (hview : e.view t = some c) (db : DbName) (pos : Position) :
    e.cursorView ⟨t, db, pos⟩ = some c := by
  rw [Env.view] at hview
  rw [Env.cursorView]
  cases hw : e.writers with
  | nil =>
    rw [hw] at hview
    simpa using hview
  | cons w rest =>
    simp only [hw] at hview
    split_ifs at hview with hid hrest
    · obtain rfl := hid
      simpa using hview
    · have hnot : ¬ t ∈ (w :: rest).map WriteTxn.id := by
        rw [List.map_cons, List.mem_cons, not_or]
        exact ⟨fun h => hid h.symm, hrest⟩
      rw [if_neg hnot]
      exact hview

theorem ensures_mdbStat {t : ℕ} {k : TxnKind} {c : Contents} (hkind : e.kind t = some k)
    (hview : e.view t = some c) (db : DbName) (Q : Rc × ℕ → Env → Prop) :
    Ensures E (mdbStat t db) Q e ↔
      if (e.answers .stat).headD 0 ≠ 0 then Q ((e.answers .stat).headD 0, 0) (e.pop .stat)
      else Q ((c db).elim (einval, 0) fun es => (0, es.length)) (e.pop .stat) := by
  rw [mdbStat, ensures_bind, ensures_read]
  simp only [id_eq, hkind, hview, ensures_bind, ensures_answer, ensures_ite, ensures_pure]
  cases c db <;> rfl

section CursorWrites

variable {h : ℕ} {c : MdbCursor} {w : WriteTxn} {rest : List WriteTxn}

theorem cursorView_writer (hw : e.writers = w :: rest) (hmem : c.txn ∈ e.writers.map WriteTxn.id) :
    e.cursorView c = some w.view := by
  rw [Env.cursorView, if_pos hmem, hw]
  rfl

/-- Writing with a cursor of a write transaction. -/
theorem ensures_mdbCursorPut (hc : e.cursors h = some c) (hw : e.writers = w :: rest)
    (hmem : c.txn ∈ e.writers.map WriteTxn.id) (probe : Bytes → Ordering) (key val : Bytes)
    (Q : Rc → Env → Prop) :
    Ensures E (mdbCursorPut (some h) probe key val) Q e ↔
      if (e.answers .cursorPut).headD 0 ≠ 0 then
        Q ((e.answers .cursorPut).headD 0) (e.pop .cursorPut)
      else if key = [] ∨ maxKey < key.length then Q mdbBadValsize (e.pop .cursorPut)
      else Q 0 ((((e.pop .cursorPut).setView c.db
        (some (place probe (key, val) (overwrite key val) ((w.view c.db).getD [])))).adjust c.db
          (e.tracking.put ((w.view c.db).getD []) (lowerBound probe ((w.view c.db).getD []))
            (lookup probe ((w.view c.db).getD [])).isNone)).setCursor h c
              ⟨true, false, false, lowerBound probe ((w.view c.db).getD [])⟩) := by
  rw [mdbCursorPut, ensures_bind, ensures_read]
  simp only [id_eq, hc, hmem, not_true_eq_false, if_false, cursorView_writer hw hmem, ensures_bind,
    ensures_answer, ensures_ite, ensures_pure, ensures_modify]
  rfl

/-- Deleting with a cursor of a write transaction. -/
theorem ensures_mdbCursorDel (hc : e.cursors h = some c) (hw : e.writers = w :: rest)
    (hmem : c.txn ∈ e.writers.map WriteTxn.id) (Q : Rc → Env → Prop) :
    Ensures E (mdbCursorDel (some h)) Q e ↔
      if (e.answers .cursorDel).headD 0 ≠ 0 then
        Q ((e.answers .cursorDel).headD 0) (e.pop .cursorDel)
      else if !c.pos.initialized then Q einval (e.pop .cursorDel)
      else if ((w.view c.db).getD []).length ≤ c.pos.index then Q mdbNotfound (e.pop .cursorDel)
      else Q 0 ((((e.pop .cursorDel).setView c.db
        (some (((w.view c.db).getD []).eraseIdx c.pos.index))).adjust c.db
          (e.tracking.del ((w.view c.db).getD []) c.pos.index)).setCursor h c
            ⟨!(((w.view c.db).getD []).eraseIdx c.pos.index).isEmpty,
              decide ((((w.view c.db).getD []).eraseIdx c.pos.index).length ≤ c.pos.index), true, c.pos.index⟩) := by
  rw [mdbCursorDel, ensures_bind, ensures_read]
  simp only [id_eq, hc, hmem, not_true_eq_false, if_false, cursorView_writer hw hmem, ensures_bind,
    ensures_answer, ensures_ite, ensures_pure, ensures_modify]
  rfl

end CursorWrites

section Documented

/-- The calls of LMDB that the backend makes. -/
structure Calls where
  txnBegin : Option ℕ → Bool → Mdb (Rc × ℕ)
  txnAbort : ℕ → Mdb Unit
  txnCommit : ℕ → Mdb Rc
  dbiOpen : ℕ → DbName → Bool → Mdb Rc
  get : ℕ → DbName → Bytes → Mdb (Rc × Bytes)
  put : ℕ → DbName → Bytes → Bytes → Mdb Rc
  stat : ℕ → DbName → Mdb (Rc × ℕ)
  cursorOpen : ℕ → DbName → Mdb (Rc × ℕ)
  cursorClose : Option ℕ → Mdb Unit
  cursorGet : Option ℕ → CursorOp → Mdb (Rc × Bytes × Bytes)
  cursorPut : Option ℕ → (Bytes → Ordering) → Bytes → Bytes → Mdb Rc
  cursorDel : Option ℕ → Mdb Rc

/-- What the manual says of the calls, in the terms of `Env`, and the results rest on. Any call may
fail with a code of its own, and nothing but that code is gone then. -/
structure Calls.Documented (mdb : Calls) : Prop where
  /-- A transaction sees what is on the disk when it begins, and a writer waits until it is alone. -/
  txnBegin {E : Halt → Prop} {e : Env} {rdonly : Bool} (hopen : e.readonly = true → rdonly = true)
    (Q : Rc × ℕ → Env → Prop) :
    Ensures E (mdb.txnBegin none rdonly) Q e ↔
      if (e.answers .txnBegin).headD 0 ≠ 0 then
        Q ((e.answers .txnBegin).headD 0, 0) (e.pop .txnBegin)
      else if rdonly then Q (0, e.next) (e.pop .txnBegin).beginReader
      else if e.disk.locked then E .blocked
      else Q (0, e.next) (e.pop .txnBegin).beginWriter
  /-- A nested transaction begins with what its parent sees. -/
  txnBegin_nested {E : Halt → Prop} {e : Env} {w : WriteTxn} {rest : List WriteTxn}
    (hw : e.writers = w :: rest) (Q : Rc × ℕ → Env → Prop) :
    Ensures E (mdb.txnBegin (some w.id) false) Q e ↔
      if (e.answers .txnBegin).headD 0 ≠ 0 then
        Q ((e.answers .txnBegin).headD 0, 0) (e.pop .txnBegin)
      else Q (0, e.next) ((e.pop .txnBegin).beginNested w.view)
  /-- What the innermost transaction has written is gone when it is aborted. -/
  txnAbort {E : Halt → Prop} {e : Env} {w : WriteTxn} {rest : List WriteTxn}
    (hw : e.writers = w :: rest) (Q : Unit → Env → Prop) :
    Ensures E (mdb.txnAbort w.id) Q e ↔ Q () (e.abort w.id)
  txnAbort_reader {E : Halt → Prop} {e : Env} {t : ℕ} (hkind : e.kind t = some .readOnly)
    (Q : Unit → Env → Prop) : Ensures E (mdb.txnAbort t) Q e ↔ Q () (e.endReader t)
  /-- A commit hands over what the innermost transaction sees; one that fails aborts it. -/
  txnCommit {E : Halt → Prop} {e : Env} {w : WriteTxn} {rest : List WriteTxn}
    (hw : e.writers = w :: rest) (Q : Rc → Env → Prop) :
    Ensures E (mdb.txnCommit w.id) Q e ↔
      if (e.answers .txnCommit).headD 0 ≠ 0 then
        Q ((e.answers .txnCommit).headD 0) ((e.pop .txnCommit).abort w.id)
      else Q 0 ((e.pop .txnCommit).commit w.id)
  dbiOpen {E : Halt → Prop} {e : Env} {t : ℕ} {k : TxnKind} {c : Contents} (hkind : e.kind t = some k)
    (hview : e.view t = some c) (db : DbName) (Q : Rc → Env → Prop) :
    Ensures E (mdb.dbiOpen t db false) Q e ↔
      Q (if (e.answers .dbiOpen).headD 0 ≠ 0 then (e.answers .dbiOpen).headD 0
        else if (c db).isSome then 0 else mdbNotfound) (e.pop .dbiOpen)
  /-- A database that is not there is created when that is asked for. -/
  dbiOpen_create {E : Halt → Prop} {e : Env} {w : WriteTxn} {rest : List WriteTxn}
    (hw : e.writers = w :: rest) (db : DbName) (Q : Rc → Env → Prop) :
    Ensures E (mdb.dbiOpen w.id db true) Q e ↔
      if (e.answers .dbiOpen).headD 0 ≠ 0 then Q ((e.answers .dbiOpen).headD 0) (e.pop .dbiOpen)
      else if (w.view db).isSome then Q 0 (e.pop .dbiOpen)
      else Q 0 ((e.pop .dbiOpen).setView db (some []))
  get {E : Halt → Prop} {e : Env} {t : ℕ} {k : TxnKind} {c : Contents} (hkind : e.kind t = some k)
    (hview : e.view t = some c) (db : DbName) (key : Bytes) (Q : Rc × Bytes → Env → Prop) :
    Ensures E (mdb.get t db key) Q e ↔
      Q (if (e.answers .get).headD 0 ≠ 0 then ((e.answers .get).headD 0, []) else c.get db key)
        (e.pop .get)
  put {E : Halt → Prop} {e : Env} {t : ℕ} {c : Contents} (hkind : e.kind t = some .readWrite)
    (hview : e.view t = some c) (db : DbName) (key val : Bytes) (Q : Rc → Env → Prop) :
    Ensures E (mdb.put t db key val) Q e ↔
      if (e.answers .put).headD 0 ≠ 0 then Q ((e.answers .put).headD 0) (e.pop .put)
      else match c db with
        | none => Q einval (e.pop .put)
        | some es => Q 0 ((e.pop .put).setView db (some (putEntry es key val)))
  stat {E : Halt → Prop} {e : Env} {t : ℕ} {k : TxnKind} {c : Contents} (hkind : e.kind t = some k)
    (hview : e.view t = some c) (db : DbName) (Q : Rc × ℕ → Env → Prop) :
    Ensures E (mdb.stat t db) Q e ↔
      if (e.answers .stat).headD 0 ≠ 0 then Q ((e.answers .stat).headD 0, 0) (e.pop .stat)
      else Q ((c db).elim (einval, 0) fun es => (0, es.length)) (e.pop .stat)
  cursorOpen {E : Halt → Prop} {e : Env} {t : ℕ} {k : TxnKind} {c : Contents}
    (hkind : e.kind t = some k) (hview : e.view t = some c) (db : DbName) (Q : Rc × ℕ → Env → Prop) :
    Ensures E (mdb.cursorOpen t db) Q e ↔
      if (e.answers .cursorOpen).headD 0 ≠ 0 then
        Q ((e.answers .cursorOpen).headD 0, 0) (e.pop .cursorOpen)
      else if (c db).isNone then Q (einval, 0) (e.pop .cursorOpen)
      else Q (0, e.next) { e.pop .cursorOpen with
        cursors := Function.update e.cursors e.next (some ⟨t, db, .unset⟩)
        next := e.next + 1 }
  cursorClose {E : Halt → Prop} {e : Env} {h : ℕ} {c : MdbCursor} (hc : e.cursors h = some c)
    (Q : Unit → Env → Prop) :
    Ensures E (mdb.cursorClose (some h)) Q e ↔ Q () { e with cursors := Function.update e.cursors h none }
  /-- A cursor moves in what its transaction sees. -/
  cursorGet {E : Halt → Prop} {e : Env} {h : ℕ} {c : MdbCursor} (hc : e.cursors h = some c)
    {v : Contents} (hview : e.cursorView c = some v) (op : CursorOp) (Q : Rc × Bytes × Bytes → Env → Prop) :
    Ensures E (mdb.cursorGet (some h) op) Q e ↔
      if (e.answers .cursorGet).headD 0 ≠ 0 then
        Q ((e.answers .cursorGet).headD 0, [], []) (e.pop .cursorGet)
      else
        Q (op.move ((v c.db).getD []) c.pos).2
          ((e.pop .cursorGet).setCursor h c (op.move ((v c.db).getD []) c.pos).1)
  /-- The cursor is on the entry that was put; where the others go is not said. -/
  cursorPut {e : Env} {h : ℕ} {c : MdbCursor} (hc : e.cursors h = some c) {w : WriteTxn}
    {rest : List WriteTxn} (hw : e.writers = w :: rest) (hmem : c.txn ∈ e.writers.map WriteTxn.id)
    (probe : Bytes → Ordering) (key val : Bytes) :
    ∃ f, ∀ (E : Halt → Prop) (Q : Rc → Env → Prop), Ensures E (mdb.cursorPut (some h) probe key val) Q e ↔
      if (e.answers .cursorPut).headD 0 ≠ 0 then
        Q ((e.answers .cursorPut).headD 0) (e.pop .cursorPut)
      else if key = [] ∨ maxKey < key.length then Q mdbBadValsize (e.pop .cursorPut)
      else Q 0 ((((e.pop .cursorPut).setView c.db
        (some (place probe (key, val) (overwrite key val) ((w.view c.db).getD [])))).adjust c.db f).setCursor h c
          ⟨true, false, false, lowerBound probe ((w.view c.db).getD [])⟩)
  /-- The cursor stands before the entry that followed the one it was on. -/
  cursorDel {e : Env} {h : ℕ} {c : MdbCursor} (hc : e.cursors h = some c) {w : WriteTxn}
    {rest : List WriteTxn} (hw : e.writers = w :: rest) (hmem : c.txn ∈ e.writers.map WriteTxn.id) :
    ∃ f pos, pos.deleted = true ∧ pos.index = c.pos.index ∧
      ∀ (E : Halt → Prop) (Q : Rc → Env → Prop), Ensures E (mdb.cursorDel (some h)) Q e ↔
        if (e.answers .cursorDel).headD 0 ≠ 0 then
          Q ((e.answers .cursorDel).headD 0) (e.pop .cursorDel)
        else if !c.pos.initialized then Q einval (e.pop .cursorDel)
        else if ((w.view c.db).getD []).length ≤ c.pos.index then Q mdbNotfound (e.pop .cursorDel)
        else Q 0 ((((e.pop .cursorDel).setView c.db
          (some (((w.view c.db).getD []).eraseIdx c.pos.index))).adjust c.db f).setCursor h c pos)

@[reducible] def environment : Calls where
  txnBegin := mdbTxnBegin
  txnAbort := mdbTxnAbort
  txnCommit := mdbTxnCommit
  dbiOpen := mdbDbiOpen
  get := mdbGet
  put := mdbPut
  stat := mdbStat
  cursorOpen := mdbCursorOpen
  cursorClose := mdbCursorClose
  cursorGet := mdbCursorGet
  cursorPut := mdbCursorPut
  cursorDel := mdbCursorDel

theorem documented : environment.Documented where
  txnBegin hopen := ensures_txnBegin hopen
  txnBegin_nested hw := ensures_txnBegin_nested hw
  txnAbort hw := ensures_abort_writer hw
  txnAbort_reader hkind := ensures_abort_reader hkind
  txnCommit hw := ensures_commit_writer hw
  dbiOpen hkind hview := ensures_mdbDbiOpen hkind hview
  dbiOpen_create hw := ensures_mdbDbiOpen_create hw
  get hkind hview := ensures_mdbGet hkind hview
  put hkind hview := ensures_mdbPut hkind hview
  stat hkind hview := ensures_mdbStat hkind hview
  cursorOpen hkind hview := ensures_mdbCursorOpen hkind hview
  cursorClose hc := ensures_mdbCursorClose hc
  cursorGet hc _ hview := ensures_mdbCursorGet hc hview
  cursorPut hc _ _ hw hmem probe key val := ⟨_, fun _ => ensures_mdbCursorPut hc hw hmem probe key val⟩
  cursorDel hc _ _ hw hmem := ⟨_, ⟨_, _, true, _⟩, rfl, rfl, fun _ => ensures_mdbCursorDel hc hw hmem⟩

end Documented

end LumoSql.Lmdb
