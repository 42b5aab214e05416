import LumoSql.CallParts

/-! The calls that read and write tables and metadata: what they leave alone, whatever they
are given and whichever calls of LMDB fail. -/
namespace LumoSql.Btree
open StateLogic Lmdb RowidEncoding

/-- No cursor of LMDB stands on the metadata, nor will when a level is rolled back. -/
structure MetaFree (e : Env) : Prop where
  cursors : ∀ h c, e.cursors h = some c → c.db ≠ .metadata
  shadows : ∀ t ∈ e.writers, ∀ h c, t.shadow h = some c → c.db ≠ .metadata

/-- Only what the innermost transaction sees has changed, and of the metadata only values of
the header. -/
inductive HeadOnly : List WriteTxn → List WriteTxn → Prop
  | nil : HeadOnly [] []
  | cons (t : WriteTxn) (ts : List WriteTxn) (view : Contents)
      (h : HeaderWritten (t.view .metadata) (view .metadata)) :
      HeadOnly (t :: ts) ({ t with view := view } :: ts)

theorem HeadOnly.refl (ts : List WriteTxn) : HeadOnly ts ts := by
  cases ts with
  | nil => exact .nil
  | cons t ts => exact .cons t ts t.view .refl

theorem HeadOnly.trans {ts₁ ts₂ ts₃ : List WriteTxn} (h : HeadOnly ts₁ ts₂)
    (h' : HeadOnly ts₂ ts₃) : HeadOnly ts₁ ts₃ := by
  cases h with
  | nil => exact h'
  | cons t ts view h =>
    cases h' with
    | cons _ _ view' h' => exact .cons t ts view' (h.trans h')

theorem HeadOnly.ids {ts ts' : List WriteTxn} (h : HeadOnly ts ts') :
    ts'.map WriteTxn.id = ts.map WriteTxn.id := by cases h <;> rfl

theorem HeadOnly.shadows {ts ts' : List WriteTxn} (h : HeadOnly ts ts') :
    ts'.map WriteTxn.shadow = ts.map WriteTxn.shadow := by cases h <;> rfl

/-- What the calls on tables leave of an environment. -/
structure EnvTablesOnly (e e' : Env) : Prop where
  metaFree : MetaFree e'
  disk : e'.disk = e.disk
  readonly : e'.readonly = e.readonly
  readers : e'.readers = e.readers
  next : e.next ≤ e'.next
  writers : HeadOnly e.writers e'.writers
  calm : ∀ c, e.answers c = [] → e'.answers c = []

def EnvDataFrame (e e' : Env) : Prop := MetaFree e → EnvTablesOnly e e'

theorem EnvTablesOnly.refl {e : Env} (h : MetaFree e) : EnvTablesOnly e e :=
  ⟨h, rfl, rfl, rfl, Nat.le_refl _, .refl _, fun _ h => h⟩

theorem EnvTablesOnly.trans {e₁ e₂ e₃ : Env} (h : EnvTablesOnly e₁ e₂) (h' : EnvTablesOnly e₂ e₃) :
    EnvTablesOnly e₁ e₃ :=
  ⟨h'.metaFree, h'.disk.trans h.disk, h'.readonly.trans h.readonly, h'.readers.trans h.readers,
    h.next.trans h'.next, h.writers.trans h'.writers, fun c hc => h'.calm c (h.calm c hc)⟩

instance : Frame EnvDataFrame where
  refl _ := .refl
  trans h h' hfree := (h hfree).trans (h' (h hfree).metaFree)

section Environment

theorem EnvTablesOnly.pop {e : Env} (h : MetaFree e) (c : Fallible) : EnvTablesOnly e (e.pop c) := by
  refine ⟨⟨h.cursors, h.shadows⟩, rfl, rfl, rfl, Nat.le_refl _, .refl _, fun d hd => ?_⟩
  by_cases hdc : d = c
  · rw [hdc] at hd ⊢
    rw [pop_answers_self, hd, List.tail_nil]
  · rw [pop_answers_of_ne hdc, hd]

theorem EnvTablesOnly.setView {e : Env} (h : MetaFree e) {db : DbName} (hdb : db ≠ .metadata)
    (es : Option Entries) : EnvTablesOnly e (e.setView db es) := by
  have hhead : HeadOnly e.writers (e.setView db es).writers := by
    rw [Env.setView]
    cases e.writers with
    | nil => exact .nil
    | cons t ts =>
      refine .cons t ts _ ?_
      rw [Function.update_of_ne hdb.symm]
      exact .refl
  refine ⟨⟨h.cursors, fun t ht => ?_⟩, rfl, rfl, rfl, Nat.le_refl _, hhead, fun _ h => h⟩
  have hmem : t.shadow ∈ e.writers.map WriteTxn.shadow := by
    rw [← hhead.shadows]
    exact List.mem_map_of_mem ht
  obtain ⟨t', ht', hsame⟩ := List.mem_map.mp hmem
  rw [← hsame]
  exact h.shadows t' ht'

theorem EnvTablesOnly.putHeader {e : Env} (h : MetaFree e) {t : WriteTxn} {ts : List WriteTxn}
    (hw : e.writers = t :: ts) {es : Entries} (hes : t.view .metadata = some es) {idx : ℕ}
    (hidx : idx < headerValues) (iValue : ℕ) :
    EnvTablesOnly e
      (e.setView .metadata (some (putEntry es (metaKey idx) (put4byte iValue)))) := by
  have hset := setView_writers hw .metadata (some (putEntry es (metaKey idx) (put4byte iValue)))
  refine ⟨⟨h.cursors, fun t' ht' => ?_⟩, rfl, rfl, rfl, Nat.le_refl _, ?_, fun _ h => h⟩
  · rw [hset] at ht'
    rcases List.mem_cons.mp ht' with rfl | ht'
    · exact h.shadows t (by rw [hw]; exact List.mem_cons_self)
    · exact h.shadows t' (by rw [hw]; exact List.mem_cons_of_mem _ ht')
  · rw [hset, hw]
    refine .cons t ts _ ?_
    rw [Function.update_self, hes]
    exact .put .refl idx iValue hidx

theorem EnvTablesOnly.adjust {e : Env} (h : MetaFree e) (db : DbName)
    (f : ℕ → Position → Position) : EnvTablesOnly e (e.adjust db f) := by
  refine ⟨⟨fun i c hc => ?_, h.shadows⟩, rfl, rfl, rfl, Nat.le_refl _, .refl _, fun _ h => h⟩
  rw [Env.adjust] at hc
  dsimp only at hc
  split at hc
  · cases hc
  · rename_i c' hc'
    split_ifs at hc
    · obtain rfl := Option.some.inj hc
      exact h.cursors i c' hc'
    · obtain rfl := Option.some.inj hc
      exact h.cursors i c' hc'

theorem EnvTablesOnly.setCursor {e : Env} (h : MetaFree e) (i : ℕ) {c : MdbCursor}
    (hc : c.db ≠ .metadata) (pos : Position) : EnvTablesOnly e (e.setCursor i c pos) := by
  refine ⟨⟨fun j d hd => ?_, h.shadows⟩, rfl, rfl, rfl, Nat.le_refl _, .refl _, fun _ h => h⟩
  rw [Env.setCursor] at hd
  dsimp only at hd
  by_cases hj : j = i
  · rw [hj, Function.update_self] at hd
    obtain rfl := Option.some.inj hd
    exact hc
  · rw [Function.update_of_ne hj] at hd
    exact h.cursors j d hd

theorem dataKeeps_answer (c : Fallible) : Keeps EnvDataFrame (answer c) := fun e => by
  rw [ensures_answer]
  exact fun h => .pop h c

theorem dataKeeps_withView (t : ℕ) {m : Contents → Mdb (Rc × Bytes)}
    (hm : ∀ c, Keeps EnvDataFrame (m c)) : Keeps EnvDataFrame (withView t m) := by
  refine Keeps.bind (.read _) fun e => ?_
  cases e.kind t with
  | none => exact .halt _
  | some k =>
    dsimp only
    cases e.view t with
    | none => exact .pure _
    | some c => exact hm c

theorem dataKeeps_dbiOpen (t iTable : ℕ) (create : Bool) :
    Keeps EnvDataFrame (mdbDbiOpen t (.table iTable) create) := by
  refine Keeps.bind (dataKeeps_withView t fun c => ?_) fun r => .pure _
  refine Keeps.bind (dataKeeps_answer _) fun rc => .ite (.pure _) (.ite (.pure _) (.ite (.pure _) ?_))
  refine Keeps.bind (.read _) fun e => .ite (.pure _) ?_
  exact Keeps.bind (.modify fun e h => .setView h (by simp) _) fun _ => .pure _

theorem dataKeeps_get (t : ℕ) (db : DbName) (key : Bytes) :
    Keeps EnvDataFrame (mdbGet t db key) := by
  refine dataKeeps_withView t fun c => Keeps.bind (dataKeeps_answer _) fun rc => .ite (.pure _) ?_
  cases c db with
  | none => exact .pure _
  | some es =>
    dsimp only
    cases SortedEntries.lookup (byteProbe key) es with
    | none => exact .pure _
    | some e => exact .pure _

theorem dataKeeps_putHeader (t : ℕ) {idx : ℕ} (hidx : idx < headerValues) (iValue : ℕ) :
    Keeps EnvDataFrame (mdbPut t .metadata (metaKey idx) (put4byte iValue)) := by
  intro e
  rw [mdbPut, ensures_bind, withView, ensures_bind, ensures_read, id_eq]
  cases hkind : e.kind t with
  | none => trivial
  | some k =>
    dsimp only
    cases hview : e.view t with
    | none => exact fun h => .refl h
    | some c =>
      dsimp only
      rw [ensures_bind, ensures_read, id_eq, hkind, ensures_ite]
      by_cases hk : some k ≠ some TxnKind.readWrite
      · rw [if_pos hk]
        exact fun h => .refl h
      have hwr : e.kind t = some .readWrite := hkind.trans (not_not.mp hk)
      obtain ⟨w, rest, hw, -, rfl⟩ := writer_of_view hwr hview
      rw [if_neg hk, ensures_bind, ensures_answer, ensures_ite]
      split_ifs
      · exact fun h => .pop h _
      · cases hes : w.view .metadata with
        | none => exact fun h => .pop h _
        | some es =>
          have hwpop : (e.pop .put).writers = w :: rest := hw
          exact fun h => (EnvTablesOnly.pop h .put).trans
            (.putHeader (EnvTablesOnly.pop h .put).metaFree hwpop hes hidx iValue)

theorem dataKeeps_drop (t iTable : ℕ) (del : Bool) :
    Keeps EnvDataFrame (mdbDrop t (.table iTable) del) := by
  refine Keeps.bind (dataKeeps_withView t fun c => ?_) fun r => .pure _
  refine Keeps.bind (.read _) fun e => .ite (.pure _) ?_
  refine Keeps.bind (dataKeeps_answer _) fun rc => .ite (.pure _) (.ite (.pure _) ?_)
  refine Keeps.bind (.modify fun e h => ?_) fun _ => .pure _
  have hdb : DbName.table iTable ≠ .metadata := by simp
  have hset := EnvTablesOnly.setView h hdb
    (if del then none else some [])
  exact hset.trans (.adjust hset.metaFree _ _)

theorem dataKeeps_stat (t : ℕ) (db : DbName) : Keeps EnvDataFrame (mdbStat t db) := by
  refine Keeps.bind (.read _) fun e => ?_
  cases e.kind t with
  | none => exact .halt _
  | some k =>
    dsimp only
    cases e.view t with
    | none => exact .pure _
    | some c =>
      refine Keeps.bind (dataKeeps_answer _) fun rc => .ite (.pure _) ?_
      cases c db with
      | none => exact .pure _
      | some es => exact .pure _

theorem dataKeeps_cursorOpen (t iTable : ℕ) :
    Keeps EnvDataFrame (mdbCursorOpen t (.table iTable)) := by
  refine Keeps.bind (.read _) fun e => ?_
  cases e.kind t with
  | none => exact .halt _
  | some k =>
    dsimp only
    cases e.view t with
    | none => exact .pure _
    | some c =>
      refine Keeps.bind (dataKeeps_answer _) fun rc => .ite (.pure _) (.ite (.pure _) ?_)
      refine Keeps.bind (.modify fun e h => ?_) fun _ => .pure _
      have hset := EnvTablesOnly.setCursor h e.next (c := ⟨t, .table iTable, .unset⟩)
        (by simp) .unset
      exact ⟨⟨hset.metaFree.cursors, h.shadows⟩, rfl, rfl, rfl, Nat.le_succ _, .refl _,
        fun _ h => h⟩

theorem dataKeeps_cursorClose (h : Option ℕ) : Keeps EnvDataFrame (mdbCursorClose h) := by
  cases h with
  | none => exact .pure _
  | some h =>
    refine Keeps.bind (.read _) fun e => ?_
    cases e.cursors h with
    | none => exact .halt _
    | some c =>
      refine .modify fun e hfree => ?_
      refine ⟨⟨fun i d hd => ?_, hfree.shadows⟩, rfl, rfl, rfl, Nat.le_refl _, .refl _, fun _ h => h⟩
      dsimp only at hd
      by_cases hi : i = h
      · rw [hi, Function.update_self] at hd
        cases hd
      · rw [Function.update_of_ne hi] at hd
        exact hfree.cursors i d hd

theorem dataKeeps_cursorGet (h : Option ℕ) (op : CursorOp) :
    Keeps EnvDataFrame (mdbCursorGet h op) := by
  cases h with
  | none => exact .pure _
  | some h =>
    intro e
    rw [mdbCursorGet, ensures_bind, ensures_read, id_eq]
    cases hc : e.cursors h with
    | none => trivial
    | some c =>
      dsimp only
      cases e.cursorView c with
      | none => trivial
      | some v =>
        dsimp only
        rw [ensures_bind, ensures_answer]
        refine .ite (fun _ hfree => .pop hfree _) fun _ hfree => ?_
        have hpop := EnvTablesOnly.pop hfree .cursorGet
        exact hpop.trans (.setCursor hpop.metaFree h (hfree.cursors h c hc) _)

/-- Writing with a cursor changes its table and where the cursors on it stand. -/
theorem EnvTablesOnly.write {e : Env} (hfree : MetaFree e) {h : ℕ} {c : MdbCursor}
    (hc : e.cursors h = some c) (k : Fallible) (es : Option Entries)
    (f : ℕ → Position → Position) (pos : Position) :
    EnvTablesOnly e ((((e.pop k).setView c.db es).adjust c.db f).setCursor h c pos) := by
  have hdb := hfree.cursors h c hc
  have hpop := EnvTablesOnly.pop hfree k
  have hset := hpop.trans (.setView hpop.metaFree hdb es)
  have hadj := hset.trans (.adjust hset.metaFree c.db f)
  exact hadj.trans (.setCursor hadj.metaFree h hdb pos)

theorem dataKeeps_cursorPut (h : Option ℕ) (probe : Bytes → Ordering) (key val : Bytes) :
    Keeps EnvDataFrame (mdbCursorPut h probe key val) := by
  cases h with
  | none => exact .pure _
  | some h =>
    intro e
    rw [mdbCursorPut, ensures_bind, ensures_read, id_eq]
    cases hc : e.cursors h with
    | none => trivial
    | some c =>
      dsimp only
      refine .ite (fun _ hfree => .refl hfree) fun _ => ?_
      cases e.cursorView c with
      | none => trivial
      | some v =>
        dsimp only
        rw [ensures_bind, ensures_answer]
        refine .ite (fun _ hfree => .pop hfree _) fun _ => ?_
        exact .ite (fun _ hfree => .pop hfree _) fun _ hfree => .write hfree hc _ _ _ _

theorem dataKeeps_cursorDel (h : Option ℕ) : Keeps EnvDataFrame (mdbCursorDel h) := by
  cases h with
  | none => exact .halt _
  | some h =>
    intro e
    rw [mdbCursorDel, ensures_bind, ensures_read, id_eq]
    cases hc : e.cursors h with
    | none => trivial
    | some c =>
      dsimp only
      refine .ite (fun _ hfree => .refl hfree) fun _ => ?_
      cases e.cursorView c with
      | none => trivial
      | some v =>
        dsimp only
        rw [ensures_bind, ensures_answer]
        refine .ite (fun _ hfree => .pop hfree _) fun _ => ?_
        refine .ite (fun _ hfree => .pop hfree _) fun _ => ?_
        exact .ite (fun _ hfree => .pop hfree _) fun _ hfree => .write hfree hc _ _ _ _

end Environment

/-- What the calls on tables leave of a connection. -/
structure TablesOnly (w w' : World) : Prop where
  build : w'.fixedRowid = w.fixedRowid
  p : w'.p = { w.p with firstCursor := w'.p.firstCursor, lastCursor := w'.p.lastCursor }
  env : EnvTablesOnly w.env w'.env

def DataFrame (w w' : World) : Prop := MetaFree w.env → TablesOnly w w'

theorem TablesOnly.refl {w : World} (h : MetaFree w.env) : TablesOnly w w := ⟨rfl, rfl, .refl h⟩

theorem TablesOnly.trans {w₁ w₂ w₃ : World} (h : TablesOnly w₁ w₂) (h' : TablesOnly w₂ w₃) :
    TablesOnly w₁ w₃ := ⟨h'.build.trans h.build, by rw [h'.p, h.p], h.env.trans h'.env⟩

instance : Frame DataFrame where
  refl _ := .refl
  trans h h' hfree := (h hfree).trans (h' (h hfree).env.metaFree)

section Calls

theorem TableOp.keeps {alters : Prop} {α : Type} {m : Mdb α} (h : TableOp alters m) : Keeps EnvDataFrame m := by
  cases h with
  | answer c => exact dataKeeps_answer c
  | dbiOpen t iTable hc => exact dataKeeps_dbiOpen t iTable _
  | get t db key => exact dataKeeps_get t db key
  | putHeader t hidx hlargest iValue => exact dataKeeps_putHeader t hidx iValue
  | drop t iTable del => exact dataKeeps_drop t iTable del
  | stat t db => exact dataKeeps_stat t db
  | cursorGet h op => exact dataKeeps_cursorGet h op
  | cursorPut ha h probe key val => exact dataKeeps_cursorPut h probe key val
  | cursorDel h => exact dataKeeps_cursorDel h

theorem DataOp.keeps {alters : Prop} {α : Type} {m : Mdb α} (h : DataOp alters m) : Keeps EnvDataFrame m := by
  cases h with
  | table h => exact h.keeps
  | cursorOpen t iTable => exact dataKeeps_cursorOpen t iTable
  | cursorClose h => exact dataKeeps_cursorClose h

theorem dataKeeps_lmdb {alters : Prop} {α : Type} {m : Mdb α} (h : DataOp alters m) : Keeps DataFrame (lmdb m) :=
  Keeps.zoom h.keeps fun _ _ he hfree => ⟨rfl, rfl, he hfree⟩

theorem dataKeeps_setCur (i : ℕ) (f : BtCursor → BtCursor) : Keeps DataFrame (setCur i f) :=
  .modify fun _ hfree => ⟨rfl, rfl, .refl hfree⟩

theorem MovePart.keeps {α : Type} {m : Call α} (h : MovePart True α m) : Keeps DataFrame m := by
  cases h with
  | lmdb h => exact dataKeeps_lmdb h
  | setCur i f hf => exact dataKeeps_setCur i f
  | openInto i t iTable f hf =>
    refine Keeps.bind (dataKeeps_lmdb (.cursorOpen _ _ : DataOp True _)) fun r => .ite (.pure _) ?_
    exact Keeps.bind (dataKeeps_setCur _ _) fun _ => .pure _

/-- What the parts of the calls on tables keep. -/
theorem DataPart.keeps {α : Type} {m : Call α} (h : DataPart True α m) : Keeps DataFrame m := by
  cases h with
  | move h => exact h.keeps
  | setCur i f hf => exact dataKeeps_setCur i f
  | setList f hf => exact .modify fun w hfree => ⟨rfl, hf w.p, .refl hfree⟩
  | newCursor =>
    refine Keeps.bind (.read _) fun i => ?_
    exact Keeps.bind (.modify fun _ hfree => ⟨rfl, rfl, .refl hfree⟩) fun _ => .pure _

theorem dataKeeps_built {α : Type} {m : Call α} (h : Built (DataPart True) m) : Keeps DataFrame m := h.keeps DataPart.keeps

end Calls

/-- Closing a cursor of a database that outlives it. -/
theorem closeCursor_data {w : World} (hsingle : w.p.single = false) (hfree : MetaFree w.env)
    (i : ℕ) : Ensures (fun _ => True) (sqlite3BtreeCloseCursor i) (fun _ w' => TablesOnly w w') w := by
  rw [sqlite3BtreeCloseCursor, ensures_bind, ensures_getCur]
  -- from where the LMDB cursor is closed
  have hunlink : ∀ w₁, TablesOnly w w₁ → Ensures (fun _ => True) (do
      setCur i fun c => { c with savedKey := none }
      if (w.curs i).pBtree then do
        unlinkCursor i
        setCur i fun c => { c with pBtree := false }
        let p ← getP
        if p.single then do
          let _ ← sqlite3BtreeClose
          pure sqliteOk
        else pure sqliteOk
      else pure sqliteOk) (fun _ w' => TablesOnly w w') w₁ := by
    intro w₁ h₁
    rw [ensures_bind, ensures_setCur]
    refine .ite (fun _ => ?_) fun _ => ⟨h₁.build, h₁.p, h₁.env⟩
    have hkeep : Keeps DataFrame (do
        unlinkCursor i
        setCur i fun c => { c with pBtree := false }) :=
      dataKeeps_built (Built.bind (built_unlinkCursor i) fun _ => .part (.setCur _ _ fun _ => ⟨rfl, .inl rfl⟩))
    have hrun := hkeep { w₁ with
      curs := Function.update w₁.curs i { w₁.curs i with savedKey := none } }
    rw [ensures_bind] at hrun ⊢
    refine hrun.imp fun _ w₂ h₂ => ?_
    rw [ensures_bind]
    refine Ensures.imp h₂ fun _ w₃ h₃ => ?_
    have hset : TablesOnly w { w₁ with
        curs := Function.update w₁.curs i { w₁.curs i with savedKey := none } } :=
      ⟨h₁.build, h₁.p, h₁.env⟩
    have h₄ : TablesOnly w w₃ := hset.trans (h₃ h₁.env.metaFree)
    have hsingle₃ : w₃.p.single = false := by
      rw [h₄.p]
      exact hsingle
    rw [ensures_bind, ensures_getP, hsingle₃]
    exact h₄
  refine .ite (fun _ => ?_) fun _ => hunlink w (.refl hfree)
  have hkeep : Keeps DataFrame (do
      lmdb (mdbCursorClose (w.curs i).cursor)
      setCur i fun c => { c with cursor := none }) :=
    dataKeeps_built (Built.bind (.part (.move (.lmdb (.cursorClose _)))) fun _ =>
      .part (.setCur _ _ fun _ => ⟨rfl, .inr rfl⟩))
  have hrun := hkeep w
  rw [ensures_bind] at hrun ⊢
  refine hrun.imp fun _ w₁ h₁ => ?_
  rw [ensures_bind]
  exact Ensures.imp h₁ fun _ w₂ h₂ => hunlink w₂ (h₂ hfree)

/-- The calls on tables, cursors and metadata. -/
inductive DataCall
  | cursorZero
  | cursor (iTable : ℕ) (wrFlag : Bool) (keyInfo : Option KeyInfo) (i : ℕ)
  | closeCursor (i : ℕ)
  | first (i : ℕ) | last (i : ℕ) | next (i : ℕ) | previous (i : ℕ) | eof (i : ℕ)
  | tableMoveto (i : ℕ) (intKey : ℤ)
  | indexMoveto (i : ℕ) (idxKey : Bytes → Ordering)
  | cursorHasMoved (i : ℕ)
  | insert (i : ℕ) (pX : Payload) (preformat : Bool)
  | delete (i : ℕ)
  | transferRow (pDest pSrc : ℕ) (iKey : ℤ)
  | integerKey (i : ℕ) | payloadFetch (i : ℕ) | payloadSize (i : ℕ) | count (i : ℕ)
  | getMeta (idx : ℕ)
  | updateMeta (idx iValue : ℕ)
  | createTable
  | dropTable (iTable : ℕ)
  | clearTable (iTable : ℕ) (pnChange : Bool)

def ignore {α : Type} (m : Call α) : Call Unit := do
  let _ ← m
  pure ()

def DataCall.run : DataCall → Call Unit
  | cursorZero => ignore newCursor
  | cursor iTable wrFlag keyInfo i => ignore (sqlite3BtreeCursor iTable wrFlag keyInfo i)
  | closeCursor i => ignore (sqlite3BtreeCloseCursor i)
  | first i => ignore (sqlite3BtreeFirst i)
  | last i => ignore (sqlite3BtreeLast i)
  | next i => ignore (sqlite3BtreeNext i)
  | previous i => ignore (sqlite3BtreePrevious i)
  | eof i => ignore (sqlite3BtreeEof i)
  | tableMoveto i intKey => ignore (sqlite3BtreeTableMoveto i intKey)
  | indexMoveto i idxKey => ignore (sqlite3BtreeIndexMoveto i idxKey)
  | cursorHasMoved i => ignore (sqlite3BtreeCursorHasMoved i)
  | insert i pX preformat => ignore (sqlite3BtreeInsert i pX preformat)
  | delete i => ignore (sqlite3BtreeDelete i)
  | transferRow pDest pSrc iKey => ignore (sqlite3BtreeTransferRow pDest pSrc iKey)
  | integerKey i => ignore (sqlite3BtreeIntegerKey i)
  | payloadFetch i => ignore (sqlite3BtreePayloadFetch i)
  | payloadSize i => ignore (sqlite3BtreePayloadSize i)
  | count i => ignore (sqlite3BtreeCount i)
  | getMeta idx => ignore (sqlite3BtreeGetMeta idx)
  | updateMeta idx iValue => ignore (sqlite3BtreeUpdateMeta idx iValue)
  | createTable => ignore sqlite3BtreeCreateTable
  | dropTable iTable => ignore (sqlite3BtreeDropTable iTable)
  | clearTable iTable pnChange => ignore (sqlite3BtreeClearTable iTable pnChange)

/-- `sqlite3BtreeUpdateMeta` is for the values of the header; with `BTREE_SINGLE` closing a
cursor closes the database. -/
def DataCall.Allowed (call : DataCall) (w : World) : Prop :=
  match call with
  | closeCursor _ => w.p.single = false
  | updateMeta idx _ => idx < headerValues
  | _ => True

theorem built_ignore {P : (α : Type) → Call α → Prop} {α : Type} {m : Call α} (h : Built P m) :
    Built P (ignore m) := Built.bind h fun _ => .pure _

/-- The calls that neither open nor close a cursor. -/
def DataCall.moves : DataCall → Bool
  | cursorZero | cursor _ _ _ _ | closeCursor _ => false
  | _ => true

/-- The calls that put rows, create tables or change the number of the last one. -/
def DataCall.Alters : DataCall → Prop
  | insert _ _ _ | createTable => True
  | updateMeta idx _ => idx = btreeLargestRootPage
  | _ => False

theorem DataCall.built_of_alters {alters : Prop} {call : DataCall} {w : World} (hmoves : call.moves = true)
    (hallowed : call.Allowed w) (ha : call.Alters → alters) : Built (UsePart alters) call.run := by
  cases call with
  | cursorZero | cursor | closeCursor => cases hmoves
  | first i => exact built_ignore (built_cursorMove _ _ _)
  | last i => exact built_ignore (built_cursorMove _ _ _)
  | next i => exact built_ignore (built_cursorStep _ _)
  | previous i => exact built_ignore (built_cursorStep _ _)
  | eof i => exact built_ignore (Built.bind (.read _) fun c => .pure _)
  | tableMoveto i intKey => exact built_ignore (built_tableMoveto _ _)
  | indexMoveto i idxKey => exact built_ignore (built_indexMoveto _ _)
  | cursorHasMoved i => exact built_ignore (built_cursorHasMoved _)
  | insert i pX preformat => exact built_ignore (built_insert (ha trivial) _ _ _)
  | delete i => exact built_ignore (built_delete _)
  | transferRow pDest pSrc iKey =>
    exact built_ignore (Built.bind (.part (.setCur _ _ fun _ => rfl)) fun _ => .pure _)
  | integerKey i => exact built_ignore (built_integerKey _)
  | payloadFetch i => exact built_ignore (built_payloadFetch _)
  | payloadSize i => exact built_ignore (Built.bind (built_payloadFetch _) fun payload => .pure _)
  | count i => exact built_ignore (built_count _)
  | getMeta idx => exact built_ignore (built_getMeta _)
  | updateMeta idx iValue => exact built_ignore (built_updateMeta hallowed ha iValue)
  | createTable => exact built_ignore (built_createTable (ha trivial))
  | dropTable iTable => exact built_ignore (built_dropTable _)
  | clearTable iTable pnChange => exact built_ignore (built_clearTable _ _)

theorem DataCall.built_of_moves {call : DataCall} {w : World} (hmoves : call.moves = true) (hallowed : call.Allowed w) :
    Built (UsePart True) call.run := DataCall.built_of_alters hmoves hallowed fun _ => trivial

theorem dataCall_spec {w : World} (hfree : MetaFree w.env) {call : DataCall}
    (hallowed : call.Allowed w) :
    Ensures (fun _ => True) call.run (fun _ w' => TablesOnly w w') w := by
  cases hmoves : call.moves with
  | true =>
    have hbuilt : Built (DataPart True) call.run := ((DataCall.built_of_moves hmoves hallowed).trans UsePart.built).mono .move
    exact (dataKeeps_built hbuilt w).imp fun _ _ h => h hfree
  | false =>
    cases call with
    | cursorZero => exact (dataKeeps_built (built_ignore (.part .newCursor)) w).imp fun _ _ h => h hfree
    | cursor iTable wrFlag keyInfo i =>
      exact (dataKeeps_built (built_ignore (built_cursor _ _ _ _)) w).imp fun _ _ h => h hfree
    | closeCursor i =>
      rw [DataCall.run, ignore, ensures_bind]
      exact closeCursor_data hallowed hfree i
    | _ => cases hmoves

end LumoSql.Btree
