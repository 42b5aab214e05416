import LumoSql.CountScan
import LumoSql.IndexInserts

/-! Insertions into rowid tables: whatever the table contains, its rows as the cursor calls read
them are the ones before, with the new payload under the rowid that was inserted. -/
namespace LumoSql.Btree
open StateLogic Lmdb RowidEncoding SortedEntries

def IsI64 (k : ℤ) : Prop := -2 ^ 63 ≤ k ∧ k < 2 ^ 63

/-- What a rowid table has under each rowid. -/
def rowsOf (fixedRowid : Bool) (es : Entries) (k : ℤ) : Option Bytes :=
  (lookup (rowidProbe fixedRowid (put8 fixedRowid (toU64 k))) es).map Prod.snd

/-- A seek, then the rowid, the payload and its size. -/
def seekRow (i : ℕ) (intKey : ℤ) : Call ((Rc × ℤ) × ℤ × Bytes × ℕ) := do
  let r ← sqlite3BtreeTableMoveto i intKey
  let key ← sqlite3BtreeIntegerKey i
  let payload ← sqlite3BtreePayloadFetch i
  let size ← sqlite3BtreePayloadSize i
  pure (r, key, payload, size)

/-- Seeks with cursor `i` find these rows and no others. -/
def ReadsRows (w : World) (i : ℕ) (rows : ℤ → Option Bytes) : Prop :=
  ∀ k, IsI64 k → Ensures (fun _ => False) (seekRow i k) (fun r _ => r.1.1 = sqliteOk ∧
    (∀ data, rows k = some data → r = ((sqliteOk, 0), k, data, data.length)) ∧
    (rows k = none → r.1.2 ≠ 0)) w

section Rows

variable {fixedRowid : Bool} {es : Entries} {k : ℤ} {data : Bytes}

theorem toU64_injective {j k : ℤ} (hj : IsI64 j) (hk : IsI64 k) (h : toU64 j = toU64 k) : j = k := by
  rw [← toI64_toU64 hj.1 hj.2, h, toI64_toU64 hk.1 hk.2]

theorem get8_overwrite (key : ℕ) (hkey : key < 2 ^ 64) (data : Bytes) (o : Bytes × Bytes)
    (ho : get8 fixedRowid o.1 = key) : get8 fixedRowid (overwrite (put8 fixedRowid key) data o).1 = key := by
  rw [overwrite]
  by_cases hlen : o.2.length = data.length
  · simpa [hlen] using ho
  · simpa [hlen] using get8_put8 fixedRowid hkey

/-- The entries after a row was put. -/
def putRow (fixedRowid : Bool) (key : ℤ) (data : Bytes) (es : Entries) : Entries :=
  place (rowidProbe fixedRowid (put8 fixedRowid (toU64 key))) (put8 fixedRowid (toU64 key), data)
    (overwrite (put8 fixedRowid (toU64 key)) data) es

theorem RowTable.putRow (h : RowTable fixedRowid es) (key : ℤ) (data : Bytes) :
    RowTable fixedRowid (putRow fixedRowid key data es) := h.place (toU64_lt key) data

theorem length_putRow (fixedRowid : Bool) (key : ℤ) (data : Bytes) (es : Entries) :
    (putRow fixedRowid key data es).length = es.length + if rowsOf fixedRowid es key = none then 1 else 0 := by
  rw [Btree.putRow, length_place]
  simp [rowsOf]

theorem RowTable.rowsOf_putRow (h : RowTable fixedRowid es) {key : ℤ} (hkey : IsI64 key) (data : Bytes)
    (hk : IsI64 k) :
    rowsOf fixedRowid (Btree.putRow fixedRowid key data es) k = Function.update (rowsOf fixedRowid es) key (some data) k := by
  have hlt := toU64_lt key
  have hrank := get8_put8 fixedRowid hlt
  have hmerge : ∀ o : Bytes × Bytes, get8 fixedRowid o.1 = toU64 key →
      get8 fixedRowid (overwrite (put8 fixedRowid (toU64 key)) data o).1 = toU64 key := get8_overwrite _ hlt data
  have hplaced := h.place hlt data
  rw [rowsOf, Btree.putRow]
  by_cases hsame : k = key
  · subst hsame
    rw [Function.update_self, h.ascending.lookup_place (h.probes hlt) hrank hmerge (hplaced.probes hlt)]
    cases lookup (rowidProbe fixedRowid (put8 fixedRowid (toU64 k))) es <;> rfl
  · have hne : toU64 k ≠ toU64 key := fun heq => hsame (toU64_injective hk hkey heq)
    rw [Function.update_of_ne hsame, rowsOf, h.ascending.lookup_place_of_ne (h.probes hlt) hrank hmerge hne
      (h.probes (toU64_lt k)) (hplaced.probes (toU64_lt k))]

end Rows

section Reading

variable {E : Halt → Prop} {w : World} {i h : ℕ} {c : MdbCursor} {es : Entries}

/-- An LMDB cursor is on an entry. -/
def OnRow (c : MdbCursor) (es : Entries) (e : Bytes × Bytes) : Prop :=
  c.pos.initialized = true ∧ es[c.pos.index]? = some e

/-- Cursor `i` reads by the same handle, wherever it is now. -/
structure ReadsOn (w w' : World) (i h : ℕ) (c : MdbCursor) (es : Entries) : Prop where
  scanning : Scanning w' i h c es
  build : w'.fixedRowid = w.fixedRowid
  keyInfo : (w'.curs i).keyInfo = (w.curs i).keyInfo

theorem ReadsOn.trans {w₁ w₂ : World} {c₁ c₂ : MdbCursor} (h₁ : ReadsOn w w₁ i h c₁ es)
    (h₂ : ReadsOn w₁ w₂ i h c₂ es) : ReadsOn w w₂ i h c₂ es :=
  ⟨h₂.scanning, h₂.build.trans h₁.build, h₂.keyInfo.trans h₁.keyInfo⟩

theorem Scanning.get (hc : Scanning w i h c es) (op : CursorOp) {Q : Rc × Bytes × Bytes → World → Prop}
    (hQ : ∀ w', ReadsOn w w' i h { c with pos := (op.move es c.pos).1 } es → Q (op.move es c.pos).2 w') :
    Ensures E (lmdb (mdbCursorGet (some h) op)) Q w := by
  rw [hc.reads.ensures_get, hc.calm.head, if_neg (not_not.mpr rfl)]
  apply hQ
  refine ⟨⟨hc.reads.move _, hc.untripped, hc.unsaved, ?_⟩, rfl, rfl⟩
  rw [World.moveCursor, hc.calm.pop]
  exact hc.calm

/-- The entry under the cursor; the cursor stays on it. -/
theorem Scanning.current (hc : Scanning w i h c es) {Q : Rc × Bytes × Bytes → World → Prop}
    (hQ : ∀ g w' c', ReadsOn w w' i h c' es → (∀ e, OnRow c es e → g = (0, e) ∧ OnRow c' es e) → Q g w') :
    Ensures E (lmdb (mdbCursorGet (some h) .getCurrent)) Q w := by
  refine hc.get .getCurrent fun w' hw' => hQ _ w' _ hw' ?_
  rintro e ⟨hinit, he⟩
  have hmove : CursorOp.getCurrent.move es c.pos = ({ c.pos with deleted := false }, 0, e) := by
    simp only [CursorOp.move, moveCurrent, hinit, Bool.not_true, Bool.false_eq_true, if_false, he]
  rw [hmove]
  exact ⟨rfl, hinit, he⟩

theorem Scanning.integerKey (hc : Scanning w i h c es) :
    Ensures E (sqlite3BtreeIntegerKey i) (fun key w' => ∃ c', ReadsOn w w' i h c' es ∧
      ∀ e, OnRow c es e → key = rowidOf w.fixedRowid e ∧ OnRow c' es e) w := by
  rw [sqlite3BtreeIntegerKey, ensures_bind, ensures_getCur, ensures_bind, ensures_build, hc.unsaved,
    hc.reads.handle, ensures_bind]
  refine hc.current fun g w' c' hw' hon => ⟨c', hw', fun e he => ?_⟩
  obtain ⟨rfl, hc'⟩ := hon e he
  rw [if_neg (not_not.mpr rfl), rowidOf]
  exact ⟨rfl, hc'⟩

theorem Scanning.payloadFetch (hc : Scanning w i h c es) (htable : (w.curs i).keyInfo = none) :
    Ensures E (sqlite3BtreePayloadFetch i) (fun payload w' => ∃ c', ReadsOn w w' i h c' es ∧
      ∀ e, OnRow c es e → payload = e.2 ∧ OnRow c' es e) w := by
  rw [sqlite3BtreePayloadFetch, ensures_bind, ensures_getCur, htable]
  dsimp only
  rw [ensures_bind, restoreCursor, ensures_bind, ensures_getCur, if_neg (not_not.mpr hc.untripped), hc.unsaved,
    ensures_pure, if_neg (not_not.mpr rfl), ensures_bind, ensures_getCur, hc.reads.handle, ensures_bind]
  refine hc.current fun g w' c' hw' hon => ⟨c', hw', fun e he => ?_⟩
  obtain ⟨rfl, hc'⟩ := hon e he
  exact ⟨rfl, hc'⟩

theorem Scanning.payloadSize (hc : Scanning w i h c es) (htable : (w.curs i).keyInfo = none) :
    Ensures E (sqlite3BtreePayloadSize i) (fun size w' => ∃ c', ReadsOn w w' i h c' es ∧
      ∀ e, OnRow c es e → size = e.2.length ∧ OnRow c' es e) w := by
  rw [sqlite3BtreePayloadSize, ensures_bind]
  refine (hc.payloadFetch htable).imp fun payload w' hres => ?_
  obtain ⟨c', hw', hon⟩ := hres
  refine ⟨c', hw', fun e he => ?_⟩
  obtain ⟨rfl, hc'⟩ := hon e he
  exact ⟨rfl, hc'⟩

/-- A seek of a cursor that has been restored: on the entry found, or at the end. -/
theorem Scanning.seekFrom (hc : Scanning w i h c es) (probe : Bytes → Ordering) (exact : Bytes → Bool) :
    Ensures E (seekFrom i probe exact) (fun r w' => r.1 = sqliteOk ∧ ∃ c', ReadsOn w w' i h c' es ∧
      (∀ e, es[lowerBound probe es]? = some e → r.2 = (if exact e.1 then 0 else 1) ∧ OnRow c' es e) ∧
      (es[lowerBound probe es]? = none → r.2 = -1)) w := by
  have hflag : ReadsOn w { w with curs := Function.update w.curs i { w.curs i with atEof := false } } i h c es := by
    refine ⟨⟨hc.reads.setCur (f := fun d => { d with atEof := false }) i fun _ => rfl, ?_, ?_, hc.calm⟩, rfl, ?_⟩
    · simpa using hc.untripped
    · simpa using hc.unsaved
    · simp
  rw [Btree.seekFrom, ensures_bind, ensures_setCur, ensures_bind, ensures_getCur, hflag.scanning.reads.handle,
    ensures_bind]
  refine hflag.scanning.get _ fun w' hw' => ?_
  cases he : es[lowerBound probe es]? with
  | some e =>
    have hmove : (CursorOp.setRange probe).move es c.pos =
        (⟨true, false, false, lowerBound probe es⟩, 0, e) := by
      rw [CursorOp.move, moveSetRange, land, he]
    rw [hmove] at hw' ⊢
    rw [if_pos rfl, ensures_pure]
    refine ⟨rfl, _, hflag.trans hw', ?_, fun hnone => by cases hnone⟩
    rintro e' ⟨rfl⟩
    exact ⟨rfl, rfl, he⟩
  | none =>
    have hmove : ((CursorOp.setRange probe).move es c.pos).2.1 = mdbNotfound := by
      rw [CursorOp.move, moveSetRange, land, he]
    rw [hmove, if_neg (by decide), if_neg (not_not.mpr rfl), ensures_bind]
    refine hw'.scanning.get .first fun w₂ hw₂ => ?_
    rw [ensures_pure]
    refine ⟨rfl, _, (hflag.trans hw').trans hw₂, fun e hsome => (by cases hsome), fun _ => rfl⟩

/-- Whatever is in a table, its rows are found by a cursor that can be restored. -/
theorem readsRows_of_restore (hrestore : Ensures (fun _ => False) (restoreCursor i false)
      (fun rc w' => rc = sqliteOk ∧ w'.fixedRowid = w.fixedRowid ∧ (w'.curs i).keyInfo = (w.curs i).keyInfo ∧
        ∃ h c, Scanning w' i h c es) w) (htable : (w.curs i).keyInfo = none) (hrows : RowTable w.fixedRowid es) :
    ReadsRows w i (rowsOf w.fixedRowid es) := by
  intro k hk
  have hk64 := toU64_lt k
  have hprobes := hrows.probes hk64
  rw [seekRow, ensures_bind]
  refine (Seek.rowid k).ensures_run (hrestore.imp fun rc w₁ hrc => ?_)
  obtain ⟨rfl, hbuild, hinfo, h, c, hc⟩ := hrc
  rw [if_neg (not_not.mpr rfl)]
  refine (hc.seekFrom _ _).imp fun r w₂ hr => ?_
  obtain ⟨hok, c₂, hw₂, hfound, hend⟩ := hr
  rw [ensures_bind]
  refine hw₂.scanning.integerKey.imp fun key w₃ hkey => ?_
  obtain ⟨c₃, hw₃, hkey⟩ := hkey
  have htable₃ : (w₃.curs i).keyInfo = none := by rw [hw₃.keyInfo, hw₂.keyInfo, hinfo, htable]
  rw [ensures_bind]
  refine (hw₃.scanning.payloadFetch htable₃).imp fun payload w₄ hpayload => ?_
  obtain ⟨c₄, hw₄, hpayload⟩ := hpayload
  rw [ensures_bind]
  refine (hw₄.scanning.payloadSize (hw₄.keyInfo.trans htable₃)).imp fun size w₅ hsize => ?_
  obtain ⟨c₅, -, hsize⟩ := hsize
  rw [ensures_pure]
  have hfits : (Seek.rowid k).Fits w.fixedRowid es := hrows
  rw [hbuild] at hfound hend
  refine ⟨hok, fun data hdata => ?_, fun hnone => ?_⟩
  · obtain ⟨e, he, rfl⟩ := Option.map_eq_some_iff.mp hdata
    obtain ⟨hat, heq⟩ := mem_of_lookup he
    have hmem := List.mem_of_getElem? hat
    obtain ⟨hres, hon⟩ := hfound e hat
    rw [if_pos ((hfits.exact_iff hmem).mpr heq)] at hres
    obtain ⟨hkey, hon⟩ := hkey e hon
    obtain ⟨hpayload, hon⟩ := hpayload e hon
    have hrowid : rowidOf w₂.fixedRowid e = k := by
      rw [hw₂.build, hbuild, rowidOf, ← (hprobes.eq_iff hmem).mp heq, toI64_toU64 hk.1 hk.2]
    rw [hkey, hrowid, hpayload, (hsize e hon).1, ← hok, ← hres]
  · have hlookup : lookup (rowidProbe w.fixedRowid (put8 w.fixedRowid (toU64 k))) es = none :=
      Option.map_eq_none_iff.mp hnone
    cases he : es[lowerBound (rowidProbe w.fixedRowid (put8 w.fixedRowid (toU64 k))) es]? with
    | none =>
      rw [hend he]
      decide
    | some e =>
      have hmem := List.mem_of_getElem? he
      have hexact : (Seek.rowid k).exact w.fixedRowid e.1 ≠ true := by
        rw [ne_eq, hfits.exact_iff hmem, Seek.probe, hprobes.eq_iff hmem]
        exact fun heq => hrows.ascending.lookup_eq_none hprobes hlookup hmem heq.symm
      rw [(hfound e he).1, if_neg hexact]
      decide

theorem Scannable.readsRows (hs : Scannable w i es) (htable : (w.curs i).keyInfo = none)
    (hrows : RowTable w.fixedRowid es) : ReadsRows w i (rowsOf w.fixedRowid es) :=
  readsRows_of_restore hs.restore htable hrows

theorem Scanning.readsRows (hc : Scanning w i h c es) (htable : (w.curs i).keyInfo = none)
    (hrows : RowTable w.fixedRowid es) : ReadsRows w i (rowsOf w.fixedRowid es) := by
  refine readsRows_of_restore ?_ htable hrows
  rw [restoreCursor, ensures_bind, ensures_getCur, if_neg (not_not.mpr hc.untripped), hc.unsaved, ensures_pure]
  exact ⟨rfl, rfl, rfl, h, c, hc⟩

theorem ReadsRows.congr {rows rows' : ℤ → Option Bytes} (h : ReadsRows w i rows)
    (hrows : ∀ k, IsI64 k → rows k = rows' k) : ReadsRows w i rows' := by
  intro k hk
  rw [← hrows k hk]
  exact h k hk

end Reading

section Insertion

variable {E : Halt → Prop} {w : World} {i : ℕ} {es : Entries}

/-- What was inserted. -/
def Payload.row (pX : Payload) : Bytes := pX.pData ++ List.replicate pX.nZero 0

/-- The table of cursor `i` had the entries `es`, and has the ones of `w'` with a row inserted. -/
structure Upserted (w : World) (i : ℕ) (es : Entries) (pX : Payload) (w' : World) : Prop where
  /-- The cursor finds the new row and all others as they were. -/
  reads : ReadsRows w'.calm i (Function.update (rowsOf w.fixedRowid es) pX.nKey (some pX.row))
  table : ∃ es', Sees w' i es' ∧ RowTable w'.fixedRowid es' ∧
    es'.length = es.length + (if rowsOf w.fixedRowid es pX.nKey = none then 1 else 0) ∧
    ∀ j, Scannable w'.calm j es' → (w'.curs j).keyInfo = none →
      ReadsRows w'.calm j (Function.update (rowsOf w.fixedRowid es) pX.nKey (some pX.row))

/-- Every insertion that succeeds replaces the row or adds it. -/
theorem insert_upserts (hw : Sees w i es) (hopen : (w.curs i).pBtree = true) (htable : (w.curs i).keyInfo = none)
    (hrows : RowTable w.fixedRowid es) (pX : Payload) (hkey : IsI64 pX.nKey) :
    Ensures (fun _ => False) (sqlite3BtreeInsert i pX false) (fun rc w' => rc = sqliteOk → Upserted w i es pX w') w := by
  have hfail : ∀ {rc : Rc} {P : Prop}, rc ≠ sqliteOk → rc = sqliteOk → P := fun hrc hok => absurd hok hrc
  rw [sqlite3BtreeInsert, ensures_bind, ensures_getCur, hopen]
  refine Ensures.ite (fun hno => absurd hno (by decide)) fun _ => ?_
  rw [ensures_bind]
  refine hw.restore.imp fun rc w₁ hrc => ?_
  refine Ensures.ite (fun hne => hfail hne) fun hok => ?_
  have hready := hrc (not_not.mp hok)
  obtain ⟨h, c, hc⟩ := hready.reads
  have htable₁ := hready.keyInfo.trans htable
  rw [if_neg Bool.false_ne_true, ensures_bind, ensures_pure]
  refine Ensures.ite (fun hne => absurd rfl hne) fun _ => ?_
  rw [ensures_bind, ensures_getCur, htable₁]
  dsimp only
  rw [if_neg Bool.false_ne_true, insertRow, ensures_bind, ensures_getCur, ensures_bind, ensures_build, ensures_bind,
    hc.handle, hready.build]
  refine put_spec hc _ _ _ (fun rc w' hne => hfail fun hok => hne ((errorMap_eq_ok rc).mp hok)) ?_
  intro w' hcurs hbuild hput _
  obtain ⟨c', hput⟩ : ∃ c', Reads w' i h c' (putRow w.fixedRowid pX.nKey pX.row es) := ⟨_, hput⟩
  have hbuild' : w'.fixedRowid = w.fixedRowid := hbuild.trans hready.build
  have hcur : w'.curs i = w₁.curs i := congrFun hcurs i
  have hnew : RowTable w'.fixedRowid (putRow w.fixedRowid pX.nKey pX.row es) := by
    rw [hbuild']
    exact hrows.putRow pX.nKey pX.row
  have hupdate : ∀ k, IsI64 k → rowsOf w'.fixedRowid (putRow w.fixedRowid pX.nKey pX.row es) k =
      Function.update (rowsOf w.fixedRowid es) pX.nKey (some pX.row) k := by
    intro k hk
    rw [hbuild']
    exact hrows.rowsOf_putRow hkey pX.row hk
  have hscanning : Scanning w'.calm i h c' (putRow w.fixedRowid pX.nKey pX.row es) := by
    refine ⟨⟨hput.handle, hput.live, hput.view⟩, ?_, ?_, fun _ => rfl⟩
    · exact (congrArg BtCursor.tripCode hcur).trans hready.untripped
    · exact (congrArg BtCursor.savedKey hcur).trans hready.unsaved
  refine ⟨?_, putRow w.fixedRowid pX.nKey pX.row es, .inl ⟨?_, h, c', hput⟩, hnew, length_putRow _ _ _ _, ?_⟩
  · exact (hscanning.readsRows ((congrArg BtCursor.keyInfo hcur).trans htable₁) hnew).congr hupdate
  · exact (congrArg BtCursor.savedKey hcur).trans hready.unsaved
  · exact fun j hj htable' => (hj.readsRows htable' hnew).congr hupdate

/-- The rows `-1`, `3` and `5`. -/
def threeRows : Entries := putRow false 3 [7] (putRow false (-1) [8] (putRow false 5 [9] []))

def threeRowTable : World :=
  { emptyTable false with env := { (emptyTable false).env with
      writers := [⟨0, fun db => if db = .table 3 then some threeRows else none, fun _ => none⟩] } }

/-- An insertion over a row that is there, of a row with two zeros behind its data. -/
theorem insert_upserts_sample : ∃ rc w', sqlite3BtreeInsert 0 ⟨-1, [], [7], 2, none⟩ false threeRowTable =
    .ok (rc, w') ∧ rc = sqliteOk ∧ rowsOf false threeRows (-1) = some [8] ∧
      Upserted threeRowTable 0 threeRows ⟨-1, [], [7], 2, none⟩ w' := by
  have hsees : Sees threeRowTable 0 threeRows :=
    Or.inl ⟨rfl, 1, ⟨0, .table 3, .unset⟩, rfl, rfl, _, rfl, rfl⟩
  have hrows : RowTable false threeRows :=
    (((emptyTable_invariant false).rows.putRow 5 [9]).putRow (-1) [8]).putRow 3 [7]
  have hthere : rowsOf false threeRows (-1) = some [8] := by decide +kernel
  have hcode : (sqlite3BtreeInsert 0 ⟨-1, [], [7], 2, none⟩ false threeRowTable).toOption.map (fun r => r.1) =
      some sqliteOk := by decide +kernel
  obtain ⟨rc, w', hrun, hres⟩ := (insert_upserts hsees rfl rfl hrows
    ⟨-1, [], [7], 2, none⟩ ⟨by decide, by decide⟩).result
  rw [hrun] at hcode
  have hok : rc = sqliteOk := Option.some.inj hcode
  exact ⟨rc, w', hrun, hok, hthere, hres hok⟩

end Insertion

end LumoSql.Btree
