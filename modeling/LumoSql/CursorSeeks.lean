import LumoSql.RowidOrder

/-! Seeks: where `sqlite3BtreeTableMoveto` and `sqlite3BtreeIndexMoveto` leave a cursor of any
transaction, whether its position has been saved or not. -/
namespace LumoSql.Btree
open StateLogic Lmdb RowidEncoding SortedEntries

/-- Cursor `i` moves in the entries `es`, by the handle `h`. -/
structure Reads (w : World) (i h : ℕ) (c : MdbCursor) (es : Entries) : Prop where
  handle : (w.curs i).cursor = some h
  live : w.env.cursors h = some c
  view : ∃ v, w.env.cursorView c = some v ∧ (v c.db).getD [] = es

/-- The entries a table has in the transaction on top, if there is one. -/
def TopEntries (w : World) (n : ℕ) (es : Entries) : Prop :=
  ∀ s rest, w.p.svp = s :: rest → ∃ k v, w.env.kind s.txn = some k ∧ w.env.view s.txn = some v ∧
    (v (.table n)).getD [] = es

/-- Cursor `i` has a saved position, and its table has the entries `es` in the transaction on top. -/
structure Reopens (w : World) (i : ℕ) (es : Entries) : Prop where
  opened : (w.curs i).pBtree = true
  live : ∀ h, (w.curs i).cursor = some h → (w.env.cursors h).isSome
  top : TopEntries w (w.curs i).rootPage es

/-- The entries that cursor `i` will move in. -/
def Sees (w : World) (i : ℕ) (es : Entries) : Prop :=
  ((w.curs i).savedKey = none ∧ ∃ h c, Reads w i h c es) ∨
    ((w.curs i).savedKey.isSome = true ∧ Reopens w i es)

/-- Cursor `i` is on entry number `k`. -/
def StandsAt (w : World) (i : ℕ) (es : Entries) (k : ℕ) : Prop :=
  ∃ h c, Reads w i h c es ∧ c.pos.initialized = true ∧ c.pos.index = k ∧ k < es.length

section Calls

variable {E : Halt → Prop} {w : World} {i h : ℕ} {c : MdbCursor} {es : Entries}

theorem Reads.ensures_get (hc : Reads w i h c es) (op : CursorOp) (Q : Rc × Bytes × Bytes → World → Prop) :
    Ensures E (lmdb (mdbCursorGet (some h) op)) Q w ↔
      if (w.env.answers .cursorGet).headD 0 ≠ 0 then
        Q ((w.env.answers .cursorGet).headD 0, [], []) { w with env := w.env.pop .cursorGet }
      else Q (op.move es c.pos).2 (w.moveCursor h c (op.move es c.pos).1) := by
  obtain ⟨v, hview, hes⟩ := hc.view
  rw [ensures_lmdb, documented.cursorGet hc.live hview, hes]
  rfl

theorem Reads.move (hc : Reads w i h c es) (pos : Position) :
    Reads (w.moveCursor h c pos) i h { c with pos := pos } es :=
  ⟨hc.handle, by simp [World.moveCursor, Env.setCursor], hc.view⟩

theorem Reads.pop (hc : Reads w i h c es) (f : Fallible) :
    Reads { w with env := w.env.pop f } i h c es := ⟨hc.handle, hc.live, hc.view⟩

theorem Reads.unique (hc : Reads w i h c es) {h' : ℕ} {c' : MdbCursor} {es' : Entries}
    (hc' : Reads w i h' c' es') : h' = h ∧ c' = c ∧ es' = es := by
  obtain rfl : h = h' := Option.some.inj (hc.handle.symm.trans hc'.handle)
  obtain rfl : c = c' := Option.some.inj (hc.live.symm.trans hc'.live)
  obtain ⟨v, hview, rfl⟩ := hc.view
  obtain ⟨v', hview', rfl⟩ := hc'.view
  obtain rfl : v = v' := Option.some.inj (hview.symm.trans hview')
  exact ⟨rfl, rfl, rfl⟩

/-- Fields of a cursor other than its handle. -/
theorem Reads.setCur (hc : Reads w i h c es) (j : ℕ) {f : BtCursor → BtCursor}
    (hf : ∀ d, (f d).cursor = d.cursor) :
    Reads { w with curs := Function.update w.curs j (f (w.curs j)) } i h c es := by
  refine ⟨?_, hc.live, hc.view⟩
  by_cases hj : i = j
  · subst hj
    simp only [Function.update_self, hf]
    exact hc.handle
  · simp only [Function.update_of_ne hj]
    exact hc.handle

/-- Opening a table in the transaction on top. -/
theorem ensures_getTable {s : BtreeSavepoint} {rest : List BtreeSavepoint} (hsvp : w.p.svp = s :: rest)
    {k : TxnKind} {v : Contents} (hkind : w.env.kind s.txn = some k) (hview : w.env.view s.txn = some v)
    (n : ℕ) (Q : Rc → World → Prop) :
    Ensures E (getTable n false) Q w ↔
      if n < 1 then Q sqliteCorrupt w
      else Q (if (w.env.answers .dbiOpen).headD 0 ≠ 0 then (w.env.answers .dbiOpen).headD 0
        else if (v (.table n)).isSome then 0 else mdbNotfound) { w with env := w.env.pop .dbiOpen } := by
  rw [getTable, ensures_bind, ensures_getP, ensures_ite, hsvp]
  simp only [ensures_lmdb, documented.dbiOpen hkind hview, ensures_pure]

/-- The world `w'` is `w` with a new handle `h` for cursor `i`, on table `n`. -/
structure Reopened (w w' : World) (i n h : ℕ) (es : Entries) : Prop where
  build : w'.fixedRowid = w.fixedRowid
  handle : w'.p = w.p
  writers : w'.env.writers = w.env.writers
  answers : ∀ f, f ≠ .dbiOpen → f ≠ .cursorOpen → w'.env.answers f = w.env.answers f
  cur : w'.curs i = { w.curs i with dbi := .table n, cursor := some h }
  reads : ∃ t, Reads w' i h ⟨t, .table n, .unset⟩ es

/-- No position is saved any more. -/
def World.forget (w : World) (i : ℕ) : World :=
  { w with curs := Function.update w.curs i { w.curs i with savedKey := none } }

/-- A cursor is reopened, or an error is returned; what follows is the positioning. -/
theorem reopenCursor_spec {d : BtCursor} (htop : TopEntries w d.rootPage es) (savedKey : Bytes)
    (reposition : Bool) {P : World → Prop}
    (hopen : ∀ h w', Reopened w w' i d.rootPage h es →
      Ensures E (if reposition then repositionCursor h d.keyInfo savedKey else pure 0)
        (fun rc w₂ => rc = 0 → P (w₂.forget i)) w') :
    Ensures E (reopenCursor i d savedKey reposition) (fun rc w' => rc = sqliteOk → P w') w := by
  have hfail : ∀ {rc : Rc} {P : Prop}, rc ≠ 0 → errorMap rc = sqliteOk → P :=
    fun hrc hok => absurd ((errorMap_eq_ok _).mp hok) hrc
  have hnone : ∀ {c : Rc} {P : Prop}, c ≠ sqliteOk → c = sqliteOk → P := fun hc heq => absurd heq hc
  have hlast : ∀ h w', Reopened w w' i d.rootPage h es → Ensures E
      (do
        let rc ← if reposition then repositionCursor h d.keyInfo savedKey else pure 0
        if rc ≠ 0 then pure (errorMap rc)
        else do
          setCur i fun d => { d with savedKey := none }
          pure sqliteOk)
      (fun rc w' => rc = sqliteOk → P w') w' := by
    intro h w' hre
    have hpos := hopen h w' hre
    cases reposition with
    | true =>
      rw [if_pos rfl] at hpos ⊢
      rw [ensures_bind]
      refine hpos.imp fun rc w₂ hP => ?_
      exact Ensures.ite (fun hrc => hfail hrc) fun hrc _ => hP (not_not.mp hrc)
    | false =>
      rw [if_neg (by decide)] at hpos ⊢
      exact fun _ => hpos rfl
  rw [reopenCursor, ensures_bind]
  cases hsvp : w.p.svp with
  | nil =>
    rw [getTable, ensures_bind, ensures_getP, ensures_ite, hsvp]
    by_cases hroot : d.rootPage < 1
    · rw [if_pos hroot]
      exact hnone (by decide)
    · rw [if_neg hroot]
      exact hnone (by decide)
  | cons s rest =>
    obtain ⟨k, v, hkind, hview, hes⟩ := htop s rest hsvp
    rw [ensures_getTable hsvp hkind hview]
    by_cases hroot : d.rootPage < 1
    · rw [if_pos hroot]
      exact hnone (by decide)
    rw [if_neg hroot]
    refine Ensures.ite (fun hrc => hfail hrc) fun _ => ?_
    rw [ensures_bind, ensures_setCur, ensures_bind, topTxn, ensures_bind, ensures_getP]
    simp only [hsvp, ensures_pure, ensures_bind, ensures_lmdb]
    have hkind' : (w.env.pop .dbiOpen).kind s.txn = some k := hkind
    have hview' : (w.env.pop .dbiOpen).view s.txn = some v := hview
    rw [documented.cursorOpen hkind' hview']
    by_cases hans : ((w.env.pop .dbiOpen).answers .cursorOpen).headD 0 ≠ 0
    · rw [if_pos hans]
      refine Ensures.ite (fun hrc => hfail hrc) fun hrc => absurd hans hrc
    rw [if_neg hans]
    by_cases htable : (v (.table d.rootPage)).isNone = true
    · rw [if_pos htable]
      refine Ensures.ite (fun hrc => hfail hrc) fun hrc => absurd (by decide : einval ≠ 0) hrc
    rw [if_neg htable]
    refine Ensures.ite (fun hrc => absurd rfl hrc) fun _ => ?_
    rw [ensures_bind, ensures_setCur]
    refine hlast _ _ ⟨rfl, rfl, rfl, ?_, ?_, s.txn, ⟨?_, ?_, v, ?_, hes⟩⟩
    · intro f hdbi hcursor
      exact (pop_answers_of_ne hcursor).trans (pop_answers_of_ne hdbi)
    · simp only [Function.update_self]
    · simp only [Function.update_self]
    · simp only [Function.update_self]
    · exact cursorView_of_view hview' _ _

/-- What `restoreCursor` changes when the cursor is not moved. -/
structure Restored (w w' : World) (i : ℕ) (es : Entries) : Prop where
  build : w'.fixedRowid = w.fixedRowid
  handle : w'.p = w.p
  writers : w'.env.writers = w.env.writers
  answers : ∀ f, f ≠ .dbiOpen → f ≠ .cursorOpen → w'.env.answers f = w.env.answers f
  keyInfo : (w'.curs i).keyInfo = (w.curs i).keyInfo
  untripped : (w'.curs i).tripCode = sqliteOk
  unsaved : (w'.curs i).savedKey = none
  reads : ∃ h c, Reads w' i h c es

/-- A cursor can be used after it was restored. -/
theorem Sees.restore (hw : Sees w i es) :
    Ensures E (restoreCursor i false) (fun rc w' => rc = sqliteOk → Restored w w' i es) w := by
  rw [restoreCursor, ensures_bind, ensures_getCur]
  refine Ensures.ite (fun htrip h => absurd h htrip) fun htrip => ?_
  have huntripped : (w.curs i).tripCode = sqliteOk := not_not.mp htrip
  rcases hw with ⟨hsaved, hreads⟩ | ⟨hsaved, hopen⟩
  · rw [hsaved]
    exact fun _ => ⟨rfl, rfl, rfl, fun _ _ _ => rfl, rfl, huntripped, hsaved, hreads⟩
  · obtain ⟨key, hkey⟩ := Option.isSome_iff_exists.mp hsaved
    rw [hkey]
    dsimp only
    have hrestored : ∀ w₁ : World, w₁.fixedRowid = w.fixedRowid → w₁.p = w.p →
        w₁.env.writers = w.env.writers → w₁.env.readers = w.env.readers →
        w₁.env.answers = w.env.answers → w₁.curs = Function.update w.curs i { w.curs i with cursor := none } →
        Ensures E (reopenCursor i (w.curs i) key false)
          (fun rc w' => rc = sqliteOk → Restored w w' i es) w₁ := by
      intro w₁ hbuild hp hwriters hreaders hanswers hcurs
      have htop : TopEntries w₁ (w.curs i).rootPage es := by
        intro s rest hsvp
        rw [hp] at hsvp
        obtain ⟨k, v, hkind, hview, hes⟩ := hopen.top s rest hsvp
        refine ⟨k, v, ?_, ?_, hes⟩
        · rw [← hkind, Env.kind, Env.kind, hwriters, hreaders]
        · rw [← hview, Env.view, Env.view, hwriters, hreaders]
      refine reopenCursor_spec htop key false fun h w' hre => ?_
      obtain ⟨t, ht⟩ := hre.reads
      refine fun _ => ⟨hre.build.trans hbuild, hre.handle.trans hp, hre.writers.trans hwriters, ?_, ?_, ?_, ?_,
        h, ⟨t, .table (w.curs i).rootPage, .unset⟩, ?_⟩
      · exact fun f hdbi hcursor => (hre.answers f hdbi hcursor).trans (congrFun hanswers f)
      · simp [World.forget, hre.cur, hcurs]
      · simp [World.forget, hre.cur, hcurs, huntripped]
      · simp [World.forget]
      · exact ht.setCur (f := fun d => { d with savedKey := none }) i fun _ => rfl
    refine Ensures.ite (fun hsome => ?_) fun hnone => ?_
    · obtain ⟨h, hh⟩ := Option.isSome_iff_exists.mp hsome
      obtain ⟨c, hc⟩ := Option.isSome_iff_exists.mp (hopen.live h hh)
      rw [ensures_bind, ensures_lmdb, hh, documented.cursorClose hc, ensures_bind, ensures_setCur]
      refine Ensures.ite (fun hp => ?_) fun _ => hrestored _ rfl rfl rfl rfl rfl rfl
      simp [hopen.opened] at hp
    · rw [ensures_bind, ensures_setCur]
      refine Ensures.ite (fun hp => ?_) fun _ => hrestored _ rfl rfl rfl rfl rfl rfl
      simp [hopen.opened] at hp

end Calls

/-- The two seeks, by rowid and by unpacked record. -/
inductive Seek
  | rowid (intKey : ℤ)
  | record (unpacked : Bytes → Ordering)

def Seek.run (i : ℕ) : Seek → Call (Rc × ℤ)
  | rowid intKey => sqlite3BtreeTableMoveto i intKey
  | record unpacked => sqlite3BtreeIndexMoveto i unpacked

/-- How the key looked for compares with a stored one. -/
def Seek.probe (fixedRowid : Bool) : Seek → Bytes → Ordering
  | rowid intKey => rowidProbe fixedRowid (put8 fixedRowid (toU64 intKey))
  | record unpacked => indexProbe unpacked

/-- The contents are those of a b-tree for such keys, in the order of the comparison function. -/
def Seek.Fits (fixedRowid : Bool) (es : Entries) : Seek → Prop
  | rowid _ => RowTable fixedRowid es
  | record unpacked => Graded (indexProbe unpacked) es

/-- The cursor is next to the key, on the side `*pRes` tells. -/
structure NextToKey (probe : Bytes → Ordering) (es : Entries) (i : ℕ) (pRes : ℤ) (w : World) : Prop where
  equal : pRes = 0 ↔ ∃ e ∈ es, probe e.1 = .eq
  found : pRes = 0 → ∃ k e, StandsAt w i es k ∧ es[k]? = some e ∧ probe e.1 = .eq
  above : 0 < pRes → ∃ k e, StandsAt w i es k ∧ es[k]? = some e ∧ probe e.1 = .lt ∧
    ∀ j < k, ∀ x, es[j]? = some x → probe x.1 ≠ .lt
  below : pRes < 0 → (∃ k e, StandsAt w i es k ∧ es[k]? = some e ∧ probe e.1 = .gt ∧
    ∀ j > k, ∀ x, es[j]? = some x → probe x.1 ≠ .gt) ∨ es = [] ∧ (w.curs i).atEof = true

/-- Some entry is not below the key, or there is one entry and the cursor can be moved to it. -/
def NotBeyond (probe : Bytes → Ordering) (es : Entries) (answers : Answers) : Prop :=
  (∃ e ∈ es, probe e.1 ≠ .gt) ∨ es.length = 1 ∧ (answers .cursorGet).tail.headD 0 = 0

section Seeks

variable {E : Halt → Prop} {w : World} {i h : ℕ} {c : MdbCursor} {es : Entries} {probe : Bytes → Ordering}

/-- Whether the entry found is the one looked for. -/
def Seek.exact (fixedRowid : Bool) : Seek → Bytes → Bool
  | rowid intKey, key => toU64 intKey = get8 fixedRowid key
  | record unpacked, key => unpacked key = .eq

theorem Seek.Fits.graded {fixedRowid : Bool} {s : Seek} (h : s.Fits fixedRowid es) :
    Graded (s.probe fixedRowid) es := by
  cases s with
  | rowid intKey => exact h.ascending.graded (h.probes (toU64_lt intKey))
  | record unpacked => exact h

theorem Seek.Fits.exact_iff {fixedRowid : Bool} {s : Seek} (h : s.Fits fixedRowid es) {e : Bytes × Bytes}
    (he : e ∈ es) : s.exact fixedRowid e.1 = true ↔ s.probe fixedRowid e.1 = .eq := by
  cases s with
  | rowid intKey =>
    rw [Seek.probe, (h.probes (toU64_lt intKey)).eq_iff he, Seek.exact, decide_eq_true_iff]
  | record unpacked =>
    rw [Seek.probe, indexProbe, Seek.exact, decide_eq_true_iff]
    cases unpacked e.1 <;> decide

/-- What the seeks do after the cursor was restored. -/
def seekFrom (i : ℕ) (probe : Bytes → Ordering) (exact : Bytes → Bool) : Call (Rc × ℤ) := do
  setCur i fun c => { c with atEof := false }
  let c ← getCur i
  let g ← lmdb (mdbCursorGet c.cursor (.setRange probe))
  if g.1 = 0 then pure (sqliteOk, if exact g.2.1 then 0 else 1)
  else if g.1 ≠ mdbNotfound then pure (errorMap g.1, 0)
  else do
    let _ ← lmdb (mdbCursorGet c.cursor .first)
    pure (sqliteOk, -1)

theorem Seek.ensures_run (s : Seek) {Q : Rc × ℤ → World → Prop}
    (h : Ensures E (restoreCursor i false) (fun rc w' =>
      if rc ≠ sqliteOk then Q (rc, 0) w'
      else Ensures E (seekFrom i (s.probe w'.fixedRowid) (s.exact w'.fixedRowid)) Q w') w) :
    Ensures E (s.run i) Q w := by
  cases s with
  | rowid intKey =>
    rw [Seek.run, sqlite3BtreeTableMoveto, ensures_bind]
    refine h.imp fun rc w' hrc => ?_
    rw [ensures_ite]
    by_cases hok : rc ≠ sqliteOk
    · rw [if_pos hok] at hrc ⊢
      exact hrc
    · rw [if_neg hok] at hrc ⊢
      simp only [seekFrom, ensures_bind, ensures_setCur, ensures_getCur, ensures_build, Seek.probe,
        Seek.exact, decide_eq_true_eq] at hrc ⊢
      refine hrc.imp fun g w'' hg => ?_
      rw [ensures_ite] at hg ⊢
      by_cases hfound : g.1 = 0
      · rw [if_pos hfound] at hg ⊢
        rw [ensures_pure] at hg ⊢
        simpa only [ne_eq, ite_not] using hg
      · rw [if_neg hfound] at hg ⊢
        exact hg
  | record unpacked =>
    rw [Seek.run, sqlite3BtreeIndexMoveto, ensures_bind]
    refine h.imp fun rc w' hrc => ?_
    rw [ensures_ite]
    by_cases hok : rc ≠ sqliteOk
    · rw [if_pos hok] at hrc ⊢
      exact hrc
    · rw [if_neg hok] at hrc ⊢
      simp only [seekFrom, ensures_bind, ensures_setCur, ensures_getCur, Seek.probe,
        Seek.exact, decide_eq_true_eq] at hrc ⊢
      refine hrc.imp fun g w'' hg => ?_
      rw [ensures_ite] at hg ⊢
      by_cases hfound : g.1 = 0
      · rw [if_pos hfound] at hg ⊢
        rw [ensures_pure] at hg ⊢
        simpa only [ne_eq, ite_not] using hg
      · rw [if_neg hfound] at hg ⊢
        exact hg

/-- `MDB_NOTFOUND` is not among the codes that LMDB gives for reasons of its own. -/
def NoFalseMiss (answers : Answers) : Prop := ∀ rc ∈ answers .cursorGet, rc ≠ mdbNotfound

theorem Reads.standsAt_iff (hc : Reads w i h c es) {k : ℕ} :
    StandsAt w i es k ↔ c.pos.initialized = true ∧ c.pos.index = k ∧ k < es.length := by
  constructor
  · rintro ⟨h', c', hc', hinit, hindex, hlt⟩
    obtain rfl : h = h' := Option.some.inj (hc.handle.symm.trans hc'.handle)
    obtain rfl : c = c' := Option.some.inj (hc.live.symm.trans hc'.live)
    exact ⟨hinit, hindex, hlt⟩
  · rintro ⟨hinit, hindex, hlt⟩
    exact ⟨h, c, hc, hinit, hindex, hlt⟩

/-- A seek that finds an entry. -/
theorem nextToKey_of_found {exact : Bytes → Bool} (hgraded : Graded probe es)
    (hexact : ∀ e ∈ es, (exact e.1 = true ↔ probe e.1 = .eq)) {e : Bytes × Bytes}
    (he : es[lowerBound probe es]? = some e) (hstands : StandsAt w i es (lowerBound probe es)) :
    NextToKey probe es i (if exact e.1 then 0 else 1) w := by
  have hmem := List.mem_of_getElem? he
  have hne := ne_gt_of_lowerBound he
  by_cases hx : exact e.1 = true
  · have heq := (hexact e hmem).mp hx
    rw [if_pos hx]
    refine ⟨⟨fun _ => ⟨e, hmem, heq⟩, fun _ => rfl⟩, fun _ => ⟨_, e, hstands, he, heq⟩, ?_, ?_⟩
    · intro hpos
      exact absurd hpos (by decide)
    · intro hneg
      exact absurd hneg (by decide)
  · have hlt : probe e.1 = .lt := by
      have := mt (hexact e hmem).mpr hx
      cases hp : probe e.1 with
      | lt => rfl
      | eq => exact absurd hp this
      | gt => exact absurd hp hne
    rw [if_neg hx]
    refine ⟨⟨fun h => absurd h (by decide), ?_⟩, fun h => absurd h (by decide), ?_, ?_⟩
    · rintro ⟨x, hxmem, hxeq⟩
      exact absurd hxeq (hgraded.ne_eq he hlt x hxmem)
    · refine fun _ => ⟨_, e, hstands, he, hlt, fun j hj x hxj => ?_⟩
      rw [gt_of_lt_lowerBound hj hxj]
      decide
    · intro hneg
      exact absurd hneg (by decide)

/-- A seek beyond all entries, which goes to the first one. -/
theorem nextToKey_first_iff (hgt : ∀ e ∈ es, probe e.1 = .gt) (heof : (w.curs i).atEof = false) {P : Prop}
    (hstands : ∀ k, StandsAt w i es k ↔ P ∧ k = 0 ∧ k < es.length) :
    NextToKey probe es i (-1) w ↔ es.length = 1 ∧ P := by
  constructor
  · intro h
    rcases h.below (by decide) with ⟨k, e, hk, he, -, hlast⟩ | ⟨-, htrue⟩
    · obtain ⟨hP, rfl, hlt⟩ := (hstands k).mp hk
      refine ⟨?_, hP⟩
      by_contra hlen
      have hone : 1 < es.length := by omega
      exact hlast 1 Nat.one_pos es[1] (List.getElem?_eq_getElem hone) (hgt _ (List.getElem_mem hone))
    · rw [heof] at htrue
      cases htrue
  · rintro ⟨hlen, hP⟩
    have hzero : 0 < es.length := by omega
    refine ⟨⟨fun h => absurd h (by decide), ?_⟩, fun h => absurd h (by decide), fun h => absurd h (by decide),
      fun _ => Or.inl ⟨0, es[0], (hstands 0).mpr ⟨hP, rfl, hzero⟩, List.getElem?_eq_getElem hzero,
        hgt _ (List.getElem_mem hzero), ?_⟩⟩
    · rintro ⟨x, hx, heq⟩
      rw [hgt x hx] at heq
      cases heq
    · intro j hj x hx
      obtain ⟨hjlt, -⟩ := List.getElem?_eq_some_iff.mp hx
      omega

/-- The way out of a seek that found nothing. -/
theorem first_spec (hc : Reads w i h c es) (hpos : es.length ≤ c.pos.index) (hgt : ∀ e ∈ es, probe e.1 = .gt)
    (heof : (w.curs i).atEof = false) :
    Ensures E (do
        let _ ← lmdb (mdbCursorGet (some h) .first)
        pure (sqliteOk, -1))
      (fun r w' => r.1 = sqliteOk → (NextToKey probe es i r.2 w' ↔
        es.length = 1 ∧ (w.env.answers .cursorGet).headD 0 = 0)) w := by
  rw [ensures_bind, hc.ensures_get]
  by_cases hans : (w.env.answers .cursorGet).headD 0 ≠ 0
  · rw [if_pos hans]
    refine fun _ => (nextToKey_first_iff (w := { w with env := w.env.pop .cursorGet }) hgt heof (P := False)
      fun k => ?_).trans ?_
    · rw [(hc.pop .cursorGet).standsAt_iff]
      exact ⟨fun hk => by omega, fun hk => hk.1.elim⟩
    · exact and_congr_right fun _ => ⟨False.elim, fun hzero => hans hzero⟩
  · rw [if_neg hans]
    refine fun _ => (nextToKey_first_iff (w := w.moveCursor h c (CursorOp.first.move es c.pos).1) hgt heof
      (P := True) fun k => ?_).trans ?_
    · rw [(hc.move _).standsAt_iff]
      cases es with
      | nil => simp
      | cons e rest => simp [CursorOp.move, land, eq_comm]
    · exact and_congr_right fun _ => ⟨fun _ => not_not.mp hans, fun _ => trivial⟩

theorem seekFrom_spec (hc : Reads w i h c es) {exact : Bytes → Bool} (hgraded : Graded probe es)
    (hexact : ∀ e ∈ es, (exact e.1 = true ↔ probe e.1 = .eq)) (hmiss : NoFalseMiss w.env.answers) :
    Ensures E (seekFrom i probe exact) (fun r w' => r.1 = sqliteOk →
      (NextToKey probe es i r.2 w' ↔ NotBeyond probe es w.env.answers)) w := by
  have hc₁ := hc.setCur (f := fun d => { d with atEof := false }) i fun _ => rfl
  rw [seekFrom, ensures_bind, ensures_setCur, ensures_bind, ensures_getCur, hc₁.handle, ensures_bind,
    hc₁.ensures_get]
  by_cases hans : (w.env.answers .cursorGet).headD 0 ≠ 0
  · rw [if_pos hans]
    have hmem : (w.env.answers .cursorGet).headD 0 ∈ w.env.answers .cursorGet := by
      cases hl : w.env.answers .cursorGet with
      | nil => simp [hl] at hans
      | cons a l => simp
    refine Ensures.ite (fun hzero => absurd hzero hans) fun _ => ?_
    refine Ensures.ite (fun _ hok => absurd ((errorMap_eq_ok _).mp hok) hans) fun heq => ?_
    exact absurd (not_not.mp heq) (hmiss _ hmem)
  · rw [if_neg hans]
    cases he : es[lowerBound probe es]? with
    | some e =>
      have hmove : (CursorOp.setRange probe).move es c.pos = (⟨true, false, false, lowerBound probe es⟩, 0, e) := by
        simp only [CursorOp.move, moveSetRange, land, he]
      rw [hmove]
      refine Ensures.ite (fun _ _ => ?_) fun hne => absurd rfl hne
      have hlt := (List.getElem?_eq_some_iff.mp he).1
      have hstands : StandsAt _ i es (lowerBound probe es) :=
        (hc₁.move ⟨true, false, false, lowerBound probe es⟩).standsAt_iff.mpr ⟨rfl, rfl, hlt⟩
      refine iff_of_true (nextToKey_of_found hgraded hexact he hstands) ?_
      exact Or.inl ⟨e, List.mem_of_getElem? he, ne_gt_of_lowerBound he⟩
    | none =>
      have hgt := gt_of_lowerBound_none he
      have hmove : (CursorOp.setRange probe).move es c.pos =
          (⟨es ≠ [], true, false, lowerBound probe es⟩, mdbNotfound, [], []) := by
        simp only [CursorOp.move, moveSetRange, land, he]
      have hmoved := hc₁.move ⟨es ≠ [], true, false, lowerBound probe es⟩
      have hreach : NotBeyond probe es w.env.answers ↔
          es.length = 1 ∧ (w.env.answers .cursorGet).tail.headD 0 = 0 := by
        constructor
        · rintro (⟨e, hemem, hne⟩ | hone)
          · exact absurd (hgt e hemem) hne
          · exact hone
        · exact Or.inr
      rw [hmove]
      refine Ensures.ite (fun hzero => absurd hzero (show mdbNotfound ≠ 0 by decide)) fun _ => ?_
      refine Ensures.ite (fun hne => absurd rfl hne) fun _ => ?_
      have htail : (w.env.pop .cursorGet).answers .cursorGet = (w.env.answers .cursorGet).tail :=
        pop_answers_self .cursorGet
      rw [hreach, ← htail]
      exact first_spec hmoved (List.getElem?_eq_none_iff.mp he) hgt (by simp [World.moveCursor])

/-- The codes a seek uses when the cursor was not moved before. -/
theorem seek_spec {s : Seek} (hw : Sees w i es) (hfits : s.Fits w.fixedRowid es)
    (hmiss : NoFalseMiss w.env.answers) :
    Ensures E (s.run i) (fun r w' => r.1 = sqliteOk →
      (NextToKey (s.probe w.fixedRowid) es i r.2 w' ↔
        NotBeyond (s.probe w.fixedRowid) es w.env.answers)) w := by
  refine s.ensures_run (hw.restore.imp fun rc w' hrc => ?_)
  by_cases hok : rc ≠ sqliteOk
  · rw [if_pos hok]
    exact fun h => absurd h hok
  · rw [if_neg hok]
    have hrestored := hrc (not_not.mp hok)
    obtain ⟨h, c, hc⟩ := hrestored.reads
    have hans := hrestored.answers .cursorGet (by decide) (by decide)
    have hfits' : s.Fits w'.fixedRowid es := by rwa [hrestored.build]
    have hmiss' : NoFalseMiss w'.env.answers := by rwa [NoFalseMiss, hans]
    refine (seekFrom_spec hc hfits'.graded (fun e he => hfits'.exact_iff he) hmiss').imp fun r w'' hr hrok => ?_
    rw [← hrestored.build, hr hrok, NotBeyond, NotBeyond, hans]

end Seeks

/-- A seek that succeeds leaves the cursor next to the key exactly when it does not end beyond two
or more entries, or on an empty table. -/
theorem seek_nextToKey_iff {w : World} {i : ℕ} {es : Entries} {s : Seek} (hw : Sees w i es)
    (hfits : s.Fits w.fixedRowid es) (hmiss : NoFalseMiss w.env.answers) :
    Ensures (fun _ => False) (s.run i) (fun r w' => r.1 = sqliteOk →
      (NextToKey (s.probe w.fixedRowid) es i r.2 w' ↔
        NotBeyond (s.probe w.fixedRowid) es w.env.answers)) w :=
  seek_spec hw hfits hmiss

/-- A write transaction with cursor `0` on a table with the rowids `1` and `2`. -/
def twoRows : World := { emptyTable false with
  env := { (emptyTable false).env with
    writers := [⟨0, fun db => if db = .table 3 then some [([1], [7]), ([2], [7])] else none,
      fun _ => none⟩] } }

theorem twoRows_sees : Sees twoRows 0 [([1], [7]), ([2], [7])] :=
  Or.inl ⟨rfl, 1, ⟨0, .table 3, .unset⟩, rfl, rfl, _, rfl, rfl⟩

theorem twoRows_fits (intKey : ℤ) : (Seek.rowid intKey).Fits false [([1], [7]), ([2], [7])] := by
  refine ⟨?_, ?_⟩
  · rw [Ascending, List.pairwise_pair]
    decide
  · intro e he
    simp only [List.mem_cons, List.not_mem_nil, or_false] at he
    rcases he with rfl | rfl
    · exact ⟨1, by decide, by decide⟩
    · exact ⟨2, by decide, by decide⟩

theorem seek_nextToKey_iff_sample : ∃ r w', (Seek.rowid 2).run 0 twoRows = .ok (r, w') ∧
    (r.1 = sqliteOk → NextToKey ((Seek.rowid 2).probe false) [([1], [7]), ([2], [7])] 0 r.2 w') := by
  obtain ⟨r, w', hrun, hiff⟩ := (seek_nextToKey_iff (s := .rowid 2) twoRows_sees (twoRows_fits 2)
    fun rc hrc => by cases hrc).result
  refine ⟨r, w', hrun, fun hok => (hiff hok).mpr (Or.inl ⟨([2], [7]), by simp, ?_⟩)⟩
  decide

/-- A seek for the rowid `5` ends on the rowid `1`. -/
theorem seek_beyond_rows : ∃ r w', (Seek.rowid 5).run 0 twoRows = .ok (r, w') ∧ r.1 = sqliteOk ∧
    ¬ NextToKey ((Seek.rowid 5).probe false) [([1], [7]), ([2], [7])] 0 r.2 w' := by
  obtain ⟨r, w', hrun, hiff⟩ := (seek_spec (E := fun _ => False) (s := .rowid 5) twoRows_sees (twoRows_fits 5)
    fun rc hrc => by cases hrc).result
  have hcode : ((Seek.rowid 5).run 0 twoRows).toOption.map (fun r => r.1.1) = some sqliteOk := by
    decide +kernel
  rw [hrun] at hcode
  have hok : r.1 = sqliteOk := Option.some.inj hcode
  refine ⟨r, w', hrun, hok, fun hnext => ?_⟩
  rcases (hiff hok).mp hnext with ⟨e, he, hne⟩ | ⟨hlen, -⟩
  · simp only [List.mem_cons, List.not_mem_nil, or_false] at he
    rcases he with rfl | rfl <;> exact absurd (by decide) hne
  · exact absurd hlen (by decide)

end LumoSql.Btree
