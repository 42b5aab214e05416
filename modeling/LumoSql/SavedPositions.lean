import LumoSql.CursorInvalidation

/-! Cursors that are used again after their position has been saved. -/
namespace LumoSql.Btree
open StateLogic Lmdb RowidEncoding SortedEntries

/-- Cursor `i` stands on an entry. -/
structure OnEntry (w : World) (i : ℕ) (key : Bytes) : Prop where
  opened : (w.curs i).pBtree = true
  root : 1 ≤ (w.curs i).rootPage
  untripped : (w.curs i).tripCode = sqliteOk
  unsaved : (w.curs i).savedKey = none
  reads : ∃ h c es data, Reads w i h c es ∧ c.pos.initialized = true ∧ es[c.pos.index]? = some (key, data) ∧
    ((w.curs i).keyInfo = none → RowTable w.fixedRowid es)

/-- The entries of a table in the transaction on top, which there is. -/
structure Visible (w : World) (n : ℕ) (es : Entries) : Prop where
  begun : w.p.svp ≠ []
  top : TopEntries w n es

/-- How stored keys compare with a key of the table: by rowid, or as the records of an index. -/
def BtCursor.keyProbe (fixedRowid : Bool) (d : BtCursor) (key : Bytes) : Bytes → Ordering :=
  match d.keyInfo with
  | none => rowidProbe fixedRowid key
  | some keyInfo => indexProbe ((keyInfo.unpack key).getD fun _ => .eq)

/-- A step ends on the entry nearest to the key on its side, or reports that there is none;
`nearer` tells which entries would have come before. -/
def StepsTo (probe : Bytes → Ordering) (side : Ordering) (nearer : ℕ → ℕ → Prop) (es : Entries) (i : ℕ)
    (rc : Rc) (w : World) : Prop :=
  (rc = sqliteOk ∧ ∃ k e, StandsAt w i es k ∧ es[k]? = some e ∧ probe e.1 = side ∧
    ∀ j, nearer j k → ∀ x, es[j]? = some x → probe x.1 ≠ side) ∨
  rc = sqliteDone ∧ ∀ x ∈ es, probe x.1 ≠ side

/-- The cursor behaves as if it still stood on the entry, when no call to LMDB fails. -/
structure Unseen (w : World) (i : ℕ) (key : Bytes) (es : Entries) : Prop where
  next : Ensures (fun _ => False) (sqlite3BtreeNext i)
    (StepsTo ((w.curs i).keyProbe w.fixedRowid key) .lt (· < ·) es i) w
  previous : Ensures (fun _ => False) (sqlite3BtreePrevious i)
    (StepsTo ((w.curs i).keyProbe w.fixedRowid key) .gt (· > ·) es i) w
  integerKey : (w.curs i).keyInfo = none → ∀ data, (key, data) ∈ es →
    Ensures (fun _ => False) (sqlite3BtreeIntegerKey i) (fun r _ => r = toI64 (get8 w.fixedRowid key)) w
  payload : ∀ data, (key, data) ∈ es → Ensures (fun _ => False) (sqlite3BtreePayloadFetch i)
    (fun bytes _ => bytes = if (w.curs i).keyInfo.isSome then key else data) w

section Restoring

variable {E : Halt → Prop} {w : World} {i : ℕ} {d : BtCursor} {key : Bytes} {es : Entries}

/-- A cursor is reopened when no call to LMDB fails. -/
theorem reopenCursor_calm (hcalm : w.env.Calm) (hroot : 1 ≤ d.rootPage) (hes : Visible w d.rootPage es)
    (reposition : Bool) {Q : Rc → World → Prop}
    (hmissing : ∀ s rest v, w.p.svp = s :: rest → w.env.view s.txn = some v → v (.table d.rootPage) = none →
      ∀ w', Q (errorMap mdbNotfound) w')
    (hopen : ∀ h w', Reopened w w' i d.rootPage h es → w'.env.Calm →
      Ensures E (if reposition then repositionCursor h d.keyInfo key else pure 0)
        (fun rc w₂ => if rc ≠ 0 then Q (errorMap rc) w₂ else Q sqliteOk (w₂.forget i)) w') :
    Ensures E (reopenCursor i d key reposition) Q w := by
  have hlast : ∀ h w', Reopened w w' i d.rootPage h es → w'.env.Calm → Ensures E
      (do
        let rc ← if reposition then repositionCursor h d.keyInfo key else pure 0
        if rc ≠ 0 then pure (errorMap rc)
        else do
          setCur i fun d => { d with savedKey := none }
          pure sqliteOk) Q w' := by
    intro h w' hre hcalm'
    have hpositioned := hopen h w' hre hcalm'
    cases reposition with
    | true =>
      rw [if_pos rfl] at hpositioned ⊢
      rw [ensures_bind]
      refine hpositioned.imp fun rc w₂ hrc => ?_
      rw [ensures_ite]
      exact hrc
    | false =>
      rw [if_neg Bool.false_ne_true] at hpositioned
      exact hpositioned
  cases hsvp : w.p.svp with
  | nil => exact absurd hsvp hes.begun
  | cons s rest =>
    obtain ⟨k, v, hkind, hview, hentries⟩ := hes.top s rest hsvp
    rw [reopenCursor, ensures_bind, ensures_getTable hsvp hkind hview, if_neg (by omega), hcalm.head, hcalm.pop,
      if_neg (not_not.mpr rfl)]
    cases htable : v (.table d.rootPage) with
    | none =>
      simp only [Option.isSome_none, Bool.false_eq_true, if_false]
      exact Ensures.ite (fun _ => hmissing s rest v hsvp hview htable _) fun hrc => absurd (by decide) hrc
    | some rows =>
      simp only [Option.isSome_some, if_true]
      refine Ensures.ite (fun hrc => absurd rfl hrc) fun _ => ?_
      rw [ensures_bind, ensures_setCur, ensures_bind, topTxn, ensures_bind, ensures_getP]
      simp only [hsvp, ensures_pure, ensures_bind, ensures_lmdb]
      rw [documented.cursorOpen hkind hview, hcalm.head, hcalm.pop, if_neg (not_not.mpr rfl), htable,
        Option.isNone_some, if_neg Bool.false_ne_true]
      refine Ensures.ite (fun hrc => absurd rfl hrc) fun _ => ?_
      rw [ensures_bind, ensures_setCur]
      refine hlast _ _ ?_ hcalm
      refine ⟨rfl, rfl, rfl, fun _ _ _ => rfl, ?_, s.txn, ?_, ?_, v, ?_, hentries⟩
      · simp only [Function.update_self]
      · simp only [Function.update_self]
      · simp only [Function.update_self]
      · exact cursorView_of_view hview _ _

theorem Reads.entriesOf_eq {h : ℕ} {c : MdbCursor} (hc : Reads w i h c es) : entriesOf w.env h = es := by
  obtain ⟨v, hview, hes⟩ := hc.view
  rw [entriesOf, hc.live, Option.bind_some, hview]
  exact hes

/-- A saved cursor is restored when no call to LMDB fails. -/
theorem restoreCursor_calm (hcur : w.curs i = d.saved key) (hopened : d.pBtree = true)
    (htrip : d.tripCode = sqliteOk) (hcalm : w.env.Calm) (hroot : 1 ≤ d.rootPage) (hes : Visible w d.rootPage es)
    {Q : Rc → World → Prop} (hmissing : es = [] → ∀ w', Q (errorMap mdbNotfound) w')
    (hopen : ∀ h w' t, Reads w' i h ⟨t, .table d.rootPage, .unset⟩ es → w'.fixedRowid = w.fixedRowid →
      w'.curs i = { d.saved key with dbi := .table d.rootPage, cursor := some h } → w'.env.Calm →
      Ensures E (repositionCursor h d.keyInfo key)
        (fun rc w₂ => if rc ≠ 0 then Q (errorMap rc) w₂ else Q sqliteOk (w₂.forget i)) w') :
    Ensures E (restoreCursor i true) Q w := by
  have hnone : (d.saved key).cursor = none := rfl
  have hsaved : (d.saved key).savedKey = some key := rfl
  rw [restoreCursor, ensures_bind, ensures_getCur, hcur]
  refine Ensures.ite (fun hne => absurd htrip hne) fun _ => ?_
  rw [hsaved]
  dsimp only
  rw [hnone, Option.isSome_none, if_neg Bool.false_ne_true, ensures_bind, ensures_setCur]
  refine Ensures.ite (fun hne => ?_) fun _ => ?_
  · rw [show (d.saved key).pBtree = true from hopened] at hne
    cases hne
  refine reopenCursor_calm (d := d.saved key) ?_ hroot (?_ : Visible _ d.rootPage es) true ?_
    fun h w' hre hcalm' => ?_
  · exact hcalm
  · exact ⟨hes.begun, hes.top⟩
  · intro s rest v hsvp hview hnone
    obtain ⟨k, v', -, hview', hentries⟩ := hes.top s rest hsvp
    obtain rfl : v = v' := Option.some.inj (Eq.trans (Eq.symm hview) hview')
    refine hmissing ?_
    rw [← hentries]
    exact congrArg (Option.getD · []) hnone
  · rw [if_pos rfl]
    obtain ⟨t, ht⟩ := hre.reads
    refine hopen h w' t ht hre.build ?_ hcalm'
    simp [hre.cur, hcur, BtCursor.saved]

/-- The cursor stands on entry `k` again, in a world where no call to LMDB fails. -/
structure Back (w w' : World) (i k : ℕ) (es : Entries) : Prop where
  build : w'.fixedRowid = w.fixedRowid
  calm : w'.env.Calm
  reads : ∃ h t db, Reads w' i h ⟨t, db, ⟨true, false, false, k⟩⟩ es

/-- The entry of a rowid table with the key, wherever it is. -/
theorem RowTable.lookup_eq {fixedRowid : Bool} (h : RowTable fixedRowid es) {data : Bytes} (he : (key, data) ∈ es) :
    lookup (rowidProbe fixedRowid key) es = some (key, data) := by
  obtain ⟨v, hv, rfl⟩ : ∃ v < 2 ^ 64, key = put8 fixedRowid v := h.keys _ he
  have hprobes := h.probes hv
  cases hl : lookup (rowidProbe fixedRowid (put8 fixedRowid v)) es with
  | none => exact absurd (get8_put8 fixedRowid hv) (h.ascending.lookup_eq_none hprobes hl he)
  | some e =>
    obtain ⟨hat, heq⟩ := mem_of_lookup hl
    obtain ⟨hlt, rfl⟩ := List.getElem?_eq_some_iff.mp hat
    obtain ⟨m, hm, hentry⟩ := List.getElem_of_mem he
    have hrank : v = get8 fixedRowid es[lowerBound (rowidProbe fixedRowid (put8 fixedRowid v)) es].1 :=
      (hprobes.eq_iff (List.getElem_mem hlt)).mp heq
    have hrank' : get8 fixedRowid es[m].1 = v := by rw [hentry, get8_put8 fixedRowid hv]
    have hsorted := List.pairwise_iff_getElem.mp h.ascending
    rcases Nat.lt_trichotomy (lowerBound (rowidProbe fixedRowid (put8 fixedRowid v)) es) m with hlow | hsame | hhigh
    · have := hsorted _ _ hlt hm hlow
      omega
    · simp only [hsame, hentry]
    · have := hsorted _ _ hm hlt hhigh
      omega

theorem restoreCursor_back (hcur : w.curs i = d.saved key) (hopened : d.pBtree = true)
    (htrip : d.tripCode = sqliteOk) (hcalm : w.env.Calm) (hroot : 1 ≤ d.rootPage) (hes : Visible w d.rootPage es)
    (htable : d.keyInfo = none) (hrows : RowTable w.fixedRowid es) {data : Bytes} (he : (key, data) ∈ es) :
    Ensures E (restoreCursor i true) (fun rc w' => rc = sqliteOk ∧
      Back w w' i (lowerBound (rowidProbe w.fixedRowid key) es) es ∧ (w'.curs i).keyInfo = none) w := by
  refine restoreCursor_calm hcur hopened htrip hcalm hroot hes ?_ fun h w' t hreads hbuild hcur' hcalm' => ?_
  · rintro rfl
    cases he
  · rw [repositionCursor, ensures_bind, ensures_build, ensures_bind, ensures_read, htable]
    refine Ensures.ite (fun hsome => absurd hsome.1 Bool.false_ne_true) fun _ => ?_
    rw [ensures_bind, hreads.ensures_get, hcalm'.head, if_neg (not_not.mpr rfl), hbuild]
    have hlookup := hrows.lookup_eq he
    have hmove : (CursorOp.set (rowidProbe w.fixedRowid key)).move es Position.unset =
        (⟨true, false, false, lowerBound (rowidProbe w.fixedRowid key) es⟩, 0, key, data) := by
      simp only [CursorOp.move, moveSet, hlookup, land, (mem_of_lookup hlookup).1]
    rw [hmove, ensures_pure, if_neg (not_not.mpr rfl)]
    refine ⟨rfl, ⟨hbuild, ?_, h, t, .table d.rootPage, ?_⟩, ?_⟩
    · simpa [World.forget, World.moveCursor, Env.setCursor, Env.Calm, hcalm'.pop] using hcalm'
    · exact (hreads.move _).setCur (f := fun c => { c with savedKey := none }) i fun _ => rfl
    · simp [World.forget, World.moveCursor, hcur', BtCursor.saved, htable]

theorem RowTable.lookup_none {fixedRowid : Bool} (h : RowTable fixedRowid es) {v : ℕ} (hv : v < 2 ^ 64)
    (hkey : ∀ data, (put8 fixedRowid v, data) ∉ es) : lookup (rowidProbe fixedRowid (put8 fixedRowid v)) es = none := by
  cases hl : lookup (rowidProbe fixedRowid (put8 fixedRowid v)) es with
  | none => rfl
  | some e =>
    obtain ⟨hat, -⟩ := mem_of_lookup hl
    have hmem := List.mem_of_getElem? hat
    obtain ⟨u, hu, he⟩ := h.keys e hmem
    have hrank := Ascending.rank_of_lookup (h.probes hv) hl
    rw [he, get8_put8 fixedRowid hu] at hrank
    have hsame : (put8 fixedRowid v, e.2) = e := by rw [← hrank, ← he]
    exact absurd (hsame ▸ hmem) (hkey e.2)

/-- A position on an index, or on an entry that is gone, cannot be restored. -/
theorem restoreCursor_lost (hcur : w.curs i = d.saved key) (hopened : d.pBtree = true)
    (htrip : d.tripCode = sqliteOk) (hcalm : w.env.Calm) (hroot : 1 ≤ d.rootPage) (hes : Visible w d.rootPage es)
    (hrows : d.keyInfo = none → RowTable w.fixedRowid es ∧ ∃ v < 2 ^ 64, key = put8 w.fixedRowid v)
    (hlost : ¬ (d.keyInfo = none ∧ ∃ data, (key, data) ∈ es)) :
    Ensures (fun _ => True) (restoreCursor i true) (fun rc _ => rc ≠ sqliteOk ∧ rc ≠ sqliteDone) w := by
  have hcode : errorMap mdbNotfound ≠ sqliteOk ∧ errorMap mdbNotfound ≠ sqliteDone := by decide
  refine restoreCursor_calm hcur hopened htrip hcalm hroot hes (fun _ _ => hcode) ?_
  intro h w' t hreads hbuild hcur' hcalm'
  rw [repositionCursor, ensures_bind, ensures_build, ensures_bind, ensures_read]
  refine Ensures.ite (fun _ => trivial) fun hkeep => ?_
  have hlookup : lookup (rowidProbe w'.fixedRowid key) es = none := by
    cases hinfo : d.keyInfo with
    | none =>
      obtain ⟨htable, v, hv, rfl⟩ := hrows hinfo
      rw [hbuild]
      exact htable.lookup_none hv fun data hmem => hlost ⟨hinfo, data, hmem⟩
    | some keyInfo =>
      rw [hreads.entriesOf_eq, hinfo] at hkeep
      obtain rfl : es = [] := by
        by_contra hne
        exact hkeep ⟨rfl, hne⟩
      rfl
  have hmove : ((CursorOp.set (rowidProbe w'.fixedRowid key)).move es Position.unset).2.1 = mdbNotfound := by
    simp only [CursorOp.move, moveSet, hlookup]
  rw [ensures_bind, hreads.ensures_get, hcalm'.head, if_neg (not_not.mpr rfl), ensures_pure, hmove,
    if_pos (by decide)]
  exact hcode

/-- A step from an entry the cursor was brought back to. -/
theorem cursorStep_back {k : ℕ} (hback : Ensures E (restoreCursor i true)
      (fun rc w' => rc = sqliteOk ∧ Back w w' i k es ∧ (w'.curs i).keyInfo = none) w)
    (op : CursorOp) {Q : Rc → World → Prop}
    (hland : (op.move es ⟨true, false, false, k⟩).2.1 = 0 → ∀ w' h t db,
      Reads w' i h ⟨t, db, (op.move es ⟨true, false, false, k⟩).1⟩ es → Q sqliteOk w')
    (hend : (op.move es ⟨true, false, false, k⟩).2.1 ≠ 0 →
      (op.move es ⟨true, false, false, k⟩).2.1 = mdbNotfound ∧ ∀ w', Q sqliteDone w') :
    Ensures E (cursorStep i op) Q w := by
  rw [cursorStep, cursorMove, ensures_bind, ensures_bind]
  refine hback.imp fun rc w' hrc => ?_
  obtain ⟨rfl, hb, -⟩ := hrc
  obtain ⟨h, t, db, hreads⟩ := hb.reads
  refine Ensures.ite (fun hne => absurd rfl hne) fun _ => ?_
  rw [ensures_bind, ensures_getCur, ensures_bind, hreads.handle, hreads.ensures_get, hb.calm.head,
    if_neg (not_not.mpr rfl)]
  refine Ensures.ite (fun hzero => ?_) fun hne => ?_
  · rw [ensures_bind, ensures_setCur, ensures_pure]
    refine Ensures.ite (fun hok => absurd rfl hok) fun _ => ?_
    rw [ensures_bind, ensures_getCur, ensures_pure]
    simp only [Function.update_self, Bool.false_eq_true, if_false]
    exact hland hzero _ h t db ((hreads.move _).setCur (f := fun c => { c with atEof := false }) i fun _ => rfl)
  · obtain ⟨hcode, hQ⟩ := hend hne
    refine Ensures.ite (fun hother => absurd hcode hother) fun _ => ?_
    rw [ensures_bind, ensures_setCur, ensures_pure]
    refine Ensures.ite (fun hok => absurd rfl hok) fun _ => ?_
    rw [ensures_bind, ensures_getCur, ensures_pure]
    simp only [Function.update_self, if_true]
    exact hQ _

end Restoring

section Stepping

variable {E : Halt → Prop} {w : World} {i : ℕ} {d : BtCursor} {key : Bytes} {es : Entries}

/-- Entries compare with the key of an entry as their places do. -/
theorem RowTable.probe_at {fixedRowid : Bool} (h : RowTable fixedRowid es) {data : Bytes} (he : (key, data) ∈ es)
    {j : ℕ} {x : Bytes × Bytes} (hx : es[j]? = some x) :
    rowidProbe fixedRowid key x.1 = compare (lowerBound (rowidProbe fixedRowid key) es) j := by
  have hlookup := h.lookup_eq he
  obtain ⟨v, hv, rfl⟩ : ∃ v < 2 ^ 64, key = put8 fixedRowid v := h.keys _ he
  obtain ⟨hat, heq⟩ := mem_of_lookup hlookup
  obtain ⟨hlt, hentry⟩ := List.getElem?_eq_some_iff.mp hat
  obtain ⟨hj, rfl⟩ := List.getElem?_eq_some_iff.mp hx
  have hprobes := h.probes hv
  rcases Nat.lt_trichotomy j (lowerBound (rowidProbe fixedRowid (put8 fixedRowid v)) es) with hlow | rfl | hhigh
  · rw [gt_of_lt_lowerBound hlow hx, compare_gt_iff_gt.mpr hlow]
  · rw [hentry, heq, compare_eq_iff_eq.mpr rfl]
  · have hrank := List.pairwise_iff_getElem.mp h.ascending _ _ hlt hj hhigh
    rw [← (hprobes.eq_iff (List.getElem_mem hlt)).mp (by rw [hentry]; exact heq)] at hrank
    rw [hprobes _ (List.getElem_mem hj), compare_lt_iff_lt.mpr hrank, compare_lt_iff_lt.mpr hhigh]

/-- A rowid table with a cursor that was saved on an entry that is still there. -/
structure Kept (w : World) (i : ℕ) (d : BtCursor) (key : Bytes) (es : Entries) : Prop where
  cur : w.curs i = d.saved key
  opened : d.pBtree = true
  untripped : d.tripCode = sqliteOk
  calm : w.env.Calm
  root : 1 ≤ d.rootPage
  visible : Visible w d.rootPage es
  isTable : d.keyInfo = none
  rows : RowTable w.fixedRowid es

theorem Kept.restore (h : Kept w i d key es) {data : Bytes} (he : (key, data) ∈ es) :
    Ensures E (restoreCursor i true) (fun rc w' => rc = sqliteOk ∧
      Back w w' i (lowerBound (rowidProbe w.fixedRowid key) es) es ∧ (w'.curs i).keyInfo = none) w :=
  restoreCursor_back h.cur h.opened h.untripped h.calm h.root h.visible h.isTable h.rows he

theorem Kept.next (h : Kept w i d key es) {data : Bytes} (he : (key, data) ∈ es) :
    Ensures E (sqlite3BtreeNext i) (StepsTo (rowidProbe w.fixedRowid key) .lt (· < ·) es i) w := by
  set k := lowerBound (rowidProbe w.fixedRowid key) es with hk
  have hat : ∀ {j x}, es[j]? = some x → rowidProbe w.fixedRowid key x.1 = compare k j := h.rows.probe_at he
  by_cases hlast : es.length ≤ k + 1
  · have hmove : (CursorOp.next.move es ⟨true, false, false, k⟩).2.1 = mdbNotfound := by
      simp [CursorOp.move, moveNext, hlast]
    refine cursorStep_back (h.restore he) .next (fun hzero => ?_) fun _ => ⟨hmove, fun w' => .inr ⟨rfl, ?_⟩⟩
    · exact absurd (hmove.symm.trans hzero) (by decide)
    · intro x hx
      obtain ⟨j, hj, rfl⟩ := List.getElem_of_mem hx
      rw [hat (List.getElem?_eq_getElem hj), ne_eq, compare_lt_iff_lt]
      omega
  · have hnext := List.getElem?_eq_getElem (l := es) (i := k + 1) (by omega)
    have hmove : CursorOp.next.move es ⟨true, false, false, k⟩ =
        (⟨true, false, false, k + 1⟩, 0, es[k + 1]) := by
      simp [CursorOp.move, moveNext, hlast, land, hnext]
    refine cursorStep_back (h.restore he) .next (fun _ w' n t db hreads => .inl ⟨rfl, k + 1, _, ?_, hnext, ?_, ?_⟩)
      fun hne => absurd (by rw [hmove]) hne
    · rw [hmove] at hreads
      exact hreads.standsAt_iff.mpr ⟨rfl, rfl, by omega⟩
    · rw [hat hnext, compare_lt_iff_lt]
      omega
    · intro j hj x hx
      rw [hat hx, ne_eq, compare_lt_iff_lt]
      omega

theorem Kept.previous (h : Kept w i d key es) {data : Bytes} (he : (key, data) ∈ es) :
    Ensures E (sqlite3BtreePrevious i) (StepsTo (rowidProbe w.fixedRowid key) .gt (· > ·) es i) w := by
  set k := lowerBound (rowidProbe w.fixedRowid key) es with hk
  have hat : ∀ {j x}, es[j]? = some x → rowidProbe w.fixedRowid key x.1 = compare k j := h.rows.probe_at he
  have hkept : k < es.length := (List.getElem?_eq_some_iff.mp (mem_of_lookup (h.rows.lookup_eq he)).1).1
  by_cases hfirst : k = 0
  · have hmove : (CursorOp.prev.move es ⟨true, false, false, k⟩).2.1 = mdbNotfound := by
      simp [CursorOp.move, movePrev, hfirst]
    refine cursorStep_back (h.restore he) .prev (fun hzero => ?_) fun _ => ⟨hmove, fun w' => .inr ⟨rfl, ?_⟩⟩
    · exact absurd (hmove.symm.trans hzero) (by decide)
    · intro x hx
      obtain ⟨j, hj, rfl⟩ := List.getElem_of_mem hx
      rw [hat (List.getElem?_eq_getElem hj), ne_eq, compare_gt_iff_gt]
      omega
  · have hprev := List.getElem?_eq_getElem (l := es) (i := k - 1) (by omega)
    have hmove : CursorOp.prev.move es ⟨true, false, false, k⟩ =
        (⟨true, false, false, k - 1⟩, 0, es[k - 1]) := by
      simp [CursorOp.move, movePrev, hfirst, land, hprev]
    refine cursorStep_back (h.restore he) .prev (fun _ w' n t db hreads => .inl ⟨rfl, k - 1, _, ?_, hprev, ?_, ?_⟩)
      fun hne => absurd (by rw [hmove]) hne
    · rw [hmove] at hreads
      exact hreads.standsAt_iff.mpr ⟨rfl, rfl, by omega⟩
    · rw [hat hprev, compare_gt_iff_gt]
      omega
    · intro j hj x hx
      rw [hat hx, ne_eq, compare_gt_iff_gt]
      omega

theorem Kept.payload (h : Kept w i d key es) {data : Bytes} (he : (key, data) ∈ es) :
    Ensures E (sqlite3BtreePayloadFetch i) (fun bytes _ => bytes = data) w := by
  have hinfo : (d.saved key).keyInfo = none := h.isTable
  rw [sqlite3BtreePayloadFetch, ensures_bind, ensures_getCur, h.cur, hinfo]
  dsimp only
  rw [ensures_bind]
  refine (h.restore he).imp fun rc w' hrc => ?_
  obtain ⟨rfl, hback, -⟩ := hrc
  obtain ⟨n, t, db, hreads⟩ := hback.reads
  refine Ensures.ite (fun hne => absurd rfl hne) fun _ => ?_
  rw [ensures_bind, ensures_getCur, ensures_bind, hreads.handle, hreads.ensures_get, hback.calm.head,
    if_neg (not_not.mpr rfl), ensures_pure]
  simp [CursorOp.move, moveCurrent, (mem_of_lookup (h.rows.lookup_eq he)).1]

theorem integerKey_saved (hcur : w.curs i = d.saved key) :
    Ensures E (sqlite3BtreeIntegerKey i) (fun r _ => r = toI64 (get8 w.fixedRowid key)) w := by
  have hsaved : (d.saved key).savedKey = some key := rfl
  rw [sqlite3BtreeIntegerKey, ensures_bind, ensures_getCur, ensures_bind, ensures_build, hcur, hsaved]
  exact rfl

end Stepping

theorem SavingCall.unseen_spec {w w₁ w₂ : World} {i : ℕ} {key : Bytes} {es : Entries} {call : SavingCall} {rc : Rc}
    (hw : OnEntry w i key) (hrun : call.run w = .ok (rc, w₁)) (hsaved : (w₁.curs i).savedKey.isSome = true)
    (hcur : w₂.curs i = w₁.curs i) (hbuild : w₂.fixedRowid = w.fixedRowid)
    (hes : Visible w₂ (w.curs i).rootPage es)
    (hrows : (w.curs i).keyInfo = none → RowTable w₂.fixedRowid es) :
    Unseen w₂.calm i key es ↔ (w.curs i).keyInfo = none ∧ ∃ data, (key, data) ∈ es := by
  obtain ⟨h, c, es₀, data₀, hreads, hinit, hentry, htable⟩ := hw.reads
  have hkey : OnKey (w.curs i) key w.env := by
    intro h' c' v hh hc hv
    obtain rfl : h = h' := Option.some.inj (hreads.handle.symm.trans hh)
    obtain rfl : c = c' := Option.some.inj (hreads.live.symm.trans hc)
    obtain ⟨v', hv', hes₀⟩ := hreads.view
    obtain rfl : v' = v := Option.some.inj (hv'.symm.trans hv)
    rw [hes₀]
    exact ⟨hinit, data₀, hentry⟩
  have hcursor : (w.curs i).cursor.isSome = true := by rw [hreads.handle]; rfl
  have hcur₂ : w₂.calm.curs i = (w.curs i).saved key :=
    hcur.trans ((call.saves hcursor hw.unsaved rfl hkey).of_ok hrun hsaved)
  have hcalm : w₂.calm.env.Calm := fun _ => rfl
  have hvisible : Visible w₂.calm (w.curs i).rootPage es := ⟨hes.begun, hes.top⟩
  constructor
  · intro hunseen
    by_contra hlost
    have hkeys : (w.curs i).keyInfo = none →
        RowTable w₂.calm.fixedRowid es ∧ ∃ v < 2 ^ 64, key = put8 w₂.calm.fixedRowid v := by
      intro hinfo
      refine ⟨hrows hinfo, ?_⟩
      rw [show w₂.calm.fixedRowid = w.fixedRowid from hbuild]
      exact (htable hinfo).keys _ (List.mem_of_getElem? hentry)
    have hrestore := restoreCursor_lost hcur₂ hw.opened hw.untripped hcalm hw.root hvisible hkeys hlost
    obtain ⟨rc', w', hstep, hends⟩ := hunseen.next.result
    have hnot : Ensures (fun _ => True) (sqlite3BtreeNext i) (fun rc _ => rc ≠ sqliteOk ∧ rc ≠ sqliteDone) w₂.calm := by
      rw [sqlite3BtreeNext, cursorStep, cursorMove, ensures_bind, ensures_bind]
      refine hrestore.imp fun rc w' hrc => ?_
      rw [if_pos hrc.1, ensures_pure]
      exact Ensures.ite (fun _ => hrc) fun hok => absurd (not_not.mp hok) hrc.1
    have hcode := hnot.of_ok hstep
    rcases hends with hok | hdone
    · exact hcode.1 hok.1
    · exact hcode.2 hdone.1
  · rintro ⟨hinfo, data, he⟩
    have hkept : Kept w₂.calm i (w.curs i) key es :=
      ⟨hcur₂, hw.opened, hw.untripped, hcalm, hw.root, hvisible, hinfo, hrows hinfo⟩
    have hinfo₂ : (w₂.calm.curs i).keyInfo = none := by rw [hcur₂]; exact hinfo
    have hprobe : (w₂.calm.curs i).keyProbe w₂.calm.fixedRowid key = rowidProbe w₂.calm.fixedRowid key := by
      rw [BtCursor.keyProbe, hinfo₂]
    refine ⟨?_, ?_, fun _ _ _ => integerKey_saved hcur₂, fun data' he' => ?_⟩
    · rw [hprobe]
      exact hkept.next he
    · rw [hprobe]
      exact hkept.previous he
    · rw [hinfo₂]
      exact hkept.payload he'

/-- After its position has been saved a cursor behaves as if it still stood on the entry exactly
when it is a table cursor and the entry is there. -/
theorem saved_cursor_unseen_iff {w w₁ w₂ : World} {i : ℕ} {key : Bytes} {es : Entries} {call : SavingCall}
    {rc : Rc} (hw : OnEntry w i key) (hrun : call.run w = .ok (rc, w₁))
    (hsaved : (w₁.curs i).savedKey.isSome = true) (hcur : w₂.curs i = w₁.curs i)
    (hbuild : w₂.fixedRowid = w.fixedRowid) (hes : Visible w₂ (w.curs i).rootPage es)
    (hrows : (w.curs i).keyInfo = none → RowTable w₂.fixedRowid es) :
    Unseen w₂.calm i key es ↔ (w.curs i).keyInfo = none ∧ ∃ data, (key, data) ∈ es :=
  SavingCall.unseen_spec hw hrun hsaved hcur hbuild hes hrows

/-- A statement that sees the rows `inner` of a table in a transaction that sees `outer`, with
cursor `0` on row number `index`. -/
def cursorInStatement (inner outer : Entries) (index : ℕ) : World := { emptyTable false with
  env := { (emptyTable false).env with
    writers := [⟨5, fun db => if db = .table 3 then some inner else none, fun _ => none⟩,
      ⟨0, fun db => if db = .table 3 then some outer else none, fun _ => none⟩]
    cursors := fun h => if h = 1 then some ⟨0, .table 3, ⟨true, false, false, index⟩⟩ else none
    next := 6 }
  p := { (emptyTable false).p with svp := [⟨5, 1⟩, ⟨0, -1⟩] } }

theorem cursorInStatement_onEntry {inner outer : Entries} {index : ℕ} {key data : Bytes}
    (hentry : inner[index]? = some (key, data)) (hrows : RowTable false inner) :
    OnEntry (cursorInStatement inner outer index) 0 key := by
  refine ⟨rfl, show 1 ≤ 3 by decide, rfl, rfl, 1, _, inner, data, ⟨rfl, rfl, _, rfl, rfl⟩, rfl, hentry, fun _ => hrows⟩

/-- What can be computed about the end of a call. -/
structure Left (call : SavingCall) (w : World) (es : Entries) : Prop where
  saved : (call.run w).toOption.map (fun r => (r.2.curs 0).savedKey.isSome) = some true
  build : (call.run w).toOption.map (fun r => r.2.fixedRowid) = some w.fixedRowid
  svp : (call.run w).toOption.map (fun r => r.2.p.svp) = some [⟨0, -1⟩]
  kind : (call.run w).toOption.map (fun r => r.2.env.kind 0) = some (some .readWrite)
  view : (call.run w).toOption.map (fun r => (r.2.env.view 0).map fun v => v (.table 3)) = some (some (some es))

theorem Left.result {call : SavingCall} {w : World} {es : Entries} (h : Left call w es) :
    ∃ rc w', call.run w = .ok (rc, w') ∧ (w'.curs 0).savedKey.isSome = true ∧ w'.fixedRowid = w.fixedRowid ∧
      Visible w' 3 es := by
  obtain ⟨hsaved, hbuild, hsvp, hkind, hview⟩ := h
  cases hrun : call.run w with
  | error e =>
    rw [hrun] at hsaved
    cases hsaved
  | ok r =>
    obtain ⟨rc, w'⟩ := r
    rw [hrun] at hsaved hbuild hsvp hkind hview
    have hsvp' : w'.p.svp = [⟨0, -1⟩] := Option.some.inj hsvp
    refine ⟨rc, w', rfl, Option.some.inj hsaved, Option.some.inj hbuild, ?_, fun s rest hs => ?_⟩
    · rw [hsvp']
      simp
    · rw [hsvp'] at hs
      obtain ⟨rfl, rfl⟩ := List.cons.inj hs
      have hview' : (w'.env.view 0).map (fun v => v (.table 3)) = some (some es) := Option.some.inj hview
      obtain ⟨v, hv, hes⟩ := Option.map_eq_some_iff.mp hview'
      exact ⟨.readWrite, v, Option.some.inj hkind, hv, by rw [hes]; rfl⟩

theorem twoRows_rowTable : RowTable false [([1], [7]), ([2], [7])] := twoRows_fits 0

theorem saved_cursor_unseen_iff_sample : ∃ rc w', (SavingCall.savepoint .release 0).run
    (cursorInStatement [([1], [7]), ([2], [7])] [] 0) = .ok (rc, w') ∧
    Unseen w'.calm 0 [1] [([1], [7]), ([2], [7])] := by
  have hleft : Left (.savepoint .release 0) (cursorInStatement [([1], [7]), ([2], [7])] [] 0)
      [([1], [7]), ([2], [7])] := by
    constructor <;> decide +kernel
  obtain ⟨rc, w', hrun, hsaved, hbuild, hvisible⟩ := hleft.result
  refine ⟨rc, w', hrun, (saved_cursor_unseen_iff (cursorInStatement_onEntry rfl twoRows_rowTable) hrun hsaved rfl
    hbuild hvisible fun _ => ?_).mpr ⟨rfl, [7], by simp⟩⟩
  rw [hbuild]
  exact twoRows_rowTable

/-- A row that is rolled back while a cursor stands on it. -/
theorem rolled_back_row_lost : ∃ rc w', OnEntry (cursorInStatement [([1], [7]), ([2], [7])] [([1], [7])] 1) 0 [2] ∧
    (SavingCall.savepoint .rollback 0).run (cursorInStatement [([1], [7]), ([2], [7])] [([1], [7])] 1) =
      .ok (rc, w') ∧
    (w'.curs 0).savedKey.isSome = true ∧ Visible w' 3 [([1], [7])] ∧ ¬ Unseen w'.calm 0 [2] [([1], [7])] := by
  have hleft : Left (.savepoint .rollback 0) (cursorInStatement [([1], [7]), ([2], [7])] [([1], [7])] 1)
      [([1], [7])] := by
    constructor <;> decide +kernel
  have hw : OnEntry (cursorInStatement [([1], [7]), ([2], [7])] [([1], [7])] 1) 0 [2] :=
    cursorInStatement_onEntry rfl twoRows_rowTable
  obtain ⟨rc, w', hrun, hsaved, hbuild, hvisible⟩ := hleft.result
  refine ⟨rc, w', hw, hrun, hsaved, hvisible, fun hunseen => ?_⟩
  obtain ⟨-, data, hmem⟩ := (SavingCall.unseen_spec hw hrun hsaved rfl hbuild hvisible fun _ => by
    rw [hbuild]
    exact twoRows_rowTable.eraseIdx 1).mp hunseen
  simp at hmem

end LumoSql.Btree
