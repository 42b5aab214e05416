import LumoSql.CommitCounting
import LumoSql.TableNumbers

/-! The root pages of tables: `sqlite3BtreeCreateTable` takes a number that no table has as long as it
can read and raise the number of the last one. -/
namespace LumoSql.Btree
open StateLogic Lmdb RowidEncoding SortedEntries

/-- The innermost transaction sees table `n`, which is none of the two that every database may have. -/
def World.HasTable (w : World) (n : ℕ) : Prop := 3 ≤ n ∧ ∃ v, w.seen = some v ∧ v (.table n) ≠ none

/-- `sqlite3BtreeCreateTable` reads and raises the number of the last table, or opens no table, or there
is no table with which the new one could be confused. -/
def World.CreatesWhole (w : World) : Prop :=
  w.env.writers = [] ∨ (w.env.answers .dbiOpen).headD 0 ≠ 0 ∨
    w.p.hasData = true ∧ (w.env.answers .put).headD 0 = 0 ∧ ((w.env.answers .get).headD 0 = 0 ∨
      (∀ n, ¬ w.HasTable n) ∧ ∀ v, w.seen = some v → largestRoot v ≠ 2 ^ 32 - 1)

/-- What `sqlite3BtreeCreateTable` promises: a new number for a new table, or an error when the numbers
have run out. -/
structure FreshRoot (w : World) (r : Rc × ℕ) (w' : World) : Prop where
  fresh : r.1 = sqliteOk → 3 ≤ r.2 ∧ ¬ w.HasTable r.2 ∧ ∃ v, w'.seen = some v ∧ v (.table r.2) = some []
  wraps : (∃ v, w.seen = some v ∧ largestRoot v = 2 ^ 32 - 1) → r.1 ≠ sqliteOk

section Creation

variable {E : Halt → Prop} {w : World} {s : BtreeSavepoint} {rest : List BtreeSavepoint} {t : WriteTxn}
  {ts : List WriteTxn}

theorem ensures_getMeta (hsvp : w.p.svp = s :: rest) {k : TxnKind} {v : Contents} (hkind : w.env.kind s.txn = some k)
    (hview : w.env.view s.txn = some v) {idx : ℕ} (hidx : idx ≠ btreeDataVersion) (Q : ℕ → World → Prop) :
    Ensures E (sqlite3BtreeGetMeta idx) Q w ↔
      Q (if w.p.hasData then (meta32 v ((w.env.answers .get).headD 0) idx % 2 ^ 32).toNat else 0) w.readMeta := by
  rw [sqlite3BtreeGetMeta, ensures_bind, ensures_getP, if_neg hidx, ensures_bind, getMeta32, ensures_bind, ensures_getP,
    World.readMeta]
  cases hdata : w.p.hasData with
  | false => rfl
  | true =>
    rw [if_neg (by decide), if_pos rfl, if_pos rfl, ensures_bind, ensures_topTxn hsvp, getMeta32Direct, ensures_bind,
      ensures_lmdb, documented.get hkind hview, ← metaEntry, meta32, ensures_ite, ensures_ite]
    split_ifs <;> rfl

/-- The number of the last table as it is read. -/
def World.readRoot (w : World) (v : Contents) : ℕ :=
  if w.p.hasData ∧ (w.env.answers .get).headD 0 = 0 then largestRoot v else 0

/-- The number of the next table. -/
def nextRoot (largest : ℕ) : ℕ := if largest < 2 then 3 else (largest + 1) % 2 ^ 32

theorem ensures_getRoot (hsvp : w.p.svp = s :: rest) {k : TxnKind} {v : Contents} (hkind : w.env.kind s.txn = some k)
    (hview : w.env.view s.txn = some v) (Q : ℕ → World → Prop) :
    Ensures E (sqlite3BtreeGetMeta btreeLargestRootPage) Q w ↔ Q (w.readRoot v) w.readMeta := by
  rw [ensures_getMeta hsvp hkind hview (by decide), World.readRoot]
  cases w.p.hasData with
  | false => rw [if_neg Bool.false_ne_true, if_neg fun h => Bool.false_ne_true h.1]
  | true =>
    by_cases hget : (w.env.answers .get).headD 0 = 0
    · rw [if_pos rfl, hget, if_pos ⟨rfl, rfl⟩, largestRoot]
    · rw [if_pos rfl, meta32_fails hget, if_neg fun h => hget h.2, Int.zero_emod, Int.toNat_zero]

/-- The next number belongs to no table, unless the numbers have run out. -/
theorem Covered.next {v : Contents} (h : Covered v) {n : ℕ} (hn : n = largestRoot v ∨
    n = 0 ∧ (∀ m, 3 ≤ m → v (.table m) = none) ∧ largestRoot v ≠ 2 ^ 32 - 1) :
    nextRoot n = 0 ∧ largestRoot v = 2 ^ 32 - 1 ∨ largestRoot v ≠ 2 ^ 32 - 1 ∧ 3 ≤ nextRoot n ∧ nextRoot n < 2 ^ 32 ∧
      v (.table (nextRoot n)) = none ∧ ∀ m, 3 ≤ m → v (.table m) ≠ none → m ≤ nextRoot n := by
  have hlt := largestRoot_lt v
  rcases hn with rfl | ⟨rfl, hnone, hwraps⟩
  · by_cases hwraps : largestRoot v = 2 ^ 32 - 1
    · exact .inl ⟨by rw [hwraps, nextRoot]; rfl, hwraps⟩
    · have hnext : 3 ≤ nextRoot (largestRoot v) ∧ nextRoot (largestRoot v) < 2 ^ 32 ∧
          largestRoot v < nextRoot (largestRoot v) := by
        rw [nextRoot]
        split_ifs <;> omega
      obtain ⟨hthree, hbound, habove⟩ := hnext
      refine .inr ⟨hwraps, hthree, hbound, ?_, fun m hm htable => ?_⟩
      · by_contra htable
        have := h.tables _ hthree htable
        omega
      · have := h.tables m hm htable
        omega
  · exact .inr ⟨hwraps, le_rfl, by decide, hnone 3 le_rfl, fun m hm htable => absurd (hnone m hm) htable⟩

/-- A new table, and its number in the metadata. -/
def Contents.create (v : Contents) (es : Entries) (n : ℕ) : Contents :=
  Function.update (Function.update v (.table n) (some [])) .metadata
    (some (putEntry es (metaKey btreeLargestRootPage) (put4byte n)))

theorem Contents.create_table (v : Contents) (es : Entries) (n : ℕ) : Contents.create v es n (.table n) = some [] := by
  rw [Contents.create, Function.update_of_ne (by simp), Function.update_self]

theorem Covered.create {v : Contents} {es : Entries} (hes : v .metadata = some es) (h : Covered v) {n : ℕ}
    (hbound : n < 2 ^ 32) (habove : ∀ m, 3 ≤ m → v (.table m) ≠ none → m ≤ n) : Covered (Contents.create v es n) := by
  obtain ⟨es', hes', htable⟩ := h.metadata
  obtain rfl := Option.some.inj (hes.symm.trans hes')
  refine ⟨⟨_, Function.update_self _ _ _, htable.put _ _⟩, fun m hm hthere => ?_⟩
  have hlargest : largestRoot (Contents.create v es n) = n := largestRoot_put htable hbound
  rw [hlargest]
  rw [Contents.create, Function.update_of_ne (by simp)] at hthere
  by_cases hmn : DbName.table m = .table n
  · exact (DbName.table.inj hmn).le
  · rw [Function.update_of_ne hmn] at hthere
    exact habove m hm hthere

theorem World.seen_writer (hsvp : w.p.svp = s :: rest) (hw : w.env.writers = t :: ts) (ht : s.txn = t.id) :
    w.seen = some t.view := by
  rw [World.seen, hsvp, List.head?_cons, Option.bind_some, ht, view_writer hw]

/-- The number that is read is the one in the metadata, or it does not matter. -/
theorem World.CreatesWhole.read (h : w.CreatesWhole) (hw : w.env.writers ≠ []) (hopen : (w.env.answers .dbiOpen).headD 0 = 0)
    {v : Contents} (hseen : w.seen = some v) : w.p.hasData = true ∧ (w.env.answers .put).headD 0 = 0 ∧
      (w.readRoot v = largestRoot v ∨
        w.readRoot v = 0 ∧ (∀ m, 3 ≤ m → v (.table m) = none) ∧ largestRoot v ≠ 2 ^ 32 - 1) := by
  rcases h with hnone | hfails | ⟨hdata, hput, hread⟩
  · exact absurd hnone hw
  · exact absurd hopen hfails
  refine ⟨hdata, hput, ?_⟩
  rw [World.readRoot]
  by_cases hget : (w.env.answers .get).headD 0 = 0
  · exact .inl (if_pos ⟨hdata, hget⟩)
  · obtain ⟨hno, hwraps⟩ := hread.resolve_left hget
    refine .inr ⟨if_neg fun h => hget h.2, fun m hm => ?_, hwraps v hseen⟩
    by_contra htable
    exact hno m ⟨hm, v, hseen, htable⟩

theorem ensures_getTable_create (hsvp : w.p.svp = s :: rest) (hw : w.env.writers = t :: ts) (ht : s.txn = t.id) (n : ℕ)
    (Q : Rc → World → Prop) :
    Ensures E (getTable n true) Q w ↔
      if n < 1 then Q sqliteCorrupt w
      else if (w.env.answers .dbiOpen).headD 0 ≠ 0 then Q ((w.env.answers .dbiOpen).headD 0) (w.pop .dbiOpen)
      else if (t.view (.table n)).isSome then Q 0 (w.pop .dbiOpen)
      else Q 0 { w with env := (w.env.pop .dbiOpen).setView (.table n) (some []) } := by
  rw [getTable, ensures_bind, ensures_getP, ensures_ite, hsvp]
  dsimp only
  rw [ensures_lmdb, ht, documented.dbiOpen_create hw]
  rfl

/-- A value is put when nothing fails. -/
theorem updateMeta_puts (hsvp : w.p.svp = s :: rest) (hw : w.env.writers = t :: ts) (ht : s.txn = t.id)
    (hdata : w.p.hasData = true) (hput : (w.env.answers .put).headD 0 = 0) {es : Entries}
    (hes : t.view .metadata = some es) {idx n : ℕ} {Q : Rc → World → Prop}
    (hQ : Q sqliteOk ((w.pop .put).putMetadata (putEntry es (metaKey idx) (put4byte n)))) :
    Ensures E (sqlite3BtreeUpdateMeta idx n) Q w := by
  rw [sqlite3BtreeUpdateMeta, ensures_bind, putMeta32, ensures_bind, ensures_getP, hdata, Bool.not_true,
    if_neg Bool.false_ne_true, ensures_bind, ensures_topTxn hsvp, ensures_lmdb, ht,
    documented.put (kind_writer hw) (view_writer hw), hput, if_neg (not_not.mpr rfl), hes]
  exact hQ

/-- The innermost write transaction after a table has been created in it. -/
structure Created (w w' : World) (t : WriteTxn) (ts : List WriteTxn) (es : Entries) (n : ℕ) : Prop where
  p : w'.p = w.p
  disk : w'.env.disk = w.env.disk
  readers : w'.env.readers = w.env.readers
  metaFree : MetaFree w'.env
  writers : w'.env.writers = { t with view := Contents.create t.view es n } :: ts

theorem Created.rooted {w' : World} {es : Entries} {n : ℕ} (h : Created w w' t ts es n) (hw : w.env.writers = t :: ts)
    (hrooted : Rooted w.env) (hcovered : Covered (Contents.create t.view es n)) : Rooted w'.env := by
  refine ⟨h.metaFree, ?_, fun u hu => ?_, ?_⟩
  · rw [h.disk]
    exact hrooted.views.disk
  · rw [h.writers] at hu
    rcases List.mem_cons.mp hu with rfl | hu
    · exact hcovered
    · exact hrooted.views.writers u (by rw [hw]; exact List.mem_cons_of_mem t hu)
  · rw [h.readers]
    exact hrooted.views.readers

/-- From where the number has been read. -/
theorem createTable_creates (hsvp : w.p.svp = s :: rest) (hw : w.env.writers = t :: ts) (ht : s.txn = t.id)
    (hfree : MetaFree w.env) (hdata : w.p.hasData = true) (hopen : (w.env.answers .dbiOpen).headD 0 = 0)
    (hput : (w.env.answers .put).headD 0 = 0) {es : Entries} (hes : t.view .metadata = some es) {n : ℕ} (hn : 1 ≤ n)
    (hnew : t.view (.table n) = none) :
    Ensures E (do
      let rc ← getTable n true
      if rc ≠ 0 then pure (errorMap rc, n)
      else do
        let rc ← sqlite3BtreeUpdateMeta btreeLargestRootPage n
        pure (rc, n)) (fun r w' => r = (sqliteOk, n) ∧ Created w w' t ts es n) w := by
  rw [ensures_bind, ensures_getTable_create hsvp hw ht, if_neg (by omega), if_neg (not_not.mpr hopen), hnew,
    if_neg (by simp)]
  refine .ite (fun hrc => absurd rfl hrc) fun _ => ?_
  have hset := setView_writers (e := w.env.pop .dbiOpen) hw (.table n) (some [])
  have hpop := EnvTablesOnly.pop hfree .dbiOpen
  have htables := EnvTablesOnly.setView hpop.metaFree (DbName.noConfusion : DbName.table n ≠ .metadata) (some [])
  have hput' : (w.env.pop .dbiOpen).answers .put = w.env.answers .put := pop_answers_of_ne (by decide)
  have hes' : Function.update t.view (.table n) (some []) .metadata = some es := by
    rw [Function.update_of_ne (by simp), hes]
  rw [ensures_bind]
  have hsvp' : ({ w with env := (w.env.pop .dbiOpen).setView (.table n) (some []) } : World).p.svp = s :: rest := hsvp
  refine updateMeta_puts hsvp' hset ht hdata ((congrArg (fun l => l.headD 0) hput').trans hput) hes' ⟨rfl, rfl, rfl, rfl, ?_, ?_⟩
  · exact (EnvTablesOnly.putHeader (EnvTablesOnly.pop htables.metaFree .put).metaFree hset hes' (by decide) n).metaFree
  · exact setView_writers hset .metadata _

/-- The call in a write transaction. -/
theorem createTable_writer (hsvp : w.p.svp = s :: rest) (hw : w.env.writers = t :: ts) (ht : s.txn = t.id)
    (hrooted : Rooted w.env) (hwhole : w.CreatesWhole) :
    Ensures E sqlite3BtreeCreateTable (fun r w' => Rooted w'.env ∧ FreshRoot w r w') w := by
  have hcovered : Covered t.view := hrooted.views.writers t (by rw [hw]; exact List.mem_cons_self)
  have hseen := World.seen_writer hsvp hw ht
  have hkind : w.env.kind s.txn = some .readWrite := by rw [ht, kind_writer hw]
  have hview : w.env.view s.txn = some t.view := by rw [ht, view_writer hw]
  rw [sqlite3BtreeCreateTable, ensures_bind, ensures_getRoot hsvp hkind hview]
  obtain ⟨codes, hsame, hcodes, -⟩ := readMeta_eq w
  have hfailed : ∀ {rc : Rc} {n : ℕ} {w' : World}, rc ≠ 0 → Rooted w'.env →
      Rooted w'.env ∧ FreshRoot w (errorMap rc, n) w' := fun hrc h =>
    ⟨h, fun hok => absurd ((errorMap_eq_ok _).mp hok) hrc, fun _ hok => hrc ((errorMap_eq_ok _).mp hok)⟩
  have hread : Rooted w.readMeta.env := by
    rw [hsame]
    exact ⟨⟨hrooted.metaFree.cursors, hrooted.metaFree.shadows⟩, hrooted.views.disk, hrooted.views.writers,
      hrooted.views.readers⟩
  have hsvp₁ : w.readMeta.p.svp = s :: rest := by rw [hsame, hsvp]
  have hw₁ : w.readMeta.env.writers = t :: ts := by rw [hsame, hw]
  have hdbi₁ : w.readMeta.env.answers .dbiOpen = w.env.answers .dbiOpen := by
    rw [hsame]
    exact hcodes .dbiOpen (by decide)
  have hput₁ : w.readMeta.env.answers .put = w.env.answers .put := by
    rw [hsame]
    exact hcodes .put (by decide)
  by_cases hopen : (w.env.answers .dbiOpen).headD 0 = 0
  · obtain ⟨hdata, hput, hroot⟩ := hwhole.read (by simp [hw]) hopen hseen
    rcases hcovered.next hroot with ⟨hzero, -⟩ | ⟨hwraps, hthree, hbound, hnew, habove⟩
    · rw [nextRoot] at hzero
      rw [hzero, ensures_bind, ensures_getTable_create hsvp₁ hw₁ ht, if_pos Nat.zero_lt_one]
      exact .ite (fun hrc => hfailed hrc hread) fun hrc => absurd (by decide) hrc
    · obtain ⟨es, hes, -⟩ := hcovered.metadata
      have hdata₁ : w.readMeta.p.hasData = true := by rw [hsame, hdata]
      rw [nextRoot] at hthree hbound hnew habove
      refine (createTable_creates hsvp₁ hw₁ ht hread.metaFree hdata₁ (by rw [hdbi₁, hopen]) (by rw [hput₁, hput]) hes
        (by omega) hnew).imp fun r w' h => ?_
      obtain ⟨rfl, hcreated⟩ := h
      refine ⟨hcreated.rooted hw₁ hread (hcovered.create hes hbound habove), fun _ => ⟨hthree, ?_, ?_⟩, fun hex _ => ?_⟩
      · rintro ⟨-, v, hv, htable⟩
        obtain rfl := Option.some.inj (hseen.symm.trans hv)
        exact htable hnew
      · exact ⟨_, World.seen_writer (by rw [hcreated.p, hsvp₁]) hcreated.writers ht, Contents.create_table _ es _⟩
      · obtain ⟨v, hv, hwrap⟩ := hex
        obtain rfl := Option.some.inj (hseen.symm.trans hv)
        exact hwraps hwrap
  · generalize (if w.readRoot t.view < 2 then 3 else (w.readRoot t.view + 1) % 2 ^ 32) = n
    rw [ensures_bind, ensures_getTable_create hsvp₁ hw₁ ht, hdbi₁]
    by_cases hpos : n < 1
    · rw [if_pos hpos]
      exact .ite (fun hrc => hfailed hrc hread) fun hrc => absurd (by decide) hrc
    · have hpop : Rooted (w.readMeta.pop .dbiOpen).env := hread.roots (.pop hread.metaFree _)
      rw [if_neg hpos, if_pos hopen]
      exact .ite (fun hrc => hfailed hrc hpop) fun hrc => absurd hopen hrc

/-- Nothing is put outside of a write transaction. -/
theorem updateMeta_fails (hw : w.env.writers = []) (idx n : ℕ) :
    Ensures (fun _ => True) (sqlite3BtreeUpdateMeta idx n) (fun rc _ => rc ≠ sqliteOk) w := by
  have hfails : ∀ {rc : Rc}, rc ≠ 0 → errorMap rc ≠ sqliteOk := fun hrc hok => hrc ((errorMap_eq_ok _).mp hok)
  rw [sqlite3BtreeUpdateMeta, ensures_bind, putMeta32, ensures_bind, ensures_getP]
  refine .ite (fun _ => hfails (by decide)) fun _ => ?_
  cases hsvp : w.p.svp with
  | nil =>
    rw [topTxn, ensures_bind, ensures_bind, ensures_getP, hsvp]
    trivial
  | cons s rest =>
    rw [ensures_bind, ensures_topTxn hsvp, ensures_lmdb, mdbPut, ensures_bind, withView, ensures_bind, ensures_read, id_eq]
    cases hkind : w.env.kind s.txn with
    | none => trivial
    | some k =>
      dsimp only
      cases w.env.view s.txn with
      | none => exact hfails (by decide)
      | some v =>
        dsimp only
        rw [ensures_bind, ensures_read, id_eq, hkind]
        refine .ite (fun _ => hfails (by decide)) fun hk => ?_
        rw [Env.kind, hw, List.map_nil, if_neg List.not_mem_nil] at hkind
        split_ifs at hkind
        exact absurd (hkind.symm ▸ not_not.mp hk) (by decide)

/-- The call outside of a write transaction. -/
theorem createTable_reader (hw : w.env.writers = []) (hrooted : Rooted w.env) :
    Ensures (fun _ => True) sqlite3BtreeCreateTable (fun r w' => Rooted w'.env ∧ r.1 ≠ sqliteOk) w := by
  have hkeep : Keeps DataFrame sqlite3BtreeCreateTable :=
    dataKeeps_built (((built_createTable trivial).trans UsePart.built).mono .move)
  have hfails : Ensures (fun _ => True) sqlite3BtreeCreateTable (fun r _ => r.1 ≠ sqliteOk) w := by
    have hread : Keeps DataFrame (sqlite3BtreeGetMeta btreeLargestRootPage) :=
      dataKeeps_built (((built_getMeta btreeLargestRootPage).trans UsePart.built).mono .move)
    have hopen : ∀ n, Keeps DataFrame (getTable n true) := fun n =>
      dataKeeps_built (built_getTable (fun h => .move (.lmdb (.table h))) n fun _ => trivial)
    rw [sqlite3BtreeCreateTable, ensures_bind]
    refine (hread w).imp fun largest w₁ h₁ => ?_
    have h₁ := h₁ hrooted.metaFree
    rw [ensures_bind]
    refine (hopen _ w₁).imp fun rc w₂ h₂ => ?_
    have h₂ := h₁.trans (h₂ h₁.env.metaFree)
    refine .ite (fun hrc hok => hrc ((errorMap_eq_ok _).mp hok)) fun _ => ?_
    have hw₂ : w₂.env.writers = [] := HeadOnly.of_nil (hw ▸ h₂.env.writers)
    rw [ensures_bind]
    exact (updateMeta_fails hw₂ _ _).imp fun rc _ hrc => hrc
  refine ((hkeep w).and hfails).imp fun r w' h => ⟨?_, h.2⟩
  have henv := (h.1 hrooted.metaFree).env
  have hw' : w'.env.writers = [] := HeadOnly.of_nil (hw ▸ henv.writers)
  refine ⟨henv.metaFree, ?_, fun u hu => ?_, ?_⟩
  · rw [henv.disk]
    exact hrooted.views.disk
  · rw [hw'] at hu
    cases hu
  · rw [henv.readers]
    exact hrooted.views.readers

end Creation

/-- `sqlite3BtreeLastPage` reads the number of the last table, or does without it. -/
def World.PagesKnown (w : World) (info : Rc × ℕ) : Prop :=
  info.1 ≠ 0 ∨ (w.p.hasData = true ∧ (w.env.answers .get).headD 0 = 0 ∧ info.2 < 2 ^ 32) ∨
    ∀ n, w.HasTable n → n ≤ info.2 % 2 ^ 32

/-- Cursor `i` puts rows in a table whose number has been given. -/
def World.PutsGiven (w : World) (i : ℕ) : Prop :=
  ∀ h c n, (w.curs i).cursor = some h → w.env.cursors h = some c → c.db = .table n →
    ∀ v, w.seen = some v → n < 3 ∨ n ≤ largestRoot v

section Connections

variable {counted : Prop} {n : ℕ} {w : World}

theorem kind_of_view {e : Env} {t : ℕ} {v : Contents} (hview : e.view t = some v) : ∃ k, e.kind t = some k := by
  have hreader : (e.readers.find? fun r => r.id = t).map ReadTxn.view = some v → t ∈ e.readers.map ReadTxn.id := by
    intro hfind
    obtain ⟨r, hr, -⟩ := Option.map_eq_some_iff.mp hfind
    have hid : r.id = t := by simpa using List.find?_some hr
    rw [← hid]
    exact List.mem_map_of_mem (List.mem_of_find?_eq_some hr)
  have hlive : e.Live t := by
    rw [live_iff]
    rw [Env.view] at hview
    cases hw : e.writers with
    | nil =>
      rw [hw] at hview
      exact .inr (hreader hview)
    | cons u rest =>
      rw [hw] at hview
      dsimp only at hview
      split_ifs at hview with hid hrest
      · exact .inl (by simp [hid])
      · exact .inr (hreader hview)
  exact Option.ne_none_iff_exists'.mp hlive

theorem lastPage_covers (hrooted : Rooted w.env) (info : Rc × ℕ) :
    Ensures (fun _ => w.seen = none) (sqlite3BtreeLastPage info)
      (fun r _ => (∀ n, w.HasTable n → n ≤ r) ↔ w.PagesKnown info) w := by
  cases hseen : w.seen with
  | none =>
    have hno : ∀ n, ¬ w.HasTable n := by
      rintro n ⟨-, v, hv, -⟩
      exact absurd (hseen.symm.trans hv) (Option.some_ne_none v).symm
    have hknown : w.PagesKnown info := .inr (.inr fun n h => absurd h (hno n))
    exact ensures_iff.mpr ⟨fun _ _ _ => ⟨fun _ => hknown, fun _ n h => absurd h (hno n)⟩, fun _ _ => rfl⟩
  | some v =>
    obtain ⟨s, hs, hview⟩ := Option.bind_eq_some_iff.mp hseen
    obtain ⟨rest, hsvp⟩ : ∃ rest, w.p.svp = s :: rest := List.head?_eq_some_iff.mp hs
    obtain ⟨k, hkind⟩ := kind_of_view hview
    have hbound : ∀ m, w.HasTable m → m ≤ largestRoot v := by
      rintro m ⟨hm, v', hv', htable⟩
      obtain rfl := Option.some.inj (hseen.symm.trans hv')
      exact (hrooted.views.view hview).tables m hm htable
    have hlt := largestRoot_lt v
    rw [sqlite3BtreeLastPage]
    refine .ite (fun hinfo => ⟨fun _ => .inl hinfo, fun _ m hm => ?_⟩) fun hinfo => ?_
    · have := hbound m hm
      omega
    rw [ensures_bind, ensures_getP]
    refine .ite (fun hnil => absurd (hsvp.symm.trans hnil) (List.cons_ne_nil _ _)) fun _ => ?_
    rw [ensures_bind, ensures_getRoot hsvp hkind hview, ensures_pure, World.readRoot, World.PagesKnown]
    by_cases hread : w.p.hasData = true ∧ (w.env.answers .get).headD 0 = 0
    · rw [if_pos hread]
      by_cases hsmall : info.2 < 2 ^ 32
      · refine iff_of_true (fun m hm => ?_) (.inr (.inl ⟨hread.1, hread.2, hsmall⟩))
        have := hbound m hm
        split_ifs <;> omega
      · rw [if_neg (by omega)]
        refine ⟨fun h => .inr (.inr h), fun h => ?_⟩
        rcases h with h | ⟨-, -, h⟩ | h
        · exact absurd h hinfo
        · exact absurd h hsmall
        · exact h
    · rw [if_neg hread, if_neg (Nat.not_lt_zero _)]
      refine ⟨fun h => .inr (.inr h), fun h => ?_⟩
      rcases h with h | ⟨hdata, hget, -⟩ | h
      · exact absurd h hinfo
      · exact absurd ⟨hdata, hget⟩ hread
      · exact h

/-- The innermost write transaction is the one on top of the stack. -/
theorem Connection.top_writer (h : Connection counted n w) {t : WriteTxn} {ts : List WriteTxn}
    (hw : w.env.writers = t :: ts) : ∃ s rest, w.p.svp = s :: rest ∧ s.txn = t.id := by
  cases h.state with
  | idle _ _ hnone | failed _ _ _ hnone | lost _ _ _ _ hnone | reading _ _ _ _ hnone =>
    exact absurd (hw.symm.trans hnone) (List.cons_ne_nil _ _)
  | late s u hsvp _ _ hwriters htop _ =>
    rw [hw] at hwriters
    exact ⟨s, [], hsvp, by rw [htop, (List.cons.inj hwriters).1]⟩
  | writing hin _ =>
    obtain ⟨s, rest, hsvp⟩ := List.exists_cons_of_ne_nil hin.nonempty
    exact ⟨s, rest, hsvp, hin.aligned.top_id hsvp hw⟩

theorem createTable_rooted (h : Connection counted n w) (hrooted : Rooted w.env) (hwhole : w.CreatesWhole) :
    Ensures (fun _ => w.p.inTrans ≠ .write) sqlite3BtreeCreateTable
      (fun r w' => Rooted w'.env ∧ FreshRoot w r w') w := by
  cases hw : w.env.writers with
  | nil =>
    have hin : w.p.inTrans ≠ .write := by
      intro hin
      have hinside := h.inWrite hin
      exact hinside.aligned.writers_ne hinside.nonempty hw
    exact (createTable_reader hw hrooted).mono (fun r w' h => ⟨h.1, fun hok => absurd hok h.2, fun _ => h.2⟩) fun _ _ => hin
  | cons t ts =>
    obtain ⟨s, rest, hsvp, ht⟩ := h.top_writer hw
    exact createTable_writer hsvp hw ht hrooted hwhole

theorem Connection.putReady (h : Connection counted n w) (hrooted : Rooted w.env) {i : ℕ} (hputs : w.PutsGiven i) :
    PutReady i w := by
  refine ⟨hrooted, fun j c m hj hc _ hdb t ht => ?_⟩
  obtain ⟨ts, hw⟩ := List.head?_eq_some_iff.mp ht
  obtain ⟨s, rest, hsvp, htop⟩ := h.top_writer hw
  exact hputs j c m hj hc hdb t.view (World.seen_writer hsvp hw htop)

end Connections

section Runs

variable {ι : Type} {counted : Prop} {fixedRowid : Bool} {n : ℕ} {w : World}

/-- The calls after which the number of the last table still covers all tables. -/
def ConnCall.KeepsRoots (call : ConnCall) (w : World) : Prop :=
  match call with
  | .data .createTable => w.CreatesWhole
  | .data (.insert i _ _) => w.PutsGiven i
  | .data (.updateMeta idx _) => idx ≠ btreeLargestRootPage
  | _ => True

def ClusterStep.KeepsRoots (k : ClusterStep ι) (c : Cluster ι) : Prop := k.call.KeepsRoots (k.world c)

theorem DataCall.rooted {call : DataCall} (h : Connection counted n w) (hrooted : Rooted w.env)
    (hallowed : call.Allowed w) (hkeeps : (ConnCall.data call).KeepsRoots w) :
    Ensures (fun _ => True) call.run (fun _ w' => Rooted w'.env) w := by
  have hother : ¬ call.Alters → Ensures (fun _ => True) call.run (fun _ w' => Rooted w'.env) w := fun ha =>
    (DataCall.covers hallowed ha w).imp fun _ _ h => h hrooted
  cases call with
  | insert i pX preformat =>
    rw [DataCall.run, ignore, ensures_bind]
    exact puts_insert (h.putReady hrooted hkeeps) pX preformat
  | createTable =>
    rw [DataCall.run, ignore, ensures_bind]
    exact (createTable_rooted h hrooted hkeeps).mono (fun _ _ h => h.1) fun _ _ => trivial
  | updateMeta idx iValue => exact hother hkeeps
  | _ => exact hother id

theorem ConnCall.rooted {call : ConnCall} (h : Connection counted n w) (hrooted : Rooted w.env)
    (hallowed : call.Allowed w) (hkeeps : call.KeepsRoots w) :
    Ensures (fun _ => True) call.run (fun _ w' => Rooted w'.env) w := by
  cases call with
  | txn call => exact (TxnCall.covers call w).imp fun _ _ h => h hrooted
  | data call =>
    rw [ConnCall.run, ensures_bind]
    exact DataCall.rooted h hrooted hallowed hkeeps

/-- The number of the last table covers the tables in all that any connection sees. -/
structure RootedCluster (counted : Prop) (fixedRowid : Bool) (c : Cluster ι) : Prop where
  coherent : Coherent counted fixedRowid c
  rooted : ∀ i, Rooted (c.world i).env

variable {c : Cluster ι} {k : ClusterStep ι}

theorem RootedCluster.started (h : RootedCluster counted fixedRowid c) (i : ι) (answers : Answers) :
    Connection counted (c.since i).length ((c.world i).answering answers) ∧
      Rooted ((c.world i).answering answers).env := by
  have hrooted := h.rooted i
  exact ⟨(h.coherent.connection i).answersOnly ⟨answers, rfl⟩,
    ⟨⟨hrooted.metaFree.cursors, hrooted.metaFree.shadows⟩, hrooted.views.disk, hrooted.views.writers,
      hrooted.views.readers⟩⟩

theorem rooted_step [DecidableEq ι] (h : RootedCluster False fixedRowid c) (hallowed : k.Allowed c)
    (hkeeps : k.KeepsRoots c) :
    Ensures (fun _ => True) (clusterStep k) (fun _ c' => RootedCluster False fixedRowid c') c := by
  refine ensures_iff.mpr ⟨fun rc c' hstep => ?_, fun _ _ => trivial⟩
  have hdone := (clusterStep_done h.coherent hallowed fun hf => hf.elim).of_ok hstep
  obtain ⟨hrun, hdisk, hothers⟩ := clusterStep_run hstep
  obtain ⟨hconn, hrooted⟩ := h.started k.conn k.answers
  have hnew : Rooted (c'.world k.conn).env := (ConnCall.rooted hconn hrooted hallowed hkeeps).of_ok hrun
  refine ⟨hdone.coherent, fun i => ?_⟩
  by_cases hi : i = k.conn
  · rw [hi]
    exact hnew
  · have hold := h.rooted i
    rw [Cluster.world, hothers i hi, hdisk]
    exact ⟨⟨hold.metaFree.cursors, hold.metaFree.shadows⟩, hnew.views.disk, hold.views.writers, hold.views.readers⟩

theorem Cluster.Opened.rooted (h : c.Opened fixedRowid) (hcovered : Covered c.disk.contents)
    (hsnapshots : ∀ i, (c.conns i).env.readers = []) : RootedCluster counted fixedRowid c := by
  refine ⟨h.coherent, fun i => ⟨(h.ready i).metaFree, hcovered, fun t ht => ?_, fun r hr => ?_⟩⟩
  · rw [(h.ready i).noWriter] at ht
    cases ht
  · have hnone : (c.world i).env.readers = [] := hsnapshots i
    rw [hnone] at hr
    cases hr

/-- A table is only created where there was none, and the last page covers the tables exactly if the number of the
last one is read, or not needed. -/
structure RootPagesKept (w : World) : Prop where
  create : w.CreatesWhole →
    Ensures (fun _ => w.p.inTrans ≠ .write) sqlite3BtreeCreateTable (FreshRoot w) w
  lastPage : ∀ info, Ensures (fun _ => w.seen = none) (sqlite3BtreeLastPage info)
    (fun r _ => (∀ n, w.HasTable n → n ≤ r) ↔ w.PagesKnown info) w

/-- In every run of calls that keep the number of the last table, from a database whose number covers its tables. -/
theorem createTable_fresh [DecidableEq ι] (fixedRowid : Bool) (c₀ c : Cluster ι) (steps : List (ClusterStep ι))
    (hopened : c₀.Opened fixedRowid) (hsnapshots : ∀ i, (c₀.conns i).env.readers = [])
    (hcovered : Covered c₀.disk.contents)
    (hrun : Run clusterStep (fun k c => k.Allowed c ∧ k.KeepsRoots c) c₀ steps c) (i : ι) (answers : Answers) :
    RootPagesKept ((c.world i).answering answers) := by
  have hinv : RootedCluster False fixedRowid c :=
    hrun.invariant (fun k c h hk => rooted_step h hk.1 hk.2) (hopened.rooted hcovered hsnapshots)
  obtain ⟨hconn, hrooted⟩ := hinv.started i answers
  exact ⟨fun hwhole => (createTable_rooted hconn hrooted hwhole).imp fun _ _ h => h.2, lastPage_covers hrooted⟩

end Runs

/-- A database without tables but the first. -/
theorem countedDatabase_covered (counter : ℕ) : Covered (countedDatabase counter).disk.contents := by
  refine ⟨((countedDatabase_opened counter).ready ()).metadata, fun n hn htable => ?_⟩
  have hthere : Function.update newDisk.contents .metadata
      (some [(metaKey lumoLmdbMetaCounter, put8 false counter)]) (.table n) ≠ none := htable
  rw [Function.update_of_ne (by simp)] at hthere
  refine absurd (if_neg fun h => ?_) hthere
  rcases h with h | h
  · have := DbName.table.inj h
    omega
  · cases h

def createStep : ClusterStep Unit := ⟨(), .data .createTable, fun _ => []⟩

/-- Begin a transaction and create a table in it. -/
def createOnce : Except Halt (Rc × Bool × Rc) := do
  let r₁ ← clusterStep beginStep (countedDatabase 0)
  let r₂ ← clusterStep createStep r₁.2
  pure (r₁.1, (r₁.2.world ()).p.hasData, r₂.1)

theorem createTable_fresh_sample : ∃ c, Run clusterStep (fun k c => k.Allowed c ∧ k.KeepsRoots c) (countedDatabase 0)
    [beginStep, createStep] c ∧ RootPagesKept ((c.world ()).answering fun _ => []) := by
  have hcreate : createOnce.toOption = some (sqliteOk, true, sqliteOk) := by decide +kernel
  rw [createOnce] at hcreate
  cases hbegin : clusterStep beginStep (countedDatabase 0) with
  | error e =>
    rw [hbegin] at hcreate
    cases hcreate
  | ok r₁ =>
    rw [hbegin] at hcreate
    cases hstep : clusterStep createStep r₁.2 with
    | error e =>
      simp only [hstep, bind, Except.bind] at hcreate
      cases hcreate
    | ok r₂ =>
      simp only [hstep, bind, Except.bind, pure, Except.pure, Except.toOption, Option.some.injEq,
        Prod.mk.injEq] at hcreate
      obtain ⟨-, hdata, -⟩ := hcreate
      have hrun : Run clusterStep (fun k c => k.Allowed c ∧ k.KeepsRoots c) (countedDatabase 0)
          [beginStep, createStep] r₂.2 :=
        .cons ⟨trivial, trivial⟩ hbegin (.cons ⟨trivial, .inr (.inr ⟨hdata, rfl, .inl rfl⟩)⟩ hstep (.nil _))
      exact ⟨r₂.2, hrun, createTable_fresh false (countedDatabase 0) r₂.2 [beginStep, createStep]
        (countedDatabase_opened 0) (fun _ => rfl) (countedDatabase_covered 0) hrun () fun _ => []⟩

/-- `mdb_get` runs out of memory once. -/
def getFails : Answers := Function.update (fun _ => []) .get [enomem]

/-- Create two tables, and look whether the first is there before the second is created. -/
def createTwice : Except Halt ((Rc × Rc × ℕ) × (Rc × Option Bool) × Rc × ℕ) := do
  let r₁ ← clusterStep beginStep (countedDatabase 0)
  let a ← sqlite3BtreeCreateTable (createStep.world r₁.2)
  let r₂ ← clusterStep createStep r₁.2
  let w := (r₂.2.world ()).answering getFails
  let b ← sqlite3BtreeCreateTable w
  pure ((r₁.1, a.1), (r₂.1, w.seen.map fun v => (v (.table 3)).isSome), b.1)

/-- When `mdb_get` fails the new table is the one that is there. -/
theorem createTable_aliases : ∃ (c₁ c₂ : Cluster Unit) (w₁ w₂ : World),
    clusterStep beginStep (countedDatabase 0) = .ok (sqliteOk, c₁) ∧
    sqlite3BtreeCreateTable (createStep.world c₁) = .ok ((sqliteOk, 3), w₁) ∧
    clusterStep createStep c₁ = .ok (sqliteOk, c₂) ∧ ((c₂.world ()).answering getFails).HasTable 3 ∧
    sqlite3BtreeCreateTable ((c₂.world ()).answering getFails) = .ok ((sqliteOk, 3), w₂) := by
  have hrun : createTwice.toOption = some ((sqliteOk, sqliteOk, 3), (sqliteOk, some true), sqliteOk, 3) := by
    decide +kernel
  rw [createTwice] at hrun
  cases hbegin : clusterStep beginStep (countedDatabase 0) with
  | error e =>
    rw [hbegin] at hrun
    cases hrun
  | ok r₁ =>
    rw [hbegin] at hrun
    cases hfirst : sqlite3BtreeCreateTable (createStep.world r₁.2) with
    | error e =>
      simp only [hfirst, bind, Except.bind] at hrun
      cases hrun
    | ok a =>
      cases hstep : clusterStep createStep r₁.2 with
      | error e =>
        simp only [hfirst, hstep, bind, Except.bind] at hrun
        cases hrun
      | ok r₂ =>
        cases hsecond : sqlite3BtreeCreateTable ((r₂.2.world ()).answering getFails) with
        | error e =>
          simp only [hfirst, hstep, hsecond, bind, Except.bind] at hrun
          cases hrun
        | ok b =>
          simp only [hfirst, hstep, hsecond, bind, Except.bind, pure, Except.pure, Except.toOption, Option.some.injEq,
            Prod.mk.injEq] at hrun
          obtain ⟨⟨hrc₁, hroot₁⟩, ⟨hrc₂, hthere⟩, hroot₂⟩ := hrun
          obtain ⟨v, hseen, hsome⟩ := Option.map_eq_some_iff.mp hthere
          refine ⟨r₁.2, r₂.2, a.2, b.2, by rw [← hrc₁], ?_, by rw [hstep, ← hrc₂], ⟨le_rfl, v, hseen, ?_⟩, ?_⟩
          · rw [hfirst, ← hroot₁]
          · exact Option.isSome_iff_ne_none.mp hsome
          · rw [hsecond, ← hroot₂]

end LumoSql.Btree
