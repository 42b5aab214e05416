import LumoSql.CursorSeeks

/-! Insertions into indexes and `WITHOUT ROWID` tables: when the row that was inserted is the one
that is read back. -/
namespace LumoSql.Btree
open StateLogic Lmdb RowidEncoding SortedEntries

/-- The unpacked key of a row, given or made from its record. -/
def Payload.unpacked (pX : Payload) (keyInfo : KeyInfo) : Option (Bytes → Ordering) :=
  match pX.aMem with
  | some unpacked => some unpacked
  | none => keyInfo.unpack pX.pKey

/-- The data of a row: a zero, and behind it the Lumo column if there can be one. -/
def Payload.indexData (pX : Payload) (lumoData : Bool) : Bytes := 0 :: if lumoData then pX.pData else []

/-- Keys that compare equal with the one looked for. -/
def equals (probe : Bytes → Ordering) (es : Entries) : Entries := es.filter fun e => probe e.1 = .eq

def others (probe : Bytes → Ordering) (es : Entries) : Entries := es.filter fun e => probe e.1 ≠ .eq

/-- The b-tree with the entries `es` before has one entry equal to the key now, which cursor `i`
reads as `pKey`; the other entries are the same. -/
structure Replaces (probe : Bytes → Ordering) (es : Entries) (pKey : Bytes) (i : ℕ) (w : World) : Prop where
  entries : ∃ h c es', Reads w i h c es' ∧ (equals probe es').length = 1 ∧ others probe es' = others probe es
  fetched : Ensures (fun _ => False) (sqlite3BtreePayloadFetch i) (fun bytes _ => bytes = pKey) w.calm

/-- At most one entry is equal to the key, and if its bytes differ so does the length of its data. -/
def Replaceable (probe : Bytes → Ordering) (es : Entries) (pKey data : Bytes) : Prop :=
  (equals probe es).length ≤ 1 ∧
    ∀ e ∈ es, probe e.1 = .eq → e.1 = pKey ∨ e.2.length ≠ data.length

section Place

variable {probe : Bytes → Ordering} {es : Entries} {pKey data : Bytes}

theorem overwrite_key_iff (o : Bytes × Bytes) :
    (overwrite pKey data o).1 = pKey ↔ o.1 = pKey ∨ o.2.length ≠ data.length := by
  rw [overwrite]
  by_cases hlen : o.2.length = data.length <;> simp [hlen]

theorem equals_place (hgraded : Graded probe es) (hkey : probe pKey = .eq) :
    equals probe (place probe (pKey, data) (overwrite pKey data) es) =
      match equals probe es with
      | [] => [(pKey, data)]
      | o :: rest => overwrite pKey data o :: rest := by
  have hover : ∀ o : Bytes × Bytes, probe o.1 = .eq → probe (overwrite pKey data o).1 = .eq := by
    intro o ho
    rw [overwrite]
    by_cases hlen : o.2.length = data.length
    · simpa [hlen] using ho
    · simpa [hlen] using hkey
  rw [equals, hgraded.filter_eq_place (e := (pKey, data)) hkey hover, equals]
  cases es.filter fun e => probe e.1 = .eq <;> rfl

theorem others_place (hkey : probe pKey = .eq) :
    others probe (place probe (pKey, data) (overwrite pKey data) es) = others probe es := by
  refine filter_place (by simpa using hkey) fun o ho => ?_
  have hoeq := (mem_of_lookup ho).2
  refine ⟨by simpa using hoeq, ?_⟩
  rw [overwrite]
  by_cases hlen : o.2.length = data.length
  · simpa [hlen] using hoeq
  · simpa [hlen] using hkey

/-- What the entries after an insertion say about the entries before. -/
theorem equals_place_iff (hgraded : Graded probe es) (hkey : probe pKey = .eq) :
    ((equals probe (place probe (pKey, data) (overwrite pKey data) es)).length = 1 ∧
      ∀ e ∈ equals probe (place probe (pKey, data) (overwrite pKey data) es), e.1 = pKey) ↔
    Replaceable probe es pKey data := by
  have hmem : ∀ e, e ∈ es ∧ probe e.1 = .eq ↔ e ∈ equals probe es := fun e => by simp [equals]
  rw [equals_place hgraded hkey, Replaceable]
  cases hl : equals probe es with
  | nil =>
    refine iff_of_true ⟨rfl, by simp⟩ ⟨by simp, fun e he heq => ?_⟩
    have := (hmem e).mp ⟨he, heq⟩
    rw [hl] at this
    cases this
  | cons o rest =>
    constructor
    · rintro ⟨hlen, hkeys⟩
      obtain rfl : rest = [] := by simpa using hlen
      refine ⟨by simp, fun e he heq => ?_⟩
      have := (hmem e).mp ⟨he, heq⟩
      rw [hl, List.mem_singleton] at this
      rw [this]
      exact (overwrite_key_iff o).mp (hkeys _ List.mem_cons_self)
    · rintro ⟨hlen, hkeys⟩
      obtain rfl : rest = [] := by simpa using hlen
      have ho : o ∈ equals probe es := by simp [hl]
      refine ⟨rfl, fun e he => ?_⟩
      rw [List.mem_singleton.mp he]
      exact (overwrite_key_iff o).mpr (hkeys o ((hmem o).mpr ho).1 ((hmem o).mpr ho).2)

end Place

section Insertion

variable {E : Halt → Prop} {w : World} {i h : ℕ} {c : MdbCursor} {es : Entries}

/-- A cursor on an entry of an index fetches its key. -/
theorem payloadFetch_index (hc : Reads w i h c es) (hsaved : (w.curs i).savedKey = none)
    (hindex : (w.curs i).keyInfo.isSome = true) (hinit : c.pos.initialized = true) {e : Bytes × Bytes}
    (he : es[c.pos.index]? = some e) :
    Ensures E (sqlite3BtreePayloadFetch i) (fun bytes _ => bytes = e.1) w.calm := by
  have hc' : Reads w.calm i h c es := ⟨hc.handle, hc.live, hc.view⟩
  obtain ⟨keyInfo, hinfo⟩ := Option.isSome_iff_exists.mp hindex
  have hsaved' : (w.calm.curs i).savedKey = none := hsaved
  have hinfo' : (w.calm.curs i).keyInfo = some keyInfo := hinfo
  have hmove : CursorOp.getCurrent.move es c.pos = ({ c.pos with deleted := false }, 0, e) := by
    simp only [CursorOp.move, moveCurrent, hinit, Bool.not_true, Bool.false_eq_true, if_false, he]
  rw [sqlite3BtreePayloadFetch, ensures_bind, ensures_getCur, hsaved', hinfo']
  simp only [ensures_bind]
  rw [hc'.handle, hc'.ensures_get, if_neg (by simp [World.calm]), hmove]
  rfl

/-- The world after a cursor wrote one entry. -/
theorem put_spec (hc : Reads w i h c es) (probe : Bytes → Ordering) (key val : Bytes)
    {Q : Rc → World → Prop} (hfail : ∀ rc w', rc ≠ 0 → Q rc w')
    (hput : ∀ w', w'.curs = w.curs → w'.fixedRowid = w.fixedRowid →
      Reads w' i h { c with pos := ⟨true, false, false, lowerBound probe es⟩ }
        (place probe (key, val) (overwrite key val) es) → Q 0 w') :
    Ensures E (lmdb (mdbCursorPut (some h) probe key val)) Q w := by
  obtain ⟨v, hview, hes⟩ := hc.view
  by_cases hmem : c.txn ∈ w.env.writers.map WriteTxn.id
  · cases hw : w.env.writers with
    | nil =>
      rw [hw] at hmem
      cases hmem
    | cons t rest =>
      obtain rfl : t.view = v := by
        rw [Env.cursorView, if_pos hmem, hw] at hview
        exact Option.some.inj hview
      rw [ensures_lmdb]
      obtain ⟨f, hlaw⟩ := documented.cursorPut hc.live hw hmem probe key val
      rw [hlaw]
      split_ifs with hcode hsize
      · exact hfail _ _ hcode
      · exact hfail _ _ (by decide)
      rw [hes]
      refine hput _ rfl rfl ⟨hc.handle, ?_, ?_⟩
      · simp [Env.setCursor]
      · refine ⟨Function.update t.view c.db (some (place probe (key, val) (overwrite key val) es)), ?_, ?_⟩
        · have hw' : (w.env.pop .cursorPut).writers = t :: rest := hw
          rw [Env.cursorView, Env.setCursor, Env.adjust, setView_writers hw']
          rw [hw] at hmem
          exact if_pos hmem
        · simp
  · rw [ensures_lmdb, mdbCursorPut, ensures_bind, ensures_read]
    simp only [id_eq, hc.live, if_pos hmem, ensures_pure]
    exact hfail _ _ (by decide)

theorem unpackKey_spec (hc : Reads w i h c es) (keyInfo : KeyInfo) (pX : Payload) :
    Ensures E (unpackKey keyInfo pX) (fun u w' => w'.curs = w.curs ∧ w'.p = w.p ∧ Reads w' i h c es ∧
      (u.1 = sqliteOk → pX.unpacked keyInfo = some u.2)) w := by
  rw [unpackKey, Payload.unpacked]
  cases pX.aMem with
  | some unpacked => exact ⟨rfl, rfl, hc, fun _ => rfl⟩
  | none =>
    dsimp only
    rw [ensures_bind, ensures_lmdb, ensures_answer]
    have hpop := hc.pop .malloc
    refine Ensures.ite (fun _ => ⟨rfl, rfl, hpop, fun hok => absurd hok (by decide)⟩) fun _ => ?_
    cases keyInfo.unpack pX.pKey with
    | none => exact ⟨rfl, rfl, hpop, fun hok => absurd hok (by decide)⟩
    | some unpacked => exact ⟨rfl, rfl, hpop, fun _ => rfl⟩

/-- After the entry was placed the cursor is on it. -/
theorem replaces_iff {probe : Bytes → Ordering} {pKey data : Bytes} (hgraded : Graded probe es)
    (hkey : probe pKey = .eq)
    (hc : Reads w i h { c with pos := ⟨true, false, false, lowerBound probe es⟩ }
      (place probe (pKey, data) (overwrite pKey data) es))
    (hsaved : (w.curs i).savedKey = none) (hindex : (w.curs i).keyInfo.isSome = true) :
    Replaces probe es pKey i w ↔ Replaceable probe es pKey data := by
  set es' := place probe (pKey, data) (overwrite pKey data) es with hes'
  have hat : es'[lowerBound probe es]? = some ((lookup probe es).elim (pKey, data) (overwrite pKey data)) :=
    getElem?_place _ _
  set e := (lookup probe es).elim (pKey, data) (overwrite pKey data) with he
  have heq : probe e.1 = .eq := by
    rw [he]
    cases hl : lookup probe es with
    | none => exact hkey
    | some o =>
      rw [Option.elim_some, overwrite]
      by_cases hlen : o.2.length = data.length
      · simpa [hlen] using (mem_of_lookup hl).2
      · simpa [hlen] using hkey
  have hemem : e ∈ equals probe es' :=
    List.mem_filter.mpr ⟨List.mem_of_getElem? hat, decide_eq_true heq⟩
  have hfetch := payloadFetch_index (E := fun _ => False) hc hsaved hindex rfl hat
  rw [← equals_place_iff hgraded hkey, ← hes']
  constructor
  · rintro ⟨⟨h', c', es'', hc'', hlen, -⟩, hfetched⟩
    obtain rfl := (hc.unique hc'').2.2
    refine ⟨hlen, fun x hx => ?_⟩
    obtain ⟨only, honly⟩ := List.length_eq_one_iff.mp hlen
    rw [honly, List.mem_singleton] at hemem hx
    obtain ⟨bytes, -, -, hbytes, hbytes'⟩ := (hfetch.and hfetched).result
    rw [hx, ← hemem, ← hbytes, hbytes']
  · rintro ⟨hlen, hkeys⟩
    refine ⟨⟨h, _, es', hc, hlen, others_place hkey⟩, ?_⟩
    exact hfetch.imp fun bytes _ hbytes => hbytes.trans (hkeys e hemem)

theorem sqlite3BtreeInsert_index {keyInfo : KeyInfo} (hw : Sees w i es)
    (hopen : (w.curs i).pBtree = true) (hinfo : (w.curs i).keyInfo = some keyInfo) {pX : Payload}
    (hkeys : ∀ unpacked, pX.unpacked keyInfo = some unpacked →
      Graded (indexProbe unpacked) es ∧ unpacked pX.pKey = .eq) :
    Ensures E (sqlite3BtreeInsert i pX false) (fun rc w' => rc = sqliteOk →
      ∃ unpacked, pX.unpacked keyInfo = some unpacked ∧
        (Replaces (indexProbe unpacked) es pX.pKey i w' ↔
          Replaceable (indexProbe unpacked) es pX.pKey (pX.indexData w.p.lumoData))) w := by
  have hfail : ∀ {rc : Rc} {P : Prop}, rc ≠ sqliteOk → rc = sqliteOk → P := fun hrc hok => absurd hok hrc
  rw [sqlite3BtreeInsert, ensures_bind, ensures_getCur, hopen]
  refine Ensures.ite (fun hno => absurd hno (by decide)) fun _ => ?_
  rw [ensures_bind]
  refine hw.restore.imp fun rc w₁ hrc => ?_
  refine Ensures.ite (fun hne => hfail hne) fun hok => ?_
  have hready := hrc (not_not.mp hok)
  obtain ⟨h, c, hc⟩ := hready.reads
  have hinfo₁ := hready.keyInfo.trans hinfo
  rw [if_neg (by decide), ensures_bind, ensures_pure]
  refine Ensures.ite (fun hne => absurd rfl hne) fun _ => ?_
  rw [ensures_bind, ensures_getCur, hinfo₁]
  dsimp only
  rw [insertIndex, ensures_bind]
  refine (unpackKey_spec hc keyInfo pX).imp fun u w₂ hu => ?_
  obtain ⟨hcurs, hp, hc₂, hunpacked⟩ := hu
  refine Ensures.ite (fun hne => hfail hne) fun huok => ?_
  have hu := hunpacked (not_not.mp huok)
  obtain ⟨hgraded, hkey⟩ := hkeys u.2 hu
  rw [if_neg (by decide)]
  refine Ensures.ite (fun _ => hfail (by decide)) fun _ => ?_
  rw [ensures_bind, ensures_getCur, ensures_bind, ensures_getP, ensures_bind, hc₂.handle]
  refine put_spec hc₂ _ _ _ (fun rc w' hne => ?_) fun w' hcurs' _ hc' _ => ⟨u.2, hu, ?_⟩
  · exact hfail fun hok => hne ((errorMap_eq_ok rc).mp hok)
  · rw [hp, hready.handle] at hc'
    have hcur : w'.curs i = w₁.curs i := by rw [hcurs', hcurs]
    refine replaces_iff hgraded ?_ hc' ?_ ?_
    · rw [indexProbe, hkey]
      rfl
    · rw [hcur]
      exact hready.unsaved
    · rw [hcur, hinfo₁]
      rfl

end Insertion

/-- An insertion into an index replaces the equal entry exactly when that is at most one, with the
same bytes or with data of another length. -/
theorem index_insert_replaces_iff {w : World} {i : ℕ} {es : Entries} {keyInfo : KeyInfo} (hw : Sees w i es)
    (hopen : (w.curs i).pBtree = true) (hinfo : (w.curs i).keyInfo = some keyInfo) {pX : Payload}
    (hkeys : ∀ unpacked, pX.unpacked keyInfo = some unpacked →
      Graded (indexProbe unpacked) es ∧ unpacked pX.pKey = .eq) :
    Ensures (fun _ => False) (sqlite3BtreeInsert i pX false) (fun rc w' => rc = sqliteOk →
      ∃ unpacked, pX.unpacked keyInfo = some unpacked ∧
        (Replaces (indexProbe unpacked) es pX.pKey i w' ↔
          Replaceable (indexProbe unpacked) es pX.pKey (pX.indexData w.p.lumoData))) w :=
  sqlite3BtreeInsert_index hw hopen hinfo hkeys

/-- Records of bytes compared by the first of them, the primary key. -/
def primaryKey (key stored : Bytes) : Ordering := compare (stored.headD 0).toNat (key.headD 0).toNat

/-- A write transaction with cursor `0` on a `WITHOUT ROWID` table that has the row `1, 2`. -/
def withoutRowid : World := { emptyTable false with
  env := { (emptyTable false).env with
    writers := [⟨0, fun db => if db = .table 3 then some [([1, 2], [0])] else none, fun _ => none⟩] }
  curs := fun i => { (emptyTable false).curs i with keyInfo := some ⟨fun key => some (primaryKey key)⟩ } }

def keyOnly (key : Bytes) : Payload := ⟨key.length, key, [], 0, some (primaryKey key)⟩

theorem withoutRowid_insert (key : Bytes) :
    Ensures (fun _ => False) (sqlite3BtreeInsert 0 (keyOnly key) false) (fun rc w' => rc = sqliteOk →
      (Replaces (indexProbe (primaryKey key)) [([1, 2], [0])] key 0 w' ↔
        Replaceable (indexProbe (primaryKey key)) [([1, 2], [0])] key [0])) withoutRowid := by
  have hsees : Sees withoutRowid 0 [([1, 2], [0])] := Or.inl ⟨rfl, 1, ⟨0, .table 3, .unset⟩, rfl, rfl, _, rfl, rfl⟩
  refine (sqlite3BtreeInsert_index hsees rfl rfl ?_).imp ?_
  · rintro unpacked ⟨rfl⟩
    exact ⟨List.pairwise_singleton _ _, compare_eq_iff_eq.mpr rfl⟩
  · intro rc w' h hok
    obtain ⟨unpacked, ⟨rfl⟩, hiff⟩ := h hok
    exact hiff

theorem index_insert_replaces_iff_sample : ∃ rc w', sqlite3BtreeInsert 0 (keyOnly [5, 6]) false withoutRowid =
    .ok (rc, w') ∧ (rc = sqliteOk → Replaces (indexProbe (primaryKey [5, 6])) [([1, 2], [0])] [5, 6] 0 w') := by
  have hsees : Sees withoutRowid 0 [([1, 2], [0])] := Or.inl ⟨rfl, 1, ⟨0, .table 3, .unset⟩, rfl, rfl, _, rfl, rfl⟩
  have hkeys : ∀ unpacked, (keyOnly [5, 6]).unpacked ⟨fun key => some (primaryKey key)⟩ = some unpacked →
      Graded (indexProbe unpacked) ([([1, 2], [0])] : Entries) ∧ unpacked (keyOnly [5, 6]).pKey = .eq := by
    rintro unpacked ⟨rfl⟩
    exact ⟨List.pairwise_singleton _ _, compare_eq_iff_eq.mpr rfl⟩
  obtain ⟨rc, w', hrun, hres⟩ := (index_insert_replaces_iff hsees rfl rfl hkeys).result
  refine ⟨rc, w', hrun, fun hok => ?_⟩
  obtain ⟨unpacked, ⟨rfl⟩, hiff⟩ := hres hok
  refine hiff.mpr ⟨by decide, fun e he heq => ?_⟩
  rw [List.mem_singleton.mp he] at heq
  exact absurd heq (by decide)

/-- The row `1, 9` does not replace the row `1, 2`, whose bytes stay. -/
theorem update_without_effect : ∃ rc w', sqlite3BtreeInsert 0 (keyOnly [1, 9]) false withoutRowid = .ok (rc, w') ∧
    rc = sqliteOk ∧ ¬ Replaces (indexProbe (primaryKey [1, 9])) [([1, 2], [0])] [1, 9] 0 w' := by
  obtain ⟨rc, w', hrun, hiff⟩ := (withoutRowid_insert [1, 9]).result
  have hcode : (sqlite3BtreeInsert 0 (keyOnly [1, 9]) false withoutRowid).toOption.map (fun r => r.1) =
      some sqliteOk := by decide +kernel
  rw [hrun] at hcode
  have hok : rc = sqliteOk := Option.some.inj hcode
  refine ⟨rc, w', hrun, hok, fun hreplaces => ?_⟩
  have := ((hiff hok).mp hreplaces).2 ([1, 2], [0]) (by simp) (by decide)
  exact absurd this (by decide)

end LumoSql.Btree
