import LumoSql.SavepointLevels

/-! Reading and writing metadata, and what beginning and upgrading a transaction do. -/
namespace LumoSql.Btree
open StateLogic Lmdb RowidEncoding

section Metadata

variable {E : Halt → Prop} {w : World} {s : BtreeSavepoint} {rest : List BtreeSavepoint}

theorem ensures_topTxn (hsvp : w.p.svp = s :: rest) (Q : ℕ → World → Prop) :
    Ensures E topTxn Q w ↔ Q s.txn w := by
  rw [topTxn, ensures_bind, ensures_getP, hsvp]
  rfl

/-- The world after `n` codes for `c` have been given. -/
def World.pop (w : World) (c : Fallible) : World := { w with env := w.env.pop c }

/-- What `mdb_get` gives for a metadata value when it answers `rc`. -/
def metaEntry (c : Contents) (rc : Rc) (idx : ℕ) : Rc × Bytes :=
  if rc ≠ 0 then (rc, []) else c.get .metadata (metaKey idx)

/-- A 64 bit metadata value as `get_meta_64` reads it. -/
def meta64 (fixedRowid : Bool) (c : Contents) (rc : Rc) (idx : ℕ) : ℤ :=
  if (metaEntry c rc idx).1 ≠ 0 then 0 else toInt (get8 fixedRowid (metaEntry c rc idx).2)

variable {k : TxnKind} {c : Contents}

/-- The world after a metadata value has been read. -/
def World.readMeta (w : World) : World := if w.p.hasData then w.pop .get else w

/-- Reading changes nothing but the codes of `mdb_get`. -/
theorem readMeta_eq (w : World) : ∃ codes : Answers,
    w.readMeta = { w with env := { w.env with answers := codes } } ∧
      (∀ c, c ≠ .get → codes c = w.env.answers c) ∧
      codes .get = if w.p.hasData then (w.env.answers .get).tail else w.env.answers .get := by
  rw [World.readMeta]
  split_ifs
  · exact ⟨(w.env.pop .get).answers, rfl, fun c hc => pop_answers_of_ne hc, pop_answers_self .get⟩
  · exact ⟨w.env.answers, rfl, fun _ _ => rfl, rfl⟩

theorem ensures_getMeta64 (hsvp : w.p.svp = s :: rest) (hkind : w.env.kind s.txn = some k)
    (hview : w.env.view s.txn = some c) (idx : ℕ) (Q : ℤ → World → Prop) :
    Ensures E (getMeta64 idx) Q w ↔
      Q (if w.p.hasData then meta64 w.fixedRowid c ((w.env.answers .get).headD 0) idx else 0)
        w.readMeta := by
  rw [getMeta64, ensures_bind, ensures_getP, World.readMeta]
  cases hdata : w.p.hasData with
  | false => rfl
  | true =>
    rw [if_neg (by decide), if_pos rfl, if_pos rfl, ensures_bind, ensures_topTxn hsvp, ensures_bind, ensures_lmdb,
      documented.get hkind hview, ← metaEntry, meta64, ensures_ite]
    split_ifs <;> rfl

theorem getMeta32_spec (hsvp : w.p.svp = s :: rest) (hkind : w.env.kind s.txn = some k)
    (hview : w.env.view s.txn = some c) (idx : ℕ) :
    Ensures E (getMeta32 idx) (fun _ w' => w' = w ∨ w' = w.pop .get) w := by
  rw [getMeta32, ensures_bind, ensures_getP]
  cases w.p.hasData with
  | false => exact .inl rfl
  | true =>
    rw [if_neg (by decide), ensures_bind, ensures_topTxn hsvp, getMeta32Direct, ensures_bind,
      ensures_lmdb, documented.get hkind hview]
    simp only [ensures_ite, ensures_pure]
    split_ifs <;> exact .inr rfl

/-- The version is read when the transaction is there already. -/
theorem beginGetVersion_spec (hsvp : w.p.svp = s :: rest) (hkind : w.env.kind s.txn = some k)
    (hview : w.env.view s.txn = some c) (pSchemaVersion : Bool) :
    Ensures E (beginGetVersion pSchemaVersion) (fun r w' => r.1 = sqliteOk ∧
      (w' = w ∨ w' = w.pop .get)) w := by
  rw [beginGetVersion]
  cases pSchemaVersion with
  | false => exact ⟨rfl, .inl rfl⟩
  | true =>
    rw [if_pos rfl, ensures_bind]
    exact (getMeta32_spec hsvp hkind hview _).imp fun _ _ h => ⟨rfl, h⟩

def World.putMetadata (w : World) (es : Entries) : World :=
  { w with env := w.env.setView .metadata (some es) }

theorem ensures_putMeta64 (hsvp : w.p.svp = s :: rest) {t : WriteTxn} {ts : List WriteTxn}
    (hw : w.env.writers = t :: ts) (ht : s.txn = t.id) (idx uValue : ℕ) (Q : Rc → World → Prop) :
    Ensures E (putMeta64 idx uValue) Q w ↔
      if !w.p.hasData then Q eacces w
      else if (w.env.answers .put).headD 0 ≠ 0 then
        Q ((w.env.answers .put).headD 0) (w.pop .put)
      else match t.view .metadata with
        | none => Q einval (w.pop .put)
        | some es => Q 0 ((w.pop .put).putMetadata
            (putEntry es (metaKey idx) (put8 w.fixedRowid uValue))) := by
  rw [putMeta64, ensures_bind, ensures_getP]
  cases hdata : w.p.hasData with
  | false => rfl
  | true =>
    rw [Bool.not_true, if_neg (by decide), if_neg (by decide), ensures_bind, ensures_topTxn hsvp,
      ensures_bind, ensures_build, ensures_lmdb, ht,
      documented.put (kind_writer hw) (view_writer hw)]
    rfl

end Metadata

section Begin

variable {E : Halt → Prop} {w : World}

/-- The handle after a transaction has begun. -/
def begun (p : Btree) (wrFlag : Bool) (txn : ℕ) (hasData : Bool) : Btree :=
  { p with
    svp := [⟨txn, -1⟩], hasData := hasData, inTrans := if wrFlag then .write else .read }

/-- A transaction that began on the contents of the disk; `hasData` tells whether its metadata
could be opened. -/
inductive Began (wrFlag : Bool) (w w' : World) : Prop
  | reader (hrdonly : beginRdonly w.p wrFlag = true) (hasData : Bool)
      (hdata : (w.env.answers .dbiOpen).headD 0 ≠ mdbNotfound →
        (w.env.disk.contents .metadata).isSome = true → hasData = true)
      (hp : w'.p = begun w.p wrFlag w.env.next hasData) (hwriters : w'.env.writers = [])
      (hreaders : w'.env.readers = ⟨w.env.next, w.env.disk.contents⟩ :: w.env.readers)
      (hdisk : w'.env.disk = w.env.disk)
  | writer (hrdonly : beginRdonly w.p wrFlag = false) (hasData : Bool)
      (hdata : (w.env.answers .dbiOpen).headD 0 ≠ mdbNotfound →
        (w.env.disk.contents .metadata).isSome = true → hasData = true)
      (hp : w'.p = begun w.p wrFlag w.env.next hasData)
      (hwriters : w'.env.writers = [⟨w.env.next, w.env.disk.contents, w.env.cursors⟩])
      (hunlocked : w.env.disk.locked = false)
      (hdisk : w'.env.disk = { w.env.disk with locked := true })

theorem view_snapshot {e : Env} {r : ReadTxn} {rs : List ReadTxn} (hwriters : e.writers = [])
    (hreaders : e.readers = r :: rs) :
    e.kind r.id = some .readOnly ∧ e.view r.id = some r.view := by
  constructor
  · exact kind_reader (by rw [hreaders]; exact List.mem_cons_self) (by rw [hwriters]; simp)
  · rw [view_reader hwriters, hreaders, List.find?_cons_of_pos (by simp)]
    rfl

/-- A transaction cannot begin, or its metadata cannot be opened. -/
def BeginStops (w : World) : Prop :=
  (w.env.answers .txnBegin).headD 0 ≠ 0 ∨ (w.env.answers .dbiOpen).headD 0 ≠ 0 ∨
    (w.env.disk.contents .metadata).isSome = false

/-- Why opening the metadata fails. -/
theorem dbiOpen_cause (codes : List Rc) (es : Option Entries) :
    (if codes.headD 0 ≠ 0 then codes.headD 0 else if es.isSome then 0 else mdbNotfound) ≠ 0 ↔
      codes.headD 0 ≠ 0 ∨ es.isSome = false := by
  by_cases hcode : codes.headD 0 ≠ 0
  · rw [if_pos hcode]
    exact iff_of_true hcode (.inl hcode)
  · rw [if_neg hcode]
    cases es with
    | none => exact iff_of_true (by decide) (.inr rfl)
    | some es =>
      refine iff_of_false (by simp) ?_
      rintro (h | h)
      · exact hcode h
      · cases h

/-- Opening the metadata of a new transaction succeeds, or ends it. -/
theorem beginOpened_spec (wrFlag : Bool) {txn : ℕ} {k : TxnKind} {c : Contents}
    (hkind : w.env.kind txn = some k) (hview : w.env.view txn = some c)
    {Q : Rc → World → Prop}
    (hok : ∀ hasData, ((w.env.answers .dbiOpen).headD 0 ≠ mdbNotfound →
      (c .metadata).isSome = true → hasData = true) → Q sqliteOk
      { w with env := w.env.pop .dbiOpen, p := begun w.p wrFlag txn hasData })
    (hfail : ∀ rc, rc ≠ 0 →
      (w.env.answers .dbiOpen).headD 0 ≠ 0 ∨ (c .metadata).isSome = false →
      Ensures E (lmdb (mdbTxnAbort txn))
        (fun _ w' => Q (errorMap rc) { w' with p := { w'.p with svp := [] } })
        { w with env := w.env.pop .dbiOpen, p := { w.p with svp := [⟨txn, -1⟩] } }) :
    Ensures E (beginOpened wrFlag txn) Q w := by
  rw [beginOpened, ensures_bind, ensures_setP, ensures_bind, ensures_lmdb,
    documented.dbiOpen hkind hview]
  have hcause := dbiOpen_cause (w.env.answers .dbiOpen) (c .metadata)
  have hfound : (c .metadata).isSome = true →
      (if (w.env.answers .dbiOpen).headD 0 ≠ 0 then (w.env.answers .dbiOpen).headD 0
        else if (c .metadata).isSome then 0 else mdbNotfound) = mdbNotfound →
      (w.env.answers .dbiOpen).headD 0 = mdbNotfound := by
    intro hdata hmissing
    by_cases hcode : (w.env.answers .dbiOpen).headD 0 ≠ 0
    · rw [if_pos hcode] at hmissing
      exact hmissing
    · rw [if_neg hcode, if_pos hdata] at hmissing
      exact absurd hmissing (by decide)
  generalize (if (w.env.answers .dbiOpen).headD 0 ≠ 0 then (w.env.answers .dbiOpen).headD 0
    else if (c .metadata).isSome then 0 else mdbNotfound) = rc at hcause hfound ⊢
  by_cases hmissing : rc = mdbNotfound ∧ (!wrFlag) = true
  · rw [if_pos hmissing]
    exact hok false fun hcode hdata => absurd (hfound hdata hmissing.1) hcode
  · rw [if_neg hmissing]
    by_cases hrc : rc ≠ 0
    · rw [if_pos hrc, ensures_bind]
      exact hfail rc hrc (hcause.mp hrc)
    · rw [if_neg hrc]
      exact hok true fun _ _ => rfl

theorem beginNew_spec (hblocked : w.env.disk.locked = true → E .blocked) (hsvp : w.p.svp = [])
    (hwriters : w.env.writers = []) (hopen : w.env.readonly = w.p.readonly) (wrFlag : Bool)
    (hallowed : ¬ (wrFlag = true ∧ w.p.readonly = true)) :
    Ensures E (beginNew wrFlag) (fun rc w' => w'.fixedRowid = w.fixedRowid ∧ w'.nCurs = w.nCurs ∧
      w'.env.readonly = w.env.readonly ∧
      ((rc ≠ sqliteOk ∧ w'.p = w.p ∧ w'.env.writers = [] ∧ w'.env.disk = w.env.disk ∧
          ((w.env.answers .malloc).headD 0 ≠ 0 ∨ BeginStops w)) ∨
        (rc = sqliteOk ∧ Began wrFlag w w'))) w := by
  have hempty : { w.p with svp := [] } = w.p := by rw [← hsvp]
  have hrdonly : (w.env.pop .malloc).readonly = true → beginRdonly w.p wrFlag = true := by
    intro h
    rw [pop_readonly, hopen] at h
    have hw : wrFlag = false := by
      by_contra hne
      exact hallowed ⟨by simpa using hne, h⟩
    rw [beginRdonly, hw, h]
    split_ifs <;> rfl
  rw [beginNew, ensures_bind, ensures_getP, if_neg (not_not.mpr hsvp), ensures_bind, ensures_lmdb,
    ensures_answer, ensures_ite]
  split_ifs with hoom
  · exact ⟨rfl, rfl, rfl, .inl ⟨by decide, rfl, hwriters, rfl, .inl hoom⟩⟩
  rw [ensures_bind, ensures_lmdb, documented.txnBegin hrdonly]
  by_cases hrc : ((w.env.pop .malloc).answers .txnBegin).headD 0 ≠ 0
  · rw [if_pos hrc, if_pos hrc, ensures_pure]
    exact ⟨rfl, rfl, rfl, .inl ⟨fun h => hrc ((errorMap_eq_ok _).mp h), rfl, hwriters, rfl,
      .inr (.inl hrc)⟩⟩
  rw [if_neg hrc]
  by_cases hro : beginRdonly w.p wrFlag = true
  · have hsnap := view_snapshot (e := ((w.env.pop .malloc).pop .txnBegin).beginReader)
      (r := ⟨w.env.next, w.env.disk.contents⟩) hwriters rfl
    rw [if_pos hro, if_neg (not_not.mpr rfl)]
    refine beginOpened_spec wrFlag hsnap.1 hsnap.2 (fun hasData hdata => ?_) fun rc hrc hcause => ?_
    · exact ⟨rfl, rfl, rfl, .inr ⟨rfl, .reader hro hasData hdata rfl hwriters rfl rfl⟩⟩
    · have hkind : (((w.env.pop .malloc).pop .txnBegin).beginReader.pop .dbiOpen).kind w.env.next =
          some .readOnly := hsnap.1
      rw [ensures_lmdb]
      refine (documented.txnAbort_reader hkind _).mpr ?_
      exact ⟨rfl, rfl, rfl, .inl ⟨fun h => hrc ((errorMap_eq_ok _).mp h), hempty, hwriters, rfl,
        .inr (.inr hcause)⟩⟩
  rw [if_neg hro]
  by_cases hlocked : (w.env.pop .malloc).disk.locked = true
  · rw [if_pos hlocked]
    exact hblocked hlocked
  · have hunlocked : w.env.disk.locked = false := by simpa using hlocked
    rw [if_neg hlocked, if_neg (not_not.mpr rfl)]
    have hw : ((w.env.pop .malloc).pop .txnBegin).beginWriter.writers =
        [⟨w.env.next, w.env.disk.contents, w.env.cursors⟩] := rfl
    have hkind := kind_writer hw
    have hview := view_writer hw
    refine beginOpened_spec wrFlag hkind hview (fun hasData hdata => ?_) fun rc hrc hcause => ?_
    · exact ⟨rfl, rfl, rfl,
        .inr ⟨rfl, .writer (by simpa using hro) hasData hdata rfl rfl hunlocked rfl⟩⟩
    · have hwpop : (((w.env.pop .malloc).pop .txnBegin).beginWriter.pop .dbiOpen).writers =
          [⟨w.env.next, w.env.disk.contents, w.env.cursors⟩] := rfl
      rw [ensures_lmdb]
      refine (documented.txnAbort hwpop _).mpr ?_
      rw [abort_writer hwpop]
      refine ⟨rfl, rfl, rfl, .inl ⟨fun h => hrc ((errorMap_eq_ok _).mp h), hempty, rfl, ?_,
        .inr (.inr hcause)⟩⟩
      have hdisk : { w.env.disk with locked := false } = w.env.disk := by rw [← hunlocked]
      exact hdisk

/-- The values of the commit counter an upgrade compares: in the snapshot and on the disk. -/
def upgradeCounters (w : World) (snapshot : Contents) : ℤ × ℤ :=
  let codes := w.env.answers .get
  if w.p.hasData then
    (meta64 w.fixedRowid snapshot (codes.headD 0) lumoLmdbMetaCounter,
      meta64 w.fixedRowid w.env.disk.contents (codes.tail.headD 0) lumoLmdbMetaCounter)
  else (0, meta64 w.fixedRowid w.env.disk.contents (codes.headD 0) lumoLmdbMetaCounter)

def CountersAgree (w : World) (snapshot : Contents) : Prop :=
  toU64 (upgradeCounters w snapshot).1 = toU64 (upgradeCounters w snapshot).2

instance (w : World) (snapshot : Contents) : Decidable (CountersAgree w snapshot) :=
  inferInstanceAs (Decidable (_ = _))

/-- What an optimistic upgrade of the read transaction `s` does: a position cannot be saved,
no transaction is left, or a write transaction has taken the place of the snapshot. -/
inductive Upgraded (w : World) (s : BtreeSavepoint) (snapshot : Contents) (rc : Rc) (w' : World) :
    Prop
  | unsaved (hrc : rc ≠ sqliteOk) (hp : w'.p = w.p) (hwriters : w'.env.writers = [])
      (hreaders : w'.env.readers = w.env.readers) (hdisk : w'.env.disk = w.env.disk)
      (hnext : w'.env.next = w.env.next)
  | lost (hrc : rc ≠ sqliteOk) (hp : w'.p = { w.p with svp := [], hasData := false })
      (hwriters : w'.env.writers = []) (hdisk : w'.env.disk = w.env.disk) (hcause : BeginStops w)
  | replaced (shadow : ℕ → Option MdbCursor)
      (hp : w'.p = { w.p with
        svp := [⟨w.env.next, s.nSavepoint⟩]
        hasData := true
        inTrans := if CountersAgree w snapshot then .write else w.p.inTrans })
      (hwriters : w'.env.writers = [⟨w.env.next, w.env.disk.contents, shadow⟩])
      (hunlocked : w.env.disk.locked = false)
      (hdisk : w'.env.disk = { w.env.disk with locked := true })
      (hdata : (w.env.disk.contents .metadata).isSome = true)
      (hrc : rc = if CountersAgree w snapshot then sqliteOk else sqliteBusy)

/-- Opening the metadata in the write transaction of an upgrade. -/
theorem upgradeOpened_spec {txn : ℕ} {contents : Contents} {shadow : ℕ → Option MdbCursor}
    (hw : w.env.writers = [⟨txn, contents, shadow⟩]) {s : BtreeSavepoint} (hsvp : w.p.svp = [s])
    (u : ℤ) {Q : Rc → World → Prop}
    (hfail : ∀ rc, rc ≠ 0 →
      (w.env.answers .dbiOpen).headD 0 ≠ 0 ∨ (contents .metadata).isSome = false →
      Q (errorMap rc)
        { w with env := (w.env.pop .dbiOpen).abort txn, p := { w.p with svp := [] } })
    (hok : (contents .metadata).isSome = true →
      ∀ agree : Bool, (agree = true ↔ toU64 u = toU64 (meta64 w.fixedRowid contents
        ((w.env.answers .get).headD 0) lumoLmdbMetaCounter)) →
      Q (if agree then sqliteOk else sqliteBusy)
        { w with
          env := (w.env.pop .dbiOpen).pop .get
          p := { w.p with
            svp := [⟨txn, s.nSavepoint⟩]
            hasData := true
            inTrans := if agree then .write else w.p.inTrans } }) :
    Ensures E (upgradeOpened u txn) Q w := by
  have hkind : w.env.kind txn = some .readWrite := kind_writer hw
  have hview : w.env.view txn = some contents := view_writer hw
  rw [upgradeOpened, ensures_bind, ensures_setP, ensures_bind, ensures_lmdb,
    documented.dbiOpen hkind hview]
  have hcause := dbiOpen_cause (w.env.answers .dbiOpen) (contents .metadata)
  generalize (if (w.env.answers .dbiOpen).headD 0 ≠ 0 then (w.env.answers .dbiOpen).headD 0
    else if (contents .metadata).isSome then 0 else mdbNotfound) = rc at hcause ⊢
  by_cases hrc : rc ≠ 0
  · have hwpop : (w.env.pop .dbiOpen).writers = [⟨txn, contents, shadow⟩] := hw
    rw [if_pos hrc, ensures_bind, ensures_lmdb]
    exact (documented.txnAbort hwpop _).mpr (hfail _ hrc (hcause.mp hrc))
  · have hdata : (contents .metadata).isSome = true := by
      by_contra hne
      exact hrc (hcause.mpr (.inr (by simpa using hne)))
    rw [if_neg hrc, ensures_bind, ensures_setP, ensures_bind, hsvp]
    have hsvp₁ : ({ w with
        env := w.env.pop .dbiOpen
        p := { w.p with svp := [⟨txn, s.nSavepoint⟩], hasData := true } } : World).p.svp =
          [⟨txn, s.nSavepoint⟩] := rfl
    refine (ensures_getMeta64 hsvp₁ hkind hview _ _).mpr ?_
    rw [if_pos rfl, World.readMeta, if_pos rfl, ensures_ite, pop_answers_of_ne (by decide)]
    by_cases hagree : toU64 u = toU64 (meta64 w.fixedRowid contents
        ((w.env.answers .get).headD 0) lumoLmdbMetaCounter)
    · rw [if_neg (not_not.mpr hagree)]
      exact hok hdata true (iff_of_true rfl hagree)
    · rw [if_pos hagree]
      exact hok hdata false (iff_of_false (by decide) hagree)

theorem kind_congr {e e' : Env} (hw : e'.writers = e.writers) (hr : e'.readers = e.readers) (t : ℕ) :
    e'.kind t = e.kind t := by
  rw [Env.kind, Env.kind, hw, hr]

theorem view_congr {e e' : Env} (hw : e'.writers = e.writers) (hr : e'.readers = e.readers) (t : ℕ) :
    e'.view t = e.view t := by
  rw [Env.view, Env.view, hw, hr]

/-- What an upgrade does from where the old transaction has ended: no transaction is left, or a write
transaction has taken its place and the counter `u` is compared with the one it sees. -/
inductive Taken (u : ℤ) (w : World) (s : BtreeSavepoint) (rc : Rc) (w' : World) : Prop
  | lost (hrc : rc ≠ sqliteOk) (hp : w'.p = { w.p with svp := [] }) (hwriters : w'.env.writers = [])
      (hdisk : w'.env.disk = w.env.disk) (hcause : BeginStops w)
  | replaced (agree : Bool) (hagree : agree = true ↔ toU64 u = toU64 (meta64 w.fixedRowid
        w.env.disk.contents ((w.env.answers .get).headD 0) lumoLmdbMetaCounter))
      (hp : w'.p = { w.p with
        svp := [⟨w.env.next, s.nSavepoint⟩]
        hasData := true
        inTrans := if agree then .write else w.p.inTrans })
      (hwriters : w'.env.writers = [⟨w.env.next, w.env.disk.contents, w.env.cursors⟩])
      (hdisk : w'.env.disk = { w.env.disk with locked := true }) (hunlocked : w.env.disk.locked = false)
      (hdata : (w.env.disk.contents .metadata).isSome = true)
      (hrc : rc = if agree then sqliteOk else sqliteBusy)

theorem upgradeTaken_spec (hblocked : w.env.disk.locked = true → E .blocked) {s : BtreeSavepoint}
    (hsvp : w.p.svp = [s]) (hwriters : w.env.writers = []) (hopen : w.env.readonly = false) (u : ℤ) :
    Ensures E (do
        let r ← lmdb (mdbTxnBegin none false)
        if r.1 ≠ 0 then upgradeError r.1 else upgradeOpened u r.2) (fun rc w' =>
      (w'.fixedRowid = w.fixedRowid ∧ w'.nCurs = w.nCurs ∧ w'.curs = w.curs ∧
        w'.env.readonly = w.env.readonly) ∧ Taken u w s rc w') w := by
  rw [ensures_bind, ensures_lmdb]
  refine (documented.txnBegin (by rw [hopen]; decide) _).mpr ?_
  by_cases hrc : (w.env.answers .txnBegin).headD 0 ≠ 0
  · rw [if_pos hrc, if_pos hrc, upgradeError, ensures_bind, ensures_setP, ensures_pure]
    exact ⟨⟨rfl, rfl, rfl, rfl⟩, .lost (fun h => hrc ((errorMap_eq_ok _).mp h)) rfl hwriters rfl (.inl hrc)⟩
  rw [if_neg hrc, if_neg (by decide)]
  by_cases hlocked : w.env.disk.locked = true
  · rw [if_pos hlocked]
    exact hblocked hlocked
  have hunlocked : w.env.disk.locked = false := Bool.eq_false_iff.mpr hlocked
  rw [if_neg hlocked, if_neg (not_not.mpr rfl)]
  have hwriter : (w.env.pop .txnBegin).beginWriter.writers = [⟨w.env.next, w.env.disk.contents, w.env.cursors⟩] := rfl
  have hsvp₁ : ({ w with env := (w.env.pop .txnBegin).beginWriter } : World).p.svp = [s] := hsvp
  refine upgradeOpened_spec hwriter hsvp₁ u (fun rc hrc hcause => ?_) fun hdata agree hagree => ?_
  · have hwpop : ((w.env.pop .txnBegin).beginWriter.pop .dbiOpen).writers =
        [⟨w.env.next, w.env.disk.contents, w.env.cursors⟩] := hwriter
    have habort := abort_writer hwpop
    refine ⟨⟨rfl, rfl, rfl, rfl⟩, .lost (fun h => hrc ((errorMap_eq_ok _).mp h)) rfl (congrArg Env.writers habort) ?_ ?_⟩
    · refine (congrArg Env.disk habort).trans ?_
      have hdisk : { w.env.disk with locked := false } = w.env.disk := by rw [← hunlocked]
      exact hdisk
    · have hcodes : (w.env.pop .txnBegin).beginWriter.answers .dbiOpen = w.env.answers .dbiOpen :=
        pop_answers_of_ne (e := w.env) (c := .txnBegin) (d := .dbiOpen) (by decide)
      rw [hcodes] at hcause
      exact .inr hcause
  · have hcodes : (w.env.pop .txnBegin).beginWriter.answers .get = w.env.answers .get :=
      pop_answers_of_ne (e := w.env) (c := .txnBegin) (d := .get) (by decide)
    rw [hcodes] at hagree
    exact ⟨⟨rfl, rfl, rfl, rfl⟩, .replaced agree hagree rfl hwriter rfl hunlocked hdata rfl⟩

theorem upgradeOptimistic_spec (hE : Lenient E w) (hblocked : w.env.disk.locked = true → E .blocked) {s : BtreeSavepoint}
    (hsvp : w.p.svp = [s]) (hwriters : w.env.writers = []) {snapshot : Contents}
    (hkind : w.env.kind s.txn = some .readOnly) (hview : w.env.view s.txn = some snapshot)
    (hopen : w.env.readonly = false) :
    Ensures E upgradeOptimistic (fun rc w' => w'.fixedRowid = w.fixedRowid ∧ w'.nCurs = w.nCurs ∧
      w'.env.readonly = w.env.readonly ∧ Upgraded w s snapshot rc w') w := by
  obtain ⟨codes, hread, hother, hget⟩ := readMeta_eq w
  rw [upgradeOptimistic, ensures_bind, ensures_getMeta64 hsvp hkind hview, hread, ensures_bind]
  have hE₁ : Lenient E { w with env := { w.env with answers := codes } } := hE.of_eq rfl
  refine (invalidateCursors_spec hE₁ sqliteOk false).imp fun rc1 w₂ h => ?_
  obtain ⟨hc, -⟩ := h
  have hp : w₂.p = w.p := hc.p
  have hw₂ : w₂.env.writers = [] := hc.env.writers.trans hwriters
  have hcodes : ∀ c, c ≠ .cursorGet → c ≠ .malloc → w₂.env.answers c = codes c := hc.env.answers
  have hdisk₂ : w₂.env.disk = w.env.disk := hc.env.disk
  have hnext₂ : w₂.env.next = w.env.next := hc.env.next
  have hbuild : w₂.fixedRowid = w.fixedRowid := hc.build
  by_cases hrc1 : rc1 ≠ 0
  · rw [if_pos hrc1, ensures_pure]
    exact ⟨hc.build, hc.nCurs, hc.env.readonly,
      .unsaved (fun h => hrc1 ((errorMap_eq_ok _).mp h)) hp hw₂ hc.env.readers hdisk₂ hnext₂⟩
  have hkind₂ : w₂.env.kind s.txn = some .readOnly :=
    (kind_congr hc.env.writers hc.env.readers _).trans hkind
  rw [if_neg hrc1, ensures_bind, ensures_setP, ensures_bind]
  have hsvp₂ : ({ w₂ with p := { w₂.p with hasData := false } } : World).p.svp = [s] := by
    rw [← hsvp, ← hp]
  refine (ensures_topTxn hsvp₂ _).mpr ?_
  rw [ensures_bind, ensures_lmdb]
  refine (documented.txnAbort_reader hkind₂ _).mpr ?_
  have hblocked₂ : w₂.env.disk.locked = true → E .blocked := fun hlocked => hblocked (by rw [← hdisk₂]; exact hlocked)
  refine (upgradeTaken_spec (w := { w₂ with
    env := w₂.env.endReader s.txn
    p := { w₂.p with hasData := false } }) hblocked₂ hsvp₂ hw₂ (hc.env.readonly.trans hopen) _).imp fun rc w' h => ?_
  obtain ⟨⟨hbuild', hcount, -, hreadonly⟩, htaken⟩ := h
  refine ⟨hbuild'.trans hbuild, hcount.trans hc.nCurs, hreadonly.trans hc.env.readonly, ?_⟩
  have hstops : ∀ c, c ≠ .cursorGet → c ≠ .malloc → c ≠ .get → w₂.env.answers c = w.env.answers c :=
    fun c h h' h'' => (hcodes c h h').trans (hother c h'')
  cases htaken with
  | lost hrc hp' hwriters' hdisk hcause =>
    refine .lost hrc ?_ hwriters' (hdisk.trans hdisk₂) ?_
    · rw [hp', ← hp]
    · simp only [BeginStops, ← hdisk₂, ← hstops .txnBegin (by decide) (by decide) (by decide),
        ← hstops .dbiOpen (by decide) (by decide) (by decide)]
      exact hcause
  | replaced agree hagree hp' hwriters' hdisk hunlocked hdata hrc =>
    have hsame : agree = true ↔ CountersAgree w snapshot := by
      have hgets : w₂.env.answers .get = if w.p.hasData then (w.env.answers .get).tail else w.env.answers .get :=
        (hcodes _ (by decide) (by decide)).trans hget
      refine hagree.trans ?_
      simp only [Env.endReader, hgets, hbuild, hdisk₂, CountersAgree, upgradeCounters]
      split_ifs <;> rfl
    have hite : ∀ {α : Type} (x y : α), (if agree = true then x else y) =
        if CountersAgree w snapshot then x else y := fun x y => by
      by_cases hag : CountersAgree w snapshot
      · rw [if_pos hag, if_pos (hsame.mpr hag)]
      · rw [if_neg hag, if_neg fun h => hag (hsame.mp h)]
    refine .replaced w₂.env.cursors ?_ ?_ ?_ ?_ ?_ (hrc.trans (hite _ _))
    · rw [hp', ← hite, ← hp, ← hnext₂]
      rfl
    · rw [hwriters', ← hnext₂, ← hdisk₂]
      rfl
    · rw [← hdisk₂]
      exact hunlocked
    · rw [hdisk, ← hdisk₂]
      rfl
    · rw [← hdisk₂]
      exact hdata

end Begin

/-- The levels above the first were opened by statements. -/
def Numbered (p : Btree) : Prop := ∀ s ∈ p.svp.dropLast, 0 ≤ s.nSavepoint

/-- What the stack and LMDB hold: no transaction, a snapshot, or nested write transactions. -/
inductive TxnStack (w : World) : Prop
  | idle (hsvp : w.p.svp = []) (hin : w.p.inTrans = .none) (hwriters : w.env.writers = [])
  | reading (s : BtreeSavepoint) (snapshot : Contents) (hsvp : w.p.svp = [s])
      (hin : w.p.inTrans = .read) (hwriters : w.env.writers = [])
      (hserial : w.p.transType = transactionSerialise → w.p.readonly = true)
      (hkind : w.env.kind s.txn = some .readOnly) (hview : w.env.view s.txn = some snapshot)
  | writing (hne : w.p.svp ≠ []) (hal : Aligned w) (hnum : Numbered w.p) (hin : w.p.inTrans ≠ .none)

/-- Nothing but codes to come has changed. -/
def AnswersOnly (w w' : World) : Prop :=
  ∃ answers, w' = { w with env := { w.env with answers := answers } }

instance : Frame AnswersOnly where
  refl w := ⟨w.env.answers, rfl⟩
  trans := by
    rintro w _ _ ⟨a, rfl⟩ ⟨b, rfl⟩
    exact ⟨b, rfl⟩

theorem AnswersOnly.pop (w : World) (c : Fallible) : AnswersOnly w (w.pop c) := ⟨_, rfl⟩

theorem AnswersOnly.p {w w' : World} (h : AnswersOnly w w') : w'.p = w.p := by
  obtain ⟨a, rfl⟩ := h
  rfl

theorem AnswersOnly.writers {w w' : World} (h : AnswersOnly w w') :
    w'.env.writers = w.env.writers := by
  obtain ⟨a, rfl⟩ := h
  rfl

theorem AnswersOnly.stack {w w' : World} (h : AnswersOnly w w') (hs : TxnStack w) : TxnStack w' := by
  obtain ⟨a, rfl⟩ := h
  cases hs with
  | idle hsvp hin hwriters => exact .idle hsvp hin hwriters
  | reading s snapshot hsvp hin hwriters hserial hkind hview =>
    exact .reading s snapshot hsvp hin hwriters hserial hkind hview
  | writing hne hal hnum hin => exact .writing hne ⟨hal.ids, hal.locked⟩ hnum hin

/-- In a transaction its innermost part can be read. -/
theorem TxnStack.top {w : World} (hs : TxnStack w) (hin : w.p.inTrans ≠ .none) :
    ∃ s rest k c, w.p.svp = s :: rest ∧ w.env.kind s.txn = some k ∧
      w.env.view s.txn = some c := by
  cases hs with
  | idle hsvp hnone hwriters => exact absurd hnone hin
  | reading s snapshot hsvp hread hwriters hserial hkind hview =>
    exact ⟨s, [], _, snapshot, hsvp, hkind, hview⟩
  | writing hne hal hnum hin =>
    obtain ⟨s, rest, hsvp⟩ := List.exists_cons_of_ne_nil hne
    obtain ⟨t, ts, hw, ht⟩ := hal.top hsvp
    exact ⟨s, rest, _, t.view, hsvp, by rw [ht]; exact kind_writer hw,
      by rw [ht]; exact view_writer hw⟩

section Calls

variable {E : Halt → Prop} {w : World}

/-- What `sqlite3BtreeBeginTrans` does: nothing, or a transaction begins, or is upgraded in one
of two ways. Reading the version afterwards takes codes only. -/
inductive TransBegun (wrFlag : Bool) (w : World) (rc : Rc) (w' : World) : Prop
  | same (h : AnswersOnly w w')
      (hrc : rc = sqliteOk → w.p.inTrans ≠ .none ∧ (w.p.inTrans = .write ∨ wrFlag = false))
      (hno : rc ≠ sqliteOk → wrFlag = true ∧ (w.p.readonly = true ∨ w.p.inTrans ≠ .none))
  | failed (hrc : rc ≠ sqliteOk) (hin : w.p.inTrans = .none) (hp : w'.p = w.p)
      (hwriters : w'.env.writers = []) (hdisk : w'.env.disk = w.env.disk)
      (hcause : (w.env.answers .malloc).headD 0 ≠ 0 ∨ BeginStops w)
  | began (w₁ : World) (hrc : rc = sqliteOk) (hin : w.p.inTrans = .none)
      (hallowed : ¬ (wrFlag = true ∧ w.p.readonly = true)) (h : Began wrFlag w w₁)
      (h' : AnswersOnly w₁ w')
  | serial (hrc : rc = sqliteOk) (hin : w.p.inTrans = .read) (hwr : wrFlag = true)
      (hro : w.p.readonly = false) (htype : w.p.transType = transactionSerialise)
      (h : AnswersOnly { w with p := { w.p with inTrans := .write } } w')
  | upgraded (s : BtreeSavepoint) (snapshot : Contents) (w₁ : World) (hin : w.p.inTrans = .read)
      (hwr : wrFlag = true) (hro : w.p.readonly = false)
      (htype : w.p.transType = transactionOptimistic) (hsvp : w.p.svp = [s])
      (hwriters : w.env.writers = []) (hkind : w.env.kind s.txn = some .readOnly)
      (hview : w.env.view s.txn = some snapshot) (h : Upgraded w s snapshot rc w₁)
      (h' : AnswersOnly w₁ w')

/-- What no call changes. -/
structure SameHandle (w w' : World) : Prop where
  build : w'.fixedRowid = w.fixedRowid
  nCurs : w'.nCurs = w.nCurs
  readonly : w'.env.readonly = w.env.readonly

theorem AnswersOnly.sameHandle {w w' : World} (h : AnswersOnly w w') : SameHandle w w' := by
  obtain ⟨a, rfl⟩ := h
  exact ⟨rfl, rfl, rfl⟩

theorem SameHandle.trans {w₁ w₂ w₃ : World} (h : SameHandle w₁ w₂) (h' : SameHandle w₂ w₃) :
    SameHandle w₁ w₃ :=
  ⟨h'.build.trans h.build, h'.nCurs.trans h.nCurs, h'.readonly.trans h.readonly⟩

theorem beginGetVersion_answers (hs : TxnStack w) (hin : w.p.inTrans ≠ .none)
    (pSchemaVersion : Bool) :
    Ensures E (beginGetVersion pSchemaVersion) (fun r w' => r.1 = sqliteOk ∧ AnswersOnly w w') w := by
  obtain ⟨s, rest, k, c, hsvp, hkind, hview⟩ := hs.top hin
  refine (beginGetVersion_spec hsvp hkind hview pSchemaVersion).imp fun r w' h => ⟨h.1, ?_⟩
  rcases h.2 with rfl | rfl
  · exact Frame.refl _
  · exact .pop w .get

/-- A transaction that has begun is on the stack. -/
theorem Began.stack {wrFlag : Bool} {w w' : World} (h : Began wrFlag w w')
    (hallowed : ¬ (wrFlag = true ∧ w.p.readonly = true)) : TxnStack w' := by
  cases h with
  | reader hrdonly hasData hdata hp hwriters hreaders hdisk =>
    have hsnap := view_snapshot hwriters hreaders
    have hwr : wrFlag = false := by
      rw [beginRdonly] at hrdonly
      by_contra hne
      have htrue : wrFlag = true := by simpa using hne
      rw [htrue] at hrdonly hallowed
      split_ifs at hrdonly with htype
      · cases hrdonly
      · exact hallowed ⟨rfl, hrdonly⟩
    refine .reading ⟨w.env.next, -1⟩ _ (by rw [hp]; rfl) (by rw [hp, hwr]; rfl) hwriters ?_
      hsnap.1 hsnap.2
    intro htype
    rw [hp] at htype ⊢
    have hserial : w.p.transType = transactionSerialise := htype
    rw [beginRdonly, if_neg (not_not.mpr hserial)] at hrdonly
    exact hrdonly
  | writer hrdonly hasData hdata hp hwriters hunlocked hdisk =>
    refine .writing (by rw [hp]; simp [begun]) ⟨?_, by rw [hdisk]⟩ ?_ ?_
    · rw [hp, hwriters]
      rfl
    · rw [hp]
      intro s hs
      cases hs
    · rw [hp, begun]
      cases wrFlag <;> simp

theorem Upgraded.stack {w w' : World} {s : BtreeSavepoint} {snapshot : Contents} {rc : Rc}
    (h : Upgraded w s snapshot rc w') (hs : TxnStack w) (hin : w.p.inTrans = .read)
    (hwriters : w.env.writers = []) (hnot : w'.p.svp ≠ []) : TxnStack w' := by
  cases h with
  | unsaved hrc hp hwriters' hreaders hdisk hnext =>
    cases hs with
    | idle hsvp hnone _ => exact absurd (hnone.symm.trans hin) (by decide)
    | reading s' snapshot' hsvp hread _ hserial hkind hview =>
      have hw : w'.env.writers = w.env.writers := hwriters'.trans hwriters.symm
      exact .reading s' snapshot' (by rw [hp, hsvp]) (by rw [hp, hread]) hwriters'
        (by rw [hp]; exact hserial) ((kind_congr hw hreaders _).trans hkind)
        ((view_congr hw hreaders _).trans hview)
    | writing hne hal hnum hin' => exact absurd hwriters (hal.writers_ne hne)
  | lost hrc hp _ _ _ => exact absurd (by rw [hp]) hnot
  | replaced shadow hp hwriters' hunlocked hdisk hdata hrc =>
    refine .writing hnot ⟨?_, by rw [hdisk]⟩ ?_ ?_
    · rw [hp, hwriters']
      rfl
    · rw [hp]
      intro s hs
      cases hs
    · rw [hp, hin]
      split_ifs <;> simp

theorem beginTrans_spec (hE : Lenient E w) (hblocked : w.env.disk.locked = true → E .blocked) (hs : TxnStack w)
    (hopen : w.env.readonly = w.p.readonly) (wrFlag pSchemaVersion : Bool)
    (hfirst : wrFlag = true → w.p.readonly = false → w.p.inTrans = .read →
      w.p.transType = transactionOptimistic → w.env.writers = []) :
    Ensures E (sqlite3BtreeBeginTrans wrFlag pSchemaVersion) (fun r w' =>
      SameHandle w w' ∧ TransBegun wrFlag w r.1 w') w := by
  rw [sqlite3BtreeBeginTrans, ensures_bind, ensures_getP]
  have hversion : w.p.inTrans ≠ .none → (w.p.inTrans = .write ∨ wrFlag = false) →
      Ensures E (beginGetVersion pSchemaVersion) (fun r w' =>
        SameHandle w w' ∧ TransBegun wrFlag w r.1 w') w := fun hin hcase =>
    (beginGetVersion_answers hs hin pSchemaVersion).imp fun r w' h =>
      ⟨h.2.sameHandle, .same h.2 (fun _ => ⟨hin, hcase⟩) fun hne => absurd h.1 hne⟩
  by_cases hwrite : w.p.inTrans = .write
  · rw [if_pos hwrite]
    exact hversion (by rw [hwrite]; decide) (.inl hwrite)
  rw [if_neg hwrite]
  by_cases hrefused : wrFlag = true ∧ w.p.readonly = true
  · rw [if_pos hrefused, ensures_pure]
    exact ⟨⟨rfl, rfl, rfl⟩, .same (Frame.refl w) (fun h => absurd h (by decide))
      fun _ => ⟨hrefused.1, .inl hrefused.2⟩⟩
  rw [if_neg hrefused]
  by_cases hread : w.p.inTrans ≠ .none ∧ (!wrFlag) = true
  · rw [if_pos hread]
    exact hversion hread.1 (.inr (by simpa using hread.2))
  rw [if_neg hread]
  dsimp only
  rw [ensures_ite]
  by_cases hin : w.p.inTrans ≠ .none
  · have hr : w.p.inTrans = .read := by
      cases hi : w.p.inTrans with
      | none => exact absurd hi hin
      | read => rfl
      | write => exact absurd hi hwrite
    have hwr : wrFlag = true := by
      by_contra hne
      exact hread ⟨hin, by simpa using hne⟩
    have hro : w.p.readonly = false := by
      by_contra hne
      exact hrefused ⟨hwr, by simpa using hne⟩
    rw [if_pos hin, ensures_bind, beginUpgrade, ensures_bind, ensures_getP, ensures_ite]
    by_cases hno : w.p.transType = transactionNoupgrade
    · rw [if_pos hno, ensures_pure, if_pos (by decide), ensures_pure]
      exact ⟨⟨rfl, rfl, rfl⟩, .same (Frame.refl w) (fun h => absurd h (by decide))
        fun _ => ⟨hwr, .inr hin⟩⟩
    rw [if_neg hno, ensures_ite]
    by_cases hopt : w.p.transType = transactionOptimistic
    · have hwriters := hfirst hwr hro hr hopt
      rw [if_pos hopt]
      obtain ⟨s, snapshot, hsvp, hkind, hview⟩ : ∃ s snapshot, w.p.svp = [s] ∧
          w.env.kind s.txn = some .readOnly ∧ w.env.view s.txn = some snapshot := by
        cases hs with
        | idle _ hnone _ => exact absurd hnone hin
        | reading s snapshot hsvp _ _ _ hkind hview => exact ⟨s, snapshot, hsvp, hkind, hview⟩
        | writing hne hal _ _ => exact absurd hwriters (hal.writers_ne hne)
      refine (upgradeOptimistic_spec hE hblocked hsvp hwriters hkind hview
        (hopen.trans hro)).imp fun rc w₁ h => ?_
      obtain ⟨hbuild, hnCurs, hsame, hup⟩ := h
      have hhandle : SameHandle w w₁ := ⟨hbuild, hnCurs, hsame⟩
      by_cases hrc : rc ≠ sqliteOk
      · rw [if_pos hrc, ensures_pure]
        exact ⟨hhandle, .upgraded s snapshot w₁ hr hwr hro hopt hsvp hwriters hkind hview hup
          (Frame.refl w₁)⟩
      · rw [if_neg hrc]
        have hok := not_not.mp hrc
        have htop : w₁.p.svp ≠ [] ∧ w₁.p.inTrans ≠ .none := by
          cases hup with
          | unsaved hne => exact absurd hok hne
          | lost hne => exact absurd hok hne
          | replaced shadow hp _ _ _ _ _ =>
            rw [hp, hr]
            refine ⟨by simp, ?_⟩
            split_ifs <;> simp
        have hs₁ := hup.stack hs hr hwriters htop.1
        refine (beginGetVersion_answers hs₁ htop.2 pSchemaVersion).imp fun r w' h => ?_
        refine ⟨hhandle.trans h.2.sameHandle, ?_⟩
        rw [h.1, ← hok]
        exact .upgraded s snapshot w₁ hr hwr hro hopt hsvp hwriters hkind hview hup h.2
    rw [if_neg hopt, ensures_ite]
    by_cases hserial : w.p.transType = transactionSerialise
    · rw [if_pos hserial, ensures_bind, ensures_setP, ensures_pure, if_neg (by decide)]
      have hs₁ : TxnStack { w with p := { w.p with inTrans := .write } } := by
        cases hs with
        | idle _ hnone _ => exact absurd hnone hin
        | reading _ _ _ _ _ hserial' _ _ =>
          exact absurd ((hserial' hserial).symm.trans hro) (by decide)
        | writing hne hal hnum _ => exact .writing hne ⟨hal.ids, hal.locked⟩ hnum (by simp)
      refine (beginGetVersion_answers hs₁ (by simp) pSchemaVersion).imp fun r w' h => ?_
      refine ⟨?_, .serial h.1 hr hwr hro hserial h.2⟩
      have h₁ : SameHandle w { w with p := { w.p with inTrans := .write } } := ⟨rfl, rfl, rfl⟩
      exact h₁.trans h.2.sameHandle
    · rw [if_neg hserial, ensures_pure, if_pos (by decide), ensures_pure]
      exact ⟨⟨rfl, rfl, rfl⟩, .same (Frame.refl w) (fun h => absurd h (by decide))
        fun _ => ⟨hwr, .inr hin⟩⟩
  · have hnone := not_not.mp hin
    rw [if_neg hin, ensures_bind]
    have hidle : w.p.svp = [] ∧ w.env.writers = [] := by
      cases hs with
      | idle hsvp _ hwriters => exact ⟨hsvp, hwriters⟩
      | reading _ _ _ hread _ _ _ _ => exact absurd (hnone.symm.trans hread) (by decide)
      | writing _ _ _ hin' => exact absurd hnone hin'
    refine (beginNew_spec hblocked hidle.1 hidle.2 hopen wrFlag hrefused).imp fun rc w₁ h => ?_
    obtain ⟨hbuild, hnCurs, hro, ⟨hrc, hp, hwriters, hdisk, hcause⟩ | ⟨hrc, hbegan⟩⟩ := h
    · rw [if_pos hrc, ensures_pure]
      exact ⟨⟨hbuild, hnCurs, hro⟩, .failed hrc hnone hp hwriters hdisk hcause⟩
    · have hs₁ := hbegan.stack hrefused
      have hin₁ : w₁.p.inTrans ≠ .none := by
        cases hbegan with
        | reader _ _ _ hp _ _ _ =>
          rw [hp, begun]
          cases wrFlag <;> simp
        | writer _ _ _ hp _ _ _ =>
          rw [hp, begun]
          cases wrFlag <;> simp
      rw [if_neg (not_not.mpr hrc)]
      exact (beginGetVersion_answers hs₁ hin₁ pSchemaVersion).imp fun r w' h =>
        ⟨SameHandle.trans ⟨hbuild, hnCurs, hro⟩ h.2.sameHandle,
          .began w₁ h.1 hnone hrefused hbegan h.2⟩

/-- What `sqlite3BtreeBeginStmt` does in a transaction: nothing, or a level is opened. -/
inductive StmtBegun (iStatement : ℕ) (w : World) (rc : Rc) (w' : World) : Prop
  | same (hrc : rc ≠ sqliteOk) (h : AnswersOnly w w')
  | opened (t : WriteTxn) (ts : List WriteTxn) (hrc : rc = sqliteOk)
      (hw : w.env.writers = t :: ts)
      (hp : w'.p = { w.p with svp := ⟨w.env.next, iStatement⟩ :: w.p.svp })
      (hwriters : w'.env.writers = ⟨w.env.next, t.view, w.env.cursors⟩ :: w.env.writers)
      (hdisk : w'.env.disk = w.env.disk)

theorem beginStmt_spec (hs : TxnStack w) (hin : w.p.inTrans ≠ .none) (iStatement : ℕ) :
    Ensures E (sqlite3BtreeBeginStmt iStatement) (fun rc w' => SameHandle w w' ∧
      StmtBegun iStatement w rc w') w := by
  rw [sqlite3BtreeBeginStmt, ensures_bind, ensures_lmdb, ensures_answer, ensures_ite]
  split_ifs with hoom
  · exact ⟨⟨rfl, rfl, rfl⟩, .same (by decide) (.pop w .malloc)⟩
  rw [ensures_bind, ensures_getP, ensures_bind, ensures_lmdb]
  cases hs with
  | idle _ hnone _ => exact absurd hnone hin
  | reading s snapshot hsvp _ hwriters _ hkind _ =>
    have hkind' : (w.env.pop .malloc).kind s.txn = some .readOnly := hkind
    rw [hsvp, mdbTxnBegin, ensures_bind, ensures_read]
    simp only [List.head?_cons, Option.map_some, id_eq, hkind', ensures_pure]
    exact ⟨⟨rfl, rfl, rfl⟩, .same (by decide) (.pop w .malloc)⟩
  | writing hne hal _ _ =>
    obtain ⟨s, rest, hsvp⟩ := List.exists_cons_of_ne_nil hne
    obtain ⟨t, ts, hw, ht⟩ := hal.top hsvp
    have hwpop : (w.env.pop .malloc).writers = t :: ts := hw
    rw [hsvp, List.head?_cons, Option.map_some, ht, documented.txnBegin_nested hwpop]
    by_cases hrc : ((w.env.pop .malloc).answers .txnBegin).headD 0 ≠ 0
    · rw [if_pos hrc, if_pos hrc, ensures_pure]
      exact ⟨⟨rfl, rfl, rfl⟩, .same (fun h => hrc ((errorMap_eq_ok _).mp h))
        (Frame.trans (AnswersOnly.pop w .malloc) (.pop _ .txnBegin))⟩
    · rw [if_neg hrc, if_neg (not_not.mpr rfl), ensures_bind, ensures_setP, ensures_pure]
      exact ⟨⟨rfl, rfl, rfl⟩, .opened t ts rfl hw rfl rfl rfl⟩

end Calls

end LumoSql.Btree
