import LumoSql.CursorLiveness
import LumoSql.RollbackTrips

/-! The open cursors of a session: as long as the transaction a cursor was opened in lives, the cursor can be
used, whatever has been called meanwhile. -/
namespace LumoSql.Btree
open StateLogic Lmdb

/-- No transaction is for reading but the one on the stack. -/
def OneReader (w : World) : Prop :=
  w.env.readers = [] ∨ w.env.writers = [] ∧ ∃ s r, w.p.svp = [s] ∧ w.env.readers = [r] ∧ r.id = s.txn

/-- An open cursor. If it is due, its LMDB cursor lives as long as the transaction it was opened in. -/
structure Sound (w : World) (i : ℕ) : Prop where
  dbi : (w.curs i).dbi = .table (w.curs i).rootPage
  txn : ∃ t, (w.curs i).txn = some t ∧ t < w.env.next
  stored : (w.curs i).Stored
  live : (w.curs i).Due → ∀ t, (w.curs i).txn = some t → w.env.Live t →
    ∃ h t', (w.curs i).cursor = some h ∧ w.env.Pinned h t' (.table (w.curs i).rootPage) ∧ w.env.Live t'

/-- What a call on transactions leaves of those the cursors of `l` use. -/
inductive Sustained (l : List ℕ) (w w' : World) : Prop
  | resting (h : ∀ i ∈ l, ¬ (w'.curs i).Due)
  | ended (h : ∀ t, ¬ w'.env.Live t)
  | lasting (h : ∀ t, w.env.Live t → w'.env.Live t)

section Soundness

variable {w w' : World} {i : ℕ} {l : List ℕ} {kept : ℕ → Prop}

theorem Sound.lasting (hs : Sound w i) (hl : Lasting kept w w') (hi : kept i) (hil : i ∈ l)
    (hsustained : Sustained l w w') : Sound w' i := by
  have hcont := hl.continues i hi
  obtain ⟨t, ht, hlt⟩ := hs.txn
  refine ⟨?_, ⟨t, hcont.opening.txn.trans ht, hlt.trans_le hl.next⟩, hcont.stored hs.stored, fun hdue t' ht' hlive => ?_⟩
  · rw [hcont.opening.dbi, hcont.opening.root]
    exact hs.dbi
  · rw [hcont.opening.txn, ht] at ht'
    obtain rfl := Option.some.inj ht'
    cases hsustained with
    | resting h => exact absurd hdue (h i hil)
    | ended h => exact absurd hlive (h t)
    | lasting h =>
      obtain ⟨hdue₀, hsame⟩ := hcont.due hdue
      obtain ⟨n, u, hn, hp, hu⟩ := hs.live hdue₀ t ht (hl.ended t hlt hlive)
      have hn' : (w'.curs i).cursor = some n := hsame.trans hn
      refine ⟨n, u, hn', ?_, h u hu⟩
      rw [hcont.opening.root]
      exact hl.pinned i n u _ hi hdue hn' hp (h u hu)

/-- The transaction on top lives if any does. -/
def TopLive (w : World) : Prop := ∀ t, w.env.Live t → ∀ s rest, w.p.svp = s :: rest → w.env.Live s.txn

theorem Sound.renewed (hs : Sound w i) (hr : Renewed i w w') (hlive : ∀ t, w'.env.Live t ↔ w.env.Live t)
    (htop : TopLive w) : Sound w' i := by
  obtain ⟨t, ht, hlt⟩ := hs.txn
  refine ⟨hr.dbi hs.dbi, ⟨t, hr.txn.trans ht, hlt.trans_le hr.next⟩, hr.stored hs.stored, fun hdue t' ht' hlive' => ?_⟩
  rw [hr.txn, ht] at ht'
  obtain rfl := Option.some.inj ht'
  have hlive₀ := (hlive t).mp hlive'
  obtain ⟨n, hn⟩ := Option.isSome_iff_exists.mp hdue.2
  rcases hr.due hdue n hn with ⟨hdue₀, hn₀, hpinned⟩ | ⟨s, rest, hsvp, -, hpinned⟩
  · obtain ⟨n', u, hn', hp, hu⟩ := hs.live hdue₀ t ht hlive₀
    obtain rfl := Option.some.inj (hn₀.symm.trans hn')
    have hu' := (hlive u).mpr hu
    refine ⟨n, u, hn, ?_, hu'⟩
    rw [hr.root]
    exact hpinned u _ hp hu'
  · have hu := (hlive s.txn).mpr (htop t hlive₀ s rest hsvp)
    exact ⟨n, s.txn, hn, hpinned hu, hu⟩

theorem Opened.sound (ho : Opened w i) (hw : Handles w) : Sound w i := by
  obtain ⟨t, h, ht, hh, hdbi, hp, hlive⟩ := ho
  refine ⟨hdbi, ⟨t, ht, (hp.below hw.issued).2⟩, fun _ hnone => absurd (hh.symm.trans hnone) (Option.some_ne_none h), ?_⟩
  exact fun _ _ _ _ => ⟨h, t, hh, hp, hlive⟩

theorem TablesOnly.live (h : TablesOnly w w') (t : ℕ) : w'.env.Live t ↔ w.env.Live t := by
  rw [live_iff, live_iff, h.env.writers.ids, h.env.readers]

theorem TablesOnly.oneReader (h : TablesOnly w w') (ho : OneReader w) : OneReader w' := by
  have hwriters := h.env.writers
  rcases ho with hnone | ⟨hnil, s, r, hsvp, hreaders, hid⟩
  · exact .inl (h.env.readers.trans hnone)
  · rw [hnil] at hwriters
    exact .inr ⟨hwriters.of_nil, s, r, by rw [h.p]; exact hsvp, h.env.readers.trans hreaders, hid⟩

end Soundness

section States

variable {counted : Prop} {n : ℕ} {w : World}

/-- Without transactions none lives. -/
theorem not_live {e : Env} (hwriters : e.writers = []) (hreaders : e.readers = []) (t : ℕ) : ¬ e.Live t := by
  rw [live_iff, hwriters, hreaders]
  rintro (h | h)
  · exact List.not_mem_nil h
  · exact List.not_mem_nil h

/-- The transaction of the level `s` is the innermost one for writing, or the one for reading. -/
inductive Current (w : World) (s : BtreeSavepoint) : Prop
  | writer (u : WriteTxn) (us : List WriteTxn) (hwriters : w.env.writers = u :: us) (hs : s.txn = u.id)
      (hreaders : w.env.readers = [])
  | reader (r : ReadTxn) (hwriters : w.env.writers = []) (hreaders : w.env.readers = [r]) (hs : r.id = s.txn)

/-- If a transaction lives, the one on top does. -/
theorem ConnState.current (h : ConnState counted n w) (ho : OneReader w) {t : ℕ} (hlive : w.env.Live t) :
    ∃ s rest, w.p.svp = s :: rest ∧ Current w s := by
  cases hwriters : w.env.writers with
  | nil =>
    rcases ho with hnone | ⟨-, s, r, hsvp, hreaders, hid⟩
    · exact absurd hlive (not_live hwriters hnone t)
    · exact ⟨s, [], hsvp, .reader r hwriters hreaders hid⟩
  | cons u us =>
    have hnone : w.env.readers = [] := ho.resolve_right fun hreading => by
      rw [hwriters] at hreading
      cases hreading.1
    cases h with
    | idle _ _ hnil | failed _ _ _ hnil | lost _ _ _ _ hnil | reading _ _ _ _ hnil _ _ _ _ =>
      rw [hnil] at hwriters
      cases hwriters
    | late s u' hsvp _ _ hwriters' hs _ => exact ⟨s, [], hsvp, .writer u' [] hwriters' hs hnone⟩
    | writing hw _ =>
      obtain ⟨s, rest, hsvp⟩ := List.exists_cons_of_ne_nil hw.nonempty
      obtain ⟨u', us', hwriters', hs⟩ := hw.aligned.top hsvp
      exact ⟨s, rest, hsvp, .writer u' us' hwriters' hs hnone⟩

theorem Current.live {s : BtreeSavepoint} (h : Current w s) : w.env.Live s.txn := by
  rw [live_iff]
  cases h with
  | writer u us hwriters hs _ =>
    rw [hwriters, hs]
    exact .inl List.mem_cons_self
  | reader r _ hreaders hs =>
    rw [hreaders]
    exact .inr (List.mem_singleton.mpr hs.symm)

theorem ConnState.topLive (h : ConnState counted n w) (ho : OneReader w) : TopLive w := by
  intro t hlive s rest hsvp
  obtain ⟨s', rest', hsvp', hcurrent⟩ := h.current ho hlive
  obtain ⟨rfl, rfl⟩ := List.cons.inj (hsvp.symm.trans hsvp')
  exact hcurrent.live

/-- Every cursor of a transaction that lives moves in what it sees. -/
theorem Current.cursorView {s : BtreeSavepoint} (h : Current w s) {c : MdbCursor} (hlive : w.env.Live c.txn) :
    w.env.cursorView c = w.env.view s.txn := by
  rw [live_iff] at hlive
  cases h with
  | writer u us hwriters hs hreaders =>
    rw [hreaders] at hlive
    rw [Env.cursorView, if_pos (hlive.resolve_right List.not_mem_nil), hs, view_writer hwriters, hwriters]
    rfl
  | reader r hwriters hreaders hs =>
    rw [hwriters, hreaders] at hlive
    have hid : c.txn = r.id := List.mem_singleton.mp (hlive.resolve_left List.not_mem_nil)
    rw [Env.cursorView, hwriters, List.map_nil, if_neg List.not_mem_nil, view_reader hwriters, hid, hs]

theorem view_live {e : Env} {t : ℕ} {v : Contents} (hview : e.view t = some v) : e.Live t := by
  have hreader : ∀ o : Option ReadTxn, o = e.readers.find? (fun r => r.id = t) → o.map ReadTxn.view = some v →
      t ∈ e.readers.map ReadTxn.id := by
    intro o ho hsome
    obtain ⟨r, hr, -⟩ := Option.map_eq_some_iff.mp hsome
    have hfind := ho.symm.trans hr
    exact List.mem_map.mpr ⟨r, List.mem_of_find?_eq_some hfind, by simpa using List.find?_some hfind⟩
  rw [live_iff]
  cases hwriters : e.writers with
  | nil =>
    rw [view_reader hwriters] at hview
    exact .inr (hreader _ rfl hview)
  | cons u us =>
    rw [Env.view, hwriters] at hview
    dsimp only at hview
    split_ifs at hview with hid
    · exact .inl (hid ▸ List.mem_cons_self)
    · exact .inr (hreader _ rfl hview)

/-- Before the first transaction, and after the last one, none lives. -/
theorem ConnState.idle_readers (h : ConnState counted n w) (ho : OneReader w) (hin : w.p.inTrans = .none)
    (hsvp : w.p.svp = []) : w.env.writers = [] ∧ w.env.readers = [] := by
  have hreaders : w.env.readers = [] := by
    rcases ho with hnone | ⟨-, s, r, hsvp', -, -⟩
    · exact hnone
    · rw [hsvp] at hsvp'
      cases hsvp'
  refine ⟨?_, hreaders⟩
  cases h with
  | idle _ _ hwriters => exact hwriters
  | failed s hsvp' _ _ | reading s _ hsvp' _ _ _ _ _ _ | late s _ hsvp' _ _ _ _ _ =>
    rw [hsvp] at hsvp'
    cases hsvp'
  | lost _ hread _ _ _ => exact absurd (hin.symm.trans hread) (by decide)
  | writing hw _ => exact absurd hsvp hw.nonempty

end States

section Invalidation

variable {reads : Prop} {w w' : World} {l : List ℕ}

/-- The cursors of the handle are those of `l`, with LMDB cursors of their own. -/
structure OwnCursors (l : List ℕ) (w : World) : Prop where
  handles : Handles w
  listed : Listed w l

theorem Session.ownCursors {l : Ledger} (h : Session w l) : OwnCursors l.opened w := ⟨h.handles, h.listed⟩

theorem OwnCursors.apart (h : OwnCursors l w) : Apart w l := by
  intro i _ j _ hi _ hsame
  obtain ⟨n, hn⟩ := Option.isSome_iff_exists.mp hi.2
  exact h.handles.apart i j n hn (hsame ▸ hn)

theorem OwnCursors.kept (h : OwnCursors l w) (hlinks : LinksKept w w') (hhandles : HandlesKept w w') : OwnCursors l w' := by
  refine ⟨hhandles.handles h.handles, ?_, h.listed.once, fun i hi => (h.listed.bound i hi).trans_le hhandles.count⟩
  rw [hlinks.first]
  exact h.listed.visits.congr fun i _ => hlinks.next i

theorem OwnCursors.built (h : OwnCursors l w) {α : Type} {m : Call α} (hm : Built (TxnPart reads) m) :
    Ensures (fun _ => True) m (fun _ w' => OwnCursors l w') w := by
  have hlinks : Keeps LinksKept m := hm.keeps TxnPart.links
  have hhandles : Keeps HandlesKept m := hm.keeps TxnPart.handles
  exact ((hlinks w).and (hhandles w)).imp fun _ _ h' => h.kept h'.1 h'.2

/-- Cursors that are not due stay so. -/
theorem rests_built (hw : Handles w) (hrest : ∀ i ∈ l, ¬ (w.curs i).Due) {α : Type} {m : Call α}
    (hm : Built (TxnPart reads) m) : Ensures (fun _ => True) m (fun _ w' => ∀ i ∈ l, ¬ (w'.curs i).Due) w := by
  have hlasting : Keeps (LastingFrame fun _ => True) m := hm.keeps TxnPart.lasting
  exact (hlasting w).imp fun _ w' h i hi hdue => hrest i hi (((h hw).continues i trivial).due hdue).1

/-- No cursor is due from an invalidation of all cursors on. -/
theorem OwnCursors.rests (h : OwnCursors l w) (tripCode : Rc) {α : Type} {k : Rc → Call α} (hk : ∀ rc, Built (TxnPart reads) (k rc)) :
    Ensures (fun _ => True) (invalidateCursors tripCode false >>= k) (fun _ w' => ∀ i ∈ l, ¬ (w'.curs i).Due) w := by
  have hinvalidated : Ensures (fun _ => True) (invalidateCursors tripCode false) (fun _ w' => ∀ i ∈ l, ¬ (w'.curs i).Due) w := by
    by_cases htrip : tripCode = sqliteOk
    · subst htrip
      exact (invalidateCursors_saves (.inl fun _ => trivial) h.apart h.listed false).imp fun _ _ hs => hs.settled
    · apply (invalidateCursors_trips htrip h.listed).imp
      rintro _ _ ⟨-, rfl⟩ i hi
      simp only [World.tripped, if_pos hi]
      exact BtCursor.tripped_not_due htrip _
  have hown : Ensures (fun _ => True) (invalidateCursors tripCode false) (fun _ w' => OwnCursors l w') w :=
    h.built (built_invalidateCursors tripCode false : Built (TxnPart reads) _)
  rw [ensures_bind]
  exact (hinvalidated.and hown).imp fun rc w₁ h₁ => rests_built h₁.2.handles h₁.1 (hk rc)

/-- Nor is one when a level has been closed. -/
theorem OwnCursors.rests_closed (h : OwnCursors l w) {nTo : ℤ} (hcount : closedCount nTo w.p.svp ≠ 0) (commit : Bool)
    (tripCode : Rc) {α : Type} {k : Rc → Call α} (hk : ∀ rc, Built (TxnPart reads) (k rc)) :
    Ensures (fun _ => True) (closeAllSavepoints nTo commit tripCode >>= k) (fun _ w' => ∀ i ∈ l, ¬ (w'.curs i).Due) w := by
  rw [ensures_bind, closeAllSavepoints, ensures_bind, ensures_getP]
  rcases hsvp : w.p.svp with _ | ⟨s, _ | ⟨s', rest⟩⟩
  · rw [hsvp] at hcount
    exact absurd rfl hcount
  · rw [hsvp] at hcount
    exact absurd rfl hcount
  · have hn : s.nSavepoint ≠ nTo := by
      rintro rfl
      simp [hsvp, closedCount] at hcount
    have hown : OwnCursors l (w.withStack (s' :: rest)) :=
      h.kept ⟨fun _ => rfl, fun _ => rfl, fun _ => rfl, rfl, rfl⟩
        ⟨fun hw => ⟨hw.issued, hw.disjoint, hw.below, hw.apart⟩, Nat.le_refl _⟩
    have hrest : ∀ rc, Built (TxnPart reads) (closeLoop nTo commit tripCode (s' :: rest) rc) := fun rc =>
      built_closeLoop nTo commit tripCode (s' :: rest) rc
    have hend : ∀ rc1 : Rc, Built (TxnPart reads) ((do
        let rc := if (0 : Rc) = 0 then rc1 else 0
        if commit ∧ rc = 0 then lmdb (mdbTxnCommit s.txn)
        else do
          lmdb (mdbTxnAbort s.txn)
          pure rc) >>= fun rc => closeLoop nTo commit tripCode (s' :: rest) rc >>= k) := fun rc1 =>
      Built.bind (.ite (.part (.lmdb (.txnCommit _))) (Built.bind (.part (.lmdb (.txnAbort _))) fun _ => .pure _)) fun rc =>
        Built.bind (hrest rc) hk
    rw [closeLoop, if_neg hn, ensures_bind, ensures_setP, ← ensures_bind, Prog.bind_assoc, closeLevel, Prog.bind_assoc]
    exact hown.rests tripCode hend

end Invalidation

section Readers

variable {w w' : World}

/-- No transaction for reading appears. -/
def NoReaders (w w' : World) : Prop := w.env.readers = [] → w'.env.readers = []

instance : Frame NoReaders where
  refl _ := id
  trans h h' hnone := h' (h hnone)

theorem noReaders_lmdb {closes : ℕ → Prop} {α : Type} {m : Mdb α} (h : Steps closes False m) : Keeps NoReaders (lmdb m) := by
  intro w
  rw [ensures_lmdb]
  exact (h w.env).imp fun _ _ hstep => hstep.no_readers

theorem TxnPart.noReaders {α : Type} {m : Call α} (h : TxnPart False α m) : Keeps NoReaders m := by
  cases h with
  | lmdb h => exact noReaders_lmdb (h.steps : Steps (fun _ => False) False _)
  | setP f hf => exact .modify fun _ => id
  | invalidateCursor tripCode writeOnly i rc =>
    refine (built_invalidateCursor tripCode writeOnly i rc).keeps fun h => ?_
    cases h with
    | lmdb h => exact noReaders_lmdb h.steps
    | setCur f hf => exact .modify fun _ => id

theorem noReaders_built {α : Type} {m : Call α} (h : Built (TxnPart False) m) (hnone : w.env.readers = []) :
    Ensures (fun _ => True) m (fun _ w' => w'.env.readers = []) w := by
  have hkeeps : Keeps NoReaders m := h.keeps TxnPart.noReaders
  exact (hkeeps w).imp fun _ _ h => h hnone

/-- Only answers of LMDB have been used up. -/
structure TxnsSame (w w' : World) : Prop where
  p : w'.p = w.p
  curs : w'.curs = w.curs
  writers : w'.env.writers = w.env.writers
  readers : w'.env.readers = w.env.readers

instance : Frame TxnsSame where
  refl _ := ⟨rfl, rfl, rfl, rfl⟩
  trans h h' := ⟨h'.p.trans h.p, h'.curs.trans h.curs, h'.writers.trans h.writers, h'.readers.trans h.readers⟩

theorem AnswersOnly.txnsSame (h : AnswersOnly w w') : TxnsSame w w' := by
  obtain ⟨answers, rfl⟩ := h
  exact ⟨rfl, rfl, rfl, rfl⟩

theorem answersOnly_get (t : ℕ) (db : DbName) (key : Bytes) : Keeps AnswersOnly (lmdb (mdbGet t db key)) := by
  intro w
  rw [ensures_lmdb, mdbGet, withView, ensures_bind, ensures_read, id_eq]
  cases w.env.kind t with
  | none => trivial
  | some k =>
    dsimp only
    cases w.env.view t with
    | none => exact Frame.refl (R := AnswersOnly) w
    | some c =>
      dsimp only
      rw [ensures_bind, ensures_answer]
      refine .ite (fun _ => .pop w .get) fun _ => ?_
      cases c db with
      | none => exact .pop w .get
      | some es =>
        dsimp only
        cases SortedEntries.lookup (byteProbe key) es <;> exact .pop w .get

theorem answersOnly_getMeta64 (idx : ℕ) : Keeps AnswersOnly (getMeta64 idx) := by
  refine Keeps.bind (.read _) fun p => .ite (.pure _) ?_
  refine Keeps.bind keeps_topTxn fun txn => Keeps.bind (answersOnly_get _ _ _) fun r => .ite (.pure _) ?_
  exact Keeps.bind (.read _) fun fixedRowid => .pure _

theorem answersOnly_beginGetVersion (pSchemaVersion : Bool) : Keeps AnswersOnly (beginGetVersion pSchemaVersion) := by
  refine Keeps.ite (Keeps.bind ?_ fun v => .pure _) (.pure _)
  refine Keeps.bind (.read _) fun p => .ite (.pure _) ?_
  refine Keeps.bind keeps_topTxn fun txn => ?_
  exact Keeps.bind (answersOnly_get _ _ _) fun r => .ite (.pure _) (.ite (.pure _) (.pure _))

theorem OneReader.congr (h : OneReader w) (hsvp : w'.p.svp = w.p.svp) (hwriters : w'.env.writers = w.env.writers)
    (hreaders : w'.env.readers = w.env.readers) : OneReader w' := by
  rw [OneReader, hsvp, hwriters, hreaders]
  exact h

/-- The transaction on top ends, and no other is for reading. -/
theorem OneReader.abortTop (h : OneReader w) {α : Type} {k : Call α} (hk : Built (TxnPart False) k) :
    Ensures (fun _ => True) (do
      let txn ← topTxn
      lmdb (mdbTxnAbort txn)
      k) (fun _ w' => w'.env.readers = []) w := by
  rcases h with hnone | ⟨hwriters, s, r, hsvp, hreaders, hid⟩
  · exact noReaders_built (Built.bind built_topTxn fun _ => Built.bind (.part (.lmdb (.txnAbort _))) fun _ => hk) hnone
  · have hkind : w.env.kind s.txn = some .readOnly := by
      rw [Env.kind, hwriters, hreaders, if_neg (by simp), if_pos (by simp [hid])]
    rw [ensures_bind, ensures_topTxn hsvp, ensures_bind, ensures_lmdb]
    refine (documented.txnAbort_reader hkind _).mpr (noReaders_built hk ?_)
    simp [Env.endReader, hreaders, hid]

/-- A call that does not begin to read. -/
theorem OneReader.built (h : OneReader w) {α : Type} {m : Call α} (hm : Built (TxnPart False) m)
    (hreading : ∀ s, w.p.svp = [s] → w.env.writers = [] → Ensures (fun _ => True) m (fun _ w' => OneReader w') w) :
    Ensures (fun _ => True) m (fun _ w' => OneReader w') w := by
  rcases h with hnone | ⟨hwriters, s, r, hsvp, hreaders, hid⟩
  · exact (noReaders_built hm hnone).imp fun _ _ h => .inl h
  · exact hreading s hsvp hwriters

/-- The end of a transaction after the cursors have been invalidated. -/
theorem OneReader.endTxn (h : OneReader w) (tripCode : Rc) (writeOnly : Bool) {f : Btree → Btree}
    (hf : ∀ p, (f p).firstCursor = p.firstCursor ∧ (f p).lastCursor = p.lastCursor) :
    Ensures (fun _ => True) (do
      let _ ← invalidateCursors tripCode writeOnly
      let txn ← topTxn
      lmdb (mdbTxnAbort txn)
      setP f
      pure sqliteOk) (fun _ w' => OneReader w') w := by
  rw [ensures_bind]
  refine (keeps_invalidateCursors tripCode writeOnly w).imp fun _ w₁ hc => ?_
  have h₁ : OneReader w₁ := h.congr (by rw [hc.p]) hc.env.writers hc.env.readers
  exact (h₁.abortTop (Built.bind (.part (.setP f hf)) fun _ => .pure _)).imp fun _ _ hnone => .inl hnone

end Readers

section Calls

variable {w w' : World} {l : Ledger} {iSavepoint : ℤ} {tripCode : Rc}

theorem Sustained.refl {l : List ℕ} (w : World) : Sustained l w w := .lasting fun _ => id

theorem OneReader.savepoint (h : OneReader w) (op : SavepointOp) (iSavepoint : ℤ) :
    Ensures (fun _ => True) (sqlite3BtreeSavepoint op iSavepoint) (fun _ w' => OneReader w') w := by
  refine h.built (built_savepoint op iSavepoint) fun s hsvp _ => ?_
  rw [sqlite3BtreeSavepoint, ensures_bind, closeAll_single hsvp, if_neg (not_not.mpr rfl)]
  refine .ite (fun _ => h) fun _ => ?_
  exact h.endTxn sqliteOk false fun _ => ⟨rfl, rfl⟩

theorem OneReader.rollback (h : OneReader w) (tripCode : Rc) (writeOnly : Bool) :
    Ensures (fun _ => True) (sqlite3BtreeRollback tripCode writeOnly) (fun _ w' => OneReader w') w := by
  refine h.built (built_rollback tripCode writeOnly) fun s hsvp _ => ?_
  rw [sqlite3BtreeRollback, ensures_bind, ensures_getP]
  refine .ite (fun _ => h) fun _ => ?_
  rw [ensures_bind, closeAll_single hsvp]
  exact h.endTxn tripCode writeOnly fun _ => ⟨rfl, rfl⟩

theorem OneReader.commitPhaseOne (h : OneReader w) (hwrite : w.p.inTrans = .write → w.env.writers ≠ []) :
    Ensures (fun _ => True) sqlite3BtreeCommitPhaseOne (fun _ w' => OneReader w') w := by
  refine h.built built_commitPhaseOne fun s hsvp hwriters => ?_
  rw [sqlite3BtreeCommitPhaseOne, ensures_bind, ensures_getP]
  refine .ite (fun _ => h) fun _ => ?_
  rw [ensures_bind, closeAll_single hsvp, if_neg (not_not.mpr rfl), if_neg fun hin => hwrite hin hwriters]
  exact h.endTxn sqliteInternal false fun _ => ⟨rfl, rfl⟩

/-- Levels are closed only if there are any, and then no cursor is due any more. -/
theorem OwnCursors.closeAll {l : List ℕ} (h : OwnCursors l w) {commit : Bool} {α : Type} {k : Rc → Call α}
    (hk : ∀ rc, Built (TxnPart False) (k rc))
    (hnone : closedCount iSavepoint w.p.svp = 0 → Ensures (fun _ => True) (k 0) (fun _ w' => Sustained l w w') w) :
    Ensures (fun _ => True) (closeAllSavepoints iSavepoint commit tripCode >>= k) (fun _ w' => Sustained l w w') w := by
  by_cases hcount : closedCount iSavepoint w.p.svp = 0
  · rw [ensures_bind, closeAllSavepoints, ensures_bind, ensures_getP, closeLoop_none hcount, ensures_pure]
    exact hnone hcount
  · exact (h.rests_closed hcount commit tripCode hk).imp fun _ _ h => .resting h

theorem Session.savepoint_sustained (h : Session w l) (op : SavepointOp) (iSavepoint : ℤ) :
    Ensures (fun _ => True) (sqlite3BtreeSavepoint op iSavepoint) (fun _ w' => Sustained l.opened w w') w := by
  have hend : Built (TxnPart False) (do
      let txn ← topTxn
      lmdb (mdbTxnAbort txn)
      setP fun p => { p with svp := p.svp.tail, inTrans := .none }
      pure sqliteOk) := built_endTxn fun _ => ⟨rfl, rfl⟩
  refine h.ownCursors.closeAll (fun rc => ?_) fun _ => ?_
  · exact .ite (.pure _) (.ite (.pure _) (Built.bind (built_invalidateCursors _ _) fun _ => hend))
  · rw [if_neg (not_not.mpr rfl)]
    refine .ite (fun _ => .refl w) fun _ => ?_
    exact (h.ownCursors.rests sqliteOk fun _ => hend).imp fun _ _ h => .resting h

theorem Session.commit_sustained (h : Session w l) :
    Ensures (fun _ => True) sqlite3BtreeCommitPhaseOne (fun _ w' => Sustained l.opened w w') w := by
  have hend : Built (TxnPart False) (if w.p.inTrans = .write then do
        let c ← getMeta64 lumoLmdbMetaCounter
        let uCounter := toU64 (Int.bmod (c + 1) (2 ^ 32))
        let rc ← putMeta64 lumoLmdbMetaCounter uCounter
        commitOutermost rc
      else do
        let txn ← topTxn
        lmdb (mdbTxnAbort txn)
        setP fun p => { p with svp := [], inTrans := .none }
        pure sqliteOk) := by
    refine .ite ?_ (built_endTxn fun _ => ⟨rfl, rfl⟩)
    exact Built.bind (built_getMeta64 _) fun c => Built.bind (built_putMeta64 _) fun rc => built_commitOutermost rc
  rw [sqlite3BtreeCommitPhaseOne, ensures_bind, ensures_getP]
  refine .ite (fun _ => .refl w) fun _ => ?_
  refine h.ownCursors.closeAll (fun rc => ?_) fun _ => ?_
  · exact .ite (.pure _) (Built.bind (built_invalidateCursors _ _) fun _ => hend)
  · rw [if_neg (not_not.mpr rfl)]
    exact (h.ownCursors.rests sqliteInternal fun _ => hend).imp fun _ _ h => .resting h

/-- When a transaction has ended, none lives. -/
theorem Ended.not_live (h : Ended w w') (ho : OneReader w') (t : ℕ) : ¬ w'.env.Live t := by
  refine Btree.not_live h.writers ?_ t
  rcases ho with hnone | ⟨-, s, r, hsvp, -, -⟩
  · exact hnone
  · rw [h.p] at hsvp
    cases hsvp

/-- What a call on transactions does to those that are used. -/
def TxnsKept (l : List ℕ) (w w' : World) : Prop := OneReader w' ∧ Sustained l w w'

theorem Session.rollback_kept (h : Session w l) (ho : OneReader w) (tripCode : Rc) (writeOnly : Bool) :
    Ensures (fun _ => True) (sqlite3BtreeRollback tripCode writeOnly) (fun _ w' => TxnsKept l.opened w w') w := by
  obtain ⟨n, hconn⟩ := h.connection
  refine ((ho.rollback tripCode writeOnly).and (hconn.state.rollback tripCode writeOnly)).imp fun _ w' hres => ?_
  obtain ⟨ho', -, rfl | hended⟩ := hres
  · exact ⟨ho', .refl _⟩
  · exact ⟨ho', .ended (hended.not_live ho')⟩

theorem Session.beginStmt_kept (h : Session w l) (ho : OneReader w) (hin : w.p.inTrans = .write) (iStatement : ℕ) :
    Ensures (fun _ => True) (sqlite3BtreeBeginStmt iStatement) (fun _ w' => TxnsKept l.opened w w') w := by
  obtain ⟨n, hconn⟩ := h.connection
  have hw := hconn.inWrite hin
  have hnone : w.env.readers = [] := ho.resolve_right fun hreading => hw.aligned.writers_ne hw.nonempty hreading.1
  refine ((beginStmt_spec hw.stack hw.open iStatement).and
    (noReaders_built (built_beginStmt iStatement) hnone)).imp fun _ w' hres => ?_
  obtain ⟨⟨-, hres⟩, hnone'⟩ := hres
  refine ⟨.inl hnone', .lasting fun t hlive => ?_⟩
  rw [live_iff, hnone] at hlive
  rw [live_iff]
  cases hres with
  | same _ ha =>
    rw [ha.writers]
    exact .inl (hlive.resolve_right List.not_mem_nil)
  | opened _ _ _ _ _ hwriters _ =>
    rw [hwriters]
    exact .inl (List.mem_cons_of_mem _ (hlive.resolve_right List.not_mem_nil))

end Calls

section Beginning

variable {w w' w₁ : World} {l : Ledger}

theorem TxnsSame.kept {l : List ℕ} (h : TxnsSame w₁ w') (hkept : TxnsKept l w w₁) : TxnsKept l w w' := by
  obtain ⟨ho, hsustained⟩ := hkept
  have hlive : ∀ t, w'.env.Live t ↔ w₁.env.Live t := fun t => by
    rw [Env.Live, Env.Live, kind_congr h.writers h.readers]
  refine ⟨ho.congr (by rw [h.p]) h.writers h.readers, ?_⟩
  cases hsustained with
  | resting hrest =>
    refine .resting fun i hi => ?_
    rw [h.curs]
    exact hrest i hi
  | ended hended => exact .ended fun t ht => hended t ((hlive t).mp ht)
  | lasting hlasts => exact .lasting fun t ht => (hlive t).mpr (hlasts t ht)

/-- A new transaction is the only one. -/
theorem beginOpened_reader {wrFlag : Bool} {txn : ℕ} (h : w.env.readers = [] ∨
    w.env.writers = [] ∧ ∃ r, w.env.readers = [r] ∧ r.id = txn) :
    Ensures (fun _ => True) (beginOpened wrFlag txn) (fun _ w' => OneReader w') w := by
  rcases h with hnone | ⟨hwriters, r, hreaders, hid⟩
  · exact (noReaders_built (built_beginOpened wrFlag txn) hnone).imp fun _ _ h => .inl h
  · have hkind : w.env.kind txn = some .readOnly := by
      rw [Env.kind, hwriters, hreaders, if_neg (by simp), if_pos (by simp [hid])]
    have hview : w.env.view txn = some r.view := by
      rw [view_reader hwriters, hreaders, List.find?_cons_of_pos (by simpa using hid)]
      rfl
    refine beginOpened_spec wrFlag hkind hview (fun hasData _ => ?_) fun rc _ _ => ?_
    · exact .inr ⟨hwriters, ⟨txn, -1⟩, r, rfl, hreaders, hid⟩
    · rw [ensures_lmdb]
      refine (documented.txnAbort_reader (e := w.env.pop .dbiOpen) hkind _).mpr (Or.inl ?_)
      simp [Env.endReader, Env.pop, hreaders, hid]

theorem beginNew_reader (hwriters : w.env.writers = []) (hreaders : w.env.readers = []) (wrFlag : Bool) :
    Ensures (fun _ => True) (beginNew wrFlag) (fun _ w' => OneReader w') w := by
  have hnone : ∀ e : Env, e.readers = [] → OneReader { w with env := e } := fun _ h => .inl h
  rw [beginNew, ensures_bind, ensures_getP]
  refine .ite (fun _ => hnone _ hreaders) fun _ => ?_
  rw [ensures_bind, ensures_lmdb, ensures_answer]
  refine .ite (fun _ => hnone _ hreaders) fun _ => ?_
  rw [ensures_bind, ensures_lmdb, mdbTxnBegin, ensures_bind, ensures_read]
  dsimp only [id_eq]
  refine .ite (fun _ => (ensures_pure _).mpr ?_) fun _ => ?_
  · rw [if_pos (by decide)]
    exact hnone _ hreaders
  rw [ensures_bind, ensures_answer]
  refine .ite (fun hrc => (ensures_pure _).mpr ?_) fun _ => .ite (fun _ => ?_) fun _ => ?_
  · rw [if_pos hrc]
    exact hnone _ hreaders
  · rw [ensures_bind, ensures_modify, ensures_pure, if_neg (not_not.mpr rfl)]
    exact beginOpened_reader (.inr ⟨hwriters, _, congrArg (_ :: ·) hreaders, rfl⟩)
  · refine .ite (fun _ => trivial) fun _ => ?_
    rw [ensures_bind, ensures_modify, ensures_pure, if_neg (not_not.mpr rfl)]
    exact beginOpened_reader (.inl hreaders)

/-- Where there is no transaction none is lost. -/
theorem Session.beginNew_kept (h : Session w l) (ho : OneReader w) (hin : w.p.inTrans = .none) (wrFlag : Bool) :
    Ensures (fun _ => True) (beginNew wrFlag) (fun _ w' => TxnsKept l.opened w w') w := by
  obtain ⟨n, hconn⟩ := h.connection
  by_cases hsvp : w.p.svp = []
  · obtain ⟨hwriters, hreaders⟩ := hconn.state.idle_readers ho hin hsvp
    exact (beginNew_reader hwriters hreaders wrFlag).imp fun _ w' ho' =>
      ⟨ho', .lasting fun t hlive => absurd hlive (not_live hwriters hreaders t)⟩
  · rw [beginNew, ensures_bind, ensures_getP, if_pos hsvp]
    exact ⟨ho, .refl w⟩

/-- What follows the end of the old transaction. -/
theorem built_upgradeTaken (uCounterRO : ℤ) : Built (TxnPart False) (do
    let r ← lmdb (mdbTxnBegin none false)
    if r.1 ≠ 0 then upgradeError r.1 else upgradeOpened uCounterRO r.2) :=
  Built.bind (.part (.lmdb (.txnBegin _ fun h => absurd h Bool.false_ne_true))) fun _ =>
    .ite (built_upgradeError _) (built_upgradeOpened _ _)

theorem Session.upgrade_kept (h : Session w l) (ho : OneReader w) :
    Ensures (fun _ => True) upgradeOptimistic (fun _ w' => TxnsKept l.opened w w') w := by
  have hbuilt : ∀ uCounterRO : ℤ, ∀ rc, Built (TxnPart False) (if rc ≠ 0 then pure (errorMap rc)
      else do
        setP fun p => { p with hasData := false }
        let txn ← topTxn
        lmdb (mdbTxnAbort txn)
        let r ← lmdb (mdbTxnBegin none false)
        if r.1 ≠ 0 then upgradeError r.1 else upgradeOpened uCounterRO r.2) := fun uCounterRO rc =>
    .ite (.pure _) (Built.bind (.part (.setP _ fun _ => ⟨rfl, rfl⟩)) fun _ => Built.bind built_topTxn fun _ =>
      Built.bind (.part (.lmdb (.txnAbort _))) fun _ => built_upgradeTaken uCounterRO)
  have hcounter : Built (TxnPart False) (getMeta64 lumoLmdbMetaCounter) := built_getMeta64 _
  rw [upgradeOptimistic, ensures_bind]
  refine ((answersOnly_getMeta64 lumoLmdbMetaCounter w).and (h.ownCursors.built hcounter)).imp fun uCounterRO w₁ h₁ => ?_
  obtain ⟨hanswers, hown⟩ := h₁
  have hsame := hanswers.txnsSame
  have ho₁ : OneReader w₁ := ho.congr (by rw [hsame.p]) hsame.writers hsame.readers
  have hreader : Ensures (fun _ => True) (invalidateCursors sqliteOk false >>= fun rc => if rc ≠ 0 then pure (errorMap rc)
      else do
        setP fun p => { p with hasData := false }
        let txn ← topTxn
        lmdb (mdbTxnAbort txn)
        let r ← lmdb (mdbTxnBegin none false)
        if r.1 ≠ 0 then upgradeError r.1 else upgradeOpened uCounterRO r.2) (fun _ w' => OneReader w') w₁ := by
    rw [ensures_bind]
    refine (keeps_invalidateCursors sqliteOk false w₁).imp fun rc w₂ hc => ?_
    have ho₂ : OneReader w₂ := ho₁.congr (by rw [hc.p]) hc.env.writers hc.env.readers
    refine .ite (fun _ => ho₂) fun _ => ?_
    rw [ensures_bind, ensures_setP]
    have ho₃ : OneReader { w₂ with p := { w₂.p with hasData := false } } := ho₂.congr rfl rfl rfl
    exact (ho₃.abortTop (built_upgradeTaken uCounterRO)).imp fun _ _ hnone => .inl hnone
  exact (hreader.and (hown.rests sqliteOk (hbuilt uCounterRO))).imp fun _ _ h => ⟨h.1, .resting h.2⟩

theorem Session.beginTrans_kept (h : Session w l) (ho : OneReader w) (wrFlag pSchemaVersion : Bool) :
    Ensures (fun _ => True) (sqlite3BtreeBeginTrans wrFlag pSchemaVersion) (fun _ w' => TxnsKept l.opened w w') w := by
  have hrefl : TxnsKept l.opened w w := ⟨ho, .refl w⟩
  have hversion : ∀ w₁, TxnsKept l.opened w w₁ →
      Ensures (fun _ => True) (beginGetVersion pSchemaVersion) (fun _ w' => TxnsKept l.opened w w') w₁ := fun w₁ hkept =>
    (answersOnly_beginGetVersion pSchemaVersion w₁).imp fun _ _ hanswers => hanswers.txnsSame.kept hkept
  have hend : ∀ (rc : Rc) (w₁ : World), TxnsKept l.opened w w₁ → Ensures (fun _ => True)
      (if rc ≠ sqliteOk then pure (rc, none) else beginGetVersion pSchemaVersion)
      (fun _ w' => TxnsKept l.opened w w') w₁ := fun rc w₁ hkept => .ite (fun _ => hkept) fun _ => hversion w₁ hkept
  rw [sqlite3BtreeBeginTrans, ensures_bind, ensures_getP]
  refine .ite (fun _ => hversion w hrefl) fun _ => .ite (fun _ => hrefl) fun _ => .ite (fun _ => hversion w hrefl) fun _ => ?_
  refine .ite (fun _ => ?_) fun hin => ?_
  · rw [ensures_bind, beginUpgrade, ensures_bind, ensures_getP]
    have hsame : ∀ rc : Rc, Ensures (fun _ => True) (pure rc : Call Rc) (fun rc w₁ => Ensures (fun _ => True)
        (if rc ≠ sqliteOk then pure (rc, none) else beginGetVersion pSchemaVersion)
        (fun _ w' => TxnsKept l.opened w w') w₁) w := fun rc => hend rc w hrefl
    refine .ite (fun _ => hsame _) fun _ => .ite (fun _ => ?_) fun _ => .ite (fun _ => ?_) fun _ => hsame _
    · exact (h.upgrade_kept ho).imp hend
    · rw [ensures_bind, ensures_setP]
      exact hend _ _ ⟨ho.congr rfl rfl rfl, .lasting fun _ => id⟩
  · rw [ensures_bind]
    exact (h.beginNew_kept ho (not_not.mp hin) wrFlag).imp hend

theorem Session.txn_kept (h : Session w l) (ho : OneReader w) (call : TxnCall) (hallowed : (ConnCall.txn call).Allowed w) :
    Ensures (fun _ => True) call.run (fun _ w' => TxnsKept l.opened w w') w := by
  cases call with
  | beginTrans wrFlag pSchemaVersion =>
    rw [TxnCall.run, ensures_bind]
    exact h.beginTrans_kept ho wrFlag pSchemaVersion
  | beginStmt iStatement => exact h.beginStmt_kept ho hallowed iStatement
  | savepoint op iSavepoint => exact (ho.savepoint op iSavepoint).and (h.savepoint_sustained op iSavepoint)
  | commitPhaseOne =>
    obtain ⟨n, hconn⟩ := h.connection
    refine (ho.commitPhaseOne fun hin => ?_).and h.commit_sustained
    exact (hconn.inWrite hin).aligned.writers_ne (hconn.inWrite hin).nonempty
  | rollback tripCode writeOnly => exact h.rollback_kept ho tripCode writeOnly

end Beginning

section Steady

variable {w w' : World} {l : Ledger} {i : ℕ}

/-- What every step of a session keeps of its open cursors. -/
structure Steady (w : World) (l : Ledger) : Prop where
  session : Session w l
  reader : OneReader w
  sound : ∀ i ∈ l.opened, Sound w i

theorem Steady.topLive (h : Steady w l) : TopLive w := by
  obtain ⟨n, hconn⟩ := h.session.connection
  exact hconn.state.topLive h.reader

theorem Steady.current (h : Steady w l) {t : ℕ} (hlive : w.env.Live t) : ∃ s rest, w.p.svp = s :: rest ∧ Current w s := by
  obtain ⟨n, hconn⟩ := h.session.connection
  exact hconn.state.current h.reader hlive

theorem Steady.txn (h : Steady w l) (call : TxnCall) (hallowed : (ConnCall.txn call).Allowed w) :
    Ensures (fun _ => True) call.run (fun _ w' => Steady w' l) w := by
  have hlasting : Keeps (LastingFrame fun _ => True) call.run := call.built.keeps TxnPart.lasting
  refine (((h.session.txn call hallowed).and (h.session.txn_kept h.reader call hallowed)).and (hlasting w)).imp fun _ w' hres => ?_
  obtain ⟨⟨hsession, ho, hsustained⟩, hlasts⟩ := hres
  exact ⟨hsession, ho, fun i hi => (h.sound i hi).lasting (hlasts h.session.handles) trivial hi hsustained⟩

theorem Steady.data (h : Steady w l) {call : DataCall} (hmoves : call.moves = true) (hallowed : call.Allowed w) :
    Ensures (fun _ => True) call.run (fun _ w' => Steady w' l) w := by
  obtain ⟨n, hconn⟩ := h.session.connection
  have hrenewed : ∀ i, Keeps (RenewedFrame i) call.run := fun i =>
    (DataCall.built_of_moves hmoves hallowed).keeps fun hm => UsePart.renewed hm i
  have hall : Ensures (fun _ => True) call.run (fun _ w' => ∀ i, RenewedFrame i w w') w :=
    ensures_iff.mpr ⟨fun _ _ hrun i => (hrenewed i w).of_ok hrun, fun _ _ => trivial⟩
  refine (((h.session.data hmoves hallowed).and (dataCall_spec hconn.metaFree hallowed)).and hall).imp fun _ w' hres => ?_
  obtain ⟨⟨hsession, htables⟩, hrenews⟩ := hres
  exact ⟨hsession, htables.oneReader h.reader, fun i hi =>
    (h.sound i hi).renewed (hrenews i h.session.handles) htables.live h.topLive⟩

theorem Steady.meanwhile (h : Steady w l) (answers : Answers) {disk : Disk}
    (hmeta : HasMetadata (disk.contents .metadata)) : Steady (w.meanwhile answers disk) l := by
  refine ⟨h.session.meanwhile answers hmeta, h.reader, fun i hi => ?_⟩
  obtain ⟨hdbi, htxn, hstored, hlive⟩ := h.sound i hi
  refine ⟨hdbi, htxn, hstored, fun hdue t ht ht' => ?_⟩
  obtain ⟨n, u, hn, hp, hu⟩ := hlive hdue t ht ht'
  exact ⟨n, u, hn, ⟨hp.present, hp.same.cursors, hp.same.shadows⟩, hu⟩

/-- Other cursors than the one that the call is about are not touched, and a new one is opened in the transaction on top. -/
theorem Steady.cursor (h : Steady w l) {call : CursorCall} (hallows : l.Allows call) (hsafe : l.ClosesSafely call)
    (hsingle : w.p.single = false) :
    Ensures (fun _ => True) call.run (fun rc w' => Steady w' (l.record rc call)) w := by
  obtain ⟨n, hconn⟩ := h.session.connection
  have hopens : Ensures (fun _ => True) call.run (fun rc w' => ∀ i iTable wrFlag keyInfo,
      call = .cursor i iTable wrFlag keyInfo → rc = sqliteOk → Opened w' i) w := by
    rw [ensures_iff]
    refine ⟨fun rc w' hrun i iTable wrFlag keyInfo hcall hrc => ?_, fun _ _ => trivial⟩
    subst hcall
    exact (cursor_opens h.session.handles iTable wrFlag keyInfo).of_ok hrun hrc
  refine (((h.session.cursor hallows hsafe hsingle).and (cursorCall_spec hconn.metaFree hsingle call)).and
    ((call.lasting w).and hopens)).imp fun rc w' hres => ?_
  obtain ⟨⟨hsession, htables⟩, hlasting, hopens⟩ := hres
  have hkept : ∀ i ∈ l.opened, i ≠ call.target → Sound w' i := fun i hi hne =>
    (h.sound i hi).lasting (hlasting h.session.handles) hne hi (.lasting fun t => (htables.live t).mpr)
  refine ⟨hsession, htables.oneReader h.reader, fun i hi => ?_⟩
  have hzeroed : ∀ j, l.usage j ≠ .opened → j ∉ l.opened := fun j hj hmem => hj ((h.session.list.listed j).mp hmem)
  cases call with
  | zero j =>
    refine hkept i hi ?_
    rintro rfl
    rcases hallows with husage | husage
    · exact hzeroed i (by rw [husage]; decide) hi
    · exact hzeroed i (by rw [husage]; decide) hi
  | cursor j iTable wrFlag keyInfo =>
    have husage : l.usage j = .zeroed := hallows
    have hne : ∀ i ∈ l.opened, i ≠ j := by
      rintro m hm rfl
      exact hzeroed m (by rw [husage]; decide) hm
    rw [Ledger.record] at hi
    split_ifs at hi with hrc
    · rcases List.mem_append.mp hi with hi | hi
      · exact hkept i hi (hne i hi)
      · rw [List.mem_singleton.mp hi]
        exact (hopens j iTable wrFlag keyInfo rfl hrc).sound hsession.handles
    · exact hkept i hi (hne i hi)
  | close j =>
    obtain ⟨hne, hmem⟩ := (h.session.list.once.mem_erase_iff).mp hi
    exact hkept i hmem hne

theorem Steady.step {s : World × Ledger} (h : Steady s.1 s.2) {k : SessionStep} (hallowed : k.Allowed s) :
    Ensures (fun _ => True) (sessionStep k) (fun _ s' => Steady s'.1 s'.2) s := by
  cases k with
  | meanwhile answers disk => exact h.meanwhile answers hallowed
  | cursor call =>
    rw [sessionStep, ensures_ledgerStep]
    exact h.cursor hallowed.1.1 hallowed.1.2 hallowed.2
  | txn call =>
    rw [sessionStep, ensures_zoom]
    exact h.txn call hallowed
  | data call =>
    rw [sessionStep, ensures_bind, ensures_zoom]
    exact h.data hallowed.1 hallowed.2

end Steady

end LumoSql.Btree
