import LumoSql.BtreeTransactions
import LumoSql.LmdbLaws

/-! What invalidating cursors leaves alone, and what closing the levels of the stack does to
the nested write transactions. -/
namespace LumoSql.Btree
open StateLogic Lmdb

/-- Only cursors and the codes for saving their positions change. -/
structure EnvCursorsOnly (e e' : Env) : Prop where
  disk : e'.disk = e.disk
  readonly : e'.readonly = e.readonly
  writers : e'.writers = e.writers
  readers : e'.readers = e.readers
  next : e'.next = e.next
  answers : ∀ c, c ≠ .cursorGet → c ≠ .malloc → e'.answers c = e.answers c

instance : Frame EnvCursorsOnly where
  refl _ := ⟨rfl, rfl, rfl, rfl, rfl, fun _ _ _ => rfl⟩
  trans h h' := ⟨h'.disk.trans h.disk, h'.readonly.trans h.readonly, h'.writers.trans h.writers,
    h'.readers.trans h.readers, h'.next.trans h.next,
    fun c hg hm => (h'.answers c hg hm).trans (h.answers c hg hm)⟩

structure CursorsOnly (w w' : World) : Prop where
  build : w'.fixedRowid = w.fixedRowid
  p : w'.p = w.p
  nCurs : w'.nCurs = w.nCurs
  env : EnvCursorsOnly w.env w'.env

instance : Frame CursorsOnly where
  refl _ := ⟨rfl, rfl, rfl, Frame.refl _⟩
  trans h h' := ⟨h'.build.trans h.build, h'.p.trans h.p, h'.nCurs.trans h.nCurs,
    Frame.trans h.env h'.env⟩

theorem EnvCursorsOnly.pop (e : Env) {c : Fallible} (hc : c = .cursorGet ∨ c = .malloc) :
    EnvCursorsOnly e (e.pop c) := by
  refine ⟨rfl, rfl, rfl, rfl, rfl, fun d hg hm => ?_⟩
  refine pop_answers_of_ne ?_
  rcases hc with rfl | rfl <;> assumption

theorem keeps_answer {c : Fallible} (hc : c = .cursorGet ∨ c = .malloc) :
    Keeps EnvCursorsOnly (answer c) := fun e => by
  rw [ensures_answer]
  exact .pop e hc

theorem keeps_cursorGet (h : Option ℕ) (op : CursorOp) :
    Keeps EnvCursorsOnly (mdbCursorGet h op) := by
  cases h with
  | none => exact .pure _
  | some h =>
    refine Keeps.bind (.read _) fun e => ?_
    cases e.cursors h with
    | none => exact .halt _
    | some c =>
      dsimp only
      cases e.cursorView c with
      | none => exact .halt _
      | some v =>
        refine Keeps.bind (keeps_answer (.inl rfl)) fun rc => ?_
        split_ifs
        · exact .pure _
        · exact Keeps.bind (.modify fun e => ⟨rfl, rfl, rfl, rfl, rfl, fun _ _ _ => rfl⟩) fun _ => .pure _

theorem keeps_cursorClose (h : Option ℕ) : Keeps EnvCursorsOnly (mdbCursorClose h) := by
  cases h with
  | none => exact .pure _
  | some h =>
    refine Keeps.bind (.read _) fun e => ?_
    cases e.cursors h with
    | none => exact .halt _
    | some c => exact .modify fun e => ⟨rfl, rfl, rfl, rfl, rfl, fun _ _ _ => rfl⟩

theorem keeps_lmdb {α : Type} {m : Mdb α} (h : Keeps EnvCursorsOnly m) :
    Keeps CursorsOnly (lmdb m) :=
  Keeps.zoom h fun _ _ he => ⟨rfl, rfl, rfl, he⟩

theorem keeps_setCur (i : ℕ) (f : BtCursor → BtCursor) : Keeps CursorsOnly (setCur i f) :=
  .modify fun _ => ⟨rfl, rfl, rfl, Frame.refl _⟩

theorem keeps_saveFailed (i : ℕ) (rc1 rc : Rc) : Keeps CursorsOnly (saveFailed i rc1 rc) :=
  Keeps.bind (keeps_setCur i _) fun _ => .pure _

theorem keeps_invalidateCursor (tripCode : Rc) (writeOnly : Bool) (i : ℕ) (rc : Rc) :
    Keeps CursorsOnly (invalidateCursor tripCode writeOnly i rc) := by
  refine Keeps.bind (.read _) fun c => ?_
  split_ifs
  · refine Keeps.bind (keeps_lmdb (keeps_cursorGet _ _)) fun r => ?_
    split_ifs
    · exact keeps_saveFailed i _ rc
    · refine Keeps.bind (keeps_lmdb (keeps_answer (.inr rfl))) fun oom => ?_
      split_ifs
      · exact Keeps.bind (keeps_setCur i _) fun _ => keeps_saveFailed i _ rc
      · refine Keeps.bind (keeps_setCur i _) fun _ => ?_
        refine Keeps.bind (keeps_lmdb (keeps_cursorClose _)) fun _ => ?_
        exact Keeps.bind (keeps_setCur i _) fun _ => .pure _
  · exact Keeps.bind (keeps_setCur i _) fun _ => .pure _
  · exact .pure _

theorem keeps_invalidateLoop (tripCode : Rc) (writeOnly : Bool) (fuel : ℕ) (o : Option ℕ)
    (rc : Rc) : Keeps CursorsOnly (invalidateLoop tripCode writeOnly fuel o rc) := by
  induction fuel generalizing o rc with
  | zero =>
    cases o with
    | none => exact .pure _
    | some i => exact .halt _
  | succ fuel ih =>
    cases o with
    | none => exact .pure _
    | some i =>
      refine Keeps.bind (.read _) fun c => ?_
      exact Keeps.bind (keeps_invalidateCursor tripCode writeOnly i rc) fun rc => ih c.next rc

theorem keeps_invalidateCursors (tripCode : Rc) (writeOnly : Bool) :
    Keeps CursorsOnly (invalidateCursors tripCode writeOnly) :=
  Keeps.bind (.read _) fun p => Keeps.bind (.read _) fun fuel =>
    keeps_invalidateLoop tripCode writeOnly fuel p.firstCursor 0

/-- Cursors that are tripped and not saved cannot fail. -/
theorem invalidateLoop_tripped {tripCode : Rc} (htrip : tripCode ≠ sqliteOk) (writeOnly : Bool)
    (fuel : ℕ) (o : Option ℕ) (rc : Rc) (w : World) :
    Ensures (fun _ => True) (invalidateLoop tripCode writeOnly fuel o rc) (fun rc' _ => rc' = rc)
      w := by
  induction fuel generalizing o rc w with
  | zero => cases o <;> trivial
  | succ fuel ih =>
    cases o with
    | none => trivial
    | some i =>
      rw [invalidateLoop, ensures_bind, ensures_getCur, ensures_bind, invalidateCursor, ensures_bind,
        ensures_getCur]
      simp only [if_neg htrip, ensures_ite, ensures_bind, ensures_setCur, ensures_pure]
      split_ifs <;> exact ih _ _ _

/-- The handle has no cursor in its list, or calls may stop for whatever reason. -/
def Lenient (E : Halt → Prop) (w : World) : Prop := (∀ h, E h) ∨ w.p.firstCursor = none

/-- Invalidation fails only when it saves positions of cursors. -/
theorem invalidateCursors_spec {E : Halt → Prop} {w : World} (hE : Lenient E w) (tripCode : Rc)
    (writeOnly : Bool) :
    Ensures E (invalidateCursors tripCode writeOnly) (fun rc w' => CursorsOnly w w' ∧
      (tripCode ≠ sqliteOk ∨ w.p.firstCursor = none → rc = 0)) w := by
  rcases hE with hE | hnone
  · have hkeep := keeps_invalidateCursors tripCode writeOnly w
    have hrc : Ensures (fun _ => True) (invalidateCursors tripCode writeOnly) (fun rc _ =>
        tripCode ≠ sqliteOk ∨ w.p.firstCursor = none → rc = 0) w := by
      rw [invalidateCursors, ensures_bind, ensures_getP, ensures_bind, ensures_read]
      by_cases htrip : tripCode = sqliteOk
      · by_cases hnone : w.p.firstCursor = none
        · rw [hnone]
          cases w.nCurs <;> exact fun _ => rfl
        · refine (keeps_invalidateLoop tripCode writeOnly _ _ 0 w).imp fun rc _ _ h => ?_
          rcases h with h | h
          · exact absurd htrip h
          · exact absurd h hnone
      · exact (invalidateLoop_tripped htrip _ _ _ 0 w).imp fun rc _ h _ => h
    exact (hkeep.and hrc).mono (fun _ _ h => h) fun h _ => hE h
  · rw [invalidateCursors, ensures_bind, ensures_getP, ensures_bind, ensures_read, hnone]
    cases w.nCurs <;> exact ⟨Frame.refl w, fun _ => rfl⟩

/-- Only the levels, cursors and the codes for ending levels change. -/
structure LevelsOnly (w w' : World) : Prop where
  build : w'.fixedRowid = w.fixedRowid
  p : w'.p = { w.p with svp := w'.p.svp }
  nCurs : w'.nCurs = w.nCurs
  disk : w'.env.disk = w.env.disk
  readonly : w'.env.readonly = w.env.readonly
  readers : w'.env.readers = w.env.readers
  next : w'.env.next = w.env.next
  answers : ∀ c, c ≠ .cursorGet → c ≠ .malloc → c ≠ .txnCommit →
    w'.env.answers c = w.env.answers c

instance : Frame LevelsOnly where
  refl _ := ⟨rfl, rfl, rfl, rfl, rfl, rfl, rfl, fun _ _ _ _ => rfl⟩
  trans h h' := ⟨h'.build.trans h.build, by rw [h'.p, h.p], h'.nCurs.trans h.nCurs,
    h'.disk.trans h.disk, h'.readonly.trans h.readonly, h'.readers.trans h.readers,
    h'.next.trans h.next, fun c hg hm ht => (h'.answers c hg hm ht).trans (h.answers c hg hm ht)⟩

/-- The handle but for its stack, and the disk, are what they were. -/
structure Still (w w' : World) : Prop where
  build : w'.fixedRowid = w.fixedRowid
  p : w'.p = { w.p with svp := w'.p.svp }
  nCurs : w'.nCurs = w.nCurs
  disk : w'.env.disk = w.env.disk
  readonly : w'.env.readonly = w.env.readonly

theorem LevelsOnly.still {w w' : World} (h : LevelsOnly w w') : Still w w' :=
  ⟨h.build, h.p, h.nCurs, h.disk, h.readonly⟩

theorem CursorsOnly.levelsOnly {w w' : World} (h : CursorsOnly w w') : LevelsOnly w w' :=
  ⟨h.build, by rw [h.p], h.nCurs, h.env.disk, h.env.readonly, h.env.readers, h.env.next,
    fun c hg hm _ => h.env.answers c hg hm⟩

theorem Lenient.of_eq {E : Halt → Prop} {w w' : World} (hE : Lenient E w)
    (h : w'.p.firstCursor = w.p.firstCursor) : Lenient E w' := by
  rcases hE with hE | hnone
  · exact .inl hE
  · exact .inr (h.trans hnone)

section Level

variable {E : Halt → Prop} {w : World} {t t' : WriteTxn} {ts : List WriteTxn}

/-- What closing one level does to the transactions, by its result code. -/
inductive LevelClosed (commit : Bool) (w : World) (t t' : WriteTxn) (ts : List WriteTxn) (rc : Rc)
    (rc' : Rc) (w' : World) : Prop
  | aborted (hwriters : w'.env.writers = t' :: ts) (hrc : commit = true → rc' ≠ 0)
      (hcodes : commit = false → w'.env.answers .txnCommit = w.env.answers .txnCommit)
  | committed (hwriters : w'.env.writers = { t' with view := t.view } :: ts)
      (hcommit : commit = true) (hrc : rc = 0 ∧ rc' = 0)
      (hcode : (w.env.answers .txnCommit).headD 0 = 0)
      (hcodes : w'.env.answers .txnCommit = (w.env.answers .txnCommit).tail)

theorem abort_nested (e : Env) (hw : e.writers = t :: t' :: ts) (hlocked : e.disk.locked = true) :
    e.abort t.id =
      { e with writers := t' :: ts, cursors := e.survivors (t' :: ts) t.shadow } := by
  have hdisk : { e.disk with locked := true } = e.disk := by rw [← hlocked]
  rw [abort_writer hw]
  simp only [List.isEmpty_cons, Bool.not_false, hdisk]

theorem closeLevel_spec (hE : Lenient E w) (hw : w.env.writers = t :: t' :: ts)
    (hlocked : w.env.disk.locked = true) {s : BtreeSavepoint} (hs : s.txn = t.id) (commit : Bool)
    (tripCode rc : Rc) :
    Ensures E (closeLevel s commit tripCode rc) (fun rc' w' => LevelsOnly w w' ∧ w'.p = w.p ∧
      LevelClosed commit w t t' ts rc rc' w' ∧ (rc ≠ 0 → rc' = rc) ∧
      (commit = false → tripCode ≠ sqliteOk ∨ w.p.firstCursor = none → rc' = rc) ∧
      (tripCode ≠ sqliteOk ∨ w.p.firstCursor = none → rc = 0 → rc' ≠ 0 →
        (w.env.answers .txnCommit).headD 0 ≠ 0)) w := by
  rw [closeLevel, ensures_bind]
  refine (invalidateCursors_spec hE tripCode false).imp fun rc1 w₁ h => ?_
  obtain ⟨hc, hrc1⟩ := h
  have hw₁ : w₁.env.writers = t :: t' :: ts := hc.env.writers.trans hw
  have hlocked₁ : w₁.env.disk.locked = true := by rw [hc.env.disk]; exact hlocked
  have hcodes : w₁.env.answers .txnCommit = w.env.answers .txnCommit :=
    hc.env.answers _ (by decide) (by decide)
  have habort : ∀ e : Env, e.writers = t :: t' :: ts → e.disk.locked = true →
      LevelsOnly w₁ { w₁ with env := e } →
      LevelsOnly w { w₁ with env := e.abort t.id } := by
    intro e he hl honly
    rw [abort_nested e he hl]
    refine Frame.trans hc.levelsOnly ⟨rfl, rfl, rfl, honly.disk, honly.readonly, honly.readers,
      honly.next, honly.answers⟩
  have hrc₂ : rc ≠ 0 → (if rc = 0 then rc1 else rc) = rc := fun hne => if_neg hne
  have hquiet : tripCode ≠ sqliteOk ∨ w.p.firstCursor = none → (if rc = 0 then rc1 else rc) = rc := by
    intro h
    rw [hrc1 h]
    split_ifs with hrc
    · exact hrc.symm
    · rfl
  generalize (if rc = 0 then rc1 else rc) = rc₂ at hrc₂ hquiet
  rw [ensures_ite]
  by_cases hcommit : commit = true ∧ rc₂ = 0
  · obtain ⟨hcom, hzero⟩ := hcommit
    have hrc : rc = 0 := by
      by_contra hne
      exact hne ((hrc₂ hne).symm.trans hzero)
    have hpop : LevelsOnly w₁ { w₁ with env := w₁.env.pop .txnCommit } :=
      ⟨rfl, rfl, rfl, rfl, rfl, rfl, rfl, fun c _ _ ht => pop_answers_of_ne ht⟩
    have hwpop : (w₁.env.pop .txnCommit).writers = t :: t' :: ts := hw₁
    rw [if_pos ⟨hcom, hzero⟩, ensures_lmdb, hs, documented.txnCommit hw₁, hcodes]
    split_ifs with hcode
    · refine ⟨habort _ hwpop hlocked₁ hpop, hc.p, .aborted ?_ (fun _ => hcode) ?_, ?_, ?_,
        fun _ _ _ => hcode⟩
      · rw [abort_nested _ hwpop hlocked₁]
      · exact fun hf => absurd (hf.symm.trans hcom) (by decide)
      · exact fun hne => absurd hrc hne
      · exact fun hf => absurd (hf.symm.trans hcom) (by decide)
    · rw [commit_nested hwpop]
      refine ⟨?_, hc.p, .committed rfl hcom ⟨hrc, rfl⟩ (not_not.mp hcode) ?_, ?_, ?_,
        fun _ _ hne => absurd rfl hne⟩
      · exact Frame.trans hc.levelsOnly ⟨rfl, rfl, rfl, rfl, rfl, rfl, rfl, hpop.answers⟩
      · rw [← hcodes]
        exact pop_answers_self (e := w₁.env) .txnCommit
      · exact fun hne => absurd hrc hne
      · exact fun _ _ => hrc.symm
  · rw [if_neg hcommit, ensures_bind, ensures_lmdb, hs, documented.txnAbort hw₁, ensures_pure]
    refine ⟨habort _ hw₁ hlocked₁ (Frame.refl w₁), hc.p, .aborted ?_ ?_ ?_, hrc₂, fun _ => hquiet,
      fun hq hzero hne => absurd ((hquiet hq).trans hzero) hne⟩
    · rw [abort_nested _ hw₁ hlocked₁]
    · exact fun hcom hzero => hcommit ⟨hcom, hzero⟩
    · intro _
      rw [abort_nested _ hw₁ hlocked₁]
      exact hcodes

end Level

/-- How many levels are closed on the way down to `nTo`. -/
def closedCount (nTo : ℤ) : List BtreeSavepoint → ℕ
  | s :: s' :: ls => if s.nSavepoint = nTo then 0 else closedCount nTo (s' :: ls) + 1
  | _ => 0

/-- The transactions left when the `k` innermost ones have been committed. -/
def mergeLevels : ℕ → List WriteTxn → List WriteTxn
  | k + 1, t :: t' :: ts => mergeLevels k ({ t' with view := t.view } :: ts)
  | _, ts => ts

theorem closedCount_lt (nTo : ℤ) (ls : List BtreeSavepoint) (hne : ls ≠ []) :
    closedCount nTo ls < ls.length := by
  induction ls with
  | nil => exact absurd rfl hne
  | cons s ls ih =>
    cases ls with
    | nil => simp [closedCount]
    | cons s' ls =>
      have := ih (by simp)
      rw [closedCount, List.length_cons]
      split_ifs <;> omega

/-- Every level but the last is closed when none has the number asked for. -/
theorem closedCount_all {nTo : ℤ} {ls : List BtreeSavepoint}
    (h : ∀ s ∈ ls.dropLast, s.nSavepoint ≠ nTo) : closedCount nTo ls = ls.length - 1 := by
  induction ls with
  | nil => rfl
  | cons s ls ih =>
    cases ls with
    | nil => rfl
    | cons s' ls =>
      rw [closedCount, if_neg (h s (by simp)), ih fun x hx => h x (by simp [hx])]
      simp

theorem mergeLevels_eq {k : ℕ} {t u : WriteTxn} {ts us : List WriteTxn}
    (h : (t :: ts).drop k = u :: us) :
    mergeLevels k (t :: ts) = { u with view := t.view } :: us := by
  induction k generalizing t ts with
  | zero =>
    obtain ⟨rfl, rfl⟩ := List.cons.inj h
    cases ts <;> rfl
  | succ k ih =>
    cases ts with
    | nil => simp at h
    | cons t' ts =>
      rw [mergeLevels]
      cases k with
      | zero =>
        obtain ⟨rfl, rfl⟩ := List.cons.inj h
        cases ts <;> rfl
      | succ k => exact ih (t := { t' with view := t.view }) h

theorem mergeLevels_ids (k : ℕ) (ts : List WriteTxn) (hk : k < ts.length) :
    (mergeLevels k ts).map WriteTxn.id = (ts.drop k).map WriteTxn.id := by
  cases ts with
  | nil => simp at hk
  | cons t ts =>
    have hdrop := List.drop_eq_getElem_cons hk
    rw [mergeLevels_eq hdrop, hdrop]
    rfl

/-- What closing levels does: `k` of them are gone, committed when the result code says so. -/
structure LevelsClosed (k : ℕ) (commit : Bool) (tripCode rc : Rc) (w : World) (rc' : Rc)
    (w' : World) : Prop where
  only : LevelsOnly w w'
  svp : w'.p.svp = w.p.svp.drop k
  aborted : commit = false ∨ rc' ≠ 0 → w'.env.writers = w.env.writers.drop k
  committed : commit = true → rc' = 0 → w'.env.writers = mergeLevels k w.env.writers ∧
    w'.env.answers .txnCommit = (w.env.answers .txnCommit).drop k ∧
    ∀ i < k, (w.env.answers .txnCommit).getD i 0 = 0
  codes : commit = false → w'.env.answers .txnCommit = w.env.answers .txnCommit
  keepsError : rc ≠ 0 → rc' = rc
  noLevel : k = 0 → rc' = rc
  quiet : commit = false → tripCode ≠ sqliteOk ∨ w.p.firstCursor = none → rc' = rc
  cause : tripCode ≠ sqliteOk ∨ w.p.firstCursor = none → rc = 0 → rc' ≠ 0 →
    ∃ i < k, (w.env.answers .txnCommit).getD i 0 ≠ 0

/-- The stack and the nested write transactions belong together. -/
structure Aligned (w : World) : Prop where
  ids : w.p.svp.map BtreeSavepoint.txn = w.env.writers.map WriteTxn.id
  locked : w.env.disk.locked = true

theorem Aligned.writers_ne {w : World} (hal : Aligned w) (hne : w.p.svp ≠ []) : w.env.writers ≠ [] := by
  intro hnone
  have hids := hal.ids
  rw [hnone] at hids
  exact hne (List.map_eq_nil_iff.mp hids)

theorem Aligned.length {w : World} (hal : Aligned w) : w.p.svp.length = w.env.writers.length := by
  have hids := congrArg List.length hal.ids
  rwa [List.length_map, List.length_map] at hids

/-- The innermost level has the innermost transaction. -/
theorem Aligned.top {w : World} (hal : Aligned w) {s : BtreeSavepoint} {rest : List BtreeSavepoint}
    (hsvp : w.p.svp = s :: rest) : ∃ t ts, w.env.writers = t :: ts ∧ s.txn = t.id := by
  have hids := hal.ids
  obtain ⟨t, ts, hwriters⟩ := List.exists_cons_of_ne_nil (hal.writers_ne (by rw [hsvp]; exact List.cons_ne_nil s rest))
  rw [hsvp, hwriters] at hids
  exact ⟨t, ts, hwriters, (List.cons.inj hids).1⟩

theorem Aligned.top_id {w : World} (hal : Aligned w) {s : BtreeSavepoint} {rest : List BtreeSavepoint}
    (hsvp : w.p.svp = s :: rest) {t : WriteTxn} {ts : List WriteTxn} (hwriters : w.env.writers = t :: ts) :
    s.txn = t.id := by
  obtain ⟨t', ts', hwriters', ht⟩ := hal.top hsvp
  rw [hwriters'] at hwriters
  rw [ht, (List.cons.inj hwriters).1]

theorem LevelsClosed.zero (commit : Bool) (tripCode rc : Rc) (w : World) :
    LevelsClosed 0 commit tripCode rc w rc w :=
  ⟨Frame.refl w, rfl, fun _ => rfl, fun _ _ => ⟨by rw [mergeLevels.eq_def], rfl, by simp⟩,
    fun _ => rfl, fun _ => rfl, fun _ => rfl, fun _ _ => rfl, fun _ h h' => absurd h h'⟩

theorem getD_zero (l : List Rc) : l.getD 0 0 = l.headD 0 := by cases l <;> rfl

theorem getD_tail (l : List Rc) (i : ℕ) : l.tail.getD i 0 = l.getD (i + 1) 0 := by cases l <;> rfl

/-- One level first and then `k` more. -/
theorem LevelsClosed.step {k : ℕ} {commit : Bool} {tripCode rc rc₁ rc' : Rc} {w w₁ w' : World}
    {t t' : WriteTxn} {ts : List WriteTxn} (hw : w.env.writers = t :: t' :: ts)
    (honly : LevelsOnly w w₁) (hsvp : w₁.p.svp = w.p.svp.tail)
    (hlevel : LevelClosed commit w t t' ts rc rc₁ w₁) (hkeep : rc ≠ 0 → rc₁ = rc)
    (hquiet : commit = false → tripCode ≠ sqliteOk ∨ w.p.firstCursor = none → rc₁ = rc)
    (hcause : tripCode ≠ sqliteOk ∨ w.p.firstCursor = none → rc = 0 → rc₁ ≠ 0 →
      (w.env.answers .txnCommit).headD 0 ≠ 0)
    (h : LevelsClosed k commit tripCode rc₁ w₁ rc' w') :
    LevelsClosed (k + 1) commit tripCode rc w rc' w' := by
  have hfirst : w₁.p.firstCursor = w.p.firstCursor := by rw [honly.p]
  have hkeep' : rc ≠ 0 → rc' = rc := fun hne => by
    have h₁ := hkeep hne
    rw [h.keepsError (h₁.trans_ne hne), h₁]
  refine ⟨Frame.trans honly h.only, ?_, ?_, ?_, ?_, hkeep', fun hk => by omega, ?_, ?_⟩
  · rw [h.svp, hsvp, List.drop_tail]
  · intro hfail
    have hdrop := h.aborted hfail
    cases hlevel with
    | aborted hwriters _ _ => rw [hdrop, hwriters, hw, List.drop_succ_cons]
    | committed hwriters hcommit hzero _ _ =>
      have hne : rc' ≠ 0 := by
        rcases hfail with hf | hf
        · exact absurd (hf.symm.trans hcommit) (by decide)
        · exact hf
      cases k with
      | zero => exact absurd ((h.noLevel rfl).trans hzero.2) hne
      | succ k => rw [hdrop, hwriters, hw, List.drop_succ_cons, List.drop_succ_cons,
          List.drop_succ_cons]
  · intro hcommit hok
    cases hlevel with
    | aborted _ hrc₁ _ =>
      have hne := hrc₁ hcommit
      exact absurd ((h.keepsError hne).symm.trans hok) hne
    | committed hwriters _ _ hcode hcodes =>
      obtain ⟨hmerge, htail, hzero⟩ := h.committed hcommit hok
      refine ⟨?_, ?_, fun i hi => ?_⟩
      · rw [hmerge, hwriters, hw, mergeLevels]
      · rw [htail, hcodes, List.drop_tail]
      · cases i with
        | zero => exact (getD_zero _).trans hcode
        | succ i =>
          have hi := hzero i (by omega)
          rw [hcodes] at hi
          exact (getD_tail _ i).symm.trans hi
  · intro hcommit
    rw [h.codes hcommit]
    cases hlevel with
    | aborted _ _ hcodes => exact hcodes hcommit
    | committed _ hc _ _ _ => exact absurd (hcommit.symm.trans hc) (by decide)
  · intro hcommit hq
    rw [h.quiet hcommit (by rw [hfirst]; exact hq), hquiet hcommit hq]
  · intro hq hzero hne
    by_cases hrc₁ : rc₁ = 0
    · obtain ⟨i, hi, hcode⟩ := h.cause (by rw [hfirst]; exact hq) hrc₁ hne
      cases hlevel with
      | aborted _ hcom hcodes =>
        cases commit with
        | false =>
          rw [h.quiet rfl (by rw [hfirst]; exact hq)] at hne
          exact absurd hrc₁ hne
        | true => exact absurd hrc₁ (hcom rfl)
      | committed _ _ _ _ hcodes =>
        refine ⟨i + 1, by omega, ?_⟩
        rw [hcodes, getD_tail] at hcode
        exact hcode
    · exact ⟨0, by omega, by rw [getD_zero]; exact hcause hq hzero hrc₁⟩

theorem closeLoop_spec (nTo : ℤ) (commit : Bool) (tripCode : Rc) {E : Halt → Prop}
    (levels : List BtreeSavepoint) (rc : Rc) {w : World} (hE : Lenient E w) (hal : Aligned w)
    (hsvp : w.p.svp = levels) :
    Ensures E (closeLoop nTo commit tripCode levels rc) (fun rc' w' =>
      LevelsClosed (closedCount nTo levels) commit tripCode rc w rc' w') w := by
  induction levels generalizing w rc with
  | nil => exact .zero commit tripCode rc w
  | cons s levels ih =>
    cases levels with
    | nil => exact .zero commit tripCode rc w
    | cons s' levels =>
      rw [closeLoop, closedCount, ensures_ite]
      split_ifs with hn
      · exact .zero commit tripCode rc w
      · have hids := hal.ids
        rw [hsvp] at hids
        obtain ⟨t, t', ts, hw⟩ : ∃ t t' ts, w.env.writers = t :: t' :: ts := by
          match hwr : w.env.writers with
          | [] => simp [hwr] at hids
          | [t] => simp [hwr] at hids
          | t :: t' :: ts => exact ⟨t, t', ts, rfl⟩
        rw [hw] at hids
        simp only [List.map_cons, List.cons.injEq] at hids
        obtain ⟨hs, hs', hrest⟩ := hids
        rw [ensures_bind, ensures_setP, ensures_bind]
        have hE' : Lenient E { w with p := { w.p with svp := s' :: levels } } := hE.of_eq rfl
        refine (closeLevel_spec hE' hw hal.locked hs commit tripCode rc).imp fun rc₁ w₁ h => ?_
        obtain ⟨honly, hp, hlevel, hkeep, hquiet, hcause⟩ := h
        have hsvp₁ : w₁.p.svp = s' :: levels := by rw [hp]
        have honly' : LevelsOnly w w₁ :=
          ⟨honly.build, honly.p, honly.nCurs, honly.disk, honly.readonly, honly.readers, honly.next,
            honly.answers⟩
        have hal' : Aligned w₁ := by
          refine ⟨?_, by rw [honly.disk]; exact hal.locked⟩
          rw [hsvp₁]
          cases hlevel with
          | aborted hwriters _ _ => simp [hwriters, hs', hrest]
          | committed hwriters _ _ _ _ => simp [hwriters, hs', hrest]
        have hE₁ : Lenient E w₁ := hE.of_eq (by rw [hp])
        refine (ih rc₁ hE₁ hal' hsvp₁).imp fun rc' w' h => ?_
        refine .step hw honly' (by rw [hsvp₁, hsvp, List.tail_cons]) ?_ hkeep hquiet hcause h
        cases hlevel with
        | aborted a b c => exact .aborted a b c
        | committed a b c d e => exact .committed a b c d e

theorem closeAllSavepoints_spec (nTo : ℤ) (commit : Bool) (tripCode : Rc) {E : Halt → Prop}
    {w : World} (hE : Lenient E w) (hal : Aligned w) :
    Ensures E (closeAllSavepoints nTo commit tripCode) (fun rc w' =>
      LevelsClosed (closedCount nTo w.p.svp) commit tripCode 0 w rc w') w := by
  rw [closeAllSavepoints, ensures_bind, ensures_getP]
  exact closeLoop_spec nTo commit tripCode _ 0 hE hal rfl

/-- The levels and the transactions still belong together. -/
theorem LevelsClosed.aligned {k : ℕ} {commit : Bool} {tripCode rc rc' : Rc} {w w' : World}
    (h : LevelsClosed k commit tripCode rc w rc' w') (hal : Aligned w)
    (hk : k < w.p.svp.length) : Aligned w' := by
  have hlen : k < w.env.writers.length := hk.trans_eq hal.length
  have hids : (w.p.svp.drop k).map BtreeSavepoint.txn = (w.env.writers.drop k).map WriteTxn.id := by
    rw [List.map_drop, List.map_drop, hal.ids]
  refine ⟨?_, by rw [h.only.disk]; exact hal.locked⟩
  rw [h.svp, hids]
  by_cases hcom : commit = true ∧ rc' = 0
  · rw [(h.committed hcom.1 hcom.2).1, mergeLevels_ids k _ hlen]
  · have hfail : commit = false ∨ rc' ≠ 0 := by
      cases commit with
      | false => exact .inl rfl
      | true => exact .inr fun h0 => hcom ⟨rfl, h0⟩
    rw [h.aborted hfail]

end LumoSql.Btree
