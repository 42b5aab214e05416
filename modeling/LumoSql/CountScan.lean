import LumoSql.SoundCursors

/-! The number of entries: `sqlite3BtreeCount` asks the transaction that a cursor was opened in, a scan moves the
LMDB cursor the cursor has now. -/
namespace LumoSql.Btree
open StateLogic Lmdb RowidEncoding

section Scanning

variable {E : Halt → Prop} {w w' : World} {i h : ℕ} {c : MdbCursor} {es : Entries}

/-- A cursor that moves in the entries `es`, when no call of LMDB fails. -/
structure Scanning (w : World) (i h : ℕ) (c : MdbCursor) (es : Entries) : Prop where
  reads : Reads w i h c es
  untripped : (w.curs i).tripCode = sqliteOk
  unsaved : (w.curs i).savedKey = none
  calm : w.env.Calm

/-- What a move does with a cursor that has been restored. -/
def moveRestored (i : ℕ) (op : CursorOp) : Call (Rc × Option ℤ) := do
  let c ← getCur i
  let g ← lmdb (mdbCursorGet c.cursor op)
  if g.1 = 0 then do
    setCur i fun c => { c with atEof := false }
    pure (sqliteOk, some 0)
  else if g.1 ≠ mdbNotfound then pure (errorMap g.1, none)
  else do
    setCur i fun c => { c with atEof := true }
    pure (sqliteOk, some 1)

theorem cursorMove_eq (i : ℕ) (op : CursorOp) (reposition : Bool) : cursorMove i op reposition = (do
    let rc ← restoreCursor i reposition
    if rc ≠ sqliteOk then pure (rc, none) else moveRestored i op) := rfl

theorem Scanning.ensures_moveRestored (hc : Scanning w i h c es) {op : CursorOp} {pos : Position} {rc : Rc}
    {kv : Bytes × Bytes} (hmove : op.move es c.pos = (pos, rc, kv)) (hrc : rc = 0 ∨ rc = mdbNotfound) :
    Ensures E (moveRestored i op) (fun r w' => r = (sqliteOk, some (if rc = 0 then 0 else 1)) ∧
      Scanning w' i h { c with pos := pos } es ∧ (w'.curs i).atEof = decide (rc ≠ 0)) w := by
  have hmoved : Scanning (w.moveCursor h c pos) i h { c with pos := pos } es := by
    refine ⟨hc.reads.move pos, hc.untripped, hc.unsaved, ?_⟩
    rw [World.moveCursor, hc.calm.pop]
    exact hc.calm
  have hset : ∀ b : Bool, Scanning { w.moveCursor h c pos with curs := Function.update w.curs i { w.curs i with atEof := b } }
      i h { c with pos := pos } es := fun b => by
    refine ⟨hmoved.reads.setCur (f := fun d => { d with atEof := b }) i fun _ => rfl, ?_, ?_, hmoved.calm⟩
    · simpa using hc.untripped
    · simpa using hc.unsaved
  rw [moveRestored, ensures_bind, ensures_getCur, ensures_bind, hc.reads.handle, hc.reads.ensures_get, hc.calm.head,
    if_neg (not_not.mpr rfl), hmove]
  rcases hrc with rfl | rfl
  · exact ⟨rfl, hset false, by simp⟩
  · dsimp only
    rw [if_neg (by decide), if_neg (by decide)]
    exact ⟨rfl, hset true, by simp [mdbNotfound]⟩

theorem Scanning.cursorMove (hc : Scanning w i h c es) {op : CursorOp} {pos : Position} {rc : Rc} {kv : Bytes × Bytes}
    (hmove : op.move es c.pos = (pos, rc, kv)) (hrc : rc = 0 ∨ rc = mdbNotfound) (reposition : Bool) :
    Ensures E (cursorMove i op reposition) (fun r w' => r = (sqliteOk, some (if rc = 0 then 0 else 1)) ∧
      Scanning w' i h { c with pos := pos } es ∧ (w'.curs i).atEof = decide (rc ≠ 0)) w := by
  rw [cursorMove_eq, ensures_bind, restoreCursor, ensures_bind, ensures_getCur, if_neg (not_not.mpr hc.untripped),
    hc.unsaved]
  exact hc.ensures_moveRestored hmove hrc

theorem Scanning.next (hc : Scanning w i h c es) {k : ℕ} (hpos : c.pos = ⟨true, false, false, k⟩) :
    Ensures E (sqlite3BtreeNext i) (fun rc w' => if k + 1 < es.length
      then rc = sqliteOk ∧ Scanning w' i h { c with pos := ⟨true, false, false, k + 1⟩ } es
      else rc = sqliteDone) w := by
  rw [sqlite3BtreeNext, cursorStep, ensures_bind]
  by_cases hlt : k + 1 < es.length
  · have hmove : CursorOp.next.move es c.pos = (⟨true, false, false, k + 1⟩, 0, es[k + 1]) := by
      rw [CursorOp.move, moveNext, hpos]
      simp [Nat.not_le.mpr hlt, land, List.getElem?_eq_getElem hlt]
    refine (hc.cursorMove hmove (.inl rfl) true).imp fun r w' hr => ?_
    obtain ⟨rfl, hscanning, heof⟩ := hr
    rw [if_neg (not_not.mpr rfl), ensures_bind, ensures_getCur, heof, ensures_pure, if_pos hlt]
    exact ⟨rfl, hscanning⟩
  · have hmove : CursorOp.next.move es c.pos = (⟨true, true, false, k⟩, mdbNotfound, [], []) := by
      rw [CursorOp.move, moveNext, hpos]
      simp [Nat.not_lt.mp hlt]
    refine (hc.cursorMove hmove (.inr rfl) true).imp fun r w' hr => ?_
    obtain ⟨rfl, -, heof⟩ := hr
    rw [if_neg (not_not.mpr rfl), ensures_bind, ensures_getCur, heof, ensures_pure, if_neg hlt]
    rfl

/-- What a scan needs before it begins. -/
structure Scannable (w : World) (i : ℕ) (es : Entries) : Prop where
  untripped : (w.curs i).tripCode = sqliteOk
  root : 1 ≤ (w.curs i).rootPage
  calm : w.env.Calm
  sees : Sees w i es
  present : ∀ s rest v, w.p.svp = s :: rest → w.env.view s.txn = some v → v (.table (w.curs i).rootPage) ≠ none
  begun : w.p.svp ≠ []

/-- A saved cursor is restored without going back to its position. -/
theorem Scannable.restore (hs : Scannable w i es) :
    Ensures E (restoreCursor i false) (fun rc w' => rc = sqliteOk ∧ w'.fixedRowid = w.fixedRowid ∧
      (w'.curs i).keyInfo = (w.curs i).keyInfo ∧ ∃ h c, Scanning w' i h c es) w := by
  rw [restoreCursor, ensures_bind, ensures_getCur, if_neg (not_not.mpr hs.untripped)]
  rcases hs.sees with ⟨hsaved, h, c, hreads⟩ | ⟨hsaved, hopen⟩
  · rw [hsaved]
    exact ⟨rfl, rfl, rfl, h, c, hreads, hs.untripped, hsaved, hs.calm⟩
  · obtain ⟨key, hkey⟩ := Option.isSome_iff_exists.mp hsaved
    rw [hkey]
    dsimp only
    have hreopen : ∀ w₁ : World, w₁.p = w.p → w₁.env.writers = w.env.writers → w₁.env.readers = w.env.readers →
        w₁.env.Calm → w₁.fixedRowid = w.fixedRowid → (w₁.curs i).tripCode = sqliteOk →
        (w₁.curs i).keyInfo = (w.curs i).keyInfo → Ensures E (if !(w.curs i).pBtree then Prog.halt .nullPointer
          else reopenCursor i (w.curs i) key false) (fun rc w' => rc = sqliteOk ∧ w'.fixedRowid = w.fixedRowid ∧
            (w'.curs i).keyInfo = (w.curs i).keyInfo ∧ ∃ h c, Scanning w' i h c es) w₁ := by
      intro w₁ hp hwriters hreaders hcalm hbuild htrip hinfo
      have hvisible : Visible w₁ (w.curs i).rootPage es := by
        refine ⟨by rw [hp]; exact hs.begun, fun s rest hsvp => ?_⟩
        rw [kind_congr hwriters hreaders, view_congr hwriters hreaders]
        exact hopen.top s rest (hp ▸ hsvp)
      refine .ite (fun hnull => absurd hopen.opened (by simpa using hnull)) fun _ => ?_
      refine reopenCursor_calm hcalm hs.root hvisible false (fun s rest v hsvp hview hnone => ?_) fun h w' hre hcalm' => ?_
      · rw [view_congr hwriters hreaders] at hview
        exact absurd hnone (hs.present s rest v (hp ▸ hsvp) hview)
      · obtain ⟨t, ht⟩ := hre.reads
        rw [if_neg Bool.false_ne_true, ensures_pure, if_neg (not_not.mpr rfl)]
        refine ⟨rfl, hre.build.trans hbuild, ?_, h, _, ht.setCur (f := fun d => { d with savedKey := none }) i fun _ => rfl,
          ?_, ?_, hcalm'⟩
        · simpa [World.forget, hre.cur] using hinfo
        · simpa [World.forget, hre.cur] using htrip
        · simp [World.forget]
    refine .ite (fun hsome => ?_) fun _ => ?_
    · obtain ⟨h, hh⟩ := Option.isSome_iff_exists.mp hsome
      obtain ⟨c, hc⟩ := Option.isSome_iff_exists.mp (hopen.live h hh)
      rw [ensures_bind, ensures_lmdb, hh, documented.cursorClose hc, ensures_bind, ensures_setCur]
      exact hreopen _ rfl rfl rfl hs.calm rfl (by simpa using hs.untripped) (by simp)
    · rw [ensures_bind, ensures_setCur]
      exact hreopen _ rfl rfl rfl hs.calm rfl (by simpa using hs.untripped) (by simp)

end Scanning

section Counting

variable {w : World} {l : Ledger} {i : ℕ}

/-- A cursor that has been opened in the transaction on top moves in what it sees. -/
theorem Steady.sees (h : Steady w l) (hi : i ∈ l.opened) (htrip : (w.curs i).tripCode = sqliteOk) {s : BtreeSavepoint}
    {rest : List BtreeSavepoint} {v : Contents} {es : Entries} (hsvp : w.p.svp = s :: rest)
    (ht : (w.curs i).txn = some s.txn) (hview : w.env.view s.txn = some v)
    (hes : v (.table (w.curs i).rootPage) = some es) : Sees w i es := by
  have hs := h.sound i hi
  have hlive := view_live hview
  have hpresent : ∀ n, (w.curs i).cursor = some n → ∃ u, w.env.Pinned n u (.table (w.curs i).rootPage) ∧ w.env.Live u := by
    intro n hn
    obtain ⟨n', u, hn', hp, hu⟩ := hs.live ⟨htrip, by rw [hn]; rfl⟩ s.txn ht hlive
    obtain rfl := Option.some.inj (hn.symm.trans hn')
    exact ⟨u, hp, hu⟩
  cases hsaved : (w.curs i).savedKey with
  | none =>
    obtain ⟨n, hn⟩ : ∃ n, (w.curs i).cursor = some n :=
      Option.ne_none_iff_exists'.mp fun hnone => hs.stored htrip hnone hsaved
    obtain ⟨u, hp, hu⟩ := hpresent n hn
    obtain ⟨c, hc⟩ := Option.ne_none_iff_exists'.mp hp.present
    obtain ⟨htxn, hdb⟩ := hp.same.cursors n c hc rfl
    obtain ⟨s', rest', hsvp', hcurrent⟩ := h.current hlive
    obtain ⟨rfl, rfl⟩ := List.cons.inj (hsvp.symm.trans hsvp')
    refine .inl ⟨hsaved, n, c, hn, hc, v, ?_, ?_⟩
    · rw [hcurrent.cursorView (htxn ▸ hu), hview]
    · rw [hdb, hes]
      rfl
  | some key =>
    refine .inr ⟨by rw [hsaved]; rfl, h.session.list.owned i (.inl ((h.session.list.listed i).mp hi)), fun n hn => ?_, ?_⟩
    · obtain ⟨u, hp, -⟩ := hpresent n hn
      exact Option.isSome_iff_ne_none.mpr hp.present
    · intro s' rest' hsvp'
      obtain ⟨rfl, rfl⟩ := List.cons.inj (hsvp.symm.trans hsvp')
      obtain ⟨k, hkind⟩ := Option.ne_none_iff_exists'.mp hlive
      exact ⟨k, v, hkind, hview, by rw [hes]; rfl⟩

end Counting

end LumoSql.Btree
