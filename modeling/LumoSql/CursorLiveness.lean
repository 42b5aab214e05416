import LumoSql.CursorHandles
import LumoSql.CursorMemory

/-! The LMDB cursors that a handle still uses: whatever is called, they are there as long as their
transactions are. -/
namespace LumoSql.Btree
open StateLogic Lmdb

/-- A cursor that can be used has an LMDB cursor or a saved position. -/
def BtCursor.Stored (c : BtCursor) : Prop := c.tripCode = sqliteOk → c.cursor = none → c.savedKey ≠ none

/-- A cursor that goes on: it gets no other LMDB cursor. -/
structure Continues (c d : BtCursor) : Prop where
  opening : SameOpening c d
  stored : c.Stored → d.Stored
  due : d.Due → c.Due ∧ d.cursor = c.cursor

/-- The LMDB cursors of the cursors `kept` last as long as they are used and their transactions go on; what has
ended has ended. -/
structure Lasting (kept : ℕ → Prop) (w w' : World) : Prop where
  handles : Handles w'
  next : w.env.next ≤ w'.env.next
  ended : ∀ t < w.env.next, w'.env.Live t → w.env.Live t
  continues : ∀ i, kept i → Continues (w.curs i) (w'.curs i)
  pinned : ∀ i h t db, kept i → (w'.curs i).Due → (w'.curs i).cursor = some h → w.env.Pinned h t db → w'.env.Live t →
    w'.env.Pinned h t db

def LastingFrame (kept : ℕ → Prop) (w w' : World) : Prop := Handles w → Lasting kept w w'

section Frames

variable {kept : ℕ → Prop} {w w' w₁ : World} {i : ℕ}

theorem Continues.refl (c : BtCursor) : Continues c c := ⟨.refl c, id, fun h => ⟨h, rfl⟩⟩

theorem Continues.trans {c d e : BtCursor} (h : Continues c d) (h' : Continues d e) : Continues c e := by
  refine ⟨h.opening.trans h'.opening, fun hc => h'.stored (h.stored hc), fun hdue => ?_⟩
  obtain ⟨hdue₁, hsame₁⟩ := h'.due hdue
  obtain ⟨hdue₀, hsame₀⟩ := h.due hdue₁
  exact ⟨hdue₀, hsame₁.trans hsame₀⟩

theorem Lasting.refl (kept : ℕ → Prop) (hw : Handles w) : Lasting kept w w :=
  ⟨hw, Nat.le_refl _, fun _ _ h => h, fun _ _ => .refl _, fun _ _ _ _ _ _ _ h _ => h⟩

theorem Lasting.trans (hw : Handles w) (h : Lasting kept w w₁) (h' : Lasting kept w₁ w') : Lasting kept w w' := by
  refine ⟨h'.handles, h.next.trans h'.next, fun t ht hlive => ?_,
    fun i hi => (h.continues i hi).trans (h'.continues i hi), fun i n t db hi hdue hn hp hlive => ?_⟩
  · exact h.ended t ht (h'.ended t (ht.trans_le h.next) hlive)
  · obtain ⟨hdue₁, hsame⟩ := (h'.continues i hi).due hdue
    have hbelow := (hp.below hw.issued).2.trans_le h.next
    exact h'.pinned i n t db hi hdue hn (h.pinned i n t db hi hdue₁ (hsame ▸ hn) hp (h'.ended t hbelow hlive)) hlive

instance : Frame (LastingFrame kept) where
  refl _ := .refl kept
  trans h h' hw := (h hw).trans hw (h' (h hw).handles)

/-- A call of LMDB that closes no cursor that is kept. -/
theorem Lasting.env (hw : Handles w) {closes : ℕ → Prop} {reads : Prop} {e : Env} (hstep : w.env.Step closes reads e)
    (hspared : ∀ j h, kept j → (w.curs j).cursor = some h → ¬ closes h) : Lasting kept w { w with env := e } :=
  ⟨hw.env hstep, (hstep.issued hw.issued).2, fun _ ht hlive => hstep.live ht hlive, fun _ _ => .refl _,
    fun j h _ _ hj _ hcur hp hlive => hstep.pinned hw.issued hw.disjoint hp (hspared j h hj hcur) hlive⟩

/-- A cursor that is set has no new LMDB cursor. -/
theorem Lasting.setCur (hw : Handles w) {d : BtCursor} (hd : d.cursor = (w.curs i).cursor ∨ d.cursor = none)
    (hkept : kept i → Continues (w.curs i) d) : Lasting kept w { w with curs := Function.update w.curs i d } := by
  refine ⟨hw.setCur hd, Nat.le_refl _, fun _ _ h => h, fun j hj => ?_, fun _ _ _ _ _ _ _ hp _ => hp⟩
  by_cases hji : j = i
  · subst hji
    simpa using hkept hj
  · simp only [Function.update_of_ne hji]
    exact .refl _

theorem lasting_lmdb {reads : Prop} {α : Type} {m : Mdb α} (h : Steps (fun _ => False) reads m) :
    Keeps (LastingFrame kept) (lmdb m) := by
  intro w
  rw [ensures_lmdb]
  exact (h w.env).imp fun _ _ hstep hw => .env hw hstep fun _ _ _ _ => id

theorem lasting_setP (f : Btree → Btree) : Keeps (LastingFrame kept) (setP f) :=
  .modify fun _ hw => ⟨⟨hw.issued, hw.disjoint, hw.below, hw.apart⟩, Nat.le_refl _, fun _ _ h => h, fun _ _ => .refl _,
    fun _ _ _ _ _ _ _ h _ => h⟩

theorem lasting_setCur (i : ℕ) {f : BtCursor → BtCursor} (hf : ∀ c, (f c).cursor = c.cursor ∨ (f c).cursor = none)
    (hkept : kept i → ∀ c, Continues c (f c)) : Keeps (LastingFrame kept) (setCur i f) :=
  .modify fun w hw => .setCur hw (hf (w.curs i)) fun hi => hkept hi (w.curs i)

/-- Nobody else has the LMDB cursor of cursor `i`. -/
theorem Handles.closed (hw : Handles w) (hi : ¬ kept i) {o : Option ℕ} (ho : o = (w.curs i).cursor) :
    Ensures (fun _ => True) (lmdb (mdbCursorClose o)) (fun _ w' => Lasting kept w w') w := by
  have hstep : Steps (fun h => o = some h) False (mdbCursorClose o) := steps_cursorClose fun _ h => h
  rw [ensures_lmdb]
  refine (hstep w.env).imp fun _ e he => .env hw he fun j h hj hcur hclosed => ?_
  exact hi (hw.apart i j h (ho ▸ hclosed) hcur ▸ hj)

/-- The cursor itself and all others. -/
theorem Lasting.of_others (h : Lasting (fun j => kept j ∧ j ≠ i) w w')
    (hi : kept i → Continues (w.curs i) (w'.curs i) ∧ ¬ (w'.curs i).Due) : Lasting kept w w' := by
  refine ⟨h.handles, h.next, h.ended, fun j hj => ?_, fun j n t db hj hdue hn hp hlive => ?_⟩
  · by_cases hji : j = i
    · rw [hji]
      exact (hi (hji ▸ hj)).1
    · exact h.continues j ⟨hj, hji⟩
  · have hji : j ≠ i := by
      rintro rfl
      exact (hi hj).2 hdue
    exact h.pinned j n t db ⟨hj, hji⟩ hdue hn hp hlive

end Frames

section Parts

variable {kept : ℕ → Prop} {w w' : World} {i : ℕ}

/-- Saving the position of a cursor closes its own LMDB cursor only. -/
theorem SavedOne.lasting {n : ℕ} {rc rc' : Rc} (h : SavedOne i n rc w rc' w') (hhandle : (w.curs i).cursor = some n)
    (hopening : SameOpening (w.curs i) (w'.curs i)) (hw : Handles w) (hw' : Handles w') : Lasting kept w w' := by
  have hkind : ∀ t, w'.env.Live t ↔ w.env.Live t := fun t => by
    rw [Env.Live, Env.Live, kind_congr h.only.env.writers h.only.env.readers]
  refine .of_others (i := i) ⟨hw', h.only.env.next.ge, fun t _ hlive => (hkind t).mp hlive, fun j hj => ?_,
    fun j m t db hj hd hm hp hlive => ?_⟩ fun _ => ?_
  · rw [h.others j hj.2]
    exact .refl _
  · rw [h.others j hj.2] at hm
    have hne : m ≠ n := by
      rintro rfl
      exact hj.2 (hw.apart j i m hm hhandle)
    refine ⟨by rw [h.handles m hne]; exact hp.present, fun h' c hc heq => ?_, ?_⟩
    · subst heq
      rw [h.handles h' hne] at hc
      exact hp.same.cursors h' c hc rfl
    · rw [h.only.env.writers]
      exact hp.same.shadows
  · have hrest : ¬ (w'.curs i).Due ∧ (w'.curs i).Stored := by
      rcases h.outcome with ⟨-, key, -, hsaved⟩ | ⟨htrip, -, -⟩
      · rw [hsaved]
        exact ⟨BtCursor.saved_not_due, fun _ _ => Option.some_ne_none key⟩
      · exact ⟨fun hd => htrip hd.1, fun hok => absurd hok htrip⟩
    exact ⟨⟨hopening, fun _ => hrest.2, fun hdue => absurd hdue hrest.1⟩, hrest.1⟩

theorem BtCursor.tripped_continues (c : BtCursor) {tripCode : Rc} (htrip : tripCode ≠ sqliteOk) (writeOnly : Bool) :
    Continues c (c.tripped tripCode writeOnly) := by
  rw [tripped]
  split_ifs
  · exact ⟨⟨rfl, rfl, rfl⟩, fun _ hok => absurd hok htrip, fun hdue => absurd hdue.1 htrip⟩
  · exact .refl c

theorem lasting_invalidateCursor (tripCode : Rc) (writeOnly : Bool) (i : ℕ) (rc : Rc) :
    Keeps (LastingFrame kept) (invalidateCursor tripCode writeOnly i rc) := by
  intro w
  by_cases htrip : tripCode = sqliteOk
  · subst htrip
    by_cases hdue : (w.curs i).Due
    · by_cases halive : Alive w i
      · obtain ⟨n, c, es, hc⟩ := halive
        have hhandles : Keeps HandlesKept (invalidateCursor sqliteOk writeOnly i rc) :=
          (built_invalidateCursor sqliteOk writeOnly i rc).keeps InvalidationPart.handles
        have hopening : Keeps (OpeningKept i) (invalidateCursor sqliteOk writeOnly i rc) :=
          (built_invalidateCursor sqliteOk writeOnly i rc).keeps InvalidationPart.opening
        refine (((invalidateCursor_saves hdue hc writeOnly rc).keep hhandles).keep hopening).imp fun _ w' hres hw => ?_
        obtain ⟨⟨hsaved, hhandles⟩, hopening⟩ := hres
        exact hsaved.lasting hc.handle hopening hw (hhandles.handles hw)
      · exact invalidateCursor_dead (fun _ => trivial) hdue halive writeOnly rc _
    · apply (invalidateCursor_skips hdue sqliteOk writeOnly rc).imp
      rintro _ _ ⟨-, rfl⟩
      exact Frame.refl _
  · apply (invalidateCursor_trips htrip i rc).imp
    rintro _ _ ⟨-, rfl⟩ hw
    have hcurs : w.tripped [i] tripCode writeOnly =
        { w with curs := Function.update w.curs i ((w.curs i).tripped tripCode writeOnly) } := by
      unfold World.tripped
      congr 1
      funext j
      by_cases hj : j = i
      · subst hj
        simp
      · simp [hj]
    rw [hcurs]
    refine .setCur hw (.inl ?_) fun _ => BtCursor.tripped_continues _ htrip writeOnly
    rw [BtCursor.tripped]
    split_ifs <;> rfl

/-- What the calls on transactions are made of. -/
theorem TxnPart.lasting {reads : Prop} {α : Type} {m : Call α} (h : TxnPart reads α m) : Keeps (LastingFrame kept) m := by
  cases h with
  | lmdb h => exact lasting_lmdb (h.steps : Steps (fun _ => False) reads _)
  | setP f hf => exact lasting_setP f
  | invalidateCursor tripCode writeOnly i rc => exact lasting_invalidateCursor tripCode writeOnly i rc

/-- Another cursor is set. -/
theorem Lasting.setOther {w₁ : World} (h : Lasting kept w w₁) (hi : ¬ kept i) {d : BtCursor}
    (hd : Handles { w₁ with curs := Function.update w₁.curs i d }) :
    Lasting kept w { w₁ with curs := Function.update w₁.curs i d } := by
  have hcur : ∀ j, kept j → Function.update w₁.curs i d j = w₁.curs j := by
    intro j hj
    refine Function.update_of_ne ?_ _ _
    rintro rfl
    exact hi hj
  refine ⟨hd, h.next, h.ended, fun j hj => ?_, fun j n t db hj hdue hn hp hlive => ?_⟩
  · dsimp only
    rw [hcur j hj]
    exact h.continues j hj
  · dsimp only at hdue hn
    rw [hcur j hj] at hdue hn
    exact h.pinned j n t db hj hdue hn hp hlive

theorem others_openInto (hi : ¬ kept i) (t iTable : ℕ) (f : BtCursor → BtCursor) :
    Keeps (LastingFrame kept) (openInto i t iTable f) := by
  intro w
  have hopen : Keeps (LastingFrame kept) (lmdb (mdbCursorOpen t (.table iTable))) :=
    lasting_lmdb (steps_cursorOpen t iTable : Steps (fun _ => False) False _)
  have hlasting : Ensures (fun _ => True) (openInto i t iTable f)
      (fun _ w' => Handles w → Handles w' → Lasting kept w w') w := by
    rw [openInto, ensures_bind]
    refine (hopen w).imp fun r w₁ h₁ => .ite (fun _ hw _ => h₁ hw) fun _ => ?_
    rw [ensures_bind, ensures_setCur, ensures_pure]
    exact fun hw hw' => (h₁ hw).setOther hi hw'
  exact (hlasting.and (handles_openInto i t iTable f w)).imp fun _ w' h hw => h.1 hw (h.2.handles hw)

/-- What a cursor is opened again with, for the other cursors. -/
theorem ReopenPart.lasting (hi : ¬ kept i) {α : Type} {m : Call α} (h : ReopenPart True i α m) :
    Keeps (LastingFrame kept) m := by
  cases h with
  | lmdb h => exact lasting_lmdb (h.steps : Steps (fun _ => False) False _)
  | setCur f hf => exact lasting_setCur i (fun c => (hf c).cursor) fun h => absurd h hi
  | openInto t iTable f hf => exact others_openInto hi t iTable f

/-- The cursor is closed and opened again; the others go on. -/
theorem others_restoreCursor (hi : ¬ kept i) (reposition : Bool) :
    Keeps (LastingFrame kept) (restoreCursor i reposition) := by
  intro w
  rw [restoreCursor, ensures_bind, ensures_getCur]
  generalize hc : w.curs i = c
  refine .ite (fun _ => .refl kept) fun _ => ?_
  cases c.savedKey with
  | none => exact .refl kept
  | some savedKey =>
    have hrest : Keeps (LastingFrame kept) (do
        setCur i fun c => { c with cursor := none }
        if !c.pBtree then Prog.halt .nullPointer else reopenCursor i c savedKey reposition) := by
      refine Keeps.bind (lasting_setCur i (fun _ => .inr rfl) fun h => absurd h hi) fun _ => .ite (.halt _) ?_
      exact (built_reopenCursor i c savedKey reposition).keeps (ReopenPart.lasting hi)
    refine .ite (fun _ => ?_) fun _ => hrest w
    rw [ensures_bind]
    by_cases hw : Handles w
    · exact (hw.closed hi (congrArg BtCursor.cursor hc.symm)).imp fun _ w₁ h₁ =>
        (hrest w₁).imp fun _ _ h => Frame.trans (R := LastingFrame kept) (fun _ => h₁) h
    · rw [ensures_lmdb, ensures_iff]
      exact ⟨fun _ _ _ => (hrest _).imp fun _ _ _ h => absurd h hw, fun _ _ => trivial⟩

end Parts

section Renewals

/-- The fields of the handle stay. -/
def HandleKept (w w' : World) : Prop := w'.p = w.p

instance : Frame HandleKept where
  refl _ := rfl
  trans h h' := Eq.trans h' h

theorem handleKept_lmdb {α : Type} (m : Mdb α) : Keeps HandleKept (lmdb m) := by
  intro w
  rw [ensures_lmdb, ensures_iff]
  exact ⟨fun _ _ _ => rfl, fun _ _ => trivial⟩

theorem MovePart.handleKept {α : Type} {m : Call α} (h : MovePart True α m) : Keeps HandleKept m := by
  cases h with
  | lmdb h => exact handleKept_lmdb _
  | setCur i f hf => exact .modify fun _ => rfl
  | openInto i t iTable f hf =>
    exact Keeps.bind (handleKept_lmdb _) fun r => .ite (.pure _) (Keeps.bind (.modify fun _ => rfl) fun _ => .pure _)

/-- What the calls on tables make of cursor `i`: it may be opened again in the transaction on top. -/
structure Renewed (i : ℕ) (w w' : World) : Prop where
  handles : Handles w'
  next : w.env.next ≤ w'.env.next
  ended : ∀ t < w.env.next, w'.env.Live t → w.env.Live t
  handle : w'.p = w.p
  txn : (w'.curs i).txn = (w.curs i).txn
  root : (w'.curs i).rootPage = (w.curs i).rootPage
  dbi : (w.curs i).dbi = .table (w.curs i).rootPage → (w'.curs i).dbi = .table (w'.curs i).rootPage
  stored : (w.curs i).Stored → (w'.curs i).Stored
  due : (w'.curs i).Due → ∀ h, (w'.curs i).cursor = some h →
    ((w.curs i).Due ∧ (w.curs i).cursor = some h ∧
      ∀ t db, w.env.Pinned h t db → w'.env.Live t → w'.env.Pinned h t db) ∨
    ∃ s rest, w.p.svp = s :: rest ∧ s.txn < w'.env.next ∧
      (w'.env.Live s.txn → w'.env.Pinned h s.txn (.table (w'.curs i).rootPage))

def RenewedFrame (i : ℕ) (w w' : World) : Prop := Handles w → Renewed i w w'

variable {kept : ℕ → Prop} {w w' w₁ : World} {i j : ℕ}

theorem Lasting.renewed (h : Lasting kept w w') (hi : kept i) (hp : w'.p = w.p) : Renewed i w w' := by
  have hcont := h.continues i hi
  refine ⟨h.handles, h.next, h.ended, hp, hcont.opening.txn, hcont.opening.root, fun hdbi => ?_, hcont.stored,
    fun hdue n hn => .inl ?_⟩
  · rw [hcont.opening.dbi, hcont.opening.root, hdbi]
  · obtain ⟨hdue₀, hsame⟩ := hcont.due hdue
    exact ⟨hdue₀, hsame ▸ hn, fun t db => h.pinned i n t db hi hdue hn⟩

theorem Renewed.trans (hw : Handles w) (h : Renewed i w w₁) (h' : Renewed i w₁ w') : Renewed i w w' := by
  refine ⟨h'.handles, h.next.trans h'.next, fun t ht hlive => h.ended t ht (h'.ended t (ht.trans_le h.next) hlive),
    h'.handle.trans h.handle, h'.txn.trans h.txn, h'.root.trans h.root, fun hdbi => h'.dbi (h.dbi hdbi),
    fun hs => h'.stored (h.stored hs), fun hdue n hn => ?_⟩
  rcases h'.due hdue n hn with ⟨hdue₁, hn₁, hpin'⟩ | ⟨s, rest, hsvp, hlt, hpin'⟩
  · rcases h.due hdue₁ n hn₁ with ⟨hdue₀, hn₀, hpin⟩ | ⟨s, rest, hsvp, hlt, hpin⟩
    · refine .inl ⟨hdue₀, hn₀, fun t db hp hlive => hpin' t db (hpin t db hp (h'.ended t ?_ hlive)) hlive⟩
      exact (hp.below hw.issued).2.trans_le h.next
    · refine .inr ⟨s, rest, hsvp, hlt.trans_le h'.next, fun hlive => ?_⟩
      rw [h'.root]
      exact hpin' _ _ (hpin (h'.ended s.txn hlt hlive)) hlive
  · exact .inr ⟨s, rest, by rw [← h.handle]; exact hsvp, hlt, hpin'⟩

theorem Renewed.refl (i : ℕ) (hw : Handles w) : Renewed i w w :=
  (Lasting.refl (fun _ => True) hw).renewed trivial rfl

instance : Frame (RenewedFrame i) where
  refl _ := .refl i
  trans h h' hw := (h hw).trans hw (h' (h hw).handles)

theorem renewed_lmdb {α : Type} {m : Mdb α} (h : TableOp True m) : Keeps (RenewedFrame i) (lmdb m) := by
  intro w
  have hstep : Steps (fun _ => False) False m := h.steps
  rw [ensures_lmdb]
  refine (hstep w.env).imp fun _ e he hw => ?_
  exact (Lasting.env hw he fun _ _ _ _ => id : Lasting (fun _ => True) w { w with env := e }).renewed trivial rfl

theorem renewed_getTable (iTable : ℕ) (create : Bool) : Keeps (RenewedFrame i) (getTable iTable create) := by
  have hbuilt : Built (fun _ m => Keeps (RenewedFrame i) m) (getTable iTable create) :=
    built_getTable renewed_lmdb _ fun _ => trivial
  exact hbuilt.keeps id

theorem quiet_getTable (iTable : ℕ) (create : Bool) : Keeps Quiet (getTable iTable create) := by
  have hbuilt : Built (fun _ m => Keeps Quiet m) (getTable iTable create) :=
    built_getTable (fun (_ : TableOp True _) => quiet_lmdb _) _ fun _ => trivial
  exact hbuilt.keeps id

theorem renewed_setCur (j : ℕ) {f : BtCursor → BtCursor} (hf : ∀ c, (f c).cursor = c.cursor)
    (hkept : ∀ c, Continues c (f c)) : Keeps (RenewedFrame i) (setCur j f) := by
  apply Keeps.modify
  intro w hw
  have hlasting : Lasting (fun _ => True) w { w with curs := Function.update w.curs j (f (w.curs j)) } :=
    .setCur hw (.inl (hf (w.curs j))) fun _ => hkept (w.curs j)
  exact hlasting.renewed trivial rfl

/-- Only cursor `i` is set, which has no LMDB cursor of its own before. -/
theorem Renewed.setCur (hw : Handles w) {d : BtCursor} (hd : d.cursor = (w.curs i).cursor ∨ d.cursor = none)
    (htxn : d.txn = (w.curs i).txn) (hroot : d.rootPage = (w.curs i).rootPage)
    (hdbi : (w.curs i).dbi = .table (w.curs i).rootPage → d.dbi = .table d.rootPage)
    (hstored : (w.curs i).Stored → d.Stored) (hdue : d.Due → (w.curs i).Due ∧ d.cursor = (w.curs i).cursor) :
    Renewed i w { w with curs := Function.update w.curs i d } := by
  refine ⟨hw.setCur hd, Nat.le_refl _, fun _ _ h => h, rfl, ?_, ?_, ?_, ?_, ?_⟩
  · simpa using htxn
  · simpa using hroot
  · simpa using hdbi
  · simpa using hstored
  · intro hdue' h hh
    simp only [Function.update_self] at hdue' hh
    obtain ⟨hdue₀, hsame⟩ := hdue hdue'
    exact .inl ⟨hdue₀, hsame ▸ hh, fun _ _ hp _ => hp⟩

theorem renewed_reposition (h : ℕ) (keyInfo : Option KeyInfo) (savedKey : Bytes) :
    Keeps (RenewedFrame i) (repositionCursor h keyInfo savedKey) := by
  refine Keeps.bind (.read _) fun fixedRowid => Keeps.bind (.read _) fun e => .ite (.halt _) ?_
  exact Keeps.bind (renewed_lmdb (.cursorGet _ _)) fun g => .pure _

theorem quiet_reposition (h : ℕ) (keyInfo : Option KeyInfo) (savedKey : Bytes) :
    Keeps Quiet (repositionCursor h keyInfo savedKey) := by
  refine Keeps.bind (.read _) fun fixedRowid => Keeps.bind (.read _) fun e => .ite (.halt _) ?_
  exact Keeps.bind (quiet_lmdb _) fun g => .pure _

/-- A cursor whose position is saved gets a new LMDB cursor. -/
theorem reopenCursor_renews (hw : Handles w) (hcursor : (w.curs i).cursor = none) (hsaved : (w.curs i).savedKey ≠ none)
    {c : BtCursor} (hroot : (w.curs i).rootPage = c.rootPage) (savedKey : Bytes) (reposition : Bool) :
    Ensures (fun _ => True) (reopenCursor i c savedKey reposition) (fun _ w' => Renewed i w w') w := by
  rw [reopenCursor, ensures_bind]
  refine ((renewed_getTable (i := i) c.rootPage false w).and (quiet_getTable c.rootPage false w)).imp fun rc w₁ h₁ => ?_
  obtain ⟨h₁, hcurs, -⟩ := h₁
  have h₁ := h₁ hw
  refine .ite (fun _ => h₁) fun _ => ?_
  rw [ensures_bind, ensures_setCur, ensures_bind]
  generalize hd : ({ w₁.curs i with dbi := .table c.rootPage } : BtCursor) = d
  have hsame : d = { w.curs i with dbi := .table c.rootPage } := by rw [← hd, hcurs]
  generalize hw₂ : ({ w₁ with curs := Function.update w₁.curs i d } : World) = w₂
  have hcur₂ : w₂.curs i = d := by rw [← hw₂]; exact Function.update_self _ _ _
  have h₂ : Renewed i w w₂ := by
    refine h₁.trans hw ?_
    rw [← hw₂]
    refine .setCur h₁.handles ?_ ?_ ?_ ?_ ?_ ?_
    all_goals rw [hsame, hcurs]
    · exact .inl rfl
    · exact fun _ => congrArg DbName.table hroot.symm
    · exact id
    · exact fun h => ⟨h, rfl⟩
  have hnone : d.cursor = none ∧ d.savedKey ≠ none ∧ d.rootPage = c.rootPage := by
    rw [hsame]
    exact ⟨hcursor, hsaved, hroot⟩
  rw [topTxn, ensures_bind, ensures_getP]
  cases hsvp : w₂.p.svp with
  | nil => trivial
  | cons s rest =>
    dsimp only
    rw [ensures_pure, ensures_bind, ensures_lmdb]
    refine (mdbCursorOpen_number s.txn c.rootPage w₂.env).imp fun r e hopen => ?_
    obtain ⟨hstep, hnew⟩ := hopen
    have hlasting : Lasting (fun _ => True) w₂ { w₂ with env := e } := .env h₂.handles hstep fun _ _ _ _ => id
    have h₃ : Renewed i w { w₂ with env := e } := h₂.trans hw (hlasting.renewed trivial rfl)
    refine .ite (fun _ => h₃) fun hok => ?_
    have hopened := hnew (not_not.mp hok)
    rw [ensures_bind, ensures_setCur]
    generalize hw₄ : ({ w₂ with env := e, curs := Function.update w₂.curs i { w₂.curs i with cursor := some r.2 } } : World) = w₄
    have hcur₄ : w₄.curs i = { d with cursor := some r.2 } := by
      rw [← hw₄, ← hcur₂]
      exact Function.update_self _ _ _
    have h₄ : Renewed i w w₄ := by
      have hfresh : ∀ j, (w₂.curs j).cursor ≠ some r.2 := fun j hj => by
        have := h₂.handles.below j r.2 hj
        have := hopened.number
        omega
      have hlt : r.2 < e.next := by
        rw [hopened.number, hopened.next]
        exact Nat.lt_succ_self _
      have hhandles : Handles w₄ := by
        rw [← hw₄]
        exact h₃.handles.setNew hlt hfresh rfl
      have henv : w₄.env = e := by rw [← hw₄]
      have hp : w₄.p = w.p := by
        rw [← hw₄]
        exact h₂.handle
      have hd₂ : d.txn = (w.curs i).txn ∧ d.rootPage = (w.curs i).rootPage ∧ d.dbi = .table d.rootPage := by
        rw [hsame]
        exact ⟨rfl, rfl, congrArg DbName.table hroot.symm⟩
      refine ⟨hhandles, by rw [henv]; exact h₃.next, by rw [henv]; exact h₃.ended, hp, ?_, ?_, fun _ => ?_, fun _ _ => ?_,
        fun _ n hn => .inr ⟨s, rest, ?_, ?_, fun _ => ?_⟩⟩
      all_goals rw [hcur₄] at *
      · exact hd₂.1
      · exact hd₂.2.1
      · exact hd₂.2.2
      · exact fun h => absurd h (Option.some_ne_none _)
      · rw [← h₂.handle]
        exact hsvp
      · rw [henv]
        exact h₃.handles.issued.kind hopened.live
      · obtain rfl : r.2 = n := Option.some.inj hn
        rw [henv, hnone.2.2]
        exact hopened.pinned h₂.handles.issued
    have hend : ∀ (rc : Rc) (w₅ : World), Renewed i w₄ w₅ → w₅.curs = w₄.curs → Ensures (fun _ => True)
        (if rc ≠ 0 then pure (errorMap rc)
        else do
          setCur i fun d => { d with savedKey := none }
          pure sqliteOk) (fun _ w' => Renewed i w w') w₅ := by
      intro rc w₅ h₅ hcurs₅
      refine .ite (fun _ => h₄.trans hw h₅) fun _ => ?_
      rw [ensures_bind, ensures_setCur, ensures_pure]
      refine (h₄.trans hw h₅).trans hw (.setCur h₅.handles (.inl rfl) rfl rfl id (fun _ _ hcur => ?_) fun hdue => ⟨hdue, rfl⟩)
      rw [hcurs₅, hcur₄] at hcur
      exact absurd hcur (Option.some_ne_none _)
    refine .ite (fun _ => ?_) fun _ => ?_
    · rw [ensures_bind]
      refine ((renewed_reposition (i := i) r.2 c.keyInfo savedKey w₄).and (quiet_reposition r.2 c.keyInfo savedKey w₄)).imp ?_
      rintro rc w₅ ⟨h₅, hcurs₅, -⟩
      exact hend rc w₅ (h₅ h₄.handles) hcurs₅
    · rw [ensures_bind, ensures_pure]
      exact hend 0 w₄ (.refl i h₄.handles) rfl

/-- The whole of restoring a cursor, for the cursor itself. -/
theorem restoreCursor_renews (i : ℕ) (reposition : Bool) : Keeps (RenewedFrame i) (restoreCursor i reposition) := by
  intro w
  rw [restoreCursor, ensures_bind, ensures_getCur]
  refine .ite (fun _ => .refl i) fun _ => ?_
  cases hkey : (w.curs i).savedKey with
  | none => exact .refl i
  | some savedKey =>
    dsimp only
    by_cases hw : Handles w
    · have hrest : ∀ e, Lasting (fun j => j ≠ i) w { w with env := e } → Ensures (fun _ => True) (do
          setCur i fun c => { c with cursor := none }
          if !(w.curs i).pBtree then Prog.halt .nullPointer else reopenCursor i (w.curs i) savedKey reposition)
          (fun _ w' => RenewedFrame i w w') { w with env := e } := by
        intro e h₁
        rw [ensures_bind, ensures_setCur]
        generalize hw₂ : ({ w with env := e, curs := Function.update w.curs i { w.curs i with cursor := none } } : World) = w₂
        have hcur : w₂.curs i = { w.curs i with cursor := none } := by
          rw [← hw₂]
          exact Function.update_self _ _ _
        have hhandles : Handles w₂ := by
          rw [← hw₂]
          exact h₁.handles.setCur (.inr rfl)
        have h₂ : Renewed i w w₂ := by
          refine ⟨hhandles, by rw [← hw₂]; exact h₁.next, by rw [← hw₂]; exact h₁.ended, by rw [← hw₂], ?_, ?_, ?_, ?_, ?_⟩
          all_goals rw [hcur]
          · exact id
          · exact fun _ _ _ hnone => absurd (hkey.symm.trans hnone) (Option.some_ne_none _)
          · exact fun hdue => absurd hdue.2 Bool.false_ne_true
        refine .ite (fun _ => trivial) fun _ => ?_
        refine (reopenCursor_renews hhandles ?_ ?_ ?_ savedKey reposition).imp fun _ _ h _ => h₂.trans hw h
        all_goals rw [hcur]
        exact Option.ne_none_iff_exists'.mpr ⟨savedKey, hkey⟩
      refine .ite (fun _ => ?_) fun _ => ?_
      · rw [ensures_bind]
        have hclosed : Ensures (fun _ => True) (lmdb (mdbCursorClose (w.curs i).cursor))
            (fun _ w' => Lasting (fun j => j ≠ i) w w') w := hw.closed (fun h => h rfl) rfl
        rw [ensures_lmdb] at hclosed ⊢
        exact hclosed.imp fun _ e he => hrest e he
      · exact hrest w.env (.refl _ hw)
    · rw [ensures_iff]
      exact ⟨fun _ _ _ h => absurd h hw, fun _ _ => trivial⟩

/-- What is done with open cursors, for any of them. -/
theorem UsePart.renewed {α : Type} {m : Call α} (h : UsePart True α m) (i : ℕ) : Keeps (RenewedFrame i) m := by
  cases h with
  | lmdb h => exact renewed_lmdb h
  | setCur j f hf =>
    refine renewed_setCur j (fun c => by rw [hf c]) fun c => ?_
    rw [hf c]
    exact ⟨⟨rfl, rfl, rfl⟩, id, fun h => ⟨h, rfl⟩⟩
  | restoreCursor j reposition =>
    by_cases hj : j = i
    · rw [hj]
      exact restoreCursor_renews i reposition
    · intro w
      have hothers : Keeps (LastingFrame fun k => k ≠ j) (Btree.restoreCursor j reposition) :=
        others_restoreCursor (fun h => h rfl) reposition
      have hkept : Keeps HandleKept (Btree.restoreCursor j reposition) := (built_restoreCursor j reposition).keeps MovePart.handleKept
      refine ((hothers w).and (hkept w)).imp fun _ w' h hw => ?_
      exact (h.1 hw).renewed (Ne.symm hj) h.2

end Renewals

section Lists

variable {kept : ℕ → Prop} {w w' : World} {i : ℕ}

/-- Only the links of the list of cursors change. -/
structure Relinked (w w' : World) : Prop where
  env : w'.env = w.env
  curs : ∀ j, w'.curs j = { w.curs j with prev := (w'.curs j).prev, next := (w'.curs j).next }

instance : Frame Relinked where
  refl _ := ⟨rfl, fun _ => rfl⟩
  trans h h' := ⟨h'.env.trans h.env, fun j => by rw [h'.curs j, h.curs j]⟩

theorem relinked_setP (f : Btree → Btree) : Keeps Relinked (setP f) := .modify fun _ => ⟨rfl, fun _ => rfl⟩

theorem relinked_setCur (i : ℕ) {f : BtCursor → BtCursor} (hf : ∀ c, f c = { c with prev := (f c).prev, next := (f c).next }) :
    Keeps Relinked (setCur i f) := by
  refine .modify fun w => ⟨rfl, fun j => ?_⟩
  by_cases hji : j = i
  · subst hji
    simp only [Function.update_self]
    exact hf _
  · simp only [Function.update_of_ne hji]

theorem relinked_linkCursor (i : ℕ) : Keeps Relinked (linkCursor i) := by
  refine Keeps.bind (.read _) fun p => Keeps.bind (relinked_setCur i fun _ => rfl) fun _ => ?_
  cases p.lastCursor with
  | none => exact Keeps.bind (relinked_setP _) fun _ => relinked_setP _
  | some j => exact Keeps.bind (relinked_setCur j fun _ => rfl) fun _ => relinked_setP _

theorem relinked_unlinkNext (next prev : Option ℕ) : Keeps Relinked (match next with
    | some j => setCur j fun d => { d with prev := prev }
    | none => setP fun p => { p with lastCursor := prev }) := by
  cases next with
  | none => exact relinked_setP _
  | some j => exact relinked_setCur j fun _ => rfl

theorem relinked_unlinkCursor (i : ℕ) : Keeps Relinked (unlinkCursor i) := by
  refine Keeps.bind (.read _) fun c => ?_
  cases c.prev with
  | none => exact Keeps.bind (relinked_setP _) fun _ => relinked_unlinkNext c.next none
  | some j => exact Keeps.bind (relinked_setCur j fun _ => rfl) fun _ => relinked_unlinkNext c.next (some j)

theorem Relinked.lasting (h : Relinked w w') (hw : Handles w) : Lasting kept w w' := by
  have hcursor : ∀ j, (w'.curs j).cursor = (w.curs j).cursor := fun j => by rw [h.curs j]
  have hcontinues : ∀ j, Continues (w.curs j) (w'.curs j) := fun j => by
    rw [h.curs j]
    exact ⟨⟨rfl, rfl, rfl⟩, id, fun h => ⟨h, rfl⟩⟩
  have hhandles : Handles w' := by
    refine ⟨?_, ?_, fun j n hn => ?_, fun j k n hj hk => ?_⟩
    · rw [h.env]
      exact hw.issued
    · rw [h.env]
      exact hw.disjoint
    · rw [h.env]
      exact hw.below j n (by rw [← hcursor]; exact hn)
    · exact hw.apart j k n (by rw [← hcursor]; exact hj) (by rw [← hcursor]; exact hk)
  refine ⟨hhandles, by rw [h.env], fun _ _ => ?_, fun j _ => hcontinues j, fun _ _ _ _ _ _ _ hp _ => ?_⟩
  · rw [h.env]
    exact id
  · rw [h.env]
    exact hp

theorem lasting_relinked {α : Type} {m : Call α} (h : Keeps Relinked m) : Keeps (LastingFrame kept) m :=
  fun w => (h w).imp fun _ _ h hw => h.lasting hw

/-- When the environment is closed nothing lives on. -/
theorem ClosePart.lasting {α : Type} {m : Call α} (h : ClosePart α m) : Keeps (LastingFrame kept) m := by
  cases h with
  | txn h => exact h.lasting
  | closeEnv =>
    intro w
    rw [ensures_lmdb, ensures_modify]
    intro hw
    have hdead : ∀ t, ¬ ({ w.env with writers := [], readers := [], cursors := fun _ => none } : Env).Live t := by
      intro t hlive
      rcases live_iff.mp hlive with h | h
      · exact absurd h List.not_mem_nil
      · exact absurd h List.not_mem_nil
    have hstep : w.env.Step (fun _ => True) False { w.env with writers := [], readers := [], cursors := fun _ => none } :=
      (Env.Change.close fun _ => trivial).step
    exact ⟨hw.env hstep, Nat.le_refl _, fun t _ hlive => absurd hlive (hdead t), fun _ _ => .refl _,
      fun _ _ t _ _ _ _ _ hlive => absurd hlive (hdead t)⟩

theorem others_closeCursor (hi : ¬ kept i) : Keeps (LastingFrame kept) (sqlite3BtreeCloseCursor i) := by
  have hset : ∀ f : BtCursor → BtCursor, (∀ c, (f c).cursor = c.cursor ∨ (f c).cursor = none) →
      Keeps (LastingFrame kept) (setCur i f) := fun f hf => lasting_setCur i hf fun h => absurd h hi
  have hend : ∀ c : BtCursor, Keeps (LastingFrame kept) (do
      setCur i fun c => { c with savedKey := none }
      if c.pBtree then do
        unlinkCursor i
        setCur i fun c => { c with pBtree := false }
        let p ← getP
        if p.single then do
          let _ ← sqlite3BtreeClose
          pure sqliteOk
        else pure sqliteOk
      else pure sqliteOk) := by
    intro c
    refine Keeps.bind (hset _ fun _ => .inl rfl) fun _ => .ite ?_ (.pure _)
    refine Keeps.bind (lasting_relinked (relinked_unlinkCursor i)) fun _ => Keeps.bind (hset _ fun _ => .inl rfl) fun _ => ?_
    refine Keeps.bind (.read _) fun p => .ite ?_ (.pure _)
    exact Keeps.bind (built_close.keeps ClosePart.lasting) fun _ => .pure _
  intro w
  rw [sqlite3BtreeCloseCursor, ensures_bind, ensures_getCur]
  refine .ite (fun _ => ?_) fun _ => hend _ w
  rw [ensures_bind]
  by_cases hw : Handles w
  · refine (hw.closed hi rfl).imp fun _ w₁ h₁ => ?_
    exact (Keeps.bind (hset _ fun _ => .inr rfl) (fun _ => hend _) w₁).imp fun _ _ h =>
      Frame.trans (R := LastingFrame kept) (fun _ => h₁) h
  · rw [ensures_lmdb, ensures_iff]
    exact ⟨fun _ _ _ => (Keeps.bind (hset _ fun _ => .inr rfl) (fun _ => hend _) _).imp fun _ _ _ h => absurd h hw,
      fun _ _ => trivial⟩

theorem others_cursor (hi : ¬ kept i) (iTable : ℕ) (wrFlag : Bool) (keyInfo : Option KeyInfo) :
    Keeps (LastingFrame kept) (sqlite3BtreeCursor iTable wrFlag keyInfo i) := by
  have hset : ∀ f : BtCursor → BtCursor, (∀ c, (f c).cursor = c.cursor ∨ (f c).cursor = none) →
      Keeps (LastingFrame kept) (setCur i f) := fun f hf => lasting_setCur i hf fun h => absurd h hi
  have hop : ∀ {α : Type} {m : Mdb α}, TableOp False m → Keeps (LastingFrame kept) (lmdb m) := fun h =>
    lasting_lmdb (h.steps : Steps (fun _ => False) False _)
  have hlink : Keeps (LastingFrame kept) (do
      linkCursor i
      setCur i fun c => { c with wrFlag := wrFlag }
      pure sqliteOk) :=
    Keeps.bind (lasting_relinked (relinked_linkCursor i)) fun _ => Keeps.bind (hset _ fun _ => .inl rfl) fun _ => .pure _
  refine Keeps.bind (.read _) fun c => .ite (.pure _) ?_
  refine Keeps.bind keeps_topTxn fun txn => Keeps.bind (hset _ fun _ => .inr rfl) fun _ => ?_
  have htable : Built (fun _ m => Keeps (LastingFrame kept) m) (getTable iTable false) :=
    built_getTable hop _ (absurd · Bool.false_ne_true)
  refine Keeps.bind (htable.keeps id) fun rc => .ite (.pure _) ?_
  refine Keeps.bind (hset _ fun _ => .inl rfl) fun _ => ?_
  have hfirst : ∀ r : Rc × ℕ, Keeps (LastingFrame kept) (do
      let g ← lmdb (mdbCursorGet (some r.2) .first)
      if g.1 ≠ 0 then setCur i fun c => { c with atEof := true } else pure ()
      linkCursor i
      setCur i fun c => { c with wrFlag := wrFlag }
      pure sqliteOk) := fun r =>
    Keeps.bind (hop (.cursorGet _ _)) fun g => .ite (Keeps.bind (hset _ fun _ => .inl rfl) fun _ => hlink) hlink
  have hopen : Built (fun _ m => Keeps (LastingFrame kept) m) (do
      let r ← lmdb (mdbCursorOpen txn (.table iTable))
      if r.1 ≠ 0 then pure (errorMap r.1)
      else do
        setCur i fun c => { c with atEof := false, cursor := some r.2 }
        let g ← lmdb (mdbCursorGet (some r.2) .first)
        if g.1 ≠ 0 then setCur i fun c => { c with atEof := true } else pure ()
        linkCursor i
        setCur i fun c => { c with wrFlag := wrFlag }
        pure sqliteOk) :=
    built_openInto (f := fun c => { c with atEof := false }) (others_openInto hi _ _ _) (fun _ => .pure _)
      fun r => .part (hfirst r)
  exact hopen.keeps id

theorem others_zero (hi : ¬ kept i) : Keeps (LastingFrame kept) (CursorCall.zero i).run := by
  intro w hw
  have hset : Lasting kept w { w with curs := Function.update w.curs i .zero } :=
    (Lasting.refl kept hw).setOther hi (hw.setCur (.inr rfl))
  have hhandles := hset.handles
  exact ⟨⟨hhandles.issued, hhandles.disjoint, hhandles.below, hhandles.apart⟩, hset.next, hset.ended, hset.continues, hset.pinned⟩

/-- The cursor that the call is about. -/
def CursorCall.target : CursorCall → ℕ
  | zero i => i
  | cursor i _ _ _ => i
  | close i => i

/-- The calls that open and close cursors leave the others alone. -/
theorem CursorCall.lasting (call : CursorCall) : Keeps (LastingFrame fun j => j ≠ call.target) call.run := by
  cases call with
  | zero i => exact others_zero fun h => h rfl
  | cursor i iTable wrFlag keyInfo => exact others_cursor (fun h => h rfl) iTable wrFlag keyInfo
  | close i => exact others_closeCursor fun h => h rfl

end Lists

section Opening

variable {w w' : World} {i : ℕ}

/-- A cursor that has just been opened. -/
def Opened (w : World) (i : ℕ) : Prop := ∃ t h, (w.curs i).txn = some t ∧ (w.curs i).cursor = some h ∧
  (w.curs i).dbi = .table (w.curs i).rootPage ∧ w.env.Pinned h t (.table (w.curs i).rootPage) ∧ w.env.Live t

theorem Relinked.opened (h : Relinked w w') (ho : Opened w i) : Opened w' i := by
  obtain ⟨t, n, htxn, hn, hdbi, hp, hlive⟩ := ho
  refine ⟨t, n, ?_⟩
  rw [h.curs i, h.env]
  exact ⟨htxn, hn, hdbi, hp, hlive⟩

theorem opened_setCur {d : BtCursor} (ho : Opened w i) (hd : d.txn = (w.curs i).txn ∧ d.cursor = (w.curs i).cursor ∧
    d.dbi = (w.curs i).dbi ∧ d.rootPage = (w.curs i).rootPage) :
    Opened { w with curs := Function.update w.curs i d } i := by
  obtain ⟨t, n, htxn, hn, hdbi, hp, hlive⟩ := ho
  refine ⟨t, n, ?_⟩
  simp only [Function.update_self, hd]
  exact ⟨htxn, hn, hdbi, hp, hlive⟩

theorem opened_cursorGet (ho : Opened w i) (hissued : w.env.Issued) (hdisjoint : w.env.Disjoint) (h : Option ℕ)
    (op : CursorOp) : Ensures (fun _ => True) (lmdb (mdbCursorGet h op)) (fun _ w' => Opened w' i) w := by
  obtain ⟨t, n, htxn, hn, hdbi, hp, hlive⟩ := ho
  have hstep : Steps (fun _ => False) False (mdbCursorGet h op) := steps_cursorGet h op
  rw [ensures_lmdb]
  refine ((hstep w.env).and (keeps_cursorGet h op w.env)).imp fun _ e he => ?_
  have hlive' : e.Live t := by
    rw [Env.Live, kind_congr he.2.writers he.2.readers]
    exact hlive
  exact ⟨t, n, htxn, hn, hdbi, he.1.pinned hissued hdisjoint hp id hlive', hlive'⟩

/-- A cursor that is opened is on its table in the transaction on top. -/
theorem cursor_opens (hw : Handles w) (iTable : ℕ) (wrFlag : Bool) (keyInfo : Option KeyInfo) :
    Ensures (fun _ => True) (sqlite3BtreeCursor iTable wrFlag keyInfo i) (fun rc w' => rc = sqliteOk → Opened w' i) w := by
  have hfailed : ∀ (rc : Rc) (w' : World), rc ≠ 0 → Ensures (fun _ => True) (pure (errorMap rc) : Call Rc)
      (fun rc w' => rc = sqliteOk → Opened w' i) w' := fun rc w' hrc hok => absurd ((errorMap_eq_ok rc).mp hok) hrc
  have hlink : ∀ w₁, Opened w₁ i → Ensures (fun _ => True) (do
      linkCursor i
      setCur i fun c => { c with wrFlag := wrFlag }
      pure sqliteOk) (fun rc w' => rc = sqliteOk → Opened w' i) w₁ := by
    intro w₁ ho
    rw [ensures_bind]
    refine (relinked_linkCursor i w₁).imp fun _ w₂ h₂ => ?_
    rw [ensures_bind, ensures_setCur, ensures_pure]
    exact fun _ => opened_setCur (h₂.opened ho) ⟨rfl, rfl, rfl, rfl⟩
  rw [sqlite3BtreeCursor, ensures_bind, ensures_getCur]
  refine .ite (fun _ h => absurd h (by decide)) fun _ => ?_
  rw [ensures_bind, topTxn, ensures_bind, ensures_getP]
  cases hsvp : w.p.svp with
  | nil => trivial
  | cons s rest =>
    dsimp only
    rw [ensures_pure, ensures_bind, ensures_setCur, ensures_bind]
    generalize hd : ({ w.curs i with
      pBtree := true, keyInfo := keyInfo, rootPage := iTable, txn := some s.txn, cursor := none } : BtCursor) = d
    generalize hw₁ : ({ w with curs := Function.update w.curs i d } : World) = w₁
    have hcur₁ : (w₁.curs i).txn = some s.txn ∧ (w₁.curs i).rootPage = iTable := by
      rw [← hw₁, ← hd]
      simp
    have hhandles₁ : Handles w₁ := by
      rw [← hw₁, ← hd]
      exact hw.setCur (.inr rfl)
    have htable : Built (fun _ m => Keeps (RenewedFrame i) m) (getTable iTable false) :=
      built_getTable renewed_lmdb _ (absurd · Bool.false_ne_true)
    refine ((htable.keeps id w₁).and (quiet_getTable iTable false w₁)).imp fun rc w₂ h₂ => ?_
    obtain ⟨h₂, hcurs₂, -⟩ := h₂
    refine .ite (fun hrc => hfailed rc w₂ hrc) fun _ => ?_
    rw [ensures_bind, ensures_setCur, ensures_bind, ensures_lmdb]
    refine (mdbCursorOpen_number s.txn iTable w₂.env).imp fun r e hopen => ?_
    refine .ite (fun hrc => hfailed r.1 _ hrc) fun hok => ?_
    have hnew := hopen.2 (not_not.mp hok)
    rw [ensures_bind, ensures_setCur, ensures_bind]
    have hhandles₂ := (h₂ hhandles₁).handles
    refine (opened_cursorGet ?_ (hopen.1.issued hhandles₂.issued).1 (hopen.1.disjoint hhandles₂.issued hhandles₂.disjoint)
      (some r.2) .first).imp fun g w₄ h₄ => .ite (fun _ => ?_) fun _ => hlink w₄ h₄
    · refine ⟨s.txn, r.2, ?_⟩
      simp only [Function.update_self, hcurs₂, hcur₁]
      exact ⟨trivial, trivial, trivial, hnew.pinned hhandles₂.issued, hnew.live⟩
    · rw [ensures_bind, ensures_setCur]
      exact hlink _ (opened_setCur h₄ ⟨rfl, rfl, rfl, rfl⟩)

end Opening

end LumoSql.Btree
