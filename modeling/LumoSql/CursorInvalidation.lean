import LumoSql.CallParts
import LumoSql.CursorSeeks
import LumoSql.LinkedLists
import LumoSql.SavepointLevels

/-! Saving the position of a cursor: what the savepoint calls and the upgrade of a transaction
leave in one cursor while they invalidate the cursors of the handle. -/
namespace LumoSql.Btree
open StateLogic Lmdb LinkedLists

/-- The calls that save the positions of cursors. -/
inductive SavingCall
  | savepoint (op : SavepointOp) (iSavepoint : ℤ)
  | upgrade (pSchemaVersion : Bool)

def SavingCall.run : SavingCall → Call Rc
  | savepoint op iSavepoint => sqlite3BtreeSavepoint op iSavepoint
  | upgrade pSchemaVersion => do
    let r ← sqlite3BtreeBeginTrans true pSchemaVersion
    pure r.1

/-- The links of the cursors to the next ones. -/
def World.links (w : World) (j : ℕ) : Option ℕ := (w.curs j).next

/-- The cursors are what they were, and the list begins where it did. -/
def Quiet (w w' : World) : Prop := w'.curs = w.curs ∧ w'.p.firstCursor = w.p.firstCursor

instance : Frame Quiet where
  refl _ := ⟨rfl, rfl⟩
  trans h h' := ⟨h'.1.trans h.1, h'.2.trans h.2⟩

theorem keeps_topTxn {R : World → World → Prop} [Frame R] : Keeps R topTxn := by
  refine Keeps.bind (.read _) fun p => ?_
  cases p.svp with
  | nil => exact .halt _
  | cons s rest => exact .pure _

section Quiet

theorem quiet_lmdb {α : Type} (m : Mdb α) : Keeps Quiet (lmdb m) := by
  intro w
  rw [ensures_lmdb, ensures_iff]
  exact ⟨fun _ _ _ => ⟨rfl, rfl⟩, fun _ _ => trivial⟩

theorem quiet_setP {f : Btree → Btree} (hf : ∀ p, (f p).firstCursor = p.firstCursor) : Keeps Quiet (setP f) :=
  .modify fun w => ⟨rfl, hf w.p⟩

theorem quiet_getMeta64 (idx : ℕ) : Keeps Quiet (getMeta64 idx) := by
  refine Keeps.bind (.read _) fun p => .ite (.pure _) ?_
  refine Keeps.bind keeps_topTxn fun txn => Keeps.bind (quiet_lmdb _) fun r => .ite (.pure _) ?_
  exact Keeps.bind (.read _) fun fixedRowid => .pure _

theorem quiet_beginGetVersion (pSchemaVersion : Bool) : Keeps Quiet (beginGetVersion pSchemaVersion) := by
  refine Keeps.ite (Keeps.bind ?_ fun v => .pure _) (.pure _)
  refine Keeps.bind (.read _) fun p => .ite (.pure _) ?_
  refine Keeps.bind keeps_topTxn fun txn => ?_
  exact Keeps.bind (quiet_lmdb _) fun r => .ite (.pure _) (.ite (.pure _) (.pure _))

theorem quiet_beginOpened (wrFlag : Bool) (txn : ℕ) : Keeps Quiet (beginOpened wrFlag txn) := by
  refine Keeps.bind (quiet_setP fun _ => rfl) fun _ => Keeps.bind (quiet_lmdb _) fun rc => ?_
  refine Keeps.ite (Keeps.bind (quiet_setP fun _ => rfl) fun _ => .pure _) ?_
  refine Keeps.ite ?_ (Keeps.bind (quiet_setP fun _ => rfl) fun _ => .pure _)
  exact Keeps.bind (quiet_lmdb _) fun _ => Keeps.bind (quiet_setP fun _ => rfl) fun _ => .pure _

theorem quiet_beginNew (wrFlag : Bool) : Keeps Quiet (beginNew wrFlag) := by
  refine Keeps.bind (.read _) fun p => .ite (.pure _) ?_
  refine Keeps.bind (quiet_lmdb _) fun oom => .ite (.pure _) ?_
  exact Keeps.bind (quiet_lmdb _) fun r => .ite (.pure _) (quiet_beginOpened _ _)

theorem quiet_upgradeError (rc : Rc) : Keeps Quiet (upgradeError rc) :=
  Keeps.bind (quiet_setP fun _ => rfl) fun _ => .pure _

theorem quiet_upgradeOpened (uCounterRO : ℤ) (txn : ℕ) : Keeps Quiet (upgradeOpened uCounterRO txn) := by
  refine Keeps.bind (quiet_setP fun _ => rfl) fun _ => Keeps.bind (quiet_lmdb _) fun rc => ?_
  refine Keeps.ite (Keeps.bind (quiet_lmdb _) fun _ => quiet_upgradeError _) ?_
  refine Keeps.bind (quiet_setP fun _ => rfl) fun _ => Keeps.bind (quiet_getMeta64 _) fun uCounterRW => ?_
  exact .ite (.pure _) (Keeps.bind (quiet_setP fun _ => rfl) fun _ => .pure _)

end Quiet

/-- The links that invalidation leaves alone. -/
structure LinksKept (w w' : World) : Prop where
  next : ∀ j, (w'.curs j).next = (w.curs j).next
  prev : ∀ j, (w'.curs j).prev = (w.curs j).prev
  opened : ∀ j, (w'.curs j).pBtree = (w.curs j).pBtree
  first : w'.p.firstCursor = w.p.firstCursor
  last : w'.p.lastCursor = w.p.lastCursor

instance : Frame LinksKept where
  refl _ := ⟨fun _ => rfl, fun _ => rfl, fun _ => rfl, rfl, rfl⟩
  trans h h' := ⟨fun j => (h'.next j).trans (h.next j), fun j => (h'.prev j).trans (h.prev j),
    fun j => (h'.opened j).trans (h.opened j), h'.first.trans h.first, h'.last.trans h.last⟩

section Links

theorem linksKept_lmdb {α : Type} (m : Mdb α) : Keeps LinksKept (lmdb m) := by
  intro w
  rw [ensures_lmdb, ensures_iff]
  exact ⟨fun _ _ _ => ⟨fun _ => rfl, fun _ => rfl, fun _ => rfl, rfl, rfl⟩, fun _ _ => trivial⟩

theorem linksKept_setP {f : Btree → Btree} (hfirst : ∀ p, (f p).firstCursor = p.firstCursor)
    (hlast : ∀ p, (f p).lastCursor = p.lastCursor) : Keeps LinksKept (setP f) :=
  .modify fun w => ⟨fun _ => rfl, fun _ => rfl, fun _ => rfl, hfirst w.p, hlast w.p⟩

theorem linksKept_setCur (i : ℕ) {f : BtCursor → BtCursor}
    (hf : ∀ c, (f c).next = c.next ∧ (f c).prev = c.prev ∧ (f c).pBtree = c.pBtree) :
    Keeps LinksKept (setCur i f) := by
  refine .modify fun w => ?_
  have hcur : ∀ j, (Function.update w.curs i (f (w.curs i)) j).next = (w.curs j).next ∧
      (Function.update w.curs i (f (w.curs i)) j).prev = (w.curs j).prev ∧
      (Function.update w.curs i (f (w.curs i)) j).pBtree = (w.curs j).pBtree := by
    intro j
    by_cases hj : j = i
    · subst hj
      rw [Function.update_self]
      exact hf _
    · rw [Function.update_of_ne hj]
      exact ⟨rfl, rfl, rfl⟩
  exact ⟨fun j => (hcur j).1, fun j => (hcur j).2.1, fun j => (hcur j).2.2, rfl, rfl⟩

theorem InvalidationPart.links {i : ℕ} {α : Type} {m : Call α} (h : InvalidationPart i α m) : Keeps LinksKept m := by
  cases h with
  | lmdb h => exact linksKept_lmdb _
  | setCur f hf =>
    refine linksKept_setCur i fun c => ?_
    rw [(hf c).1]
    exact ⟨rfl, rfl, rfl⟩

theorem linksKept_invalidateCursor (tripCode : Rc) (writeOnly : Bool) (i : ℕ) (rc : Rc) :
    Keeps LinksKept (invalidateCursor tripCode writeOnly i rc) :=
  (built_invalidateCursor tripCode writeOnly i rc).keeps InvalidationPart.links

/-- No transaction call changes the list. -/
theorem TxnPart.links {reads : Prop} {α : Type} {m : Call α} (h : TxnPart reads α m) : Keeps LinksKept m := by
  cases h with
  | lmdb h => exact linksKept_lmdb _
  | setP f hf => exact linksKept_setP (fun p => (hf p).1) fun p => (hf p).2
  | invalidateCursor tripCode writeOnly i rc => exact linksKept_invalidateCursor tripCode writeOnly i rc

theorem ClosePart.links {α : Type} {m : Call α} (h : ClosePart α m) : Keeps LinksKept m := by
  cases h with
  | txn h => exact h.links
  | closeEnv => exact linksKept_lmdb _

/-- No call on open cursors does. -/
theorem MovePart.links {α : Type} {m : Call α} (h : MovePart True α m) : Keeps LinksKept m := by
  have hmoved : ∀ {c d : BtCursor}, Moved c d → d.next = c.next ∧ d.prev = c.prev ∧ d.pBtree = c.pBtree := by
    intro c d hd
    rw [hd.same]
    exact ⟨rfl, rfl, rfl⟩
  cases h with
  | lmdb h => exact linksKept_lmdb _
  | setCur i f hf => exact linksKept_setCur i fun c => hmoved (hf c)
  | openInto i t iTable f hf =>
    refine Keeps.bind (linksKept_lmdb _) fun r => .ite (.pure _) ?_
    refine Keeps.bind (linksKept_setCur i fun c => ?_) fun _ => .pure _
    have hsame := hmoved (hf c)
    exact hsame

end Links

/-- The cursor `d` after its position on the key has been saved. -/
def BtCursor.saved (d : BtCursor) (key : Bytes) : BtCursor := { d with savedKey := some key, cursor := none }

/-- The entry that `d` reads has the key. -/
def OnKey (d : BtCursor) (key : Bytes) (e : Env) : Prop :=
  ∀ h c v, d.cursor = some h → e.cursors h = some c → e.cursorView c = some v →
    c.pos.initialized = true ∧ ∃ data, ((v c.db).getD [])[c.pos.index]? = some (key, data)

/-- Cursor `i` has a saved position, or an error that it reports. -/
def Invalidated (i : ℕ) (d : BtCursor) (key : Bytes) (w : World) : Prop :=
  w.curs i = d.saved key ∨ (w.curs i).savedKey = none ∧ (w.curs i).tripCode ≠ sqliteOk

/-- Invalidation from the cursor `o` on has nothing to save for cursor `i`, which was `d`. -/
def Settled (i : ℕ) (d : BtCursor) (key : Bytes) (o : Option ℕ) (w : World) : Prop :=
  Invalidated i d key w ∨ w.curs i = d ∧ ∃ l, Follows w.links o l ∧ i ∉ l

/-- Invalidation from the cursor `o` on can save the key for cursor `i` and nothing else. -/
def Tracked (i : ℕ) (d : BtCursor) (key : Bytes) (o : Option ℕ) (w : World) : Prop :=
  Settled i d key o w ∨ w.curs i = d ∧ OnKey d key w.env

section Saving

variable {i : ℕ} {d : BtCursor} {key : Bytes} {w w' : World}

/-- Calls that neither move `d` nor change another cursor that is `d`. -/
def Unmoved (i : ℕ) (d : BtCursor) (key : Bytes) (w w' : World) : Prop :=
  w'.curs i = w.curs i ∧ (OnKey d key w.env → OnKey d key w'.env)

instance : Frame (Unmoved i d key) where
  refl _ := ⟨rfl, id⟩
  trans h h' := ⟨h'.1.trans h.1, fun hk => h'.2 (h.2 hk)⟩

theorem OnKey.pop {e : Env} (h : OnKey d key e) (f : Fallible) : OnKey d key (e.pop f) := h

theorem OnKey.close {e : Env} (h : OnKey d key e) (n : ℕ) :
    OnKey d key { e with cursors := Function.update e.cursors n none } := by
  intro h' c v hd hc hv
  by_cases hn : h' = n
  · subst hn
    simp only [Function.update_self] at hc
    cases hc
  · simp only [Function.update_of_ne hn] at hc
    exact h h' c v hd hc hv

/-- Reading an entry leaves every cursor where it is. -/
theorem OnKey.read {e : Env} (h : OnKey d key e) {n : ℕ} {c : MdbCursor} {v : Contents}
    (hc : e.cursors n = some c) (hv : e.cursorView c = some v) :
    OnKey d key (e.setCursor n c (CursorOp.getCurrent.move ((v c.db).getD []) c.pos).1) := by
  intro h' c' v' hd hc' hv'
  by_cases hn : h' = n
  · subst hn
    obtain ⟨hinit, data, hentry⟩ := h h' c v hd hc hv
    simp only [Env.setCursor, Function.update_self, Option.some.injEq, CursorOp.move, moveCurrent, hinit,
      hentry, Bool.not_true, Bool.false_eq_true, if_false] at hc'
    subst hc'
    have hview : e.cursorView c = some v' := hv'
    obtain rfl : v = v' := Option.some.inj (hv.symm.trans hview)
    exact ⟨rfl, data, hentry⟩
  · simp only [Env.setCursor, Function.update_of_ne hn] at hc'
    exact h h' c' v' hd hc' hv'

theorem unmoved_lmdb {α : Type} {m : Mdb α} (hm : Keeps (fun e e' => OnKey d key e → OnKey d key e') m) :
    Keeps (Unmoved i d key) (lmdb m) :=
  Keeps.zoom hm fun _ _ he => ⟨rfl, he⟩

instance : Frame (fun e e' => OnKey d key e → OnKey d key e') where
  refl _ := id
  trans h h' := fun hk => h' (h hk)

theorem onKey_answer (f : Fallible) : Keeps (fun e e' => OnKey d key e → OnKey d key e') (answer f) :=
  fun _ h => h.pop f

theorem onKey_cursorClose (h : Option ℕ) :
    Keeps (fun e e' => OnKey d key e → OnKey d key e') (mdbCursorClose h) := by
  cases h with
  | none => exact .pure _
  | some h =>
    refine Keeps.bind (.read _) fun e => ?_
    cases e.cursors h with
    | none => exact .halt _
    | some c => exact .modify fun e hk => hk.close h

theorem onKey_getCurrent (h : Option ℕ) :
    Keeps (fun e e' => OnKey d key e → OnKey d key e') (mdbCursorGet h .getCurrent) := by
  cases h with
  | none => exact .pure _
  | some h =>
    intro e
    cases hc : e.cursors h with
    | none =>
      rw [mdbCursorGet, ensures_bind, ensures_read]
      simp only [id_eq, hc, ensures_halt]
    | some c =>
      cases hv : e.cursorView c with
      | none =>
        rw [mdbCursorGet, ensures_bind, ensures_read]
        simp only [id_eq, hc, hv, ensures_halt]
      | some v =>
        rw [documented.cursorGet hc hv]
        split_ifs
        · exact fun hk => hk
        · exact fun hk => (hk.pop .cursorGet).read (e := e.pop .cursorGet) hc hv

theorem unmoved_setCur {j : ℕ} (hj : j ≠ i) (f : BtCursor → BtCursor) : Keeps (Unmoved i d key) (setCur j f) :=
  .modify fun _ => ⟨Function.update_of_ne (Ne.symm hj) _ _, id⟩

theorem unmoved_saveFailed {j : ℕ} (hj : j ≠ i) (rc1 rc : Rc) : Keeps (Unmoved i d key) (saveFailed j rc1 rc) :=
  Keeps.bind (unmoved_setCur hj _) fun _ => .pure _

/-- Another cursor is invalidated. -/
theorem unmoved_invalidateCursor {j : ℕ} (hj : j ≠ i) (tripCode : Rc) (writeOnly : Bool) (rc : Rc) :
    Keeps (Unmoved i d key) (invalidateCursor tripCode writeOnly j rc) := by
  refine Keeps.bind (.read _) fun _ => .ite (.ite ?_ ?_) (.pure _)
  · refine Keeps.bind (unmoved_lmdb (onKey_getCurrent _)) fun r => .ite (unmoved_saveFailed hj _ _) ?_
    refine Keeps.bind (unmoved_lmdb (onKey_answer _)) fun oom => .ite ?_ ?_
    · exact Keeps.bind (unmoved_setCur hj _) fun _ => unmoved_saveFailed hj _ _
    · refine Keeps.bind (unmoved_setCur hj _) fun _ => ?_
      refine Keeps.bind (unmoved_lmdb (onKey_cursorClose _)) fun _ => ?_
      exact Keeps.bind (unmoved_setCur hj _) fun _ => .pure _
  · exact Keeps.bind (unmoved_setCur hj _) fun _ => .pure _

/-- The cursor itself is invalidated. -/
theorem invalidateCursor_self (hd : w.curs i = d) (hcursor : d.cursor.isSome = true) (hsaved : d.savedKey = none)
    (hkey : OnKey d key w.env) (writeOnly : Bool) (rc : Rc) :
    Ensures (fun _ => True) (invalidateCursor sqliteOk writeOnly i rc) (fun _ w' => Invalidated i d key w') w := by
  rw [invalidateCursor, ensures_bind, ensures_getCur, hd]
  by_cases htrip : d.tripCode = sqliteOk
  · obtain ⟨h, hh⟩ := Option.isSome_iff_exists.mp hcursor
    have htripped : ∀ {e : Rc}, e ≠ 0 → errorMap e ≠ sqliteOk := fun he hok => he ((errorMap_eq_ok _).mp hok)
    rw [if_pos ⟨htrip, hcursor⟩, if_pos rfl, hh, ensures_bind, ensures_lmdb]
    cases hc : w.env.cursors h with
    | none =>
      rw [mdbCursorGet, ensures_bind, ensures_read]
      simp only [id_eq, hc, ensures_halt]
    | some c =>
      cases hv : w.env.cursorView c with
      | none =>
        rw [mdbCursorGet, ensures_bind, ensures_read]
        simp only [id_eq, hc, hv, ensures_halt]
      | some v =>
        obtain ⟨hinit, data, hentry⟩ := hkey h c v hh hc hv
        rw [documented.cursorGet hc hv]
        by_cases hans : (w.env.answers .cursorGet).headD 0 ≠ 0
        · rw [if_pos hans]
          refine Ensures.ite (fun _ => ?_) fun hzero => absurd hans hzero
          refine .inr ⟨?_, ?_⟩
          · simp only [Function.update_self, hd, hsaved]
          · simp only [Function.update_self]
            exact htripped hans
        · have hmove : (CursorOp.getCurrent.move ((v c.db).getD []) c.pos).2 = (0, key, data) := by
            simp only [CursorOp.move, moveCurrent, hinit, hentry, Bool.not_true, Bool.false_eq_true, if_false]
          rw [if_neg hans, hmove]
          refine Ensures.ite (fun hne => absurd rfl hne) fun _ => ?_
          rw [ensures_bind, ensures_lmdb, ensures_answer]
          refine Ensures.ite (fun _ => ?_) fun _ => ?_
          · refine .inr ⟨?_, ?_⟩
            · simp only [Function.update_self]
            · simp only [Function.update_self]
              exact htripped (by decide)
          · rw [ensures_bind, ensures_setCur, ensures_bind]
            refine (quiet_lmdb _ _).imp fun _ w₁ hquiet => ?_
            rw [ensures_bind, ensures_setCur, ensures_pure]
            refine .inl ?_
            simp only [Function.update_self, hquiet.1, hd, BtCursor.saved, htrip, ite_self]
  · rw [if_neg fun h => htrip h.1]
    exact .inr ⟨by rw [hd, hsaved], by rwa [hd]⟩

/-- A cursor that has ended stays so. -/
theorem Invalidated.invalidateCursor (h : Invalidated i d key w) (j : ℕ) (writeOnly : Bool) (rc : Rc) :
    Ensures (fun _ => True) (invalidateCursor sqliteOk writeOnly j rc) (fun _ w' => Invalidated i d key w') w := by
  by_cases hj : j = i
  · subst hj
    rw [Btree.invalidateCursor, ensures_bind, ensures_getCur, if_neg]
    · exact h
    · rintro ⟨htrip, hcursor⟩
      rcases h with h | h
      · rw [h] at hcursor
        cases hcursor
      · exact h.2 htrip
  · have hunmoved : Keeps (Unmoved i d key) (Btree.invalidateCursor sqliteOk writeOnly j rc) :=
      unmoved_invalidateCursor hj sqliteOk writeOnly rc
    refine (hunmoved w).imp fun _ w' hw' => ?_
    rw [Invalidated, hw'.1]
    exact h

theorem links_of_linksKept (h : LinksKept w w') : w'.links = w.links := funext h.next

theorem Invalidated.invalidateLoop (writeOnly : Bool) (fuel : ℕ) (o : Option ℕ) (rc : Rc) (w : World)
    (h : Invalidated i d key w) :
    Ensures (fun _ => True) (invalidateLoop sqliteOk writeOnly fuel o rc) (fun _ w' => Invalidated i d key w') w := by
  induction fuel generalizing o rc w with
  | zero =>
    cases o with
    | none => exact h
    | some j => trivial
  | succ fuel ih =>
    cases o with
    | none => exact h
    | some j =>
      rw [Btree.invalidateLoop, ensures_bind, ensures_getCur, ensures_bind]
      exact (h.invalidateCursor j writeOnly rc).imp fun rc₁ w₁ h₁ => ih _ rc₁ w₁ h₁

/-- The loop over the list, from any cursor on. -/
theorem invalidateLoop_settles (hcursor : d.cursor.isSome = true) (hsaved : d.savedKey = none) (writeOnly : Bool)
    (fuel : ℕ) (o : Option ℕ) (rc : Rc) (w : World) (hw : Tracked i d key o w) :
    Ensures (fun _ => True) (invalidateLoop sqliteOk writeOnly fuel o rc) (fun _ w' => Settled i d key o w') w := by
  induction fuel generalizing o rc w with
  | zero =>
    cases o with
    | none => exact hw.elim id fun h => .inr ⟨h.1, [], .nil, List.not_mem_nil⟩
    | some j => trivial
  | succ fuel ih =>
    cases o with
    | none => exact hw.elim id fun h => .inr ⟨h.1, [], .nil, List.not_mem_nil⟩
    | some j =>
      by_cases hended : Invalidated i d key w
      · exact (hended.invalidateLoop writeOnly _ _ rc w).imp fun _ _ h => .inl h
      rw [invalidateLoop, ensures_bind, ensures_getCur, ensures_bind]
      by_cases hj : j = i
      · subst hj
        -- the cursor is in the list, so its position can be saved
        have hhere : w.curs j = d ∧ OnKey d key w.env := by
          rcases hw with (h | ⟨-, l, hl, hi⟩) | h
          · exact absurd h hended
          · cases hl with
            | cons _ => exact absurd List.mem_cons_self hi
          · exact h
        refine (invalidateCursor_self hhere.1 hcursor hsaved hhere.2 writeOnly rc).imp fun rc₁ w₁ h₁ => ?_
        exact (h₁.invalidateLoop writeOnly fuel _ rc₁ w₁).imp fun _ _ h => .inl h
      · have hothers : Keeps (Unmoved i d key) (invalidateCursor sqliteOk writeOnly j rc) :=
          unmoved_invalidateCursor hj sqliteOk writeOnly rc
        refine ((hothers w).and
          (linksKept_invalidateCursor sqliteOk writeOnly j rc w)).imp fun rc₁ w₁ h₁ => ?_
        obtain ⟨hunmoved, hkept⟩ := h₁
        have htracked : Tracked i d key (w.links j) w₁ := by
          rcases hw with (h | ⟨hd, l, hl, hi⟩) | ⟨hd, hkey⟩
          · exact absurd h hended
          · cases hl with
            | @cons _ l hl =>
              rw [← links_of_linksKept hkept] at hl ⊢
              exact .inl (.inr ⟨hunmoved.1.trans hd, l, hl, fun h => hi (List.mem_cons_of_mem j h)⟩)
          · exact .inr ⟨hunmoved.1.trans hd, hunmoved.2 hkey⟩
        refine ((ih _ rc₁ w₁ htracked).keep ((built_invalidateLoop _ _ _ _ _ : Built (TxnPart False) _).keeps TxnPart.links)).imp fun _ w' hw' => ?_
        obtain ⟨h | ⟨hd, l, hl, hi⟩, hkept'⟩ := hw'
        · exact .inl h
        · refine .inr ⟨hd, j :: l, .cons ?_, ?_⟩
          · rw [links_of_linksKept hkept', links_of_linksKept hkept] at hl ⊢
            exact hl
          · simp [Ne.symm hj, hi]

/-- One pass over the cursors of the handle. -/
theorem invalidateCursors_settles (hcursor : d.cursor.isSome = true) (hsaved : d.savedKey = none)
    (writeOnly : Bool) (hw : Tracked i d key w.p.firstCursor w) :
    Ensures (fun _ => True) (invalidateCursors sqliteOk writeOnly)
      (fun _ w' => Settled i d key w'.p.firstCursor w') w := by
  refine ((?_ : Ensures (fun _ => True) (invalidateCursors sqliteOk writeOnly)
    (fun _ w' => Settled i d key w.p.firstCursor w') w).keep ((built_invalidateCursors _ _ : Built (TxnPart False) _).keeps TxnPart.links)).imp ?_
  · rw [invalidateCursors, ensures_bind, ensures_getP, ensures_bind, ensures_read]
    exact invalidateLoop_settles hcursor hsaved writeOnly _ _ 0 w hw
  · rintro _ w' ⟨h, hkept⟩
    rwa [hkept.first]

theorem Settled.quiet (h : Settled i d key w.p.firstCursor w) (hq : Quiet w w') :
    Settled i d key w'.p.firstCursor w' := by
  have hlinks : w'.links = w.links := by
    funext j
    rw [World.links, World.links, hq.1]
  rw [Settled, Invalidated, hlinks, hq.1, hq.2]
  exact h

/-- What is left of cursor `i`. -/
theorem Settled.eq_saved {o : Option ℕ} (h : Settled i d key o w) (hsaved : d.savedKey = none)
    (hkey : (w.curs i).savedKey.isSome = true) : w.curs i = d.saved key := by
  rcases h with (h | h) | h
  · exact h
  · rw [h.1] at hkey
    cases hkey
  · rw [h.1, hsaved] at hkey
    cases hkey

end Saving

section Events

variable {i : ℕ} {d : BtCursor} {key : Bytes} {w : World}

theorem closeLevel_settles (hcursor : d.cursor.isSome = true) (hsaved : d.savedKey = none)
    (hw : Tracked i d key w.p.firstCursor w) (s : BtreeSavepoint) (commit : Bool) (rc : Rc) :
    Ensures (fun _ => True) (closeLevel s commit sqliteOk rc)
      (fun _ w' => Settled i d key w'.p.firstCursor w') w := by
  rw [closeLevel, ensures_bind]
  refine (invalidateCursors_settles hcursor hsaved false hw).imp fun rc₁ w₁ h₁ => ?_
  refine Ensures.ite (fun _ => ?_) fun _ => ?_
  · exact (quiet_lmdb _ w₁).imp fun _ _ hq => h₁.quiet hq
  · exact (Keeps.bind (quiet_lmdb _) (fun _ => .pure _) w₁).imp fun _ _ hq => h₁.quiet hq

theorem closeLoop_tracks (hcursor : d.cursor.isSome = true) (hsaved : d.savedKey = none) (nTo : ℤ) (commit : Bool)
    (ls : List BtreeSavepoint) (rc : Rc) (w : World) (hw : Tracked i d key w.p.firstCursor w) :
    Ensures (fun _ => True) (closeLoop nTo commit sqliteOk ls rc)
      (fun _ w' => Tracked i d key w'.p.firstCursor w') w := by
  induction ls generalizing rc w with
  | nil => exact hw
  | cons s ls ih =>
    cases ls with
    | nil => exact hw
    | cons s' ls =>
      rw [closeLoop]
      refine Ensures.ite (fun _ => hw) fun _ => ?_
      rw [ensures_bind, ensures_setP, ensures_bind]
      refine (closeLevel_settles hcursor hsaved ?_ s commit rc).imp fun rc₁ w₁ h₁ => ih rc₁ w₁ (.inl h₁)
      exact hw

theorem savepoint_settles (hcursor : d.cursor.isSome = true) (hsaved : d.savedKey = none)
    (hw : Tracked i d key w.p.firstCursor w) (op : SavepointOp) (iSavepoint : ℤ) :
    Ensures (fun _ => True) (sqlite3BtreeSavepoint op iSavepoint)
      (fun _ w' => Tracked i d key w'.p.firstCursor w') w := by
  rw [sqlite3BtreeSavepoint, closeAllSavepoints, ensures_bind, ensures_bind, ensures_getP]
  refine (closeLoop_tracks hcursor hsaved _ _ _ 0 w hw).imp fun rc w₁ h₁ => ?_
  refine Ensures.ite (fun _ => h₁) fun _ => Ensures.ite (fun _ => h₁) fun _ => ?_
  rw [ensures_bind]
  refine (invalidateCursors_settles hcursor hsaved false h₁).imp fun _ w₂ h₂ => ?_
  have hend : Keeps Quiet (do
      let txn ← topTxn
      lmdb (mdbTxnAbort txn)
      setP fun p => { p with svp := p.svp.tail, inTrans := .none }
      pure sqliteOk : Call Rc) :=
    Keeps.bind keeps_topTxn fun txn => Keeps.bind (quiet_lmdb _) fun _ =>
      Keeps.bind (quiet_setP fun _ => rfl) fun _ => .pure _
  exact (hend w₂).imp fun _ _ hq => .inl (h₂.quiet hq)

theorem onKey_mdbGet (txn : ℕ) (db : DbName) (k : Bytes) :
    Keeps (fun e e' => OnKey d key e → OnKey d key e') (mdbGet txn db k) := by
  refine Keeps.bind (.read _) fun e => ?_
  cases e.kind txn with
  | none => exact .halt _
  | some kind =>
    dsimp only
    cases e.view txn with
    | none => exact .pure _
    | some v =>
      refine Keeps.bind (onKey_answer _) fun rc => .ite (.pure _) ?_
      cases v db with
      | none => exact .pure _
      | some es =>
        dsimp only
        cases SortedEntries.lookup (byteProbe k) es <;> exact .pure _

theorem unmoved_getMeta64 (idx : ℕ) : Keeps (Unmoved i d key) (getMeta64 idx) := by
  refine Keeps.bind (.read _) fun p => .ite (.pure _) ?_
  refine Keeps.bind keeps_topTxn fun txn => Keeps.bind (unmoved_lmdb (onKey_mdbGet _ _ _)) fun r => ?_
  exact .ite (.pure _) (Keeps.bind (.read _) fun fixedRowid => .pure _)

/-- The counter is read before the cursors are invalidated. -/
theorem upgradeOptimistic_settles (hcursor : d.cursor.isSome = true) (hsaved : d.savedKey = none)
    (hd : w.curs i = d) (hkey : OnKey d key w.env) :
    Ensures (fun _ => True) upgradeOptimistic (fun _ w' => Settled i d key w'.p.firstCursor w') w := by
  rw [upgradeOptimistic, ensures_bind]
  have hunmoved : Keeps (Unmoved i d key) (getMeta64 lumoLmdbMetaCounter) := unmoved_getMeta64 lumoLmdbMetaCounter
  refine (hunmoved w).imp fun uCounterRO w₁ h₁ => ?_
  rw [ensures_bind]
  refine (invalidateCursors_settles hcursor hsaved false (.inr ⟨h₁.1.trans hd, h₁.2 hkey⟩)).imp fun rc w₂ h₂ => ?_
  refine Ensures.ite (fun _ => h₂) fun _ => ?_
  have hend : Keeps Quiet (do
      setP fun p => { p with hasData := false }
      let txn ← topTxn
      lmdb (mdbTxnAbort txn)
      let r ← lmdb (mdbTxnBegin none false)
      if r.1 ≠ 0 then upgradeError r.1 else upgradeOpened uCounterRO r.2) :=
    Keeps.bind (quiet_setP fun _ => rfl) fun _ => Keeps.bind keeps_topTxn fun txn =>
      Keeps.bind (quiet_lmdb _) fun _ => Keeps.bind (quiet_lmdb _) fun r =>
        .ite (quiet_upgradeError _) (quiet_upgradeOpened _ _)
  exact (hend w₂).imp fun _ _ hq => h₂.quiet hq

/-- An event either saves the key of the cursor or leaves no saved position. -/
theorem SavingCall.saves (call : SavingCall) (hcursor : d.cursor.isSome = true) (hsaved : d.savedKey = none)
    (hd : w.curs i = d) (hkey : OnKey d key w.env) :
    Ensures (fun _ => True) call.run
      (fun _ w' => (w'.curs i).savedKey.isSome = true → w'.curs i = d.saved key) w := by
  have hquiet : ∀ {α : Type} {m : Call α}, Keeps Quiet m → Ensures (fun _ => True) m
      (fun _ w' => (w'.curs i).savedKey.isSome = true → w'.curs i = d.saved key) w := by
    intro α m hm
    refine (hm w).imp fun _ w' hq hsome => ?_
    rw [hq.1, hd, hsaved] at hsome
    cases hsome
  cases call with
  | savepoint op iSavepoint =>
    refine (savepoint_settles hcursor hsaved (.inr ⟨hd, hkey⟩) op iSavepoint).imp fun _ w' h hsome => ?_
    rcases h with h | ⟨hsame, -⟩
    · exact h.eq_saved hsaved hsome
    · rw [hsame, hsaved] at hsome
      cases hsome
  | upgrade pSchemaVersion =>
    have hversion := quiet_beginGetVersion pSchemaVersion
    have hrest : ∀ rc : Rc, Keeps Quiet
        (if rc ≠ sqliteOk then pure (rc, none) else beginGetVersion pSchemaVersion) :=
      fun rc => .ite (.pure _) hversion
    have hafter := fun {m : Call Rc} (hm : Keeps Quiet m) => (ensures_bind _ _ _).mp (hquiet (Keeps.bind hm hrest))
    rw [SavingCall.run, ensures_bind, sqlite3BtreeBeginTrans, ensures_bind, ensures_getP]
    refine Ensures.ite (fun _ => hquiet hversion) fun _ => Ensures.ite (fun _ => hquiet (.pure _)) fun _ => ?_
    refine Ensures.ite (fun _ => hquiet hversion) fun _ => ?_
    refine Ensures.ite (fun _ => ?_) fun _ => ?_
    · rw [ensures_bind, beginUpgrade, ensures_bind, ensures_getP]
      refine Ensures.ite (fun _ => hafter (.pure _)) fun _ => ?_
      refine Ensures.ite (fun _ => ?_) fun _ => ?_
      · refine (upgradeOptimistic_settles hcursor hsaved hd hkey).imp fun rc w₁ h₁ => ?_
        exact (hrest rc w₁).imp fun _ _ hq hsome => (h₁.quiet hq).eq_saved hsaved hsome
      · refine Ensures.ite (fun _ => ?_) fun _ => hafter (.pure _)
        exact hafter (Keeps.bind (quiet_setP fun _ => rfl) fun _ => .pure _)
    · rw [ensures_bind]
      exact hafter (quiet_beginNew _)

end Events

end LumoSql.Btree
