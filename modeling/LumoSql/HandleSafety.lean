import LumoSql.SoundCursors

/-! Handles that have been ended: which calls of LMDB are given one, and which calls on tables and cursors never are. -/
namespace LumoSql.StateLogic

variable {σ ε α β : Type} {E : ε → Prop} {s : σ}

/-- A computation stops with `E` only if its first part or what follows does. -/
theorem Ensures.then {m : Prog σ ε α} {f : α → Prog σ ε β} {Q : α → σ → Prop} {Q' : β → σ → Prop}
    (h : Ensures E m (fun _ _ => True) s) (hQ : Ensures (fun _ => True) m Q s)
    (hf : ∀ a s', Q a s' → Ensures E (f a) Q' s') : Ensures E (m >>= f) Q' s := by
  rw [ensures_bind]
  exact (h.with hQ).imp fun a s' h' => hf a s' h'.2

end LumoSql.StateLogic

namespace LumoSql.Lmdb
open StateLogic SortedEntries

/-- No call of LMDB is given a handle that has been ended. -/
def UsesLive {σ α : Type} (m : Prog σ Halt α) (s : σ) : Prop := Ensures (fun h => h ≠ .deadHandle) m (fun _ _ => True) s

section Calls

variable {e e' : Env} {t h : ℕ}

theorem usesLive_withView (hlive : e.Live t) {m : Contents → Mdb (Rc × Bytes)} (hm : ∀ c, UsesLive (m c) e) :
    UsesLive (withView t m) e := by
  rw [UsesLive, withView, ensures_bind, ensures_read, id_eq]
  cases hkind : e.kind t with
  | none => exact absurd hkind hlive
  | some k =>
    dsimp only
    cases e.view t with
    | none => trivial
    | some c => exact hm c

theorem usesLive_get (hlive : e.Live t) (db : DbName) (key : Bytes) : UsesLive (mdbGet t db key) e := by
  refine usesLive_withView hlive fun c => ?_
  rw [UsesLive, ensures_bind, ensures_answer]
  refine .ite (fun _ => trivial) fun _ => ?_
  cases c db with
  | none => trivial
  | some es =>
    dsimp only
    cases lookup (byteProbe key) es <;> trivial

theorem usesLive_dbiOpen (hlive : e.Live t) (db : DbName) (create : Bool) : UsesLive (mdbDbiOpen t db create) e := by
  rw [UsesLive, mdbDbiOpen, ensures_bind]
  refine usesLive_withView hlive fun c => ?_
  rw [UsesLive, ensures_bind, ensures_answer]
  refine .ite (fun _ => trivial) fun _ => .ite (fun _ => trivial) fun _ => .ite (fun _ => trivial) fun _ => ?_
  rw [ensures_bind, ensures_read]
  exact .ite (fun _ => trivial) fun _ => trivial

theorem usesLive_put (hlive : e.Live t) (db : DbName) (key val : Bytes) : UsesLive (mdbPut t db key val) e := by
  rw [UsesLive, mdbPut, ensures_bind]
  refine usesLive_withView hlive fun c => ?_
  rw [UsesLive, ensures_bind, ensures_read]
  refine .ite (fun _ => trivial) fun _ => ?_
  rw [ensures_bind, ensures_answer]
  refine .ite (fun _ => trivial) fun _ => ?_
  cases c db <;> trivial

theorem usesLive_drop (hlive : e.Live t) (db : DbName) (del : Bool) : UsesLive (mdbDrop t db del) e := by
  rw [UsesLive, mdbDrop, ensures_bind]
  refine usesLive_withView hlive fun c => ?_
  rw [UsesLive, ensures_bind, ensures_read]
  refine .ite (fun _ => trivial) fun _ => ?_
  rw [ensures_bind, ensures_answer]
  exact .ite (fun _ => trivial) fun _ => .ite (fun _ => trivial) fun _ => trivial

theorem usesLive_stat (hlive : e.Live t) (db : DbName) : UsesLive (mdbStat t db) e := by
  rw [UsesLive, mdbStat, ensures_bind, ensures_read, id_eq]
  cases hkind : e.kind t with
  | none => exact absurd hkind hlive
  | some k =>
    dsimp only
    cases e.view t with
    | none => trivial
    | some c =>
      dsimp only
      rw [ensures_bind, ensures_answer]
      refine .ite (fun _ => trivial) fun _ => ?_
      cases c db <;> trivial

/-- The new cursor is alive. -/
theorem cursorOpen_present (hlive : e.Live t) (db : DbName) : Ensures (fun h => h ≠ .deadHandle) (mdbCursorOpen t db)
    (fun r e' => r.1 = 0 → e'.cursors r.2 ≠ none) e := by
  rw [mdbCursorOpen, ensures_bind, ensures_read, id_eq]
  cases hkind : e.kind t with
  | none => exact absurd hkind hlive
  | some k =>
    dsimp only
    cases e.view t with
    | none => exact fun h => absurd h (by decide)
    | some c =>
      dsimp only
      rw [ensures_bind, ensures_answer]
      refine .ite (fun hrc h => absurd h hrc) fun _ => .ite (fun _ h => absurd h (by decide)) fun _ => ?_
      rw [ensures_bind, ensures_modify, ensures_pure]
      simp

/-- The cursor stays alive. -/
theorem cursorGet_present {o : Option ℕ} (ho : ∀ h ∈ o, e.cursors h ≠ none) (op : CursorOp) :
    Ensures (fun h => h ≠ .deadHandle) (mdbCursorGet o op) (fun _ e' => ∀ h ∈ o, e'.cursors h ≠ none) e := by
  cases o with
  | none => exact ho
  | some h =>
    rw [mdbCursorGet, ensures_bind, ensures_read, id_eq]
    cases hc : e.cursors h with
    | none => exact absurd hc (ho h rfl)
    | some c =>
      dsimp only
      cases e.cursorView c with
      | none => exact (by decide : Halt.undefined ≠ .deadHandle)
      | some v =>
        dsimp only
        rw [ensures_bind, ensures_answer]
        refine .ite (fun _ => ho) fun _ => ?_
        rw [ensures_bind, ensures_modify, ensures_pure]
        rintro h' ⟨⟩
        simp [Env.setCursor]

theorem usesLive_cursorGet {o : Option ℕ} (ho : ∀ h ∈ o, e.cursors h ≠ none) (op : CursorOp) :
    UsesLive (mdbCursorGet o op) e := (cursorGet_present ho op).imp fun _ _ _ => trivial

theorem usesLive_cursorPut {o : Option ℕ} (ho : ∀ h ∈ o, e.cursors h ≠ none) (probe : Bytes → Ordering) (key val : Bytes) :
    UsesLive (mdbCursorPut o probe key val) e := by
  cases o with
  | none => trivial
  | some h =>
    rw [UsesLive, mdbCursorPut, ensures_bind, ensures_read, id_eq]
    cases hc : e.cursors h with
    | none => exact absurd hc (ho h rfl)
    | some c =>
      refine .ite (fun _ => trivial) fun _ => ?_
      cases e.cursorView c with
      | none => exact (by decide : Halt.undefined ≠ .deadHandle)
      | some v =>
        dsimp only
        rw [ensures_bind, ensures_answer]
        exact .ite (fun _ => trivial) fun _ => .ite (fun _ => trivial) fun _ => trivial

theorem usesLive_cursorDel {o : Option ℕ} (ho : ∀ h ∈ o, e.cursors h ≠ none) : UsesLive (mdbCursorDel o) e := by
  cases o with
  | none => exact (by decide : Halt.nullPointer ≠ .deadHandle)
  | some h =>
    rw [UsesLive, mdbCursorDel, ensures_bind, ensures_read, id_eq]
    cases hc : e.cursors h with
    | none => exact absurd hc (ho h rfl)
    | some c =>
      refine .ite (fun _ => trivial) fun _ => ?_
      cases e.cursorView c with
      | none => exact (by decide : Halt.undefined ≠ .deadHandle)
      | some v =>
        dsimp only
        rw [ensures_bind, ensures_answer]
        exact .ite (fun _ => trivial) fun _ => .ite (fun _ => trivial) fun _ => .ite (fun _ => trivial) fun _ => trivial

theorem usesLive_cursorClose {o : Option ℕ} (ho : ∀ h ∈ o, e.cursors h ≠ none) : UsesLive (mdbCursorClose o) e := by
  cases o with
  | none => trivial
  | some h =>
    rw [UsesLive, mdbCursorClose, ensures_bind, ensures_read, id_eq]
    cases hc : e.cursors h with
    | none => exact absurd hc (ho h rfl)
    | some c => trivial

theorem usesLive_txnBegin {parent : Option ℕ} (hlive : ∀ t ∈ parent, e.Live t) (rdonly : Bool) :
    UsesLive (mdbTxnBegin parent rdonly) e := by
  rw [UsesLive, mdbTxnBegin, ensures_bind, ensures_read, id_eq]
  cases parent with
  | none =>
    refine .ite (fun _ => trivial) fun _ => ?_
    rw [ensures_bind, ensures_answer]
    refine .ite (fun _ => trivial) fun _ => .ite (fun _ => trivial) fun _ => ?_
    exact .ite (fun _ => (by decide : Halt.blocked ≠ .deadHandle)) fun _ => trivial
  | some t =>
    dsimp only
    cases hkind : e.kind t with
    | none => exact absurd hkind (hlive t rfl)
    | some k =>
      cases k with
      | readOnly => trivial
      | readWrite =>
        dsimp only
        cases e.view t with
        | none => trivial
        | some view =>
          refine .ite (fun _ => trivial) fun _ => ?_
          rw [ensures_bind, ensures_answer]
          exact .ite (fun _ => trivial) fun _ => trivial

theorem usesLive_txnAbort (hlive : e.Live t) : UsesLive (mdbTxnAbort t) e := by
  rw [UsesLive, mdbTxnAbort, ensures_bind, ensures_read, id_eq]
  cases hkind : e.kind t with
  | none => exact absurd hkind hlive
  | some k => cases k <;> trivial

theorem usesLive_txnCommit (hlive : e.Live t) : UsesLive (mdbTxnCommit t) e := by
  rw [UsesLive, mdbTxnCommit, ensures_bind, ensures_read, id_eq]
  cases hkind : e.kind t with
  | none => exact absurd hkind hlive
  | some k =>
    cases k with
    | readOnly => trivial
    | readWrite =>
      dsimp only
      rw [ensures_bind, ensures_answer]
      exact .ite (fun _ => trivial) fun _ => trivial

/-- A cursor is ended when it is closed or when a transaction for writing ends. -/
theorem Env.Change.present {closes : ℕ → Prop} {reads : Prop} (hc : e.Change closes reads e')
    (hids : e.writers.map WriteTxn.id ⊆ e'.writers.map WriteTxn.id) (hh : ¬ closes h) (hp : e.cursors h ≠ none) :
    e'.cursors h ≠ none := by
  obtain ⟨c, hcur⟩ := Option.ne_none_iff_exists'.mp hp
  cases hc with
  | same | setView | beginReader | beginWriter | beginNested | endReader => exact hp
  | drop => exact adjust_present hp
  | move => exact update_present hp
  | write => exact update_present (adjust_present hp)
  | cursorOpen => exact update_present hp
  | @cursorClose h' hh' =>
    have hne : h ≠ h' := by
      rintro rfl
      exact hh hh'
    exact (Function.update_of_ne hne _ _).trans_ne hp
  | abort t => exact survivors_present hcur fun hmem => hids hmem
  | commit t =>
    rw [commit_ids] at hids
    have hsurvives : e.survivors (e.outer t) (fun _ => none) h ≠ none := survivors_present hcur fun hmem => hids hmem
    rw [Env.commit]
    cases e.writers with
    | nil => exact hp
    | cons u us => exact hsurvives
  | close hall => exact absurd (hall h) hh

theorem Env.Step.present {closes : ℕ → Prop} {reads : Prop} (hs : e.Step closes reads e')
    (hids : e.writers.map WriteTxn.id ⊆ e'.writers.map WriteTxn.id) (hh : ¬ closes h) (hp : e.cursors h ≠ none) :
    e'.cursors h ≠ none := by
  obtain ⟨codes, -, hc⟩ := hs
  exact hc.present hids hh hp

end Calls

end LumoSql.Lmdb

namespace LumoSql.Btree
open StateLogic Lmdb RowidEncoding

/-- Cursor `i` has kept an LMDB cursor that has been ended. -/
def Dangling (w : World) (i : ℕ) : Prop := ∃ h, (w.curs i).cursor = some h ∧ w.env.cursors h = none

/-- What a commit that failed leaves: its transaction, which has been ended, is on the stack still. -/
def World.Spent (w : World) : Prop := w.p.svp ≠ [] ∧ w.p.inTrans = .none

/-- Restoring cursor `i` meets no handle that has been ended: the cursor is tripped, or it has not kept one, and its
table can be opened if its position was saved. -/
def Restorable (w : World) (i : ℕ) : Prop :=
  (w.curs i).tripCode = sqliteOk → ¬ Dangling w i ∧ ((w.curs i).savedKey ≠ none → ¬ w.Spent)

/-- The transaction on top has not been ended. -/
def StackLive (w : World) : Prop := ∀ s rest, w.p.svp = s :: rest → w.env.Live s.txn

section Stack

variable {w w' : World} {i : ℕ}

theorem not_dangling (hi : ¬ Dangling w i) : ∀ h ∈ (w.curs i).cursor, w.env.cursors h ≠ none :=
  fun h hcursor hended => hi ⟨h, hcursor, hended⟩

theorem TablesOnly.stackLive (h : TablesOnly w w') (hw : StackLive w) : StackLive w' := by
  intro s rest hsvp
  rw [h.p] at hsvp
  exact (h.live s.txn).mpr (hw s rest hsvp)

/-- The stack does not depend on the cursors. -/
theorem StackLive.curs (hw : StackLive w) (curs : ℕ → BtCursor) : StackLive { w with curs := curs } := hw

theorem TablesOnly.spent (h : TablesOnly w w') : w'.Spent ↔ w.Spent := by
  rw [World.Spent, World.Spent, h.p]

theorem usesLive_lmdb {α : Type} {m : Mdb α} (h : UsesLive m w.env) : UsesLive (lmdb m) w :=
  (ensures_lmdb m _).mpr h

theorem usesLive_topTxn {α : Type} {f : ℕ → Call α} (hw : StackLive w) {Q : α → World → Prop}
    (hf : ∀ t, w.env.Live t → Ensures (fun h => h ≠ .deadHandle) (f t) Q w) :
    Ensures (fun h => h ≠ .deadHandle) (topTxn >>= f) Q w := by
  rw [topTxn, ensures_bind, ensures_bind, ensures_getP]
  cases hsvp : w.p.svp with
  | nil => exact (by decide : Halt.nullPointer ≠ .deadHandle)
  | cons s rest => exact hf s.txn (hw s rest hsvp)

theorem usesLive_getTable {iTable : ℕ} (hw : 1 ≤ iTable → StackLive w) (create : Bool) :
    UsesLive (getTable iTable create) w := by
  rw [UsesLive, getTable, ensures_bind, ensures_getP]
  refine .ite (fun _ => trivial) fun hroot => ?_
  cases hsvp : w.p.svp with
  | nil => trivial
  | cons s rest => exact usesLive_lmdb (usesLive_dbiOpen (hw (Nat.not_lt.mp hroot) s rest hsvp) _ create)

theorem usesLive_getMeta32 (hw : w.p.hasData = true → StackLive w) (idx : ℕ) : UsesLive (getMeta32 idx) w := by
  rw [UsesLive, getMeta32, ensures_bind, ensures_getP]
  refine .ite (fun _ => trivial) fun hdata => usesLive_topTxn (hw (by simpa using hdata)) fun t hlive => ?_
  rw [getMeta32Direct, ensures_bind]
  exact (usesLive_lmdb (usesLive_get hlive _ _)).imp fun r w' _ =>
    .ite (fun _ => trivial) fun _ => .ite (fun _ => trivial) fun _ => trivial

theorem usesLive_getMeta64 (hw : w.p.hasData = true → StackLive w) (idx : ℕ) : UsesLive (getMeta64 idx) w := by
  rw [UsesLive, getMeta64, ensures_bind, ensures_getP]
  refine .ite (fun _ => trivial) fun hdata => usesLive_topTxn (hw (by simpa using hdata)) fun t hlive => ?_
  rw [ensures_bind]
  exact (usesLive_lmdb (usesLive_get hlive _ _)).imp fun r w' _ => .ite (fun _ => trivial) fun _ => trivial

theorem usesLive_putMeta32 (hw : w.p.hasData = true → StackLive w) (idx iValue : ℕ) : UsesLive (putMeta32 idx iValue) w := by
  rw [UsesLive, putMeta32, ensures_bind, ensures_getP]
  refine .ite (fun _ => trivial) fun hdata => usesLive_topTxn (hw (by simpa using hdata)) fun t hlive => ?_
  exact usesLive_lmdb (usesLive_put hlive _ _ _)

theorem usesLive_putMeta64 (hw : w.p.hasData = true → StackLive w) (idx uValue : ℕ) : UsesLive (putMeta64 idx uValue) w := by
  rw [UsesLive, putMeta64, ensures_bind, ensures_getP]
  refine .ite (fun _ => trivial) fun hdata => usesLive_topTxn (hw (by simpa using hdata)) fun t hlive => ?_
  rw [ensures_bind, ensures_build]
  exact usesLive_lmdb (usesLive_put hlive _ _ _)

end Stack

section Restoring

variable {w w' : World} {i j : ℕ}

/-- Cursor `i` can be used. -/
structure InUse (w : World) (i : ℕ) : Prop where
  live : ¬ Dangling w i
  unsaved : (w.curs i).savedKey = none

theorem reopenCursor_live (hfree : MetaFree w.env) (hw : StackLive w) (c : BtCursor) (savedKey : Bytes) (reposition : Bool) :
    Ensures (fun h => h ≠ .deadHandle) (reopenCursor i c savedKey reposition)
      (fun rc w' => rc = sqliteOk → InUse w' i) w := by
  have hfail : ∀ {rc : Rc} {w : World}, rc ≠ 0 → Ensures (fun h : Halt => h ≠ .deadHandle) (pure (errorMap rc))
      (fun rc w' => rc = sqliteOk → InUse w' i) w :=
    fun hrc hok => absurd ((errorMap_eq_ok _).mp hok) hrc
  have htable : Keeps DataFrame (getTable c.rootPage false) := dataKeeps_built
    (built_getTable (fun h => .move (.lmdb (.table h))) _ (absurd · Bool.false_ne_true) : Built (DataPart True) _)
  refine (usesLive_getTable (fun _ => hw) false).then (htable w) fun rc w₁ h₁ => ?_
  have hw₁ := (h₁ hfree).stackLive hw
  refine .ite hfail fun _ => ?_
  rw [ensures_bind, ensures_setCur]
  refine usesLive_topTxn (hw₁.curs _) fun t hlive => ?_
  rw [ensures_bind, ensures_lmdb]
  refine (cursorOpen_present hlive _).imp fun r e hpresent => .ite hfail fun hrc => ?_
  have hr : ∀ h ∈ some r.2, e.cursors h ≠ none := by
    rintro h ⟨⟩
    exact hpresent (not_not.mp hrc)
  rw [ensures_bind, ensures_setCur]
  -- the end, wherever the LMDB cursor stands
  have hend : ∀ (rc : Rc) (w₂ : World), (w₂.curs i).cursor = some r.2 → w₂.env.cursors r.2 ≠ none →
      Ensures (fun h => h ≠ .deadHandle) (if rc ≠ 0 then pure (errorMap rc) else do
        setCur i fun d => { d with savedKey := none }
        pure sqliteOk) (fun rc w' => rc = sqliteOk → InUse w' i) w₂ := by
    intro rc w₂ hcursor he
    refine .ite hfail fun _ => ?_
    rw [ensures_bind, ensures_setCur]
    refine fun _ => ⟨?_, by simp⟩
    rintro ⟨h, hh, hnone⟩
    dsimp only at hh
    rw [Function.update_self, hcursor] at hh
    rw [← Option.some.inj hh] at hnone
    exact he hnone
  cases reposition with
  | false =>
    rw [if_neg Bool.false_ne_true, ensures_bind, ensures_pure]
    refine hend 0 _ ?_ (hpresent (not_not.mp hrc))
    simp
  | true =>
    rw [if_pos rfl, repositionCursor, ensures_bind, ensures_bind, ensures_build, ensures_bind, ensures_read]
    refine .ite (fun _ => (by decide : Halt.undefined ≠ .deadHandle)) fun _ => ?_
    rw [ensures_bind, ensures_lmdb]
    refine (cursorGet_present hr _).imp fun g e' hr' => hend g.1 _ ?_ (hr' r.2 rfl)
    simp

/-- A cursor that is restored was not tripped, and it has an LMDB cursor that has not been ended, or none. -/
theorem restoreCursor_live (hfree : MetaFree w.env) (hw : ¬ w.Spent → StackLive w) (hi : Restorable w i)
    (reposition : Bool) : Ensures (fun h => h ≠ .deadHandle) (restoreCursor i reposition)
      (fun rc w' => rc = sqliteOk → (w.curs i).tripCode = sqliteOk ∧ InUse w' i) w := by
  rw [restoreCursor, ensures_bind, ensures_getCur]
  refine .ite (fun htrip hok => absurd hok htrip) fun htrip => ?_
  obtain ⟨hcursor, hstack⟩ := hi (not_not.mp htrip)
  cases hsaved : (w.curs i).savedKey with
  | none => exact fun _ => ⟨not_not.mp htrip, hcursor, hsaved⟩
  | some savedKey =>
    have hlive := hw (hstack (by rw [hsaved]; exact Option.some_ne_none _))
    have hrest : ∀ w₁ : World, MetaFree w₁.env → StackLive w₁ → Ensures (fun h => h ≠ .deadHandle) (do
        setCur i fun c => { c with cursor := none }
        if !(w.curs i).pBtree then Prog.halt .nullPointer else reopenCursor i (w.curs i) savedKey reposition)
        (fun rc w' => rc = sqliteOk → (w.curs i).tripCode = sqliteOk ∧ InUse w' i) w₁ := by
      intro w₁ hfree₁ hlive₁
      rw [ensures_bind, ensures_setCur]
      refine .ite (fun _ => (by decide : Halt.nullPointer ≠ .deadHandle)) fun _ => ?_
      refine (reopenCursor_live ?_ (hlive₁.curs _) _ _ _).imp fun _ _ h hok => ⟨not_not.mp htrip, h hok⟩
      exact hfree₁
    refine .ite (fun _ => ?_) fun _ => hrest w hfree hlive
    have hkeeps : Keeps DataFrame (lmdb (mdbCursorClose (w.curs i).cursor)) := dataKeeps_lmdb (.cursorClose _ : DataOp True _)
    refine (usesLive_lmdb (usesLive_cursorClose (not_dangling hcursor))).then (hkeeps w) fun _ w₁ h₁ => ?_
    exact hrest w₁ (h₁ hfree).env.metaFree ((h₁ hfree).stackLive hlive)

/-- Only cursor `i` is set, and only its own LMDB cursor may be ended. -/
structure Beside (i : ℕ) (w w' : World) : Prop where
  tables : TablesOnly w w'
  handles : Handles w'
  others : ∀ j, j ≠ i → w'.curs j = w.curs j
  own : ∀ h, (w'.curs i).cursor = some h → (w.curs i).cursor = some h ∨ w.env.next ≤ h
  present : ∀ h < w.env.next, (w.curs i).cursor ≠ some h → w.env.cursors h ≠ none → w'.env.cursors h ≠ none

def BesideFrame (i : ℕ) (w w' : World) : Prop := MetaFree w.env → Handles w → Beside i w w'

instance (i : ℕ) : Frame (BesideFrame i) where
  refl _ hfree hw := ⟨.refl hfree, hw, fun _ _ => rfl, fun _ => .inl, fun _ _ _ hp => hp⟩
  trans {w w₁ w₂} h h' hfree hw := by
    have h₁ := h hfree hw
    have h₂ := h' h₁.tables.env.metaFree h₁.handles
    have hnext := h₁.tables.env.next
    refine ⟨h₁.tables.trans h₂.tables, h₂.handles, fun j hj => (h₂.others j hj).trans (h₁.others j hj), fun n hn => ?_,
      fun n hlt hown hp => ?_⟩
    · rcases h₂.own n hn with hn | hle
      · exact h₁.own n hn
      · exact .inr (hnext.trans hle)
    · refine h₂.present n (hlt.trans_le hnext) (fun hn => ?_) (h₁.present n hlt hown hp)
      rcases h₁.own n hn with hn | hle
      · exact hown hn
      · omega

theorem beside_lmdb {closes : ℕ → Prop} {reads : Prop} {α : Type} {m : Mdb α} (h : DataOp True m) (hs : Steps closes reads m)
    (w : World) (hcloses : ∀ n, closes n → (w.curs i).cursor = some n) :
    Ensures (fun _ => True) (lmdb m) (fun _ w' => BesideFrame i w w') w := by
  rw [ensures_lmdb]
  refine ((hs w.env).and (h.keeps w.env)).imp fun _ e h hfree hw => ?_
  obtain ⟨hstep, hkeeps⟩ := h
  have htables := hkeeps hfree
  refine ⟨⟨rfl, rfl, htables⟩, hw.env hstep, fun _ _ => rfl, fun _ => .inl, fun n _ hown hp => ?_⟩
  refine hstep.present ?_ (fun hc => hown (hcloses n hc)) hp
  rw [htables.writers.ids]
  exact List.Subset.refl _

theorem beside_setCur {f : BtCursor → BtCursor} (hf : ∀ c, Moved c (f c)) : Keeps (BesideFrame i) (setCur i f) := by
  refine .modify fun w hfree hw => ⟨⟨rfl, rfl, .refl hfree⟩, hw.setCur (hf _).cursor, fun j hj => Function.update_of_ne hj _ _,
    fun n hn => ?_, fun _ _ _ hp => hp⟩
  dsimp only at hn
  rw [Function.update_self] at hn
  rcases (hf (w.curs i)).cursor with hsame | hnone
  · exact .inl (hsame.symm.trans hn)
  · rw [hnone] at hn
    cases hn

theorem beside_openInto (t iTable : ℕ) (f : BtCursor → BtCursor) : Keeps (BesideFrame i) (openInto i t iTable f) := by
  intro w
  have hopened : Ensures (fun _ => True) (openInto i t iTable f)
      (fun _ w' => MetaFree w.env → Handles w → Handles w' → Beside i w w') w := by
    rw [openInto, ensures_bind, ensures_lmdb]
    have hkeeps := (DataOp.cursorOpen t iTable : DataOp True _).keeps w.env
    refine ((mdbCursorOpen_number t iTable w.env).and hkeeps).imp fun r e h => ?_
    obtain ⟨⟨hstep, hnumber⟩, hkeeps⟩ := h
    have hpresent : MetaFree w.env → ∀ n, w.env.cursors n ≠ none → e.cursors n ≠ none := fun hfree n hp => by
      refine hstep.present ?_ id hp
      rw [(hkeeps hfree).writers.ids]
      exact List.Subset.refl _
    refine .ite (fun _ hfree hw hw' => ?_) fun hrc => ?_
    · exact ⟨⟨rfl, rfl, hkeeps hfree⟩, hw', fun _ _ => rfl, fun _ => .inl, fun n _ _ hp => hpresent hfree n hp⟩
    · rw [ensures_bind, ensures_setCur, ensures_pure]
      refine fun hfree hw hw' => ⟨⟨rfl, rfl, hkeeps hfree⟩, hw', fun j hj => Function.update_of_ne hj _ _, fun n hn => ?_,
        fun n _ _ hp => hpresent hfree n hp⟩
      dsimp only at hn
      rw [Function.update_self] at hn
      exact .inr ((hnumber (not_not.mp hrc)).number.ge.trans_eq (Option.some.inj hn))
  exact (hopened.and (handles_openInto i t iTable f w)).imp fun _ w' h hfree hw => h.1 hfree hw (h.2.handles hw)

theorem ReopenPart.beside {α : Type} {m : Call α} (h : ReopenPart True i α m) : Keeps (BesideFrame i) m := by
  cases h with
  | lmdb h => exact fun w => beside_lmdb (.table h) (h.steps : Steps (fun _ => False) False _) w fun _ => False.elim
  | setCur f hf => exact beside_setCur hf
  | openInto t iTable f hf => exact beside_openInto t iTable f

theorem restoreCursor_beside (i : ℕ) (reposition : Bool) : Keeps (BesideFrame i) (restoreCursor i reposition) := by
  intro w
  rw [restoreCursor, ensures_bind, ensures_getCur]
  generalize hc : w.curs i = c
  refine .ite (fun _ => Frame.refl (R := BesideFrame i) w) fun _ => ?_
  cases c.savedKey with
  | none => exact Frame.refl (R := BesideFrame i) w
  | some savedKey =>
    have hrest : Keeps (BesideFrame i) (do
        setCur i fun c => { c with cursor := none }
        if !c.pBtree then Prog.halt .nullPointer else reopenCursor i c savedKey reposition) :=
      Keeps.bind (beside_setCur fun _ => ⟨rfl, .inr rfl⟩) fun _ => .ite (.halt _)
        ((built_reopenCursor i c savedKey reposition).keeps ReopenPart.beside)
    refine .ite (fun _ => ?_) fun _ => hrest w
    have hsteps : Steps (fun n => c.cursor = some n) False (mdbCursorClose c.cursor) := steps_cursorClose fun _ h => h
    rw [ensures_bind]
    refine (beside_lmdb (.cursorClose c.cursor) hsteps w fun n hn => ?_).imp fun _ w₁ h₁ => (hrest w₁).imp fun _ w₂ h₂ =>
      Frame.trans (R := BesideFrame i) h₁ h₂
    rw [hc]
    exact hn

theorem Beside.not_dangling (h : Beside i w w') (hw : Handles w) (hj : j ≠ i) (hlive : ¬ Dangling w j) : ¬ Dangling w' j := by
  rintro ⟨n, hn, hnone⟩
  rw [h.others j hj] at hn
  refine h.present n (hw.below j n hn) (fun hown => hj (hw.apart j i n hn hown)) ?_ hnone
  exact Btree.not_dangling hlive n hn

theorem Beside.restorable (h : Beside i w w') (hw : Handles w) (hj : j ≠ i) (hr : Restorable w j) : Restorable w' j := by
  rw [Restorable, h.others j hj, h.tables.spent]
  intro htrip
  obtain ⟨hlive, hstack⟩ := hr htrip
  exact ⟨h.not_dangling hw hj hlive, hstack⟩

end Restoring

/-- What calls on open cursors rely on. -/
structure Tended (w : World) : Prop where
  metaFree : MetaFree w.env
  handles : Handles w
  stack : ¬ w.Spent → StackLive w

section Using

variable {w w' : World} {i : ℕ} {α : Type}

theorem Beside.tended (h : Beside i w w') (hw : Tended w) : Tended w' := by
  refine ⟨h.tables.env.metaFree, h.handles, fun hspent => h.tables.stackLive (hw.stack ?_)⟩
  rwa [← h.tables.spent]

theorem Tended.restore (hw : Tended w) (hi : Restorable w i) (reposition : Bool) {k : Rc → Call α}
    (hk : ∀ rc w', Beside i w w' → (rc = sqliteOk → (w.curs i).tripCode = sqliteOk ∧ InUse w' i) → UsesLive (k rc) w') :
    UsesLive (restoreCursor i reposition >>= k) w := by
  rw [UsesLive, ensures_bind]
  have hlive := (restoreCursor_live hw.metaFree hw.stack hi reposition).with (restoreCursor_beside i reposition w)
  exact hlive.imp fun rc w' h => hk rc w' (h.2 hw.metaFree hw.handles) h.1

theorem Tended.cursorMove (hw : Tended w) (hi : Restorable w i) (op : CursorOp) (reposition : Bool) :
    UsesLive (cursorMove i op reposition) w := by
  refine hw.restore hi reposition fun rc w' _ hlive => .ite (fun _ => trivial) fun hrc => ?_
  rw [ensures_bind, ensures_getCur, ensures_bind]
  have hget := usesLive_lmdb (usesLive_cursorGet (not_dangling (hlive (not_not.mp hrc)).2.live) op)
  exact hget.imp fun g w₁ _ => .ite (fun _ => trivial) fun _ => .ite (fun _ => trivial) fun _ => trivial

theorem Tended.cursorStep (hw : Tended w) (hi : Restorable w i) (op : CursorOp) : UsesLive (cursorStep i op) w := by
  rw [UsesLive, Btree.cursorStep, ensures_bind]
  exact (hw.cursorMove hi op true).imp fun r w' _ => .ite (fun _ => trivial) fun _ => trivial

/-- Two moves by the same LMDB cursor. -/
theorem usesLive_seek {o : Option ℕ} (ho : ∀ h ∈ o, w.env.cursors h ≠ none) (op : CursorOp) (found : Rc × Bytes × Bytes → Rc × ℤ) :
    UsesLive (do
      let g ← lmdb (mdbCursorGet o op)
      if g.1 = 0 then pure (found g)
      else if g.1 ≠ mdbNotfound then pure (errorMap g.1, 0)
      else do
        let _ ← lmdb (mdbCursorGet o .first)
        pure (sqliteOk, -1)) w := by
  rw [UsesLive, ensures_bind, ensures_lmdb]
  refine (cursorGet_present ho op).imp fun g e he => .ite (fun _ => trivial) fun _ => .ite (fun _ => trivial) fun _ => ?_
  rw [ensures_bind, ensures_lmdb]
  exact (usesLive_cursorGet he .first).imp fun _ _ _ => trivial

theorem Tended.tableMoveto (hw : Tended w) (hi : Restorable w i) (intKey : ℤ) :
    UsesLive (sqlite3BtreeTableMoveto i intKey) w := by
  refine hw.restore hi false fun rc w' _ hlive => .ite (fun _ => trivial) fun hrc => ?_
  rw [ensures_bind, ensures_setCur, ensures_bind, ensures_getCur, ensures_bind, ensures_build]
  refine usesLive_seek ?_ _ _
  simpa using not_dangling (hlive (not_not.mp hrc)).2.live

theorem Tended.indexMoveto (hw : Tended w) (hi : Restorable w i) (idxKey : Bytes → Ordering) :
    UsesLive (sqlite3BtreeIndexMoveto i idxKey) w := by
  refine hw.restore hi false fun rc w' _ hlive => .ite (fun _ => trivial) fun hrc => ?_
  rw [ensures_bind, ensures_setCur, ensures_bind, ensures_getCur]
  refine usesLive_seek ?_ _ _
  simpa using not_dangling (hlive (not_not.mp hrc)).2.live

theorem Tended.delete (hw : Tended w) (hi : Restorable w i) : UsesLive (sqlite3BtreeDelete i) w := by
  refine hw.restore hi true fun rc w' _ hlive => .ite (fun _ => trivial) fun hrc => ?_
  rw [ensures_bind, ensures_getCur, ensures_bind]
  exact (usesLive_lmdb (usesLive_cursorDel (not_dangling (hlive (not_not.mp hrc)).2.live))).imp fun _ _ _ => trivial

theorem usesLive_put_cursor (hi : ¬ Dangling w i) (probe : Bytes → Ordering) (key val : Bytes) :
    UsesLive (do
      let rc ← lmdb (mdbCursorPut (w.curs i).cursor probe key val)
      pure (errorMap rc)) w := by
  rw [UsesLive, ensures_bind]
  exact (usesLive_lmdb (usesLive_cursorPut (not_dangling hi) probe key val)).imp fun _ _ _ => trivial

theorem usesLive_insertRow (hi : ¬ Dangling w i) (nKey : ℤ) (data : Bytes) : UsesLive (insertRow i nKey data) w := by
  rw [UsesLive, insertRow, ensures_bind, ensures_getCur, ensures_bind, ensures_build]
  exact usesLive_put_cursor hi _ _ _

theorem usesLive_insertIndex (hi : ¬ Dangling w i) (keyInfo : KeyInfo) (pX : Payload) (preformat : Bool) (src : Bytes × Bytes) :
    UsesLive (insertIndex i keyInfo pX preformat src) w := by
  have hunpacked : Ensures (fun h => h ≠ .deadHandle) (unpackKey keyInfo pX) (fun _ w' => ¬ Dangling w' i) w := by
    rw [unpackKey]
    cases pX.aMem with
    | some unpacked => exact hi
    | none =>
      dsimp only
      rw [ensures_bind, ensures_lmdb, ensures_answer]
      refine .ite (fun _ => hi) fun _ => ?_
      cases keyInfo.unpack pX.pKey <;> exact hi
  rw [UsesLive, insertIndex, ensures_bind]
  refine hunpacked.imp fun u w' hi => .ite (fun _ => trivial) fun _ => .ite (fun _ => ?_) fun _ => .ite (fun _ => trivial) fun _ => ?_
  · rw [insertCopied, ensures_bind, ensures_getCur, ensures_bind, ensures_read]
    exact .ite (fun _ => (by decide : Halt.undefined ≠ .deadHandle)) fun _ => usesLive_put_cursor hi _ _ _
  · rw [ensures_bind, ensures_getCur, ensures_bind, ensures_getP]
    exact usesLive_put_cursor hi _ _ _

theorem usesLive_insertSource (pX : Payload) (preformat : Bool) (src : Rc × Bytes × Bytes)
    (hi : src.1 = sqliteOk → ¬ Dangling w i) : UsesLive (insertSource i pX preformat src) w := by
  rw [UsesLive, insertSource]
  refine .ite (fun _ => trivial) fun hok => ?_
  replace hi := hi (not_not.mp hok)
  rw [ensures_bind, ensures_getCur]
  cases (w.curs i).keyInfo with
  | some keyInfo => exact usesLive_insertIndex hi keyInfo pX preformat src.2
  | none => exact .ite (fun _ => usesLive_insertRow hi _ _) fun _ => usesLive_insertRow hi _ _

/-- A move ends no cursor. -/
theorem cursorGet_spares (o : Option ℕ) (op : CursorOp) (w : World) : Ensures (fun _ => True) (lmdb (mdbCursorGet o op))
    (fun _ w' => (∀ j, w'.curs j = w.curs j) ∧ ∀ j, ¬ Dangling w j → ¬ Dangling w' j) w := by
  rw [ensures_lmdb]
  have hsteps : Steps (fun _ => False) False (mdbCursorGet o op) := steps_cursorGet o op
  refine ((hsteps w.env).and (keeps_cursorGet o op w.env)).imp fun g e h => ⟨fun _ => rfl, fun j hj => ?_⟩
  rintro ⟨n, hn, hnone⟩
  refine h.1.present ?_ id (not_dangling hj n hn) hnone
  rw [h.2.writers]
  exact List.Subset.refl _

/-- The source cursor is restored, and the destination is left alone. -/
theorem Tended.preformatted (hw : Tended w) (hi : ¬ Dangling w i)
    (hsrc : ∀ src ∈ (w.curs i).srcCursor, Restorable w src) :
    Ensures (fun h => h ≠ .deadHandle) (preformatted i) (fun src w' => src.1 = sqliteOk → ¬ Dangling w' i) w := by
  rw [Btree.preformatted, ensures_bind, ensures_getCur]
  cases hcursor : (w.curs i).srcCursor with
  | none => exact (by decide : Halt.nullPointer ≠ .deadHandle)
  | some src =>
    dsimp only
    rw [ensures_bind]
    have hlive := (restoreCursor_live hw.metaFree hw.stack (hsrc src hcursor) true).with (restoreCursor_beside src true w)
    refine hlive.imp fun rc w₁ h₁ => .ite (fun hrc hok => absurd hok hrc) fun hrc => ?_
    obtain ⟨hsource, hbeside⟩ := h₁
    have hsource₁ := (hsource (not_not.mp hrc)).2.live
    have hi₁ : ¬ Dangling w₁ i := by
      by_cases hsame : i = src
      · rw [hsame]
        exact hsource₁
      · exact (hbeside hw.metaFree hw.handles).not_dangling hw.handles hsame hi
    rw [ensures_bind, ensures_getCur, ensures_bind]
    have hget := usesLive_lmdb (usesLive_cursorGet (not_dangling hsource₁) .getCurrent)
    refine (hget.with (cursorGet_spares _ _ w₁)).imp fun g w₂ h₂ => ?_
    have hi₂ := h₂.2.2 i hi₁
    rw [ensures_bind, ensures_setCur]
    have hset : ¬ Dangling { w₂ with curs := Function.update w₂.curs i { w₂.curs i with srcCursor := none } } i := by
      rintro ⟨n, hn, hnone⟩
      dsimp only at hn
      rw [Function.update_self] at hn
      exact hi₂ ⟨n, hn, hnone⟩
    exact .ite (fun _ _ => hset) fun _ _ => hset

/-- Which row is copied does not depend on the restoration. -/
def SourceKept (i : ℕ) (w w' : World) : Prop := (w'.curs i).srcCursor = (w.curs i).srcCursor

instance (i : ℕ) : Frame (SourceKept i) where
  refl _ := rfl
  trans h h' := Eq.trans h' h

theorem sourceKept_lmdb (i : ℕ) (m : Mdb α) : Keeps (SourceKept i) (lmdb m) := by
  intro w
  rw [ensures_lmdb, ensures_iff]
  exact ⟨fun _ _ _ => rfl, fun _ _ => trivial⟩

theorem sourceKept_setCur (i : ℕ) {f : BtCursor → BtCursor} (hf : ∀ c, (f c).srcCursor = c.srcCursor) :
    Keeps (SourceKept i) (setCur i f) := by
  refine .modify fun w => ?_
  rw [SourceKept]
  dsimp only
  rw [Function.update_self, hf]

theorem sourceKept_reopenCursor (i : ℕ) (c : BtCursor) (savedKey : Bytes) (reposition : Bool) :
    Keeps (SourceKept i) (reopenCursor i c savedKey reposition) := by
  have htable : Built (fun _ m => Keeps (SourceKept i) m) (getTable c.rootPage false) :=
    built_getTable (fun _ => sourceKept_lmdb i _) _ (absurd · Bool.false_ne_true : false = true → False)
  have htop : Built (fun _ m => Keeps (SourceKept i) m) topTxn := built_topTxn
  refine Keeps.bind (htable.keeps id) fun rc => .ite (.pure _) ?_
  refine Keeps.bind (sourceKept_setCur i fun _ => rfl) fun _ => Keeps.bind (htop.keeps id) fun txn => ?_
  refine Keeps.bind (sourceKept_lmdb i _) fun r => .ite (.pure _) ?_
  refine Keeps.bind (sourceKept_setCur i fun _ => rfl) fun _ => ?_
  have hend : ∀ rc : Rc, Keeps (SourceKept i) (if rc ≠ 0 then pure (errorMap rc) else do
      setCur i fun d => { d with savedKey := none }
      pure sqliteOk) := fun rc =>
    .ite (.pure _) (Keeps.bind (sourceKept_setCur i fun _ => rfl) fun _ => .pure _)
  refine .ite (Keeps.bind ?_ hend) (Keeps.bind (.pure _) hend)
  refine Keeps.bind (.read _) fun fixedRowid => Keeps.bind (.read _) fun e => .ite (.halt _) ?_
  exact Keeps.bind (sourceKept_lmdb i _) fun g => .pure _

theorem sourceKept_restoreCursor (i : ℕ) (reposition : Bool) : Keeps (SourceKept i) (restoreCursor i reposition) := by
  refine Keeps.bind (.read _) fun c => .ite (.pure _) ?_
  cases c.savedKey with
  | none => exact .pure _
  | some savedKey =>
    have hrest : Keeps (SourceKept i) (do
        setCur i fun c => { c with cursor := none }
        if !c.pBtree then Prog.halt .nullPointer else reopenCursor i c savedKey reposition) :=
      Keeps.bind (sourceKept_setCur i fun _ => rfl) fun _ => .ite (.halt _) (sourceKept_reopenCursor i c savedKey reposition)
    exact .ite (Keeps.bind (sourceKept_lmdb i _) fun _ => hrest) hrest

/-- The cursors that an insertion restores can be restored. -/
def Insertable (w : World) (i : ℕ) (preformat : Bool) : Prop :=
  (w.curs i).pBtree = true → Restorable w i ∧
    (preformat = true → (w.curs i).tripCode = sqliteOk → ∀ src ∈ (w.curs i).srcCursor, Restorable w src)

theorem Tended.insert (hw : Tended w) {preformat : Bool} (hi : Insertable w i preformat) (pX : Payload) :
    UsesLive (sqlite3BtreeInsert i pX preformat) w := by
  rw [UsesLive, sqlite3BtreeInsert, ensures_bind, ensures_getCur]
  refine .ite (fun _ => (by decide : Halt.nullPointer ≠ .deadHandle)) fun hopen => ?_
  obtain ⟨hrestore, hsrc⟩ := hi (by simpa using hopen)
  rw [ensures_bind]
  have hlive := (restoreCursor_live hw.metaFree hw.stack hrestore false).with
    ((restoreCursor_beside i false w).and (sourceKept_restoreCursor i false w))
  refine hlive.imp fun rc w₁ h₁ => .ite (fun _ => trivial) fun hrc => ?_
  obtain ⟨hres, hbeside, hsource⟩ := h₁
  obtain ⟨htrip, hrestored⟩ := hres (not_not.mp hrc)
  have hbeside₁ := hbeside hw.metaFree hw.handles
  refine .ite (fun hpreformat => ?_) fun _ => ?_
  · have hsrc₁ : ∀ src ∈ (w₁.curs i).srcCursor, Restorable w₁ src := by
      intro src hmem
      by_cases hsame : src = i
      · rw [hsame]
        exact fun _ => ⟨hrestored.live, fun hsaved => absurd hrestored.unsaved hsaved⟩
      · rw [show (w₁.curs i).srcCursor = (w.curs i).srcCursor from hsource] at hmem
        exact hbeside₁.restorable hw.handles hsame (hsrc hpreformat htrip src hmem)
    rw [ensures_bind]
    exact ((hbeside₁.tended hw).preformatted hrestored.live hsrc₁).imp fun src w₂ => usesLive_insertSource pX preformat src
  · rw [ensures_bind, ensures_pure]
    exact usesLive_insertSource pX preformat _ fun _ => hrestored.live

/-- The payload can be read: on an index it may be the position that was saved. -/
def Fetchable (w : World) (i : ℕ) : Prop :=
  if (w.curs i).keyInfo.isSome then (w.curs i).savedKey = none → ¬ Dangling w i else Restorable w i

theorem Tended.payloadFetch (hw : Tended w) (hi : Fetchable w i) : UsesLive (sqlite3BtreePayloadFetch i) w := by
  rw [UsesLive, sqlite3BtreePayloadFetch, ensures_bind, ensures_getCur]
  rw [Fetchable] at hi
  have hget : ∀ {w : World} (entry : Rc × Bytes × Bytes → Bytes), ¬ Dangling w i → UsesLive (do
      let g ← lmdb (mdbCursorGet (w.curs i).cursor .getCurrent)
      pure (if g.1 ≠ 0 then [] else entry g)) w := fun entry hlive => by
    rw [UsesLive, ensures_bind]
    exact (usesLive_lmdb (usesLive_cursorGet (not_dangling hlive) .getCurrent)).imp fun _ _ _ => trivial
  cases hinfo : (w.curs i).keyInfo with
  | some keyInfo =>
    rw [hinfo, Option.isSome_some, if_pos rfl] at hi
    cases hsaved : (w.curs i).savedKey with
    | some key => trivial
    | none => exact hget (fun g => g.2.1) (hi hsaved)
  | none =>
    rw [hinfo, Option.isSome_none, if_neg Bool.false_ne_true] at hi
    refine hw.restore hi true fun rc w' _ hlive => .ite (fun _ => trivial) fun hrc => ?_
    rw [ensures_bind, ensures_getCur]
    exact hget (fun g => g.2.2) (hlive (not_not.mp hrc)).2.live

theorem usesLive_integerKey (hi : (w.curs i).savedKey = none → ¬ Dangling w i) : UsesLive (sqlite3BtreeIntegerKey i) w := by
  rw [UsesLive, sqlite3BtreeIntegerKey, ensures_bind, ensures_getCur, ensures_bind, ensures_build]
  cases hsaved : (w.curs i).savedKey with
  | some key => trivial
  | none =>
    dsimp only
    rw [ensures_bind]
    exact (usesLive_lmdb (usesLive_cursorGet (not_dangling (hi hsaved)) .getCurrent)).imp fun _ _ _ => trivial

theorem usesLive_count (hi : ∀ t ∈ (w.curs i).txn, w.env.Live t) : UsesLive (sqlite3BtreeCount i) w := by
  rw [UsesLive, sqlite3BtreeCount, ensures_bind, ensures_getCur]
  cases htxn : (w.curs i).txn with
  | none => trivial
  | some t =>
    dsimp only
    rw [ensures_bind]
    refine (usesLive_lmdb (usesLive_stat (hi t htxn) _)).imp fun r w' _ => ?_
    exact .ite (fun _ => trivial) fun _ => trivial

theorem usesLive_getMeta (hw : w.p.hasData = true → StackLive w) (idx : ℕ) : UsesLive (sqlite3BtreeGetMeta idx) w := by
  rw [UsesLive, sqlite3BtreeGetMeta, ensures_bind, ensures_getP]
  refine .ite (fun _ => trivial) fun _ => ?_
  rw [ensures_bind]
  exact (usesLive_getMeta32 hw idx).imp fun _ _ _ => trivial

theorem usesLive_updateMeta (hw : w.p.hasData = true → StackLive w) (idx iValue : ℕ) :
    UsesLive (sqlite3BtreeUpdateMeta idx iValue) w := by
  rw [UsesLive, sqlite3BtreeUpdateMeta, ensures_bind]
  exact (usesLive_putMeta32 hw idx iValue).imp fun _ _ _ => trivial

/-- What is done with tables leaves the stack alone. -/
theorem UsePart.tables {m : Call α} (h : Built (UsePart True) m) (hfree : MetaFree w.env) :
    Ensures (fun _ => True) m (fun _ w' => TablesOnly w w') w := by
  have hkeeps : Keeps DataFrame m := dataKeeps_built ((h.trans UsePart.built).mono .move)
  exact (hkeeps w).imp fun _ _ h => h hfree

theorem usesLive_createTable (hfree : MetaFree w.env) (hw : StackLive w) : UsesLive sqlite3BtreeCreateTable w := by
  refine (usesLive_getMeta (fun _ => hw) _).then (UsePart.tables (built_getMeta _) hfree) fun largest w₁ h₁ => ?_
  have hw₁ := h₁.stackLive hw
  have htable : Built (UsePart True) (getTable (if largest < 2 then 3 else (largest + 1) % 2 ^ 32) true) :=
    built_getTable .lmdb _ fun _ => trivial
  refine (usesLive_getTable (fun _ => hw₁) true).then (UsePart.tables htable h₁.env.metaFree) fun rc w₂ h₂ => ?_
  refine .ite (fun _ => trivial) fun _ => ?_
  rw [ensures_bind]
  exact (usesLive_updateMeta (fun _ => h₂.stackLive hw₁) _ _).imp fun _ _ _ => trivial

/-- A table is opened for what follows. -/
theorem usesLive_onTable (hfree : MetaFree w.env) {iTable : ℕ} (hw : 1 ≤ iTable → StackLive w) {fail : Rc → α}
    {k : ℕ → Call α} (hk : ∀ t w', MetaFree w'.env → w'.env.Live t → UsesLive (k t) w') : UsesLive (do
      let rc ← getTable iTable false
      if rc ≠ 0 then pure (fail rc)
      else do
        let txn ← topTxn
        k txn) w := by
  by_cases hroot : iTable < 1
  · have hcorrupt : sqliteCorrupt ≠ 0 := by decide
    rw [UsesLive, getTable, ensures_bind, ensures_bind, ensures_getP, if_pos hroot, ensures_pure, if_pos hcorrupt]
    trivial
  · have hlive := hw (Nat.not_lt.mp hroot)
    have htable : Built (UsePart True) (getTable iTable false) := built_getTable .lmdb _ (absurd · Bool.false_ne_true)
    refine (usesLive_getTable hw false).then (UsePart.tables htable hfree) fun rc w₁ h₁ => .ite (fun _ => trivial) fun _ => ?_
    exact usesLive_topTxn (h₁.stackLive hlive) fun t ht => hk t w₁ h₁.env.metaFree ht

theorem usesLive_dropTable (hfree : MetaFree w.env) {iTable : ℕ} (hw : 1 ≤ iTable → StackLive w) :
    UsesLive (sqlite3BtreeDropTable iTable) w := by
  refine usesLive_onTable hfree hw fun t w' _ hlive => ?_
  rw [UsesLive, ensures_bind]
  exact (usesLive_lmdb (usesLive_drop hlive _ _)).imp fun _ _ _ => trivial

theorem usesLive_clearTable (hfree : MetaFree w.env) {iTable : ℕ} (hw : 1 ≤ iTable → StackLive w) (pnChange : Bool) :
    UsesLive (sqlite3BtreeClearTable iTable pnChange) w := by
  refine usesLive_onTable hfree hw fun t w' hfree' hlive => ?_
  have hdrop : ∀ (entries : ℕ) (w : World), w.env.Live t → UsesLive (do
      let rc ← lmdb (mdbDrop t (.table iTable) false)
      if rc ≠ 0 then pure (errorMap rc, 0) else pure (sqliteOk, entries)) w := fun entries w hlive => by
    rw [UsesLive, ensures_bind]
    exact (usesLive_lmdb (usesLive_drop hlive _ _)).imp fun _ _ _ => .ite (fun _ => trivial) fun _ => trivial
  refine .ite (fun _ => ?_) fun _ => hdrop 0 w' hlive
  have hstat : Built (UsePart True) (lmdb (mdbStat t (.table iTable))) := .part (.lmdb (.stat _ _))
  refine (usesLive_lmdb (usesLive_stat hlive _)).then (UsePart.tables hstat hfree') fun r w₁ h₁ => ?_
  exact hdrop _ w₁ ((h₁.live t).mpr hlive)

/-- Nothing that the call uses has been ended. `sqlite3BtreeCount` uses the transaction in which the cursor was
opened, though the cursor may have been restored in another one since. -/
def DataCall.Clear (call : DataCall) (w : World) : Prop :=
  match call with
  | first i | last i | next i | previous i | tableMoveto i _ | indexMoveto i _ | delete i => Restorable w i
  | insert i _ preformat => Insertable w i preformat
  | cursorHasMoved i => ¬ Dangling w i
  | integerKey i => (w.curs i).savedKey = none → ¬ Dangling w i
  | payloadFetch i | payloadSize i => Fetchable w i
  | count i => ∀ t ∈ (w.curs i).txn, w.env.Live t
  | getMeta _ | updateMeta _ _ => w.p.hasData = true → ¬ w.Spent
  | createTable => ¬ w.Spent
  | dropTable iTable | clearTable iTable _ => 1 ≤ iTable → ¬ w.Spent
  | eof _ | transferRow _ _ _ | cursorZero | cursor _ _ _ _ | closeCursor _ => True

theorem usesLive_ignore {m : Call α} (h : UsesLive m w) : UsesLive (ignore m) w := by
  rw [UsesLive, ignore, ensures_bind]
  exact h.imp fun _ _ _ => trivial

theorem Tended.data (hw : Tended w) {call : DataCall} (hmoves : call.moves = true) (hclear : call.Clear w) :
    UsesLive call.run w := by
  cases call with
  | cursorZero | cursor | closeCursor => cases hmoves
  | first i => exact usesLive_ignore (hw.cursorMove hclear _ _)
  | last i => exact usesLive_ignore (hw.cursorMove hclear _ _)
  | next i => exact usesLive_ignore (hw.cursorStep hclear _)
  | previous i => exact usesLive_ignore (hw.cursorStep hclear _)
  | eof i => trivial
  | tableMoveto i intKey => exact usesLive_ignore (hw.tableMoveto hclear intKey)
  | indexMoveto i idxKey => exact usesLive_ignore (hw.indexMoveto hclear idxKey)
  | cursorHasMoved i =>
    refine usesLive_ignore ?_
    rw [UsesLive, sqlite3BtreeCursorHasMoved, ensures_bind, ensures_getCur, ensures_bind]
    exact (usesLive_lmdb (usesLive_cursorGet (not_dangling hclear) .getCurrent)).imp fun _ _ _ => trivial
  | insert i pX preformat => exact usesLive_ignore (hw.insert hclear pX)
  | delete i => exact usesLive_ignore (hw.delete hclear)
  | transferRow pDest pSrc iKey => trivial
  | integerKey i => exact usesLive_ignore (usesLive_integerKey hclear)
  | payloadFetch i => exact usesLive_ignore (hw.payloadFetch hclear)
  | payloadSize i =>
    refine usesLive_ignore ?_
    rw [UsesLive, sqlite3BtreePayloadSize, ensures_bind]
    exact (hw.payloadFetch hclear).imp fun _ _ _ => trivial
  | count i => exact usesLive_ignore (usesLive_count hclear)
  | getMeta idx => exact usesLive_ignore (usesLive_getMeta (fun hdata => hw.stack (hclear hdata)) idx)
  | updateMeta idx iValue => exact usesLive_ignore (usesLive_updateMeta (fun hdata => hw.stack (hclear hdata)) idx iValue)
  | createTable => exact usesLive_ignore (usesLive_createTable hw.metaFree (hw.stack hclear))
  | dropTable iTable => exact usesLive_ignore (usesLive_dropTable hw.metaFree fun hroot => hw.stack (hclear hroot))
  | clearTable iTable pnChange =>
    exact usesLive_ignore (usesLive_clearTable hw.metaFree (fun hroot => hw.stack (hclear hroot)) pnChange)

end Using

end LumoSql.Btree
