import LumoSql.SavepointRollback

/-! Statements nested in each other, each opened as one more level of the savepoint stack. The
stack numbers its levels from 1 and a savepoint is asked for by a number from 0, so a statement
opened as `d + 1` is closed as `d`; after a rollback its level is gone before it is released. -/
namespace LumoSql.Btree
open StateLogic Lmdb

/-- What is done inside a statement: writes, with the change that each makes, and statements
that are released or rolled back. -/
inductive Statements
  | nil
  | write (call : DataCall) (change : Contents → Contents) (rest : Statements)
  | nested (body : Statements) (op : SavepointOp) (rest : Statements)

/-- The contents that are left, where a statement rolled back has not been. -/
def Statements.meaning : Statements → Contents → Contents
  | nil, c => c
  | write _ change rest, c => rest.meaning (change c)
  | nested body .release rest, c => rest.meaning (body.meaning c)
  | nested _ .rollback rest, c => rest.meaning c

/-- The positions of the cursors can be saved when the innermost level is closed: no call to
LMDB for it and no allocation fails. -/
def Savable (w : World) : Prop :=
  ∃ w₁, invalidateCursors sqliteOk false { w with p := { w.p with svp := w.p.svp.tail } } = .ok (0, w₁)

/-- A run inside a statement that has `d` open around it, its own level included. No result
code is asked for. -/
inductive Executes : ℕ → Statements → World → World → Prop
  | nil (d : ℕ) (w : World) : Executes d .nil w w
  | write {d : ℕ} {call : DataCall} {change : Contents → Contents} {rest : Statements}
      {w w₁ w' : World} (hallowed : call.Allowed w) (hcall : call.run w = .ok ((), w₁))
      (hchange : w₁.visible = change w.visible) (hrest : Executes d rest w₁ w') :
      Executes d (.write call change rest) w w'
  | released {d : ℕ} {body rest : Statements} {w w₁ w₂ w₃ w' : World} {rc rc' : Rc}
      (hopen : sqlite3BtreeBeginStmt (d + 1) w = .ok (rc, w₁)) (hbody : Executes (d + 1) body w₁ w₂)
      (hsave : Savable w₂) (hclose : sqlite3BtreeSavepoint .release d w₂ = .ok (rc', w₃))
      (hrest : Executes d rest w₃ w') : Executes d (.nested body .release rest) w w'
  | rolledBack {d : ℕ} {body rest : Statements} {w w₁ w₂ w₃ w₄ w' : World} {rc rc' rc'' : Rc}
      (hopen : sqlite3BtreeBeginStmt (d + 1) w = .ok (rc, w₁)) (hbody : Executes (d + 1) body w₁ w₂)
      (hsave : Savable w₂) (hback : sqlite3BtreeSavepoint .rollback d w₂ = .ok (rc', w₃))
      (hclose : sqlite3BtreeSavepoint .release d w₃ = .ok (rc'', w₄))
      (hrest : Executes d rest w₄ w') : Executes d (.nested body .rollback rest) w w'

section Codes

/-- A call has one result. -/
theorem code_eq {α : Type} {m : Call α} {w w' : World} {a a' : α} (h : m w = .ok (a, w'))
    (h' : ∃ w'', m w = .ok (a', w'')) : a = a' := by
  obtain ⟨w'', h'⟩ := h'
  exact congrArg Prod.fst (Except.ok.inj (h.symm.trans h'))

variable {before : Contents} {saved : List Contents} {w w' : World}

/-- Closing one level with nothing that fails. -/
theorem closeAll_one {nTo : ℤ} {s s' : BtreeSavepoint} {rest : List BtreeSavepoint}
    (hsvp : w.p.svp = s :: s' :: rest) (hs : s.nSavepoint ≠ nTo)
    (hnext : closedCount nTo (s' :: rest) = 0) (hal : Aligned w)
    (hcommit : w.env.answers .txnCommit = []) (hsave : Savable w) (commit : Bool) :
    Ensures (fun _ => False) (closeAllSavepoints nTo commit sqliteOk) (fun rc _ => rc = 0) w := by
  obtain ⟨w₁, hinvalid⟩ := hsave
  obtain ⟨t, ts, hw, ht⟩ := hal.top hsvp
  have honly : CursorsOnly _ w₁ := (keeps_invalidateCursors sqliteOk false _).of_ok hinvalid
  have hw₁ : w₁.env.writers = t :: ts := honly.env.writers.trans hw
  have hcode : w₁.env.answers .txnCommit = [] :=
    (honly.env.answers .txnCommit (by decide) (by decide)).trans hcommit
  rw [hsvp, List.tail_cons] at hinvalid
  rw [closeAllSavepoints, ensures_bind, ensures_getP, hsvp, closeLoop, if_neg hs, ensures_bind,
    ensures_setP, ensures_bind, closeLevel, ensures_bind]
  refine ensures_of_ok hinvalid ?_
  have hdone : ∀ w₂ : World, Ensures (fun _ => False)
      (closeLoop nTo commit sqliteOk (s' :: rest) 0) (fun rc _ => rc = 0) w₂ := fun w₂ => by
    rw [closeLoop_none hnext]
    rfl
  rw [if_pos rfl, ensures_ite]
  by_cases hcom : commit = true ∧ (0 : Rc) = 0
  · rw [if_pos hcom, ensures_lmdb, ht, documented.txnCommit hw₁, hcode, List.headD_nil,
      if_neg (not_not.mpr rfl)]
    exact hdone _
  · rw [if_neg hcom, ensures_bind, ensures_lmdb, ht, documented.txnAbort hw₁]
    exact hdone _

/-- A statement is opened when nothing fails. -/
theorem Stacked.begins (h : Stacked before saved w) :
    ∃ w', sqlite3BtreeBeginStmt (saved.length + 1) w = .ok (sqliteOk, w') := by
  obtain ⟨s, rest, hsvp⟩ := List.exists_cons_of_ne_nil h.inWrite.nonempty
  obtain ⟨t, ts, hw, ht⟩ := h.inWrite.aligned.top hsvp
  have hspec : Ensures (fun _ => False) (sqlite3BtreeBeginStmt (saved.length + 1))
      (fun rc _ => rc = sqliteOk) w := by
    rw [sqlite3BtreeBeginStmt, ensures_bind, ensures_lmdb, ensures_answer, h.calm.head,
      if_neg (not_not.mpr rfl), ensures_bind, ensures_getP, ensures_bind, ensures_lmdb, h.calm.pop,
      hsvp, List.head?_cons, Option.map_some, ht, documented.txnBegin_nested hw, h.calm.head,
      if_neg (not_not.mpr rfl)]
    rfl
  obtain ⟨rc, w', hrun, rfl⟩ := hspec.result
  exact ⟨w', hrun⟩

/-- Only the innermost level is above the savepoint it was opened for. -/
theorem Stacked.innermost {innermost : Contents} (h : Stacked before (innermost :: saved) w) :
    closedCount saved.length w.p.svp = 1 := by
  rw [closedCount_numbers (n := saved.length + 1) (Nat.le_succ _) h.numbers, Nat.add_sub_cancel_left]

/-- The innermost statement is closed when nothing fails. -/
theorem Stacked.closes {innermost : Contents} (h : Stacked before (innermost :: saved) w)
    (hsave : Savable w) (op : SavepointOp) :
    ∃ w', sqlite3BtreeSavepoint op saved.length w = .ok (sqliteOk, w') := by
  have hcount := h.innermost
  obtain ⟨s, s', rest, hsvp⟩ : ∃ s s' rest, w.p.svp = s :: s' :: rest := by
    have hlen := h.levels
    match hlevels : w.p.svp with
    | [] => simp [hlevels] at hlen
    | [s] => simp [hlevels] at hlen
    | s :: s' :: rest => exact ⟨s, s', rest, rfl⟩
  rw [hsvp, closedCount] at hcount
  have hs : s.nSavepoint ≠ saved.length := fun hn => by
    rw [if_pos hn] at hcount
    omega
  rw [if_neg hs] at hcount
  have hspec : Ensures (fun _ => False) (sqlite3BtreeSavepoint op saved.length)
      (fun rc _ => rc = sqliteOk) w := by
    rw [sqlite3BtreeSavepoint, ensures_bind]
    refine (closeAll_one hsvp hs (by omega) h.inWrite.aligned (h.calm .txnCommit) hsave _).imp ?_
    rintro _ w₁ rfl
    rw [if_neg (not_not.mpr rfl), if_pos (Int.natCast_nonneg _)]
    rfl
  obtain ⟨rc, w', hrun, rfl⟩ := hspec.result
  exact ⟨w', hrun⟩

end Codes

section Levels

variable {before : Contents} {saved : List Contents} {w w' : World}

/-- A statement starts from what is visible, on a level of its own. -/
theorem Stacked.begun_visible (h : Stacked before saved w)
    (hcall : sqlite3BtreeBeginStmt (saved.length + 1) w = .ok (sqliteOk, w')) :
    w'.p.svp.tail = w.p.svp ∧ w'.visible = w.visible := by
  obtain ⟨-, hres⟩ := (beginStmt_spec h.inWrite.stack h.inWrite.open (saved.length + 1) :
    Ensures (fun _ => True) _ _ _).of_ok hcall
  cases hres with
  | same hrc _ => exact absurd rfl hrc
  | opened t ts _ hw hp hwriters _ =>
    refine ⟨by rw [hp]; rfl, ?_⟩
    rw [World.visible, World.visible, hwriters, hw]
    rfl

/-- Closing the innermost statement takes its level from the stack; when it is released what
it sees stays visible. -/
theorem Stacked.closed_visible {innermost : Contents} (h : Stacked before (innermost :: saved) w)
    {op : SavepointOp} (hcall : sqlite3BtreeSavepoint op saved.length w = .ok (sqliteOk, w')) :
    w'.p.svp = w.p.svp.tail ∧ (op = .release → w'.visible = w.visible) := by
  have hspec := (savepoint_spec (.inl fun _ => trivial) trivial h.inWrite.stack op saved.length :
    Ensures (fun _ => True) _ _ _).of_ok hcall
  obtain ⟨t, ts, hw⟩ := h.inWrite.exists_writer
  cases hspec with
  | ended hneg _ _ => omega
  | same _ hwriters => exact absurd (hwriters.symm.trans hw) (by simp)
  | closed rc' hrc _ _ _ _ hclosed =>
    rw [h.innermost] at hclosed
    refine ⟨by rw [hclosed.svp, List.drop_one], fun hop => ?_⟩
    have hmerge := (hclosed.committed (by rw [hop]; rfl) ((errorMap_eq_ok rc').mp hrc.symm)).1
    have hlen := h.writers
    rw [World.visible, World.visible, hmerge]
    rcases hts : w.env.writers with _ | ⟨t, _ | ⟨t', ts⟩⟩
    · simp [hts] at hlen
    · simp [hts] at hlen
    · rw [mergeLevels]
      cases ts <;> rfl

end Levels

/-- What a run inside a statement keeps and what it makes. -/
theorem Executes.meaning {before : Contents} {saved : List Contents} {d : ℕ} {prog : Statements}
    {w w' : World} (h : Executes d prog w w') (hstack : Stacked before saved w)
    (hd : d = saved.length) :
    Stacked before saved w' ∧ w'.p.svp = w.p.svp ∧ w'.visible = prog.meaning w.visible := by
  induction h generalizing saved with
  | nil d w => exact ⟨hstack, rfl, rfl⟩
  | write hallowed hcall hchange _ ih =>
    obtain ⟨hend, hsvp, hvisible⟩ := ih (hstack.wrote hallowed hcall) hd
    have hp := ((dataCall_spec hstack.inWrite.metaFree hallowed).of_ok hcall).p
    exact ⟨hend, by rw [hsvp, hp], by rw [hvisible, hchange]; rfl⟩
  | @released d body rest w w₁ w₂ w₃ w' rc rc' hopen _ hsave hclose _ ihbody ihrest =>
    subst hd
    obtain rfl := code_eq hopen hstack.begins
    obtain ⟨hlevel, hstart⟩ := hstack.begun_visible hopen
    obtain ⟨hinner, hsvp, hvisible⟩ := ihbody (hstack.opened hopen) rfl
    obtain rfl := code_eq hclose (hinner.closes hsave _)
    obtain ⟨htail, hkeep⟩ := hinner.closed_visible hclose
    have hclosed := (hinner.closed (Nat.le_succ _) hclose).1
    rw [List.length_cons, Nat.add_sub_cancel_left, List.drop_one, List.tail_cons] at hclosed
    obtain ⟨hend, hsvp', hvisible'⟩ := ihrest hclosed rfl
    refine ⟨hend, by rw [hsvp', htail, hsvp, hlevel], ?_⟩
    rw [hvisible', hkeep rfl, hvisible, hstart]
    rfl
  | @rolledBack d body rest w w₁ w₂ w₃ w₄ w' rc rc' rc'' hopen _ hsave hback hclose _ ihbody ihrest =>
    subst hd
    obtain rfl := code_eq hopen hstack.begins
    obtain ⟨hlevel, -⟩ := hstack.begun_visible hopen
    obtain ⟨hinner, hsvp, -⟩ := ihbody (hstack.opened hopen) rfl
    obtain rfl := code_eq hback (hinner.closes hsave _)
    have htail := (hinner.closed_visible hback).1
    have hundone := hinner.rollback_visible (by simp) hback
    rw [rollbackTarget, if_neg (by omega), Int.toNat_natCast, List.reverse_cons,
      List.getElem?_append_right (by simp), List.length_reverse, Nat.sub_self] at hundone
    have hclosed := (hinner.closed (Nat.le_succ _) hback).1
    rw [List.length_cons, Nat.add_sub_cancel_left, List.drop_one, List.tail_cons] at hclosed
    -- the level is gone, so the release finds nothing to close
    have hnone : closedCount saved.length w₃.p.svp = 0 := by
      rw [closedCount_numbers le_rfl hclosed.numbers, Nat.sub_self]
    have hsame := (savepoint_none hnone .release).symm.trans hclose
    obtain ⟨-, rfl⟩ := Prod.mk.inj (Except.ok.inj hsame)
    obtain ⟨hend, hsvp', hvisible'⟩ := ihrest hclosed rfl
    refine ⟨hend, by rw [hsvp', htail, hsvp, hlevel], ?_⟩
    rw [hvisible', hundone]
    rfl

/-- Nested statements are atomic: the stack is the one they were opened on, and what is visible
is what those released have made of the contents. -/
theorem nested_statements_atomic {before : Contents} {saved : List Contents} {prog : Statements}
    {w w' : World} (hopen : Savepoints before saved w) (h : Executes saved.length prog w w') :
    w'.p.svp = w.p.svp ∧ w'.visible = prog.meaning w.visible :=
  (h.meaning hopen.stacked rfl).2

theorem nested_statements_atomic_sample : ∃ w w' prog kept, Savepoints newDisk.contents [] w ∧
    Executes 0 (.nested (.write (.updateMeta 1 7) kept (.nested prog .rollback .nil)) .release .nil) w w' ∧
      w'.p.svp = w.p.svp ∧ w'.visible = kept w.visible := by
  have hallowed : ∀ v w, DataCall.Allowed (.updateMeta 1 v) w := fun _ _ =>
    show 1 < headerValues by decide
  have hbegun : ∃ w, sqlite3BtreeBeginTrans true false newConnection = .ok ((sqliteOk, none), w) ∧
      w.env.writers ≠ [] ∧ ∃ w₁, sqlite3BtreeBeginStmt 1 w = .ok (sqliteOk, w₁) ∧
        ∃ w₂, DataCall.run (.updateMeta 1 7) w₁ = .ok ((), w₂) ∧
          ∃ w₃, sqlite3BtreeBeginStmt 2 w₂ = .ok (sqliteOk, w₃) ∧
            ∃ w₄, DataCall.run (.updateMeta 1 9) w₃ = .ok ((), w₄) ∧ Savable w₄ ∧
              ∃ w₅, sqlite3BtreeSavepoint .rollback 1 w₄ = .ok (sqliteOk, w₅) ∧
                ∃ w₆, sqlite3BtreeSavepoint .release 1 w₅ = .ok (sqliteOk, w₆) ∧ Savable w₆ ∧
                  ∃ w₇, sqlite3BtreeSavepoint .release 0 w₆ = .ok (sqliteOk, w₇) :=
    ⟨_, rfl, fun h => (by cases h), _, rfl, _, rfl, _, rfl, _, rfl, ⟨_, rfl⟩, _, rfl, _, rfl, ⟨_, rfl⟩,
      _, rfl⟩
  obtain ⟨w, hbegin, hwriter, w₁, hopen, w₂, hwrite, w₃, hopen', w₄, hwrite', hsave, w₅, hback, w₆,
    hclose, hsave', w₇, hclose'⟩ := hbegun
  have hstart : Savepoints newDisk.contents [] w :=
    .begun newConnection_ready (fun _ => rfl) rfl hbegin hwriter
  have hbody : Executes 2 (.write (.updateMeta 1 9) (fun _ => w₄.visible) .nil) w₃ w₄ :=
    .write (hallowed 9 w₃) hwrite' rfl (.nil 2 w₄)
  have hinner := Executes.rolledBack (d := 1) hopen' hbody hsave hback hclose (.nil 1 w₆)
  have houter : Executes 1 (.write (.updateMeta 1 7) (fun _ => w₂.visible) _) w₁ w₆ :=
    .write (hallowed 7 w₁) hwrite rfl hinner
  have hrun := Executes.released (d := 0) hopen houter hsave' hclose' (.nil 0 w₇)
  exact ⟨w, w₇, _, _, hstart, hrun, nested_statements_atomic hstart hrun⟩

end LumoSql.Btree
