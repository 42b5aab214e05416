import LumoSql.SavepointLists
import LumoSql.SavepointRollback

/-! Which levels `sqlite3BtreeSavepoint` closes. The numbers of the levels count the savepoints of
all databases of a connection, so the stack of one handle has gaps. -/
namespace LumoSql.Btree
open StateLogic Lmdb

/-- The numbers grow from the main transaction on. -/
structure Increasing (levels : List BtreeSavepoint) : Prop where
  order : levels.Pairwise fun s s' => s'.nSavepoint < s.nSavepoint
  main : ∀ s ∈ levels.getLast?, s.nSavepoint = -1

/-- The nested levels, each with what is visible when it is undone. -/
def World.undoable (w : World) : List (BtreeSavepoint × Contents) :=
  w.p.svp.zip (w.env.writers.tail.map WriteTxn.view)

/-- Only the levels above number `k` are closed, and a release keeps what was written in them. -/
structure OnlyAbove (op : SavepointOp) (k : ℤ) (w : World) (rc : Rc) (w' : World) : Prop where
  stays : ∀ s ∈ w.p.svp, s.nSavepoint ≤ k → s ∈ w'.p.svp ∧ w'.env.kind s.txn = w.env.kind s.txn
  undoable : ∀ u ∈ w.undoable, u.1.nSavepoint ≤ k → u ∈ w'.undoable
  closes : op = .release → ∀ s ∈ w'.p.svp, s.nSavepoint ≤ k
  keeps : op = .release → rc = sqliteOk → w'.visible = w.visible

/-- The number is on the stack, or below those of all savepoints. -/
def FindsLevel (k : ℤ) (levels : List BtreeSavepoint) : Prop :=
  (∃ s ∈ levels.dropLast, s.nSavepoint = k) ∨ ∀ s ∈ levels.dropLast, k < s.nSavepoint

section Levels

variable {k : ℤ} {levels : List BtreeSavepoint}

theorem Increasing.tail {s : BtreeSavepoint} (h : Increasing (s :: levels)) (hne : levels ≠ []) :
    Increasing levels := by
  refine ⟨(List.pairwise_cons.mp h.order).2, fun x hx => h.main x ?_⟩
  rw [List.getLast?_cons_of_ne_nil hne]
  exact hx

/-- The loop stops where it should. -/
theorem FindsLevel.split (h : Increasing levels) (hk : 0 ≤ k) (hfinds : FindsLevel k levels) :
    (∀ s ∈ levels.take (closedCount k levels), k < s.nSavepoint) ∧
      ∀ s ∈ levels.drop (closedCount k levels), s.nSavepoint ≤ k := by
  induction levels with
  | nil => simp [closedCount]
  | cons s levels ih =>
    cases levels with
    | nil =>
      have hmain := h.main s rfl
      simp [closedCount]
      omega
    | cons s' levels =>
      obtain ⟨hbelow, -⟩ := List.pairwise_cons.mp h.order
      rw [closedCount]
      split_ifs with hn
      · refine ⟨fun x hx => absurd hx List.not_mem_nil, fun x hx => ?_⟩
        rw [List.drop_zero, List.mem_cons] at hx
        rcases hx with rfl | hx
        · exact hn.le
        · have := hbelow x hx
          omega
      · have hrest : FindsLevel k (s' :: levels) ∧ k < s.nSavepoint := by
          rw [FindsLevel, List.dropLast_cons_cons] at hfinds
          rcases hfinds with ⟨x, hx, hxk⟩ | hall
          · rcases List.mem_cons.mp hx with rfl | hx
            · exact absurd hxk hn
            · have := hbelow x (List.dropLast_subset _ hx)
              exact ⟨.inl ⟨x, hx, hxk⟩, by omega⟩
          · exact ⟨.inr fun x hx => hall x (List.mem_cons_of_mem s hx), hall s List.mem_cons_self⟩
        obtain ⟨habove, hleft⟩ := ih (h.tail (List.cons_ne_nil _ _)) hrest.1
        rw [List.take_succ_cons, List.drop_succ_cons]
        refine ⟨fun x hx => ?_, hleft⟩
        rcases List.mem_cons.mp hx with rfl | hx
        · exact hrest.2
        · exact habove x hx

/-- Otherwise every savepoint is closed, one of them too many. -/
theorem Increasing.overrun (h : Increasing levels) (hfinds : ¬ FindsLevel k levels) :
    ∃ s ∈ levels, s.nSavepoint ≤ k ∧ s ∉ levels.drop (closedCount k levels) := by
  rw [FindsLevel, not_or] at hfinds
  obtain ⟨hnone, hlow⟩ := hfinds
  push Not at hnone hlow
  obtain ⟨s, hs, hle⟩ := hlow
  have hne : levels ≠ [] := by
    rintro rfl
    cases hs
  rw [closedCount_all hnone]
  refine ⟨s, List.dropLast_subset _ hs, hle, fun hmem => ?_⟩
  have hlast : levels.drop (levels.length - 1) = [levels.getLast hne] := List.drop_length_sub_one hne
  rw [hlast, List.mem_singleton] at hmem
  have horder := h.order
  rw [← List.dropLast_append_getLast hne, List.pairwise_append] at horder
  have := horder.2.2 s hs _ (List.mem_singleton_self _)
  rw [← hmem] at this
  omega

end Levels

section Calls

variable {w w' : World} {op : SavepointOp} {k : ℕ} {rc : Rc}

theorem findsLevel_of_short {k : ℤ} {levels : List BtreeSavepoint} (h : levels.length ≤ 1) : FindsLevel k levels := by
  refine .inr fun s hs => ?_
  have hdrop : levels.dropLast = [] := List.eq_nil_of_length_eq_zero (by rw [List.length_dropLast]; omega)
  rw [hdrop] at hs
  cases hs

/-- No level is closed when there is only one. -/
theorem OnlyAbove.refl (h : Increasing w.p.svp) (hshort : w.p.svp.length ≤ 1) : OnlyAbove op k w rc w := by
  refine ⟨fun s hs _ => ⟨hs, rfl⟩, fun _ hu _ => hu, fun _ s hs => ?_, fun _ _ => rfl⟩
  match hsvp : w.p.svp with
  | [] =>
    rw [hsvp] at hs
    cases hs
  | [s'] =>
    rw [hsvp, List.mem_singleton] at hs
    have := h.main s (by rw [hsvp, hs]; rfl)
    omega
  | s' :: s'' :: rest =>
    rw [hsvp] at hshort
    simp at hshort

theorem kind_of_aligned (hal : Aligned w) {s : BtreeSavepoint} (hs : s ∈ w.p.svp) :
    w.env.kind s.txn = some .readWrite := by
  have hmem : s.txn ∈ w.p.svp.map BtreeSavepoint.txn := List.mem_map_of_mem hs
  rw [hal.ids] at hmem
  exact if_pos hmem

/-- What is left on a stack where the loop finds the level. -/
theorem LevelsClosed.onlyAbove {rc' : Rc} (h : Increasing w.p.svp) (hne : w.p.svp ≠ []) (hal : Aligned w)
    (hclosed : LevelsClosed (closedCount k w.p.svp) (op = .release) sqliteOk 0 w rc' w')
    (hfinds : FindsLevel k w.p.svp) : OnlyAbove op k w (errorMap rc') w' := by
  have hlt := closedCount_lt k w.p.svp hne
  have hlen := hal.length
  have htail := hclosed.tail (by omega)
  have hal' := hclosed.aligned hal hlt
  have hsvp := hclosed.svp
  obtain ⟨habove, hleft⟩ := hfinds.split h (by omega)
  refine ⟨fun s hs hle => ?_, fun u hu hle => ?_, fun _ s hs => ?_, fun hop hok => ?_⟩
  · have hs' : s ∈ w'.p.svp := by
      rw [hsvp]
      rw [← List.take_append_drop (closedCount k w.p.svp) w.p.svp, List.mem_append] at hs
      refine hs.resolve_left fun htake => ?_
      have := habove s htake
      omega
    exact ⟨hs', (kind_of_aligned hal' hs').trans (kind_of_aligned hal hs).symm⟩
  · have hdrop : w'.undoable = w.undoable.drop (closedCount k w.p.svp) := by
      rw [World.undoable, World.undoable, hsvp, htail, List.map_drop, List.zip_eq_zipWith, List.zip_eq_zipWith,
        List.drop_zipWith]
    rw [hdrop]
    rw [← List.take_append_drop (closedCount k w.p.svp) w.undoable, List.mem_append] at hu
    refine hu.resolve_left fun htake => ?_
    rw [World.undoable, List.zip_eq_zipWith, List.take_zipWith, ← List.zip_eq_zipWith] at htake
    have := habove u.1 (List.of_mem_zip htake).1
    omega
  · rw [hsvp] at hs
    exact hleft s hs
  · rw [hop] at hclosed
    exact hclosed.visible (by omega) ((errorMap_eq_ok rc').mp hok)

/-- When a call returns, the levels are treated as they should be exactly if the loop finds where to
stop, and it does return unless a cursor has ended. -/
theorem savepoint_onlyAbove_iff (w : World) (hstack : TxnStack w) (h : Increasing w.p.svp) (op : SavepointOp)
    (k : ℕ) : (∀ rc w', sqlite3BtreeSavepoint op k w = .ok (rc, w') →
      (OnlyAbove op k w rc w' ↔ FindsLevel k w.p.svp)) ∧
    ∀ l, Listed w l → Apart w l → (∀ i ∈ l, (w.curs i).Due → Alive w i) →
      ∃ rc w', sqlite3BtreeSavepoint op k w = .ok (rc, w') := by
  refine ⟨fun rc w' hcall => ?_, fun l hl hapart hlive => ?_⟩
  · have hspec := (savepoint_spec (.inl fun _ => trivial) trivial hstack op k :
      Ensures (fun _ => True) _ _ _).of_ok hcall
    cases hspec with
    | ended hneg _ _ => exact absurd hneg (by omega)
    | same hw hwriters =>
      have hshort : w.p.svp.length ≤ 1 := by
        cases hstack with
        | idle hsvp _ _ => simp [hsvp]
        | reading s _ hsvp _ _ _ _ _ => simp [hsvp]
        | writing hne hal _ _ => exact absurd hwriters (hal.writers_ne hne)
      rw [hw]
      exact iff_of_true (.refl h hshort) (findsLevel_of_short hshort)
    | closed rc' hrc _ hne hal _ hclosed =>
      rw [hrc]
      refine ⟨fun hkept => ?_, hclosed.onlyAbove h hne hal⟩
      by_contra hfinds
      obtain ⟨s, hs, hle, hgone⟩ := h.overrun hfinds
      have hs' := (hkept.stays s hs hle).1
      rw [hclosed.svp] at hs'
      exact hgone hs'
  · by_cases hcount : closedCount k w.p.svp = 0
    · exact ⟨sqliteOk, w, savepoint_none hcount op⟩
    · have hal : Aligned w := by
        cases hstack with
        | idle hsvp _ _ => exact absurd (by rw [hsvp]; rfl) hcount
        | reading s _ hsvp _ _ _ _ _ => exact absurd (by rw [hsvp]; rfl) hcount
        | writing _ hal _ _ => exact hal
      have hreturns : Ensures (fun _ => False) (sqlite3BtreeSavepoint op k) (fun _ _ => True) w := by
        rw [sqlite3BtreeSavepoint, ensures_bind]
        refine (closeAllSavepoints_saves hal hcount (.inr hlive) hapart hl).imp fun rc w₁ _ => ?_
        exact Ensures.ite (fun _ => trivial) fun _ => Ensures.ite (fun _ => trivial) fun hneg => absurd hneg (by omega)
      obtain ⟨rc, w', hrun, -⟩ := hreturns.result
      exact ⟨rc, w', hrun⟩

/-- A connection in a write transaction with savepoints of these numbers, the innermost first. -/
def savepointWorld (numbers : List ℤ) : World :=
  let ids := (List.range numbers.length).reverse
  { newConnection with
    p := { newConnection.p with inTrans := .write, hasData := true, svp := List.zipWith BtreeSavepoint.mk ids numbers }
    env := { newConnection.env with
      disk := { newDisk with locked := true }
      writers := ids.map fun id => ⟨id, newDisk.contents, fun _ => none⟩
      next := numbers.length } }

theorem savepoint_onlyAbove_iff_sample : (∀ rc w',
    sqlite3BtreeSavepoint .rollback (3 : ℕ) (savepointWorld [5, 3, 2, -1]) = .ok (rc, w') →
      (OnlyAbove .rollback (3 : ℕ) (savepointWorld [5, 3, 2, -1]) rc w' ↔
        FindsLevel (3 : ℕ) (savepointWorld [5, 3, 2, -1]).p.svp)) ∧
    ∀ l, Listed (savepointWorld [5, 3, 2, -1]) l → Apart (savepointWorld [5, 3, 2, -1]) l →
      (∀ i ∈ l, ((savepointWorld [5, 3, 2, -1]).curs i).Due → Alive (savepointWorld [5, 3, 2, -1]) i) →
      ∃ rc w', sqlite3BtreeSavepoint .rollback (3 : ℕ) (savepointWorld [5, 3, 2, -1]) = .ok (rc, w') :=
  savepoint_onlyAbove_iff _ (.writing (by decide) ⟨rfl, rfl⟩ (by unfold Numbered; decide) (by decide))
    ⟨by decide, by decide⟩ .rollback 3

end Calls

/-- With savepoints 1 and 3 on the stack the release of number 2 closes savepoint 1. -/
theorem savepoint_overruns : ∃ w₁ w₂ w₃ w₄ : World,
    sqlite3BtreeBeginTrans true false newConnection = .ok ((sqliteOk, none), w₁) ∧
    sqlite3BtreeBeginStmt 1 w₁ = .ok (sqliteOk, w₂) ∧ sqlite3BtreeBeginStmt 3 w₂ = .ok (sqliteOk, w₃) ∧
    sqlite3BtreeSavepoint .release (2 : ℕ) w₃ = .ok (sqliteOk, w₄) ∧ Increasing w₃.p.svp ∧
    ¬ OnlyAbove .release (2 : ℕ) w₃ sqliteOk w₄ := by
  refine ⟨_, _, _, _, rfl, rfl, rfl, rfl, ⟨by decide, by decide⟩, fun h => ?_⟩
  exact absurd (h.stays ⟨1, 1⟩ (by decide) (by decide)).1 (by decide)

end LumoSql.Btree
