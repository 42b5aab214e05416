import LumoSql.SavepointLists
import LumoSql.SavepointRollback
import LumoSql.Sessions

/-! Whether the release of savepoints and the upgrade of a transaction succeed depends on where the
cursors stand: each of them has to stand on an entry. -/
namespace LumoSql.Btree
open StateLogic Lmdb

/-- The calls that should not depend on the cursors: the release of a savepoint, and an optimistic
upgrade when no other connection holds the lock and none has committed. -/
def SavingCall.Ready (call : SavingCall) (w : World) : Prop :=
  match call with
  | savepoint op iSavepoint => op = .release ∧ 0 ≤ iSavepoint
  | upgrade _ => (w.p.inTrans = .read ∧ w.p.readonly = false ∧ w.p.transType = transactionOptimistic) ∧
      w.p.svp ≠ [] ∧ (w.env.writers = [] → w.env.disk.locked = false) ∧
      ∀ s ∈ w.p.svp, ∀ c, w.env.view s.txn = some c → CountersAgree w c

section Release

variable {E : Halt → Prop} {w w' : World} {l : List ℕ} {k : ℤ}

/-- Levels are committed if the positions were saved. -/
theorem ClosedWith.committed {n : ℕ} {tripCode rc₁ rc : Rc} {w₁ : World}
    (h : ClosedWith n true tripCode w rc₁ w₁ rc w') (hcalm : w₁.env.Calm) (hok : rc₁ = 0) : rc = 0 := by
  by_contra hrc
  obtain ⟨i, -, hcode⟩ := h.levels.cause (.inr rfl) hok hrc
  have hcodes : (w₁.withList none).env.answers .txnCommit = [] := hcalm .txnCommit
  rw [hcodes] at hcode
  exact hcode rfl

end Release

section Upgrade

variable {E : Halt → Prop} {w w' : World} {l : List ℕ} {s : BtreeSavepoint} {c : Contents}

/-- The one transaction of a connection that reads: a reader, or the writer an upgrade that came too
late has left. -/
inductive ReadingTxn (w : World) (s : BtreeSavepoint) : Prop
  | reader (hwriters : w.env.writers = []) (hkind : w.env.kind s.txn = some .readOnly)
      (hunlocked : w.env.disk.locked = false)
  | late (t : WriteTxn) (hwriters : w.env.writers = [t]) (ht : s.txn = t.id)

/-- No transaction is left when it ends. -/
theorem ReadingTxn.abort (h : ReadingTxn w s) : Ensures E (mdbTxnAbort s.txn) (fun _ e => e.writers = [] ∧
    e.disk = { w.env.disk with locked := false } ∧ e.readonly = w.env.readonly ∧ e.answers = w.env.answers) w.env := by
  cases h with
  | reader hwriters hkind hunlocked =>
    refine (documented.txnAbort_reader hkind _).mpr ⟨hwriters, ?_, rfl, rfl⟩
    rw [← hunlocked]
    rfl
  | late t hwriters ht =>
    rw [ht]
    refine (documented.txnAbort hwriters _).mpr ?_
    rw [abort_writer hwriters]
    exact ⟨rfl, rfl, rfl, rfl⟩

theorem ReadingTxn.congr (h : ReadingTxn w s) (hc : CursorsOnly w w') : ReadingTxn w' s := by
  cases h with
  | reader hwriters hkind hunlocked =>
    refine .reader (hc.env.writers.trans hwriters) ((kind_congr hc.env.writers hc.env.readers _).trans hkind) ?_
    rw [hc.env.disk]
    exact hunlocked
  | late t hwriters ht => exact .late t (hc.env.writers.trans hwriters) ht

theorem ReadingTxn.of_state {counted : Prop} {n : ℕ} (h : ConnState counted n w) (hin : w.p.inTrans = .read)
    (htype : w.p.transType = transactionOptimistic) (hopened : w.p.svp ≠ [])
    (hunlocked : w.env.writers = [] → w.env.disk.locked = false) : ∃ s k c, w.p.svp = [s] ∧
      w.env.kind s.txn = some k ∧ w.env.view s.txn = some c ∧ ReadingTxn w s := by
  cases h with
  | idle hsvp _ _ | lost hsvp _ _ _ _ => exact absurd hsvp hopened
  | failed s _ hnone _ => exact absurd (hnone.symm.trans hin) (by decide)
  | reading s snapshot hsvp _ hwriters _ hkind hview _ =>
    exact ⟨s, _, _, hsvp, hkind, hview, .reader hwriters hkind (hunlocked hwriters)⟩
  | late s t hsvp _ _ hwriters ht _ =>
    exact ⟨s, .readWrite, t.view, hsvp, by rw [ht]; exact kind_writer hwriters, by rw [ht]; exact view_writer hwriters,
      .late t hwriters ht⟩
  | writing hw _ =>
    rcases hw.inTrans with hwrite | ⟨-, hserial⟩
    · exact absurd (hin.symm.trans hwrite) (by decide)
    · exact absurd (htype.symm.trans hserial) (by decide)

end Upgrade

section Calls

variable {w : World} {l : Ledger}

end Calls

end LumoSql.Btree
