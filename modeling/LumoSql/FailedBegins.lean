import LumoSql.CommitAtomicity
import LumoSql.PositionSaving
import LumoSql.SoundCursors

/-! What is left when `sqlite3BtreeBeginTrans` fails: a call that does not upgrade a transaction optimistically
leaves everything as it was, and an optimistic upgrade does not. -/
namespace LumoSql.Btree
open StateLogic Lmdb LinkedLists

/-- The kind of the LMDB transaction of the handle. -/
def World.txnKind (w : World) : Option TxnKind := w.p.svp.head?.bind fun s => w.env.kind s.txn

/-- Cursor `i` has not been tripped, and has an LMDB cursor or a position to go back to. -/
def Usable (w : World) (i : ℕ) : Prop :=
  (w.curs i).tripCode = sqliteOk ∧
    (Alive w i ∨ (w.curs i).cursor = none ∧ (w.curs i).savedKey ≠ none ∧ w.seen ≠ none)

/-- Cursor `i` is usable on the entry `e`. -/
def UsableOn (w : World) (i : ℕ) (e : Bytes × Bytes) : Prop :=
  Usable w i ∧
    ((∃ h c es, Reads w i h c es ∧ c.pos.initialized = true ∧ es[c.pos.index]? = some e) ∨
      (w.curs i).cursor = none ∧ (w.curs i).savedKey = some e.1 ∧
        ∃ c es, w.seen = some c ∧ c (.table (w.curs i).rootPage) = some es ∧ e ∈ es)

/-- The same is seen through the same kind of transaction, and every cursor of `l` that was usable is so, on the
same entry. -/
structure Unchanged (l : List ℕ) (w w' : World) : Prop where
  inTrans : w'.p.inTrans = w.p.inTrans
  kind : w'.txnKind = w.txnKind
  seen : w'.seen = w.seen
  hasData : w'.p.hasData = w.p.hasData
  usable : ∀ i ∈ l, Usable w i → Usable w' i
  entry : ∀ i ∈ l, ∀ e, UsableOn w i e → UsableOn w' i e

/-- The call upgrades the transaction optimistically. Without a transaction on the stack, or with an LMDB cursor
that has ended with its transaction, the upgrade follows a dangling pointer. -/
structure Upgrades (w : World) (l : List ℕ) (wrFlag : Bool) : Prop where
  inTrans : w.p.inTrans = .read
  wrFlag : wrFlag = true
  readonly : w.p.readonly = false
  transType : w.p.transType = transactionOptimistic
  opened : w.p.svp ≠ []
  alive : ∀ i ∈ l, (w.curs i).Due → Alive w i

section Saving

variable {w w' : World} {l : List ℕ} {i h : ℕ} {rc rc' : Rc}

/-- Cursors that are due have been alive if their positions were saved, and when that failed one was tripped. -/
structure Accounted (l : List ℕ) (rc : Rc) (w : World) (rc' : Rc) (w' : World) : Prop where
  alive : ∀ i ∈ l, (w.curs i).Due → Alive w i
  tripped : rc' ≠ rc → ∃ i ∈ l, (w.curs i).Due ∧ (w'.curs i).tripCode ≠ sqliteOk

theorem Accounted.skip (hskip : ¬ (w.curs i).Due) (h : Accounted l rc w rc' w') : Accounted (i :: l) rc w rc' w' := by
  refine ⟨fun j hj hdue => ?_, fun hne => ?_⟩
  · rcases List.mem_cons.mp hj with rfl | hj
    · exact absurd hdue hskip
    · exact h.alive j hj hdue
  · obtain ⟨j, hj, hdue, htrip⟩ := h.tripped hne
    exact ⟨j, List.mem_cons_of_mem i hj, hdue, htrip⟩

/-- The first cursor of the list was alive, and is saved or tripped. -/
theorem Accounted.cons {w₁ : World} {rc₁ : Rc} (hdue : (w.curs i).Due) (halive : Alive w i) (hi : i ∉ l)
    (hsame : ∀ j ∈ l, (w.curs j).Due → SameCursor j w w₁) (hcur : ∀ j ∈ l, w₁.curs j = w.curs j)
    (h₁ : SavedOne i h rc w rc₁ w₁) (hlast : w'.curs i = w₁.curs i) (h₂ : Accounted l rc₁ w₁ rc' w') :
    Accounted (i :: l) rc w rc' w' := by
  refine ⟨fun j hj hd => ?_, fun hne => ?_⟩
  · rcases List.mem_cons.mp hj with rfl | hj
    · exact halive
    · exact (hsame j hj hd).symm.alive (h₂.alive j hj (by rw [hcur j hj]; exact hd))
  · by_cases hrc : rc' = rc₁
    · rcases h₁.outcome with ⟨heq, -⟩ | ⟨htrip, -, -⟩
      · exact absurd (hrc.trans heq) hne
      · exact ⟨i, List.mem_cons_self, hdue, by rw [hlast]; exact htrip⟩
    · obtain ⟨j, hj, hd, htrip⟩ := h₂.tripped hrc
      exact ⟨j, List.mem_cons_of_mem i hj, by rw [← hcur j hj]; exact hd, htrip⟩

end Saving

section Calls

variable {E : Halt → Prop} {w w' : World} {l : Ledger} {wrFlag : Bool}

theorem Unchanged.trans {l : List ℕ} {w₁ : World} (h : Unchanged l w w₁) (h' : Unchanged l w₁ w') : Unchanged l w w' :=
  ⟨h'.inTrans.trans h.inTrans, h'.kind.trans h.kind, h'.seen.trans h.seen, h'.hasData.trans h.hasData,
    fun i hi husable => h'.usable i hi (h.usable i hi husable), fun i hi e hentry => h'.entry i hi e (h.entry i hi e hentry)⟩

theorem OneReader.not_live (h : OneReader w) (hsvp : w.p.svp = []) (hwriters : w.env.writers = []) (t : ℕ) :
    ¬ w.env.Live t := by
  rcases h with hnone | ⟨-, s, r, hsvp', -, -⟩
  · exact Btree.not_live hwriters hnone t
  · rw [hsvp] at hsvp'
    cases hsvp'

theorem Steady.answering (h : Steady w l) (answers : Answers) : Steady (w.answering answers) l := by
  obtain ⟨n, hconn⟩ := h.session.connection
  have hmeanwhile := h.meanwhile answers hconn.metadata
  rwa [World.meanwhile, ite_self] at hmeanwhile

end Calls

end LumoSql.Btree
