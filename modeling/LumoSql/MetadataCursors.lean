import LumoSql.DataCalls

/-! No transaction call puts a cursor on the metadata, and none makes calls of LMDB fail that
would not fail on their own. -/
namespace LumoSql.Btree
open StateLogic Lmdb RowidEncoding

/-- No cursor on the metadata comes, and what has run out stays so. -/
structure EnvOrderly (e e' : Env) : Prop where
  metaFree : MetaFree e'
  calm : ∀ c, e.answers c = [] → e'.answers c = []

def EnvOrderFrame (e e' : Env) : Prop := MetaFree e → EnvOrderly e e'

instance : Frame EnvOrderFrame where
  refl _ h := ⟨h, fun _ h => h⟩
  trans h h' hf :=
    ⟨(h' (h hf).metaFree).metaFree, fun c hc => (h' (h hf).metaFree).calm c ((h hf).calm c hc)⟩

def OrderFrame (w w' : World) : Prop := EnvOrderFrame w.env w'.env

instance : Frame OrderFrame where
  refl w := Frame.refl w.env
  trans h h' := Frame.trans (R := EnvOrderFrame) h h'

section Environment

theorem metaFree_iff {e : Env} : MetaFree e ↔ e.AllCursors fun _ c => c.db ≠ .metadata :=
  ⟨fun h => ⟨h.cursors, h.shadows⟩, fun h => ⟨h.cursors, h.shadows⟩⟩

theorem orderly_step {closes : ℕ → Prop} {reads : Prop} {e e' : Env} (h : e.Step closes reads e') : EnvOrderFrame e e' := by
  intro hfree
  obtain ⟨codes, hcodes, hchange⟩ := h
  have hall := metaFree_iff.mp hfree
  refine ⟨metaFree_iff.mpr (hchange.allCursors (fun _ _ _ hc => hc) (fun t iTable _ _ => ?_) ⟨hall.cursors, hall.shadows⟩),
    fun c hc => ?_⟩
  · exact DbName.noConfusion
  · rw [hchange.answers]
    exact hcodes c hc

end Environment

section Calls

theorem orderly_lmdb {α : Type} {m : Mdb α} (h : Keeps EnvOrderFrame m) :
    Keeps OrderFrame (lmdb m) := Keeps.zoom h fun _ _ he => he

theorem orderly_steps {closes : ℕ → Prop} {reads : Prop} {α : Type} {m : Mdb α} (h : Steps closes reads m) : Keeps EnvOrderFrame m :=
  fun e => (h e).imp fun _ _ => orderly_step

/-- What the parts of the transaction calls keep. -/
theorem TxnPart.orderly {reads : Prop} {α : Type} {m : Call α} (h : TxnPart reads α m) : Keeps OrderFrame m := by
  cases h with
  | lmdb h => exact orderly_lmdb (orderly_steps (h.steps : Steps (fun _ => False) reads _))
  | setP f hf => exact .modify fun _ h => ⟨h, fun _ h => h⟩
  | invalidateCursor tripCode writeOnly i rc =>
    refine (built_invalidateCursor tripCode writeOnly i rc).keeps fun h => ?_
    cases h with
    | lmdb h => exact orderly_lmdb (orderly_steps h.steps)
    | setCur f hf => exact .modify fun _ h => ⟨h, fun _ h => h⟩

theorem orderly_beginTrans (wrFlag pSchemaVersion : Bool) :
    Keeps OrderFrame (sqlite3BtreeBeginTrans wrFlag pSchemaVersion) := (built_beginTrans _ _).keeps TxnPart.orderly

theorem orderly_beginStmt (iStatement : ℕ) : Keeps OrderFrame (sqlite3BtreeBeginStmt iStatement) :=
  (built_beginStmt _).keeps TxnPart.orderly

theorem orderly_savepoint (op : SavepointOp) (iSavepoint : ℤ) :
    Keeps OrderFrame (sqlite3BtreeSavepoint op iSavepoint) := (built_savepoint _ _).keeps TxnPart.orderly

theorem orderly_commitPhaseOne : Keeps OrderFrame sqlite3BtreeCommitPhaseOne :=
  built_commitPhaseOne.keeps TxnPart.orderly

theorem orderly_rollback (tripCode : Rc) (writeOnly : Bool) :
    Keeps OrderFrame (sqlite3BtreeRollback tripCode writeOnly) := (built_rollback _ _).keeps TxnPart.orderly

end Calls

end LumoSql.Btree
