import LumoSql.BtreeCursors
import LumoSql.ParallelRuns

/-! Without a write transaction a connection reads the disk only when it begins to read. Whatever is
committed meanwhile, no other call notices. -/
namespace LumoSql.Lmdb
open StateLogic

def Env.onDisk (e : Env) (d : Disk) : Env := { e with disk := d }

/-- The same environment without a write transaction on the disk `d`, with `same` one of the same contents. -/
structure OtherDisk (same : Prop) (d : Disk) (e e' : Env) : Prop where
  idle : e.writers = []
  other : e' = e.onDisk d
  contents : same → d.contents = e.disk.contents

section Calls

variable {same : Prop} {d : Disk} {α : Type}

/-- What keeps the disk and begins no write transaction. -/
theorem mirrors_modify {f : Env → Env} (hwriters : ∀ e, e.writers = [] → (f e).writers = [])
    (hdisk : ∀ e, (f e).disk = e.disk) (hother : ∀ e d, f (e.onDisk d) = (f e).onDisk d) :
    Mirrors (OtherDisk same d) (Prog.modify f : Mdb Unit) := by
  refine .modify fun e e' h => ?_
  obtain ⟨hidle, rfl, hsame⟩ := h
  exact ⟨hwriters e hidle, hother e d, fun hs => by rw [hdisk, hsame hs]⟩

theorem mirrors_answer (c : Fallible) : Mirrors (OtherDisk same d) (answer c) := by
  rintro e e' ⟨hidle, rfl, hsame⟩
  exact .ok ⟨hidle, rfl, hsame⟩

theorem mirrors_readEnv {β : Type} {g : Env → β} {f : β → Mdb α} (hg : ∀ e d, f (g (e.onDisk d)) = f (g e))
    (h : ∀ b, Mirrors (OtherDisk same d) (f b)) : Mirrors (OtherDisk same d) (Prog.read g >>= f) := by
  refine .read_bind (fun e e' he => ?_) h
  obtain ⟨-, rfl, -⟩ := he
  exact (hg e d).symm

theorem mirrors_withView (t : ℕ) {m : Contents → Mdb (Rc × Bytes)} (hm : ∀ c, Mirrors (OtherDisk same d) (m c)) :
    Mirrors (OtherDisk same d) (withView t m) := by
  refine mirrors_readEnv (fun _ _ => rfl) fun e => ?_
  cases e.kind t with
  | none => exact .halt _
  | some k =>
    cases e.view t with
    | none => exact .pure _
    | some c => exact hm c

theorem setView_idle {e : Env} (h : e.writers = []) (db : DbName) (es : Option Entries) : (e.setView db es).writers = [] := by
  rw [Env.setView, h]

theorem mirrors_setView (db : DbName) (es : Option Entries) :
    Mirrors (OtherDisk same d) (Prog.modify fun e => e.setView db es : Mdb Unit) :=
  mirrors_modify (fun _ h => setView_idle h _ _) (fun _ => rfl) fun _ _ => rfl

theorem mirrors_dbiOpen (t : ℕ) (db : DbName) (create : Bool) : Mirrors (OtherDisk same d) (mdbDbiOpen t db create) := by
  refine .bind (mirrors_withView t fun c => .bind (mirrors_answer _) fun rc => .ite (.pure _) (.ite (.pure _)
    (.ite (.pure _) ?_))) fun r => .pure _
  exact mirrors_readEnv (fun _ _ => rfl) fun e => .ite (.pure _) (.bind (mirrors_setView _ _) fun _ => .pure _)

theorem mirrors_get (t : ℕ) (db : DbName) (key : Bytes) : Mirrors (OtherDisk same d) (mdbGet t db key) := by
  refine mirrors_withView t fun c => .bind (mirrors_answer _) fun rc => .ite (.pure _) ?_
  cases c db with
  | none => exact .pure _
  | some es =>
    dsimp only
    cases SortedEntries.lookup (byteProbe key) es with
    | none => exact .pure _
    | some e => exact .pure _

theorem mirrors_put (t : ℕ) (db : DbName) (key val : Bytes) : Mirrors (OtherDisk same d) (mdbPut t db key val) := by
  refine .bind (mirrors_withView t fun c => mirrors_readEnv (fun _ _ => rfl) fun e => .ite (.pure _)
    (.bind (mirrors_answer _) fun rc => .ite (.pure _) ?_)) fun r => .pure _
  cases c db with
  | none => exact .pure _
  | some es => exact .bind (mirrors_setView _ _) fun _ => .pure _

theorem mirrors_drop (t : ℕ) (db : DbName) (del : Bool) : Mirrors (OtherDisk same d) (mdbDrop t db del) := by
  refine .bind (mirrors_withView t fun c => mirrors_readEnv (fun _ _ => rfl) fun e => .ite (.pure _)
    (.bind (mirrors_answer _) fun rc => .ite (.pure _) (.ite (.pure _) ?_))) fun r => .pure _
  exact .bind (mirrors_modify (fun _ h => setView_idle h _ _) (fun _ => rfl) fun _ _ => rfl) fun _ => .pure _

theorem mirrors_stat (t : ℕ) (db : DbName) : Mirrors (OtherDisk same d) (mdbStat t db) := by
  refine mirrors_readEnv (fun _ _ => rfl) fun e => ?_
  cases e.kind t with
  | none => exact .halt _
  | some k =>
    cases e.view t with
    | none => exact .pure _
    | some c =>
      refine .bind (mirrors_answer _) fun rc => .ite (.pure _) ?_
      cases c db with
      | none => exact .pure _
      | some es => exact .pure _

theorem mirrors_cursorOpen (t : ℕ) (db : DbName) : Mirrors (OtherDisk same d) (mdbCursorOpen t db) := by
  refine mirrors_readEnv (fun _ _ => rfl) fun e => ?_
  cases e.kind t with
  | none => exact .halt _
  | some k =>
    cases e.view t with
    | none => exact .pure _
    | some c =>
      refine .bind (mirrors_answer _) fun rc => .ite (.pure _) (.ite (.pure _) ?_)
      exact .bind (mirrors_modify (fun _ h => h) (fun _ => rfl) fun _ _ => rfl) fun _ => .pure _

theorem mirrors_cursorClose (h : Option ℕ) : Mirrors (OtherDisk same d) (mdbCursorClose h) := by
  cases h with
  | none => exact .pure _
  | some h =>
    refine mirrors_readEnv (fun _ _ => rfl) fun e => ?_
    cases e.cursors h with
    | none => exact .halt _
    | some c => exact mirrors_modify (fun _ h => h) (fun _ => rfl) fun _ _ => rfl

theorem mirrors_cursorGet (h : Option ℕ) (op : CursorOp) : Mirrors (OtherDisk same d) (mdbCursorGet h op) := by
  cases h with
  | none => exact .pure _
  | some h =>
    refine mirrors_readEnv (fun _ _ => rfl) fun e => ?_
    cases e.cursors h with
    | none => exact .halt _
    | some c =>
      dsimp only
      cases e.cursorView c with
      | none => exact .halt _
      | some v =>
        refine .bind (mirrors_answer _) fun rc => .ite (.pure _) ?_
        exact .bind (mirrors_modify (fun _ h => h) (fun _ => rfl) fun _ _ => rfl) fun _ => .pure _

theorem mirrors_cursorPut (h : Option ℕ) (probe : Bytes → Ordering) (key val : Bytes) :
    Mirrors (OtherDisk same d) (mdbCursorPut h probe key val) := by
  cases h with
  | none => exact .pure _
  | some h =>
    refine mirrors_readEnv (fun _ _ => rfl) fun e => ?_
    cases e.cursors h with
    | none => exact .halt _
    | some c =>
      refine .ite (.pure _) ?_
      cases e.cursorView c with
      | none => exact .halt _
      | some v =>
        refine .bind (mirrors_answer _) fun rc => .ite (.pure _) (.ite (.pure _) ?_)
        exact .bind (mirrors_modify (fun _ h => setView_idle h _ _) (fun _ => rfl) fun _ _ => rfl) fun _ => .pure _

theorem mirrors_cursorDel (h : Option ℕ) : Mirrors (OtherDisk same d) (mdbCursorDel h) := by
  cases h with
  | none => exact .halt _
  | some h =>
    refine mirrors_readEnv (fun _ _ => rfl) fun e => ?_
    cases e.cursors h with
    | none => exact .halt _
    | some c =>
      refine .ite (.pure _) ?_
      cases e.cursorView c with
      | none => exact .halt _
      | some v =>
        refine .bind (mirrors_answer _) fun rc => .ite (.pure _) (.ite (.pure _) (.ite (.pure _) ?_))
        exact .bind (mirrors_modify (fun _ h => setView_idle h _ _) (fun _ => rfl) fun _ _ => rfl) fun _ => .pure _

/-- A transaction that begins to read gets what is on the disk. -/
theorem mirrors_beginReader (h : same) : Mirrors (OtherDisk same d) (mdbTxnBegin none true) := by
  have hbegin : Mirrors (OtherDisk same d) (Prog.modify Env.beginReader : Mdb Unit) := by
    refine .modify fun e e' he => ?_
    obtain ⟨hidle, rfl, hsame⟩ := he
    refine ⟨hidle, ?_, hsame⟩
    rw [Env.beginReader, Env.beginReader, Env.onDisk, hsame h]
    rfl
  refine .of_state fun e e' he => ?_
  obtain ⟨-, rfl, -⟩ := he
  refine ⟨do
    let rc ← answer .txnBegin
    if rc ≠ 0 then pure (rc, 0)
    else do
      Prog.modify Env.beginReader
      pure (0, e.next), .bind (mirrors_answer _) fun rc => .ite (.pure _) (.bind hbegin fun _ => .pure _), ?_, ?_⟩
  · exact congrFun (if_neg fun hwrite => absurd hwrite.2 (by decide)) e
  · exact congrFun (if_neg fun hwrite => absurd hwrite.2 (by decide)) (e.onDisk d)

theorem kind_idle {e : Env} (h : e.writers = []) (t : ℕ) : e.kind t = none ∨ e.kind t = some .readOnly := by
  rw [Env.kind, h, if_neg (by simp)]
  split_ifs
  · exact .inr rfl
  · exact .inl rfl

theorem mirrors_endReader (t : ℕ) : Mirrors (OtherDisk same d) (Prog.modify fun e => e.endReader t : Mdb Unit) :=
  mirrors_modify (fun _ h => h) (fun _ => rfl) fun _ _ => rfl

theorem txnAbort_dead {e : Env} {t : ℕ} (h : e.kind t = none) : mdbTxnAbort t e = Prog.halt .deadHandle e := by
  rw [mdbTxnAbort, read_bind_apply, id, h]

theorem txnAbort_reader {e : Env} {t : ℕ} (h : e.kind t = some .readOnly) :
    mdbTxnAbort t e = Prog.modify (fun e => e.endReader t) e := by
  rw [mdbTxnAbort, read_bind_apply, id, h]

theorem txnCommit_dead {e : Env} {t : ℕ} (h : e.kind t = none) : mdbTxnCommit t e = Prog.halt .deadHandle e := by
  rw [mdbTxnCommit, read_bind_apply, id, h]

theorem txnCommit_reader {e : Env} {t : ℕ} (h : e.kind t = some .readOnly) :
    mdbTxnCommit t e = (do
      Prog.modify fun e => e.endReader t
      pure 0 : Mdb Rc) e := by
  rw [mdbTxnCommit, read_bind_apply, id, h]

/-- Only transactions for reading are ended. -/
theorem mirrors_txnAbort (t : ℕ) : Mirrors (OtherDisk same d) (mdbTxnAbort t) := by
  refine .of_state fun e e' he => ?_
  obtain ⟨hidle, rfl, -⟩ := he
  have hother : (e.onDisk d).kind t = e.kind t := rfl
  rcases kind_idle hidle t with hkind | hkind
  · exact ⟨_, .halt _, txnAbort_dead hkind, txnAbort_dead (hother.trans hkind)⟩
  · exact ⟨_, mirrors_endReader t, txnAbort_reader hkind, txnAbort_reader (hother.trans hkind)⟩

theorem mirrors_txnCommit (t : ℕ) : Mirrors (OtherDisk same d) (mdbTxnCommit t) := by
  refine .of_state fun e e' he => ?_
  obtain ⟨hidle, rfl, -⟩ := he
  have hother : (e.onDisk d).kind t = e.kind t := rfl
  rcases kind_idle hidle t with hkind | hkind
  · exact ⟨_, .halt _, txnCommit_dead hkind, txnCommit_dead (hother.trans hkind)⟩
  · exact ⟨_, .bind (mirrors_endReader t) fun _ => .pure 0, txnCommit_reader hkind, txnCommit_reader (hother.trans hkind)⟩

end Calls

end LumoSql.Lmdb

namespace LumoSql.Btree
open StateLogic Lmdb RowidEncoding

/-- The same connection without a write transaction on the disk `d`, with `same` one of the same contents. -/
structure OnOtherDisk (same : Prop) (d : Disk) (w w' : World) : Prop where
  env : OtherDisk same d w.env w'.env
  rest : w' = { w with env := w'.env }

section Calls

variable {same : Prop} {d : Disk} {α : Type}

theorem mirrors_lmdb {m : Mdb α} (h : Mirrors (OtherDisk same d) m) : Mirrors (OnOtherDisk same d) (lmdb m) := by
  refine h.zoom (fun w w' hw => hw.env) fun w w' e e' hw he => ⟨he, ?_⟩
  rw [hw.rest]

theorem mirrors_getP : Mirrors (OnOtherDisk same d) getP := .read fun w w' h => by rw [h.rest]

theorem mirrors_getCur (i : ℕ) : Mirrors (OnOtherDisk same d) (getCur i) := .read fun w w' h => by rw [h.rest]

theorem mirrors_build : Mirrors (OnOtherDisk same d) build := .read fun w w' h => by rw [h.rest]

theorem mirrors_setP (f : Btree → Btree) : Mirrors (OnOtherDisk same d) (setP f) :=
  .modify fun w w' h => ⟨h.env, by rw [h.rest]⟩

theorem mirrors_setCur (i : ℕ) (f : BtCursor → BtCursor) : Mirrors (OnOtherDisk same d) (setCur i f) :=
  .modify fun w w' h => ⟨h.env, by rw [h.rest]⟩

theorem mirrors_topTxn : Mirrors (OnOtherDisk same d) topTxn := by
  refine mirrors_getP.bind fun p => ?_
  cases p.svp with
  | nil => exact .halt _
  | cons s rest => exact .pure _

/-- The end of a computation after a change of the handle. -/
theorem mirrors_setP_pure (f : Btree → Btree) (a : α) : Mirrors (OnOtherDisk same d) (do
    setP f
    pure a) := (mirrors_setP f).bind fun _ => .pure a

theorem mirrors_setCur_pure (i : ℕ) (f : BtCursor → BtCursor) (a : α) : Mirrors (OnOtherDisk same d) (do
    setCur i f
    pure a) := (mirrors_setCur i f).bind fun _ => .pure a

theorem mirrors_getMeta32 (idx : ℕ) : Mirrors (OnOtherDisk same d) (getMeta32 idx) := by
  refine mirrors_getP.bind fun p => .ite (.pure _) (mirrors_topTxn.bind fun txn => ?_)
  exact (mirrors_lmdb (mirrors_get _ _ _)).bind fun r => .ite (.pure _) (.ite (.pure _) (.pure _))

theorem mirrors_getMeta64 (idx : ℕ) : Mirrors (OnOtherDisk same d) (getMeta64 idx) := by
  refine mirrors_getP.bind fun p => .ite (.pure _) (mirrors_topTxn.bind fun txn => ?_)
  exact (mirrors_lmdb (mirrors_get _ _ _)).bind fun r => .ite (.pure _) (mirrors_build.bind fun _ => .pure _)

theorem mirrors_putMeta32 (idx iValue : ℕ) : Mirrors (OnOtherDisk same d) (putMeta32 idx iValue) := by
  refine mirrors_getP.bind fun p => .ite (.pure _) (mirrors_topTxn.bind fun txn => ?_)
  exact mirrors_lmdb (mirrors_put _ _ _ _)

theorem mirrors_putMeta64 (idx uValue : ℕ) : Mirrors (OnOtherDisk same d) (putMeta64 idx uValue) := by
  refine mirrors_getP.bind fun p => .ite (.pure _) (mirrors_topTxn.bind fun txn => mirrors_build.bind fun _ => ?_)
  exact mirrors_lmdb (mirrors_put _ _ _ _)

theorem mirrors_getTable (iTable : ℕ) (create : Bool) : Mirrors (OnOtherDisk same d) (getTable iTable create) := by
  refine mirrors_getP.bind fun p => .ite (.pure _) ?_
  cases p.svp with
  | nil => exact .pure _
  | cons s rest => exact mirrors_lmdb (mirrors_dbiOpen _ _ _)

end Calls

section Tables

variable {same : Prop} {d : Disk}

theorem mirrors_getMeta (idx : ℕ) : Mirrors (OnOtherDisk same d) (sqlite3BtreeGetMeta idx) :=
  mirrors_getP.bind fun _ => .ite (.pure _) ((mirrors_getMeta32 idx).bind fun _ => .pure _)

theorem mirrors_updateMeta (idx iValue : ℕ) : Mirrors (OnOtherDisk same d) (sqlite3BtreeUpdateMeta idx iValue) :=
  (mirrors_putMeta32 idx iValue).bind fun _ => .pure _

theorem mirrors_createTable : Mirrors (OnOtherDisk same d) sqlite3BtreeCreateTable := by
  refine (mirrors_getMeta _).bind fun largest => (mirrors_getTable _ _).bind fun rc => .ite (.pure _) ?_
  exact (mirrors_updateMeta _ _).bind fun rc => .pure _

theorem mirrors_dropTable (iTable : ℕ) : Mirrors (OnOtherDisk same d) (sqlite3BtreeDropTable iTable) := by
  refine (mirrors_getTable _ _).bind fun rc => .ite (.pure _) (mirrors_topTxn.bind fun txn => ?_)
  exact (mirrors_lmdb (mirrors_drop _ _ _)).bind fun rc => .pure _

theorem mirrors_clearTable (iTable : ℕ) (pnChange : Bool) :
    Mirrors (OnOtherDisk same d) (sqlite3BtreeClearTable iTable pnChange) := by
  refine (mirrors_getTable _ _).bind fun rc => .ite (.pure _) (mirrors_topTxn.bind fun txn => ?_)
  have hclear : ∀ entries : ℕ, Mirrors (OnOtherDisk same d) (do
      let rc ← lmdb (mdbDrop txn (.table iTable) false)
      if rc ≠ 0 then pure (errorMap rc, 0) else pure (sqliteOk, entries)) := fun entries =>
    (mirrors_lmdb (mirrors_drop _ _ _)).bind fun rc => .ite (.pure _) (.pure _)
  refine .ite ?_ (Mirrors.bind (.pure _) hclear)
  exact (mirrors_lmdb (mirrors_stat _ _)).bind fun r => Mirrors.bind (.pure _) hclear

end Tables

section Cursors

variable {same : Prop} {d : Disk}

/-- What a position is sought in does not depend on the disk. -/
theorem mirrors_reposition (h : ℕ) (keyInfo : Option KeyInfo) (savedKey : Bytes) :
    Mirrors (OnOtherDisk same d) (repositionCursor h keyInfo savedKey) := by
  refine mirrors_build.bind fun fixedRowid => .read_bind (fun w w' hw => ?_) fun e => .ite (.halt _) ?_
  · rw [hw.env.other]
    rfl
  · exact (mirrors_lmdb (mirrors_cursorGet _ _)).bind fun g => .pure _

theorem mirrors_reopen (i : ℕ) (c : BtCursor) (savedKey : Bytes) (reposition : Bool) :
    Mirrors (OnOtherDisk same d) (reopenCursor i c savedKey reposition) := by
  refine (mirrors_getTable _ _).bind fun rc => .ite (.pure _) ((mirrors_setCur _ _).bind fun _ => ?_)
  refine mirrors_topTxn.bind fun txn => (mirrors_lmdb (mirrors_cursorOpen _ _)).bind fun r => .ite (.pure _) ?_
  have hend : ∀ rc : Rc, Mirrors (OnOtherDisk same d) (if rc ≠ 0 then pure (errorMap rc)
      else do
        setCur i fun d => { d with savedKey := none }
        pure sqliteOk) := fun rc => .ite (.pure _) (mirrors_setCur_pure _ _ _)
  exact (mirrors_setCur _ _).bind fun _ => .ite ((mirrors_reposition _ _ _).bind hend) (Mirrors.bind (.pure _) hend)

theorem mirrors_restore (i : ℕ) (reposition : Bool) : Mirrors (OnOtherDisk same d) (restoreCursor i reposition) := by
  refine (mirrors_getCur i).bind fun c => .ite (.pure _) ?_
  cases c.savedKey with
  | none => exact .pure _
  | some savedKey =>
    have hclosed : Mirrors (OnOtherDisk same d) (do
        setCur i fun c => { c with cursor := none }
        if !c.pBtree then Prog.halt .nullPointer else reopenCursor i c savedKey reposition) :=
      (mirrors_setCur _ _).bind fun _ => .ite (.halt _) (mirrors_reopen _ _ _ _)
    exact .ite ((mirrors_lmdb (mirrors_cursorClose _)).bind fun _ => hclosed) hclosed

theorem mirrors_cursorMove (i : ℕ) (op : CursorOp) (reposition : Bool) :
    Mirrors (OnOtherDisk same d) (cursorMove i op reposition) := by
  refine (mirrors_restore _ _).bind fun rc => .ite (.pure _) ((mirrors_getCur i).bind fun c => ?_)
  refine (mirrors_lmdb (mirrors_cursorGet _ _)).bind fun g => .ite (mirrors_setCur_pure _ _ _) (.ite (.pure _) ?_)
  exact mirrors_setCur_pure _ _ _

theorem mirrors_cursorStep (i : ℕ) (op : CursorOp) : Mirrors (OnOtherDisk same d) (cursorStep i op) :=
  (mirrors_cursorMove _ _ _).bind fun _ => .ite (.pure _) ((mirrors_getCur i).bind fun _ => .pure _)

theorem mirrors_tableMoveto (i : ℕ) (intKey : ℤ) : Mirrors (OnOtherDisk same d) (sqlite3BtreeTableMoveto i intKey) := by
  refine (mirrors_restore _ _).bind fun rc => .ite (.pure _) ((mirrors_setCur _ _).bind fun _ => ?_)
  refine (mirrors_getCur i).bind fun c => mirrors_build.bind fun fixedRowid => ?_
  refine (mirrors_lmdb (mirrors_cursorGet _ _)).bind fun g => .ite (.pure _) (.ite (.pure _) ?_)
  exact (mirrors_lmdb (mirrors_cursorGet _ _)).bind fun _ => .pure _

theorem mirrors_indexMoveto (i : ℕ) (idxKey : Bytes → Ordering) :
    Mirrors (OnOtherDisk same d) (sqlite3BtreeIndexMoveto i idxKey) := by
  refine (mirrors_restore _ _).bind fun rc => .ite (.pure _) ((mirrors_setCur _ _).bind fun _ => ?_)
  refine (mirrors_getCur i).bind fun c => (mirrors_lmdb (mirrors_cursorGet _ _)).bind fun g => .ite (.pure _) (.ite (.pure _) ?_)
  exact (mirrors_lmdb (mirrors_cursorGet _ _)).bind fun _ => .pure _

theorem mirrors_cursorHasMoved (i : ℕ) : Mirrors (OnOtherDisk same d) (sqlite3BtreeCursorHasMoved i) :=
  (mirrors_getCur i).bind fun _ => (mirrors_lmdb (mirrors_cursorGet _ _)).bind fun _ => .pure _

theorem mirrors_delete (i : ℕ) : Mirrors (OnOtherDisk same d) (sqlite3BtreeDelete i) := by
  refine (mirrors_restore _ _).bind fun rc => .ite (.pure _) ((mirrors_getCur i).bind fun c => ?_)
  exact (mirrors_lmdb (mirrors_cursorDel _)).bind fun rc => .pure _

theorem mirrors_integerKey (i : ℕ) : Mirrors (OnOtherDisk same d) (sqlite3BtreeIntegerKey i) := by
  refine (mirrors_getCur i).bind fun c => mirrors_build.bind fun fixedRowid => ?_
  cases c.savedKey with
  | some key => exact .pure _
  | none => exact (mirrors_lmdb (mirrors_cursorGet _ _)).bind fun g => .pure _

theorem mirrors_payloadFetch (i : ℕ) : Mirrors (OnOtherDisk same d) (sqlite3BtreePayloadFetch i) := by
  refine (mirrors_getCur i).bind fun c => ?_
  have hget : ∀ (h : Option ℕ) (f : Rc × Bytes × Bytes → Bytes), Mirrors (OnOtherDisk same d) (do
      let g ← lmdb (mdbCursorGet h .getCurrent)
      pure (f g)) := fun h f => (mirrors_lmdb (mirrors_cursorGet _ _)).bind fun g => .pure _
  cases c.keyInfo with
  | some keyInfo =>
    cases c.savedKey with
    | some key => exact .pure _
    | none => exact hget _ _
  | none =>
    refine (mirrors_restore _ _).bind fun rc => .ite (.pure _) ?_
    exact (mirrors_getCur i).bind fun c => hget _ _

theorem mirrors_payloadSize (i : ℕ) : Mirrors (OnOtherDisk same d) (sqlite3BtreePayloadSize i) :=
  (mirrors_payloadFetch i).bind fun _ => .pure _

theorem mirrors_count (i : ℕ) : Mirrors (OnOtherDisk same d) (sqlite3BtreeCount i) := by
  refine (mirrors_getCur i).bind fun c => ?_
  cases c.txn with
  | none => exact .pure _
  | some txn => exact (mirrors_lmdb (mirrors_stat _ _)).bind fun r => .ite (.pure _) (.pure _)

theorem mirrors_transferRow (pDest pSrc : ℕ) (iKey : ℤ) :
    Mirrors (OnOtherDisk same d) (sqlite3BtreeTransferRow pDest pSrc iKey) := mirrors_setCur_pure _ _ _

end Cursors

section Insertion

variable {same : Prop} {d : Disk}

theorem mirrors_preformatted (i : ℕ) : Mirrors (OnOtherDisk same d) (preformatted i) := by
  refine (mirrors_getCur i).bind fun c => ?_
  cases c.srcCursor with
  | none => exact .halt _
  | some src =>
    refine (mirrors_restore _ _).bind fun rc => .ite (.pure _) ((mirrors_getCur src).bind fun s => ?_)
    refine (mirrors_lmdb (mirrors_cursorGet _ _)).bind fun g => (mirrors_setCur _ _).bind fun _ => ?_
    exact .ite (.pure _) (.pure _)

theorem mirrors_unpackKey (keyInfo : KeyInfo) (pX : Payload) : Mirrors (OnOtherDisk same d) (unpackKey keyInfo pX) := by
  rw [unpackKey]
  cases pX.aMem with
  | some unpacked => exact .pure _
  | none =>
    refine (mirrors_lmdb (mirrors_answer _)).bind fun oom => .ite (.pure _) ?_
    cases keyInfo.unpack pX.pKey with
    | none => exact .pure _
    | some unpacked => exact .pure _

theorem mirrors_insertCopied (i : ℕ) (src : Bytes × Bytes) : Mirrors (OnOtherDisk same d) (insertCopied i src) := by
  refine (mirrors_getCur i).bind fun c => .read_bind (fun w w' hw => ?_) fun e => .ite (.halt _) ?_
  · rw [hw.env.other]
    rfl
  · exact (mirrors_lmdb (mirrors_cursorPut _ _ _ _)).bind fun rc => .pure _

theorem mirrors_insertIndex (i : ℕ) (keyInfo : KeyInfo) (pX : Payload) (preformat : Bool) (src : Bytes × Bytes) :
    Mirrors (OnOtherDisk same d) (insertIndex i keyInfo pX preformat src) := by
  refine (mirrors_unpackKey _ _).bind fun u => .ite (.pure _) (.ite (mirrors_insertCopied _ _) (.ite (.pure _) ?_))
  refine (mirrors_getCur i).bind fun c => mirrors_getP.bind fun p => ?_
  exact (mirrors_lmdb (mirrors_cursorPut _ _ _ _)).bind fun rc => .pure _

theorem mirrors_insertRow (i : ℕ) (nKey : ℤ) (data : Bytes) : Mirrors (OnOtherDisk same d) (insertRow i nKey data) := by
  refine (mirrors_getCur i).bind fun c => mirrors_build.bind fun fixedRowid => ?_
  exact (mirrors_lmdb (mirrors_cursorPut _ _ _ _)).bind fun rc => .pure _

theorem mirrors_insertSource (i : ℕ) (pX : Payload) (preformat : Bool) (src : Rc × Bytes × Bytes) :
    Mirrors (OnOtherDisk same d) (insertSource i pX preformat src) := by
  refine .ite (.pure _) ((mirrors_getCur i).bind fun c => ?_)
  cases c.keyInfo with
  | some keyInfo => exact mirrors_insertIndex _ _ _ _ _
  | none => exact .ite (mirrors_insertRow _ _ _) (mirrors_insertRow _ _ _)

theorem mirrors_insert (i : ℕ) (pX : Payload) (preformat : Bool) :
    Mirrors (OnOtherDisk same d) (sqlite3BtreeInsert i pX preformat) := by
  refine (mirrors_getCur i).bind fun c => .ite (.halt _) ((mirrors_restore _ _).bind fun rc => .ite (.pure _) ?_)
  have hput : ∀ src, Mirrors (OnOtherDisk same d) (insertSource i pX preformat src) := mirrors_insertSource i pX preformat
  exact .ite ((mirrors_preformatted i).bind hput) (Mirrors.bind (.pure _) hput)

end Insertion

section Ends

variable {same : Prop} {d : Disk}

theorem mirrors_saveFailed (i : ℕ) (rc1 rc : Rc) : Mirrors (OnOtherDisk same d) (saveFailed i rc1 rc) := mirrors_setCur_pure _ _ _

theorem mirrors_invalidate (tripCode : Rc) (writeOnly : Bool) (i : ℕ) (rc : Rc) :
    Mirrors (OnOtherDisk same d) (invalidateCursor tripCode writeOnly i rc) := by
  refine (mirrors_getCur i).bind fun c => .ite (.ite ?_ (mirrors_setCur_pure _ _ _)) (.pure _)
  refine (mirrors_lmdb (mirrors_cursorGet _ _)).bind fun r => .ite (mirrors_saveFailed _ _ _) ?_
  refine (mirrors_lmdb (mirrors_answer _)).bind fun oom => ?_
  refine .ite ((mirrors_setCur _ _).bind fun _ => mirrors_saveFailed _ _ _) ((mirrors_setCur _ _).bind fun _ => ?_)
  exact (mirrors_lmdb (mirrors_cursorClose _)).bind fun _ => mirrors_setCur_pure _ _ _

theorem mirrors_invalidateLoop (tripCode : Rc) (writeOnly : Bool) (fuel : ℕ) (o : Option ℕ) (rc : Rc) :
    Mirrors (OnOtherDisk same d) (invalidateLoop tripCode writeOnly fuel o rc) := by
  induction fuel generalizing o rc with
  | zero =>
    cases o with
    | none => exact .pure _
    | some i => exact .halt _
  | succ fuel ih =>
    cases o with
    | none => exact .pure _
    | some i => exact (mirrors_getCur i).bind fun c => (mirrors_invalidate _ _ _ _).bind fun rc => ih c.next rc

theorem mirrors_invalidateCursors (tripCode : Rc) (writeOnly : Bool) :
    Mirrors (OnOtherDisk same d) (invalidateCursors tripCode writeOnly) := by
  refine mirrors_getP.bind fun p => Mirrors.bind (.read fun w w' h => by rw [h.rest]) fun fuel => ?_
  exact mirrors_invalidateLoop _ _ _ _ _

theorem mirrors_closeLevel (s : BtreeSavepoint) (commit : Bool) (tripCode rc : Rc) :
    Mirrors (OnOtherDisk same d) (closeLevel s commit tripCode rc) := by
  refine (mirrors_invalidateCursors _ _).bind fun rc1 => .ite (mirrors_lmdb (mirrors_txnCommit _)) ?_
  exact (mirrors_lmdb (mirrors_txnAbort _)).bind fun _ => .pure _

theorem mirrors_closeLoop (nTo : ℤ) (commit : Bool) (tripCode : Rc) (levels : List BtreeSavepoint) (rc : Rc) :
    Mirrors (OnOtherDisk same d) (closeLoop nTo commit tripCode levels rc) := by
  induction levels generalizing rc with
  | nil => exact .pure _
  | cons s levels ih =>
    cases levels with
    | nil => exact .pure _
    | cons s' levels =>
      refine .ite (.pure _) ((mirrors_setP _).bind fun _ => (mirrors_closeLevel _ _ _ _).bind fun rc => ih rc)

theorem mirrors_closeAll (nTo : ℤ) (commit : Bool) (tripCode : Rc) :
    Mirrors (OnOtherDisk same d) (closeAllSavepoints nTo commit tripCode) :=
  mirrors_getP.bind fun _ => mirrors_closeLoop _ _ _ _ _

/-- The outermost transaction is aborted. -/
theorem mirrors_abortTop {α : Type} {m : Call α} (h : Mirrors (OnOtherDisk same d) m) : Mirrors (OnOtherDisk same d) (do
    let txn ← topTxn
    lmdb (mdbTxnAbort txn)
    m) := mirrors_topTxn.bind fun txn => (mirrors_lmdb (mirrors_txnAbort txn)).bind fun _ => h

theorem mirrors_commitOutermost (rc : Rc) : Mirrors (OnOtherDisk same d) (commitOutermost rc) := by
  refine mirrors_topTxn.bind fun txn => .ite ((mirrors_lmdb (mirrors_txnAbort txn)).bind fun _ => mirrors_setP_pure _ _) ?_
  refine (mirrors_lmdb (mirrors_txnCommit txn)).bind fun rc => (mirrors_setP _).bind fun _ => ?_
  exact .ite (.pure _) (mirrors_setP_pure _ _)

theorem mirrors_commitPhaseOne : Mirrors (OnOtherDisk same d) sqlite3BtreeCommitPhaseOne := by
  refine mirrors_getP.bind fun p => .ite (.pure _) ((mirrors_closeAll _ _ _).bind fun rc => .ite (.pure _) ?_)
  refine (mirrors_invalidateCursors _ _).bind fun _ => .ite ?_ (mirrors_abortTop (mirrors_setP_pure _ _))
  exact (mirrors_getMeta64 _).bind fun c => (mirrors_putMeta64 _ _).bind fun rc => mirrors_commitOutermost rc

theorem mirrors_rollback (tripCode : Rc) (writeOnly : Bool) :
    Mirrors (OnOtherDisk same d) (sqlite3BtreeRollback tripCode writeOnly) := by
  refine mirrors_getP.bind fun p => .ite (.pure _) ((mirrors_closeAll _ _ _).bind fun _ => ?_)
  exact (mirrors_invalidateCursors _ _).bind fun _ => mirrors_abortTop (mirrors_setP_pure _ _)

theorem mirrors_savepoint (op : SavepointOp) (iSavepoint : ℤ) :
    Mirrors (OnOtherDisk same d) (sqlite3BtreeSavepoint op iSavepoint) := by
  refine (mirrors_closeAll _ _ _).bind fun rc => .ite (.pure _) (.ite (.pure _) ?_)
  exact (mirrors_invalidateCursors _ _).bind fun _ => mirrors_abortTop (mirrors_setP_pure _ _)

theorem mirrors_close : Mirrors (OnOtherDisk same d) sqlite3BtreeClose := by
  have hclose : Mirrors (OtherDisk same d) (Prog.modify fun e : Env =>
      { e with writers := [], readers := [], cursors := fun _ => none } : Mdb Unit) :=
    mirrors_modify (fun _ _ => rfl) (fun _ => rfl) fun _ _ => rfl
  have hend : Mirrors (OnOtherDisk same d) (do
      lmdb (Prog.modify fun e => { e with writers := [], readers := [], cursors := fun _ => none })
      setP fun p => { p with svp := [], closed := true }
      pure sqliteOk) :=
    (mirrors_lmdb hclose).bind fun _ => mirrors_setP_pure _ _
  refine mirrors_getP.bind fun p => .ite ?_ hend
  refine (mirrors_closeAll _ _ _).bind fun _ => (mirrors_invalidateCursors _ _).bind fun _ => ?_
  exact mirrors_abortTop hend

end Ends

section Lists

variable {same : Prop} {d : Disk}

theorem mirrors_linkCursor (i : ℕ) : Mirrors (OnOtherDisk same d) (linkCursor i) := by
  refine mirrors_getP.bind fun p => (mirrors_setCur _ _).bind fun _ => ?_
  cases p.lastCursor with
  | none => exact (mirrors_setP _).bind fun _ => mirrors_setP _
  | some j => exact (mirrors_setCur _ _).bind fun _ => mirrors_setP _

theorem mirrors_cursor (iTable : ℕ) (wrFlag : Bool) (keyInfo : Option KeyInfo) (i : ℕ) :
    Mirrors (OnOtherDisk same d) (sqlite3BtreeCursor iTable wrFlag keyInfo i) := by
  refine (mirrors_getCur i).bind fun c => .ite (.pure _) (mirrors_topTxn.bind fun txn => (mirrors_setCur _ _).bind fun _ => ?_)
  refine (mirrors_getTable _ _).bind fun rc => .ite (.pure _) ((mirrors_setCur _ _).bind fun _ => ?_)
  refine (mirrors_lmdb (mirrors_cursorOpen _ _)).bind fun r => .ite (.pure _) ((mirrors_setCur _ _).bind fun _ => ?_)
  have hlink : Mirrors (OnOtherDisk same d) (do
      linkCursor i
      setCur i fun c => { c with wrFlag := wrFlag }
      pure sqliteOk) := (mirrors_linkCursor i).bind fun _ => mirrors_setCur_pure _ _ _
  exact (mirrors_lmdb (mirrors_cursorGet _ _)).bind fun g => .ite ((mirrors_setCur _ _).bind fun _ => hlink) hlink

theorem mirrors_newCursor : Mirrors (OnOtherDisk same d) newCursor := by
  refine Mirrors.bind (.read fun w w' h => by rw [h.rest]) fun i => Mirrors.bind (.modify fun w w' h => ?_) fun _ => .pure _
  exact ⟨h.env, by rw [h.rest]⟩

theorem mirrors_unlinkCursor (i : ℕ) : Mirrors (OnOtherDisk same d) (unlinkCursor i) := by
  refine (mirrors_getCur i).bind fun c => ?_
  cases c.prev with
  | none =>
    refine (mirrors_setP _).bind fun _ => ?_
    cases c.next with
    | none => exact mirrors_setP _
    | some k => exact mirrors_setCur _ _
  | some j =>
    refine (mirrors_setCur _ _).bind fun _ => ?_
    cases c.next with
    | none => exact mirrors_setP _
    | some k => exact mirrors_setCur _ _

theorem mirrors_closeCursor (i : ℕ) : Mirrors (OnOtherDisk same d) (sqlite3BtreeCloseCursor i) := by
  have hunlink : Mirrors (OnOtherDisk same d) (do
      unlinkCursor i
      setCur i fun c => { c with pBtree := false }
      let p ← getP
      if p.single then do
        let _ ← sqlite3BtreeClose
        pure sqliteOk
      else pure sqliteOk) := by
    refine (mirrors_unlinkCursor i).bind fun _ => (mirrors_setCur _ _).bind fun _ => mirrors_getP.bind fun p => ?_
    exact .ite (mirrors_close.bind fun _ => .pure _) (.pure _)
  refine (mirrors_getCur i).bind fun c => ?_
  have hrest : Mirrors (OnOtherDisk same d) (do
      setCur i fun c => { c with savedKey := none }
      if c.pBtree then do
        unlinkCursor i
        setCur i fun c => { c with pBtree := false }
        let p ← getP
        if p.single then do
          let _ ← sqlite3BtreeClose
          pure sqliteOk
        else pure sqliteOk
      else pure sqliteOk) := (mirrors_setCur _ _).bind fun _ => .ite hunlink (.pure _)
  exact .ite ((mirrors_lmdb (mirrors_cursorClose _)).bind fun _ => (mirrors_setCur _ _).bind fun _ => hrest) hrest

end Lists

section Begins

variable {same : Prop} {d : Disk}

theorem mirrors_getVersion (pSchemaVersion : Bool) : Mirrors (OnOtherDisk same d) (beginGetVersion pSchemaVersion) :=
  .ite ((mirrors_getMeta32 _).bind fun _ => .pure _) (.pure _)

theorem mirrors_beginOpened (wrFlag : Bool) (txn : ℕ) : Mirrors (OnOtherDisk same d) (beginOpened wrFlag txn) := by
  refine (mirrors_setP _).bind fun _ => (mirrors_lmdb (mirrors_dbiOpen _ _ _)).bind fun rc => ?_
  refine .ite (mirrors_setP_pure _ _) (.ite ?_ (mirrors_setP_pure _ _))
  exact (mirrors_lmdb (mirrors_txnAbort _)).bind fun _ => mirrors_setP_pure _ _

/-- A transaction that begins to read is the same on a disk of the same contents. -/
theorem OnOtherDisk.beginNew {w w' : World} (h : OnOtherDisk same d w w') (hsame : same) {wrFlag : Bool}
    (hrdonly : beginRdonly w.p wrFlag = true) :
    Matched (OnOtherDisk same d) (Btree.beginNew wrFlag w) (Btree.beginNew wrFlag w') := by
  have hp : w'.p = w.p := by rw [h.rest]
  have hrest : Mirrors (OnOtherDisk same d) (if w.p.svp ≠ [] then pure sqliteInternal
      else do
        let oom ← lmdb (answer .malloc)
        if oom ≠ 0 then pure sqliteNomem
        else do
          let r ← lmdb (mdbTxnBegin none true)
          if r.1 ≠ 0 then pure (errorMap r.1) else beginOpened wrFlag r.2) := by
    refine .ite (.pure _) ((mirrors_lmdb (mirrors_answer _)).bind fun oom => .ite (.pure _) ?_)
    exact (mirrors_lmdb (mirrors_beginReader hsame)).bind fun r => .ite (.pure _) (mirrors_beginOpened _ _)
  have hstart := hrest w w' h
  rw [← hrdonly] at hstart
  rw [Btree.beginNew, getP, read_bind_apply, read_bind_apply, hp]
  exact hstart

/-- An upgrade that is refused at once. -/
theorem OnOtherDisk.beginUpgrade {w w' : World} (h : OnOtherDisk same d w w') (htype : w.p.transType ≠ transactionOptimistic) :
    Matched (OnOtherDisk same d) (Btree.beginUpgrade w) (Btree.beginUpgrade w') := by
  have hp : w'.p = w.p := by rw [h.rest]
  have hrest : Mirrors (OnOtherDisk same d) (if w.p.transType = transactionNoupgrade then pure sqliteBusy
      else if w.p.transType = transactionSerialise then do
        setP fun p => { p with inTrans := .write }
        pure sqliteOk
      else pure sqliteCorrupt) := .ite (.pure _) (.ite (mirrors_setP_pure _ _) (.pure _))
  rw [Btree.beginUpgrade, getP, read_bind_apply, read_bind_apply, hp, if_neg htype]
  exact hrest w w' h

/-- So is every call of `sqlite3BtreeBeginTrans` that gets no write transaction. -/
theorem OnOtherDisk.beginTrans {w w' : World} (h : OnOtherDisk same d w w') (hsame : w.p.inTrans = .none → same)
    {wrFlag : Bool} (hrdonly : w.p.inTrans = .none → beginRdonly w.p wrFlag = true)
    (hread : w.p.inTrans = .read → wrFlag = true → w.p.readonly = false → w.p.transType ≠ transactionOptimistic)
    (pSchemaVersion : Bool) :
    Matched (OnOtherDisk same d) (sqlite3BtreeBeginTrans wrFlag pSchemaVersion w)
      (sqlite3BtreeBeginTrans wrFlag pSchemaVersion w') := by
  have hp : w'.p = w.p := by rw [h.rest]
  have hversion : Mirrors (OnOtherDisk same d) (beginGetVersion pSchemaVersion) := mirrors_getVersion pSchemaVersion
  rw [sqlite3BtreeBeginTrans, getP, read_bind_apply, read_bind_apply, hp]
  by_cases hwrite : w.p.inTrans = .write
  · rw [if_pos hwrite]
    exact hversion w w' h
  rw [if_neg hwrite]
  by_cases hrefused : wrFlag = true ∧ w.p.readonly = true
  · rw [if_pos hrefused]
    exact .ok h
  rw [if_neg hrefused]
  by_cases hreads : w.p.inTrans ≠ .none ∧ (!wrFlag) = true
  · rw [if_pos hreads]
    exact hversion w w' h
  rw [if_neg hreads]
  have hend : ∀ rc : Rc, Mirrors (OnOtherDisk same d) (if rc ≠ sqliteOk then pure (rc, none)
      else beginGetVersion pSchemaVersion) := fun rc => .ite (.pure _) hversion
  by_cases hin : w.p.inTrans ≠ .none
  · rw [if_pos hin]
    have hwr : wrFlag = true := by simpa [hin] using hreads
    have hro : w.p.readonly = false := by simpa [hwr] using hrefused
    have hinread : w.p.inTrans = .read := by
      cases h : w.p.inTrans with
      | none => exact absurd h hin
      | read => rfl
      | write => exact absurd h hwrite
    exact (h.beginUpgrade (hread hinread hwr hro)).bind hend
  · rw [if_neg hin]
    exact (h.beginNew (hsame (not_not.mp hin)) (hrdonly (not_not.mp hin))).bind hend

end Begins

end LumoSql.Btree
