import LumoSql.TransactionBegin
import Mathlib.Data.List.TakeDrop

/-! What the calls that end transactions and savepoints do. -/
namespace LumoSql.Btree
open StateLogic Lmdb RowidEncoding

section End

variable {E : Halt → Prop} {w : World}

/-- Only the first level is left, as `s` and the transaction `b`. -/
structure BottomOnly (commit : Bool) (tripCode : Rc) (w : World) (rc : Rc) (w' : World)
    (s : BtreeSavepoint) (b : WriteTxn) : Prop where
  only : LevelsOnly w w'
  svp : w'.p.svp = [s]
  bottom : w.p.svp.getLast? = some s
  writers : w'.env.writers = [b]
  txn : s.txn = b.id
  aborted : commit = false ∨ rc ≠ 0 → w.env.writers.getLast? = some b
  committed : commit = true → rc = 0 → w.env.writers.head?.map WriteTxn.view = some b.view ∧
    w'.env.answers .txnCommit = (w.env.answers .txnCommit).drop (w.p.svp.length - 1) ∧
    ∀ i < w.p.svp.length - 1, (w.env.answers .txnCommit).getD i 0 = 0
  codes : commit = false → w'.env.answers .txnCommit = w.env.answers .txnCommit
  quiet : commit = false → tripCode ≠ sqliteOk ∨ w.p.firstCursor = none → rc = 0
  cause : tripCode ≠ sqliteOk ∨ w.p.firstCursor = none → rc ≠ 0 →
    ∃ i < w.p.svp.length - 1, (w.env.answers .txnCommit).getD i 0 ≠ 0

theorem closeAll_bottom (hE : Lenient E w) (hal : Aligned w) (hne : w.p.svp ≠ [])
    (hnum : Numbered w.p) {nTo : ℤ} (hn : nTo < 0) (commit : Bool) (tripCode : Rc) :
    Ensures E (closeAllSavepoints nTo commit tripCode) (fun rc w' =>
      ∃ s b, BottomOnly commit tripCode w rc w' s b) w := by
  refine (closeAllSavepoints_spec nTo commit tripCode hE hal).imp fun rc w' h => ?_
  have hcount : closedCount nTo w.p.svp = w.p.svp.length - 1 := by
    refine closedCount_all fun s hs heq => ?_
    have := hnum s hs
    omega
  have hlt : w.p.svp.length - 1 < w.p.svp.length := by
    have := List.length_pos_iff.mpr hne
    omega
  rw [hcount] at h
  have hal' := h.aligned hal hlt
  have hlen : w.env.writers.length = w.p.svp.length := hal.length.symm
  have hwne : w.env.writers ≠ [] := hal.writers_ne hne
  have hdrop := List.drop_length_sub_one hwne
  have hlast := List.getLast?_eq_some_getLast hwne
  have hsdrop := List.drop_length_sub_one hne
  have hslast := List.getLast?_eq_some_getLast hne
  rw [hlen] at hdrop
  generalize w.env.writers.getLast hwne = b at hdrop hlast
  generalize w.p.svp.getLast hne = s at hsdrop hslast
  have hsvp : w'.p.svp = [s] := by rw [h.svp, hsdrop]
  have hids := hal'.ids
  obtain ⟨t, ts, hw⟩ := List.exists_cons_of_ne_nil hwne
  refine ⟨s, ?_⟩
  by_cases hcom : commit = true ∧ rc = 0
  · obtain ⟨hmerge, hcodes, hzero⟩ := h.committed hcom.1 hcom.2
    have hview : mergeLevels (w.p.svp.length - 1) w.env.writers = [{ b with view := t.view }] := by
      rw [hw] at hdrop ⊢
      exact mergeLevels_eq hdrop
    refine ⟨{ b with view := t.view }, h.only, hsvp, hslast, hmerge.trans hview, ?_, ?_, ?_,
      h.codes, ?_, fun hq => h.cause hq rfl⟩
    · rw [hsvp, hmerge, hview] at hids
      simpa using hids
    · rintro (hf | hf)
      · exact absurd (hf.symm.trans hcom.1) (by decide)
      · exact absurd hcom.2 hf
    · exact fun _ _ => ⟨by rw [hw]; rfl, hcodes, hzero⟩
    · exact fun hf => absurd (hf.symm.trans hcom.1) (by decide)
  · have hfail : commit = false ∨ rc ≠ 0 := by
      cases commit with
      | false => exact .inl rfl
      | true => exact .inr fun h0 => hcom ⟨rfl, h0⟩
    have hwriters := (h.aborted hfail).trans hdrop
    refine ⟨b, h.only, hsvp, hslast, hwriters, ?_, fun _ => hlast, ?_, h.codes, h.quiet,
      fun hq => h.cause hq rfl⟩
    · rw [hsvp, hwriters] at hids
      simpa using hids
    · exact fun hc h0 => absurd ⟨hc, h0⟩ hcom

/-- The transaction is gone and the contents of the disk are what they were. -/
structure Ended (w w' : World) : Prop where
  build : w'.fixedRowid = w.fixedRowid
  nCurs : w'.nCurs = w.nCurs
  readonly : w'.env.readonly = w.env.readonly
  p : w'.p = { w.p with svp := [], inTrans := .none }
  writers : w'.env.writers = []
  contents : w'.env.disk.contents = w.env.disk.contents
  unlocked : w.env.writers ≠ [] → w'.env.disk.locked = false
  untouched : w.env.writers = [] → w'.env.disk = w.env.disk

theorem Ended.of_abort {w₁ : World} {b : WriteTxn} (h : Still w w₁) (hne : w.env.writers ≠ [])
    (hw : w₁.env.writers = [b]) :
    Ended w { w₁ with
      env := w₁.env.abort b.id, p := { w₁.p with svp := [], inTrans := .none } } := by
  have habort := abort_writer hw
  have hdisk : (w₁.env.abort b.id).disk = { w₁.env.disk with locked := false } :=
    congrArg Env.disk habort
  refine ⟨h.build, h.nCurs, h.readonly, ?_, congrArg Env.writers habort, ?_, fun _ => ?_,
    fun hnone => absurd hnone hne⟩
  · rw [h.p]
  · have hcontents : w₁.env.disk.contents = w.env.disk.contents := congrArg Disk.contents h.disk
    exact (congrArg Disk.contents hdisk).trans hcontents
  · exact congrArg Disk.locked hdisk

theorem Ended.of_endReader {w₁ : World} (h : Still w w₁) (hwriters : w.env.writers = [])
    (hw : w₁.env.writers = []) (t : ℕ) :
    Ended w { w₁ with
      env := w₁.env.endReader t, p := { w₁.p with svp := [], inTrans := .none } } := by
  refine ⟨h.build, h.nCurs, h.readonly, ?_, hw, congrArg Disk.contents h.disk, ?_,
    fun _ => h.disk⟩
  · rw [h.p]
  · exact fun hne => absurd hwriters hne

theorem closeAll_single {s : BtreeSavepoint} (hsvp : w.p.svp = [s]) (nTo : ℤ) (commit : Bool)
    (tripCode : Rc) (Q : Rc → World → Prop) :
    Ensures E (closeAllSavepoints nTo commit tripCode) Q w ↔ Q 0 w := by
  rw [closeAllSavepoints, ensures_bind, ensures_getP, hsvp]
  rfl

/-- The one transaction left on the stack: the outermost writer, or a snapshot. -/
inductive LastTxn (w w₁ : World) (s : BtreeSavepoint) : Prop
  | writer (b : WriteTxn) (hne : w.env.writers ≠ []) (hwriters : w₁.env.writers = [b])
      (ht : s.txn = b.id)
  | reader (hwriters : w.env.writers = []) (hwriters₁ : w₁.env.writers = [])
      (hkind : w₁.env.kind s.txn = some .readOnly)

/-- Aborting the last transaction and forgetting it. -/
theorem endTxn_spec {w₁ : World} {s : BtreeSavepoint} (h : Still w w₁) (hsvp : w₁.p.svp = [s])
    (hlast : LastTxn w w₁ s) {f : Btree → Btree}
    (hf : ∀ p, p.svp = [s] → f p = { p with svp := [], inTrans := .none }) :
    Ensures E (do
      let txn ← topTxn
      lmdb (mdbTxnAbort txn)
      setP f
      pure sqliteOk) (fun rc w' => rc = sqliteOk ∧ Ended w w') w₁ := by
  rw [ensures_bind, ensures_topTxn hsvp, ensures_bind, ensures_lmdb]
  cases hlast with
  | writer b hne hwriters ht =>
    rw [ht, documented.txnAbort hwriters, ensures_bind, ensures_setP, ensures_pure]
    refine ⟨rfl, ?_⟩
    rw [hf _ hsvp]
    exact .of_abort h hne hwriters
  | reader hwriters hwriters₁ hkind =>
    rw [documented.txnAbort_reader hkind, ensures_bind, ensures_setP, ensures_pure]
    refine ⟨rfl, ?_⟩
    rw [hf _ hsvp]
    exact .of_endReader h hwriters hwriters₁ _

/-- Closing every nested level leaves one transaction, with or without an error. -/
theorem closeAll_last (hE : Lenient E w) (hstack : TxnStack w) (hin : w.p.inTrans ≠ .none)
    {nTo : ℤ} (hn : nTo < 0) (commit : Bool) (tripCode : Rc) :
    Ensures E (closeAllSavepoints nTo commit tripCode) (fun rc w₁ => LevelsOnly w w₁ ∧
      (commit = false → tripCode ≠ sqliteOk → rc = 0) ∧
      ∃ s, w₁.p.svp = [s] ∧ LastTxn w w₁ s ∧
        (commit = false → w.env.writers.getLast? = w₁.env.writers.head?)) w := by
  cases hstack with
  | idle hsvp hnone hwriters => exact absurd hnone hin
  | reading s snapshot hsvp hread hwriters hserial hkind hview =>
    rw [closeAll_single hsvp]
    exact ⟨Frame.refl w, fun _ _ => rfl, s, hsvp, .reader hwriters hwriters hkind,
      fun _ => by rw [hwriters]; rfl⟩
  | writing hne hal hnum hin =>
    refine (closeAll_bottom hE hal hne hnum hn commit tripCode).imp fun rc w₁ h => ?_
    obtain ⟨s, b, h⟩ := h
    refine ⟨h.only, fun hcom htrip => h.quiet hcom (.inl htrip), s, h.svp,
      .writer b (hal.writers_ne hne) h.writers h.txn, fun hcom => ?_⟩
    rw [h.aborted (.inl hcom), h.writers]
    rfl

/-- Invalidating cursors leaves the last transaction there. -/
theorem LastTxn.invalidated {w₁ w₂ : World} {s : BtreeSavepoint} (h : LastTxn w w₁ s)
    (hc : CursorsOnly w₁ w₂) : LastTxn w w₂ s := by
  cases h with
  | writer b hne hwriters ht => exact .writer b hne (hc.env.writers.trans hwriters) ht
  | reader hwriters hwriters₁ hkind =>
    exact .reader hwriters (hc.env.writers.trans hwriters₁)
      ((kind_congr hc.env.writers hc.env.readers _).trans hkind)

theorem rollback_spec (hE : Lenient E w) (hstack : TxnStack w) (tripCode : Rc) (writeOnly : Bool) :
    Ensures E (sqlite3BtreeRollback tripCode writeOnly) (fun rc w' => rc = sqliteOk ∧
      (w.p.inTrans = .none ∧ w' = w ∨ w.p.inTrans ≠ .none ∧ Ended w w')) w := by
  rw [sqlite3BtreeRollback, ensures_bind, ensures_getP]
  by_cases hin : w.p.inTrans = .none
  · rw [if_pos hin]
    exact ⟨rfl, .inl ⟨hin, rfl⟩⟩
  · rw [if_neg hin, ensures_bind]
    refine (closeAll_last hE hstack hin (by decide) false tripCode).imp fun _ w₁ h => ?_
    obtain ⟨honly, -, s, hsvp, hlast, -⟩ := h
    have hE₁ : Lenient E w₁ := hE.of_eq (by rw [honly.p])
    rw [ensures_bind]
    refine (invalidateCursors_spec hE₁ tripCode writeOnly).imp fun _ w₂ hc => ?_
    refine (endTxn_spec (Frame.trans honly hc.1.levelsOnly : LevelsOnly w w₂).still (by rw [hc.1.p, hsvp])
      (hlast.invalidated hc.1) fun p hp => rfl).imp fun rc w' h => ⟨h.1, .inr ⟨hin, h.2⟩⟩

/-- What `sqlite3BtreeSavepoint` does to the levels: `k` are closed, or all and the transaction
ends, or none is left to close. -/
inductive SavepointDone (op : SavepointOp) (iSavepoint : ℤ) (w : World) (rc : Rc) (w' : World) : Prop
  | same (hw : w' = w) (hwriters : w.env.writers = [])
  | closed (rc' : Rc) (hrc : rc = errorMap rc') (hfail : iSavepoint < 0 → rc' ≠ 0)
      (hne : w.p.svp ≠ []) (hal : Aligned w) (hnum : Numbered w.p)
      (h : LevelsClosed (closedCount iSavepoint w.p.svp) (op = .release) sqliteOk 0 w rc' w')
  | ended (hneg : iSavepoint < 0) (hrc : rc = sqliteOk) (hended : Ended w w')

/-- Outside a transaction a negative number makes the code follow `p->svp` to nothing. -/
theorem savepoint_spec (hE : Lenient E w) (hnull : E .nullPointer) (hstack : TxnStack w)
    (op : SavepointOp) (iSavepoint : ℤ) :
    Ensures E (sqlite3BtreeSavepoint op iSavepoint) (fun rc w' =>
      SavepointDone op iSavepoint w rc w') w := by
  rw [sqlite3BtreeSavepoint, ensures_bind]
  -- the end of the transaction, from where only one level is left
  have hend : ∀ (w₁ : World) (s : BtreeSavepoint), iSavepoint < 0 → LevelsOnly w w₁ →
      w₁.p.svp = [s] → LastTxn w w₁ s → Ensures E (do
        let _ ← invalidateCursors sqliteOk false
        let txn ← topTxn
        lmdb (mdbTxnAbort txn)
        setP fun p => { p with svp := p.svp.tail, inTrans := .none }
        pure sqliteOk) (fun rc w' => SavepointDone op iSavepoint w rc w') w₁ := by
    intro w₁ s hneg honly hsvp hlast
    have hE₁ : Lenient E w₁ := hE.of_eq (by rw [honly.p])
    rw [ensures_bind]
    refine (invalidateCursors_spec hE₁ sqliteOk false).imp fun _ w₂ hc => ?_
    refine (endTxn_spec (Frame.trans honly hc.1.levelsOnly : LevelsOnly w w₂).still (by rw [hc.1.p, hsvp])
      (hlast.invalidated hc.1) fun p hp => by rw [hp]; rfl).imp fun rc w' h => .ended hneg h.1 h.2
  cases hstack with
  | idle hsvp hnone hwriters =>
    rw [closeAllSavepoints, ensures_bind, ensures_getP, hsvp]
    refine (ensures_pure _).mpr ?_
    rw [if_neg (not_not.mpr rfl), ensures_ite]
    split_ifs with hn
    · exact .same rfl hwriters
    · rw [ensures_bind]
      refine (invalidateCursors_spec hE sqliteOk false).imp fun _ w₂ hc => ?_
      rw [ensures_bind, topTxn, ensures_bind, ensures_getP, hc.1.p, hsvp]
      exact hnull
  | reading s snapshot hsvp hread hwriters hserial hkind hview =>
    rw [closeAll_single hsvp, if_neg (not_not.mpr rfl), ensures_ite]
    split_ifs with hn
    · exact .same rfl hwriters
    · exact hend w s (by omega) (Frame.refl w) hsvp (.reader hwriters hwriters hkind)
  | writing hne hal hnum hin =>
    by_cases hn : 0 ≤ iSavepoint
    · refine (closeAllSavepoints_spec iSavepoint _ sqliteOk hE hal).imp fun rc w₁ h => ?_
      rw [ensures_ite]
      have hfail : iSavepoint < 0 → rc ≠ 0 := fun hneg => by omega
      split_ifs with hrc
      · exact .closed rc rfl hfail hne hal hnum h
      · exact .closed rc (by rw [not_not.mp hrc]; rfl) hfail hne hal hnum h
    · refine ((closeAllSavepoints_spec iSavepoint _ sqliteOk hE hal).and
        (closeAll_last hE (.writing hne hal hnum hin) hin (by omega) _ sqliteOk)).imp
          fun rc w₁ h => ?_
      obtain ⟨h, honly, -, s, hsvp, hlast, -⟩ := h
      rw [ensures_ite]
      by_cases hrc : rc ≠ 0
      · rw [if_pos hrc]
        exact .closed rc rfl (fun _ => hrc) hne hal hnum h
      · rw [if_neg hrc, if_neg hn]
        exact hend w₁ s (by omega) honly hsvp hlast

/-- The commit counter as the commit reads it, and what it writes. -/
def counterOf (w : World) (top : Contents) : ℤ :=
  if w.p.hasData then
    meta64 w.fixedRowid top ((w.env.answers .get).headD 0) lumoLmdbMetaCounter
  else 0

def bumped (w : World) (top : Contents) : Contents :=
  Function.update top .metadata (some (putEntry ((top .metadata).getD [])
    (metaKey lumoLmdbMetaCounter)
    (put8 w.fixedRowid (toU64 (Int.bmod (counterOf w top + 1) (2 ^ 32))))))

/-- Everything before the commit of the outermost transaction succeeds, and it fails. -/
def CommitStops (w : World) : Prop :=
  (∀ i < w.p.svp.length - 1, (w.env.answers .txnCommit).getD i 0 = 0) ∧ w.p.hasData = true ∧
    (w.env.answers .put).headD 0 = 0 ∧ (w.env.answers .txnCommit).getD (w.p.svp.length - 1) 0 ≠ 0

/-- The counter cannot be written. -/
def CounterStops (w : World) : Prop :=
  w.p.hasData = false ∨ (w.env.answers .put).headD 0 ≠ 0 ∨
    (w.env.writers.head?.bind fun t => t.view .metadata) = none

/-- A commit on the way fails, or the counter cannot be written. -/
def PhaseOneFails (w : World) : Prop :=
  (∃ i < w.p.svp.length, (w.env.answers .txnCommit).getD i 0 ≠ 0) ∨ CounterStops w

/-- What `sqlite3BtreeCommitPhaseOne` does to a write transaction. -/
inductive PhaseOne (w : World) (rc : Rc) (w' : World) : Prop
  | nested (s : BtreeSavepoint) (b : WriteTxn) (hrc : rc ≠ sqliteOk) (honly : LevelsOnly w w')
      (hsvp : w'.p.svp = [s]) (hwriters : w'.env.writers = [b]) (ht : s.txn = b.id)
      (hb : w.env.writers.getLast? = some b)
      (hcause : ∃ i < w.p.svp.length - 1, (w.env.answers .txnCommit).getD i 0 ≠ 0)
  | dropped (hrc : rc ≠ sqliteOk) (hended : Ended w w') (hcause : CounterStops w)
  | failed (s : BtreeSavepoint) (hrc : rc ≠ sqliteOk) (hbuild : w'.fixedRowid = w.fixedRowid)
      (hreadonly : w'.env.readonly = w.env.readonly)
      (hp : w'.p = { w.p with svp := [s], inTrans := .none }) (hwriters : w'.env.writers = [])
      (hdisk : w'.env.disk = { w.env.disk with locked := false }) (hcause : CommitStops w)
  | done (t : WriteTxn) (hrc : rc = sqliteOk) (hbuild : w'.fixedRowid = w.fixedRowid)
      (hnCurs : w'.nCurs = w.nCurs) (hreadonly : w'.env.readonly = w.env.readonly)
      (hp : w'.p = { w.p with svp := [], inTrans := .none }) (hwriters : w'.env.writers = [])
      (ht : w.env.writers.head? = some t) (hdata : (t.view .metadata).isSome = true)
      (hdisk : w'.env.disk = ⟨bumped w t.view, false⟩) (hcause : ¬ PhaseOneFails w)

/-- The last transaction is committed, or ends without effect. -/
theorem commitOutermost_spec {s : BtreeSavepoint} {b : WriteTxn} (hsvp : w.p.svp = [s])
    (ht : s.txn = b.id) (hwriters : w.env.writers = [b]) {Q : Rc → World → Prop}
    (hfail : (w.env.answers .txnCommit).headD 0 ≠ 0 → ∀ w', w'.fixedRowid = w.fixedRowid →
      w'.env.readonly = w.env.readonly → w'.p = { w.p with inTrans := .none } → w'.env.writers = [] →
      w'.env.disk = { w.env.disk with locked := false } →
      Q (errorMap ((w.env.answers .txnCommit).headD 0)) w')
    (hok : (w.env.answers .txnCommit).headD 0 = 0 → ∀ w', w'.fixedRowid = w.fixedRowid →
      w'.nCurs = w.nCurs → w'.env.readonly = w.env.readonly →
      w'.p = { w.p with svp := [], inTrans := .none } →
      w'.env.writers = [] → w'.env.disk = ⟨b.view, false⟩ → Q sqliteOk w') :
    Ensures E (commitOutermost 0) Q w := by
  have hwpop : (w.env.pop .txnCommit).writers = [b] := hwriters
  rw [commitOutermost, ensures_bind, ensures_topTxn hsvp, if_neg (not_not.mpr rfl), ensures_bind,
    ensures_lmdb, ht, documented.txnCommit hwriters]
  by_cases hcode : (w.env.answers .txnCommit).headD 0 ≠ 0
  · have habort := abort_writer hwpop
    have hreadonly : ((w.env.pop .txnCommit).abort b.id).readonly = w.env.readonly := by
      rw [habort]
      rfl
    rw [if_pos hcode, ensures_bind, ensures_setP, if_pos hcode, ensures_pure]
    exact hfail hcode _ rfl hreadonly rfl (congrArg Env.writers habort)
      (congrArg Env.disk habort)
  · rw [if_neg hcode, ensures_bind, ensures_setP, if_neg (not_not.mpr rfl), ensures_bind,
      ensures_setP, ensures_pure, commit_outermost hwpop]
    exact hok (not_not.mp hcode) _ rfl rfl rfl rfl rfl rfl

theorem commitPhaseOne_spec (hE : Lenient E w) (hal : Aligned w) (hne : w.p.svp ≠ [])
    (hnum : Numbered w.p) (hin : w.p.inTrans = .write) :
    Ensures E sqlite3BtreeCommitPhaseOne (PhaseOne w) w := by
  rw [sqlite3BtreeCommitPhaseOne, ensures_bind, ensures_getP, if_neg (by rw [hin]; decide), hin]
  rw [ensures_bind]
  refine (closeAll_bottom hE hal hne hnum (by decide) _ sqliteInternal).imp fun rc w₁ h => ?_
  obtain ⟨s, b, h⟩ := h
  by_cases hrc : rc ≠ 0
  · rw [if_pos hrc, ensures_pure]
    exact .nested s b (fun hok => hrc ((errorMap_eq_ok _).mp hok)) h.only h.svp h.writers h.txn
      (h.aborted (.inr hrc)) (h.cause (.inl (by decide)) hrc)
  have hok : rc = 0 := not_not.mp hrc
  obtain ⟨hhead, hcodes, hzero⟩ := h.committed rfl hok
  have hE₁ : Lenient E w₁ := hE.of_eq (by rw [h.only.p])
  rw [if_neg hrc, ensures_bind]
  refine (invalidateCursors_spec hE₁ sqliteInternal false).imp fun _ w₂ hc => ?_
  have honly : LevelsOnly w w₂ := Frame.trans h.only hc.1.levelsOnly
  have hsvp₂ : w₂.p.svp = [s] := by rw [hc.1.p, h.svp]
  have hw₂ : w₂.env.writers = [b] := hc.1.env.writers.trans h.writers
  have hcommit₂ : w₂.env.answers .txnCommit =
      (w.env.answers .txnCommit).drop (w.p.svp.length - 1) :=
    (hc.1.env.answers _ (by decide) (by decide)).trans hcodes
  have hkind : w₂.env.kind s.txn = some .readWrite := by rw [h.txn]; exact kind_writer hw₂
  have hview : w₂.env.view s.txn = some b.view := by rw [h.txn]; exact view_writer hw₂
  obtain ⟨codes, hread, hother, -⟩ := readMeta_eq w₂
  have hdata₂ : w₂.p.hasData = w.p.hasData := by rw [honly.p]
  have hget₂ : w₂.env.answers .get = w.env.answers .get :=
    honly.answers _ (by decide) (by decide) (by decide)
  have hput : codes .put = w.env.answers .put :=
    (hother _ (by decide)).trans (honly.answers _ (by decide) (by decide) (by decide))
  have hcounter : (if w₂.p.hasData then meta64 w₂.fixedRowid b.view
      ((w₂.env.answers .get).headD 0) lumoLmdbMetaCounter else 0) = counterOf w b.view := by
    rw [counterOf, hdata₂, hget₂, honly.build]
  rw [if_pos rfl, ensures_bind, ensures_getMeta64 hsvp₂ hkind hview, hread, hcounter, ensures_bind]
  -- the end when the counter cannot be written
  have hne' := hne
  have hdrop : ∀ (rc : Rc) (w₃ : World), rc ≠ 0 → Still w w₃ → w₃.p.svp = [s] →
      w₃.env.writers = [b] → CounterStops w →
      Ensures E (commitOutermost rc) (PhaseOne w) w₃ := by
    intro rc w₃ hne hstill hsvp hwriters hcause
    rw [commitOutermost, ensures_bind, ensures_topTxn hsvp, if_pos hne, ensures_bind, ensures_lmdb, h.txn,
      documented.txnAbort hwriters, ensures_bind, ensures_setP, ensures_pure]
    exact .dropped (fun hok => hne ((errorMap_eq_ok _).mp hok)) 
      (.of_abort hstill (hal.writers_ne hne') hwriters) hcause
  have hsvp₃ : ({ w₂ with env := { w₂.env with answers := codes } } : World).p.svp = [s] := hsvp₂
  have hw₃ : ({ w₂ with env := { w₂.env with answers := codes } } : World).env.writers = [b] := hw₂
  have hstill : Still w w₂ := honly.still
  have hp₂ : w₂.p = { w.p with svp := [s] } := honly.p.trans (by rw [hsvp₂])
  have hstill₃ : ∀ answers, Still w { w₂ with env := { w₂.env with answers := answers } } :=
    fun _ => ⟨hstill.build, hstill.p, hstill.nCurs, hstill.disk, hstill.readonly⟩
  refine (ensures_putMeta64 hsvp₃ hw₃ h.txn _ _ _).mpr ?_
  by_cases hdata : w₂.p.hasData = true
  · rw [if_neg (by rw [hdata]; decide)]
    by_cases hputrc : (codes .put).headD 0 ≠ 0
    · rw [if_pos hputrc]
      refine hdrop _ _ hputrc (hstill₃ _) hsvp₂ hw₂ (.inr (.inl ?_))
      rw [← hput]
      exact hputrc
    · rw [if_neg hputrc]
      cases hes : b.view .metadata with
      | none =>
        obtain ⟨t, ht, htb⟩ := Option.map_eq_some_iff.mp hhead
        refine hdrop _ _ (by decide) (hstill₃ _) hsvp₂ hw₂ (.inr (.inr ?_))
        rw [ht, Option.bind_some, htb, hes]
      | some es =>
        have hw₄ : (({ w₂ with env := { w₂.env with answers := codes } } : World).pop
            .put).env.writers = [b] := hw₂
        have hcode : (({ w₂ with env := { w₂.env with answers := codes } } : World).pop
            .put).env.answers .txnCommit =
              (w.env.answers .txnCommit).drop (w.p.svp.length - 1) := by
          rw [← hcommit₂, ← hother .txnCommit (by decide)]
          exact pop_answers_of_ne (e := { w₂.env with answers := codes }) (c := .put)
            (d := .txnCommit) (by decide)
        have hgetD : ∀ (l : List Rc) (k : ℕ), (l.drop k).headD 0 = l.getD k 0 := fun l k => by
          rw [List.headD_eq_head?_getD, List.head?_drop, List.getD_eq_getElem?_getD]
        obtain ⟨t, ht, htb⟩ := Option.map_eq_some_iff.mp hhead
        have hbumped : Function.update b.view .metadata (some (putEntry es
            (metaKey lumoLmdbMetaCounter) (put8 w₂.fixedRowid
              (toU64 (Int.bmod (counterOf w b.view + 1) (2 ^ 32)))))) = bumped w t.view := by
          have hbuild : w₂.fixedRowid = w.fixedRowid := honly.build
          rw [bumped, htb, hes, hbuild]
          rfl
        refine commitOutermost_spec (b := { b with view := bumped w t.view }) (by exact hsvp₂)
          (by exact h.txn) (by rw [← hbumped]; exact setView_writers hw₄ _ _) (fun hne w' hbuild hreadonly hp hwriters hdisk => ?_)
          fun hzero' w' hbuild hnCurs hreadonly hp hwriters hdisk => ?_
        · refine .failed s (fun hok => hne ((errorMap_eq_ok _).mp hok)) (hbuild.trans hstill.build)
            (hreadonly.trans hstill.readonly) ?_ hwriters ?_ ⟨hzero, ?_, ?_, ?_⟩
          · exact hp.trans (congrArg (fun p : Btree => { p with inTrans := .none }) hp₂)
          · exact hdisk.trans (congrArg (fun d : Disk => { d with locked := false }) hstill.disk)
          · rw [← hdata₂, hdata]
          · rw [← hput]
            exact not_not.mp hputrc
          · rw [← hgetD, ← hcode]
            exact hne
        · refine .done t rfl (hbuild.trans hstill.build) (hnCurs.trans hstill.nCurs)
            (hreadonly.trans hstill.readonly) ?_ hwriters ht ?_ hdisk ?_
          · exact hp.trans (congrArg (fun p : Btree => { p with svp := [], inTrans := .none }) hp₂)
          · rw [htb, hes]
            rfl
          · rintro (⟨i, hi, hne⟩ | hf | hf | hf)
            · by_cases hlast : i < w.p.svp.length - 1
              · exact hne (hzero i hlast)
              · have hi' : i = w.p.svp.length - 1 := by omega
                rw [hi', ← hgetD, ← hcode] at hne
                exact hne hzero'
            · rw [← hdata₂, hdata] at hf
              cases hf
            · rw [← hput] at hf
              exact hputrc hf
            · rw [ht, Option.bind_some, htb, hes] at hf
              cases hf
  · rw [if_pos (by rw [Bool.not_eq_true] at hdata; rw [hdata]; rfl)]
    refine hdrop _ _ (by decide) (hstill₃ _) hsvp₂ hw₂ (.inl ?_)
    rw [← hdata₂]
    exact Bool.eq_false_iff.mpr hdata

/-- Phase one returns an error exactly when something on its way fails. -/
theorem PhaseOne.fails_iff {rc : Rc} {w' : World} (h : PhaseOne w rc w') (hne : w.p.svp ≠ []) :
    rc ≠ sqliteOk ↔ PhaseOneFails w := by
  have hpos := List.length_pos_iff.mpr hne
  cases h with
  | nested s b hrc _ _ _ _ _ hcause =>
    obtain ⟨i, hi, hcode⟩ := hcause
    exact iff_of_true hrc (.inl ⟨i, by omega, hcode⟩)
  | dropped hrc _ hcause => exact iff_of_true hrc (.inr hcause)
  | failed s hrc _ _ _ _ _ hcause =>
    exact iff_of_true hrc (.inl ⟨w.p.svp.length - 1, by omega, hcause.2.2.2⟩)
  | done t hrc _ _ _ _ _ _ _ _ hcause => exact iff_of_false (not_not.mpr hrc) hcause

/-- Without a write, phase one ends the transaction. -/
theorem commitPhaseOne_read (hE : Lenient E w) (hstack : TxnStack w) (hin : w.p.inTrans = .read) :
    Ensures E sqlite3BtreeCommitPhaseOne (fun rc w' => rc = sqliteOk ∧ Ended w w') w := by
  have hne : w.p.inTrans ≠ .none := by rw [hin]; decide
  rw [sqlite3BtreeCommitPhaseOne, ensures_bind, ensures_getP, if_neg hne, hin, ensures_bind]
  refine (closeAll_last hE hstack hne (by decide) _ sqliteInternal).imp fun rc w₁ h => ?_
  obtain ⟨honly, hquiet, s, hsvp, hlast, -⟩ := h
  have hE₁ : Lenient E w₁ := hE.of_eq (by rw [honly.p])
  rw [if_neg (not_not.mpr (hquiet rfl (by decide))), ensures_bind]
  refine (invalidateCursors_spec hE₁ sqliteInternal false).imp fun _ w₂ hc => ?_
  rw [if_neg (by decide)]
  exact endTxn_spec (Frame.trans honly hc.1.levelsOnly : LevelsOnly w w₂).still
    (by rw [hc.1.p, hsvp]) (hlast.invalidated hc.1) fun p hp => rfl

end End

end LumoSql.Btree
