import LumoSql.MetadataCursors
import LumoSql.TransactionState

/-! An open write transaction: what every run of calls inside it keeps, whichever calls of
LMDB fail. The disk stays as it was, and so does the commit counter. -/
namespace LumoSql.Btree
open StateLogic Lmdb

/-- The metadata a write transaction sees is in order, with the commit counter of `before`. -/
def KeepsCounter (before : Contents) (t : WriteTxn) : Prop :=
  HasMetadata (t.view .metadata) ∧ counterEntry (t.view .metadata) = counterEntry (before .metadata)

/-- A write transaction on a disk with the contents `before`. -/
structure InWrite (before : Contents) (w : World) : Prop where
  nonempty : w.p.svp ≠ []
  aligned : Aligned w
  numbered : Numbered w.p
  inTrans : w.p.inTrans = .write ∨ w.p.inTrans = .read ∧ w.p.transType = transactionSerialise
  opened : w.env.readonly = w.p.readonly
  metaFree : MetaFree w.env
  disk : w.env.disk.contents = before
  counter : ∀ t ∈ w.env.writers, KeepsCounter before t

theorem InWrite.open {before : Contents} {w : World} (h : InWrite before w) :
    w.p.inTrans ≠ .none := by
  rcases h.inTrans with hw | ⟨hr, _⟩
  · rw [hw]
    decide
  · rw [hr]
    decide

theorem InWrite.stack {before : Contents} {w : World} (h : InWrite before w) : TxnStack w :=
  .writing h.nonempty h.aligned h.numbered h.open

theorem InWrite.exists_writer {before : Contents} {w : World} (h : InWrite before w) :
    ∃ t ts, w.env.writers = t :: ts := by
  cases hw : w.env.writers with
  | nil =>
    have hids := h.aligned.ids
    rw [hw] at hids
    exact absurd (List.map_eq_nil_iff.mp hids) h.nonempty
  | cons t ts => exact ⟨t, ts, rfl⟩

/-- The state of a call, with the codes LMDB gives during it. -/
def World.answering (w : World) (answers : Answers) : World :=
  { w with env := { w.env with answers := answers } }

/-- The calls made inside a write transaction. -/
inductive WriteCall
  | data (call : DataCall)
  | beginTrans (wrFlag pSchemaVersion : Bool)
  | beginStmt (iStatement : ℕ)
  | savepoint (op : SavepointOp) (iSavepoint : ℕ)

def WriteCall.run : WriteCall → Call Unit
  | data call => call.run
  | beginTrans wrFlag pSchemaVersion => ignore (sqlite3BtreeBeginTrans wrFlag pSchemaVersion)
  | beginStmt iStatement => ignore (sqlite3BtreeBeginStmt iStatement)
  | savepoint op iSavepoint => ignore (sqlite3BtreeSavepoint op iSavepoint)

def WriteCall.Allowed (call : WriteCall) (w : World) : Prop :=
  match call with
  | data call => call.Allowed w
  | _ => True

structure WriteStep where
  call : WriteCall
  answers : Answers

def writeStep (k : WriteStep) : Call Unit := do
  Prog.modify fun w => w.answering k.answers
  k.call.run

def WriteStep.Allowed (k : WriteStep) (w : World) : Prop := k.call.Allowed w

section Step

variable {before : Contents} {w : World}

theorem InWrite.answersOnly {w' : World} (h : InWrite before w) (ha : AnswersOnly w w') :
    InWrite before w' := by
  obtain ⟨a, rfl⟩ := ha
  exact ⟨h.nonempty, ⟨h.aligned.ids, h.aligned.locked⟩, h.numbered, h.inTrans, h.opened,
    ⟨h.metaFree.cursors, h.metaFree.shadows⟩, h.disk, h.counter⟩

/-- The calls on tables keep the transaction. -/
theorem InWrite.tables {w' : World} (h : InWrite before w) (ht : TablesOnly w w') :
    InWrite before w' := by
  have hsvp : w'.p.svp = w.p.svp := by rw [ht.p]
  refine ⟨by rw [hsvp]; exact h.nonempty, ⟨?_, by rw [ht.env.disk]; exact h.aligned.locked⟩, ?_, ?_,
    ?_, ht.env.metaFree, by rw [ht.env.disk]; exact h.disk, ?_⟩
  · rw [hsvp, ht.env.writers.ids]
    exact h.aligned.ids
  · rw [Numbered, hsvp]
    exact h.numbered
  · rw [ht.p]
    exact h.inTrans
  · rw [ht.env.readonly, ht.p]
    exact h.opened
  · have hcounter := h.counter
    have hhead := ht.env.writers
    revert hhead hcounter
    generalize w.env.writers = ts
    generalize w'.env.writers = ts'
    rintro hcounter hhead t ht
    cases hhead with
    | nil => cases ht
    | cons u us view hwritten =>
      rcases List.mem_cons.mp ht with rfl | ht
      · obtain ⟨hdata, hsame⟩ := hcounter u List.mem_cons_self
        obtain ⟨hdata', hsame'⟩ := hwritten.counter hdata
        exact ⟨hdata', hsame'.trans hsame⟩
      · exact hcounter t (List.mem_cons_of_mem _ ht)

theorem InWrite.beginTrans (h : InWrite before w) (wrFlag pSchemaVersion : Bool) :
    Ensures (fun _ => True) (sqlite3BtreeBeginTrans wrFlag pSchemaVersion)
      (fun _ w' => InWrite before w') w := by
  refine (beginTrans_spec (.inl fun _ => trivial) (fun _ => trivial) h.stack h.opened wrFlag
    pSchemaVersion fun _ _ hr htype => ?_).imp fun r w' hres => ?_
  · rcases h.inTrans with hw | ⟨_, hserial⟩
    · exact absurd (hw.symm.trans hr) (by decide)
    · exact absurd (hserial.symm.trans htype) (by decide)
  obtain ⟨-, hres⟩ := hres
  cases hres with
  | same ha _ _ => exact h.answersOnly ha
  | failed hrc hin _ _ _ _ => exact absurd hin h.open
  | began w₁ hrc hin _ _ _ => exact absurd hin h.open
  | serial hrc hin hwr hro htype ha =>
    have hserial : InWrite before { w with p := { w.p with inTrans := .write } } :=
      ⟨h.nonempty, ⟨h.aligned.ids, h.aligned.locked⟩, h.numbered, .inl rfl, h.opened, h.metaFree,
        h.disk, h.counter⟩
    exact hserial.answersOnly ha
  | upgraded s snapshot w₁ hin _ _ _ _ hwriters _ _ _ _ =>
    obtain ⟨t, ts, hw⟩ := h.exists_writer
    exact absurd (hwriters.symm.trans hw) (by simp)

theorem InWrite.beginStmt (h : InWrite before w) (iStatement : ℕ) :
    Ensures (fun _ => True) (sqlite3BtreeBeginStmt iStatement) (fun _ w' => InWrite before w') w := by
  refine ((beginStmt_spec h.stack h.open iStatement).keep (orderly_beginStmt iStatement)).imp
    fun rc w' hres => ?_
  obtain ⟨⟨hsame, hres⟩, horder⟩ := hres
  cases hres with
  | same hrc ha => exact h.answersOnly ha
  | opened t ts hrc hw hp hwriters hdisk =>
    refine ⟨by rw [hp]; simp, ⟨?_, by rw [hdisk]; exact h.aligned.locked⟩, ?_, ?_, ?_,
      (horder h.metaFree).metaFree, by rw [hdisk]; exact h.disk, ?_⟩
    · rw [hp, hwriters, List.map_cons, List.map_cons, h.aligned.ids]
    · rw [hp]
      intro s hs
      rw [List.dropLast_cons_of_ne_nil h.nonempty] at hs
      rcases List.mem_cons.mp hs with rfl | hs
      · exact Int.natCast_nonneg _
      · exact h.numbered s hs
    · rw [hp]
      exact h.inTrans
    · rw [hsame.readonly, hp]
      exact h.opened
    · intro u hu
      rw [hwriters] at hu
      rcases List.mem_cons.mp hu with rfl | hu
      · exact h.counter t (by rw [hw]; exact List.mem_cons_self)
      · exact h.counter u hu

/-- What is left when levels have been closed. -/
theorem LevelsClosed.writers {k : ℕ} {commit : Bool} {tripCode rc rc' : Rc} {w w' : World}
    (h : LevelsClosed k commit tripCode rc w rc' w') :
    w'.env.writers = w.env.writers.drop k ∨ w'.env.writers = mergeLevels k w.env.writers := by
  by_cases hcom : commit = true ∧ rc' = 0
  · exact .inr (h.committed hcom.1 hcom.2).1
  · refine .inl (h.aborted ?_)
    cases commit with
    | false => exact .inl rfl
    | true => exact .inr fun h0 => hcom ⟨rfl, h0⟩

/-- The transactions around those that are closed stay. -/
theorem LevelsClosed.tail {k : ℕ} {commit : Bool} {tripCode rc rc' : Rc} {w w' : World}
    (h : LevelsClosed k commit tripCode rc w rc' w') (hk : k < w.env.writers.length) :
    w'.env.writers.tail = w.env.writers.tail.drop k := by
  have hdrop : (w.env.writers.drop k).tail = w.env.writers.tail.drop k := by
    rw [List.tail_drop, List.drop_tail]
  rcases h.writers with hw | hw
  · rw [hw, hdrop]
  · rw [hw, ← hdrop]
    revert hk
    generalize w.env.writers = ts
    intro hk
    cases ts with
    | nil => cases hk
    | cons t ts => rw [mergeLevels_eq (List.drop_eq_getElem_cons hk), List.drop_eq_getElem_cons hk,
        List.tail_cons, List.tail_cons]

theorem mem_mergeLevels {k : ℕ} {ts : List WriteTxn} (hk : k < ts.length) {u : WriteTxn}
    (hu : u ∈ mergeLevels k ts) : ∃ v ∈ ts, u.view = v.view := by
  cases ts with
  | nil => cases hk
  | cons t ts =>
    rw [mergeLevels_eq (List.drop_eq_getElem_cons hk)] at hu
    rcases List.mem_cons.mp hu with rfl | hu
    · exact ⟨t, List.mem_cons_self, rfl⟩
    · exact ⟨u, List.mem_of_mem_drop hu, rfl⟩

/-- Closing nested levels keeps the transaction. -/
theorem InWrite.closed {w' : World} {k : ℕ} {commit : Bool} {tripCode rc rc' : Rc}
    (h : InWrite before w) (hclosed : LevelsClosed k commit tripCode rc w rc' w')
    (hlt : k < w.p.svp.length) (hfree : MetaFree w'.env) : InWrite before w' := by
  have hlen : k < w.env.writers.length := by
    have := congrArg List.length h.aligned.ids
    rw [List.length_map, List.length_map] at this
    omega
  have honly := hclosed.only
  refine ⟨?_, hclosed.aligned h.aligned hlt, ?_, ?_, ?_, hfree, ?_, ?_⟩
  · rw [hclosed.svp]
    exact List.ne_nil_of_length_pos (by rw [List.length_drop]; omega)
  · intro s hs
    rw [hclosed.svp, List.dropLast_drop_eq_drop_dropLast] at hs
    exact h.numbered s (List.mem_of_mem_drop hs)
  · rw [honly.p]
    exact h.inTrans
  · rw [honly.readonly, honly.p]
    exact h.opened
  · rw [honly.disk]
    exact h.disk
  · intro u hu
    rcases hclosed.writers with hw | hw
    · rw [hw] at hu
      exact h.counter u (List.mem_of_mem_drop hu)
    · rw [hw] at hu
      obtain ⟨v, hv, hview⟩ := mem_mergeLevels hlen hu
      rw [KeepsCounter, hview]
      exact h.counter v hv

theorem InWrite.savepoint (h : InWrite before w) (op : SavepointOp) (iSavepoint : ℕ) :
    Ensures (fun _ => True) (sqlite3BtreeSavepoint op iSavepoint)
      (fun _ w' => InWrite before w') w := by
  refine ((savepoint_spec (.inl fun _ => trivial) trivial h.stack op iSavepoint).keep
    (orderly_savepoint op iSavepoint)).imp fun rc w' hres => ?_
  obtain ⟨hres, horder⟩ := hres
  cases hres with
  | same hw _ => rw [hw]; exact h
  | ended hneg _ _ => exact absurd hneg (by omega)
  | closed rc' hrc _ hne _ _ hclosed =>
    exact h.closed hclosed (closedCount_lt iSavepoint w.p.svp hne) (horder h.metaFree).metaFree

theorem writeStep_inWrite (h : InWrite before w) {k : WriteStep} (hallowed : k.Allowed w) :
    Ensures (fun _ => True) (writeStep k) (fun _ w' => InWrite before w') w := by
  have hw : InWrite before (w.answering k.answers) := h.answersOnly ⟨k.answers, rfl⟩
  rw [writeStep, ensures_bind, ensures_modify]
  rw [WriteStep.Allowed] at hallowed
  cases hcall : k.call with
  | data call =>
    rw [hcall] at hallowed
    exact (dataCall_spec hw.metaFree hallowed).imp fun _ _ ht => hw.tables ht
  | beginTrans wrFlag pSchemaVersion =>
    rw [WriteCall.run, ignore, ensures_bind]
    exact hw.beginTrans wrFlag pSchemaVersion
  | beginStmt iStatement =>
    rw [WriteCall.run, ignore, ensures_bind]
    exact hw.beginStmt iStatement
  | savepoint op iSavepoint =>
    rw [WriteCall.run, ignore, ensures_bind]
    exact hw.savepoint op iSavepoint

end Step

/-- A connection that may begin a transaction on a database with metadata. -/
structure Ready (w : World) : Prop where
  stack : TxnStack w
  noWriter : w.env.writers = []
  opened : w.env.readonly = w.p.readonly
  metaFree : MetaFree w.env
  metadata : HasMetadata (w.env.disk.contents .metadata)

/-- A connection to a new database. -/
def newConnection : World := { freshHandle with env := { freshHandle.env with disk := newDisk } }

theorem newConnection_ready : Ready newConnection :=
  ⟨.idle rfl rfl rfl, rfl, rfl, ⟨fun _ _ h => (by cases h), fun _ h => (by cases h)⟩,
    ⟨[], rfl, .nil, fun _ h => (by cases h)⟩⟩

/-- A write transaction begun on the contents `before`, with the calls made in it so far. -/
inductive OpenWrite (before : Contents) (w : World) : Prop
  | intro (w₀ w₁ : World) (wrFlag pSchemaVersion : Bool) (v : Option ℤ) (steps : List WriteStep)
      (hready : Ready w₀) (hbefore : w₀.env.disk.contents = before)
      (hbegin : sqlite3BtreeBeginTrans wrFlag pSchemaVersion w₀ = .ok ((sqliteOk, v), w₁))
      (hwriter : w₁.env.writers ≠ []) (hrun : Run writeStep WriteStep.Allowed w₁ steps w)

/-- One write transaction that sees the contents of the disk, and nothing in it. -/
structure FirstLevel (w w' : World) (s : BtreeSavepoint) (shadow : ℕ → Option MdbCursor) : Prop where
  svp : w'.p.svp = [s]
  writers : w'.env.writers = [⟨s.txn, w.env.disk.contents, shadow⟩]
  disk : w'.env.disk = { w.env.disk with locked := true }
  inTrans : w'.p.inTrans = .write ∨ w'.p.inTrans = .read ∧ w'.p.transType = transactionSerialise
  readonly : w'.p.readonly = w.p.readonly
  hasData : (w.env.answers .dbiOpen).headD 0 ≠ mdbNotfound → w'.p.hasData = true

/-- The one level is a write transaction that has changed nothing yet. -/
theorem FirstLevel.inWrite {w w' : World} {s : BtreeSavepoint} {shadow : ℕ → Option MdbCursor}
    (h : FirstLevel w w' s shadow) (hopened : w'.env.readonly = w'.p.readonly)
    (hfree : MetaFree w'.env) (hmeta : HasMetadata (w.env.disk.contents .metadata)) :
    InWrite w.env.disk.contents w' := by
  refine ⟨by rw [h.svp]; simp, ⟨by rw [h.svp, h.writers]; rfl, by rw [h.disk]⟩, ?_, h.inTrans,
    hopened, hfree, by rw [h.disk], fun t ht => ?_⟩
  · intro s' hs'
    rw [h.svp] at hs'
    cases hs'
  · rw [h.writers, List.mem_singleton] at ht
    rw [ht]
    exact ⟨hmeta, rfl⟩

theorem HasMetadata.isSome {o : Option Entries} (h : HasMetadata o) : o.isSome = true := by
  obtain ⟨es, hes, -⟩ := h
  rw [hes]
  rfl

/-- A write transaction that has begun. -/
theorem Began.firstLevel {w w' : World} {wrFlag : Bool} (h : Began wrFlag w w')
    (hmeta : HasMetadata (w.env.disk.contents .metadata)) (hwriter : w'.env.writers ≠ []) :
    ∃ s shadow, FirstLevel w w' s shadow := by
  cases h with
  | reader _ _ _ _ hwriters _ _ => exact absurd hwriters hwriter
  | writer hrdonly hasData hdata hp hwriters hunlocked hdisk =>
    refine ⟨⟨w.env.next, -1⟩, _, by rw [hp]; rfl, hwriters, hdisk, ?_, by rw [hp]; rfl,
      fun hcode => ?_⟩
    · rw [hp]
      cases wrFlag with
      | true => exact .inl rfl
      | false =>
        refine .inr ⟨rfl, ?_⟩
        by_contra hne
        have hne' : w.p.transType ≠ transactionSerialise := hne
        rw [beginRdonly, if_pos hne'] at hrdonly
        cases hrdonly
    · rw [hp]
      exact hdata hcode hmeta.isSome

/-- A write transaction that has taken the place of a snapshot in time. -/
theorem Upgraded.firstLevel {w w' : World} {s : BtreeSavepoint} {snapshot : Contents}
    (h : Upgraded w s snapshot sqliteOk w') :
    ∃ s' shadow, FirstLevel w w' s' shadow ∧ w'.p.inTrans = .write := by
  cases h with
  | unsaved hrc _ _ _ _ _ => exact absurd rfl hrc
  | lost hrc _ _ _ _ => exact absurd rfl hrc
  | replaced shadow hp hwriters hunlocked hdisk hdata hrc =>
    have hagree : CountersAgree w snapshot := by
      by_contra hne
      rw [if_neg hne] at hrc
      exact absurd hrc (by decide)
    rw [if_pos hagree] at hp
    have hin : w'.p.inTrans = .write := by rw [hp]
    exact ⟨⟨w.env.next, s.nSavepoint⟩, shadow, ⟨by rw [hp], hwriters, hdisk, .inl hin, by rw [hp],
      fun _ => by rw [hp]⟩, hin⟩

theorem AnswersOnly.firstLevel {w w₁ w' : World} {s : BtreeSavepoint}
    {shadow : ℕ → Option MdbCursor} (ha : AnswersOnly w₁ w') (h : FirstLevel w w₁ s shadow) :
    FirstLevel w w' s shadow := by
  obtain ⟨a, rfl⟩ := ha
  exact ⟨h.svp, h.writers, h.disk, h.inTrans, h.readonly, h.hasData⟩

theorem Ready.firstLevel {w w' : World} (h : Ready w) {wrFlag pSchemaVersion : Bool} {v : Option ℤ}
    (hbegin : sqlite3BtreeBeginTrans wrFlag pSchemaVersion w = .ok ((sqliteOk, v), w'))
    (hwriter : w'.env.writers ≠ []) :
    w'.env.readonly = w.env.readonly ∧ ∃ s shadow, FirstLevel w w' s shadow := by
  have hspec := (beginTrans_spec (.inl fun _ => trivial) (fun _ => trivial) h.stack h.opened wrFlag
    pSchemaVersion fun _ _ _ _ => h.noWriter : Ensures (fun _ => True) _ _ _).of_ok hbegin
  obtain ⟨hsame, hres⟩ := hspec
  refine ⟨hsame.readonly, ?_⟩
  cases hres with
  | same ha _ _ => exact absurd (ha.writers.trans h.noWriter) hwriter
  | failed hrc _ _ _ _ _ => exact absurd rfl hrc
  | serial _ _ _ _ _ ha => exact absurd (ha.writers.trans h.noWriter) hwriter
  | began w₁ hrc hin hallowed hbegan ha =>
    have hwriter₁ : w₁.env.writers ≠ [] := by
      rw [← ha.writers]
      exact hwriter
    obtain ⟨s, shadow, hfirst⟩ := hbegan.firstLevel h.metadata hwriter₁
    exact ⟨s, shadow, ha.firstLevel hfirst⟩
  | upgraded s snapshot w₁ hin hwr hro htype hsvp hw hkind hview hup ha =>
    obtain ⟨s', shadow, hfirst, -⟩ := hup.firstLevel
    exact ⟨s', shadow, ha.firstLevel hfirst⟩

theorem Ready.inWrite {w w' : World} (h : Ready w) {wrFlag pSchemaVersion : Bool} {v : Option ℤ}
    (hbegin : sqlite3BtreeBeginTrans wrFlag pSchemaVersion w = .ok ((sqliteOk, v), w'))
    (hwriter : w'.env.writers ≠ []) : InWrite w.env.disk.contents w' := by
  obtain ⟨hreadonly, s, shadow, hfirst⟩ := h.firstLevel hbegin hwriter
  have horder : OrderFrame w w' := (orderly_beginTrans wrFlag pSchemaVersion w).of_ok hbegin
  exact hfirst.inWrite (by rw [hreadonly, h.opened, hfirst.readonly]) (horder h.metaFree).metaFree
    h.metadata

/-- The invariant of an open write transaction. -/
theorem OpenWrite.inWrite {before : Contents} {w : World} (h : OpenWrite before w) :
    InWrite before w := by
  cases h with
  | intro w₀ w₁ wrFlag pSchemaVersion v steps hready hbefore hbegin hwriter hrun =>
    rw [← hbefore]
    exact hrun.invariant (fun k s hs hk => writeStep_inWrite hs hk) (hready.inWrite hbegin hwriter)

end LumoSql.Btree
