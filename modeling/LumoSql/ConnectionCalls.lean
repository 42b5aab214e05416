import LumoSql.CommitProtocol

/-! The states a connection can be in when any calls are made on it, in any order and whichever
calls of LMDB fail, and what one call does to its state and to the disk it shares. -/
namespace LumoSql.Btree
open StateLogic Lmdb RowidEncoding

/-- The commit counter in the contents of a database. -/
def commitCounter (fixedRowid : Bool) (c : Contents) : ℤ :=
  readCounter fixedRowid (counterEntry (c .metadata)) 0

/-- The calls made on a connection. -/
inductive ConnCall
  | txn (call : TxnCall)
  | data (call : DataCall)

def ConnCall.run : ConnCall → Call Rc
  | txn call => call.run
  | data call => do
    let _ ← call.run
    pure sqliteOk

/-- A statement is begun in a write transaction only. -/
def ConnCall.Allowed (call : ConnCall) (w : World) : Prop :=
  match call with
  | .txn (.beginStmt _) => w.p.inTrans = .write
  | .txn _ => True
  | .data call => call.Allowed w

/-- The call has committed a write transaction. -/
def ConnCall.commits (call : ConnCall) (p : Btree) (rc : Rc) : Bool :=
  match call with
  | .txn .commitPhaseOne => p.inTrans = .write ∧ rc = sqliteOk
  | _ => false

/-- The call has begun a read transaction. -/
def ConnCall.opensRead (call : ConnCall) (p : Btree) (rc : Rc) : Bool :=
  match call with
  | .txn (.beginTrans wrFlag _) => wrFlag = false ∧ p.inTrans = .none ∧ rc = sqliteOk
  | _ => false

/-- The call turns a read transaction into a write transaction. -/
def ConnCall.upgrades (call : ConnCall) (p : Btree) : Bool :=
  match call with
  | .txn (.beginTrans wrFlag _) => wrFlag = true ∧ p.inTrans = .read
  | _ => false

/-- The optimistic upgrade starts from a read transaction of LMDB, and the `n` commits since it
began are told apart by the counter of 32 bits; LMDB reads what it has stored. -/
structure Countable (call : ConnCall) (n : ℕ) (w : World) : Prop where
  get : w.env.answers .get = []
  dbiOpen : (w.env.answers .dbiOpen).headD 0 ≠ mdbNotfound
  upgrade : call.upgrades w.p = true → w.p.transType = transactionOptimistic →
    w.env.writers = [] ∧ (2 ^ 32 ∣ n → n = 0)

/-- What a connection may hold, when `n` commits have been made since it began to read. A failed
commit leaves a dead transaction on the stack, a failed upgrade leaves none although `inTrans`
says `read`, and an upgrade that is too late leaves a write transaction for reading. With `counted`
the counter of a snapshot is known. -/
inductive ConnState (counted : Prop) (n : ℕ) (w : World) : Prop
  | idle (hsvp : w.p.svp = []) (hin : w.p.inTrans = .none) (hwriters : w.env.writers = [])
  | failed (s : BtreeSavepoint) (hsvp : w.p.svp = [s]) (hin : w.p.inTrans = .none)
      (hwriters : w.env.writers = [])
  | lost (hsvp : w.p.svp = []) (hin : w.p.inTrans = .read)
      (htype : w.p.transType = transactionOptimistic) (hdata : w.p.hasData = false)
      (hwriters : w.env.writers = [])
  | reading (s : BtreeSavepoint) (snapshot : Contents) (hsvp : w.p.svp = [s])
      (hin : w.p.inTrans = .read) (hwriters : w.env.writers = [])
      (hserial : w.p.transType = transactionSerialise → w.p.readonly = true)
      (hkind : w.env.kind s.txn = some .readOnly) (hview : w.env.view s.txn = some snapshot)
      (hcounted : counted → w.p.hasData = true ∧ commitCounter w.fixedRowid w.env.disk.contents =
        Int.bmod (commitCounter w.fixedRowid snapshot + n) (2 ^ 32))
  | late (s : BtreeSavepoint) (t : WriteTxn) (hsvp : w.p.svp = [s]) (hin : w.p.inTrans = .read)
      (htype : w.p.transType = transactionOptimistic) (hwriters : w.env.writers = [t])
      (ht : s.txn = t.id) (hlocked : w.env.disk.locked = true)
  | writing (h : InWrite w.env.disk.contents w) (hfirst : w.p.inTrans = .read → n = 0)

/-- A connection to a database with metadata. -/
structure Connection (counted : Prop) (n : ℕ) (w : World) : Prop where
  state : ConnState counted n w
  opened : w.env.readonly = w.p.readonly
  metaFree : MetaFree w.env
  metadata : HasMetadata (w.env.disk.contents .metadata)

/-- The number of commits since the connection began to read, after the call. -/
def ConnCall.elapsed (call : ConnCall) (p : Btree) (rc : Rc) (n : ℕ) : ℕ :=
  if call.opensRead p rc then 0 else if call.commits p rc then n + 1 else n

/-- What a call does to a connection and to the disk. -/
structure Effect (counted : Prop) (n : ℕ) (call : ConnCall) (w : World) (rc : Rc) (w' : World) :
    Prop where
  connection : Connection counted (call.elapsed w.p rc n) w'
  build : w'.fixedRowid = w.fixedRowid
  quiet : w.env.writers = [] → w.env.disk.locked = true →
    w'.env.writers = [] ∧ w'.env.disk = w.env.disk
  contents : call.commits w.p rc = false → w'.env.disk.contents = w.env.disk.contents
  committed : call.commits w.p rc = true → ∃ t, w.env.writers.head? = some t ∧
    KeepsCounter w.env.disk.contents t ∧ w.p.hasData = true ∧
    w'.env.disk.contents = bumped w t.view
  upgraded : counted → call.upgrades w.p = true → rc = sqliteOk → n = 0

section Effects

variable {counted : Prop} {n : ℕ} {call : ConnCall} {w w' : World} {rc : Rc}

/-- Where `inTrans` says so a write transaction is open. -/
theorem Connection.inWrite (h : Connection counted n w) (hin : w.p.inTrans = .write) :
    InWrite w.env.disk.contents w := by
  cases h.state with
  | writing hw hfirst => exact hw
  | idle hsvp hnone hwriters => exact absurd (hnone.symm.trans hin) (by decide)
  | failed s hsvp hnone hwriters => exact absurd (hnone.symm.trans hin) (by decide)
  | lost hsvp hread htype hdata hwriters => exact absurd (hread.symm.trans hin) (by decide)
  | reading s snapshot hsvp hread hwriters hserial hkind hview hcounted =>
    exact absurd (hread.symm.trans hin) (by decide)
  | late s t hsvp hread htype hwriters ht hlocked => exact absurd (hread.symm.trans hin) (by decide)

theorem ConnCall.elapsed_same (hopens : call.opensRead w.p rc = false)
    (hcommits : call.commits w.p rc = false) : call.elapsed w.p rc n = n := by
  rw [ConnCall.elapsed, hopens, hcommits]
  rfl

theorem ConnCall.opensRead_of_commits {p : Btree} (h : call.commits p rc = true) :
    call.opensRead p rc = false := by
  cases call with
  | data call => rfl
  | txn call =>
    cases call with
    | beginTrans wrFlag pSchemaVersion => cases h
    | beginStmt iStatement => rfl
    | savepoint op iSavepoint => rfl
    | commitPhaseOne => rfl
    | rollback tripCode writeOnly => rfl

/-- A call that leaves the disk and does not begin to write. -/
theorem Effect.of_disk (hconn : Connection counted n w') (hbuild : w'.fixedRowid = w.fixedRowid)
    (hdisk : w'.env.disk = w.env.disk) (hwriters : w.env.writers = [] → w'.env.writers = [])
    (hopens : call.opensRead w.p rc = false) (hcommits : call.commits w.p rc = false)
    (hupgraded : counted → call.upgrades w.p = true → rc = sqliteOk → n = 0) :
    Effect counted n call w rc w' := by
  refine ⟨?_, hbuild, fun hw _ => ⟨hwriters hw, hdisk⟩, fun _ => by rw [hdisk], fun h => ?_, hupgraded⟩
  · rw [ConnCall.elapsed_same hopens hcommits]
    exact hconn
  · rw [hcommits] at h
    cases h

theorem HeadOnly.of_nil {ts : List WriteTxn} (h : HeadOnly [] ts) : ts = [] := by cases h; rfl

theorem HeadOnly.of_single {t : WriteTxn} {ts : List WriteTxn} (h : HeadOnly [t] ts) :
    ∃ t', ts = [t'] ∧ t'.id = t.id := by
  cases h with
  | cons _ _ view _ => exact ⟨_, rfl, rfl⟩

theorem TablesOnly.connection (h : Connection counted n w) (ht : TablesOnly w w') :
    Connection counted n w' := by
  have hdisk := ht.env.disk
  have hsvp : w'.p.svp = w.p.svp := by rw [ht.p]
  have hin : w'.p.inTrans = w.p.inTrans := by rw [ht.p]
  have htype : w'.p.transType = w.p.transType := by rw [ht.p]
  have hdata : w'.p.hasData = w.p.hasData := by rw [ht.p]
  have hro : w'.p.readonly = w.p.readonly := by rw [ht.p]
  refine ⟨?_, ?_, ht.env.metaFree, by rw [hdisk]; exact h.metadata⟩
  · have hhead := ht.env.writers
    cases h.state with
    | idle hsvp₀ hin₀ hwriters =>
      rw [hwriters] at hhead
      exact .idle (hsvp.trans hsvp₀) (hin.trans hin₀) hhead.of_nil
    | failed s hsvp₀ hin₀ hwriters =>
      rw [hwriters] at hhead
      exact .failed s (hsvp.trans hsvp₀) (hin.trans hin₀) hhead.of_nil
    | lost hsvp₀ hin₀ htype₀ hdata₀ hwriters =>
      rw [hwriters] at hhead
      exact .lost (hsvp.trans hsvp₀) (hin.trans hin₀) (htype.trans htype₀) (hdata.trans hdata₀)
        hhead.of_nil
    | reading s snapshot hsvp₀ hin₀ hwriters hserial hkind hview hcounted =>
      rw [hwriters] at hhead
      have hsame : w'.env.writers = w.env.writers := hhead.of_nil.trans hwriters.symm
      refine .reading s snapshot (hsvp.trans hsvp₀) (hin.trans hin₀) hhead.of_nil
        (by rw [htype, hro]; exact hserial) ((kind_congr hsame ht.env.readers _).trans hkind)
        ((view_congr hsame ht.env.readers _).trans hview) ?_
      rw [hdata, ht.build, hdisk]
      exact hcounted
    | late s t hsvp₀ hin₀ htype₀ hwriters hid hlocked =>
      rw [hwriters] at hhead
      obtain ⟨t', hw', hid'⟩ := hhead.of_single
      exact .late s t' (hsvp.trans hsvp₀) (hin.trans hin₀) (htype.trans htype₀) hw'
        (hid.trans hid'.symm) (by rw [hdisk]; exact hlocked)
    | writing hw hfirst =>
      refine .writing ?_ (by rw [hin]; exact hfirst)
      rw [hdisk]
      exact hw.tables ht
  · rw [ht.env.readonly, hro]
    exact h.opened

theorem data_effect (h : Connection counted n w) {call : DataCall} (hallowed : call.Allowed w) :
    Ensures (fun _ => True) (ConnCall.data call).run (Effect counted n (.data call) w) w := by
  rw [ConnCall.run, ensures_bind]
  refine (dataCall_spec h.metaFree hallowed).imp fun _ w' ht => ?_
  have hnil : w.env.writers = [] → w'.env.writers = [] := fun hw => by
    have hhead := ht.env.writers
    rw [hw] at hhead
    exact hhead.of_nil
  exact .of_disk (ht.connection h) ht.build ht.env.disk hnil rfl rfl fun _ hup => (by cases hup)

theorem toInt_bmod (m : ℕ) : Int.bmod (toInt m) (2 ^ 32) = toInt m := by
  unfold toInt
  exact Int.bmod_bmod

theorem readCounter_bmod {fixedRowid : Bool} {o : Option (Bytes × Bytes)} {k : ℕ}
    (hk : ∀ m, Int.bmod (toInt m) k = toInt m) :
    Int.bmod (readCounter fixedRowid o 0) k = readCounter fixedRowid o 0 := by
  rw [readCounter, if_neg (not_not.mpr rfl)]
  cases o with
  | none => rw [Option.map_none, Option.getD_none, Int.zero_bmod]
  | some e => rw [Option.map_some, Option.getD_some, hk]

theorem commitCounter_bmod (fixedRowid : Bool) (c : Contents) :
    Int.bmod (commitCounter fixedRowid c) (2 ^ 32) = commitCounter fixedRowid c :=
  readCounter_bmod toInt_bmod

/-- What an upgrade compares when LMDB reads what it has stored. -/
theorem countersAgree_iff (hget : w.env.answers .get = []) (hdata : w.p.hasData = true)
    (snapshot : Contents) : CountersAgree w snapshot ↔
      toU64 (commitCounter w.fixedRowid snapshot) =
        toU64 (commitCounter w.fixedRowid w.env.disk.contents) := by
  have hread : upgradeCounters w snapshot =
      (commitCounter w.fixedRowid snapshot, commitCounter w.fixedRowid w.env.disk.contents) := by
    rw [upgradeCounters, if_pos hdata, hget]
    exact Prod.ext (meta64_counter _ _ _) (meta64_counter _ _ _)
  rw [CountersAgree, hread]

/-- Two counters of 32 bits that are `n` apart are only equal after a full turn. -/
theorem dvd_of_counters {a b : ℤ} (ha : Int.bmod a (2 ^ 32) = a)
    (hb : b = Int.bmod (a + n) (2 ^ 32)) (heq : toU64 a = toU64 b) : 2 ^ 32 ∣ n := by
  have hb' : Int.bmod b (2 ^ 32) = b := by rw [hb, Int.bmod_bmod]
  have hmod : ∀ x : ℤ, Int.bmod x (2 ^ 32) = x → -2 ^ 31 ≤ x ∧ x < 2 ^ 31 := fun x hx => by
    have := Int.le_bmod (x := x) (m := 2 ^ 32) (by decide)
    have := Int.bmod_lt (x := x) (m := 2 ^ 32) (by decide)
    omega
  have h64 : a % 2 ^ 64 = b % 2 ^ 64 := by
    have hnonneg : ∀ x : ℤ, 0 ≤ x % 2 ^ 64 := fun x => Int.emod_nonneg _ (by norm_num)
    have := congrArg (fun x : ℕ => (x : ℤ)) heq
    simp only [toU64, Int.toNat_of_nonneg (hnonneg _)] at this
    exact this
  obtain ⟨ha₁, ha₂⟩ := hmod a ha
  obtain ⟨hb₁, hb₂⟩ := hmod b hb'
  have hab : a = b := by omega
  rw [← hab] at hb
  have hdvd : ((2 ^ 32 : ℕ) : ℤ) ∣ (a + n) - a := by
    have h1 : (a + n) % ((2 ^ 32 : ℕ) : ℤ) = a % ((2 ^ 32 : ℕ) : ℤ) := by
      rw [← Int.bmod_emod, ← hb]
    exact Int.dvd_of_emod_eq_zero (Int.emod_eq_emod_iff_emod_sub_eq_zero.mp h1)
  have hn : a + n - a = (n : ℤ) := by ring
  rw [hn] at hdvd
  exact_mod_cast hdvd

theorem Connection.answersOnly (h : Connection counted n w) (ha : AnswersOnly w w') :
    Connection counted n w' := by
  have hstate := h.state
  obtain ⟨a, rfl⟩ := ha
  refine ⟨?_, h.opened, ⟨h.metaFree.cursors, h.metaFree.shadows⟩, h.metadata⟩
  cases hstate with
  | idle hsvp hin hwriters => exact .idle hsvp hin hwriters
  | failed s hsvp hin hwriters => exact .failed s hsvp hin hwriters
  | lost hsvp hin htype hdata hwriters => exact .lost hsvp hin htype hdata hwriters
  | reading s snapshot hsvp hin hwriters hserial hkind hview hcounted =>
    exact .reading s snapshot hsvp hin hwriters hserial hkind hview hcounted
  | late s t hsvp hin htype hwriters ht hlocked => exact .late s t hsvp hin htype hwriters ht hlocked
  | writing hw hfirst => exact .writing (hw.answersOnly ⟨a, rfl⟩) hfirst

theorem TxnStack.idle_of_none (hs : TxnStack w)
    (hin : w.p.inTrans = .none) : w.p.svp = [] ∧ w.env.writers = [] := by
  cases hs with
  | idle hsvp _ hwriters => exact ⟨hsvp, hwriters⟩
  | reading _ _ _ hread _ _ _ _ => exact absurd (hin.symm.trans hread) (by decide)
  | writing _ _ _ hne => exact absurd hin hne

/-- A transaction that begins. -/
theorem Began.connection {wrFlag : Bool} (h : Began wrFlag w w')
    (hallowed : ¬ (wrFlag = true ∧ w.p.readonly = true)) (hopened : w'.env.readonly = w'.p.readonly)
    (hfree : MetaFree w'.env) (hmeta : HasMetadata (w.env.disk.contents .metadata))
    (hfound : counted → (w.env.answers .dbiOpen).headD 0 ≠ mdbNotfound) :
    Connection counted (if wrFlag then n else 0) w' := by
  have hcontents : w'.env.disk.contents = w.env.disk.contents := by
    cases h with
    | reader _ _ _ _ _ _ hdisk => rw [hdisk]
    | writer _ _ _ _ _ _ hdisk => rw [hdisk]
  refine ⟨?_, hopened, hfree, by rw [hcontents]; exact hmeta⟩
  by_cases hwriter : w'.env.writers = []
  · have hstack := h.stack hallowed
    cases h with
    | writer _ _ _ _ hwriters _ _ => exact absurd (hwriters.symm.trans hwriter) (by simp)
    | reader hrdonly hasData hdata hp hwriters hreaders hdisk =>
      have hsnap := view_snapshot hwriters hreaders
      have hsvp : w'.p.svp = [⟨w.env.next, -1⟩] := by rw [hp]; rfl
      have hread : wrFlag = false ∧ w'.p.inTrans = .read ∧
          (w'.p.transType = transactionSerialise → w'.p.readonly = true) := by
        cases hstack with
        | idle hnil _ _ => exact absurd (hsvp.symm.trans hnil) (by simp)
        | writing hne hal _ _ => exact absurd hwriters (hal.writers_ne hne)
        | reading _ _ _ hin _ hserial _ _ =>
          refine ⟨?_, hin, hserial⟩
          rw [hp, begun] at hin
          cases wrFlag with
          | false => rfl
          | true => cases hin
      obtain ⟨rfl, hin, hserial⟩ := hread
      refine .reading ⟨w.env.next, -1⟩ w.env.disk.contents hsvp hin hwriters hserial hsnap.1 hsnap.2
        fun hc => ⟨?_, ?_⟩
      · rw [hp]
        exact hdata (hfound hc) hmeta.isSome
      · rw [hcontents, if_neg (by decide), Nat.cast_zero, Int.add_zero, commitCounter_bmod]
  · obtain ⟨s, shadow, hfirst⟩ := h.firstLevel hmeta hwriter
    refine .writing ?_ fun hread => ?_
    · rw [hcontents]
      exact hfirst.inWrite hopened hfree hmeta
    · cases h with
      | reader _ _ _ hp _ _ _ | writer _ _ _ hp _ _ _ =>
        rw [hp, begun] at hread
        cases wrFlag with
        | false => rfl
        | true => cases hread

/-- An upgrade from a snapshot. -/
theorem Upgraded.connection {s : BtreeSavepoint} {snapshot : Contents}
    (h : Upgraded w s snapshot rc w') (hconn : Connection counted n w)
    (hin : w.p.inTrans = .read) (htype : w.p.transType = transactionOptimistic)
    (hwriters : w.env.writers = []) (hbuild : w'.fixedRowid = w.fixedRowid)
    (hreadonly : w'.env.readonly = w.env.readonly) (hfree : MetaFree w'.env) :
    Connection counted n w' := by
  have hopened : w'.env.readonly = w'.p.readonly := by
    rw [hreadonly, hconn.opened]
    cases h with
    | unsaved _ hp _ _ _ _ => rw [hp]
    | lost _ hp _ _ _ => rw [hp]
    | replaced _ hp _ _ _ _ _ => rw [hp]
  have hcontents : w'.env.disk.contents = w.env.disk.contents := by
    cases h with
    | unsaved _ _ _ _ hdisk _ => rw [hdisk]
    | lost _ _ _ hdisk _ => rw [hdisk]
    | replaced _ _ _ _ hdisk _ _ => rw [hdisk]
  refine ⟨?_, hopened, hfree, by rw [hcontents]; exact hconn.metadata⟩
  cases h with
  | unsaved hrc hp hwriters' hreaders hdisk hnext =>
    have hsame : w'.env.writers = w.env.writers := hwriters'.trans hwriters.symm
    cases hconn.state with
    | idle _ hnone _ => exact absurd (hin.symm.trans hnone) (by decide)
    | failed _ _ hnone _ => exact absurd (hin.symm.trans hnone) (by decide)
    | lost hsvp _ _ hdata _ =>
      exact .lost (by rw [hp, hsvp]) (by rw [hp, hin]) (by rw [hp, htype]) (by rw [hp, hdata]) hwriters'
    | reading s snapshot hsvp _ _ hserial hkind hview hcounted =>
      refine .reading s snapshot (by rw [hp, hsvp]) (by rw [hp, hin]) hwriters'
        (by rw [hp]; exact hserial) ((kind_congr hsame hreaders _).trans hkind)
        ((view_congr hsame hreaders _).trans hview) ?_
      rw [hp, hbuild, hdisk]
      exact hcounted
    | late _ _ _ _ _ hw _ _ => exact absurd (hwriters.symm.trans hw) (by simp)
    | writing hw _ =>
      obtain ⟨t, ts, hw⟩ := hw.exists_writer
      exact absurd (hwriters.symm.trans hw) (by simp)
  | lost hrc hp hwriters' hdisk hcause =>
    exact .lost (by rw [hp]) (by rw [hp]; exact hin) (by rw [hp]; exact htype) (by rw [hp]) hwriters'
  | replaced shadow hp hwriters' hunlocked hdisk hdata hrc =>
    by_cases hagree : CountersAgree w snapshot
    · rw [if_pos hagree] at hrc
      have hup : Upgraded w s snapshot sqliteOk w' :=
        .replaced shadow hp hwriters' hunlocked hdisk hdata (by rw [if_pos hagree])
      obtain ⟨s', shadow', hfirst, hwrite⟩ := hup.firstLevel
      refine .writing ?_ fun hread => absurd (hwrite.symm.trans hread) (by decide)
      rw [hcontents]
      exact hfirst.inWrite hopened hfree hconn.metadata
    · rw [if_neg hagree] at hp
      exact .late ⟨w.env.next, s.nSavepoint⟩ _ (by rw [hp]) (by rw [hp]; exact hin)
        (by rw [hp]; exact htype) hwriters' rfl (by rw [hdisk])

theorem Began.answersOnly {wrFlag : Bool} {w₁ : World} (h : Began wrFlag w w₁)
    (ha : AnswersOnly w₁ w') : Began wrFlag w w' := by
  obtain ⟨a, rfl⟩ := ha
  cases h with
  | reader hrdonly hasData hdata hp hwriters hreaders hdisk =>
    exact .reader hrdonly hasData hdata hp hwriters hreaders hdisk
  | writer hrdonly hasData hdata hp hwriters hunlocked hdisk =>
    exact .writer hrdonly hasData hdata hp hwriters hunlocked hdisk

theorem Upgraded.answersOnly {s : BtreeSavepoint} {snapshot : Contents} {w₁ : World}
    (h : Upgraded w s snapshot rc w₁) (ha : AnswersOnly w₁ w') : Upgraded w s snapshot rc w' := by
  obtain ⟨a, rfl⟩ := ha
  cases h with
  | unsaved hrc hp hwriters hreaders hdisk hnext =>
    exact .unsaved hrc hp hwriters hreaders hdisk hnext
  | lost hrc hp hwriters hdisk hcause => exact .lost hrc hp hwriters hdisk hcause
  | replaced shadow hp hwriters hunlocked hdisk hdata hrc =>
    exact .replaced shadow hp hwriters hunlocked hdisk hdata hrc

/-- What makes the calls of a connection that LMDB knows the transactions of. -/
theorem beginTrans_effect_of_stack {wrFlag pSchemaVersion : Bool} (h : Connection counted n w)
    (hs : TxnStack w)
    (hcount : counted → Countable (.txn (.beginTrans wrFlag pSchemaVersion)) n w)
    (hfirst : wrFlag = true → w.p.readonly = false → w.p.inTrans = .read →
      w.p.transType = transactionOptimistic → w.env.writers = []) :
    Ensures (fun _ => True) (sqlite3BtreeBeginTrans wrFlag pSchemaVersion)
      (fun r => Effect counted n (.txn (.beginTrans wrFlag pSchemaVersion)) w r.1) w := by
  refine ((beginTrans_spec (.inl fun _ => trivial) (fun _ => trivial) hs h.opened wrFlag
    pSchemaVersion hfirst).keep (orderly_beginTrans wrFlag pSchemaVersion)).imp fun r w' hres => ?_
  obtain ⟨⟨hsame, hres⟩, horder⟩ := hres
  have hfree : MetaFree w'.env := (horder h.metaFree).metaFree
  cases hres with
  | same ha hrc hno =>
    have hdisk : w'.env.disk = w.env.disk := by
      obtain ⟨a, rfl⟩ := ha
      rfl
    refine .of_disk (h.answersOnly ha) hsame.build hdisk (fun hw => ha.writers.trans hw) ?_ rfl ?_
    · rw [ConnCall.opensRead, decide_eq_false_iff_not]
      exact fun ⟨_, hnone, hok⟩ => (hrc hok).1 hnone
    · intro _ hup hok
      rw [ConnCall.upgrades, decide_eq_true_iff] at hup
      rcases (hrc hok).2 with hw | hf
      · exact absurd (hup.2.symm.trans hw) (by decide)
      · exact absurd (hup.1.symm.trans hf) (by decide)
  | failed hrc hin hp hwriters hdisk hcause =>
    obtain ⟨hsvp, -⟩ := hs.idle_of_none hin
    refine .of_disk ⟨.idle (by rw [hp, hsvp]) (by rw [hp, hin]) hwriters, ?_, hfree, ?_⟩ hsame.build
      hdisk (fun _ => hwriters) ?_ rfl fun _ _ hok => absurd hok hrc
    · rw [hsame.readonly, hp]
      exact h.opened
    · rw [hdisk]
      exact h.metadata
    · rw [ConnCall.opensRead, decide_eq_false_iff_not]
      exact fun ⟨_, _, hok⟩ => hrc hok
  | began w₁ hrc hin hallowed hbegan ha =>
    have hbegan' := hbegan.answersOnly ha
    have hopened : w'.env.readonly = w'.p.readonly := by
      rw [hsame.readonly, h.opened]
      cases hbegan' with
      | reader _ _ _ hp _ _ _ | writer _ _ _ hp _ _ _ =>
        rw [hp]
        rfl
    have hopens : (ConnCall.txn (.beginTrans wrFlag pSchemaVersion)).opensRead w.p r.1 = !wrFlag := by
      rw [ConnCall.opensRead]
      cases wrFlag with
      | true => exact decide_eq_false fun hf => absurd hf.1 (by decide)
      | false => exact decide_eq_true ⟨rfl, hin, hrc⟩
    refine ⟨?_, hsame.build, fun _ hlocked => ?_, fun _ => ?_, fun hc => (by cases hc), fun _ hup => ?_⟩
    · have helapsed : (ConnCall.txn (.beginTrans wrFlag pSchemaVersion)).elapsed w.p r.1 n =
          if wrFlag then n else 0 := by
        rw [ConnCall.elapsed, hopens]
        cases wrFlag <;> rfl
      rw [helapsed]
      exact hbegan'.connection hallowed hopened hfree h.metadata
        fun hc => (hcount hc).dbiOpen
    · cases hbegan' with
      | reader _ _ _ _ hwriters _ hdisk => exact ⟨hwriters, hdisk⟩
      | writer _ _ _ _ _ hunlocked _ => exact absurd (hlocked.symm.trans hunlocked) (by decide)
    · cases hbegan' with
      | reader _ _ _ _ _ _ hdisk | writer _ _ _ _ _ _ hdisk => rw [hdisk]
    · rw [ConnCall.upgrades, decide_eq_true_iff] at hup
      exact absurd (hin.symm.trans hup.2) (by decide)
  | serial hrc hin hwr hro htype ha =>
    cases h.state with
    | idle _ hnone _ | failed _ _ hnone _ => exact absurd (hin.symm.trans hnone) (by decide)
    | lost _ _ htype' _ _ | late _ _ _ _ htype' _ _ _ =>
      exact absurd (htype.symm.trans htype') (by decide)
    | reading _ _ _ _ _ hserial _ _ _ =>
      exact absurd ((hserial htype).symm.trans hro) (by decide)
    | writing hw hfirst =>
      have hwrite : Connection counted n { w with p := { w.p with inTrans := .write } } :=
        ⟨.writing ⟨hw.nonempty, ⟨hw.aligned.ids, hw.aligned.locked⟩, hw.numbered, .inl rfl, h.opened,
          h.metaFree, rfl, hw.counter⟩ fun hread => (by cases hread), h.opened, h.metaFree, h.metadata⟩
      have hdisk : w'.env.disk = w.env.disk := by
        obtain ⟨a, rfl⟩ := ha
        rfl
      refine .of_disk (hwrite.answersOnly ha) hsame.build hdisk (fun hw => ha.writers.trans hw) ?_ rfl
        fun _ _ _ => hfirst hin
      rw [ConnCall.opensRead, decide_eq_false_iff_not]
      exact fun ⟨hf, _, _⟩ => absurd (hwr.symm.trans hf) (by decide)
  | upgraded s snapshot w₁ hin hwr hro htype hsvp hwriters hkind hview hup ha =>
    have hup' := hup.answersOnly ha
    have hopens : (ConnCall.txn (.beginTrans wrFlag pSchemaVersion)).opensRead w.p r.1 = false := by
      rw [ConnCall.opensRead, decide_eq_false_iff_not]
      exact fun ⟨hf, _, _⟩ => absurd (hwr.symm.trans hf) (by decide)
    refine ⟨?_, hsame.build, fun _ hlocked => ?_, fun _ => ?_, fun hc => (by cases hc),
      fun hc hupgrades hok => ?_⟩
    · rw [ConnCall.elapsed_same hopens rfl]
      exact hup'.connection h hin htype hwriters hsame.build hsame.readonly hfree
    · cases hup' with
      | unsaved _ _ hw _ hdisk _ => exact ⟨hw, hdisk⟩
      | lost _ _ hw hdisk _ => exact ⟨hw, hdisk⟩
      | replaced _ _ _ hunlocked _ _ _ => exact absurd (hlocked.symm.trans hunlocked) (by decide)
    · cases hup' with
      | unsaved _ _ _ _ hdisk _ => rw [hdisk]
      | lost _ _ _ hdisk _ => rw [hdisk]
      | replaced _ _ _ _ hdisk _ _ => rw [hdisk]
    · have hc' := hcount hc
      refine (hc'.upgrade hupgrades htype).2 ?_
      rw [hok] at hup'
      cases hup' with
      | unsaved hrc _ _ _ _ _ => exact absurd rfl hrc
      | lost hrc _ _ _ _ => exact absurd rfl hrc
      | replaced _ _ _ _ _ _ hrc =>
        have hagree : CountersAgree w snapshot := by
          by_contra hne
          rw [if_neg hne] at hrc
          exact absurd hrc (by decide)
        cases h.state with
        | idle hnil _ _ => exact absurd (hsvp.symm.trans hnil) (by simp)
        | failed _ _ hnone _ => exact absurd (hin.symm.trans hnone) (by decide)
        | lost hnil _ _ _ _ => exact absurd (hsvp.symm.trans hnil) (by simp)
        | late _ _ _ _ _ hw _ _ => exact absurd (hwriters.symm.trans hw) (by simp)
        | writing hw _ => exact absurd hwriters (hw.aligned.writers_ne hw.nonempty)
        | reading s' snapshot' hsvp' _ _ _ _ hview' hcounted =>
          obtain rfl : s = s' := by simpa using hsvp.symm.trans hsvp'
          obtain rfl : snapshot = snapshot' := Option.some.inj (hview.symm.trans hview')
          obtain ⟨hdata, hcounter⟩ := hcounted hc
          exact dvd_of_counters (commitCounter_bmod _ _) hcounter
            ((countersAgree_iff hc'.get hdata snapshot).mp hagree)

/-- Without a transaction on the stack the code follows `p->svp` to nothing. -/
theorem ensures_topTxn_nil {α : Type} (hsvp : w.p.svp = []) (f : ℕ → Call α) (Q : α → World → Prop) :
    Ensures (fun _ => True) (topTxn >>= f) Q w := by
  rw [ensures_bind, topTxn, ensures_bind, ensures_getP, hsvp]
  exact trivial

/-- After a failed commit no transaction begins. -/
theorem failed_beginTrans {s : BtreeSavepoint} (hsvp : w.p.svp = [s]) (hin : w.p.inTrans = .none)
    (wrFlag pSchemaVersion : Bool) :
    Ensures (fun _ => True) (sqlite3BtreeBeginTrans wrFlag pSchemaVersion)
      (fun r w' => r.1 ≠ sqliteOk ∧ w' = w) w := by
  rw [sqlite3BtreeBeginTrans, ensures_bind, ensures_getP, if_neg (by rw [hin]; decide)]
  refine .ite (fun _ => ⟨by decide, rfl⟩) fun _ => ?_
  rw [if_neg fun h => h.1 hin, if_neg (not_not.mpr hin), ensures_bind, beginNew, ensures_bind,
    ensures_getP, if_pos (by rw [hsvp]; simp), ensures_pure]
  exact .ite (fun _ => ⟨by decide, rfl⟩) fun h => absurd (not_not.mp h) (by decide)

/-- After a failed upgrade neither does any. -/
theorem lost_beginTrans (hsvp : w.p.svp = []) (hin : w.p.inTrans = .read)
    (htype : w.p.transType = transactionOptimistic) (hdata : w.p.hasData = false)
    (wrFlag pSchemaVersion : Bool) :
    Ensures (fun _ => True) (sqlite3BtreeBeginTrans wrFlag pSchemaVersion)
      (fun r w' => (wrFlag = true → r.1 ≠ sqliteOk) ∧ CursorsOnly w w') w := by
  rw [sqlite3BtreeBeginTrans, ensures_bind, ensures_getP, if_neg (by rw [hin]; decide)]
  refine .ite (fun _ => ⟨fun _ => by decide, Frame.refl w⟩) fun hro => ?_
  refine .ite (fun hread => ?_) fun hwr => ?_
  · have hfalse : wrFlag = false := by simpa using hread.2
    have hversion : Ensures (fun _ => True) (getMeta32 btreeSchemaVersion) (fun _ w' => w' = w) w := by
      rw [getMeta32, ensures_bind, ensures_getP, hdata]
      exact rfl
    rw [beginGetVersion]
    refine .ite (fun _ => ?_) fun _ => ⟨fun h => absurd (h.symm.trans hfalse) (by decide), Frame.refl w⟩
    rw [ensures_bind]
    refine hversion.imp fun v w' h => ?_
    rw [h]
    exact ⟨fun h => absurd (h.symm.trans hfalse) (by decide), Frame.refl w⟩
  · rw [if_pos (by rw [hin]; decide), ensures_bind, beginUpgrade, ensures_bind, ensures_getP, htype,
      if_neg (by decide), if_pos rfl, upgradeOptimistic, ensures_bind, getMeta64, ensures_bind,
      ensures_getP, hdata]
    refine (ensures_pure _).mpr ?_
    rw [ensures_bind]
    refine (invalidateCursors_spec (.inl fun _ => trivial) sqliteOk false).imp fun rc1 w₁ h => ?_
    refine .ite (fun hrc => ?_) fun _ => ?_
    · have hne : errorMap rc1 ≠ sqliteOk := fun h => hrc ((errorMap_eq_ok _).mp h)
      exact (ensures_pure _).mpr (.ite (fun _ => ⟨fun _ => hne, h.1⟩) fun h => absurd hne h)
    · have hsvp₁ : ({ w₁ with p := { w₁.p with hasData := false } } : World).p.svp = [] := by
        rw [← hsvp, ← h.1.p]
      rw [ensures_bind, ensures_setP]
      exact ensures_topTxn_nil hsvp₁ _ _

/-- What another attempt to upgrade does after one that was too late: the write transaction is
replaced by a new one, and the counter is compared with the one it saw. -/
inductive Retried (w : World) (rc : Rc) (w' : World) : Prop
  | unsaved (hrc : rc ≠ sqliteOk) (hp : w'.p = w.p) (hwriters : w'.env.writers = w.env.writers)
      (hdisk : w'.env.disk = w.env.disk)
  | lost (hrc : rc ≠ sqliteOk) (hp : w'.p = { w.p with svp := [], hasData := false })
      (hwriters : w'.env.writers = []) (hdisk : w'.env.disk = { w.env.disk with locked := false })
  | replaced (s : BtreeSavepoint) (shadow : ℕ → Option MdbCursor) (agree : Bool)
      (hp : w'.p = { w.p with
        svp := [s], hasData := true, inTrans := if agree then .write else w.p.inTrans })
      (hwriters : w'.env.writers = [⟨s.txn, w.env.disk.contents, shadow⟩])
      (hdisk : w'.env.disk = { w.env.disk with locked := true })
      (hrc : rc = if agree then sqliteOk else sqliteBusy)

theorem upgradeOptimistic_retried {s : BtreeSavepoint} {t : WriteTxn} (hsvp : w.p.svp = [s])
    (hwriters : w.env.writers = [t]) (ht : s.txn = t.id) (hopen : w.env.readonly = false) :
    Ensures (fun _ => True) upgradeOptimistic (fun rc w' => w'.fixedRowid = w.fixedRowid ∧
      w'.env.readonly = w.env.readonly ∧ Retried w rc w') w := by
  have hkind : w.env.kind s.txn = some .readWrite := by rw [ht]; exact kind_writer hwriters
  have hview : w.env.view s.txn = some t.view := by rw [ht]; exact view_writer hwriters
  obtain ⟨codes, hread, -, -⟩ := readMeta_eq w
  rw [upgradeOptimistic, ensures_bind, ensures_getMeta64 hsvp hkind hview, hread, ensures_bind]
  refine (invalidateCursors_spec (.inl fun _ => trivial) sqliteOk false).imp fun rc1 w₁ h => ?_
  obtain ⟨hc, -⟩ := h
  have hw₁ : w₁.env.writers = [t] := hc.env.writers.trans hwriters
  have hdisk₁ : w₁.env.disk = w.env.disk := hc.env.disk
  have hp₁ : w₁.p = w.p := hc.p
  refine .ite (fun hrc1 => ?_) fun _ => ?_
  · exact ⟨hc.build, hc.env.readonly,
      .unsaved (fun h => hrc1 ((errorMap_eq_ok _).mp h)) hp₁ hc.env.writers hdisk₁⟩
  rw [ensures_bind, ensures_setP, ensures_bind]
  have hsvp₁ : ({ w₁ with p := { w₁.p with hasData := false } } : World).p.svp = [s] := by
    rw [← hsvp, ← hp₁]
  refine (ensures_topTxn hsvp₁ _).mpr ?_
  rw [ensures_bind, ensures_lmdb, ht, documented.txnAbort hw₁]
  have habort := abort_writer hw₁
  have hwe : (w₁.env.abort t.id).writers = [] := congrArg Env.writers habort
  have hde : (w₁.env.abort t.id).disk = { w.env.disk with locked := false } := by
    rw [← hdisk₁]
    exact congrArg Env.disk habort
  have hre : (w₁.env.abort t.id).readonly = w.env.readonly :=
    (congrArg Env.readonly habort).trans hc.env.readonly
  have hbuild := hc.build
  clear habort
  generalize w₁.env.abort t.id = e at hwe hde hre ⊢
  refine (upgradeTaken_spec (E := fun _ => True) (w := { w₁ with env := e, p := { w₁.p with hasData := false } })
    (fun _ => trivial) hsvp₁ hwe (hre.trans hopen) _).imp fun rc w' h => ?_
  obtain ⟨⟨hbuild', -, -, hreadonly⟩, htaken⟩ := h
  refine ⟨hbuild'.trans hbuild, hreadonly.trans hre, ?_⟩
  cases htaken with
  | lost hrc hp hwriters' hdisk _ =>
    refine .lost hrc ?_ hwriters' (hdisk.trans hde)
    rw [hp, ← hp₁]
  | replaced agree _ hp hwriters' hdisk _ _ hrc =>
    refine .replaced ⟨e.next, s.nSavepoint⟩ e.cursors agree ?_ ?_ ?_ hrc
    · rw [hp, ← hp₁]
    · have hcontents : e.disk.contents = w.env.disk.contents := by rw [hde]
      rw [← hcontents]
      exact hwriters'
    · exact hdisk.trans (congrArg (fun d : Disk => { d with locked := true }) hde)

theorem Retried.answersOnly {w₁ : World} (h : Retried w rc w₁) (ha : AnswersOnly w₁ w') :
    Retried w rc w' := by
  obtain ⟨a, rfl⟩ := ha
  cases h with
  | unsaved hrc hp hwriters hdisk => exact .unsaved hrc hp hwriters hdisk
  | lost hrc hp hwriters hdisk => exact .lost hrc hp hwriters hdisk
  | replaced s shadow agree hp hwriters hdisk hrc =>
    exact .replaced s shadow agree hp hwriters hdisk hrc

theorem late_beginTrans {s : BtreeSavepoint} {t : WriteTxn} (hsvp : w.p.svp = [s])
    (hin : w.p.inTrans = .read) (htype : w.p.transType = transactionOptimistic)
    (hwriters : w.env.writers = [t]) (ht : s.txn = t.id) (hro : w.p.readonly = false)
    (hopen : w.env.readonly = w.p.readonly) (pSchemaVersion : Bool) :
    Ensures (fun _ => True) (sqlite3BtreeBeginTrans true pSchemaVersion) (fun r w' =>
      w'.fixedRowid = w.fixedRowid ∧ w'.env.readonly = w.env.readonly ∧ Retried w r.1 w') w := by
  rw [sqlite3BtreeBeginTrans, ensures_bind, ensures_getP, if_neg (by rw [hin]; decide),
    if_neg (by rw [hro]; decide), if_neg (fun h => by cases h.2), if_pos (by rw [hin]; decide),
    ensures_bind, beginUpgrade, ensures_bind, ensures_getP, htype, if_neg (by decide), if_pos rfl]
  refine (upgradeOptimistic_retried hsvp hwriters ht (hopen.trans hro)).imp fun rc w₁ h => ?_
  refine .ite (fun _ => h) fun hok => ?_
  obtain ⟨hbuild, hreadonly, hres⟩ := h
  rw [not_not] at hok
  cases hres with
  | unsaved hrc _ _ _ => exact absurd hok hrc
  | lost hrc _ _ _ => exact absurd hok hrc
  | replaced s shadow agree hp hwriters' hdisk hrc =>
    have hsvp₁ : w₁.p.svp = [s] := by rw [hp]
    have hkind : w₁.env.kind s.txn = some .readWrite := kind_writer hwriters'
    have hview : w₁.env.view s.txn = some w.env.disk.contents := view_writer hwriters'
    refine (beginGetVersion_spec hsvp₁ hkind hview pSchemaVersion).imp fun r w' h => ?_
    have ha : AnswersOnly w₁ w' := by
      rcases h.2 with rfl | rfl
      · exact Frame.refl _
      · exact .pop w₁ .get
    have hsame := ha.sameHandle
    rw [h.1, ← hok]
    exact ⟨hsame.build.trans hbuild, hsame.readonly.trans hreadonly,
      (Retried.replaced s shadow agree hp hwriters' hdisk hrc).answersOnly ha⟩

theorem Retried.connection {s : BtreeSavepoint} {t : WriteTxn} (h : Retried w rc w')
    (hconn : Connection counted n w) (hsvp : w.p.svp = [s]) (hin : w.p.inTrans = .read)
    (htype : w.p.transType = transactionOptimistic) (hwriters : w.env.writers = [t])
    (ht : s.txn = t.id) (hlocked : w.env.disk.locked = true)
    (hreadonly : w'.env.readonly = w.env.readonly) (hfree : MetaFree w'.env) :
    Connection counted n w' ∧ w'.env.disk.contents = w.env.disk.contents := by
  have hopened : w'.env.readonly = w'.p.readonly := by
    rw [hreadonly, hconn.opened]
    cases h with
    | unsaved _ hp _ _ | lost _ hp _ _ | replaced _ _ _ hp _ _ _ => rw [hp]
  have hcontents : w'.env.disk.contents = w.env.disk.contents := by
    cases h with
    | unsaved _ _ _ hdisk | lost _ _ _ hdisk | replaced _ _ _ _ _ hdisk _ => rw [hdisk]
  refine ⟨⟨?_, hopened, hfree, by rw [hcontents]; exact hconn.metadata⟩, hcontents⟩
  cases h with
  | unsaved _ hp hwriters' hdisk =>
    exact .late s t (by rw [hp, hsvp]) (by rw [hp, hin]) (by rw [hp, htype])
      (hwriters'.trans hwriters) ht (by rw [hdisk]; exact hlocked)
  | lost _ hp hwriters' hdisk =>
    exact .lost (by rw [hp]) (by rw [hp]; exact hin) (by rw [hp]; exact htype) (by rw [hp]) hwriters'
  | replaced s' shadow agree hp hwriters' hdisk _ =>
    cases agree with
    | true =>
      have hfirst : FirstLevel w w' s' shadow := ⟨by rw [hp], hwriters', hdisk, .inl (by rw [hp]; rfl),
        by rw [hp], fun _ => by rw [hp]⟩
      refine .writing ?_ fun hread => ?_
      · rw [hcontents]
        exact hfirst.inWrite hopened hfree hconn.metadata
      · rw [hp] at hread
        cases hread
    | false =>
      exact .late s' _ (by rw [hp]) (by rw [hp]; exact hin) (by rw [hp]; exact htype) hwriters' rfl
        (by rw [hdisk])

theorem beginTrans_effect (h : Connection counted n w) (wrFlag pSchemaVersion : Bool)
    (hcount : counted → Countable (.txn (.beginTrans wrFlag pSchemaVersion)) n w) :
    Ensures (fun _ => True) (ConnCall.txn (.beginTrans wrFlag pSchemaVersion)).run
      (Effect counted n (.txn (.beginTrans wrFlag pSchemaVersion)) w) w := by
  rw [ConnCall.run, TxnCall.run, ensures_bind]
  have hnot : w.p.inTrans = .read → ∀ rc, (ConnCall.txn (.beginTrans wrFlag pSchemaVersion)).opensRead
      w.p rc = false := fun hin rc => by
    rw [ConnCall.opensRead, decide_eq_false_iff_not]
    rintro ⟨_, hnone, _⟩
    exact absurd (hin.symm.trans hnone) (by decide)
  cases h.state with
  | idle hsvp hin hwriters =>
    exact beginTrans_effect_of_stack h (.idle hsvp hin hwriters) hcount fun _ _ _ _ => hwriters
  | reading s snapshot hsvp hin hwriters hserial hkind hview _ =>
    exact beginTrans_effect_of_stack h (.reading s snapshot hsvp hin hwriters hserial hkind hview)
      hcount fun _ _ _ _ => hwriters
  | writing hw _ =>
    refine beginTrans_effect_of_stack h hw.stack hcount fun _ _ hread htype => ?_
    rcases hw.inTrans with hwrite | ⟨_, hserial⟩
    · exact absurd (hread.symm.trans hwrite) (by decide)
    · exact absurd (htype.symm.trans hserial) (by decide)
  | failed s hsvp hin hwriters =>
    refine (failed_beginTrans hsvp hin wrFlag pSchemaVersion).imp fun r w' hres => ?_
    obtain ⟨hrc, rfl⟩ := hres
    refine .of_disk h rfl rfl id ?_ rfl fun _ _ hok => absurd hok hrc
    rw [ConnCall.opensRead, decide_eq_false_iff_not]
    rintro ⟨_, _, hok⟩
    exact hrc hok
  | lost hsvp hin htype hdata hwriters =>
    refine ((lost_beginTrans hsvp hin htype hdata wrFlag pSchemaVersion).keep
      (orderly_beginTrans wrFlag pSchemaVersion)).imp fun r w' hres => ?_
    obtain ⟨⟨hrc, hc⟩, horder⟩ := hres
    have hp : w'.p = w.p := hc.p
    refine .of_disk ⟨.lost (by rw [hp, hsvp]) (by rw [hp, hin]) (by rw [hp, htype]) (by rw [hp, hdata])
      (hc.env.writers.trans hwriters), ?_, (horder h.metaFree).metaFree, ?_⟩ hc.build hc.env.disk
      (fun hw => hc.env.writers.trans hw) (hnot hin _) rfl fun _ hup hok => ?_
    · rw [hc.env.readonly, hp]
      exact h.opened
    · rw [hc.env.disk]
      exact h.metadata
    · rw [ConnCall.upgrades, decide_eq_true_iff] at hup
      exact absurd hok (hrc hup.1)
  | late s t hsvp hin htype hwriters ht hlocked =>
    by_cases hretry : wrFlag = true ∧ w.p.readonly = false
    · obtain ⟨rfl, hro⟩ := hretry
      refine ((late_beginTrans hsvp hin htype hwriters ht hro h.opened pSchemaVersion).keep
        (orderly_beginTrans true pSchemaVersion)).imp fun r w' hres => ?_
      obtain ⟨⟨hbuild, hreadonly, hres⟩, horder⟩ := hres
      obtain ⟨hconn, hcontents⟩ := hres.connection h hsvp hin htype hwriters ht hlocked hreadonly
        (horder h.metaFree).metaFree
      refine ⟨?_, hbuild, fun hnil _ => absurd (hnil.symm.trans hwriters) (by simp),
        fun _ => hcontents, fun hc => (by cases hc), fun hc hup _ => ?_⟩
      · rw [ConnCall.elapsed_same (hnot hin _) rfl]
        exact hconn
      · have hnil := ((hcount hc).upgrade hup htype).1
        exact absurd (hnil.symm.trans hwriters) (by simp)
    · have hstack : TxnStack w := .writing (by rw [hsvp]; simp)
        ⟨by rw [hsvp, hwriters, List.map_singleton, List.map_singleton, ht], hlocked⟩
        (fun s' hs' => by rw [hsvp] at hs'; cases hs') (by rw [hin]; decide)
      exact beginTrans_effect_of_stack h hstack hcount fun hwr hro _ _ => absurd ⟨hwr, hro⟩ hretry

theorem beginStmt_effect (h : Connection counted n w) (hin : w.p.inTrans = .write)
    (iStatement : ℕ) :
    Ensures (fun _ => True) (ConnCall.txn (.beginStmt iStatement)).run
      (Effect counted n (.txn (.beginStmt iStatement)) w) w := by
  cases h.state with
  | idle _ hin' _ | failed _ _ hin' _ | lost _ hin' _ _ _ | reading _ _ _ hin' _ _ _ _ _
  | late _ _ _ hin' _ _ _ _ => exact absurd (hin.symm.trans hin') (by decide)
  | writing hw _ =>
    refine ((hw.beginStmt iStatement).and (beginStmt_spec hw.stack hw.open iStatement)).imp
      fun rc w' hres => ?_
    obtain ⟨hw', hsame, hres⟩ := hres
    have hwrite : w'.p.inTrans = .write ∧ w'.env.disk = w.env.disk := by
      cases hres with
      | same _ ha =>
        obtain ⟨a, rfl⟩ := ha
        exact ⟨hin, rfl⟩
      | opened _ _ _ _ hp _ hdisk => exact ⟨by rw [hp]; exact hin, hdisk⟩
    refine .of_disk ⟨.writing ?_ fun hread => absurd (hwrite.1.symm.trans hread) (by decide),
      hw'.opened, hw'.metaFree, by rw [hwrite.2]; exact h.metadata⟩ hsame.build hwrite.2
      (fun hnil => absurd hnil (hw.aligned.writers_ne hw.nonempty)) rfl rfl fun _ hup => (by cases hup)
    rw [hwrite.2]
    exact hw'

/-- A transaction that has ended without a commit. -/
theorem Ended.effect (he : Ended w w') (h : Connection counted n w) (hfree : MetaFree w'.env)
    (hopens : call.opensRead w.p rc = false) (hcommits : call.commits w.p rc = false)
    (hup : call.upgrades w.p = false) : Effect counted n call w rc w' := by
  have hp := he.p
  refine ⟨?_, he.build, fun hnil _ => ⟨he.writers, he.untouched hnil⟩, fun _ => he.contents,
    fun hc => absurd (hcommits.symm.trans hc) (by decide),
    fun _ hu => absurd (hup.symm.trans hu) (by decide)⟩
  rw [ConnCall.elapsed_same hopens hcommits]
  refine ⟨.idle (by rw [hp]) (by rw [hp]) he.writers, ?_, hfree, by rw [he.contents]; exact h.metadata⟩
  rw [he.readonly, hp]
  exact h.opened

/-- The stack holds no transaction that LMDB knows. -/
structure DeadStack (w : World) : Prop where
  short : w.p.svp = [] ∨ ∃ s, w.p.svp = [s]
  inTrans : w.p.inTrans ≠ .write
  writers : w.env.writers = []

theorem ConnState.stack (h : ConnState counted n w) : TxnStack w ∨ DeadStack w := by
  cases h with
  | idle hsvp hin hwriters => exact .inl (.idle hsvp hin hwriters)
  | failed s hsvp hin hwriters => exact .inr ⟨.inr ⟨s, hsvp⟩, by rw [hin]; decide, hwriters⟩
  | lost hsvp hin _ _ hwriters => exact .inr ⟨.inl hsvp, by rw [hin]; decide, hwriters⟩
  | reading s snapshot hsvp hin hwriters hserial hkind hview _ =>
    exact .inl (.reading s snapshot hsvp hin hwriters hserial hkind hview)
  | late s t hsvp hin htype hwriters ht hlocked =>
    exact .inl (.writing (by rw [hsvp]; simp)
      ⟨by rw [hsvp, hwriters, List.map_singleton, List.map_singleton, ht], hlocked⟩
      (fun s' hs' => by rw [hsvp] at hs'; cases hs') (by rw [hin]; decide))
  | writing hw _ => exact .inl hw.stack

/-- No level is left to close. -/
theorem closeAll_short (hsvp : w.p.svp = [] ∨ ∃ s, w.p.svp = [s]) (nTo : ℤ) (commit : Bool)
    (tripCode : Rc) (Q : Rc → World → Prop) :
    Ensures (fun _ => True) (closeAllSavepoints nTo commit tripCode) Q w ↔ Q 0 w := by
  rcases hsvp with hsvp | ⟨s, hsvp⟩
  · rw [closeAllSavepoints, ensures_bind, ensures_getP, hsvp]
    rfl
  · exact closeAll_single hsvp nTo commit tripCode Q

/-- The end of the transaction on an empty stack, or one with a dead transaction. -/
theorem DeadStack.endTxn {w₁ : World} (hd : DeadStack w) (hc : CursorsOnly w w₁) {f : Btree → Btree}
    (hf : ∀ s p, p.svp = [s] → f p = { p with svp := [], inTrans := .none }) :
    Ensures (fun _ => True) (do
      let txn ← topTxn
      lmdb (mdbTxnAbort txn)
      setP f
      pure sqliteOk) (fun rc w' => rc = sqliteOk ∧ Ended w w') w₁ := by
  have hwriters := hd.writers
  rcases hd.short with hsvp | ⟨s, hsvp⟩
  · exact ensures_topTxn_nil (by rw [hc.p, hsvp]) _ _
  · have hsvp₁ : w₁.p.svp = [s] := by rw [hc.p, hsvp]
    have hwriters₁ : w₁.env.writers = [] := hc.env.writers.trans hwriters
    have hkind : w₁.env.kind s.txn ≠ some .readWrite := by
      rw [Env.kind, hwriters₁]
      simp
    cases hk : w₁.env.kind s.txn with
    | some k =>
      cases k with
      | readWrite => exact absurd hk hkind
      | readOnly =>
        exact endTxn_spec hc.levelsOnly.still hsvp₁ (.reader hwriters hwriters₁ hk) fun p hp => hf s p hp
    | none =>
      rw [ensures_bind, ensures_topTxn hsvp₁, ensures_bind, ensures_lmdb, mdbTxnAbort, ensures_bind,
        ensures_read]
      simp only [id_eq, hk]
      trivial

theorem DeadStack.savepoint (hd : DeadStack w) (op : SavepointOp) (iSavepoint : ℤ) :
    Ensures (fun _ => True) (sqlite3BtreeSavepoint op iSavepoint)
      (fun _ w' => w' = w ∨ Ended w w') w := by
  rw [sqlite3BtreeSavepoint, ensures_bind, closeAll_short hd.short, if_neg (not_not.mpr rfl)]
  refine .ite (fun _ => .inl rfl) fun _ => ?_
  rw [ensures_bind]
  refine (invalidateCursors_spec (.inl fun _ => trivial) sqliteOk false).imp fun _ w₁ hc => ?_
  exact (hd.endTxn hc.1 fun s p hp => by rw [hp]; rfl).imp fun _ _ h => .inr h.2

theorem savepoint_effect (h : Connection counted n w) (op : SavepointOp) (iSavepoint : ℤ) :
    Ensures (fun _ => True) (ConnCall.txn (.savepoint op iSavepoint)).run
      (Effect counted n (.txn (.savepoint op iSavepoint)) w) w := by
  rw [ConnCall.run, TxnCall.run]
  have hsame : ∀ rc, Effect counted n (.txn (.savepoint op iSavepoint)) w rc w := fun rc =>
    .of_disk h rfl rfl id rfl rfl fun _ hup => (by cases hup)
  rcases h.state.stack with hs | hd
  · refine ((savepoint_spec (.inl fun _ => trivial) trivial hs op iSavepoint).keep
      (orderly_savepoint op iSavepoint)).imp fun rc w' hres => ?_
    obtain ⟨hres, horder⟩ := hres
    have hfree := (horder h.metaFree).metaFree
    cases hres with
    | same hw _ =>
      rw [hw]
      exact hsame rc
    | ended _ _ hended => exact hended.effect h hfree rfl rfl rfl
    | closed rc' _ _ hne hal _ hclosed =>
      have honly := hclosed.only
      have hdisk : w'.env.disk = w.env.disk := honly.disk
      have hin : w'.p.inTrans = w.p.inTrans := by rw [honly.p]
      have hwriters := hal.writers_ne hne
      refine .of_disk ⟨?_, ?_, hfree, by rw [hdisk]; exact h.metadata⟩ honly.build hdisk
        (fun hnil => absurd hnil hwriters) rfl rfl fun _ hup => (by cases hup)
      · cases h.state with
        | idle _ _ hnil | failed _ _ _ hnil | lost _ _ _ _ hnil | reading _ _ _ _ hnil _ _ _ _ =>
          exact absurd hnil hwriters
        | late s t hsvp hin' htype hw ht hlocked =>
          have hzero : closedCount iSavepoint w.p.svp = 0 := by rw [hsvp]; rfl
          have hw' : w'.env.writers = [t] := by
            rcases hclosed.writers with hd | hm
            · rw [hd, hzero, hw]
              rfl
            · rw [hm, hzero, hw]
              rfl
          exact .late s t (by rw [hclosed.svp, hzero, hsvp]; rfl) (hin.trans hin')
            (by rw [honly.p]; exact htype) hw' ht (by rw [hdisk]; exact hlocked)
        | writing hw hfirst =>
          refine .writing ?_ (by rw [hin]; exact hfirst)
          rw [hdisk]
          exact hw.closed hclosed (closedCount_lt iSavepoint w.p.svp hne) hfree
      · rw [honly.readonly, honly.p]
        exact h.opened
  · refine ((hd.savepoint op iSavepoint).keep (orderly_savepoint op iSavepoint)).imp
      fun rc w' hres => ?_
    obtain ⟨rfl | hended, horder⟩ := hres
    · exact hsame rc
    · exact hended.effect h (horder h.metaFree).metaFree rfl rfl rfl

theorem DeadStack.rollback (hd : DeadStack w) (tripCode : Rc) (writeOnly : Bool) :
    Ensures (fun _ => True) (sqlite3BtreeRollback tripCode writeOnly)
      (fun rc w' => rc = sqliteOk ∧ (w' = w ∨ Ended w w')) w := by
  rw [sqlite3BtreeRollback, ensures_bind, ensures_getP]
  refine .ite (fun _ => ⟨rfl, .inl rfl⟩) fun _ => ?_
  rw [ensures_bind, closeAll_short hd.short, ensures_bind]
  refine (invalidateCursors_spec (.inl fun _ => trivial) tripCode writeOnly).imp fun _ w₁ hc => ?_
  exact (hd.endTxn hc.1 fun _ _ _ => rfl).imp fun _ _ h => ⟨h.1, .inr h.2⟩

theorem ConnState.rollback (h : ConnState counted n w) (tripCode : Rc) (writeOnly : Bool) :
    Ensures (fun _ => True) (sqlite3BtreeRollback tripCode writeOnly)
      (fun rc w' => rc = sqliteOk ∧ (w' = w ∨ Ended w w')) w := by
  rcases h.stack with hs | hd
  · refine (rollback_spec (.inl fun _ => trivial) hs tripCode writeOnly).imp fun rc w' hres => ?_
    obtain ⟨hrc, ⟨-, hw⟩ | ⟨-, hended⟩⟩ := hres
    · exact ⟨hrc, .inl hw⟩
    · exact ⟨hrc, .inr hended⟩
  · exact hd.rollback tripCode writeOnly

theorem rollback_effect (h : Connection counted n w) (tripCode : Rc) (writeOnly : Bool) :
    Ensures (fun _ => True) (ConnCall.txn (.rollback tripCode writeOnly)).run
      (Effect counted n (.txn (.rollback tripCode writeOnly)) w) w := by
  rw [ConnCall.run, TxnCall.run]
  refine ((h.state.rollback tripCode writeOnly).keep (orderly_rollback tripCode writeOnly)).imp fun rc w' hres => ?_
  obtain ⟨⟨-, rfl | hended⟩, horder⟩ := hres
  · exact .of_disk h rfl rfl id rfl rfl fun _ hup => (by cases hup)
  · exact hended.effect h (horder h.metaFree).metaFree rfl rfl rfl

/-- Phase one without a write. -/
theorem commitPhaseOne_quiet (h : ConnState counted n w) (hin : w.p.inTrans ≠ .write) :
    Ensures (fun _ => True) sqlite3BtreeCommitPhaseOne
      (fun rc w' => rc = sqliteOk ∧ (w' = w ∨ Ended w w')) w := by
  by_cases hnone : w.p.inTrans = .none
  · rw [sqlite3BtreeCommitPhaseOne, ensures_bind, ensures_getP, if_pos hnone]
    exact ⟨rfl, .inl rfl⟩
  rcases h.stack with hs | hd
  · have hread : w.p.inTrans = .read := by
      cases hi : w.p.inTrans with
      | none => exact absurd hi hnone
      | read => rfl
      | write => exact absurd hi hin
    exact (commitPhaseOne_read (.inl fun _ => trivial) hs hread).imp fun _ _ h => ⟨h.1, .inr h.2⟩
  · rw [sqlite3BtreeCommitPhaseOne, ensures_bind, ensures_getP, if_neg hnone, ensures_bind,
      closeAll_short hd.short, if_neg (not_not.mpr rfl), ensures_bind]
    refine (invalidateCursors_spec (.inl fun _ => trivial) sqliteInternal false).imp fun _ w₁ hc => ?_
    rw [if_neg hin]
    exact (hd.endTxn hc.1 fun _ _ _ => rfl).imp fun _ _ h => ⟨h.1, .inr h.2⟩

theorem commitPhaseOne_effect (h : Connection counted n w) :
    Ensures (fun _ => True) (ConnCall.txn .commitPhaseOne).run
      (Effect counted n (.txn .commitPhaseOne) w) w := by
  rw [ConnCall.run, TxnCall.run]
  by_cases hin : w.p.inTrans = .write
  · have hw : InWrite w.env.disk.contents w := by
      cases h.state with
      | idle _ hin' _ | failed _ _ hin' _ | lost _ hin' _ _ _ | reading _ _ _ hin' _ _ _ _ _
      | late _ _ _ hin' _ _ _ _ => exact absurd (hin.symm.trans hin') (by decide)
      | writing hw _ => exact hw
    have hnil : w.env.writers ≠ [] := hw.aligned.writers_ne hw.nonempty
    have hcommits : ∀ rc, rc ≠ sqliteOk → (ConnCall.txn .commitPhaseOne).commits w.p rc = false :=
      fun rc hrc => decide_eq_false fun hf => hrc hf.2
    refine ((commitPhaseOne_spec (.inl fun _ => trivial) hw.aligned hw.nonempty hw.numbered hin).keep
      orderly_commitPhaseOne).imp fun rc w' hres => ?_
    obtain ⟨hres, horder⟩ := hres
    have hfree := (horder h.metaFree).metaFree
    cases hres with
    | dropped hrc hended _ => exact hended.effect h hfree rfl (hcommits rc hrc) rfl
    | nested s b hrc honly hsvp hwriters ht hb _ =>
      have hdisk : w'.env.disk = w.env.disk := honly.disk
      have hin' : w'.p.inTrans = .write := by rw [honly.p]; exact hin
      refine .of_disk ⟨.writing ⟨by rw [hsvp]; simp, ⟨?_, ?_⟩, ?_, .inl hin', ?_, hfree, rfl, ?_⟩
        fun hread => absurd (hin'.symm.trans hread) (by decide), ?_, hfree, by rw [hdisk]; exact h.metadata⟩
        honly.build hdisk (fun hn => absurd hn hnil) rfl (hcommits rc hrc) fun _ hup => (by cases hup)
      · rw [hsvp, hwriters, List.map_singleton, List.map_singleton, ht]
      · rw [hdisk]
        exact hw.aligned.locked
      · intro s' hs'
        rw [hsvp] at hs'
        cases hs'
      · rw [honly.readonly, honly.p]
        exact h.opened
      · intro t ht'
        rw [hwriters, List.mem_singleton] at ht'
        rw [ht', hdisk]
        exact hw.counter b (List.mem_of_getLast? hb)
      · rw [honly.readonly, honly.p]
        exact h.opened
    | failed s hrc hbuild hreadonly hp hwriters hdisk _ =>
      have hcontents : w'.env.disk.contents = w.env.disk.contents := by rw [hdisk]
      refine ⟨?_, hbuild, fun hn => absurd hn hnil, fun _ => hcontents,
        fun hc => absurd ((hcommits rc hrc).symm.trans hc) (by decide), fun _ hup => (by cases hup)⟩
      rw [ConnCall.elapsed_same rfl (hcommits rc hrc)]
      refine ⟨.failed s (by rw [hp]) (by rw [hp]) hwriters, ?_, hfree, by rw [hcontents]; exact h.metadata⟩
      rw [hreadonly, hp]
      exact h.opened
    | done t hrc hbuild _ hreadonly hp hwriters ht hdata hdisk hcause =>
      have hhas : w.p.hasData = true := by
        by_contra hne
        exact hcause (.inr (.inl (by simpa using hne)))
      have hcontents : w'.env.disk.contents = bumped w t.view := by rw [hdisk]
      have hkeeps := hw.counter t (List.mem_of_mem_head? ht)
      have hdone : (ConnCall.txn .commitPhaseOne).commits w.p rc = true := decide_eq_true ⟨hin, hrc⟩
      refine ⟨⟨.idle (by rw [hp]) (by rw [hp]) hwriters, ?_, hfree, ?_⟩, hbuild,
        fun hn => absurd hn hnil, fun hc => absurd (hdone.symm.trans hc) (by decide),
        fun _ => ⟨t, ht, hkeeps, hhas, hcontents⟩, fun _ hup => (by cases hup)⟩
      · rw [hreadonly, hp]
        exact h.opened
      · rw [hcontents]
        exact bumped_metadata hkeeps.1
  · refine ((commitPhaseOne_quiet h.state hin).keep orderly_commitPhaseOne).imp fun rc w' hres => ?_
    have hcommits : (ConnCall.txn .commitPhaseOne).commits w.p rc = false :=
      decide_eq_false fun hf => hin hf.1
    obtain ⟨⟨-, rfl | hended⟩, horder⟩ := hres
    · exact .of_disk h rfl rfl id rfl hcommits fun _ hup => (by cases hup)
    · exact hended.effect h (horder h.metaFree).metaFree rfl hcommits rfl

theorem ConnCall.effect (h : Connection counted n w) (hallowed : call.Allowed w)
    (hcount : counted → Countable call n w) :
    Ensures (fun _ => True) call.run (Effect counted n call w) w := by
  cases call with
  | data call => exact data_effect h hallowed
  | txn call =>
    cases call with
    | beginTrans wrFlag pSchemaVersion => exact beginTrans_effect h wrFlag pSchemaVersion hcount
    | beginStmt iStatement => exact beginStmt_effect h hallowed iStatement
    | savepoint op iSavepoint => exact savepoint_effect h op iSavepoint
    | commitPhaseOne => exact commitPhaseOne_effect h
    | rollback tripCode writeOnly => exact rollback_effect h tripCode writeOnly

/-- A commit adds one to the counter. -/
theorem commitCounter_bumped {t : WriteTxn} (hkeeps : KeepsCounter w.env.disk.contents t)
    (hdata : w.p.hasData = true) (hget : w.env.answers .get = []) :
    commitCounter w.fixedRowid (bumped w t.view) =
      Int.bmod (commitCounter w.fixedRowid w.env.disk.contents + 1) (2 ^ 32) := by
  obtain ⟨e, he, hval⟩ := counterEntry_bumped (w := w) hkeeps.1
  have hold : counterOf w t.view = commitCounter w.fixedRowid w.env.disk.contents := by
    rw [counterOf, if_pos hdata, meta64_counter, hget, hkeeps.2]
    rfl
  rw [commitCounter, he, readCounter, if_neg (not_not.mpr rfl), Option.map_some, Option.getD_some,
    hval, get8_put8 _ (nextCounter_lt _), toInt_nextCounter, hold]

/-- What calls of other connections leave of one. -/
theorem Connection.onDisk (h : Connection counted n w) {disk : Disk} {m : ℕ}
    (hmeta : HasMetadata (disk.contents .metadata))
    (hsame : w.env.writers ≠ [] → disk = w.env.disk ∧ m = n)
    (hcounter : counted → ∀ a, commitCounter w.fixedRowid w.env.disk.contents =
      Int.bmod (a + n) (2 ^ 32) → commitCounter w.fixedRowid disk.contents =
      Int.bmod (a + m) (2 ^ 32)) :
    Connection counted m { w with env := { w.env with disk := disk } } := by
  refine ⟨?_, h.opened, ⟨h.metaFree.cursors, h.metaFree.shadows⟩, hmeta⟩
  cases h.state with
  | idle hsvp hin hwriters => exact .idle hsvp hin hwriters
  | failed s hsvp hin hwriters => exact .failed s hsvp hin hwriters
  | lost hsvp hin htype hdata hwriters => exact .lost hsvp hin htype hdata hwriters
  | reading s snapshot hsvp hin hwriters hserial hkind hview hcounted =>
    exact .reading s snapshot hsvp hin hwriters hserial hkind hview fun hc =>
      ⟨(hcounted hc).1, hcounter hc _ (hcounted hc).2⟩
  | late s t hsvp hin htype hwriters ht hlocked =>
    obtain ⟨rfl, -⟩ := hsame (by rw [hwriters]; simp)
    exact .late s t hsvp hin htype hwriters ht hlocked
  | writing hw hfirst =>
    obtain ⟨rfl, rfl⟩ := hsame (hw.aligned.writers_ne hw.nonempty)
    exact .writing hw hfirst

end Effects

end LumoSql.Btree
