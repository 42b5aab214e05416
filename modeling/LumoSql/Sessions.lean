import LumoSql.ConnectionCalls
import LumoSql.CursorHandles
import LumoSql.CursorMemory

/-! Everything a connection can do with its handle, in any order: transactions are begun and ended,
cursors are opened, used and closed, and meanwhile other connections write. -/
namespace LumoSql.Btree
open StateLogic Lmdb

/-- A call, or what happens between two calls: LMDB has other codes to give, and the disk has been
written by others. -/
inductive SessionStep
  | meanwhile (answers : Answers) (disk : Disk)
  | cursor (call : CursorCall)
  | txn (call : TxnCall)
  | data (call : DataCall)

def sessionStep : SessionStep → Prog (World × Ledger) Halt Rc
  | .meanwhile answers disk => do
    Prog.modify fun s => (s.1.meanwhile answers disk, s.2)
    pure sqliteOk
  | .cursor call => ledgerStep call
  | .txn call => Prog.zoom Prod.fst (fun s w => (w, s.2)) call.run
  | .data call => do
    Prog.zoom Prod.fst (fun s w => (w, s.2)) call.run
    pure sqliteOk

/-- Cursors are opened and closed as the ledger says, statements are begun in write transactions, and
other connections leave the metadata there. -/
def SessionStep.Allowed (k : SessionStep) (s : World × Ledger) : Prop :=
  match k with
  | meanwhile _ disk => HasMetadata (disk.contents .metadata)
  | cursor call => (s.2.Allows call ∧ s.2.ClosesSafely call) ∧ s.1.p.single = false
  | txn call => (ConnCall.txn call).Allowed s.1
  | data call => call.moves = true ∧ call.Allowed s.1

/-- A connection that has not done anything yet. -/
structure NewSession (w : World) : Prop where
  ready : Ready w
  inTrans : w.p.inTrans = .none
  readers : w.env.readers = []
  first : w.p.firstCursor = none
  last : w.p.lastCursor = none
  curs : ∀ i, (w.curs i).cursor = none
  issued : w.env.Issued

/-- What a session can come to, with the cursors that are open. -/
def Reachable (w : World) (l : Ledger) : Prop :=
  ∃ w₀ steps, NewSession w₀ ∧ Run sessionStep SessionStep.Allowed (w₀, .empty) steps (w, l)

/-- What every step keeps. -/
structure Session (w : World) (l : Ledger) : Prop where
  connection : ∃ n, Connection False n w
  list : ListInvariant w l
  bound : ∀ i, l.usage i ≠ .unused → i < w.nCurs
  handles : Handles w
  rooted : ∀ i ∈ l.opened, 0 < (w.curs i).rootPage

section Steps

variable {w w' : World} {l : Ledger}

theorem NewSession.session (h : NewSession w) : Session w .empty := by
  obtain ⟨hsvp, hwriters⟩ := h.ready.stack.idle_of_none h.inTrans
  refine ⟨⟨0, .idle hsvp h.inTrans hwriters, h.ready.opened, h.ready.metaFree, h.ready.metadata⟩,
    .start h.first h.last, fun i hi => absurd rfl hi, ⟨h.issued, ?_, fun i h' hi => ?_, fun i j h' hi => ?_⟩,
    fun i hi => absurd hi List.not_mem_nil⟩
  · intro u hu
    rw [hwriters] at hu
    exact absurd hu List.not_mem_nil
  · rw [h.curs i] at hi
    cases hi
  · rw [h.curs i] at hi
    cases hi

/-- A call that does not touch the list. -/
theorem Session.kept (h : Session w l) (hconn : ∃ n, Connection False n w') (hlinks : LinksKept w w')
    (hhandles : HandlesKept w w') (hmemory : Remembers (fun _ => True) w w') : Session w' l := by
  refine ⟨hconn, hlinks.invariant h.list, fun i hi => (h.bound i hi).trans_le hhandles.count,
    hhandles.handles h.handles, fun i hi => ?_⟩
  rw [hmemory.root i trivial]
  exact h.rooted i hi

theorem Session.meanwhile (h : Session w l) (answers : Answers) {disk : Disk}
    (hmeta : HasMetadata (disk.contents .metadata)) : Session (w.meanwhile answers disk) l := by
  obtain ⟨n, hconn⟩ := h.connection
  have hdisk : Connection False n { w with env := { w.env with
      disk := if w.env.writers.isEmpty then disk else w.env.disk } } := by
    refine hconn.onDisk ?_ (fun hne => ?_) fun hfalse => hfalse.elim
    · split_ifs
      · exact hmeta
      · exact hconn.metadata
    · rw [if_neg (by rwa [List.isEmpty_iff])]
      exact ⟨rfl, rfl⟩
  refine ⟨⟨n, hdisk.answersOnly ⟨answers, rfl⟩⟩, ?_, h.bound, ?_, h.rooted⟩
  · have hsame : LinksKept w (w.meanwhile answers disk) := ⟨fun _ => rfl, fun _ => rfl, fun _ => rfl, rfl, rfl⟩
    exact hsame.invariant h.list
  · have hi := h.handles.issued
    exact ⟨⟨hi.writers, hi.readers, hi.cursors.cursors, hi.cursors.shadows⟩, h.handles.disjoint, h.handles.below, h.handles.apart⟩

/-- The call may begin a transaction for reading. -/
def TxnCall.Reads : TxnCall → Prop
  | beginTrans _ _ => True
  | _ => False

theorem TxnCall.built (call : TxnCall) : Built (TxnPart call.Reads) call.run := by
  cases call with
  | beginTrans wrFlag pSchemaVersion => exact Built.bind (built_beginTrans _ _) fun r => .pure _
  | beginStmt iStatement => exact built_beginStmt _
  | savepoint op iSavepoint => exact built_savepoint _ _
  | commitPhaseOne => exact built_commitPhaseOne
  | rollback tripCode writeOnly => exact built_rollback _ _

theorem Session.txn (h : Session w l) (call : TxnCall) (hallowed : (ConnCall.txn call).Allowed w) :
    Ensures (fun _ => True) call.run (fun _ w' => Session w' l) w := by
  obtain ⟨n, hconn⟩ := h.connection
  have hlinks : Keeps LinksKept call.run := call.built.keeps TxnPart.links
  have hhandles : Keeps HandlesKept call.run := call.built.keeps TxnPart.handles
  have hmemory : Keeps (Remembers fun _ => True) call.run := call.built.keeps TxnPart.remembers
  have heffect : Ensures (fun _ => True) call.run (Effect False n (.txn call) w) w :=
    ConnCall.effect hconn hallowed fun hfalse => hfalse.elim
  refine (((heffect.keep hlinks).keep hhandles).keep hmemory).imp fun rc w' hres => ?_
  obtain ⟨⟨⟨heffect, hlinks⟩, hhandles⟩, hmemory⟩ := hres
  exact h.kept ⟨_, heffect.connection⟩ hlinks hhandles hmemory

theorem Session.data (h : Session w l) {call : DataCall} (hmoves : call.moves = true) (hallowed : call.Allowed w) :
    Ensures (fun _ => True) call.run (fun _ w' => Session w' l) w := by
  obtain ⟨n, hconn⟩ := h.connection
  have hbuilt := (DataCall.built_of_moves hmoves hallowed).trans UsePart.built
  have hlinks : Keeps LinksKept call.run := hbuilt.keeps MovePart.links
  have hhandles : Keeps HandlesKept call.run := hbuilt.keeps MovePart.handles
  have hmemory : Keeps (Remembers fun _ => True) call.run := hbuilt.keeps MovePart.remembers
  refine ((((dataCall_spec hconn.metaFree hallowed).keep hlinks).keep hhandles).keep hmemory).imp fun _ w' hres => ?_
  obtain ⟨⟨⟨htables, hlinks⟩, hhandles⟩, hmemory⟩ := hres
  exact h.kept ⟨_, htables.connection hconn⟩ hlinks hhandles hmemory

/-- The calls that open and close cursors leave the transactions alone. -/
theorem cursorCall_spec (hfree : MetaFree w.env) (hsingle : w.p.single = false) (call : CursorCall) :
    Ensures (fun _ => True) call.run (fun _ w' => TablesOnly w w') w := by
  cases call with
  | zero i => exact ⟨rfl, rfl, .refl hfree⟩
  | cursor i iTable wrFlag keyInfo =>
    exact (dataKeeps_built (built_cursor iTable wrFlag keyInfo i) w).imp fun _ _ h => h hfree
  | close i => exact closeCursor_data hsingle hfree i

theorem cursorCall_handles (call : CursorCall) : Keeps HandlesKept call.run := by
  cases call with
  | zero i =>
    intro w
    refine ⟨fun hw => ?_, Nat.le_max_left _ _⟩
    have hset := hw.setCur (i := i) (d := .zero) (.inr rfl)
    exact ⟨hset.issued, hset.disjoint, hset.below, hset.apart⟩
  | cursor i iTable wrFlag keyInfo => exact handles_built ((built_cursor iTable wrFlag keyInfo i).mono .data)
  | close i => exact handles_built (built_closeCursor i)

theorem zero_count (i : ℕ) : Ensures (fun _ => True) (CursorCall.zero i).run (fun _ w' => i < w'.nCurs) w :=
  Nat.lt_of_lt_of_le (Nat.lt_succ_self i) (Nat.le_max_right _ _)

/-- Cursors in use have memory. -/
theorem Ledger.record_used {call : CursorCall} {rc : Rc} (hallows : l.Allows call) {i : ℕ}
    (hi : (l.record rc call).usage i ≠ .unused) : l.usage i ≠ .unused ∨ call = .zero i := by
  cases call with
  | zero j =>
    by_cases hij : i = j
    · exact .inr (by rw [hij])
    · exact .inl (by simpa [Ledger.record, Function.update_of_ne hij] using hi)
  | cursor j iTable wrFlag keyInfo =>
    by_cases hij : i = j
    · refine .inl fun hunused => ?_
      rw [hij] at hunused
      have hzeroed : l.usage j = .zeroed := hallows
      rw [hzeroed] at hunused
      cases hunused
    · rw [Ledger.record] at hi
      split_ifs at hi
      · exact .inl (by simpa [Function.update_of_ne hij] using hi)
      · exact .inl (by simpa [Function.update_of_ne hij] using hi)
  | close j =>
    by_cases hij : i = j
    · simp [Ledger.record, hij] at hi
    · exact .inl (by simpa [Ledger.record, Function.update_of_ne hij] using hi)

theorem Session.cursor_rooted (h : Session w l) {call : CursorCall} (hallows : l.Allows call) :
    Ensures (fun _ => True) call.run (fun rc w' => ∀ j ∈ (l.record rc call).opened, 0 < (w'.curs j).rootPage) w := by
  have hkept : ∀ w', Remembers call.Spares w w' → ∀ j ∈ l.opened, 0 < (w'.curs j).rootPage := by
    intro w' hmemory j hj
    rw [hmemory.root j (hallows.spares h.list hj)]
    exact h.rooted j hj
  cases call with
  | zero i => exact (CursorCall.remembers _ w).imp fun _ w' hmemory => hkept w' hmemory
  | cursor i iTable wrFlag keyInfo =>
    refine ((Btree.cursor_rooted i iTable wrFlag keyInfo w).and (CursorCall.remembers (.cursor i iTable wrFlag keyInfo) w)).imp
      fun rc w' hres => ?_
    rw [Ledger.record]
    split_ifs with hok
    · intro j hj
      rcases List.mem_append.mp hj with hj | hj
      · exact hkept w' hres.2 j hj
      · rw [List.mem_singleton.mp hj]
        exact hres.1 hok
    · exact hkept w' hres.2
  | close i =>
    exact (CursorCall.remembers _ w).imp fun _ w' hmemory j hj => hkept w' hmemory j (List.mem_of_mem_erase hj)

theorem Session.cursor (h : Session w l) {call : CursorCall} (hallows : l.Allows call) (hsafe : l.ClosesSafely call)
    (hsingle : w.p.single = false) :
    Ensures (fun _ => True) call.run (fun rc w' => Session w' (l.record rc call)) w := by
  obtain ⟨n, hconn⟩ := h.connection
  have hzero : ∀ i, call = .zero i → Ensures (fun _ => True) call.run (fun _ w' => i < w'.nCurs) w := by
    rintro i rfl
    exact zero_count i
  have hspec := ((cursorCall_spec hconn.metaFree hsingle call).and ((call_invariant h.list call hallows hsafe).and
    (h.cursor_rooted hallows))).keep (cursorCall_handles call)
  rw [ensures_iff] at hspec ⊢
  refine ⟨fun rc w' hrun => ?_, fun _ _ => trivial⟩
  obtain ⟨⟨htables, hlist, hrooted⟩, hhandles⟩ := hspec.1 rc w' hrun
  refine ⟨⟨n, htables.connection hconn⟩, hlist, fun i hi => ?_, hhandles.handles h.handles, hrooted⟩
  rcases Ledger.record_used hallows hi with hused | hcall
  · exact (h.bound i hused).trans_le hhandles.count
  · exact (hzero i hcall).of_ok hrun

theorem Session.step {s : World × Ledger} (h : Session s.1 s.2) {k : SessionStep} (hallowed : k.Allowed s) :
    Ensures (fun _ => True) (sessionStep k) (fun _ s' => Session s'.1 s'.2) s := by
  cases k with
  | meanwhile answers disk => exact h.meanwhile answers hallowed
  | cursor call =>
    rw [sessionStep, ensures_ledgerStep]
    exact h.cursor hallowed.1.1 hallowed.1.2 hallowed.2
  | txn call =>
    rw [sessionStep, ensures_zoom]
    exact h.txn call hallowed
  | data call =>
    rw [sessionStep, ensures_bind, ensures_zoom]
    exact h.data hallowed.1 hallowed.2

/-- What holds of a new connection and is kept by every step holds of what is reached. -/
theorem Reachable.invariant {I : World → Ledger → Prop} (h : Reachable w l) (hnew : ∀ w, NewSession w → I w .empty)
    (hstep : ∀ (s : World × Ledger) (k : SessionStep), I s.1 s.2 → k.Allowed s →
      Ensures (fun _ => True) (sessionStep k) (fun _ s' => I s'.1 s'.2) s) : I w l := by
  obtain ⟨w₀, steps, hw₀, hrun⟩ := h
  suffices hinv : ∀ s s' steps, Run sessionStep SessionStep.Allowed s steps s' → I s.1 s.2 → I s'.1 s'.2 from
    hinv _ _ steps hrun (hnew w₀ hw₀)
  intro s s' steps hrun hs
  induction hrun with
  | nil s => exact hs
  | cons hallowed hret _ ih => exact ih ((hstep _ _ hs hallowed).of_ok hret)

theorem Reachable.session (h : Reachable w l) : Session w l :=
  h.invariant (fun _ => NewSession.session) fun _ _ hs hallowed => hs.step hallowed

theorem Session.listed (h : Session w l) : Listed w l.opened := by
  refine ⟨h.list.cursorList.visits, h.list.once, fun i hi => h.bound i ?_⟩
  rw [(h.list.listed i).mp hi]
  decide

theorem Session.apart (h : Session w l) : Apart w l.opened := by
  intro i _ j _ hi _ hsame
  obtain ⟨n, hn⟩ := Option.isSome_iff_exists.mp hi.2
  exact h.handles.apart i j n hn (hsame ▸ hn)

end Steps

section States

variable {w : World} {k : ℤ}

/-- A stack with nested levels is that of a write transaction. -/
theorem ConnState.aligned {counted : Prop} {n : ℕ} (h : ConnState counted n w) (hcount : closedCount k w.p.svp ≠ 0) :
    Aligned w ∧ w.p.svp ≠ [] := by
  cases h with
  | writing hw _ => exact ⟨hw.aligned, hw.nonempty⟩
  | idle hsvp _ _ | lost hsvp _ _ _ _ =>
    rw [hsvp] at hcount
    exact absurd rfl hcount
  | failed s hsvp _ _ | reading s _ hsvp _ _ _ _ _ _ | late s _ hsvp _ _ _ _ _ =>
    rw [hsvp] at hcount
    exact absurd rfl hcount

/-- If the transaction on top is alive, it can be seen. -/
def TopSeen (w : World) : Prop :=
  ∀ s rest, w.p.svp = s :: rest → w.env.kind s.txn ≠ none → ∃ c, w.env.view s.txn = some c

theorem ConnState.topSeen {counted : Prop} {n : ℕ} (h : ConnState counted n w) : TopSeen w := by
  intro s rest hsvp hkind
  cases h with
  | idle hnone _ _ | lost hnone _ _ _ _ =>
    rw [hnone] at hsvp
    cases hsvp
  | failed s' hsvp' _ hwriters =>
    rw [Env.kind, hwriters, List.map_nil, if_neg List.not_mem_nil] at hkind
    rw [view_reader hwriters]
    have hmem : s.txn ∈ w.env.readers.map ReadTxn.id := by
      by_contra hnot
      exact hkind (if_neg hnot)
    obtain ⟨r, hr, hid⟩ := List.mem_map.mp hmem
    cases hfind : w.env.readers.find? fun r => r.id = s.txn with
    | none => exact absurd (by simpa using hid) (List.find?_eq_none.mp hfind r hr)
    | some r' => exact ⟨r'.view, rfl⟩
  | reading s' snapshot hsvp' _ _ _ _ hview _ =>
    obtain rfl : s' = s := by
      rw [hsvp'] at hsvp
      exact (List.cons.inj hsvp).1
    exact ⟨snapshot, hview⟩
  | late s' t hsvp' _ _ hwriters ht _ =>
    obtain rfl : s' = s := by
      rw [hsvp'] at hsvp
      exact (List.cons.inj hsvp).1
    rw [ht]
    exact ⟨t.view, view_writer hwriters⟩
  | writing hw _ =>
    obtain ⟨t, ts, hwriters, ht⟩ := hw.aligned.top hsvp
    rw [ht]
    exact ⟨t.view, view_writer hwriters⟩

/-- The transaction on top is alive while the handle is in a transaction. -/
theorem ConnState.topAlive {counted : Prop} {n : ℕ} (h : ConnState counted n w) (hin : w.p.inTrans ≠ .none)
    (hne : w.p.svp ≠ []) : ∃ s rest, w.p.svp = s :: rest ∧ w.env.kind s.txn ≠ none := by
  cases h with
  | idle hsvp _ _ | lost hsvp _ _ _ _ => exact absurd hsvp hne
  | failed _ _ hnone _ => exact absurd hnone hin
  | reading s snapshot hsvp _ _ _ hkind _ _ => exact ⟨s, [], hsvp, by rw [hkind]; exact Option.some_ne_none _⟩
  | late s t hsvp _ _ hwriters ht _ =>
    exact ⟨s, [], hsvp, by rw [ht, kind_writer hwriters]; exact Option.some_ne_none _⟩
  | writing hw _ =>
    obtain ⟨s, rest, hsvp⟩ := List.exists_cons_of_ne_nil hne
    obtain ⟨t, ts, hwriters, ht⟩ := hw.aligned.top hsvp
    exact ⟨s, rest, hsvp, by rw [ht, kind_writer hwriters]; exact Option.some_ne_none _⟩

/-- Closing all levels closes every nested one. -/
theorem ConnState.closedCount_eq_zero {counted : Prop} {n : ℕ} (h : ConnState counted n w) :
    closedCount (-1) w.p.svp = 0 ↔ w.p.svp.length ≤ 1 := by
  have hshort : w.p.svp.length ≤ 1 → closedCount (-1) w.p.svp = 0 := by
    intro hlen
    rcases hsvp : w.p.svp with _ | ⟨s, _ | ⟨s', rest⟩⟩
    · rfl
    · rfl
    · rw [hsvp] at hlen
      simp at hlen
  refine ⟨fun hcount => ?_, hshort⟩
  cases h with
  | idle hsvp _ _ | lost hsvp _ _ _ _ => simp [hsvp]
  | failed _ hsvp _ _ | reading _ _ hsvp _ _ _ _ _ _ | late _ _ hsvp _ _ _ _ _ => simp [hsvp]
  | writing hw _ =>
    rw [closedCount_all fun s hs heq => absurd (hw.numbered s hs) (by omega)] at hcount
    omega

/-- Steps of a new connection. -/
theorem newConnection_session : NewSession newConnection := by
  refine ⟨newConnection_ready, rfl, rfl, rfl, rfl, fun _ => rfl, ⟨?_, ?_, ?_, ?_⟩⟩
  · exact fun _ ht => absurd ht List.not_mem_nil
  · exact fun _ hr => absurd hr List.not_mem_nil
  · exact fun _ _ hc => absurd hc (Option.some_ne_none _).symm
  · exact fun _ ht => absurd ht List.not_mem_nil

theorem closesSafely_of_open {l : Ledger} {call : CursorCall} (h : ∀ i, call ≠ .close i) : l.ClosesSafely call :=
  fun i heq => absurd heq (h i)

end States

end LumoSql.Btree
