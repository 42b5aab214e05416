import LumoSql.PositionSaving

/-! Which cursors a rollback trips, and what a tripped cursor answers until it is closed. -/
namespace LumoSql.Btree
open StateLogic Lmdb

/-- The uses of a cursor that a rollback should put an end to. -/
inductive CursorUse
  | first | last | next | previous
  | tableMoveto (intKey : ℤ)
  | indexMoveto (idxKey : Bytes → Ordering)
  | insert (pX : Payload) (preformat : Bool)
  | delete

def CursorUse.run (i : ℕ) : CursorUse → Call Rc
  | first => do
    let r ← sqlite3BtreeFirst i
    pure r.1
  | last => do
    let r ← sqlite3BtreeLast i
    pure r.1
  | next => sqlite3BtreeNext i
  | previous => sqlite3BtreePrevious i
  | tableMoveto intKey => do
    let r ← sqlite3BtreeTableMoveto i intKey
    pure r.1
  | indexMoveto idxKey => do
    let r ← sqlite3BtreeIndexMoveto i idxKey
    pure r.1
  | insert pX preformat => sqlite3BtreeInsert i pX preformat
  | delete => sqlite3BtreeDelete i

/-- Whatever the session goes on with, each use of cursor `i` returns `tripCode` until it is closed. -/
def AlwaysReturns (i : ℕ) (tripCode : Rc) (w : World) (l : Ledger) : Prop :=
  ∀ steps w' l', Run sessionStep SessionStep.Allowed (w, l) steps (w', l') →
    (∀ k ∈ steps, k ≠ .cursor (.close i)) →
    ∀ use : CursorUse, Ensures (fun _ => False) (use.run i) (fun rc _ => rc = tripCode) w'

section Tripped

variable {E : Halt → Prop} {w w' : World} {l l' : Ledger} {i : ℕ}

theorem ensures_restoreCursor_tripped (htrip : (w.curs i).tripCode ≠ sqliteOk) (reposition : Bool)
    (Q : Rc → World → Prop) : Ensures E (restoreCursor i reposition) Q w ↔ Q (w.curs i).tripCode w := by
  rw [restoreCursor, ensures_bind, ensures_getCur, if_pos htrip, ensures_pure]

theorem tripped_cursorMove (htrip : (w.curs i).tripCode ≠ sqliteOk) (op : CursorOp) (reposition : Bool) :
    Ensures E (cursorMove i op reposition) (fun r _ => r.1 = (w.curs i).tripCode) w := by
  rw [cursorMove, ensures_bind, ensures_restoreCursor_tripped htrip, if_pos htrip, ensures_pure]

theorem tripped_cursorStep (htrip : (w.curs i).tripCode ≠ sqliteOk) (op : CursorOp) :
    Ensures E (cursorStep i op) (fun rc _ => rc = (w.curs i).tripCode) w := by
  rw [cursorStep, ensures_bind]
  refine (tripped_cursorMove htrip op true).imp fun r w' hr => ?_
  rw [if_pos (by rw [hr]; exact htrip), ensures_pure]
  exact hr

/-- A cursor that has been tripped is not used. -/
theorem CursorUse.tripped (htrip : (w.curs i).tripCode ≠ sqliteOk) (hopened : (w.curs i).pBtree = true)
    (use : CursorUse) : Ensures E (use.run i) (fun rc _ => rc = (w.curs i).tripCode) w := by
  have hrestore := fun reposition => @ensures_restoreCursor_tripped E w i htrip reposition
  cases use with
  | first =>
    rw [run, ensures_bind]
    exact tripped_cursorMove htrip .first false
  | last =>
    rw [run, ensures_bind]
    exact tripped_cursorMove htrip .last false
  | next => exact tripped_cursorStep htrip .next
  | previous => exact tripped_cursorStep htrip .prev
  | tableMoveto intKey =>
    rw [run, ensures_bind, sqlite3BtreeTableMoveto, ensures_bind, hrestore, if_pos htrip]
    exact rfl
  | indexMoveto idxKey =>
    rw [run, ensures_bind, sqlite3BtreeIndexMoveto, ensures_bind, hrestore, if_pos htrip]
    exact rfl
  | insert pX preformat =>
    rw [run, sqlite3BtreeInsert, ensures_bind, ensures_getCur, if_neg (by rw [hopened]; decide), ensures_bind,
      hrestore, if_pos htrip]
    exact rfl
  | delete =>
    rw [run, sqlite3BtreeDelete, ensures_bind, hrestore, if_pos htrip]
    exact rfl

theorem Ledger.record_open {call : CursorCall} (hclose : call ≠ .close i) (hi : i ∈ l.opened) (rc : Rc) : i ∈ (l.record rc call).opened := by
  cases call with
  | zero j => exact hi
  | cursor j iTable wrFlag keyInfo =>
    rw [Ledger.record]
    split_ifs
    · exact List.mem_append_left _ hi
    · exact hi
  | close j =>
    have hij : i ≠ j := by
      rintro rfl
      exact hclose rfl
    exact (List.mem_erase_of_ne hij).mpr hi

/-- What is kept of a tripped cursor. -/
structure StaysTripped (i : ℕ) (tripCode : Rc) (s : World × Ledger) : Prop where
  session : Session s.1 s.2
  opened : i ∈ s.2.opened
  tripped : (s.1.curs i).tripCode = tripCode

theorem StaysTripped.step {tripCode : Rc} (htrip : tripCode ≠ sqliteOk) {s : World × Ledger}
    (h : StaysTripped i tripCode s) {k : SessionStep} (hallowed : k.Allowed s) (hclose : k ≠ .cursor (.close i)) :
    Ensures (fun _ => True) (sessionStep k) (fun _ s' => StaysTripped i tripCode s') s := by
  obtain ⟨hsession, hopened, htripped⟩ := h
  have hkept : ∀ {w' : World} {kept : ℕ → Prop}, kept i → Remembers kept s.1 w' → (w'.curs i).tripCode = tripCode :=
    fun hi hmemory => (hmemory.tripped i hi (by rw [htripped]; exact htrip)).trans htripped
  suffices hcursor : Ensures (fun _ => True) (sessionStep k)
      (fun _ s' => i ∈ s'.2.opened ∧ (s'.1.curs i).tripCode = tripCode) s by
    exact ((hsession.step hallowed).and hcursor).imp fun _ s' hs => ⟨hs.1, hs.2.1, hs.2.2⟩
  cases k with
  | meanwhile answers disk => exact ⟨hopened, htripped⟩
  | cursor call =>
    rw [sessionStep, ensures_ledgerStep]
    have hspares := Ledger.Allows.spares hallowed.1.1 hsession.list hopened
    refine (CursorCall.remembers call s.1).imp fun rc w' hmemory => ⟨?_, hkept hspares hmemory⟩
    exact Ledger.record_open (fun heq => hclose (by rw [heq])) hopened rc
  | txn call =>
    rw [sessionStep, ensures_zoom]
    have hmemory : Keeps (Remembers fun _ => True) call.run := call.built.keeps TxnPart.remembers
    exact (hmemory s.1).imp fun _ w' h => ⟨hopened, hkept trivial h⟩
  | data call =>
    rw [sessionStep, ensures_bind, ensures_zoom]
    have hmemory : Keeps (Remembers fun _ => True) call.run :=
      ((DataCall.built_of_moves hallowed.1 hallowed.2).trans UsePart.built).keeps MovePart.remembers
    exact (hmemory s.1).imp fun _ w' h => ⟨hopened, hkept trivial h⟩

/-- A cursor that has been tripped always returns its code. -/
theorem Session.alwaysReturns (h : Session w l) (hi : i ∈ l.opened) (htrip : (w.curs i).tripCode ≠ sqliteOk) :
    AlwaysReturns i (w.curs i).tripCode w l := by
  intro steps w' l' hrun hclose use
  have hstays : StaysTripped i (w.curs i).tripCode (w', l') := by
    refine (hrun.of_mem hclose).invariant (fun k s hs hk => hs.step htrip hk.1 hk.2) ⟨h, hi, rfl⟩
  have hopened : (w'.curs i).pBtree = true :=
    hstays.session.list.owned i (.inl ((hstays.session.list.listed i).mp hstays.opened))
  have hcode := hstays.tripped
  dsimp only at hcode
  have hreturns := use.tripped (E := fun _ => False) (by rw [hcode]; exact htrip) hopened
  rwa [hcode] at hreturns

end Tripped

section Untripped

variable {E : Halt → Prop} {w w' : World} {l : Ledger} {i : ℕ} {tripCode code : Rc}

theorem exists_otherCode (tripCode : Rc) : ∃ code, code ≠ 0 ∧ code ≠ mdbNotfound ∧ errorMap code ≠ tripCode := by
  by_cases hcode : tripCode = errorMap eacces
  · refine ⟨eio, by decide, by decide, ?_⟩
    rw [hcode]
    decide
  · exact ⟨eacces, by decide, by decide, fun h => hcode h.symm⟩

theorem getTable_fails (hne : w.p.svp ≠ []) (htop : TopSeen w) {n : ℕ} (hn : 0 < n)
    (hcode : (w.env.answers .dbiOpen).headD 0 = code) (hfail : code ≠ 0) :
    Ensures (fun _ => True) (getTable n false) (fun rc _ => rc = code) w := by
  obtain ⟨s, rest, hsvp⟩ := List.exists_cons_of_ne_nil hne
  cases hkind : w.env.kind s.txn with
  | none =>
    rw [getTable, ensures_bind, ensures_getP, if_neg (by omega), hsvp]
    dsimp only
    rw [ensures_lmdb, mdbDbiOpen, ensures_bind, withView, ensures_bind, ensures_read]
    simp only [id_eq, hkind, ensures_halt]
  | some k =>
    obtain ⟨c, hview⟩ := htop s rest hsvp (by rw [hkind]; exact Option.some_ne_none k)
    rw [ensures_getTable hsvp hkind hview, if_neg (by omega), hcode, if_pos hfail]

/-- The error is seen by the call that goes back to a saved position. -/
theorem restoreCursor_fails (htrip : (w.curs i).tripCode = sqliteOk) (hsaved : (w.curs i).savedKey ≠ none)
    (hne : w.p.svp ≠ []) (htop : TopSeen w) (hroot : 0 < (w.curs i).rootPage)
    (hcode : (w.env.answers .dbiOpen).headD 0 = code) (hfail : code ≠ 0) (reposition : Bool) :
    Ensures (fun _ => True) (restoreCursor i reposition) (fun rc _ => rc = errorMap code) w := by
  obtain ⟨key, hkey⟩ := Option.ne_none_iff_exists'.mp hsaved
  have hreopen : ∀ w₁ : World, w₁.p = w.p → w₁.env.writers = w.env.writers → w₁.env.readers = w.env.readers →
      w₁.env.answers = w.env.answers →
      Ensures (fun _ => True) (if !(w.curs i).pBtree then Prog.halt .nullPointer
        else reopenCursor i (w.curs i) key reposition) (fun rc _ => rc = errorMap code) w₁ := by
    intro w₁ hp hwriters hreaders hanswers
    refine .ite (fun _ => trivial) fun _ => ?_
    have htop₁ : TopSeen w₁ := by
      intro s rest hsvp hkind
      rw [kind_congr hwriters hreaders] at hkind
      rw [view_congr hwriters hreaders]
      exact htop s rest (hp ▸ hsvp) hkind
    rw [reopenCursor, ensures_bind]
    refine (getTable_fails (hp ▸ hne) htop₁ hroot (hanswers ▸ hcode) hfail).imp ?_
    rintro _ _ rfl
    rw [if_pos hfail, ensures_pure]
  rw [restoreCursor, ensures_bind, ensures_getCur, if_neg (not_not.mpr htrip), hkey]
  dsimp only
  refine .ite (fun hsome => ?_) fun _ => ?_
  · obtain ⟨h, hh⟩ := Option.isSome_iff_exists.mp hsome
    rw [ensures_bind, ensures_lmdb, hh, mdbCursorClose, ensures_bind, ensures_read]
    cases hc : w.env.cursors h with
    | none => simp only [id_eq, hc, ensures_halt]
    | some c =>
      simp only [id_eq, hc, ensures_modify]
      rw [ensures_bind, ensures_setCur]
      exact hreopen _ rfl rfl rfl rfl
  · rw [ensures_bind, ensures_setCur]
    exact hreopen _ rfl rfl rfl rfl

theorem first_restore_fails (hrestore : Ensures (fun _ => True) (restoreCursor i false)
    (fun rc _ => rc = errorMap code) w) (hfail : code ≠ 0) :
    Ensures (fun _ => True) (CursorUse.first.run i) (fun rc _ => rc = errorMap code) w := by
  rw [CursorUse.run, ensures_bind, sqlite3BtreeFirst, cursorMove, ensures_bind]
  apply hrestore.imp
  rintro _ _ rfl
  rw [if_pos fun h => hfail ((errorMap_eq_ok code).mp h), ensures_pure, ensures_pure]

/-- The error is seen by the first move. -/
theorem first_get_fails (htrip : (w.curs i).tripCode = sqliteOk) (hsaved : (w.curs i).savedKey = none)
    (hcursor : (w.curs i).cursor.isSome = true) (hcode : (w.env.answers .cursorGet).headD 0 = code)
    (hfail : code ≠ 0) (hother : code ≠ mdbNotfound) :
    Ensures (fun _ => True) (CursorUse.first.run i) (fun rc _ => rc = errorMap code) w := by
  obtain ⟨h, hh⟩ := Option.isSome_iff_exists.mp hcursor
  rw [CursorUse.run, ensures_bind, sqlite3BtreeFirst, cursorMove, ensures_bind, restoreCursor, ensures_bind,
    ensures_getCur, if_neg (not_not.mpr htrip), hsaved]
  dsimp only
  rw [ensures_pure, if_neg (not_not.mpr rfl), ensures_bind, ensures_getCur, ensures_bind, ensures_lmdb, hh,
    mdbCursorGet, ensures_bind, ensures_read]
  cases hc : w.env.cursors h with
  | none => simp only [id_eq, hc, ensures_halt]
  | some c =>
    cases hv : w.env.cursorView c with
    | none => simp only [id_eq, hc, hv, ensures_halt]
    | some v =>
      simp only [id_eq, hc, hv]
      rw [ensures_bind, ensures_answer, hcode, if_pos hfail, ensures_pure, if_neg hfail, if_pos hother, ensures_pure,
        ensures_pure]

/-- Without LMDB cursor a cursor does not delete. -/
theorem delete_fails (htrip : (w.curs i).tripCode = sqliteOk) (hsaved : (w.curs i).savedKey = none)
    (hcursor : (w.curs i).cursor = none) (Q : Rc → World → Prop) :
    Ensures (fun _ => True) (CursorUse.delete.run i) Q w := by
  rw [CursorUse.run, sqlite3BtreeDelete, ensures_bind, restoreCursor, ensures_bind, ensures_getCur,
    if_neg (not_not.mpr htrip), hsaved]
  dsimp only
  rw [ensures_pure, if_neg (not_not.mpr rfl), ensures_bind, ensures_getCur, ensures_bind, hcursor, ensures_lmdb]
  exact trivial

/-- A run after which one use does not return the code. -/
theorem AlwaysReturns.absurd {steps : List SessionStep} {l' : Ledger} (h : AlwaysReturns i tripCode w l)
    (hrun : Run sessionStep SessionStep.Allowed (w, l) steps (w', l'))
    (hclose : ∀ k ∈ steps, k ≠ .cursor (.close i)) (use : CursorUse)
    (hother : Ensures (fun _ => True) (use.run i) (fun rc _ => rc ≠ tripCode) w') : False := by
  obtain ⟨_, _, -, hrc, hne⟩ := ((h steps w' l' hrun hclose use).with hother).result
  exact hne hrc

theorem AlwaysReturns.after {l' : Ledger} (h : AlwaysReturns i tripCode w l) (steps : List SessionStep)
    (hrun : Run sessionStep SessionStep.Allowed (w, l) steps (w', l'))
    (hclose : ∀ k ∈ steps, k ≠ .cursor (.close i)) : AlwaysReturns i tripCode w' l' := by
  intro rest w'' l'' hrest hrest' use
  refine h (steps ++ rest) w'' l'' (hrun.append hrest) (fun k hk => ?_) use
  rcases List.mem_append.mp hk with hk | hk
  · exact hclose k hk
  · exact hrest' k hk

/-- The session goes on with other codes of LMDB and with the lock of the disk held or not. -/
theorem Session.goesOn (h : Session w l) (answers : Answers) (locked : Bool) :
    Session (w.meanwhile answers { w.env.disk with locked := locked }) l ∧
      (AlwaysReturns i tripCode w l →
        AlwaysReturns i tripCode (w.meanwhile answers { w.env.disk with locked := locked }) l) := by
  obtain ⟨n, hconn⟩ := h.connection
  refine ⟨h.meanwhile answers hconn.metadata, fun halways => ?_⟩
  refine halways.after [.meanwhile answers { w.env.disk with locked := locked }]
    (.cons hconn.metadata rfl (.nil _)) fun k hk heq => ?_
  rw [List.mem_singleton.mp hk] at heq
  cases heq

/-- When nothing fails, a transaction begins, and the cursors are left alone. -/
theorem beginTrans_calm (hsvp : w.p.svp = []) (hin : w.p.inTrans = .none) (hwriters : w.env.writers = [])
    (hopened : w.env.readonly = w.p.readonly) (hcalm : w.env.Calm) (hunlocked : w.env.disk.locked = false)
    (hdata : (w.env.disk.contents .metadata).isSome = true) :
    Ensures (fun _ => False) (TxnCall.beginTrans false false).run (fun _ w' => w'.curs = w.curs ∧ w'.p.svp ≠ []) w := by
  have hblocked : w.env.disk.locked = true → False := fun h => Bool.false_ne_true (hunlocked.symm.trans h)
  have hnew := beginNew_spec (E := fun _ => False) hblocked hsvp hwriters hopened false fun h => Bool.false_ne_true h.1
  rw [TxnCall.run, ensures_bind, sqlite3BtreeBeginTrans, ensures_bind, ensures_getP, hin, if_neg (by decide),
    if_neg (fun h => Bool.false_ne_true h.1), if_neg (fun h => h.1 rfl), if_neg (not_not.mpr rfl), ensures_bind]
  refine (hnew.keep (quiet_beginNew false)).imp fun rc w' hres => ?_
  obtain ⟨⟨-, -, -, hres⟩, hquiet⟩ := hres
  rcases hres with ⟨-, -, -, -, hcause⟩ | ⟨hok, hbegan⟩
  · rcases hcause with hcode | hcode | hcode | hnone
    · exact absurd (hcalm.head .malloc) hcode
    · exact absurd (hcalm.head .txnBegin) hcode
    · exact absurd (hcalm.head .dbiOpen) hcode
    · rw [hdata] at hnone
      cases hnone
  · dsimp only
    rw [if_neg (not_not.mpr hok), beginGetVersion, if_neg Bool.false_ne_true, ensures_pure]
    refine ⟨hquiet.1, ?_⟩
    cases hbegan with
    | reader _ _ _ hp _ _ _ => simp [hp, begun]
    | writer _ _ _ hp _ _ _ => simp [hp, begun]

/-- A cursor with a saved position returns what the table is opened with. -/
theorem Session.saved_opens (h : Session w l) (hi : i ∈ l.opened) (htrip : (w.curs i).tripCode = sqliteOk)
    (hsaved : (w.curs i).savedKey ≠ none) (hne : w.p.svp ≠ []) : ¬ AlwaysReturns i tripCode w l := by
  intro halways
  obtain ⟨code, hfail, -, hother⟩ := exists_otherCode tripCode
  obtain ⟨hsession, hafter⟩ := h.goesOn (fun f => if f = .dbiOpen then [code] else []) w.env.disk.locked
  obtain ⟨n, hconn⟩ := hsession.connection
  have hrestore := restoreCursor_fails (w := w.meanwhile _ _) htrip hsaved hne hconn.state.topSeen
    (h.rooted i hi) rfl hfail false
  refine (hafter halways).absurd (.nil _) (fun k hk => absurd hk List.not_mem_nil) .first ?_
  apply (first_restore_fails hrestore hfail).imp
  rintro _ _ rfl
  exact hother

/-- A cursor with an LMDB cursor returns what LMDB returns. -/
theorem Session.live_moves (h : Session w l) (htrip : (w.curs i).tripCode = sqliteOk)
    (hsaved : (w.curs i).savedKey = none) (hcursor : (w.curs i).cursor.isSome = true) :
    ¬ AlwaysReturns i tripCode w l := by
  intro halways
  obtain ⟨code, hfail, hmoves, hother⟩ := exists_otherCode tripCode
  obtain ⟨-, hafter⟩ := h.goesOn (fun f => if f = .cursorGet then [code] else []) w.env.disk.locked
  have hfirst : Ensures (fun _ => True) (CursorUse.first.run i) (fun rc _ => rc = errorMap code)
      (w.meanwhile (fun f => if f = .cursorGet then [code] else []) { w.env.disk with locked := w.env.disk.locked }) :=
    first_get_fails htrip hsaved hcursor rfl hfail hmoves
  refine (hafter halways).absurd (.nil _) (fun k hk => absurd hk List.not_mem_nil) .first ?_
  apply hfirst.imp
  rintro _ _ rfl
  exact hother

/-- Without a transaction one begins first. -/
theorem Session.saved_begins (h : Session w l) (hi : i ∈ l.opened) (htrip : (w.curs i).tripCode = sqliteOk)
    (hsaved : (w.curs i).savedKey ≠ none) (hin : w.p.inTrans = .none) : ¬ AlwaysReturns i tripCode w l := by
  intro halways
  by_cases hsvp : w.p.svp = []
  · obtain ⟨hsession, hafter⟩ := h.goesOn (fun _ => []) false
    obtain ⟨n, hconn⟩ := h.connection
    have hwriters : w.env.writers = [] := by
      cases hconn.state with
      | idle _ _ hwriters | failed _ _ _ hwriters | lost _ _ _ _ hwriters => exact hwriters
      | reading _ _ _ hread _ _ _ _ _ => exact absurd (hin.symm.trans hread) (by decide)
      | late _ _ _ hread _ _ _ _ => exact absurd (hin.symm.trans hread) (by decide)
      | writing hw _ => exact absurd hin hw.open
    have hdisk : (w.meanwhile (fun _ => []) { w.env.disk with locked := false }).env.disk =
        { w.env.disk with locked := false } := by
      rw [World.meanwhile, hwriters]
      rfl
    have hbegin := beginTrans_calm (w := w.meanwhile _ _) hsvp hin hwriters hconn.opened (fun _ => rfl)
      (by rw [hdisk]) (by rw [hdisk]; exact hconn.metadata.isSome)
    obtain ⟨rc, w', hrun, hcurs, hne⟩ := hbegin.result
    have hstep : sessionStep (.txn (.beginTrans false false)) (w.meanwhile (fun _ => [])
        { w.env.disk with locked := false }, l) = .ok (rc, (w', l)) := by
      rw [sessionStep, Prog.zoom, hrun]
    have hsession' : Session w' l := (hsession.txn (.beginTrans false false) trivial).of_ok hrun
    have hcur : w'.curs i = w.curs i := by
      rw [hcurs]
      rfl
    have halways' : AlwaysReturns i tripCode w' l := by
      refine (hafter halways).after [.txn (.beginTrans false false)] (.cons trivial hstep (.nil _)) fun k hk heq => ?_
      rw [List.mem_singleton.mp hk] at heq
      cases heq
    exact hsession'.saved_opens hi (by rw [hcur]; exact htrip) (by rw [hcur]; exact hsaved) hne halways'
  · exact h.saved_opens hi htrip hsaved hsvp halways

/-- A cursor always returns the code exactly if it has been tripped with it. -/
theorem Session.alwaysReturns_iff (h : Session w l) (hi : i ∈ l.opened) (hin : w.p.inTrans = .none)
    (hcode : tripCode ≠ sqliteOk) : AlwaysReturns i tripCode w l ↔ (w.curs i).tripCode = tripCode := by
  constructor
  · intro halways
    by_cases htrip : (w.curs i).tripCode = sqliteOk
    · by_cases hsaved : (w.curs i).savedKey = none
      · cases hcursor : (w.curs i).cursor with
        | none =>
          exact (halways.absurd (.nil _) (fun k hk => absurd hk List.not_mem_nil) .delete
            (delete_fails htrip hsaved hcursor _)).elim
        | some h' => exact absurd halways (h.live_moves htrip hsaved (by rw [hcursor]; rfl))
      · exact absurd halways (h.saved_begins hi htrip hsaved hin)
    · have hboth := ((halways [] w l (.nil _) (fun k hk => absurd hk List.not_mem_nil) .first).with
        (h.alwaysReturns hi htrip [] w l (.nil _) (fun k hk => absurd hk List.not_mem_nil) .first)).result
      obtain ⟨rc, -, -, hrc, hrc'⟩ := hboth
      exact hrc'.symm.trans hrc
  · rintro rfl
    exact h.alwaysReturns hi hcode

end Untripped

/-- The cursors that a rollback with these arguments should trip. -/
def ShouldTrip (writeOnly : Bool) (d : BtCursor) : Prop := writeOnly = false ∨ d.wrFlag = true

/-- The rollback returns, and from then on exactly the cursors that it should trip always return the code. -/
def TripsExactly (tripCode : Rc) (writeOnly : Bool) (w : World) (l : Ledger) : Prop :=
  Ensures (fun _ => False) (sqlite3BtreeRollback tripCode writeOnly)
    (fun _ w' => ∀ i ∈ l.opened, AlwaysReturns i tripCode w' l ↔ ShouldTrip writeOnly (w.curs i)) w

/-- What the rollback does not look at: an open transaction has not been lost, cursors to trip are live in it
or have the code already, and there is no savepoint when cursors are to be spared. -/
structure Trippable (tripCode : Rc) (writeOnly : Bool) (w : World) (l : Ledger) : Prop where
  opened : w.p.inTrans ≠ .none → w.p.svp ≠ []
  trips : ∀ i ∈ l.opened, ShouldTrip writeOnly (w.curs i) →
    w.p.inTrans ≠ .none ∧ (w.curs i).Due ∨ (w.curs i).tripCode = tripCode
  spares : ∀ i ∈ l.opened, ¬ ShouldTrip writeOnly (w.curs i) →
    (w.curs i).tripCode ≠ tripCode ∧ (w.p.inTrans ≠ .none → (w.curs i).Due → w.p.svp.length ≤ 1)

section Rollback

variable {E : Halt → Prop} {w w' : World} {l : Ledger} {tripCode : Rc} {writeOnly : Bool}

theorem BtCursor.tripped_tripCode (d : BtCursor) : (d.tripped tripCode writeOnly).tripCode = tripCode ↔
    d.Due ∧ (d.wrFlag = true ∨ writeOnly = false) ∨ d.tripCode = tripCode := by
  rw [tripped]
  split_ifs with h
  · exact iff_of_true rfl (.inl h)
  · simp [h]

/-- The end of the rollback. -/
theorem rollback_end {s : BtreeSavepoint} {rest : List BtreeSavepoint} (hsvp : w.p.svp = s :: rest)
    (hkind : w.env.kind s.txn ≠ none) : Ensures (fun _ => False) (do
      let txn ← topTxn
      lmdb (mdbTxnAbort txn)
      setP fun p => { p with svp := [], inTrans := .none }
      pure sqliteOk) (fun _ w' => w'.curs = w.curs ∧ w'.p.inTrans = .none) w := by
  rw [ensures_bind, ensures_topTxn hsvp, ensures_bind, ensures_lmdb, mdbTxnAbort, ensures_bind, ensures_read]
  cases hk : w.env.kind s.txn with
  | none => exact absurd hk hkind
  | some k =>
    cases k with
    | readOnly =>
      simp only [id_eq, hk, ensures_modify]
      exact ⟨rfl, rfl⟩
    | readWrite =>
      simp only [id_eq, hk, ensures_modify]
      exact ⟨rfl, rfl⟩

/-- What the rollback makes of the cursors. -/
theorem rollback_trips (h : Session w l) (htrip : tripCode ≠ sqliteOk) (hin : w.p.inTrans ≠ .none)
    (hne : w.p.svp ≠ []) (writeOnly : Bool) :
    Ensures (fun _ => False) (sqlite3BtreeRollback tripCode writeOnly) (fun _ w' => w'.p.inTrans = .none ∧
      w'.curs = (w.tripped l.opened tripCode (writeOnly && decide (w.p.svp.length ≤ 1))).curs) w := by
  obtain ⟨n, hconn⟩ := h.connection
  rw [sqlite3BtreeRollback, ensures_bind, ensures_getP, if_neg hin, ensures_bind]
  by_cases hcount : closedCount (-1) w.p.svp = 0
  · have hshort := hconn.state.closedCount_eq_zero.mp hcount
    obtain ⟨s, rest, hsvp, hkind⟩ := hconn.state.topAlive hin hne
    obtain rfl : rest = [] := by
      rw [hsvp, List.length_cons] at hshort
      exact List.eq_nil_of_length_eq_zero (by omega)
    rw [closeAllSavepoints, ensures_bind, ensures_getP, hsvp]
    refine (ensures_pure _).mpr ?_
    rw [ensures_bind]
    apply (invalidateCursors_trips htrip h.listed).imp
    rintro _ _ ⟨-, rfl⟩
    refine (rollback_end (w := w.tripped l.opened tripCode writeOnly) hsvp hkind).imp fun _ w' hend => ⟨hend.2, ?_⟩
    rw [hend.1, List.length_singleton, decide_eq_true (le_refl 1), Bool.and_true]
  · obtain ⟨hal, -⟩ := hconn.state.aligned hcount
    have hlong : ¬ w.p.svp.length ≤ 1 := fun hle => hcount (hconn.state.closedCount_eq_zero.mpr hle)
    have hlt := closedCount_lt (-1) w.p.svp hne
    refine (closeAllSavepoints_trips htrip hal hcount h.listed).imp fun rc w₁ hclosed => ?_
    have hrest : Resting w₁ := by
      refine ⟨l.opened, (h.listed.tripped tripCode false).congr (fun i => ?_) ?_ hclosed.count, fun i hi => ?_⟩
      · rw [World.links, World.links, hclosed.curs]
      · rw [hclosed.handle]
        rfl
      · rw [hclosed.curs]
        simp only [World.tripped, if_pos hi]
        exact BtCursor.tripped_not_due htrip _
    rw [ensures_bind, hrest.ensures_invalidateCursors]
    have hal₁ : Aligned w₁ :=
      have hal₁ := hclosed.levels.aligned (w := (w.tripped l.opened tripCode false).withList none) ⟨hal.ids, hal.locked⟩ hlt
      ⟨hal₁.ids, hal₁.locked⟩
    have hsvp : w₁.p.svp = w.p.svp.drop (closedCount (-1) w.p.svp) := hclosed.levels.svp
    obtain ⟨s, rest, hs⟩ := List.exists_cons_of_ne_nil (l := w₁.p.svp) (by
      rw [hsvp]
      exact fun hnil => absurd (List.drop_eq_nil_iff.mp hnil) (by omega))
    obtain ⟨t, ts, hwriters, ht⟩ := hal₁.top hs
    have hkind : w₁.env.kind s.txn ≠ none := by
      rw [ht, kind_writer hwriters]
      exact Option.some_ne_none _
    refine (rollback_end hs hkind).imp fun _ w' hend => ⟨hend.2, ?_⟩
    rw [hend.1, hclosed.curs, decide_eq_false hlong, Bool.and_false]

/-- Which cursors have the code after the rollback. -/
theorem rollback_codes (h : Session w l) (htrip : tripCode ≠ sqliteOk) (hopened : w.p.inTrans ≠ .none → w.p.svp ≠ [])
    (writeOnly : Bool) : Ensures (fun _ => False) (sqlite3BtreeRollback tripCode writeOnly) (fun _ w' =>
      w'.p.inTrans = .none ∧ ∀ i ∈ l.opened, (w'.curs i).tripCode = tripCode ↔
        (w.p.inTrans ≠ .none ∧ (w.curs i).Due ∧ (ShouldTrip writeOnly (w.curs i) ∨ 1 < w.p.svp.length)) ∨
          (w.curs i).tripCode = tripCode) w := by
  by_cases hin : w.p.inTrans = .none
  · rw [sqlite3BtreeRollback, ensures_bind, ensures_getP, if_pos hin, ensures_pure]
    exact ⟨hin, fun i hi => by simp [hin]⟩
  · refine (rollback_trips h htrip hin (hopened hin) writeOnly).imp fun _ w' hres => ⟨hres.1, fun i hi => ?_⟩
    have hflag : ((w.curs i).wrFlag = true ∨ (writeOnly && decide (w.p.svp.length ≤ 1)) = false) ↔
        ShouldTrip writeOnly (w.curs i) ∨ 1 < w.p.svp.length := by
      rw [Bool.and_eq_false_iff, decide_eq_false_iff_not, not_le, ShouldTrip]
      tauto
    rw [hres.2]
    simp only [World.tripped, if_pos hi]
    rw [BtCursor.tripped_tripCode, hflag]
    simp [hin]

/-- An open transaction that has been lost cannot be rolled back. -/
theorem rollback_lost (hl : Listed w l.opened) (htrip : tripCode ≠ sqliteOk) (hin : w.p.inTrans ≠ .none)
    (hsvp : w.p.svp = []) (writeOnly : Bool) (Q : Rc → World → Prop) :
    ¬ Ensures (fun _ => False) (sqlite3BtreeRollback tripCode writeOnly) Q w := by
  rw [sqlite3BtreeRollback, ensures_bind, ensures_getP, if_neg hin, ensures_bind, closeAllSavepoints, ensures_bind,
    ensures_getP, hsvp]
  intro h
  have h := (ensures_pure _).mp h
  rw [ensures_bind] at h
  obtain ⟨_, w', -, hend, -, rfl⟩ := (h.with (invalidateCursors_trips (E := fun _ => True) htrip hl)).result
  rw [ensures_bind, topTxn, ensures_bind, ensures_getP] at hend
  simp only [World.tripped, hsvp, ensures_halt] at hend

theorem Session.tripsExactly_iff (h : Session w l) (htrip : tripCode ≠ sqliteOk) :
    TripsExactly tripCode writeOnly w l ↔ Trippable tripCode writeOnly w l := by
  by_cases hopened : w.p.inTrans ≠ .none → w.p.svp ≠ []
  · have hspec := (rollback_codes h htrip hopened writeOnly).with (h.txn (.rollback tripCode writeOnly) trivial)
    obtain ⟨rc, w', hrun, ⟨hin', hcodes⟩, h'⟩ := hspec.result
    have hreturns : TripsExactly tripCode writeOnly w l ↔ ∀ i ∈ l.opened,
        ((w.p.inTrans ≠ .none ∧ (w.curs i).Due ∧ (ShouldTrip writeOnly (w.curs i) ∨ 1 < w.p.svp.length)) ∨
          (w.curs i).tripCode = tripCode ↔ ShouldTrip writeOnly (w.curs i)) := by
      rw [TripsExactly, Ensures, hrun]
      refine forall₂_congr fun i hi => ?_
      rw [h'.alwaysReturns_iff hi hin' htrip, hcodes i hi]
    rw [hreturns]
    constructor
    · intro hall
      refine ⟨hopened, fun i hi hshould => ?_, fun i hi hspared => ?_⟩
      · rcases (hall i hi).mpr hshould with ⟨hin, hdue, -⟩ | hcode
        · exact .inl ⟨hin, hdue⟩
        · exact .inr hcode
      · refine ⟨fun hcode => hspared ((hall i hi).mp (.inr hcode)), fun hin hdue => ?_⟩
        by_contra hlong
        exact hspared ((hall i hi).mp (.inl ⟨hin, hdue, .inr (by omega)⟩))
    · rintro ⟨-, htrips, hspares⟩ i hi
      constructor
      · intro hcode
        by_contra hspared
        obtain ⟨hother, hshort⟩ := hspares i hi hspared
        rcases hcode with ⟨hin, hdue, hshould | hlong⟩ | hcode
        · exact hspared hshould
        · exact absurd (hshort hin hdue) (by omega)
        · exact hother hcode
      · intro hshould
        rcases htrips i hi hshould with ⟨hin, hdue⟩ | hcode
        · exact .inl ⟨hin, hdue, .inl hshould⟩
        · exact .inr hcode
  · refine iff_of_false ?_ fun htrippable => hopened htrippable.opened
    push Not at hopened
    exact rollback_lost h.listed htrip hopened.1 hopened.2 writeOnly _

end Rollback

section Missed

variable {w : World} {l : List ℕ} {k : ℤ}

end Missed

/-- A cursor for reading is tripped with those for writing when there is a savepoint. -/
theorem rollback_trips_reader : ∃ w l, Reachable w l ∧ 0 ∈ l.opened ∧ (w.curs 0).wrFlag = false ∧
    (w.curs 0).tripCode = sqliteOk ∧ ¬ TripsExactly sqliteAbort true w l := by
  obtain ⟨w, l, hrun, hmem, hflag, hin, hdue, hlong⟩ : ∃ w l, Run sessionStep SessionStep.Allowed
      (newConnection, .empty) [.txn (.beginTrans true false), .cursor (.zero 0), .cursor (.cursor 0 1 false none),
        .txn (.beginStmt 1)] (w, l) ∧ 0 ∈ l.opened ∧ (w.curs 0).wrFlag = false ∧ w.p.inTrans ≠ .none ∧
      (w.curs 0).Due ∧ w.p.svp.length = 2 := by
    refine ⟨_, _, .cons trivial rfl (.cons ⟨⟨.inl rfl, closesSafely_of_open (by simp)⟩, rfl⟩ rfl
      (.cons ⟨⟨rfl, closesSafely_of_open (by simp)⟩, rfl⟩ rfl (.cons rfl rfl (.nil _)))), ?_, rfl, ?_, ⟨rfl, rfl⟩, rfl⟩
    · exact List.mem_singleton_self 0
    · decide
  have hreach : Reachable w l := ⟨_, _, newConnection_session, hrun⟩
  refine ⟨w, l, hreach, hmem, hflag, hdue.1, fun hexactly => ?_⟩
  have hspared : ¬ ShouldTrip true (w.curs 0) := by
    rw [ShouldTrip, hflag]
    decide
  have hshort := (((hreach.session.tripsExactly_iff (by decide)).mp hexactly).spares 0 hmem hspared).2 hin hdue
  omega

end LumoSql.Btree
