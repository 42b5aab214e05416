import LumoSql.HandleSafety

/-! Runs of calls on one connection in which no handle of LMDB is used that has been ended. -/
namespace LumoSql.Btree
open StateLogic Lmdb RowidEncoding

/-- The cursors that are found by following the links. -/
def follow (next : ℕ → Option ℕ) : ℕ → Option ℕ → List ℕ
  | _, none => []
  | 0, some _ => []
  | fuel + 1, some i => i :: follow next fuel (next i)

/-- The cursors that invalidation comes to. -/
def World.visited (w : World) : List ℕ := follow w.links w.nCurs w.p.firstCursor

/-- Positions can be saved: no cursor that is due has kept an LMDB cursor that has been ended. -/
def PositionsLive (w : World) : Prop := ∀ i ∈ w.visited, (w.curs i).Due → ¬ Dangling w i

/-- Invalidation has nothing to do. -/
def AtRest (w : World) : Prop := ∀ i ∈ w.visited, ¬ (w.curs i).Due

section Invalidation

variable {w w' : World} {i : ℕ} {o : Option ℕ} {tripCode rc : Rc} {writeOnly : Bool}

theorem AtRest.positionsLive (h : AtRest w) : PositionsLive w := fun i hi hdue => absurd hdue (h i hi)

/-- A cursor that has not kept an LMDB cursor that has been ended is saved or lost, or its transaction has ended. -/
theorem invalidateCursor_live (hi : (w.curs i).Due → ¬ Dangling w i) (writeOnly : Bool) (rc : Rc) :
    Ensures (fun h => h ≠ .deadHandle) (invalidateCursor sqliteOk writeOnly i rc) (fun _ w' => ¬ (w'.curs i).Due ∧
      LinksKept w w' ∧ (∀ j, j ≠ i → w'.curs j = w.curs j) ∧
      ∀ h, (w.curs i).cursor ≠ some h → w'.env.cursors h = w.env.cursors h) w := by
  by_cases hdue : (w.curs i).Due
  · obtain ⟨h, hh⟩ := Option.isSome_iff_exists.mp hdue.2
    obtain ⟨c, hc⟩ := Option.ne_none_iff_exists'.mp (not_dangling (hi hdue) h hh)
    cases hview : w.env.cursorView c with
    | none =>
      have hdue' : (w.curs i).tripCode = sqliteOk ∧ (w.curs i).cursor.isSome = true := hdue
      rw [invalidateCursor, ensures_bind, ensures_getCur, if_pos hdue', if_pos rfl, ensures_bind, hh, ensures_lmdb,
        mdbCursorGet, ensures_bind, ensures_read]
      simp only [id_eq, hc, hview, ensures_halt]
      decide
    | some v =>
      have hreads : Reads w i h c ((v c.db).getD []) := ⟨hh, hc, v, hview, rfl⟩
      refine (invalidateCursor_saves hdue hreads writeOnly rc).imp fun rc' w' hs => ?_
      refine ⟨?_, hs.links, hs.others, fun n hn => hs.handles n fun heq => hn (heq ▸ hh)⟩
      rcases hs.outcome with ⟨-, key, -, hsaved⟩ | ⟨htrip, -, -⟩
      · rw [hsaved]
        exact BtCursor.saved_not_due
      · exact fun hd => htrip hd.1
  · refine (invalidateCursor_skips hdue sqliteOk writeOnly rc).imp ?_
    rintro _ _ ⟨rfl, rfl⟩
    exact ⟨hdue, Frame.refl _, fun _ _ => rfl, fun _ _ => rfl⟩

theorem invalidateLoop_live {fuel : ℕ} (hw : Handles w)
    (hlive : ∀ i ∈ follow w.links fuel o, (w.curs i).Due → ¬ Dangling w i) (writeOnly : Bool) (rc : Rc) :
    Ensures (fun h => h ≠ .deadHandle) (invalidateLoop sqliteOk writeOnly fuel o rc) (fun _ w' =>
      (∀ j, ¬ (w.curs j).Due → ¬ (w'.curs j).Due) ∧ ∀ j ∈ follow w.links fuel o, ¬ (w'.curs j).Due) w := by
  induction fuel generalizing o rc w with
  | zero =>
    cases o with
    | none => exact ⟨fun _ => id, fun _ hj => absurd hj List.not_mem_nil⟩
    | some i => exact (by decide : Halt.diverges ≠ .deadHandle)
  | succ fuel ih =>
    cases o with
    | none => exact ⟨fun _ => id, fun _ hj => absurd hj List.not_mem_nil⟩
    | some i =>
      rw [invalidateLoop, ensures_bind, ensures_getCur, ensures_bind]
      have hhandles : Keeps HandlesKept (invalidateCursor sqliteOk writeOnly i rc) :=
        (built_invalidateCursor sqliteOk writeOnly i rc).keeps InvalidationPart.handles
      have hi := invalidateCursor_live (hlive i List.mem_cons_self) writeOnly rc
      refine (hi.with (hhandles w)).imp fun rc₁ w₁ h₁ => ?_
      obtain ⟨⟨hrest, hlinks, hothers, hkept⟩, hhandles⟩ := h₁
      have hdue : ∀ j, (w₁.curs j).Due → j ≠ i ∧ (w.curs j).Due := by
        intro j hj
        have hji : j ≠ i := by
          rintro rfl
          exact hrest hj
        rw [hothers j hji] at hj
        exact ⟨hji, hj⟩
      have hlive₁ : ∀ j ∈ follow w₁.links fuel (w.links i), (w₁.curs j).Due → ¬ Dangling w₁ j := by
        rintro j hj hdue₁ ⟨h, hh, hended⟩
        obtain ⟨hji, hdue₀⟩ := hdue j hdue₁
        rw [hothers j hji] at hh
        rw [hkept h fun hsame => hji (hw.apart j i h hh hsame)] at hended
        rw [links_of_linksKept hlinks] at hj
        exact hlive j (List.mem_cons_of_mem i hj) hdue₀ ⟨h, hh, hended⟩
      refine (ih (hhandles.handles hw) hlive₁ rc₁).imp fun _ w' h' => ?_
      obtain ⟨hstays, hdone⟩ := h'
      rw [links_of_linksKept hlinks] at hdone
      refine ⟨fun j hj => hstays j fun hd => hj (hdue j hd).2, fun j hj => ?_⟩
      rcases List.mem_cons.mp hj with rfl | hj
      · exact hstays j hrest
      · exact hdone j hj

/-- Cursors are tripped without a call of LMDB. -/
theorem invalidateLoop_trips_live (htrip : tripCode ≠ sqliteOk) (writeOnly : Bool) (fuel : ℕ) (o : Option ℕ) (rc : Rc) (w : World) :
    UsesLive (invalidateLoop tripCode writeOnly fuel o rc) w := by
  induction fuel generalizing o rc w with
  | zero =>
    cases o with
    | none => trivial
    | some i => exact (by decide : Halt.diverges ≠ .deadHandle)
  | succ fuel ih =>
    cases o with
    | none => trivial
    | some i =>
      rw [UsesLive, invalidateLoop, ensures_bind, ensures_getCur, ensures_bind]
      exact (invalidateCursor_trips htrip i rc).imp fun rc' w' _ => ih _ rc' w'

theorem visited_of_linksKept (hlinks : LinksKept w w') (hn : w'.nCurs = w.nCurs) : w'.visited = w.visited := by
  rw [World.visited, World.visited, links_of_linksKept hlinks, hlinks.first, hn]

theorem invalidateCursors_live (hw : Handles w) (hsave : tripCode = sqliteOk → PositionsLive w) (writeOnly : Bool) :
    Ensures (fun h => h ≠ .deadHandle) (invalidateCursors tripCode writeOnly) (fun _ w' => CursorsOnly w w' ∧ Handles w' ∧
      (tripCode = sqliteOk → AtRest w')) w := by
  have hbuilt : Built (TxnPart False) (invalidateCursors tripCode writeOnly) := built_invalidateCursors tripCode writeOnly
  have hkept : Keeps HandlesKept (invalidateCursors tripCode writeOnly) := hbuilt.keeps TxnPart.handles
  have hlinked : Keeps LinksKept (invalidateCursors tripCode writeOnly) := hbuilt.keeps TxnPart.links
  have hrun : Ensures (fun h => h ≠ .deadHandle) (invalidateCursors tripCode writeOnly) (fun _ w' =>
      tripCode = sqliteOk → ∀ j ∈ w.visited, ¬ (w'.curs j).Due) w := by
    rw [invalidateCursors, ensures_bind, ensures_getP, ensures_bind, ensures_read]
    by_cases htrip : tripCode = sqliteOk
    · rw [htrip]
      exact (invalidateLoop_live hw (hsave htrip) writeOnly 0).imp fun _ _ h _ => h.2
    · exact (invalidateLoop_trips_live htrip writeOnly _ _ 0 w).imp fun _ _ _ h => absurd h htrip
  refine (((hrun.with (keeps_invalidateCursors tripCode writeOnly w)).with (hkept w)).with (hlinked w)).imp fun _ w' h => ?_
  obtain ⟨⟨⟨hrest, honly⟩, hhandles⟩, hlinks⟩ := h
  refine ⟨honly, hhandles.handles hw, fun htrip j hj => ?_⟩
  rw [visited_of_linksKept hlinks honly.nCurs] at hj
  exact hrest htrip j hj

end Invalidation

/-- Levels that can be closed belong to nested write transactions. -/
def Nests (w : World) : Prop := ∀ nTo, closedCount nTo w.p.svp ≠ 0 → Aligned w ∧ w.p.svp ≠ []

section Stack

variable {w w' : World} {tripCode : Rc} {nTo : ℤ} {commit : Bool}

theorem CursorsOnly.stackLive (h : CursorsOnly w w') (hw : StackLive w) : StackLive w' := by
  intro s rest hsvp
  rw [h.p] at hsvp
  rw [Env.Live, kind_congr h.env.writers h.env.readers]
  exact hw s rest hsvp

theorem Aligned.stackLive (h : Aligned w) : StackLive w := by
  intro s rest hsvp
  obtain ⟨t, ts, hwriters, ht⟩ := h.top hsvp
  rw [ht, Env.Live, kind_writer hwriters]
  exact Option.some_ne_none _

/-- The environment changes, and no cursor is touched. -/
theorem AtRest.env (h : AtRest w) (e : Env) : AtRest { w with env := e } := h

/-- The level that is closed is not on the stack any more. -/
theorem closeLevel_live {s : BtreeSavepoint} (hlive : w.env.Live s.txn) (hw : Handles w)
    (hsave : tripCode = sqliteOk → PositionsLive w) (commit : Bool) (rc : Rc) :
    Ensures (fun h => h ≠ .deadHandle) (closeLevel s commit tripCode rc)
      (fun _ w' => tripCode = sqliteOk → AtRest w') w := by
  rw [closeLevel, ensures_bind]
  refine (invalidateCursors_live hw hsave false).imp fun rc₁ w₁ h₁ => ?_
  obtain ⟨honly, -, hrest⟩ := h₁
  have hlive₁ : w₁.env.Live s.txn := by
    rw [Env.Live, kind_congr honly.env.writers honly.env.readers]
    exact hlive
  refine .ite (fun _ => ?_) fun _ => ?_
  · rw [ensures_lmdb]
    exact (usesLive_txnCommit hlive₁).imp fun _ e _ htrip => (hrest htrip).env e
  · rw [ensures_bind, ensures_lmdb]
    exact (usesLive_txnAbort hlive₁).imp fun _ e _ htrip => (hrest htrip).env e

theorem closeLoop_live (levels : List BtreeSavepoint) (rc : Rc) (hal : Aligned w) (hsvp : w.p.svp = levels) (hw : Handles w)
    (hsave : tripCode = sqliteOk → PositionsLive w) :
    Ensures (fun h => h ≠ .deadHandle) (closeLoop nTo commit tripCode levels rc)
      (fun _ w' => tripCode = sqliteOk → PositionsLive w') w := by
  induction levels generalizing w rc with
  | nil => exact hsave
  | cons s levels ih =>
    cases levels with
    | nil => exact hsave
    | cons s' levels =>
      rw [closeLoop]
      refine .ite (fun _ => hsave) fun _ => ?_
      rw [ensures_bind, ensures_setP, ensures_bind]
      obtain ⟨t, ts, hwriters, ht⟩ := hal.top hsvp
      have hids := hal.ids
      rw [hsvp, hwriters, List.map_cons, List.map_cons, List.map_cons] at hids
      obtain ⟨-, hids⟩ := List.cons.inj hids
      obtain ⟨t', ts', rfl⟩ : ∃ t' ts', ts = t' :: ts' := by
        cases ts with
        | nil => cases hids
        | cons t' ts' => exact ⟨t', ts', rfl⟩
      rw [List.map_cons] at hids
      obtain ⟨hs', hrest⟩ := List.cons.inj hids
      have hlive : w.env.Live s.txn := hal.stackLive s _ hsvp
      have hw₀ : Handles { w with p := { w.p with svp := s' :: levels } } := ⟨hw.issued, hw.disjoint, hw.below, hw.apart⟩
      have hrun := closeLevel_live (w := { w with p := { w.p with svp := s' :: levels } }) hlive hw₀ hsave commit rc
      have hkept : Keeps HandlesKept (closeLevel s commit tripCode rc) :=
        (built_closeLevel s commit tripCode rc : Built (TxnPart False) _).keeps TxnPart.handles
      have hspec := closeLevel_spec (E := fun _ => True) (.inl fun _ => trivial)
        (w := { w with p := { w.p with svp := s' :: levels } }) hwriters hal.locked ht commit tripCode rc
      refine ((hrun.with hspec).with (hkept _)).imp fun rc₁ w₁ h₁ => ?_
      obtain ⟨⟨hatRest, honly, hp, hlevel, -, -, -⟩, hhandles⟩ := h₁
      have hal₁ : Aligned w₁ := by
        refine ⟨?_, by rw [honly.disk]; exact hal.locked⟩
        rw [hp]
        cases hlevel with
        | aborted hwriters₁ _ _ => simp [hwriters₁, hs', hrest]
        | committed hwriters₁ _ _ _ _ => simp [hwriters₁, hs', hrest]
      exact ih rc₁ hal₁ (by rw [hp]) (hhandles.handles hw₀) fun htrip => (hatRest htrip).positionsLive

/-- Closing levels uses no transaction that has ended, and leaves none on the stack. -/
theorem closeAll_live (hstack : StackLive w) (hnests : Nests w) (hw : Handles w)
    (hsave : tripCode = sqliteOk → closedCount nTo w.p.svp ≠ 0 → PositionsLive w) :
    Ensures (fun h => h ≠ .deadHandle) (closeAllSavepoints nTo commit tripCode) (fun _ w' => StackLive w' ∧ Handles w' ∧
      (tripCode = sqliteOk → PositionsLive w → PositionsLive w')) w := by
  by_cases hcount : closedCount nTo w.p.svp = 0
  · rw [closeAllSavepoints, ensures_bind, ensures_getP, closeLoop_none hcount]
    exact ⟨hstack, hw, fun _ => id⟩
  · obtain ⟨hal, hne⟩ := hnests nTo hcount
    have hrun : Ensures (fun h => h ≠ .deadHandle) (closeAllSavepoints nTo commit tripCode)
        (fun _ w' => tripCode = sqliteOk → PositionsLive w') w := by
      rw [closeAllSavepoints, ensures_bind, ensures_getP]
      exact closeLoop_live _ 0 hal rfl hw fun htrip => hsave htrip hcount
    have hkept : Keeps HandlesKept (closeAllSavepoints nTo commit tripCode) :=
      (built_closeAllSavepoints nTo commit tripCode : Built (TxnPart False) _).keeps TxnPart.handles
    have hspec := closeAllSavepoints_spec nTo commit tripCode (E := fun _ => True) (.inl fun _ => trivial) hal
    refine ((hrun.with hspec).with (hkept w)).imp fun rc w' h => ?_
    obtain ⟨⟨hpositions, hclosed⟩, hhandles⟩ := h
    exact ⟨(hclosed.aligned hal (closedCount_lt nTo w.p.svp hne)).stackLive, hhandles.handles hw, fun htrip _ => hpositions htrip⟩

/-- The end of the transaction on top, once the cursors have been invalidated. -/
theorem endTxn_live (hstack : StackLive w) (hw : Handles w) (hsave : tripCode = sqliteOk → PositionsLive w)
    (writeOnly : Bool) (f : Btree → Btree) : UsesLive (do
      let _ ← invalidateCursors tripCode writeOnly
      let txn ← topTxn
      lmdb (mdbTxnAbort txn)
      setP f
      pure sqliteOk) w := by
  rw [UsesLive, ensures_bind]
  refine (invalidateCursors_live hw hsave writeOnly).imp fun _ w₁ h₁ => ?_
  refine usesLive_topTxn (h₁.1.stackLive hstack) fun t hlive => ?_
  rw [ensures_bind]
  exact (usesLive_lmdb (usesLive_txnAbort hlive)).imp fun _ _ _ => trivial

end Stack

section Begin

variable {w w' : World} {counted : Prop} {n : ℕ}

/-- In a transaction the one on top has not been ended, nor is there one on the stack outside. -/
theorem ConnState.stackLive (h : ConnState counted n w) (hspent : ¬ w.Spent) : StackLive w := by
  intro s rest hsvp
  have hne : w.p.svp ≠ [] := by
    rw [hsvp]
    exact List.cons_ne_nil _ _
  obtain ⟨s', rest', hsvp', hkind⟩ := h.topAlive (fun hin => hspent ⟨hne, hin⟩) hne
  rw [hsvp] at hsvp'
  obtain ⟨rfl, -⟩ := List.cons.inj hsvp'
  exact hkind

theorem ConnState.nests (h : ConnState counted n w) : Nests w := fun _ hcount => h.aligned hcount

theorem not_spent_of_inTrans (hin : w.p.inTrans ≠ .none) : ¬ w.Spent := fun h => hin h.2

/-- There is no other transaction on the stack than the one a failed commit has left. -/
theorem ConnState.closedCount_spent (h : ConnState counted n w) (hs : w.Spent) (nTo : ℤ) : closedCount nTo w.p.svp = 0 := by
  cases h with
  | idle hsvp _ _ | lost hsvp _ _ _ _ => exact absurd hsvp hs.1
  | failed s hsvp _ _ | reading s _ hsvp _ _ _ _ _ _ | late s _ hsvp _ _ _ _ _ =>
    rw [hsvp]
    rfl
  | writing hw _ =>
    rcases hw.inTrans with hwrite | ⟨hread, -⟩
    · exact absurd (hs.2.symm.trans hwrite) (by decide)
    · exact absurd (hs.2.symm.trans hread) (by decide)

/-- An optimistic upgrade starts from one transaction. -/
theorem ConnState.last (h : ConnState counted n w) (hin : w.p.inTrans = .read)
    (htype : w.p.transType = transactionOptimistic) {s : BtreeSavepoint} {rest : List BtreeSavepoint}
    (hsvp : w.p.svp = s :: rest) :
    rest = [] ∧ (w.env.writers = [] ∨ ∃ t, w.env.writers = [t] ∧ s.txn = t.id) := by
  cases h with
  | idle hnil _ _ | lost hnil _ _ _ _ =>
    rw [hsvp] at hnil
    cases hnil
  | failed _ _ hnone _ => exact absurd (hnone.symm.trans hin) (by decide)
  | reading s' _ hsvp' _ hwriters _ _ _ _ =>
    obtain ⟨rfl, rfl⟩ := List.cons.inj (hsvp.symm.trans hsvp')
    exact ⟨rfl, .inl hwriters⟩
  | late s' t hsvp' _ _ hwriters ht _ =>
    obtain ⟨rfl, rfl⟩ := List.cons.inj (hsvp.symm.trans hsvp')
    exact ⟨rfl, .inr ⟨t, hwriters, ht⟩⟩
  | writing hw _ =>
    rcases hw.inTrans with hwrite | ⟨-, hserial⟩
    · exact absurd (hin.symm.trans hwrite) (by decide)
    · exact absurd (htype.symm.trans hserial) (by decide)

/-- No transaction for writing is left when the last one ends. -/
theorem txnAbort_last {E : Halt → Prop} {e : Env} {t : ℕ} (hlive : e.Live t)
    (hlast : e.writers = [] ∨ ∃ u, e.writers = [u] ∧ t = u.id) :
    Ensures E (mdbTxnAbort t) (fun _ e' => e'.writers = [] ∧ e'.readonly = e.readonly) e := by
  rcases hlast with hwriters | ⟨u, hwriters, rfl⟩
  · have hkind : e.kind t = some .readOnly := by
      rw [Env.Live, Env.kind, hwriters] at hlive
      rw [Env.kind, hwriters]
      simpa using hlive
    exact (documented.txnAbort_reader hkind _).mpr ⟨hwriters, rfl⟩
  · refine (documented.txnAbort hwriters _).mpr ?_
    rw [abort_writer hwriters]
    exact ⟨rfl, rfl⟩

theorem stackLive_writer {s : BtreeSavepoint} {t : WriteTxn} (hsvp : w.p.svp = [s]) (hwriters : w.env.writers = [t])
    (ht : s.txn = t.id) : StackLive w := by
  intro s' rest hsvp'
  obtain ⟨rfl, -⟩ := List.cons.inj (hsvp.symm.trans hsvp')
  rw [ht, Env.Live, kind_writer hwriters]
  exact Option.some_ne_none _

theorem usesLive_beginGetVersion (hw : StackLive w) (pSchemaVersion : Bool) :
    UsesLive (beginGetVersion pSchemaVersion) w := by
  refine .ite (fun _ => ?_) fun _ => trivial
  rw [ensures_bind]
  exact (usesLive_getMeta32 (fun _ => hw) _).imp fun _ _ _ => trivial

theorem beginNew_live (h : Connection counted n w) (hin : w.p.inTrans = .none) {wrFlag : Bool}
    (hallowed : ¬ (wrFlag = true ∧ w.p.readonly = true)) :
    Ensures (fun h => h ≠ .deadHandle) (beginNew wrFlag) (fun rc w' => rc = sqliteOk → StackLive w') w := by
  by_cases hsvp : w.p.svp = []
  · have hwriters : w.env.writers = [] := by
      cases h.state with
      | idle _ _ hwriters => exact hwriters
      | failed _ hsvp' _ _ =>
        rw [hsvp'] at hsvp
        cases hsvp
      | lost _ hread _ _ _ => exact absurd (hin.symm.trans hread) (by decide)
      | reading _ _ _ hread _ _ _ _ _ => exact absurd (hin.symm.trans hread) (by decide)
      | late _ _ _ hread _ _ _ _ => exact absurd (hin.symm.trans hread) (by decide)
      | writing hw _ => exact absurd hsvp hw.nonempty
    refine (beginNew_spec (fun _ => by decide) hsvp hwriters h.opened wrFlag hallowed).imp fun rc w' hres hok => ?_
    obtain ⟨-, -, -, ⟨hrc, -⟩ | ⟨-, hbegan⟩⟩ := hres
    · exact absurd hok hrc
    cases hbegan with
    | reader _ hasData _ hp hwriters' hreaders _ =>
      intro s rest hs
      rw [hp] at hs
      obtain ⟨rfl, -⟩ := List.cons.inj hs
      rw [Env.Live, (view_snapshot hwriters' hreaders).1]
      exact Option.some_ne_none _
    | writer _ hasData _ hp hwriters' _ _ => exact stackLive_writer (by rw [hp]; rfl) hwriters' rfl
  · rw [beginNew, ensures_bind, ensures_getP, if_pos hsvp]
    exact fun hok => absurd hok (by decide)

/-- What follows the end of the old transaction. -/
theorem upgradeTaken_live {s : BtreeSavepoint} (hsvp : w.p.svp = [s]) (hwriters : w.env.writers = [])
    (hopen : w.env.readonly = false) (u : ℤ) : Ensures (fun h => h ≠ .deadHandle) (do
      let r ← lmdb (mdbTxnBegin none false)
      if r.1 ≠ 0 then upgradeError r.1 else upgradeOpened u r.2) (fun rc w' => rc = sqliteOk → StackLive w') w := by
  refine (upgradeTaken_spec (fun _ => by decide) hsvp hwriters hopen u).imp fun rc w' hres hok => ?_
  cases hres.2 with
  | lost hrc _ _ _ _ => exact absurd hok hrc
  | replaced _ _ hp hwriters' _ _ _ _ => exact stackLive_writer (by rw [hp]) hwriters' rfl

theorem upgradeOptimistic_live (h : Connection counted n w) (hw : Handles w) (hin : w.p.inTrans = .read)
    (htype : w.p.transType = transactionOptimistic) (hro : w.p.readonly = false) (hpositions : PositionsLive w) :
    Ensures (fun h => h ≠ .deadHandle) upgradeOptimistic (fun rc w' => rc = sqliteOk → StackLive w') w := by
  have hstack := h.state.stackLive (not_spent_of_inTrans (by rw [hin]; decide))
  rw [upgradeOptimistic, ensures_bind]
  refine ((usesLive_getMeta64 (fun _ => hstack) _).with (answersOnly_getMeta64 _ w)).imp fun u w₁ h₁ => ?_
  obtain ⟨-, answers, rfl⟩ := h₁
  have hw₁ : Handles { w with env := { w.env with answers := answers } } :=
    ⟨⟨hw.issued.writers, hw.issued.readers, hw.issued.cursors.cursors, hw.issued.cursors.shadows⟩, hw.disjoint, hw.below, hw.apart⟩
  rw [ensures_bind]
  refine (invalidateCursors_live hw₁ (fun _ => hpositions) false).imp fun rc w₂ h₂ => ?_
  have honly := h₂.1
  refine .ite (fun hrc hok => absurd ((errorMap_eq_ok _).mp hok) hrc) fun _ => ?_
  rw [ensures_bind, ensures_setP]
  have hp : w₂.p = w.p := honly.p
  cases hsvp : w.p.svp with
  | nil =>
    rw [topTxn, ensures_bind, ensures_bind, ensures_getP, hp, hsvp]
    exact (by decide : Halt.nullPointer ≠ .deadHandle)
  | cons s rest =>
    obtain ⟨rfl, hlast⟩ := h.state.last hin htype hsvp
    have hsvp₂ : ({ w₂ with p := { w₂.p with hasData := false } } : World).p.svp = [s] := by
      rw [← hsvp, ← hp]
    have hlive₂ : w₂.env.Live s.txn := by
      rw [Env.Live, kind_congr honly.env.writers honly.env.readers]
      exact hstack s [] hsvp
    have hlast₂ : w₂.env.writers = [] ∨ ∃ t, w₂.env.writers = [t] ∧ s.txn = t.id := by
      rw [honly.env.writers]
      exact hlast
    rw [ensures_bind, ensures_topTxn hsvp₂, ensures_bind, ensures_lmdb]
    refine (txnAbort_last hlive₂ hlast₂).imp fun _ e he => ?_
    refine upgradeTaken_live (w := { w₂ with env := e, p := { w₂.p with hasData := false } }) hsvp₂ he.1 ?_ u
    rw [he.2, honly.env.readonly, h.opened]
    exact hro

end Begin

/-- `sqlite3BtreeBeginTrans` gets to the optimistic upgrade. -/
def World.Upgrades (w : World) (wrFlag : Bool) : Prop :=
  wrFlag = true ∧ w.p.inTrans = .read ∧ w.p.readonly = false ∧ w.p.transType = transactionOptimistic

/-- Nothing that the call uses has been ended: where it saves the positions of cursors these can be saved, and where it
ends the transaction on the stack, outside a transaction, there is none. -/
def TxnCall.Clear (call : TxnCall) (w : World) : Prop :=
  match call with
  | beginTrans wrFlag _ => w.Upgrades wrFlag → PositionsLive w
  | beginStmt _ | commitPhaseOne => True
  | savepoint _ iSavepoint => (iSavepoint < 0 → ¬ w.Spent) ∧
      (closedCount iSavepoint w.p.svp ≠ 0 ∨ iSavepoint < 0 → PositionsLive w)
  | rollback tripCode _ => w.p.inTrans ≠ .none → tripCode = sqliteOk → PositionsLive w

section Transactions

variable {w w' : World} {n : ℕ}

theorem beginTrans_live (h : Connection False n w) (hw : Handles w) {wrFlag : Bool} (pSchemaVersion : Bool)
    (hclear : w.Upgrades wrFlag → PositionsLive w) : UsesLive (sqlite3BtreeBeginTrans wrFlag pSchemaVersion) w := by
  have hversion : w.p.inTrans ≠ .none → UsesLive (beginGetVersion pSchemaVersion) w := fun hin =>
    usesLive_beginGetVersion (h.state.stackLive (not_spent_of_inTrans hin)) pSchemaVersion
  have hend : ∀ (rc : Rc) (w₁ : World), (rc = sqliteOk → StackLive w₁) → Ensures (fun h => h ≠ .deadHandle)
      (if rc ≠ sqliteOk then pure (rc, none) else beginGetVersion pSchemaVersion) (fun _ _ => True) w₁ := fun rc w₁ hlive =>
    .ite (fun _ => trivial) fun hrc => usesLive_beginGetVersion (hlive (not_not.mp hrc)) pSchemaVersion
  rw [UsesLive, sqlite3BtreeBeginTrans, ensures_bind, ensures_getP]
  refine .ite (fun hwrite => hversion (by rw [hwrite]; decide)) fun hwrite => ?_
  refine .ite (fun _ => trivial) fun hallowed => .ite (fun hin => hversion hin.1) fun hreads => ?_
  refine .ite (fun hin => ?_) fun hin => ?_
  · have hread : w.p.inTrans = .read := by
      cases hinTrans : w.p.inTrans with
      | none => exact absurd hinTrans hin
      | read => rfl
      | write => exact absurd hinTrans hwrite
    have hwr : wrFlag = true := by
      by_contra hne
      exact hreads ⟨hin, by simpa using hne⟩
    have hro : w.p.readonly = false := by
      by_contra hne
      exact hallowed ⟨hwr, by simpa using hne⟩
    have hsame : ∀ rc : Rc, Ensures (fun h => h ≠ .deadHandle) (pure rc : Call Rc) (fun rc w₁ => Ensures (fun h => h ≠ .deadHandle)
        (if rc ≠ sqliteOk then pure (rc, none) else beginGetVersion pSchemaVersion) (fun _ _ => True) w₁) w := fun rc =>
      hend rc w fun _ => h.state.stackLive (not_spent_of_inTrans hin)
    rw [ensures_bind, beginUpgrade, ensures_bind, ensures_getP]
    refine .ite (fun _ => hsame _) fun _ => .ite (fun htype => ?_) fun _ => .ite (fun _ => ?_) fun _ => hsame _
    · exact (upgradeOptimistic_live h hw hread htype hro (hclear ⟨hwr, hread, hro, htype⟩)).imp hend
    · rw [ensures_bind, ensures_setP]
      exact hend _ _ fun _ => h.state.stackLive (not_spent_of_inTrans hin)
  · rw [ensures_bind]
    exact (beginNew_live h (not_not.mp hin) hallowed).imp hend

theorem beginStmt_live (h : Connection False n w) (hin : w.p.inTrans = .write) (iStatement : ℕ) :
    UsesLive (sqlite3BtreeBeginStmt iStatement) w := by
  have hstack := h.state.stackLive (not_spent_of_inTrans (by rw [hin]; decide))
  rw [UsesLive, sqlite3BtreeBeginStmt, ensures_bind, ensures_lmdb, ensures_answer]
  refine .ite (fun _ => trivial) fun _ => ?_
  rw [ensures_bind, ensures_getP, ensures_bind]
  refine (usesLive_lmdb (usesLive_txnBegin ?_ false)).imp fun _ _ _ => .ite (fun _ => trivial) fun _ => trivial
  intro t ht
  dsimp only at ht
  cases hsvp : w.p.svp with
  | nil =>
    rw [hsvp] at ht
    cases ht
  | cons s rest =>
    rw [hsvp] at ht
    obtain rfl := Option.mem_some_iff.mp ht
    exact hstack s rest hsvp

theorem savepoint_live (h : Connection False n w) (hw : Handles w) (op : SavepointOp) {iSavepoint : ℤ}
    (hclear : (TxnCall.savepoint op iSavepoint).Clear w) : UsesLive (sqlite3BtreeSavepoint op iSavepoint) w := by
  obtain ⟨hspent, hsave⟩ := hclear
  by_cases hnone : closedCount iSavepoint w.p.svp = 0 ∧ 0 ≤ iSavepoint
  · rw [UsesLive, sqlite3BtreeSavepoint, ensures_bind, closeAllSavepoints, ensures_bind, ensures_getP,
      closeLoop_none hnone.1, ensures_pure, if_neg (not_not.mpr rfl), if_pos hnone.2]
    trivial
  · have hpositions : PositionsLive w := hsave (by omega)
    have hlive : ¬ w.Spent := fun hs => by
      have hcount := h.state.closedCount_spent hs iSavepoint
      exact hspent (by omega) hs
    rw [UsesLive, sqlite3BtreeSavepoint, ensures_bind]
    refine (closeAll_live (h.state.stackLive hlive) h.state.nests hw fun _ _ => hpositions).imp fun rc w₁ h₁ => ?_
    obtain ⟨hstack, hw₁, hpositions₁⟩ := h₁
    refine .ite (fun _ => trivial) fun _ => .ite (fun _ => trivial) fun _ => ?_
    exact endTxn_live hstack hw₁ (fun _ => hpositions₁ rfl hpositions) false _

theorem rollback_live (h : Connection False n w) (hw : Handles w) {tripCode : Rc} {writeOnly : Bool}
    (hclear : (TxnCall.rollback tripCode writeOnly).Clear w) : UsesLive (sqlite3BtreeRollback tripCode writeOnly) w := by
  rw [UsesLive, sqlite3BtreeRollback, ensures_bind, ensures_getP]
  refine .ite (fun _ => trivial) fun hin => ?_
  have hstack := h.state.stackLive (not_spent_of_inTrans hin)
  rw [ensures_bind]
  refine (closeAll_live hstack h.state.nests hw fun htrip _ => hclear hin htrip).imp fun _ w₁ h₁ => ?_
  obtain ⟨hstack₁, hw₁, hpositions⟩ := h₁
  exact endTxn_live hstack₁ hw₁ (fun htrip => hpositions htrip (hclear hin htrip)) writeOnly _

/-- A put changes what transactions see, and not which there are. -/
theorem mdbPut_txns (t : ℕ) (db : DbName) (key val : Bytes) (e : Env) : Ensures (fun _ => True) (mdbPut t db key val)
    (fun _ e' => e'.writers.map WriteTxn.id = e.writers.map WriteTxn.id ∧ e'.readers = e.readers) e := by
  rw [mdbPut, ensures_bind, withView, ensures_bind, ensures_read, id_eq]
  cases e.kind t with
  | none => trivial
  | some k =>
    dsimp only
    cases e.view t with
    | none => exact ⟨rfl, rfl⟩
    | some c =>
      dsimp only
      rw [ensures_bind, ensures_read]
      refine .ite (fun _ => ⟨rfl, rfl⟩) fun _ => ?_
      rw [ensures_bind, ensures_answer]
      refine .ite (fun _ => ⟨rfl, rfl⟩) fun _ => ?_
      cases c db with
      | none => exact ⟨rfl, rfl⟩
      | some es => exact ⟨Lmdb.setView_ids _ _, rfl⟩

/-- Only the value of the counter changes. -/
theorem putMeta64_stack (idx uValue : ℕ) (hw : StackLive w) :
    Ensures (fun _ => True) (putMeta64 idx uValue) (fun _ w' => StackLive w') w := by
  rw [putMeta64, ensures_bind, ensures_getP]
  refine .ite (fun _ => hw) fun _ => ?_
  rw [topTxn, ensures_bind, ensures_bind, ensures_getP]
  cases hsvp : w.p.svp with
  | nil => trivial
  | cons s rest =>
    rw [ensures_pure, ensures_bind, ensures_build, ensures_lmdb]
    refine (mdbPut_txns _ _ _ _ _).imp fun _ e he s' rest' hsvp' => ?_
    have hlive := hw s' rest' hsvp'
    rw [live_iff] at hlive ⊢
    rwa [he.1, he.2]

theorem commitOutermost_live (hw : StackLive w) (rc : Rc) : UsesLive (commitOutermost rc) w := by
  refine usesLive_topTxn hw fun t hlive => .ite (fun _ => ?_) fun _ => ?_
  · rw [ensures_bind]
    exact (usesLive_lmdb (usesLive_txnAbort hlive)).imp fun _ _ _ => trivial
  · rw [ensures_bind]
    exact (usesLive_lmdb (usesLive_txnCommit hlive)).imp fun _ _ _ => .ite (fun _ => trivial) fun _ => trivial

theorem commitPhaseOne_live (h : Connection False n w) (hw : Handles w) : UsesLive sqlite3BtreeCommitPhaseOne w := by
  have htrip : sqliteInternal ≠ sqliteOk := by decide
  rw [UsesLive, sqlite3BtreeCommitPhaseOne, ensures_bind, ensures_getP]
  refine .ite (fun _ => trivial) fun hin => ?_
  rw [ensures_bind]
  refine (closeAll_live (h.state.stackLive (not_spent_of_inTrans hin)) h.state.nests hw fun hok => absurd hok htrip).imp
    fun rc w₁ h₁ => .ite (fun _ => trivial) fun _ => ?_
  obtain ⟨hstack₁, hw₁, -⟩ := h₁
  by_cases hwrite : w.p.inTrans = .write
  · rw [if_pos hwrite, ensures_bind]
    refine (invalidateCursors_live hw₁ (fun hok => absurd hok htrip) false).imp fun _ w₂ h₂ => ?_
    have hstack₂ := h₂.1.stackLive hstack₁
    rw [ensures_bind]
    refine ((usesLive_getMeta64 (fun _ => hstack₂) _).with (answersOnly_getMeta64 _ w₂)).imp fun c w₃ h₃ => ?_
    obtain ⟨-, answers, rfl⟩ := h₃
    have hstack₃ : StackLive { w₂ with env := { w₂.env with answers := answers } } := hstack₂
    dsimp only
    refine (usesLive_putMeta64 (fun _ => hstack₃) _ _).then (putMeta64_stack _ _ hstack₃) fun rc w₄ hstack₄ => ?_
    exact commitOutermost_live hstack₄ rc
  · rw [if_neg hwrite]
    exact endTxn_live hstack₁ hw₁ (fun hok => absurd hok htrip) false _

theorem close_live (hstack : w.p.svp ≠ [] → StackLive w) (hnests : Nests w) (hw : Handles w) : UsesLive sqlite3BtreeClose w := by
  have htrip : sqliteInternal ≠ sqliteOk := by decide
  rw [UsesLive, sqlite3BtreeClose, ensures_bind, ensures_getP]
  have hend : ∀ w₁ : World, UsesLive (do
      lmdb (Prog.modify fun e => { e with writers := [], readers := [], cursors := fun _ => none })
      setP fun p => { p with svp := [], closed := true }
      pure sqliteOk) w₁ := fun _ => trivial
  refine .ite (fun hne => ?_) fun _ => hend w
  rw [ensures_bind]
  refine (closeAll_live (hstack hne) hnests hw fun hok => absurd hok htrip).imp fun rc w₁ h₁ => ?_
  obtain ⟨hstack₁, hw₁, -⟩ := h₁
  rw [ensures_bind]
  refine (invalidateCursors_live hw₁ (fun hok => absurd hok htrip) false).imp fun _ w₂ h₂ => ?_
  refine usesLive_topTxn (h₂.1.stackLive hstack₁) fun t hlive => ?_
  rw [ensures_bind]
  exact (usesLive_lmdb (usesLive_txnAbort hlive)).imp fun _ w₃ _ => hend w₃

theorem Connection.txn_live (h : Connection False n w) (hw : Handles w) {call : TxnCall}
    (hallowed : (ConnCall.txn call).Allowed w) (hclear : call.Clear w) : UsesLive call.run w := by
  cases call with
  | beginTrans wrFlag pSchemaVersion =>
    rw [TxnCall.run, UsesLive, ensures_bind]
    exact (beginTrans_live h hw pSchemaVersion hclear).imp fun _ _ _ => trivial
  | beginStmt iStatement => exact beginStmt_live h hallowed iStatement
  | savepoint op iSavepoint => exact savepoint_live h hw op hclear
  | commitPhaseOne => exact commitPhaseOne_live h hw
  | rollback tripCode writeOnly => exact rollback_live h hw hclear

end Transactions

/-- Nothing that the call uses has been ended; with `BTREE_SINGLE` closing a cursor closes the handle. -/
def CursorCall.Clear (call : CursorCall) (w : World) : Prop :=
  match call with
  | zero _ => True
  | cursor i iTable _ _ => (w.curs i).prev = none → (w.curs i).next = none → 1 ≤ iTable → ¬ w.Spent
  | close i => ¬ Dangling w i ∧ ((w.curs i).pBtree = true → w.p.single = true → ¬ w.Spent)

section Cursors

variable {w w' : World} {i : ℕ} {n : ℕ}

theorem usesLive_linkCursor (i : ℕ) : UsesLive (linkCursor i) w := by
  rw [UsesLive, linkCursor, ensures_bind, ensures_getP, ensures_bind, ensures_setCur]
  cases w.p.lastCursor <;> trivial

theorem usesLive_cursor (hfree : MetaFree w.env) {iTable : ℕ}
    (hw : (w.curs i).prev = none → (w.curs i).next = none → 1 ≤ iTable → StackLive w) (wrFlag : Bool) (keyInfo : Option KeyInfo) :
    UsesLive (sqlite3BtreeCursor iTable wrFlag keyInfo i) w := by
  rw [UsesLive, sqlite3BtreeCursor, ensures_bind, ensures_getCur]
  refine .ite (fun _ => trivial) fun hunlinked => ?_
  have hstack : 1 ≤ iTable → StackLive w := hw (by simp_all) (by simp_all)
  rw [topTxn, ensures_bind, ensures_bind, ensures_getP]
  cases hsvp : w.p.svp with
  | nil => exact (by decide : Halt.nullPointer ≠ .deadHandle)
  | cons s rest =>
    dsimp only
    rw [ensures_pure, ensures_bind, ensures_setCur]
    by_cases hroot : iTable < 1
    · have hcorrupt : sqliteCorrupt ≠ 0 := by decide
      rw [getTable, ensures_bind, ensures_bind, ensures_getP, if_pos hroot, ensures_pure, if_pos hcorrupt]
      trivial
    · have htable : Built (UsePart True) (getTable iTable false) := built_getTable .lmdb _ (absurd · Bool.false_ne_true)
      refine (usesLive_getTable (fun _ => (hstack (Nat.not_lt.mp hroot)).curs _) false).then
        (UsePart.tables htable hfree) fun rc w₁ h₁ => .ite (fun _ => trivial) fun _ => ?_
      have hlive : w₁.env.Live s.txn := (h₁.live s.txn).mpr (hstack (Nat.not_lt.mp hroot) s rest hsvp)
      rw [ensures_bind, ensures_setCur, ensures_bind, ensures_lmdb]
      refine (cursorOpen_present hlive _).imp fun r e hpresent => .ite (fun _ => trivial) fun hrc => ?_
      rw [ensures_bind, ensures_setCur, ensures_bind, ensures_lmdb]
      have hr : ∀ h ∈ some r.2, e.cursors h ≠ none := by
        rintro h ⟨⟩
        exact hpresent (not_not.mp hrc)
      refine (usesLive_cursorGet hr .first).imp fun g e' _ => ?_
      have hlink : ∀ w₂ : World, Ensures (fun h => h ≠ .deadHandle) (do
          linkCursor i
          setCur i fun c => { c with wrFlag := wrFlag }
          pure sqliteOk) (fun _ _ => True) w₂ := fun w₂ => by
        rw [ensures_bind]
        exact (usesLive_linkCursor i).imp fun _ _ _ => trivial
      exact .ite (fun _ => hlink _) fun _ => hlink _

/-- Taking a cursor out of the list cannot fail. -/
theorem unlinkCursor_total {E : Halt → Prop} (i : ℕ) : Ensures E (unlinkCursor i) (fun _ _ => True) w := by
  rw [unlinkCursor, ensures_bind, ensures_getCur]
  cases (w.curs i).prev <;> cases (w.curs i).next <;> trivial

theorem keptBy_data {α : Type} {m : Call α} (hm : Built (DataPart True) m) (hfree : MetaFree w.env) (hw : Handles w)
    {E : Halt → Prop} {Q : α → World → Prop} (h : Ensures E m Q w) :
    Ensures E m (fun a w' => Q a w' ∧ TablesOnly w w' ∧ Handles w') w := by
  have hkept : Keeps HandlesKept m := hm.keeps DataPart.handles
  refine ((h.with (dataKeeps_built hm w)).with (hkept w)).imp fun a w' h' => ?_
  exact ⟨h'.1.1, h'.1.2 hfree, h'.2.handles hw⟩

/-- Closing a cursor changes cursors and links; with `BTREE_SINGLE` the handle is closed then. -/
theorem closeCursor_rule {E : Halt → Prop} {Q : Rc → World → Prop} (hfree : MetaFree w.env) (hw : Handles w)
    (hcursor : Ensures E (lmdb (mdbCursorClose (w.curs i).cursor)) (fun _ _ => True) w)
    (hkept : ∀ w', TablesOnly w w' → Handles w' → ¬ ((w.curs i).pBtree = true ∧ w.p.single = true) → Q sqliteOk w')
    (hclosed : ∀ w', TablesOnly w w' → Handles w' → (w.curs i).pBtree = true → w.p.single = true →
      Ensures E sqlite3BtreeClose (fun _ w'' => Q sqliteOk w'') w') : Ensures E (sqlite3BtreeCloseCursor i) Q w := by
  have hunlink : ∀ w₁, TablesOnly w w₁ → Handles w₁ → Ensures E (do
      setCur i fun c => { c with savedKey := none }
      if (w.curs i).pBtree then do
        unlinkCursor i
        setCur i fun c => { c with pBtree := false }
        let p ← getP
        if p.single then do
          let _ ← sqlite3BtreeClose
          pure sqliteOk
        else pure sqliteOk
      else pure sqliteOk) Q w₁ := by
    intro w₁ h₁ hw₁
    rw [ensures_bind, ensures_setCur]
    have hset : TablesOnly w { w₁ with curs := Function.update w₁.curs i { w₁.curs i with savedKey := none } } :=
      ⟨h₁.build, h₁.p, h₁.env⟩
    have hwset : Handles { w₁ with curs := Function.update w₁.curs i { w₁.curs i with savedKey := none } } :=
      hw₁.setCur (.inl rfl)
    refine .ite (fun hopen => ?_) fun hopen => hkept _ hset hwset fun hsingle => hopen hsingle.1
    rw [ensures_bind]
    refine (keptBy_data (built_unlinkCursor i) hset.env.metaFree hwset (unlinkCursor_total i)).imp fun _ w₂ h₂ => ?_
    obtain ⟨-, htables₂, hw₂⟩ := h₂
    rw [ensures_bind, ensures_setCur, ensures_bind, ensures_getP]
    have h₃ : TablesOnly w { w₂ with curs := Function.update w₂.curs i { w₂.curs i with pBtree := false } } :=
      hset.trans ⟨htables₂.build, htables₂.p, htables₂.env⟩
    have hw₃ : Handles { w₂ with curs := Function.update w₂.curs i { w₂.curs i with pBtree := false } } :=
      hw₂.setCur (.inl rfl)
    have hsame : w₂.p.single = w.p.single := by
      rw [h₃.p]
    refine .ite (fun hsingle => ?_) fun hsingle => ?_
    · rw [ensures_bind]
      exact hclosed _ h₃ hw₃ hopen (hsame.symm.trans hsingle)
    · exact hkept _ h₃ hw₃ fun hboth => hsingle (hsame.trans hboth.2)
  rw [sqlite3BtreeCloseCursor, ensures_bind, ensures_getCur]
  refine .ite (fun _ => ?_) fun _ => hunlink w (.refl hfree) hw
  rw [ensures_bind]
  have hclose : Built (DataPart True) (lmdb (mdbCursorClose (w.curs i).cursor)) := .part (.move (.lmdb (.cursorClose _)))
  refine (keptBy_data hclose hfree hw hcursor).imp fun _ w₁ h₁ => ?_
  obtain ⟨-, htables₁, hw₁⟩ := h₁
  rw [ensures_bind, ensures_setCur]
  exact hunlink _ ⟨htables₁.build, htables₁.p, htables₁.env⟩ (hw₁.setCur (.inr rfl))

theorem TablesOnly.nests (h : TablesOnly w w') (hw : Nests w) : Nests w' := by
  intro nTo hcount
  rw [h.p] at hcount
  obtain ⟨hal, hne⟩ := hw nTo hcount
  refine ⟨⟨?_, ?_⟩, ?_⟩
  · rw [h.p, h.env.writers.ids]
    exact hal.ids
  · rw [h.env.disk]
    exact hal.locked
  · rw [h.p]
    exact hne

theorem closeCursor_live (h : Connection False n w) (hw : Handles w) (hclear : (CursorCall.close i).Clear w) :
    UsesLive (sqlite3BtreeCloseCursor i) w := by
  obtain ⟨hi, hsingle⟩ := hclear
  refine closeCursor_rule h.metaFree hw (usesLive_lmdb (usesLive_cursorClose (not_dangling hi))) (fun _ _ _ _ => trivial)
    fun w' htables hw' hopen hs => ?_
  have hstack := htables.stackLive (h.state.stackLive (hsingle hopen hs))
  exact (close_live (fun _ => hstack) (htables.nests h.state.nests) hw').imp fun _ _ _ => trivial

theorem Connection.cursor_live (h : Connection False n w) (hw : Handles w) {call : CursorCall} (hclear : call.Clear w) :
    UsesLive call.run w := by
  cases call with
  | zero i => trivial
  | cursor i iTable wrFlag keyInfo =>
    exact usesLive_cursor h.metaFree (fun hprev hnext hroot => h.state.stackLive (hclear hprev hnext hroot)) wrFlag keyInfo
  | close i => exact closeCursor_live h hw hclear

end Cursors

/-- What is done with a handle until it is closed; meanwhile LMDB has other codes to give, and others write the disk. -/
inductive HandleCall
  | meanwhile (answers : Answers) (disk : Disk)
  | cursor (call : CursorCall)
  | txn (call : TxnCall)
  | data (call : DataCall)
  | close

def handleStep : HandleCall → Call Rc
  | .meanwhile answers disk => do
    Prog.modify fun w => w.meanwhile answers disk
    pure sqliteOk
  | .cursor call => call.run
  | .txn call => call.run
  | .data call => do
    call.run
    pure sqliteOk
  | .close => sqlite3BtreeClose

/-- The handle has not been closed, statements are begun in write transactions, and other connections leave the
metadata there. -/
def HandleCall.Allowed (k : HandleCall) (w : World) : Prop :=
  w.p.closed = false ∧ match k with
  | meanwhile _ disk => HasMetadata (disk.contents .metadata)
  | txn call => (ConnCall.txn call).Allowed w
  | data call => call.moves = true ∧ call.Allowed w
  | cursor _ | close => True

/-- Nothing that the call uses has been ended. -/
def HandleCall.Clear (k : HandleCall) (w : World) : Prop :=
  match k with
  | meanwhile _ _ => True
  | cursor call => call.Clear w
  | txn call => call.Clear w
  | data call => call.Clear w
  | close => ¬ w.Spent

/-- What every call keeps while the handle is open. -/
def UsableHandle (w : World) : Prop := w.p.closed = false → (∃ n, Connection False n w) ∧ Handles w

section Runs

variable {w w' : World} {n i : ℕ}

theorem NewSession.usable (h : NewSession w) : UsableHandle w := fun _ => ⟨h.session.connection, h.session.handles⟩

theorem Connection.tended (h : Connection False n w) (hw : Handles w) : Tended w := ⟨h.metaFree, hw, h.state.stackLive⟩

theorem Connection.meanwhile (h : Connection False n w) (answers : Answers) {disk : Disk}
    (hmeta : HasMetadata (disk.contents .metadata)) : Connection False n (w.meanwhile answers disk) := by
  have hdisk : Connection False n { w with env := { w.env with
      disk := if w.env.writers.isEmpty then disk else w.env.disk } } := by
    refine h.onDisk ?_ (fun hne => ?_) fun hfalse => hfalse.elim
    · split_ifs
      · exact hmeta
      · exact h.metadata
    · rw [if_neg (by rwa [List.isEmpty_iff])]
      exact ⟨rfl, rfl⟩
  exact hdisk.answersOnly ⟨answers, rfl⟩

theorem Handles.meanwhile (h : Handles w) (answers : Answers) (disk : Disk) : Handles (w.meanwhile answers disk) := by
  have hi := h.issued
  exact ⟨⟨hi.writers, hi.readers, hi.cursors.cursors, hi.cursors.shadows⟩, h.disjoint, h.below, h.apart⟩

theorem close_closes : Ensures (fun _ => True) sqlite3BtreeClose (fun _ w' => w'.p.closed = true) w := by
  have hend : ∀ w₁ : World, Ensures (fun _ => True) (do
      lmdb (Prog.modify fun e => { e with writers := [], readers := [], cursors := fun _ => none })
      setP fun p => { p with svp := [], closed := true }
      pure sqliteOk) (fun _ w' => w'.p.closed = true) w₁ := fun _ => rfl
  rw [sqlite3BtreeClose, ensures_bind, ensures_getP]
  refine .ite (fun _ => ?_) fun _ => hend w
  have hskip : ∀ {α : Type} (m : Call α) (k : α → Call Rc), (∀ a w₁, Ensures (fun _ => True) (k a) (fun _ w' => w'.p.closed = true) w₁) →
      ∀ w₁, Ensures (fun _ => True) (m >>= k) (fun _ w' => w'.p.closed = true) w₁ := fun m k hk w₁ => by
    rw [ensures_bind, ensures_iff]
    exact ⟨fun a w₂ _ => hk a w₂, fun _ _ => trivial⟩
  exact hskip _ _ (fun _ => hskip _ _ fun _ => hskip _ _ fun _ => hskip _ _ fun _ => hend) w

theorem UsableHandle.cursor (h : UsableHandle w) (hopen : w.p.closed = false) (call : CursorCall) :
    Ensures (fun _ => True) call.run (fun _ w' => UsableHandle w') w := by
  obtain ⟨⟨n, hconn⟩, hw⟩ := h hopen
  have hkept : ∀ w', TablesOnly w w' → Handles w' → UsableHandle w' := fun w' htables hw' _ => ⟨⟨n, htables.connection hconn⟩, hw'⟩
  cases call with
  | zero i =>
    have hzero : Handles { w with curs := Function.update w.curs i .zero } := hw.setCur (.inr rfl)
    exact hkept _ ⟨rfl, rfl, .refl hconn.metaFree⟩ ⟨hzero.issued, hzero.disjoint, hzero.below, hzero.apart⟩
  | cursor i iTable wrFlag keyInfo =>
    have hrun : Ensures (fun _ => True) (sqlite3BtreeCursor iTable wrFlag keyInfo i) (fun _ _ => True) w :=
      ensures_iff.mpr ⟨fun _ _ _ => trivial, fun _ _ => trivial⟩
    exact (keptBy_data (built_cursor iTable wrFlag keyInfo i) hconn.metaFree hw hrun).imp fun _ w' h' => hkept w' h'.2.1 h'.2.2
  | close i =>
    refine closeCursor_rule hconn.metaFree hw (ensures_iff.mpr ⟨fun _ _ _ => trivial, fun _ _ => trivial⟩)
      (fun w' htables hw' _ => hkept w' htables hw') fun w' _ _ _ _ => ?_
    exact close_closes.imp fun _ w'' hclosed hopen' => absurd (hclosed.symm.trans hopen') (by decide)

theorem UsableHandle.step {k : HandleCall} (h : UsableHandle w) (hallowed : k.Allowed w) :
    Ensures (fun _ => True) (handleStep k) (fun _ w' => UsableHandle w') w := by
  obtain ⟨hopen, hallowed⟩ := hallowed
  obtain ⟨⟨n, hconn⟩, hw⟩ := h hopen
  cases k with
  | meanwhile answers disk => exact fun _ => ⟨⟨n, hconn.meanwhile answers hallowed⟩, hw.meanwhile answers disk⟩
  | cursor call => exact h.cursor hopen call
  | txn call =>
    have hkept : Keeps HandlesKept call.run := call.built.keeps TxnPart.handles
    have heffect : Ensures (fun _ => True) call.run (Effect False n (.txn call) w) w :=
      ConnCall.effect hconn hallowed fun hfalse => hfalse.elim
    exact (heffect.keep hkept).imp fun _ w' h' _ => ⟨⟨_, h'.1.connection⟩, h'.2.handles hw⟩
  | data call =>
    have hbuilt := (DataCall.built_of_moves hallowed.1 hallowed.2).trans UsePart.built
    have hkept : Keeps HandlesKept call.run := hbuilt.keeps MovePart.handles
    rw [handleStep, ensures_bind]
    exact ((dataCall_spec hconn.metaFree hallowed.2).keep hkept).imp fun _ w' h' _ =>
      ⟨⟨n, h'.1.connection hconn⟩, h'.2.handles hw⟩
  | close => exact close_closes.imp fun _ w' hclosed hopen' => absurd (hclosed.symm.trans hopen') (by decide)

theorem UsableHandle.live {k : HandleCall} (h : UsableHandle w) (hallowed : k.Allowed w) (hclear : k.Clear w) : UsesLive (handleStep k) w := by
  obtain ⟨hopen, hallowed⟩ := hallowed
  obtain ⟨⟨n, hconn⟩, hw⟩ := h hopen
  cases k with
  | meanwhile answers disk => trivial
  | cursor call => exact hconn.cursor_live hw hclear
  | txn call => exact hconn.txn_live hw hallowed hclear
  | data call =>
    rw [handleStep, UsesLive, ensures_bind]
    exact ((hconn.tended hw).data hallowed.1 hclear).imp fun _ _ _ => trivial
  | close => exact close_live (fun _ => hconn.state.stackLive hclear) hconn.state.nests hw

/-- In a run whose steps use nothing that has been ended, no step passes LMDB a handle that has been ended. -/
theorem no_dead_handle_of_run {w₀ w : World} {steps : List HandleCall} {k : HandleCall} (hnew : NewSession w₀)
    (hrun : Run handleStep (fun k w => k.Allowed w ∧ k.Clear w) w₀ steps w) (hallowed : k.Allowed w) (hclear : k.Clear w) :
    UsesLive (handleStep k) w := by
  have husable : UsableHandle w := hrun.invariant (fun k s hs hcond => hs.step hcond.1) hnew.usable
  exact husable.live hallowed hclear

/-- A row is written with a cursor, which is closed before the commit. -/
theorem no_dead_handle_of_run_sample : ∃ w, Run handleStep (fun k w => k.Allowed w ∧ k.Clear w) newConnection
    [.txn (.beginTrans true false), .cursor (.zero 0), .cursor (.cursor 0 1 true none),
      .data (.insert 0 ⟨1, [], [7], 0, none⟩ false), .cursor (.close 0)] w ∧
      UsesLive (handleStep (.txn .commitPhaseOne)) w := by
  obtain ⟨w, hrun, hopen⟩ : ∃ w, Run handleStep (fun k w => k.Allowed w ∧ k.Clear w) newConnection
      [.txn (.beginTrans true false), .cursor (.zero 0), .cursor (.cursor 0 1 true none),
        .data (.insert 0 ⟨1, [], [7], 0, none⟩ false), .cursor (.close 0)] w ∧ w.p.closed = false := by
    refine ⟨_, .cons ⟨⟨rfl, trivial⟩, fun h => (by cases h.2.1)⟩ rfl (.cons ⟨⟨rfl, trivial⟩, trivial⟩ rfl
      (.cons ⟨⟨rfl, trivial⟩, fun _ _ _ => not_spent_of_inTrans (by decide)⟩ rfl
        (.cons ⟨⟨rfl, rfl, trivial⟩, fun _ => ⟨fun _ => ⟨?_, fun hsaved => absurd rfl hsaved⟩, fun h => (by cases h)⟩⟩ rfl
          (.cons ⟨⟨rfl, trivial⟩, ?_, fun _ hsingle => (by cases hsingle)⟩ rfl (.nil _))))), rfl⟩
    · rintro ⟨h, hh, hended⟩
      obtain rfl := Option.some.inj hh
      cases hended
    · rintro ⟨h, hh, hended⟩
      obtain rfl := Option.some.inj hh
      cases hended
  exact ⟨w, hrun, no_dead_handle_of_run newConnection_session hrun ⟨hopen, trivial⟩ trivial⟩

/-- A cursor that has kept an LMDB cursor that has been ended is not closed without using it. -/
theorem closeCursor_dead (h : Dangling w i) : ¬ UsesLive (sqlite3BtreeCloseCursor i) w := by
  obtain ⟨n, hn, hended⟩ := h
  have hsome : (w.curs i).cursor.isSome = true := by
    rw [hn]
    rfl
  rw [UsesLive, sqlite3BtreeCloseCursor, ensures_bind, ensures_getCur, if_pos hsome, ensures_bind, hn, ensures_lmdb,
    mdbCursorClose, ensures_bind, ensures_read]
  simp [hended]

/-- The cursor that was left open when its transaction was committed is closed. -/
theorem commit_leaves_dead_handle : ∃ w, Run handleStep HandleCall.Allowed newConnection
    [.txn (.beginTrans true false), .cursor (.zero 0), .cursor (.cursor 0 1 true none), .txn .commitPhaseOne] w ∧
      ¬ UsesLive (handleStep (.cursor (.close 0))) w := by
  exact ⟨_, .cons ⟨rfl, trivial⟩ rfl (.cons ⟨rfl, trivial⟩ rfl (.cons ⟨rfl, trivial⟩ rfl (.cons ⟨rfl, trivial⟩ rfl (.nil _)))),
    closeCursor_dead ⟨_, rfl, rfl⟩⟩

end Runs

end LumoSql.Btree
