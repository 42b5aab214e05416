import LumoSql.CursorInvalidation
import LumoSql.RowidOrder

/-! The list of cursors of a handle, over runs of the calls that open and close cursors. -/
namespace LumoSql.Btree
open StateLogic Lmdb LinkedLists

/-- `sqlite3BtreeCursorZero` on the memory of cursor `i`. -/
def sqlite3BtreeCursorZero (i : ℕ) : Call Unit :=
  Prog.modify fun w => { w with
    curs := Function.update w.curs i .zero
    nCurs := max w.nCurs (i + 1) }

inductive CursorCall
  | zero (i : ℕ)
  | cursor (i iTable : ℕ) (wrFlag : Bool) (keyInfo : Option KeyInfo)
  | close (i : ℕ)

def CursorCall.run : CursorCall → Call Rc
  | zero i => do
    sqlite3BtreeCursorZero i
    pure sqliteOk
  | cursor i iTable wrFlag keyInfo => sqlite3BtreeCursor iTable wrFlag keyInfo i
  | close i => sqlite3BtreeCloseCursor i

/-- What the caller has done with the memory of a cursor. -/
inductive Usage
  | unused | zeroed | opened | failed
  deriving DecidableEq

/-- The caller's record of its cursors: those opened successfully and not closed, in the order in
which they were opened. -/
structure Ledger where
  usage : ℕ → Usage
  opened : List ℕ

def Ledger.empty : Ledger := ⟨fun _ => .unused, []⟩

def Ledger.record (l : Ledger) (rc : Rc) : CursorCall → Ledger
  | .zero i => { l with usage := Function.update l.usage i .zeroed }
  | .cursor i _ _ _ =>
    if rc = sqliteOk then ⟨Function.update l.usage i .opened, l.opened ++ [i]⟩
    else { l with usage := Function.update l.usage i .failed }
  | .close i => ⟨Function.update l.usage i .unused, l.opened.erase i⟩

/-- A cursor is opened once after its memory was cleared, and closed once after that. -/
def Ledger.Allows (l : Ledger) : CursorCall → Prop
  | .zero i => l.usage i = .unused ∨ l.usage i = .zeroed
  | .cursor i _ _ _ => l.usage i = .zeroed
  | .close i => l.usage i = .opened ∨ l.usage i = .failed

/-- Make a call and record it. -/
def ledgerStep (k : CursorCall) : Prog (World × Ledger) Halt Rc := do
  let rc ← Prog.zoom Prod.fst (fun s w => (w, s.2)) k.run
  Prog.modify fun s => (s.1, s.2.record rc k)
  pure rc

/-- The list of the handle consists of the cursors `opened`. -/
structure CursorList (w : World) (opened : List ℕ) : Prop where
  visits : Follows w.links w.p.firstCursor opened
  once : opened.Nodup
  inverse : ∀ i ∈ opened, ∀ j ∈ opened, (w.curs i).next = some j ↔ (w.curs j).prev = some i
  last : w.p.lastCursor = opened.getLast?

def World.backLinks (w : World) (j : ℕ) : Option ℕ := (w.curs j).prev

/-- What every call keeps. -/
structure ListInvariant (w : World) (l : Ledger) : Prop where
  linked : Linked w.links w.backLinks none l.opened none
  once : l.opened.Nodup
  first : w.p.firstCursor = l.opened.head?
  last : w.p.lastCursor = l.opened.getLast?
  listed : ∀ i, i ∈ l.opened ↔ l.usage i = .opened
  owned : ∀ i, l.usage i = .opened ∨ l.usage i = .failed → (w.curs i).pBtree = true
  unlinked : ∀ i, l.usage i = .zeroed ∨ l.usage i = .failed → w.links i = none ∧ w.backLinks i = none

theorem ListInvariant.cursorList {w : World} {l : Ledger} (h : ListInvariant w l) : CursorList w l.opened := by
  refine ⟨?_, h.once, fun i hi j hj => h.linked.next_iff hi hj, h.last⟩
  rw [h.first]
  exact h.linked.follows

section Opening

variable {w w' : World} {l : Ledger} {i : ℕ}

theorem LinksKept.invariant (h : LinksKept w w') (hw : ListInvariant w l) : ListInvariant w' l := by
  have hnext : w'.links = w.links := funext h.next
  have hprev : w'.backLinks = w.backLinks := funext h.prev
  refine ⟨?_, hw.once, h.first.trans hw.first, h.last.trans hw.last, hw.listed, fun i hi => ?_, ?_⟩
  · rw [hnext, hprev]
    exact hw.linked
  · rw [h.opened i]
    exact hw.owned i hi
  · rw [hnext, hprev]
    exact hw.unlinked

/-- Only cursor `i` changes. -/
structure OthersKept (i : ℕ) (w w' : World) : Prop where
  p : w'.p = w.p
  curs : ∀ j, j ≠ i → w'.curs j = w.curs j

instance : Frame (OthersKept i) where
  refl _ := ⟨rfl, fun _ _ => rfl⟩
  trans h h' := ⟨h'.p.trans h.p, fun j hj => (h'.curs j hj).trans (h.curs j hj)⟩

/-- The memory of a cursor that is not open changes. -/
theorem OthersKept.invariant (h : OthersKept i w w') (hw : ListInvariant w l) (hi : i ∉ l.opened) {u : Usage}
    (hu : u ≠ .opened)
    (hlinks : u = .zeroed ∨ u = .failed → w'.links i = none ∧ w'.backLinks i = none)
    (howned : u = .failed → (w'.curs i).pBtree = true) :
    ListInvariant w' { l with usage := Function.update l.usage i u } := by
  have hne : ∀ j ∈ l.opened, j ≠ i := by
    rintro j hj rfl
    exact hi hj
  refine ⟨hw.linked.congr ?_ ?_, hw.once, ?_, ?_, fun j => ?_, fun j hj => ?_, fun j hj => ?_⟩
  · intro j hj
    rw [World.links, h.curs j (hne j hj), World.links]
  · intro j hj
    rw [World.backLinks, h.curs j (hne j hj), World.backLinks]
  · rw [h.p]
    exact hw.first
  · rw [h.p]
    exact hw.last
  · by_cases hj : j = i
    · subst hj
      simp [hi, hu]
    · simp only [Function.update_of_ne hj]
      exact hw.listed j
  · by_cases hji : j = i
    · subst hji
      simp only [Function.update_self, hu, false_or] at hj
      exact howned hj
    · simp only [Function.update_of_ne hji] at hj
      rw [h.curs j hji]
      exact hw.owned j hj
  · by_cases hji : j = i
    · subst hji
      simp only [Function.update_self] at hj
      exact hlinks hj
    · simp only [Function.update_of_ne hji] at hj
      rw [World.links, World.backLinks, h.curs j hji]
      exact hw.unlinked j hj

theorem ListInvariant.not_mem (hw : ListInvariant w l) {u : Usage} (hi : l.usage i = u) (hu : u ≠ .opened) :
    i ∉ l.opened := fun hmem => hu (hi.symm.trans ((hw.listed i).mp hmem))

theorem zero_invariant (hw : ListInvariant w l) (hi : l.Allows (.zero i)) :
    Ensures (fun _ => True) (CursorCall.zero i).run (fun rc w' => ListInvariant w' (l.record rc (.zero i))) w := by
  have hnot : i ∉ l.opened := by
    rcases hi with hi | hi
    · exact hw.not_mem (u := .unused) hi (by decide)
    · exact hw.not_mem (u := .zeroed) hi (by decide)
  rw [CursorCall.run, ensures_bind, sqlite3BtreeCursorZero, ensures_modify, ensures_pure]
  have hothers : OthersKept i w { w with
      curs := Function.update w.curs i .zero
      nCurs := max w.nCurs (i + 1) } := ⟨rfl, fun j hj => Function.update_of_ne hj _ _⟩
  refine hothers.invariant (u := .zeroed) hw hnot (by decide) (fun _ => ⟨?_, ?_⟩) fun h => by cases h
  · simp [World.links, BtCursor.zero]
  · simp [World.backLinks, BtCursor.zero]

/-- The list with cursor `i` at its end. -/
structure Appended (i : ℕ) (w w' : World) : Prop where
  first : w'.p.firstCursor = if w.p.lastCursor = none then some i else w.p.firstCursor
  last : w'.p.lastCursor = some i
  next : ∀ j, w'.links j = if j = i then none else if w.p.lastCursor = some j then some i else w.links j
  prev : ∀ j, w'.backLinks j = if j = i then w.p.lastCursor else w.backLinks j
  owned : ∀ j, (w'.curs j).pBtree = true ↔ (w.curs j).pBtree = true

theorem linkCursor_spec {E : Halt → Prop} (hi : w.p.lastCursor ≠ some i) :
    Ensures E (linkCursor i) (fun _ w' => Appended i w w') w := by
  rw [linkCursor, ensures_bind, ensures_getP, ensures_bind, ensures_setCur]
  cases hlast : w.p.lastCursor with
  | none =>
    rw [ensures_bind, ensures_setP, ensures_setP]
    refine ⟨by simp [hlast], rfl, fun j => ?_, fun j => ?_, fun j => ?_⟩
    · by_cases hj : j = i
      · subst hj
        simp [World.links]
      · simp [World.links, hj, hlast]
    · by_cases hj : j = i
      · subst hj
        simp [World.backLinks, hlast]
      · simp [World.backLinks, hj]
    · by_cases hj : j = i
      · subst hj
        simp
      · simp [hj]
  | some k =>
    have hk : k ≠ i := fun heq => hi (hlast.trans (congrArg some heq))
    rw [ensures_bind, ensures_setCur, ensures_setP]
    refine ⟨by simp [hlast], rfl, fun j => ?_, fun j => ?_, fun j => ?_⟩
    · by_cases hj : j = i
      · subst hj
        simp [World.links, Ne.symm hk]
      · by_cases hjk : j = k
        · subst hjk
          simp [World.links, hj, hlast]
        · simp [World.links, hj, hjk, Ne.symm hjk, hlast]
    · by_cases hj : j = i
      · subst hj
        simp [World.backLinks, Ne.symm hk, hlast]
      · by_cases hjk : j = k
        · subst hjk
          simp [World.backLinks, hj]
        · simp [World.backLinks, hj, hjk]
    · by_cases hj : j = i
      · subst hj
        simp [Ne.symm hk]
      · by_cases hjk : j = k
        · subst hjk
          simp [hj]
        · simp [hj, hjk]

theorem Appended.invariant (h : Appended i w w') (hw : ListInvariant w l) (hi : i ∉ l.opened)
    (hopened : (w.curs i).pBtree = true) :
    ListInvariant w' ⟨Function.update l.usage i .opened, l.opened ++ [i]⟩ := by
  have hne : ∀ j ∈ l.opened, j ≠ i := by
    rintro j hj rfl
    exact hi hj
  refine ⟨?_, ?_, ?_, ?_, fun j => ?_, fun j hj => ?_, fun j hj => ?_⟩
  · refine hw.linked.push hw.once ?_ ?_ ?_ ?_ ?_
    · rw [h.next, if_pos rfl]
    · rw [h.prev, if_pos rfl, hw.last]
    · intro j hj
      rw [h.next, if_neg (hne j (List.mem_of_getLast? hj)), hw.last, if_pos hj]
    · intro j hj hlast
      rw [h.next, if_neg (hne j hj), hw.last, if_neg hlast]
    · intro j hj
      rw [h.prev, if_neg (hne j hj)]
  · rw [List.nodup_append]
    exact ⟨hw.once, List.nodup_singleton i, fun j hj k hk => List.mem_singleton.mp hk ▸ hne j hj⟩
  · rw [h.first, hw.last, hw.first]
    cases l.opened with
    | nil => rfl
    | cons a as => simp
  · rw [h.last]
    simp
  · by_cases hj : j = i
    · subst hj
      simp
    · simp only [Function.update_of_ne hj, List.mem_append, List.mem_singleton, hj, or_false]
      exact hw.listed j
  · rw [h.owned]
    by_cases hji : j = i
    · subst hji
      exact hopened
    · simp only [Function.update_of_ne hji] at hj
      exact hw.owned j hj
  · by_cases hji : j = i
    · subst hji
      simp only [Function.update_self] at hj
      exact absurd hj (by decide)
    · simp only [Function.update_of_ne hji] at hj
      have hnot : j ∉ l.opened := by
        rcases hj with hj | hj
        · exact hw.not_mem hj (by decide)
        · exact hw.not_mem hj (by decide)
      obtain ⟨hnext, hprev⟩ := hw.unlinked j hj
      rw [h.next, h.prev, if_neg hji, if_neg hji, if_neg]
      · exact ⟨hnext, hprev⟩
      · rw [hw.last]
        exact fun heq => hnot (List.mem_of_getLast? heq)

/-- Only cursor `i` changes, and not its place in the list. -/
def Aside (i : ℕ) (w w' : World) : Prop := OthersKept i w w' ∧ LinksKept w w'

instance : Frame (Aside i) where
  refl w := ⟨Frame.refl w, Frame.refl w⟩
  trans h h' := ⟨Frame.trans h.1 h'.1, Frame.trans h.2 h'.2⟩

theorem aside_lmdb {α : Type} (m : Mdb α) : Keeps (Aside i) (lmdb m) := by
  intro w
  rw [ensures_lmdb, ensures_iff]
  exact ⟨fun _ _ _ => ⟨⟨rfl, fun _ _ => rfl⟩, fun _ => rfl, fun _ => rfl, fun _ => rfl, rfl, rfl⟩,
    fun _ _ => trivial⟩

theorem aside_setCur {f : BtCursor → BtCursor}
    (hf : ∀ c, (f c).next = c.next ∧ (f c).prev = c.prev ∧ (f c).pBtree = c.pBtree) :
    Keeps (Aside i) (setCur i f) := fun w =>
  ⟨⟨rfl, fun _ hj => Function.update_of_ne hj _ _⟩, linksKept_setCur i hf w⟩

theorem aside_getTable (iTable : ℕ) (create : Bool) : Keeps (Aside i) (getTable iTable create) := by
  refine Keeps.bind (.read _) fun p => .ite (.pure _) ?_
  cases p.svp with
  | nil => exact .pure _
  | cons s rest => exact aside_lmdb _

/-- The memory of cursor `i` belongs to the handle, but is not in the list. -/
def Tried (l : Ledger) (i : ℕ) (w : World) : Prop :=
  ListInvariant w { l with usage := Function.update l.usage i .failed } ∧ (w.curs i).pBtree = true

theorem Tried.aside (hw : Tried l i w) (h : Aside i w w') : Tried l i w' :=
  ⟨h.2.invariant hw.1, by rw [h.2.opened]; exact hw.2⟩

theorem Tried.record (hw : Tried l i w) {rc : Rc} (hrc : rc ≠ sqliteOk) (iTable : ℕ) (wrFlag : Bool)
    (keyInfo : Option KeyInfo) : ListInvariant w (l.record rc (.cursor i iTable wrFlag keyInfo)) := by
  rw [Ledger.record, if_neg hrc]
  exact hw.1

theorem cursor_invariant (hw : ListInvariant w l) (hi : l.usage i = .zeroed) (iTable : ℕ) (wrFlag : Bool)
    (keyInfo : Option KeyInfo) :
    Ensures (fun _ => True) (sqlite3BtreeCursor iTable wrFlag keyInfo i)
      (fun rc w' => ListInvariant w' (l.record rc (.cursor i iTable wrFlag keyInfo))) w := by
  have hnot := hw.not_mem hi (by decide)
  have hfailed : ∀ {rc : Rc}, rc ≠ 0 → errorMap rc ≠ sqliteOk := fun hrc hok => hrc ((errorMap_eq_ok _).mp hok)
  obtain ⟨hnext, hprev⟩ := hw.unlinked i (.inl hi)
  rw [sqlite3BtreeCursor, ensures_bind, ensures_getCur]
  refine Ensures.ite (fun hlinked => ?_) fun _ => ?_
  · rw [show (w.curs i).prev = none from hprev, show (w.curs i).next = none from hnext] at hlinked
    exact absurd hlinked (by decide)
  rw [ensures_bind]
  refine ((keeps_topTxn (R := Aside i)) w).imp fun txn w₁ h₁ => ?_
  rw [ensures_bind, ensures_setCur, ensures_bind]
  have htried : Tried l i { w₁ with curs := Function.update w₁.curs i { w₁.curs i with
      pBtree := true, keyInfo := keyInfo, rootPage := iTable, txn := some txn, cursor := none } } := by
    have hothers : OthersKept i w₁ { w₁ with curs := Function.update w₁.curs i { w₁.curs i with
        pBtree := true, keyInfo := keyInfo, rootPage := iTable, txn := some txn, cursor := none } } :=
      ⟨rfl, fun j hj => Function.update_of_ne hj _ _⟩
    refine ⟨hothers.invariant (h₁.2.invariant hw) hnot (by decide) (fun _ => ⟨?_, ?_⟩) fun _ => ?_, ?_⟩
    · simpa [World.links, h₁.2.next i] using hnext
    · simpa [World.backLinks, h₁.2.prev i] using hprev
    · simp
    · simp
  refine (aside_getTable (i := i) iTable false _).imp fun rc w₂ h₂ => ?_
  have htried₂ := htried.aside h₂
  refine Ensures.ite (fun hrc => htried₂.record (hfailed hrc) _ _ _) fun _ => ?_
  rw [ensures_bind]
  refine (aside_setCur (i := i) (f := fun c => { c with dbi := .table iTable }) (fun _ => ⟨rfl, rfl, rfl⟩) _).imp
    fun _ w₃ h₃ => ?_
  have htried₃ := htried₂.aside h₃
  rw [ensures_bind]
  refine (aside_lmdb (i := i) _ _).imp fun r w₄ h₄ => ?_
  have htried₄ := htried₃.aside h₄
  refine Ensures.ite (fun hrc => htried₄.record (hfailed hrc) _ _ _) fun _ => ?_
  rw [ensures_bind]
  refine (aside_setCur (i := i) (f := fun c => { c with cursor := some r.2, atEof := false })
    (fun _ => ⟨rfl, rfl, rfl⟩) _).imp fun _ w₅ h₅ => ?_
  rw [ensures_bind]
  refine (aside_lmdb (i := i) _ _).imp fun g w₆ h₆ => ?_
  have htried₆ := (htried₄.aside h₅).aside h₆
  -- the cursor is linked whether the table has a first entry or not
  have hlink : ∀ w₇, Tried l i w₇ → Ensures (fun _ => True) (do
      linkCursor i
      setCur i fun c => { c with wrFlag := wrFlag }
      pure sqliteOk)
      (fun rc w' => ListInvariant w' (l.record rc (.cursor i iTable wrFlag keyInfo))) w₇ := by
    intro w₇ h₇
    have hlast : w₇.p.lastCursor ≠ some i := by
      rw [h₇.1.last]
      exact fun heq => hnot (List.mem_of_getLast? heq)
    rw [ensures_bind]
    refine (linkCursor_spec hlast).imp fun _ w₈ h₈ => ?_
    have hlinked := h₈.invariant h₇.1 hnot h₇.2
    rw [Function.update_idem] at hlinked
    rw [ensures_bind]
    refine (aside_setCur (i := i) (f := fun c => { c with wrFlag := wrFlag }) (fun _ => ⟨rfl, rfl, rfl⟩) w₈).imp
      fun _ w₉ h₉ => ?_
    rw [ensures_pure, Ledger.record, if_pos rfl]
    exact h₉.2.invariant hlinked
  refine Ensures.ite (fun _ => ?_) fun _ => hlink w₆ htried₆
  rw [ensures_bind]
  exact (aside_setCur (i := i) (f := fun c => { c with atEof := true }) (fun _ => ⟨rfl, rfl, rfl⟩) w₆).imp
    fun _ w₇ h₇ => hlink w₇ (htried₆.aside h₇)

end Opening

section Closing

variable {w w' : World} {l : Ledger} {i : ℕ}

/-- The links after the memory of cursor `i` has been taken out of the list, wherever it was. -/
structure TakenOut (i : ℕ) (w w' : World) : Prop where
  first : w'.p.firstCursor = if w.backLinks i = none then w.links i else w.p.firstCursor
  last : w'.p.lastCursor = if w.links i = none then w.backLinks i else w.p.lastCursor
  next : ∀ j, w'.links j = if w.backLinks i = some j then w.links i else w.links j
  prev : ∀ j, w'.backLinks j = if w.links i = some j then w.backLinks i else w.backLinks j
  owned : ∀ j, j ≠ i → (w'.curs j).pBtree = (w.curs j).pBtree

theorem unlinkCursor_spec {E : Halt → Prop} : Ensures E (unlinkCursor i) (fun _ w' => TakenOut i w w') w := by
  rw [unlinkCursor, ensures_bind, ensures_getCur]
  cases hprev : (w.curs i).prev with
  | none =>
    rw [ensures_bind, ensures_setP]
    cases hnext : (w.curs i).next with
    | none =>
      rw [ensures_setP]
      refine ⟨?_, ?_, fun j => ?_, fun j => ?_, fun j _ => rfl⟩
      all_goals simp [World.links, World.backLinks, hprev, hnext]
    | some k =>
      rw [ensures_setCur]
      refine ⟨?_, ?_, fun j => ?_, fun j => ?_, fun j _ => ?_⟩
      all_goals
        simp only [World.links, World.backLinks, hprev, hnext, Function.update_apply]
        split_ifs <;> simp_all
  | some m =>
    rw [ensures_bind, ensures_setCur]
    cases hnext : (w.curs i).next with
    | none =>
      rw [ensures_setP]
      refine ⟨?_, ?_, fun j => ?_, fun j => ?_, fun j _ => ?_⟩
      all_goals
        simp only [World.links, World.backLinks, hprev, hnext, Function.update_apply]
        split_ifs <;> simp_all
    | some k =>
      rw [ensures_setCur]
      refine ⟨?_, ?_, fun j => ?_, fun j => ?_, fun j _ => ?_⟩
      all_goals
        simp only [World.links, World.backLinks, hprev, hnext, Function.update_apply]
        split_ifs <;> simp_all

/-- An open cursor is taken out of the list. -/
theorem TakenOut.invariant (h : TakenOut i w w') (hw : ListInvariant w l) (hi : l.usage i = .opened) :
    ListInvariant w' ⟨Function.update l.usage i .unused, l.opened.erase i⟩ := by
  obtain ⟨a, b, hab⟩ := List.append_of_mem ((hw.listed i).mpr hi)
  have hnodup := hw.once
  have hlinked := hw.linked
  rw [hab] at hnodup hlinked
  have hia : i ∉ a := fun hmem => (List.nodup_append.mp hnodup).2.2 i hmem i List.mem_cons_self rfl
  have hib : i ∉ b := (List.nodup_cons.mp (List.nodup_append.mp hnodup).2.1).1
  have herase : l.opened.erase i = a ++ b := by
    rw [hab, List.erase_append_right _ hia, List.erase_cons_head]
  obtain ⟨-, hprev, hnext, -⟩ := linked_cons_mid.mp hlinked
  rw [Option.or_none] at hprev hnext
  have hne : ∀ {j}, j ∈ a ++ b → j ≠ i := by
    rintro j hj rfl
    exact (List.mem_append.mp hj).elim hia hib
  refine ⟨?_, ?_, ?_, ?_, fun j => ?_, fun j hj => ?_, fun j hj => ?_⟩
  · rw [herase]
    refine hlinked.remove hnodup ?_ ?_ ?_ ?_
    · intro j hj
      rw [h.next, if_pos hj]
    · intro j hj
      rw [h.prev, if_pos hj]
    · intro j _ hj
      rw [h.next, if_neg hj]
    · intro j _ hj
      rw [h.prev, if_neg hj]
  · exact hw.once.erase i
  · rw [herase, h.first, hprev, hnext, hw.first, hab]
    cases a with
    | nil => simp
    | cons x a => simp
  · rw [herase, h.last, hprev, hnext, hw.last, hab]
    cases b with
    | nil => simp
    | cons x b => simp [List.getLast?_cons_cons]
  · by_cases hj : j = i
    · subst hj
      simp [herase, hia, hib]
    · simp only [Function.update_of_ne hj, List.mem_erase_of_ne hj]
      exact hw.listed j
  · by_cases hji : j = i
    · subst hji
      simp at hj
    · simp only [Function.update_of_ne hji] at hj
      rw [h.owned j hji]
      exact hw.owned j hj
  · by_cases hji : j = i
    · subst hji
      simp at hj
    · simp only [Function.update_of_ne hji] at hj
      have hnot : j ∉ l.opened := by
        rcases hj with hj | hj
        · exact hw.not_mem hj (by decide)
        · exact hw.not_mem hj (by decide)
      rw [hab] at hnot
      obtain ⟨hjnext, hjprev⟩ := hw.unlinked j hj
      rw [h.next, h.prev, if_neg, if_neg]
      · exact ⟨hjnext, hjprev⟩
      · rw [hnext]
        exact fun heq => hnot (by simp [List.mem_of_mem_head? heq])
      · rw [hprev]
        exact fun heq => hnot (by simp [List.mem_of_getLast? heq])

/-- The memory of a cursor that was never in the list is taken out of it. -/
theorem TakenOut.wiped (h : TakenOut i w w') (hw : ListInvariant w l) (hi : l.usage i = .failed) :
    w'.p.firstCursor = none ∧ w'.p.lastCursor = none := by
  obtain ⟨hnext, hprev⟩ := hw.unlinked i (.inr hi)
  rw [h.first, h.last, hnext, hprev, if_pos rfl]
  exact ⟨rfl, rfl⟩

theorem TakenOut.failed_invariant (h : TakenOut i w w') (hw : ListInvariant w l) (hi : l.usage i = .failed)
    (hnone : l.opened = []) : ListInvariant w' ⟨Function.update l.usage i .unused, l.opened.erase i⟩ := by
  obtain ⟨hnext, hprev⟩ := hw.unlinked i (.inr hi)
  obtain ⟨hfirst, hlast⟩ := h.wiped hw hi
  rw [hnone, List.erase_nil]
  refine ⟨trivial, List.nodup_nil, hfirst, hlast, fun j => ?_, fun j hj => ?_, fun j hj => ?_⟩
  all_goals by_cases hji : j = i
  · subst hji
    simp
  · simp only [Function.update_of_ne hji, ← hw.listed j, hnone]
  · subst hji
    simp at hj
  · simp only [Function.update_of_ne hji] at hj
    rw [h.owned j hji]
    exact hw.owned j hj
  · subst hji
    simp at hj
  · simp only [Function.update_of_ne hji] at hj
    rw [h.next, h.prev, hnext, hprev]
    simpa using hw.unlinked j hj

theorem TakenOut.kept {w₁ : World} (h : TakenOut i w w₁) (hk : LinksKept w₁ w') : TakenOut i w w' := by
  refine ⟨hk.first.trans h.first, hk.last.trans h.last, fun j => ?_, fun j => ?_, fun j hj => ?_⟩
  · exact (hk.next j).trans (h.next j)
  · exact (hk.prev j).trans (h.prev j)
  · exact (hk.opened j).trans (h.owned j hj)

theorem TakenOut.after {w₁ : World} (hk : LinksKept w w₁) (h : TakenOut i w₁ w') : TakenOut i w w' := by
  have hnext : w₁.links = w.links := funext hk.next
  have hprev : w₁.backLinks = w.backLinks := funext hk.prev
  refine ⟨?_, ?_, fun j => ?_, fun j => ?_, fun j hj => (h.owned j hj).trans (hk.opened j)⟩
  · rw [h.first, hnext, hprev, hk.first]
  · rw [h.last, hnext, hprev, hk.last]
  · rw [h.next, hnext, hprev]
  · rw [h.prev, hnext, hprev]

/-- The cursor gives up its handle. -/
theorem TakenOut.disown (h : TakenOut i w w') :
    TakenOut i w { w' with curs := Function.update w'.curs i { w'.curs i with pBtree := false } } := by
  refine ⟨h.first, h.last, fun j => ?_, fun j => ?_, fun j hj => ?_⟩
  · rw [← h.next]
    by_cases hj : j = i
    · subst hj
      simp [World.links]
    · simp [World.links, hj]
  · rw [← h.prev]
    by_cases hj : j = i
    · subst hj
      simp [World.backLinks]
    · simp [World.backLinks, hj]
  · rw [← h.owned j hj]
    simp [hj]

theorem closeCursor_takesOut (hopened : (w.curs i).pBtree = true) :
    Ensures (fun _ => True) (sqlite3BtreeCloseCursor i) (fun _ w' => TakenOut i w w') w := by
  have hend : ∀ w₁, LinksKept w w₁ → Ensures (fun _ => True) (do
      unlinkCursor i
      setCur i fun c => { c with pBtree := false }
      let p ← getP
      if p.single then do
        let _ ← sqlite3BtreeClose
        pure sqliteOk
      else pure sqliteOk)
      (fun _ w' => TakenOut i w w') w₁ := by
    intro w₁ h₁
    rw [ensures_bind]
    refine unlinkCursor_spec.imp fun _ w₂ h₂ => ?_
    rw [ensures_bind, ensures_setCur, ensures_bind, ensures_getP]
    have hout := (TakenOut.after h₁ h₂).disown
    refine Ensures.ite (fun _ => ?_) fun _ => hout
    exact (Keeps.bind (built_close.keeps ClosePart.links) (fun _ => .pure _) _).imp fun _ w₃ h₃ => hout.kept h₃
  have hforget : ∀ w₁, LinksKept w w₁ → Ensures (fun _ => True) (do
      setCur i fun c => { c with savedKey := none }
      if (w.curs i).pBtree then do
        unlinkCursor i
        setCur i fun c => { c with pBtree := false }
        let p ← getP
        if p.single then do
          let _ ← sqlite3BtreeClose
          pure sqliteOk
        else pure sqliteOk
      else pure sqliteOk)
      (fun _ w' => TakenOut i w w') w₁ := by
    intro w₁ h₁
    rw [ensures_bind, hopened, if_pos rfl]
    exact (linksKept_setCur i (f := fun c => { c with savedKey := none }) (fun _ => ⟨rfl, rfl, rfl⟩) w₁).imp
      fun _ w₂ h₂ => hend w₂ (Frame.trans h₁ h₂)
  rw [sqlite3BtreeCloseCursor, ensures_bind, ensures_getCur]
  refine Ensures.ite (fun _ => ?_) fun _ => hforget w (Frame.refl w)
  rw [ensures_bind]
  refine (linksKept_lmdb _ w).imp fun _ w₁ h₁ => ?_
  rw [ensures_bind]
  exact (linksKept_setCur i (f := fun c => { c with cursor := none }) (fun _ => ⟨rfl, rfl, rfl⟩) w₁).imp
    fun _ w₂ h₂ => hforget w₂ (Frame.trans h₁ h₂)

end Closing

/-- A cursor whose open failed is closed only when no cursor is open. -/
def Ledger.ClosesSafely (l : Ledger) (k : CursorCall) : Prop :=
  ∀ i, k = .close i → l.usage i = .failed → l.opened = []

section Runs

variable {E : Halt → Prop} {w : World} {l : Ledger}

theorem ensures_ledgerStep (k : CursorCall) (Q : Rc → World × Ledger → Prop) (s : World × Ledger) :
    Ensures E (ledgerStep k) Q s ↔ Ensures E k.run (fun rc w' => Q rc (w', s.2.record rc k)) s.1 := by
  rw [ledgerStep, ensures_bind, ensures_zoom]
  rfl

theorem call_invariant (hw : ListInvariant w l) (k : CursorCall) (hallows : l.Allows k) (hsafe : l.ClosesSafely k) :
    Ensures (fun _ => True) k.run (fun rc w' => ListInvariant w' (l.record rc k)) w := by
  cases k with
  | zero i => exact zero_invariant hw hallows
  | cursor i iTable wrFlag keyInfo => exact cursor_invariant hw hallows iTable wrFlag keyInfo
  | close i =>
    refine (closeCursor_takesOut (hw.owned i hallows)).imp fun rc w' hout => ?_
    rcases hallows with hi | hi
    · exact hout.invariant hw hi
    · exact hout.failed_invariant hw hi (hsafe i rfl hi)

theorem ListInvariant.start (hfirst : w.p.firstCursor = none) (hlast : w.p.lastCursor = none) :
    ListInvariant w .empty := by
  refine ⟨trivial, List.nodup_nil, hfirst, hlast, fun i => ?_, fun i hi => ?_, fun i hi => ?_⟩
  · simp [Ledger.empty]
  · simp [Ledger.empty] at hi
  · simp [Ledger.empty] at hi

end Runs

/-- A write transaction on a database with the table `3`, and no cursors. -/
def noCursors : World := { emptyTable false with
  p := { (emptyTable false).p with firstCursor := none, lastCursor := none }
  curs := fun _ => .zero
  nCurs := 0 }

end LumoSql.Btree
