import LumoSql.RowidTables

/-! The order in which a rowid table is seen through a cursor, and when it is the order of
the signed rowids. -/
namespace LumoSql.Btree
open StateLogic Lmdb RowidEncoding SortedEntries

/-- The rowid of an entry. -/
def rowidOf (fixedRowid : Bool) (e : Bytes × Bytes) : ℤ := toI64 (get8 fixedRowid e.1)

/-- The rowids stored in a table. -/
def World.stored (w : World) (n : ℕ) : List ℤ := (w.rows n).map (rowidOf w.fixedRowid)

/-- Read the rowid under the cursor and go on until there is no next entry. -/
def scanRest (i : ℕ) : ℕ → Call (List ℤ)
  | 0 => Prog.halt .diverges
  | fuel + 1 => do
    let key ← sqlite3BtreeIntegerKey i
    let rc ← sqlite3BtreeNext i
    if rc ≠ sqliteOk then pure [key]
    else do
      let rest ← scanRest i fuel
      pure (key :: rest)

def scan (i fuel : ℕ) : Call (List ℤ) := do
  let r ← sqlite3BtreeFirst i
  if r.2 = some 0 then scanRest i fuel else pure []

/-- The rowid `sqlite3BtreeLast` stops on, if the table is not empty. -/
def lastKey (i : ℕ) : Call (Option ℤ) := do
  let r ← sqlite3BtreeLast i
  if r.2 = some 0 then do
    let key ← sqlite3BtreeIntegerKey i
    pure (some key)
  else pure none

/-- `*pRes` and the rowid the cursor is left on. -/
def seekKey (i : ℕ) (intKey : ℤ) : Call (ℤ × ℤ) := do
  let r ← sqlite3BtreeTableMoveto i intKey
  let key ← sqlite3BtreeIntegerKey i
  pure (r.2, key)

section Reading

variable {w : World} {n i h : ℕ} {c : MdbCursor}

/-- The world after a call that moved cursor `i` and nothing else. -/
structure Placed (w : World) (n i h : ℕ) (c : MdbCursor) (pos : Position) (w' : World) : Prop where
  build : w'.fixedRowid = w.fixedRowid
  rows : w'.rows n = w.rows n
  calm : w'.env.Calm
  cursor : TableCursor w' n i h { c with pos := pos }

theorem TableCursor.placed (hc : TableCursor w n i h c) (hcalm : w.env.Calm) (pos : Position) :
    Placed w n i h c pos (w.moveCursor h c pos) := by
  have hm := hc.moves pos
  refine ⟨hm.build, hm.rows n, ?_, ⟨hc.opened, hc.untripped, hc.unsaved, hc.isTable, hc.handle, ?_,
    hc.db, ?_⟩⟩
  · rw [World.moveCursor, hcalm.pop]
    exact hcalm
  · rw [World.moveCursor, Env.setCursor]
    exact Function.update_self _ _ _
  · rw [hm.writers]
    exact hc.writer

theorem Placed.atEof {pos : Position} {w' : World} (h' : Placed w n i h c pos w') (b : Bool) :
    Placed w n i h c pos
      { w' with curs := Function.update w'.curs i { w'.curs i with atEof := b } } := by
  have hc := h'.cursor
  refine ⟨h'.build, h'.rows, h'.calm, ⟨?_, ?_, ?_, ?_, ?_, hc.live, hc.db, hc.writer⟩⟩
  all_goals simp only [Function.update_self]
  · exact hc.opened
  · exact hc.untripped
  · exact hc.unsaved
  · exact hc.isTable
  · exact hc.handle

theorem TableCursor.get_calm (hc : TableCursor w n i h c) (hcalm : w.env.Calm) (op : CursorOp)
    {E : Halt → Prop} {Q : Rc × Bytes × Bytes → World → Prop}
    (hQ : ∀ w', Placed w n i h c (op.move (w.rows n) c.pos).1 w' → w'.curs = w.curs →
      Q (op.move (w.rows n) c.pos).2 w') :
    Ensures E (lmdb (mdbCursorGet (some h) op)) Q w := by
  rw [hc.ensures_get, hcalm.head, if_neg (not_not.mpr rfl)]
  exact hQ _ (hc.placed hcalm _) rfl

theorem integerKey_calm (hc : TableCursor w n i h c) (hcalm : w.env.Calm)
    (hinit : c.pos.initialized = true) {e : Bytes × Bytes} (he : (w.rows n)[c.pos.index]? = some e)
    {E : Halt → Prop} :
    Ensures E (sqlite3BtreeIntegerKey i) (fun key w' => key = rowidOf w.fixedRowid e ∧
      Placed w n i h c { c.pos with deleted := false } w') w := by
  have hmove : CursorOp.getCurrent.move (w.rows n) c.pos =
      ({ c.pos with deleted := false }, 0, e.1, e.2) := by
    simp only [CursorOp.move, moveCurrent, hinit, Bool.not_true, Bool.false_eq_true, if_false, he]
  rw [sqlite3BtreeIntegerKey, ensures_bind, ensures_getCur, ensures_bind, ensures_build, hc.unsaved,
    hc.handle, ensures_bind]
  refine hc.get_calm hcalm _ fun w' hp _ => ?_
  rw [hmove] at hp ⊢
  refine ⟨?_, hp⟩
  rw [if_neg (not_not.mpr rfl), rowidOf]

theorem cursorMove_calm (hc : TableCursor w n i h c) (hcalm : w.env.Calm) (op : CursorOp)
    (reposition : Bool) {pos : Position} {kv : Bytes × Bytes} {E : Halt → Prop} :
    (op.move (w.rows n) c.pos = (pos, 0, kv) →
      Ensures E (cursorMove i op reposition) (fun r w' => r = (sqliteOk, some 0) ∧
        Placed w n i h c pos w' ∧ (w'.curs i).atEof = false) w) ∧
    (op.move (w.rows n) c.pos = (pos, mdbNotfound, kv) →
      Ensures E (cursorMove i op reposition) (fun r w' => r = (sqliteOk, some 1) ∧
        Placed w n i h c pos w' ∧ (w'.curs i).atEof = true) w) := by
  constructor
  all_goals
    intro hmove
    rw [cursorMove, ensures_bind, hc.ensures_restore, if_neg (by decide), ensures_bind,
      ensures_getCur, hc.handle, ensures_bind]
    refine hc.get_calm hcalm _ fun w' hp _ => ?_
    rw [hmove] at hp ⊢
  · exact ⟨rfl, hp.atEof false, by simp⟩
  · dsimp only
    rw [if_neg (by decide), if_neg (by decide)]
    exact ⟨rfl, hp.atEof true, by simp⟩

theorem next_calm (hc : TableCursor w n i h c) (hcalm : w.env.Calm) {k : ℕ}
    (hpos : c.pos = ⟨true, false, false, k⟩) {E : Halt → Prop} :
    (k + 1 < (w.rows n).length → Ensures E (sqlite3BtreeNext i) (fun rc w' =>
      rc = sqliteOk ∧ Placed w n i h c ⟨true, false, false, k + 1⟩ w') w) ∧
    ((w.rows n).length ≤ k + 1 → Ensures E (sqlite3BtreeNext i) (fun rc w' =>
      rc = sqliteDone ∧ ∃ pos, Placed w n i h c pos w') w) := by
  constructor
  · intro hlt
    have hmove : CursorOp.next.move (w.rows n) c.pos =
        (⟨true, false, false, k + 1⟩, 0, (w.rows n)[k + 1]) := by
      rw [CursorOp.move, moveNext, hpos]
      simp [Nat.not_le.mpr hlt, land, List.getElem?_eq_getElem hlt]
    rw [sqlite3BtreeNext, cursorStep, ensures_bind]
    refine ((cursorMove_calm hc hcalm .next true).1 hmove).imp fun r w' hr => ?_
    obtain ⟨rfl, hp, heof⟩ := hr
    rw [if_neg (by decide), ensures_bind, ensures_getCur, heof]
    exact ⟨rfl, hp⟩
  · intro hle
    have hmove : CursorOp.next.move (w.rows n) c.pos =
        (⟨true, true, false, k⟩, mdbNotfound, [], []) := by
      rw [CursorOp.move, moveNext, hpos]
      simp [hle]
    rw [sqlite3BtreeNext, cursorStep, ensures_bind]
    refine ((cursorMove_calm hc hcalm .next true).2 hmove).imp fun r w' hr => ?_
    obtain ⟨rfl, hp, heof⟩ := hr
    rw [if_neg (by decide), ensures_bind, ensures_getCur, heof]
    exact ⟨rfl, _, hp⟩

/-- From entry `k` on, a scan yields the rowids in the order of the entries. -/
theorem scanRest_spec (fuel k : ℕ) {w : World} {c : MdbCursor} (hc : TableCursor w n i h c)
    (hcalm : w.env.Calm) (hpos : c.pos = ⟨true, false, false, k⟩) (hlt : k < (w.rows n).length)
    (hfuel : (w.rows n).length ≤ k + fuel) {E : Halt → Prop} :
    Ensures E (scanRest i fuel) (fun keys _ =>
      keys = ((w.rows n).drop k).map (rowidOf w.fixedRowid)) w := by
  induction fuel generalizing w c k with
  | zero => omega
  | succ fuel ih =>
    have hinit : c.pos.initialized = true := by rw [hpos]
    have he : (w.rows n)[c.pos.index]? = some (w.rows n)[k] := by
      rw [hpos]
      exact List.getElem?_eq_getElem hlt
    have hdrop := List.drop_eq_getElem_cons hlt
    rw [scanRest, ensures_bind]
    refine (integerKey_calm hc hcalm hinit he).imp fun key w₁ hkey => ?_
    obtain ⟨hval, hp⟩ := hkey
    rw [hpos] at hp
    rw [ensures_bind]
    by_cases hend : (w.rows n).length ≤ k + 1
    · refine ((next_calm hp.cursor hp.calm rfl).2 (by rw [hp.rows]; exact hend)).imp
        fun rc w₂ hr => ?_
      obtain ⟨rfl, _⟩ := hr
      have hdone : sqliteDone ≠ sqliteOk := by decide
      rw [if_pos hdone, ensures_pure, hval, hdrop, List.drop_of_length_le hend, List.map_cons,
        List.map_nil]
    · refine ((next_calm hp.cursor hp.calm rfl).1
        (by rw [hp.rows]; exact Nat.lt_of_not_le hend)).imp
          fun rc w₂ hr => ?_
      obtain ⟨rfl, hp₂⟩ := hr
      rw [if_neg (by decide), ensures_bind]
      have hrows : w₂.rows n = w.rows n := hp₂.rows.trans hp.rows
      refine (ih (k + 1) hp₂.cursor hp₂.calm rfl (by rw [hrows]; omega)
        (by rw [hrows]; omega)).imp fun keys _ hkeys => ?_
      rw [hrows, hp₂.build, hp.build] at hkeys
      rw [ensures_pure, hkeys, hval, hdrop, List.map_cons]

theorem scan_spec (hi : OnTable w n i) (hcalm : w.env.Calm) {fuel : ℕ}
    (hfuel : (w.rows n).length ≤ fuel) {E : Halt → Prop} :
    Ensures E (scan i fuel) (fun keys _ => keys = w.stored n) w := by
  obtain ⟨h, c, hc⟩ := hi
  rw [scan, ensures_bind]
  cases hrows : w.rows n with
  | nil =>
    have hmove : CursorOp.first.move (w.rows n) c.pos =
        (⟨false, true, false, 0⟩, mdbNotfound, [], []) := by
      rw [hrows]
      rfl
    refine ((cursorMove_calm hc hcalm .first false).2 hmove).imp fun r w' hr => ?_
    obtain ⟨rfl, _⟩ := hr
    rw [if_neg (by simp), ensures_pure, World.stored, hrows, List.map_nil]
  | cons e es =>
    have hmove : CursorOp.first.move (w.rows n) c.pos = (⟨true, false, false, 0⟩, 0, e) := by
      rw [hrows]
      rfl
    refine ((cursorMove_calm hc hcalm .first false).1 hmove).imp fun r w' hr => ?_
    obtain ⟨rfl, hp, _⟩ := hr
    rw [if_pos rfl]
    refine (scanRest_spec fuel 0 hp.cursor hp.calm rfl (by rw [hp.rows, hrows]; simp)
      (by rw [hp.rows]; omega)).imp fun keys _ hkeys => ?_
    rw [hkeys, hp.rows, hp.build, List.drop_zero, World.stored]

theorem lastKey_spec (hi : OnTable w n i) (hcalm : w.env.Calm) {E : Halt → Prop} :
    Ensures E (lastKey i) (fun o _ => o = (w.stored n).getLast?) w := by
  obtain ⟨h, c, hc⟩ := hi
  rw [lastKey, ensures_bind]
  by_cases hnil : w.rows n = []
  · have hmove : CursorOp.last.move (w.rows n) c.pos =
        (⟨false, true, false, 0⟩, mdbNotfound, [], []) := by
      rw [hnil]
      rfl
    refine ((cursorMove_calm hc hcalm .last false).2 hmove).imp fun r w' hr => ?_
    obtain ⟨rfl, _⟩ := hr
    rw [if_neg (by simp), ensures_pure, World.stored, hnil, List.map_nil]
    rfl
  · have hlt : (w.rows n).length - 1 < (w.rows n).length := by
      have := List.length_pos_iff.mpr hnil
      omega
    have he := List.getElem?_eq_getElem hlt
    have hmove : CursorOp.last.move (w.rows n) c.pos =
        (⟨true, true, false, (w.rows n).length - 1⟩, 0, (w.rows n)[(w.rows n).length - 1]) := by
      rw [CursorOp.move, land, he]
    refine ((cursorMove_calm hc hcalm .last false).1 hmove).imp fun r w' hr => ?_
    obtain ⟨rfl, hp, _⟩ := hr
    rw [if_pos rfl, ensures_bind]
    refine (integerKey_calm hp.cursor hp.calm rfl (by rw [hp.rows]; exact he)).imp
      fun key _ hkey => ?_
    rw [ensures_pure, hkey.1, hp.build, World.stored, List.getLast?_eq_getElem?, List.length_map,
      List.getElem?_map, he]
    rfl

/-- With no failure a seek stops on the first entry that is not below the rowid. -/
theorem seekKey_spec (hi : OnTable w n i) (hcalm : w.env.Calm) (intKey : ℤ) {E : Halt → Prop} :
    Ensures E (seekKey i intKey) (fun r _ =>
      match (w.rows n)[lowerBound (rowidProbe w.fixedRowid (put8 w.fixedRowid (toU64 intKey)))
        (w.rows n)]? with
      | some e => r = (if toU64 intKey ≠ get8 w.fixedRowid e.1 then 1 else 0,
          rowidOf w.fixedRowid e)
      | none => r.1 = -1) w := by
  obtain ⟨h, c, hc⟩ := hi
  have hplaced : Placed w n i h c c.pos w := ⟨rfl, rfl, hcalm, hc⟩
  have hflag := hplaced.atEof false
  have hc' := hflag.cursor
  rw [seekKey, ensures_bind, sqlite3BtreeTableMoveto, ensures_bind, hc.ensures_restore,
    if_neg (by decide), ensures_bind, ensures_setCur, ensures_bind, ensures_getCur, hc'.handle,
    ensures_bind, ensures_build, ensures_bind]
  refine hc'.get_calm hflag.calm _ fun w' hp _ => ?_
  rw [hflag.rows, CursorOp.move, moveSetRange, land] at hp ⊢
  cases he : (w.rows n)[lowerBound
      (rowidProbe w.fixedRowid (put8 w.fixedRowid (toU64 intKey))) (w.rows n)]? with
  | some e =>
    simp only [he] at hp ⊢
    rw [if_pos trivial, ensures_pure, ensures_bind]
    refine (integerKey_calm hp.cursor hp.calm rfl (by rw [hp.rows, hflag.rows]; exact he)).imp
      fun key _ hkey => ?_
    rw [ensures_pure, hkey.1, hp.build]
  | none =>
    simp only [he] at hp ⊢
    rw [if_neg (by decide), if_neg (by decide), ensures_bind]
    refine hp.cursor.get_calm hp.calm .first fun w₂ hp₂ _ => ?_
    rw [ensures_pure, ensures_bind, sqlite3BtreeIntegerKey, ensures_bind, ensures_getCur,
      ensures_bind, ensures_build, hp₂.cursor.unsaved, hp₂.cursor.handle, ensures_bind]
    exact hp₂.cursor.get_calm hp₂.calm .getCurrent fun _ _ _ => rfl

end Reading

/-- The world when no call to come fails. -/
def World.calm (w : World) : World := { w with env := { w.env with answers := fun _ => [] } }

/-- A scan, the last entry and a seek agree with the order of the signed rowids. -/
structure RowidOrder (w : World) (n i : ℕ) : Prop where
  scan : ∀ fuel, (w.rows n).length ≤ fuel → Ensures (fun _ => False) (scan i fuel) (fun keys _ =>
    (∀ r, r ∈ keys ↔ r ∈ w.stored n) ∧ keys.Pairwise (· < ·)) w
  last : Ensures (fun _ => False) (lastKey i) (fun o _ => o = (w.stored n).max?) w
  seek : ∀ intKey, -2 ^ 63 ≤ intKey → intKey < 2 ^ 63 →
    Ensures (fun _ => False) (seekKey i intKey) (fun r _ => 0 < r.1 → intKey < r.2) w

theorem rowidOf_lt (fixedRowid : Bool) (e : Bytes × Bytes) : rowidOf fixedRowid e < 2 ^ 63 := by
  have h := Int.bmod_lt (x := (get8 fixedRowid e.1 : ℤ)) (m := 2 ^ 64) (by decide)
  exact h

section Order

variable {fixedRowid : Bool} {es : Entries} {e : Bytes × Bytes}

theorem RowTable.get8_lt (h : RowTable fixedRowid es) (he : e ∈ es) :
    get8 fixedRowid e.1 < 2 ^ 64 := by
  obtain ⟨v, hv, hkey⟩ := h.keys e he
  rw [hkey, get8_put8 fixedRowid hv]
  exact hv

theorem rowidOf_eq (hlt : get8 fixedRowid e.1 < 2 ^ 63) :
    rowidOf fixedRowid e = get8 fixedRowid e.1 := toI64_natCast hlt

/-- The negative rowids are the keys of the upper half. -/
theorem RowTable.rowidOf_nonneg_iff (h : RowTable fixedRowid es) (he : e ∈ es) :
    0 ≤ rowidOf fixedRowid e ↔ get8 fixedRowid e.1 < 2 ^ 63 :=
  toI64_nonneg_iff (h.get8_lt he)

/-- On a table without negative rowids both orders are the same. -/
theorem RowTable.pairwise_rowidOf (h : RowTable fixedRowid es)
    (hnonneg : ∀ e ∈ es, 0 ≤ rowidOf fixedRowid e) :
    (es.map (rowidOf fixedRowid)).Pairwise (· < ·) := by
  rw [List.pairwise_map]
  refine h.ascending.imp_of_mem fun {a b} ha hb hlt => ?_
  rw [rowidOf_eq ((h.rowidOf_nonneg_iff ha).mp (hnonneg a ha)),
    rowidOf_eq ((h.rowidOf_nonneg_iff hb).mp (hnonneg b hb))]
  exact Int.ofNat_lt.mpr hlt

end Order

theorem getLast?_eq_max? {l : List ℤ} (h : l.Pairwise (· < ·)) : l.getLast? = l.max? := by
  cases hl : l.getLast? with
  | none =>
    rw [List.getLast?_eq_none_iff.mp hl]
    rfl
  | some a =>
    obtain ⟨ys, rfl⟩ := List.getLast?_eq_some_iff.mp hl
    have hlt := (List.pairwise_append.mp h).2.2
    refine (List.max?_eq_some_iff.mpr ⟨by simp, fun b hb => ?_⟩).symm
    rcases List.mem_append.mp hb with hb | hb
    · exact le_of_lt (hlt b hb a (by simp))
    · exact le_of_eq (List.mem_singleton.mp hb)

section Signed

variable {w : World} {n i : ℕ}

theorem rowidOrder_of_nonneg (hi : OnTable w n i) (hcalm : w.env.Calm)
    (hrows : RowTable w.fixedRowid (w.rows n)) (hnonneg : ∀ r ∈ w.stored n, 0 ≤ r) :
    RowidOrder w n i := by
  have hes : ∀ e ∈ w.rows n, 0 ≤ rowidOf w.fixedRowid e := fun e he =>
    hnonneg _ (List.mem_map_of_mem he)
  have hsorted := hrows.pairwise_rowidOf hes
  refine ⟨fun fuel hfuel => ?_, ?_, fun intKey hlo hhi => ?_⟩
  · refine (scan_spec hi hcalm hfuel).imp fun keys _ hkeys => ?_
    rw [hkeys]
    exact ⟨fun _ => Iff.rfl, hsorted⟩
  · refine (lastKey_spec hi hcalm).imp fun o _ ho => ?_
    rw [ho]
    exact getLast?_eq_max? hsorted
  · refine (seekKey_spec hi hcalm intKey).imp fun r _ hr hpos => ?_
    cases he : (w.rows n)[lowerBound
        (rowidProbe w.fixedRowid (put8 w.fixedRowid (toU64 intKey))) (w.rows n)]? with
    | none =>
      rw [he] at hr
      omega
    | some e =>
      simp only [he] at hr
      have hmem := List.mem_of_getElem? he
      have hle := le_rank_of_lowerBound (hrows.probes (toU64_lt intKey)) he
      have hkey := (hrows.rowidOf_nonneg_iff hmem).mp (hes e hmem)
      have hne : toU64 intKey ≠ get8 w.fixedRowid e.1 := by
        intro heq
        rw [hr, if_neg (not_not.mpr heq)] at hpos
        exact lt_irrefl _ hpos
      rw [hr, rowidOf_eq hkey]
      rw [toU64] at hle hne
      omega

/-- A negative rowid shows in a seek for the largest rowid or, when that is stored, in a scan. -/
theorem nonneg_of_rowidOrder (hi : OnTable w n i) (hcalm : w.env.Calm)
    (hrows : RowTable w.fixedRowid (w.rows n)) (horder : RowidOrder w n i) :
    ∀ r ∈ w.stored n, 0 ≤ r := by
  intro r hr
  by_contra hneg
  obtain ⟨e, he, rfl⟩ := List.mem_map.mp hr
  have hkey : 2 ^ 63 ≤ get8 w.fixedRowid e.1 := by
    have := (hrows.rowidOf_nonneg_iff he).not.mp hneg
    omega
  obtain ⟨k, hk, rfl⟩ := List.getElem_of_mem he
  have hmax : toU64 (2 ^ 63 - 1) = 2 ^ 63 - 1 := by rw [toU64]; omega
  have hprobes := hrows.probes (toU64_lt (2 ^ 63 - 1))
  set lb := lowerBound (rowidProbe w.fixedRowid (put8 w.fixedRowid (toU64 (2 ^ 63 - 1))))
    (w.rows n) with hlb
  have hfound : lb < (w.rows n).length := by
    by_contra hge
    have := rank_lt_of_lt_lowerBound hprobes (i := k) (by omega) (List.getElem?_eq_getElem hk)
    omega
  have hentry := List.getElem?_eq_getElem hfound
  obtain ⟨res, w', -, hseek, hspec⟩ := ((horder.seek (2 ^ 63 - 1) (by omega) (by omega)).and
    (seekKey_spec (E := fun _ => False) hi hcalm (2 ^ 63 - 1))).result
  rw [← hlb, hentry] at hspec
  simp only at hspec
  have hlt := rowidOf_lt w.fixedRowid (w.rows n)[lb]
  by_cases heq : toU64 (2 ^ 63 - 1) = get8 w.fixedRowid (w.rows n)[lb].1
  · -- the largest rowid is stored and comes before the negative one
    have horder' := List.pairwise_iff_getElem.mp hrows.ascending
    have hbefore : lb < k := by
      by_contra hge
      rcases Nat.lt_or_eq_of_le (Nat.le_of_not_lt hge) with hlt' | rfl
      · have := horder' _ _ hk hfound hlt'
        omega
      · omega
    obtain ⟨keys, w'', -, ⟨_, hsorted⟩, hkeys⟩ := ((horder.scan _ le_rfl).and
      (scan_spec (E := fun _ => False) hi hcalm le_rfl)).result
    rw [hkeys, World.stored, List.pairwise_map] at hsorted
    have hrank := List.pairwise_iff_getElem.mp hsorted _ _ hfound hk hbefore
    rw [rowidOf_eq (by omega), ← heq, hmax] at hrank
    omega
  · rw [hspec, if_pos heq] at hseek
    have := hseek Int.one_pos
    simp only at this
    omega

end Signed

theorem mem_stored {w : World} {n : ℕ} {r : ℤ} :
    r ∈ w.stored n ↔ ∃ v, toI64 v = r ∧ ∃ e ∈ w.rows n, get8 w.fixedRowid e.1 = v := by
  rw [World.stored, List.mem_map]
  refine Iff.intro (fun ⟨e, he, hr⟩ => ⟨_, hr, e, he, rfl⟩) fun ⟨v, hr, e, he, hv⟩ => ⟨e, he, ?_⟩
  rw [rowidOf, hv, hr]

/-- An insertion adds its rowid to those stored. -/
theorem Inserted.mem_stored {w w' : World} {n : ℕ} {key : ℤ} {data : Bytes}
    (h : Inserted w n key data w') (hrows : RowTable w.fixedRowid (w.rows n)) (r : ℤ) :
    r ∈ w'.stored n ↔ r = toI64 (toU64 key) ∨ r ∈ w.stored n := by
  have hkey := get8_put8 w.fixedRowid (toU64_lt key)
  have hover : ∀ o : Bytes × Bytes, get8 w.fixedRowid o.1 = toU64 key →
      get8 w.fixedRowid (overwrite (put8 w.fixedRowid (toU64 key)) data o).1 = toU64 key := by
    intro o ho
    rw [overwrite]
    split_ifs
    · exact ho
    · exact hkey
  have hplace := mem_place_iff (hrows.probes (toU64_lt key)) (e := (put8 w.fixedRowid (toU64 key), data))
    hkey hover
  rw [Btree.mem_stored, Btree.mem_stored, h.rows, h.build]
  simp only [hplace]
  constructor
  · rintro ⟨v, hr, rfl | hold⟩
    · exact .inl hr.symm
    · exact .inr ⟨v, hr, hold⟩
  · rintro (hr | ⟨v, hr, hold⟩)
    · exact ⟨_, hr.symm, .inl rfl⟩
    · exact ⟨v, hr, .inr hold⟩

theorem Moves.stored {w w' : World} (h : Moves w w') (n : ℕ) : w'.stored n = w.stored n := by
  rw [World.stored, World.stored, h.rows n, h.build]

/-- No rowid becomes negative by a call that inserts none. -/
theorem RowEffect.stored_nonneg {n : ℕ} {w w' : World} {call : RowCall}
    (h : RowEffect n w w' call) (hrows : RowTable w.fixedRowid (w.rows n))
    (hcall : ∀ pX, call = .insert pX → 0 ≤ pX.nKey ∧ pX.nKey < 2 ^ 63)
    (hw : ∀ r ∈ w.stored n, 0 ≤ r) : ∀ r ∈ w'.stored n, 0 ≤ r := by
  cases h with
  | moves hm =>
    rw [hm.stored n]
    exact hw
  | inserted pX hins =>
    intro r hr
    rcases (hins.mem_stored hrows r).mp hr with hnew | hold
    · obtain ⟨hlo, hhi⟩ := hcall pX rfl
      rw [hnew, toI64_toU64 (by omega) hhi]
      exact hlo
    · exact hw r hold
  | deleted hdel =>
    obtain ⟨k, _, herase⟩ := hdel.rows
    intro r hr
    rw [World.stored, herase, hdel.build] at hr
    exact hw r (List.map_subset _ (List.eraseIdx_subset) hr)

/-- A rowid table on which both orders are the same. -/
structure NonnegTable (n : ℕ) (cursors : Set ℕ) (w : World) : Prop
    extends RowInvariant n cursors w where
  nonneg : ∀ r ∈ w.stored n, 0 ≤ r

/-- A run that inserts no negative rowid keeps the order. -/
theorem rowidOrder_of_run {n : ℕ} {cursors : Set ℕ} {w w' : World} (hw : NonnegTable n cursors w)
    {calls : List (ℕ × RowCall × Answers)}
    (hrun : Run rowStep (fun k _ => k.1 ∈ cursors ∧
      ∀ pX, k.2.1 = .insert pX → 0 ≤ pX.nKey ∧ pX.nKey < 2 ^ 63) w calls w')
    {i : ℕ} (hi : i ∈ cursors) : RowidOrder w'.calm n i := by
  have hinv : NonnegTable n cursors w' := by
    refine hrun.invariant (fun k s hs hk => ?_) hw
    refine (rowStep_effect hs.toRowInvariant hk.1).imp fun _ _ ⟨w₁, hm, heff⟩ => ?_
    have hw₁ := hm.invariant hs.toRowInvariant
    refine ⟨heff.invariant hw₁, heff.stored_nonneg hw₁.rows hk.2 ?_⟩
    rw [hm.stored n]
    exact hs.nonneg
  have hw' := (Moves.answers w' fun _ => []).invariant hinv.toRowInvariant
  exact rowidOrder_of_nonneg (hw'.onTable i hi) (fun _ => rfl) hw'.rows hinv.nonneg

/-- After any run the order of the signed rowids is seen exactly when none of those stored is
negative. -/
theorem rowidOrder_iff_nonneg {n : ℕ} {cursors : Set ℕ} {w w' : World}
    (hw : RowInvariant n cursors w) {calls : List (ℕ × RowCall × Answers)}
    (hrun : Run rowStep (fun k _ => k.1 ∈ cursors) w calls w') {i : ℕ} (hi : i ∈ cursors) :
    RowidOrder w'.calm n i ↔ ∀ r ∈ w'.stored n, 0 ≤ r := by
  have hw' := (Moves.answers w' fun _ => []).invariant (rows_invariant hw hrun)
  have hcalm : w'.calm.env.Calm := fun _ => rfl
  exact ⟨nonneg_of_rowidOrder (hw'.onTable i hi) hcalm hw'.rows,
    rowidOrder_of_nonneg (hw'.onTable i hi) hcalm hw'.rows⟩

/-- A write transaction on a database with the empty rowid table `3` and cursor `0` on it. -/
def emptyTable (fixedRowid : Bool) : World where
  fixedRowid := fixedRowid
  env := {
    disk := ⟨fun _ => none, true⟩
    readonly := false
    writers := [⟨0, fun db => if db = .table 3 then some [] else none, fun _ => none⟩]
    readers := []
    cursors := fun h => if h = 1 then some ⟨0, .table 3, .unset⟩ else none
    next := 2
    answers := fun _ => []
    tracking := .entries }
  p := ⟨false, false, false, transactionOptimistic, 0, .write, [⟨0, -1⟩], true, some 0, some 0,
    false⟩
  curs := fun _ =>
    { BtCursor.zero with pBtree := true, rootPage := 3, txn := some 0, cursor := some 1 }
  nCurs := 1

theorem emptyTable_invariant (fixedRowid : Bool) : RowInvariant 3 {0} (emptyTable fixedRowid) where
  onTable i hi := by
    obtain rfl := Set.mem_singleton_iff.mp hi
    exact ⟨1, ⟨0, .table 3, .unset⟩, rfl, rfl, rfl, rfl, rfl, rfl, rfl, List.mem_cons_self⟩
  rows := ⟨List.Pairwise.nil, fun e he => by cases he⟩

def insertRowid (k : ℤ) : ℕ × RowCall × Answers := (0, .insert ⟨k, [], [7], 0, none⟩, fun _ => [])

def insertThree : List (ℕ × RowCall × Answers) := [insertRowid 5, insertRowid 1, insertRowid 3]

theorem rowidOrder_iff_nonneg_sample :
    ∃ w', Run rowStep (fun k _ => k.1 ∈ ({0} : Set ℕ)) (emptyTable false) insertThree w' ∧
      w'.stored 3 = [1, 3, 5] ∧ (RowidOrder w'.calm 3 0 ↔ ∀ r ∈ w'.stored 3, 0 ≤ r) := by
  have hstored : (Prog.sequence rowStep insertThree (emptyTable false)).toOption.map
      (fun r => r.2.stored 3) = some [1, 3, 5] := by decide +kernel
  cases hseq : Prog.sequence rowStep insertThree (emptyTable false) with
  | error e =>
    rw [hseq] at hstored
    cases hstored
  | ok r =>
    rw [hseq] at hstored
    have hcursor : ∀ k ∈ insertThree, ∀ _ : World, k.1 ∈ ({0} : Set ℕ) := by
      simp [insertThree, insertRowid]
    have hrun := run_of_sequence hcursor hseq
    exact ⟨r.2, hrun, Option.some.inj hstored, rowidOrder_iff_nonneg (emptyTable_invariant false) hrun rfl⟩

/-- The number of rows and a scan after two insertions, none of which fails. -/
def scanTwo (k k' : ℤ) : Except Halt (ℕ × List ℤ) := do
  let r ← Prog.sequence rowStep [insertRowid k, insertRowid k'] (emptyTable false)
  let keys ← scan 0 2 r.2.calm
  pure ((r.2.rows 3).length, keys.1)

/-- The rowid `-1` comes after `1` in a scan. -/
theorem negative_rowid_last : ∃ w', Run rowStep (fun k _ => k.1 ∈ ({0} : Set ℕ)) (emptyTable false)
    [insertRowid 1, insertRowid (-1)] w' ∧ ¬ RowidOrder w'.calm 3 0 := by
  have hscan : scanTwo 1 (-1) = .ok (2, [1, -1]) := by decide +kernel
  rw [scanTwo] at hscan
  cases hseq : Prog.sequence rowStep [insertRowid 1, insertRowid (-1)] (emptyTable false) with
  | error e =>
    rw [hseq] at hscan
    cases hscan
  | ok p =>
    rw [hseq] at hscan
    have hrun : Run rowStep (fun k _ => k.1 ∈ ({0} : Set ℕ)) (emptyTable false)
        [insertRowid 1, insertRowid (-1)] p.2 := run_of_sequence (fun k hk _ => by
      rcases List.mem_cons.mp hk with rfl | hk
      · rfl
      · rw [List.mem_singleton.mp hk]
        rfl) hseq
    refine ⟨p.2, hrun, fun horder => ?_⟩
    cases hres : scan 0 2 p.2.calm with
    | error e =>
      simp only [hres, bind, Except.bind] at hscan
      cases hscan
    | ok q =>
      simp only [hres, bind, Except.bind, pure, Except.pure, Except.ok.injEq, Prod.mk.injEq] at hscan
      have hsorted := ((horder.scan 2 (le_of_eq hscan.1)).of_ok hres).2
      rw [hscan.2] at hsorted
      exact absurd hsorted (by decide)

end LumoSql.Btree
