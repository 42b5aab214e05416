import LumoSql.CommitAtomicity
import LumoSql.LmdbViews

/-! The number of the last table in the metadata, and the calls after which it still covers all tables
that there are: all but those that create one. -/
namespace LumoSql.Btree
open StateLogic Lmdb RowidEncoding SortedEntries

/-- A 32 bit metadata value as `get_meta_32` reads it when `mdb_get` answers `rc`. -/
def meta32 (c : Contents) (rc : Rc) (idx : ℕ) : ℤ :=
  if (metaEntry c rc idx).1 ≠ 0 then 0
  else if (metaEntry c rc idx).2.length ≠ 4 then 0
  else toInt (bigEndian (metaEntry c rc idx).2)

/-- The number of the last table that has been created. -/
def largestRoot (c : Contents) : ℕ := (meta32 c 0 btreeLargestRootPage % 2 ^ 32).toNat

/-- There are no tables above the number of the last one. -/
structure Covered (c : Contents) : Prop where
  metadata : HasMetadata (c .metadata)
  tables : ∀ n, 3 ≤ n → c (.table n) ≠ none → n ≤ largestRoot c

section Contents

variable {c c' : Contents} {es es' : Entries}

theorem largestRoot_lt (c : Contents) : largestRoot c < 2 ^ 32 := by
  rw [largestRoot]
  omega

theorem meta32_fails {rc : Rc} (hrc : rc ≠ 0) (c : Contents) (idx : ℕ) : meta32 c rc idx = 0 := by
  rw [meta32, metaEntry, if_pos hrc, if_pos hrc]

/-- Only the entry of a value matters. -/
theorem meta32_congr (hc : c .metadata = some es) (hc' : c' .metadata = some es') {idx : ℕ}
    (h : lookup (byteProbe (metaKey idx)) es' = lookup (byteProbe (metaKey idx)) es) (rc : Rc) :
    meta32 c' rc idx = meta32 c rc idx := by
  have hget : c'.get .metadata (metaKey idx) = c.get .metadata (metaKey idx) := by
    rw [Contents.get, Contents.get, hc, hc']
    simp only [h]
  have hentry : metaEntry c' rc idx = metaEntry c rc idx := by rw [metaEntry, metaEntry, hget]
  rw [meta32, meta32, hentry]

theorem largestRoot_congr (h : c' .metadata = c .metadata) : largestRoot c' = largestRoot c := by
  have hentry : metaEntry c' 0 btreeLargestRootPage = metaEntry c 0 btreeLargestRootPage := by
    simp only [metaEntry, Contents.get, h]
  rw [largestRoot, largestRoot, meta32, meta32, hentry]

theorem largestRoot_table (c : Contents) (n : ℕ) (o : Option Entries) :
    largestRoot (Function.update c (.table n) o) = largestRoot c :=
  largestRoot_congr (Function.update_of_ne (by simp) _ _)

/-- The number put is the one read. -/
theorem largestRoot_put (htable : MetaTable es) {n : ℕ} (hn : n < 2 ^ 32) :
    largestRoot (Function.update c .metadata (some (putEntry es (metaKey btreeLargestRootPage) (put4byte n)))) = n := by
  obtain ⟨e, hfound, hval⟩ := htable.lookup_put btreeLargestRootPage (put4byte n)
  have hentry : metaEntry (Function.update c .metadata
      (some (putEntry es (metaKey btreeLargestRootPage) (put4byte n)))) 0 btreeLargestRootPage = (0, put4byte n) := by
    rw [metaEntry, if_neg (not_not.mpr rfl), Contents.get, Function.update_self]
    simp only [hfound, hval]
  have hlen : ¬ (put4byte n).length ≠ 4 := by simp [put4byte]
  rw [largestRoot, meta32, hentry, if_neg (by simp), if_neg hlen, bigEndian_put4byte hn, toNat_toInt hn]

/-- Nothing is created, and the number of the last table stays. -/
structure NoMoreTables (c c' : Contents) : Prop where
  metadata : HasMetadata (c .metadata) → HasMetadata (c' .metadata) ∧ largestRoot c' = largestRoot c
  tables : ∀ n, c' (.table n) ≠ none → c (.table n) ≠ none

theorem NoMoreTables.refl (c : Contents) : NoMoreTables c c := ⟨fun h => ⟨h, rfl⟩, fun _ => id⟩

theorem NoMoreTables.trans {c₁ c₂ c₃ : Contents} (h : NoMoreTables c₁ c₂) (h' : NoMoreTables c₂ c₃) :
    NoMoreTables c₁ c₃ := by
  refine ⟨fun hmeta => ?_, fun n hn => h.tables n (h'.tables n hn)⟩
  obtain ⟨hmeta₂, hroot⟩ := h.metadata hmeta
  obtain ⟨hmeta₃, hroot'⟩ := h'.metadata hmeta₂
  exact ⟨hmeta₃, hroot'.trans hroot⟩

theorem NoMoreTables.table {n : ℕ} {o : Option Entries} (ho : o ≠ none → c (.table n) ≠ none) :
    NoMoreTables c (Function.update c (.table n) o) := by
  refine ⟨fun hmeta => ⟨?_, largestRoot_table c n o⟩, fun m hm => ?_⟩
  · rwa [Function.update_of_ne (by simp)]
  · by_cases hmn : DbName.table m = .table n
    · rw [hmn] at hm ⊢
      rw [Function.update_self] at hm
      exact ho hm
    · rwa [Function.update_of_ne hmn] at hm

theorem NoMoreTables.put (hc : c .metadata = some es) {idx : ℕ} (hne : btreeLargestRootPage % 256 ≠ idx % 256)
    (val : Bytes) : NoMoreTables c (Function.update c .metadata (some (putEntry es (metaKey idx) val))) := by
  refine ⟨fun hmeta => ?_, fun n hn => ?_⟩
  · obtain ⟨es', hes, htable⟩ := hmeta
    obtain rfl := Option.some.inj (hc.symm.trans hes)
    rw [Function.update_self]
    refine ⟨⟨_, rfl, htable.put idx val⟩, ?_⟩
    rw [largestRoot, largestRoot, meta32_congr hc (Function.update_self _ _ _) (htable.lookup_put_of_ne hne val)]
  · rwa [Function.update_of_ne (by simp)] at hn

/-- Rows are put in a table whose number has been given. -/
theorem Covered.setTable (h : Covered c) {n : ℕ} (hn : n < 3 ∨ n ≤ largestRoot c) (o : Option Entries) :
    Covered (Function.update c (.table n) o) := by
  refine ⟨?_, fun m hm htable => ?_⟩
  · rw [Function.update_of_ne (by simp)]
    exact h.metadata
  · rw [largestRoot_table]
    by_cases hmn : DbName.table m = .table n
    · obtain rfl := DbName.table.inj hmn
      omega
    · rw [Function.update_of_ne hmn] at htable
      exact h.tables m hm htable

theorem Covered.noMore (h : Covered c) (h' : NoMoreTables c c') : Covered c' := by
  obtain ⟨hmeta, hroot⟩ := h'.metadata h.metadata
  refine ⟨hmeta, fun n hn htable => ?_⟩
  rw [hroot]
  exact h.tables n hn (h'.tables n htable)

end Contents

/-- Only the innermost transaction has gone on, and it has not created anything. -/
inductive HeadRoots : List WriteTxn → List WriteTxn → Prop
  | refl (ts : List WriteTxn) : HeadRoots ts ts
  | cons (t : WriteTxn) (ts : List WriteTxn) {view : Contents} (h : NoMoreTables t.view view) :
      HeadRoots (t :: ts) ({ t with view := view } :: ts)

theorem HeadRoots.trans {ts₁ ts₂ ts₃ : List WriteTxn} (h : HeadRoots ts₁ ts₂) (h' : HeadRoots ts₂ ts₃) :
    HeadRoots ts₁ ts₃ := by
  cases h with
  | refl => exact h'
  | cons t ts h =>
    cases h' with
    | refl => exact .cons t ts h
    | cons _ _ h' => exact .cons t ts (h.trans h')

theorem HeadRoots.ids {ts ts' : List WriteTxn} (h : HeadRoots ts ts') :
    ts'.map WriteTxn.id = ts.map WriteTxn.id := by cases h <;> rfl

/-- What is seen in the innermost transaction goes back to what was seen in it. -/
theorem HeadRoots.head {ts ts' : List WriteTxn} (h : HeadRoots ts ts') :
    ∀ t' ∈ ts'.head?, ∃ t ∈ ts.head?, NoMoreTables t.view t'.view := by
  intro t' ht'
  cases h with
  | refl => exact ⟨t', ht', .refl _⟩
  | cons t ts h =>
    obtain rfl := Option.some.inj ht'
    exact ⟨t, rfl, h⟩

/-- The calls that create nothing; a cursor is opened on a table that is there. -/
structure EnvRoots (e e' : Env) : Prop where
  metaFree : MetaFree e'
  disk : e'.disk = e.disk
  readers : e'.readers = e.readers
  writers : HeadRoots e.writers e'.writers
  cursors : ∀ h c', e'.cursors h = some c' → c'.txn ∈ e'.writers.map WriteTxn.id →
    (∃ c, e.cursors h = some c ∧ c.txn = c'.txn ∧ c.db = c'.db) ∨
      ∃ n, c'.db = .table n ∧ ∀ t ∈ e.writers.head?, t.view (.table n) ≠ none

def RootsFrame (e e' : Env) : Prop := MetaFree e → EnvRoots e e'

section Environment

variable {e e₁ e' : Env}

theorem EnvRoots.refl (h : MetaFree e) : EnvRoots e e :=
  ⟨h, rfl, rfl, .refl _, fun _ c hc _ => .inl ⟨c, hc, rfl, rfl⟩⟩

theorem EnvRoots.trans (h : EnvRoots e e₁) (h' : EnvRoots e₁ e') : EnvRoots e e' := by
  refine ⟨h'.metaFree, h'.disk.trans h.disk, h'.readers.trans h.readers, h.writers.trans h'.writers,
    fun i c' hc' htxn => ?_⟩
  rcases h'.cursors i c' hc' htxn with ⟨c₁, hc₁, htxn₁, hdb₁⟩ | ⟨n, hdb, hopen⟩
  · have hlive : c₁.txn ∈ e₁.writers.map WriteTxn.id := by
      rw [htxn₁, ← h'.writers.ids]
      exact htxn
    rcases h.cursors i c₁ hc₁ hlive with ⟨c, hc, htxn, hdb⟩ | ⟨n, hdb, hopen⟩
    · exact .inl ⟨c, hc, htxn.trans htxn₁, hdb.trans hdb₁⟩
    · exact .inr ⟨n, hdb₁.symm.trans hdb, hopen⟩
  · refine .inr ⟨n, hdb, fun t ht => ?_⟩
    have hhead : ∀ t₁ ∈ e₁.writers.head?, NoMoreTables t.view t₁.view := by
      intro t₁ ht₁
      obtain ⟨u, hu, hmore⟩ := h.writers.head t₁ ht₁
      obtain rfl := Option.some.inj (ht.symm.trans hu)
      exact hmore
    cases hw : e₁.writers with
    | nil =>
      have hids := h.writers.ids
      rw [hw, List.map_nil] at hids
      rw [List.map_eq_nil_iff.mp hids.symm] at ht
      cases ht
    | cons t₁ ts =>
      have ht₁ : t₁ ∈ e₁.writers.head? := by
        rw [hw]
        exact rfl
      exact (hhead t₁ ht₁).tables n (hopen t₁ ht₁)

instance : Frame RootsFrame where
  refl _ := .refl
  trans h h' hfree := (h hfree).trans (h' (h hfree).metaFree)

theorem EnvRoots.pop (h : MetaFree e) (k : Fallible) : EnvRoots e (e.pop k) :=
  ⟨⟨h.cursors, h.shadows⟩, rfl, rfl, .refl _, fun _ c hc _ => .inl ⟨c, hc, rfl, rfl⟩⟩

theorem EnvRoots.setTable (h : MetaFree e) {n : ℕ} {o : Option Entries}
    (ho : ∀ t ∈ e.writers.head?, o ≠ none → t.view (.table n) ≠ none) : EnvRoots e (e.setView (.table n) o) := by
  have hset := EnvTablesOnly.setView h (DbName.noConfusion : DbName.table n ≠ .metadata) o
  refine ⟨hset.metaFree, rfl, rfl, ?_, fun _ c hc _ => .inl ⟨c, hc, rfl, rfl⟩⟩
  cases hw : e.writers with
  | nil =>
    rw [Env.setView, hw]
    exact .refl _
  | cons t ts =>
    rw [setView_writers hw]
    exact .cons t ts (.table (ho t (by rw [hw]; exact rfl)))

theorem EnvRoots.put (h : MetaFree e) {t : WriteTxn} {ts : List WriteTxn} (hw : e.writers = t :: ts) {es : Entries}
    (hes : t.view .metadata = some es) {idx : ℕ} (hne : btreeLargestRootPage % 256 ≠ idx % 256) (val : Bytes) :
    EnvRoots e (e.setView .metadata (some (putEntry es (metaKey idx) val))) := by
  have hset := setView_writers hw .metadata (some (putEntry es (metaKey idx) val))
  refine ⟨⟨h.cursors, fun u hu => ?_⟩, rfl, rfl, ?_, fun _ c hc _ => .inl ⟨c, hc, rfl, rfl⟩⟩
  · obtain ⟨v, hv, -, hshadow⟩ := mem_setView hu
    rw [← hshadow]
    exact h.shadows v hv
  · rw [hset, hw]
    exact .cons t ts (.put hes hne val)

theorem EnvRoots.adjust (h : MetaFree e) (db : DbName) (f : ℕ → Position → Position) :
    EnvRoots e (e.adjust db f) := by
  refine ⟨(EnvTablesOnly.adjust h db f).metaFree, rfl, rfl, .refl _, fun i c hc _ => .inl ?_⟩
  exact adjust_cursors hc

theorem EnvRoots.setCursor (h : MetaFree e) {i : ℕ} {c d : MdbCursor} (hd : e.cursors i = some d)
    (htxn : d.txn = c.txn) (hdb : d.db = c.db) (pos : Position) : EnvRoots e (e.setCursor i c pos) := by
  have hfree : c.db ≠ .metadata := by
    rw [← hdb]
    exact h.cursors i d hd
  refine ⟨(EnvTablesOnly.setCursor h i hfree pos).metaFree, rfl, rfl, .refl _, fun j c' hc' _ => .inl ?_⟩
  rw [Env.setCursor] at hc'
  dsimp only at hc'
  by_cases hj : j = i
  · rw [hj, Function.update_self] at hc'
    obtain rfl := Option.some.inj hc'
    exact ⟨d, by rw [hj, hd], htxn, hdb⟩
  · rw [Function.update_of_ne hj] at hc'
    exact ⟨c', hc', rfl, rfl⟩

/-- A row is deleted by a cursor. -/
theorem EnvRoots.delete (h : MetaFree e) {i : ℕ} {c : MdbCursor} (hc : e.cursors i = some c) {es : Entries}
    (hexists : ∀ t ∈ e.writers.head?, t.view c.db ≠ none) (f : ℕ → Position → Position) (pos : Position) :
    EnvRoots e (((e.setView c.db (some es)).adjust c.db f).setCursor i c pos) := by
  cases hdb : c.db with
  | metadata => exact absurd hdb (h.cursors i c hc)
  | table n =>
    rw [hdb] at hexists
    have hset := EnvRoots.setTable h (n := n) (o := some es) fun t ht _ => hexists t ht
    have hadj := hset.trans (.adjust hset.metaFree (.table n) f)
    have hcursor : ∃ d, ((e.setView (.table n) (some es)).adjust (.table n) f).cursors i = some d ∧ d.txn = c.txn ∧
        d.db = c.db := by
      have hc' : (e.setView (.table n) (some es)).cursors i = some c := hc
      rw [Env.adjust]
      simp only [hc']
      split_ifs
      · exact ⟨_, rfl, rfl, rfl⟩
      · exact ⟨_, rfl, rfl, rfl⟩
    obtain ⟨d, hd, htxn, hsame⟩ := hcursor
    exact hadj.trans (.setCursor hadj.metaFree hd htxn hsame pos)

theorem rootsKeep_answer (k : Fallible) : Keeps RootsFrame (answer k) := fun e => by
  rw [ensures_answer]
  exact fun h => .pop h k

theorem rootsKeep_withView (t : ℕ) {m : Contents → Mdb (Rc × Bytes)} (hm : ∀ c, Keeps RootsFrame (m c)) :
    Keeps RootsFrame (withView t m) := by
  refine Keeps.bind (.read _) fun e => ?_
  cases e.kind t with
  | none => exact .halt _
  | some k =>
    dsimp only
    cases e.view t with
    | none => exact .pure _
    | some c => exact hm c

theorem rootsKeep_dbiOpen (t : ℕ) (db : DbName) : Keeps RootsFrame (mdbDbiOpen t db false) := by
  refine Keeps.bind (rootsKeep_withView t fun c => ?_) fun r => .pure _
  refine Keeps.bind (rootsKeep_answer _) fun rc => .ite (.pure _) (.ite (.pure _) ?_)
  exact .pure _

theorem rootsKeep_get (t : ℕ) (db : DbName) (key : Bytes) : Keeps RootsFrame (mdbGet t db key) := by
  refine rootsKeep_withView t fun c => Keeps.bind (rootsKeep_answer _) fun rc => .ite (.pure _) ?_
  cases c db with
  | none => exact .pure _
  | some es =>
    dsimp only
    cases lookup (byteProbe key) es with
    | none => exact .pure _
    | some e => exact .pure _

/-- Any metadata value but the number of the last table. -/
theorem rootsKeep_put (t : ℕ) {idx : ℕ} (hne : btreeLargestRootPage % 256 ≠ idx % 256) (val : Bytes) :
    Keeps RootsFrame (mdbPut t .metadata (metaKey idx) val) := by
  intro e
  rw [mdbPut, ensures_bind, withView, ensures_bind, ensures_read, id_eq]
  cases hkind : e.kind t with
  | none => trivial
  | some k =>
    dsimp only
    cases hview : e.view t with
    | none => exact .refl
    | some c =>
      dsimp only
      rw [ensures_bind, ensures_read, id_eq, hkind]
      refine .ite (fun _ => .refl) fun hk => ?_
      obtain ⟨w, rest, hw, -, rfl⟩ := writer_of_view (hkind.trans (not_not.mp hk)) hview
      rw [ensures_bind, ensures_answer]
      refine .ite (fun _ h => .pop h _) fun _ => ?_
      cases hes : w.view .metadata with
      | none => exact fun h => .pop h _
      | some es =>
        intro h
        have hpop := EnvRoots.pop h .put
        have hwpop : (e.pop .put).writers = w :: rest := hw
        exact hpop.trans (.put hpop.metaFree hwpop hes hne val)

theorem rootsKeep_drop (t iTable : ℕ) (del : Bool) : Keeps RootsFrame (mdbDrop t (.table iTable) del) := by
  intro e
  rw [mdbDrop, ensures_bind, withView, ensures_bind, ensures_read, id_eq]
  cases hkind : e.kind t with
  | none => trivial
  | some k =>
    dsimp only
    cases hview : e.view t with
    | none => exact .refl
    | some c =>
      dsimp only
      rw [ensures_bind, ensures_read, id_eq, hkind]
      refine .ite (fun _ => .refl) fun hk => ?_
      obtain ⟨w, rest, hw, -, rfl⟩ := writer_of_view (hkind.trans (not_not.mp hk)) hview
      rw [ensures_bind, ensures_answer]
      refine .ite (fun _ h => .pop h _) fun _ => .ite (fun _ h => .pop h _) fun hsome h => ?_
      have hpop := EnvRoots.pop h .drop
      have hset := EnvRoots.setTable hpop.metaFree (n := iTable) (o := if del then none else some []) ?_
      · exact hpop.trans (hset.trans (.adjust hset.metaFree _ _))
      · intro u hu _
        have hwpop : (e.pop .drop).writers = w :: rest := hw
        rw [hwpop] at hu
        obtain rfl := Option.some.inj hu
        exact fun hnone => hsome (by rw [hnone]; rfl)

theorem rootsKeep_stat (t : ℕ) (db : DbName) : Keeps RootsFrame (mdbStat t db) := by
  refine Keeps.bind (.read _) fun e => ?_
  cases e.kind t with
  | none => exact .halt _
  | some k =>
    dsimp only
    cases e.view t with
    | none => exact .pure _
    | some c =>
      refine Keeps.bind (rootsKeep_answer _) fun rc => .ite (.pure _) ?_
      cases c db with
      | none => exact .pure _
      | some es => exact .pure _

theorem rootsKeep_cursorOpen (t iTable : ℕ) : Keeps RootsFrame (mdbCursorOpen t (.table iTable)) := by
  intro e
  rw [mdbCursorOpen, ensures_bind, ensures_read, id_eq]
  cases hkind : e.kind t with
  | none => trivial
  | some k =>
    dsimp only
    cases hview : e.view t with
    | none => exact .refl
    | some c =>
      dsimp only
      rw [ensures_bind, ensures_answer]
      refine .ite (fun _ h => .pop h _) fun _ => .ite (fun _ h => .pop h _) fun hopen h => ?_
      have hset := EnvTablesOnly.setCursor h e.next (c := ⟨t, .table iTable, .unset⟩) (by simp) .unset
      refine ⟨⟨hset.metaFree.cursors, h.shadows⟩, rfl, rfl, .refl _, fun i c' hc' htxn => ?_⟩
      dsimp only at hc'
      by_cases hi : i = e.next
      · have hself : Function.update e.cursors e.next (some ⟨t, .table iTable, .unset⟩) i = some c' := hc'
        rw [hi, Function.update_self] at hself
        obtain rfl := Option.some.inj hself
        refine .inr ⟨iTable, rfl, fun u hu => ?_⟩
        have hlive : t ∈ e.writers.map WriteTxn.id := htxn
        have hwrite : e.kind t = some .readWrite := by rw [Env.kind, if_pos hlive]
        obtain ⟨w, rest, hw, -, rfl⟩ := writer_of_view hwrite hview
        rw [hw] at hu
        obtain rfl := Option.some.inj hu
        exact fun hnone => hopen (by rw [hnone]; rfl)
      · have hother : Function.update e.cursors e.next (some ⟨t, .table iTable, .unset⟩) i = some c' := hc'
        rw [Function.update_of_ne hi] at hother
        exact .inl ⟨c', hother, rfl, rfl⟩

theorem rootsKeep_cursorClose (h : Option ℕ) : Keeps RootsFrame (mdbCursorClose h) := by
  cases h with
  | none => exact .pure _
  | some h =>
    refine Keeps.bind (.read _) fun e => ?_
    cases e.cursors h with
    | none => exact .halt _
    | some c =>
      refine .modify fun e hfree => ?_
      have hsome : ∀ i d, Function.update e.cursors h none i = some d → e.cursors i = some d := by
        intro i d hd
        by_cases hi : i = h
        · rw [hi, Function.update_self] at hd
          cases hd
        · rwa [Function.update_of_ne hi] at hd
      exact ⟨⟨fun i d hd => hfree.cursors i d (hsome i d hd), hfree.shadows⟩, rfl, rfl, .refl _,
        fun i d hd _ => .inl ⟨d, hsome i d hd, rfl, rfl⟩⟩

theorem rootsKeep_cursorGet (h : Option ℕ) (op : CursorOp) : Keeps RootsFrame (mdbCursorGet h op) := by
  cases h with
  | none => exact .pure _
  | some h =>
    intro e
    rw [mdbCursorGet, ensures_bind, ensures_read, id_eq]
    cases hc : e.cursors h with
    | none => trivial
    | some c =>
      dsimp only
      cases e.cursorView c with
      | none => trivial
      | some v =>
        dsimp only
        rw [ensures_bind, ensures_answer]
        refine .ite (fun _ hfree => .pop hfree _) fun _ hfree => ?_
        have hpop := EnvRoots.pop hfree .cursorGet
        have hcpop : (e.pop .cursorGet).cursors h = some c := hc
        exact hpop.trans (.setCursor hpop.metaFree hcpop rfl rfl _)

theorem rootsKeep_cursorDel (h : Option ℕ) : Keeps RootsFrame (mdbCursorDel h) := by
  cases h with
  | none => exact .halt _
  | some h =>
    intro e
    rw [mdbCursorDel, ensures_bind, ensures_read, id_eq]
    cases hc : e.cursors h with
    | none => trivial
    | some c =>
      dsimp only
      refine .ite (fun _ => .refl) fun hmem => ?_
      rw [Env.cursorView, if_pos (not_not.mp hmem)]
      cases hw : e.writers with
      | nil => trivial
      | cons t ts =>
        rw [List.head?_cons, Option.map_some]
        dsimp only
        rw [ensures_bind, ensures_answer]
        refine .ite (fun _ hfree => .pop hfree _) fun _ => .ite (fun _ hfree => .pop hfree _) fun _ => ?_
        refine .ite (fun _ hfree => .pop hfree _) fun hlt hfree => ?_
        have hpop := EnvRoots.pop hfree .cursorDel
        have hcpop : (e.pop .cursorDel).cursors h = some c := hc
        refine hpop.trans (.delete hpop.metaFree hcpop (fun u hu => ?_) _ _)
        have hwpop : (e.pop .cursorDel).writers = t :: ts := hw
        rw [hwpop] at hu
        obtain rfl := Option.some.inj hu
        intro hnone
        rw [hnone] at hlt
        exact hlt (Nat.zero_le _)

theorem TableOp.rootsKeep {α : Type} {m : Mdb α} (h : TableOp False m) : Keeps RootsFrame m := by
  cases h with
  | answer c => exact rootsKeep_answer c
  | @dbiOpen t iTable create hc =>
    cases create with
    | true => exact (hc rfl).elim
    | false => exact rootsKeep_dbiOpen t _
  | get t db key => exact rootsKeep_get t db key
  | @putHeader t idx hidx hlargest iValue =>
    refine rootsKeep_put t (fun heq => hlargest ?_) _
    rw [headerValues] at hidx
    rw [btreeLargestRootPage] at heq ⊢
    omega
  | drop t iTable del => exact rootsKeep_drop t iTable del
  | stat t db => exact rootsKeep_stat t db
  | cursorGet h op => exact rootsKeep_cursorGet h op
  | cursorPut ha => exact ha.elim
  | cursorDel h => exact rootsKeep_cursorDel h

theorem DataOp.rootsKeep {α : Type} {m : Mdb α} (h : DataOp False m) : Keeps RootsFrame m := by
  cases h with
  | table h => exact h.rootsKeep
  | cursorOpen t iTable => exact rootsKeep_cursorOpen t iTable
  | cursorClose h => exact rootsKeep_cursorClose h

/-- The number of the last table covers the tables in all that is seen. -/
structure Rooted (e : Env) : Prop where
  metaFree : MetaFree e
  views : e.AllViews Covered

def RootedFrame (e e' : Env) : Prop := Rooted e → Rooted e'

instance : Frame RootedFrame where
  refl _ := id
  trans h h' he := h' (h he)

theorem Rooted.roots (he : Rooted e) (h : EnvRoots e e') : Rooted e' := by
  refine ⟨h.metaFree, ?_, fun u hu => ?_, ?_⟩
  · rw [h.disk]
    exact he.views.disk
  · have hwriters := h.writers
    cases hw : e.writers with
    | nil =>
      rw [hw] at hwriters
      generalize e'.writers = ws at hwriters hu
      cases hwriters with
      | refl => cases hu
    | cons t ts =>
      rw [hw] at hwriters
      have hold : ∀ v ∈ t :: ts, Covered v.view := fun v hv => he.views.writers v (by rw [hw]; exact hv)
      generalize e'.writers = ws at hwriters hu
      cases hwriters with
      | refl => exact hold u hu
      | cons _ _ hmore =>
        rcases List.mem_cons.mp hu with rfl | hu
        · exact (hold t List.mem_cons_self).noMore hmore
        · exact hold u (List.mem_cons_of_mem t hu)
  · rw [h.readers]
    exact he.views.readers

theorem rootedKeep_of_roots {α : Type} {m : Mdb α} (h : Keeps RootsFrame m) : Keeps RootedFrame m := fun e =>
  (h e).imp fun _ _ hroots he => he.roots (hroots he.metaFree)

theorem rootedKeep_of_views {closes : ℕ → Prop} {reads : Prop} {α : Type} {m : Mdb α} (hsteps : Steps closes reads m)
    (h : Keeps (ViewsFrame Covered) m) : Keeps RootedFrame m := fun e =>
  ((hsteps e).and (h e)).imp fun _ _ h he => ⟨(orderly_step h.1 he.metaFree).metaFree, h.2 he.views⟩

theorem MdbOp.rootedKeep {reads : Prop} {α : Type} {m : Mdb α} (h : MdbOp reads m) : Keeps RootedFrame m := by
  have hsteps : Steps (fun _ => False) reads m := h.steps
  cases h with
  | table h => exact rootedKeep_of_roots h.rootsKeep
  | txnBegin parent hr => exact rootedKeep_of_views hsteps (views_txnBegin _ _)
  | txnAbort t => exact rootedKeep_of_views hsteps (views_txnAbort t)
  | txnCommit t => exact rootedKeep_of_views hsteps (views_txnCommit t)
  | metaOpen t => exact rootedKeep_of_roots (rootsKeep_dbiOpen t _)
  | putCounter t val => exact rootedKeep_of_roots (rootsKeep_put t (by decide) val)

end Environment

def CoverFrame (w w' : World) : Prop := RootedFrame w.env w'.env

instance : Frame CoverFrame where
  refl w := Frame.refl (R := RootedFrame) w.env
  trans h h' := Frame.trans (R := RootedFrame) h h'

section Calls

theorem coverKeep_lmdb {α : Type} {m : Mdb α} (h : Keeps RootedFrame m) : Keeps CoverFrame (lmdb m) :=
  Keeps.zoom h fun _ _ he => he

theorem coverKeep_setCur (i : ℕ) (f : BtCursor → BtCursor) : Keeps CoverFrame (setCur i f) := .modify fun _ he => he

theorem coverKeep_setP (f : Btree → Btree) : Keeps CoverFrame (setP f) := .modify fun _ he => he

theorem DataPart.covers {α : Type} {m : Call α} (h : DataPart False α m) : Keeps CoverFrame m := by
  cases h with
  | move h =>
    cases h with
    | lmdb h => exact coverKeep_lmdb (rootedKeep_of_roots h.rootsKeep)
    | setCur i f hf => exact coverKeep_setCur i f
    | openInto i t iTable f hf =>
      refine Keeps.bind (coverKeep_lmdb (rootedKeep_of_roots (rootsKeep_cursorOpen t iTable))) fun r => .ite (.pure _) ?_
      exact Keeps.bind (coverKeep_setCur i _) fun _ => .pure _
  | setCur i f hf => exact coverKeep_setCur i f
  | setList f hf => exact coverKeep_setP f
  | newCursor =>
    refine Keeps.bind (.read _) fun i => ?_
    exact Keeps.bind (.modify fun _ he => he) fun _ => .pure _

theorem TxnPart.covers {reads : Prop} {α : Type} {m : Call α} (h : TxnPart reads α m) : Keeps CoverFrame m := by
  cases h with
  | lmdb h => exact coverKeep_lmdb h.rootedKeep
  | setP f hf => exact coverKeep_setP f
  | invalidateCursor tripCode writeOnly i rc =>
    refine (built_invalidateCursor tripCode writeOnly i rc).keeps fun h => ?_
    cases h with
    | lmdb h => exact coverKeep_lmdb (rootedKeep_of_roots h.rootsKeep)
    | setCur f hf => exact coverKeep_setCur i f

/-- The transaction calls create nothing. -/
theorem TxnCall.covers (call : TxnCall) : Keeps CoverFrame call.run := by
  cases call with
  | beginTrans wrFlag pSchemaVersion =>
    exact Keeps.bind ((built_beginTrans wrFlag pSchemaVersion).keeps TxnPart.covers) fun _ => .pure _
  | beginStmt iStatement => exact (built_beginStmt iStatement).keeps TxnPart.covers
  | savepoint op iSavepoint => exact (built_savepoint op iSavepoint).keeps TxnPart.covers
  | commitPhaseOne => exact built_commitPhaseOne.keeps TxnPart.covers
  | rollback tripCode writeOnly => exact (built_rollback tripCode writeOnly).keeps TxnPart.covers

theorem Part.covers {α : Type} {m : Call α} (h : Part False α m) : Keeps CoverFrame m := by
  cases h with
  | data h => exact h.covers
  | close h =>
    cases h with
    | txn h => exact h.covers
    | closeEnv =>
      refine coverKeep_lmdb (.modify fun e he => ⟨⟨?_, ?_⟩, he.views.disk, ?_, ?_⟩)
      · exact fun _ _ hc => absurd hc (Option.some_ne_none _).symm
      · exact fun _ ht => absurd ht List.not_mem_nil
      · exact fun _ ht => absurd ht List.not_mem_nil
      · exact fun _ hr => absurd hr List.not_mem_nil

/-- The calls that put no rows and create no tables. -/
theorem DataCall.covers {call : DataCall} {w : World} (hallowed : call.Allowed w) (ha : ¬ call.Alters) :
    Keeps CoverFrame call.run := by
  cases hmoves : call.moves with
  | true =>
    have hbuilt : Built (UsePart False) call.run := DataCall.built_of_alters hmoves hallowed ha
    exact (hbuilt.trans UsePart.built).keeps fun h => DataPart.covers (.move h)
  | false =>
    cases call with
    | cursorZero => exact (built_ignore (.part .newCursor)).keeps DataPart.covers
    | cursor iTable wrFlag keyInfo i => exact (built_ignore (built_cursor _ _ _ _)).keeps DataPart.covers
    | closeCursor i => exact (built_ignore (built_closeCursor _)).keeps Part.covers
    | _ => cases hmoves

end Calls

section Insertion

variable {i : ℕ} {w w' : World} {e e' : Env}

/-- If cursor `i` puts rows, it puts them in a table whose number has been given. -/
structure PutReady (i : ℕ) (w : World) : Prop where
  rooted : Rooted w.env
  known : ∀ h c n, (w.curs i).cursor = some h → w.env.cursors h = some c → c.txn ∈ w.env.writers.map WriteTxn.id →
    c.db = .table n → ∀ t ∈ w.env.writers.head?, n < 3 ∨ n ≤ largestRoot t.view

def PutFrame (i : ℕ) (w w' : World) : Prop := PutReady i w → PutReady i w'

instance : Frame (PutFrame i) where
  refl _ := id
  trans h h' hw := h' (h hw)

/-- A table that the innermost transaction sees has a number that was given. -/
theorem Rooted.given (he : Rooted e) {n : ℕ} (hopen : ∀ t ∈ e.writers.head?, t.view (.table n) ≠ none) :
    ∀ t ∈ e.writers.head?, n < 3 ∨ n ≤ largestRoot t.view := by
  intro t ht
  rcases Nat.lt_or_ge n 3 with hn | hn
  · exact .inl hn
  · exact .inr ((he.views.writers t (List.mem_of_mem_head? ht)).tables n hn (hopen t ht))

/-- A number that was given stays so. -/
theorem EnvRoots.given (h : EnvRoots e e') (he : Rooted e) {n : ℕ}
    (hn : ∀ t ∈ e.writers.head?, n < 3 ∨ n ≤ largestRoot t.view) :
    ∀ t ∈ e'.writers.head?, n < 3 ∨ n ≤ largestRoot t.view := by
  intro t' ht'
  obtain ⟨t, ht, hmore⟩ := h.writers.head t' ht'
  have hcovered := he.views.writers t (List.mem_of_mem_head? ht)
  rw [(hmore.metadata hcovered.metadata).2]
  exact hn t ht

theorem PutReady.roots (hw : PutReady i w) (h : EnvRoots w.env e) : PutReady i { w with env := e } := by
  refine ⟨hw.rooted.roots h, fun j c n hj hc htxn hdb => ?_⟩
  rcases h.cursors j c hc htxn with ⟨d, hd, htxn', hdb'⟩ | ⟨m, hdb', hopen⟩
  · have hlive : d.txn ∈ w.env.writers.map WriteTxn.id := by
      rw [htxn', ← h.writers.ids]
      exact htxn
    exact h.given hw.rooted (hw.known j d n hj hd hlive (hdb'.trans hdb))
  · obtain rfl := DbName.table.inj (hdb'.symm.trans hdb)
    exact h.given hw.rooted (hw.rooted.given hopen)

theorem putsKeep_lmdb {α : Type} {m : Mdb α} (h : DataOp False m) : Keeps (PutFrame i) (lmdb m) := by
  intro w
  rw [ensures_lmdb]
  exact (h.rootsKeep w.env).imp fun _ e he hw => hw.roots (he hw.rooted.metaFree)

theorem putsKeep_setCur (j : ℕ) {f : BtCursor → BtCursor} (hf : ∀ c, (f c).cursor = c.cursor ∨ (f c).cursor = none) :
    Keeps (PutFrame i) (setCur j f) := by
  refine .modify fun w hw => ⟨hw.rooted, fun h c n hh => ?_⟩
  dsimp only at hh ⊢
  by_cases hj : i = j
  · subst hj
    rw [Function.update_self] at hh
    rcases hf (w.curs i) with hsame | hnone
    · exact hw.known h c n (hsame.symm.trans hh)
    · exact absurd (hnone.symm.trans hh) (Option.some_ne_none _).symm
  · rw [Function.update_of_ne hj] at hh
    exact hw.known h c n hh

theorem cursorOpen_opens (t iTable : ℕ) (e : Env) : Ensures (fun _ => True) (mdbCursorOpen t (.table iTable))
    (fun r e' => r.1 = 0 → ∀ c, e'.cursors r.2 = some c → c.db = .table iTable ∧
      (c.txn ∈ e.writers.map WriteTxn.id → ∀ u ∈ e.writers.head?, u.view (.table iTable) ≠ none)) e := by
  cases hkind : e.kind t with
  | none =>
    rw [mdbCursorOpen, ensures_bind, ensures_read, id_eq, hkind]
    trivial
  | some k =>
    cases hview : e.view t with
    | none =>
      rw [mdbCursorOpen, ensures_bind, ensures_read, id_eq, hkind]
      dsimp only
      rw [hview]
      exact fun hrc => absurd hrc (by decide)
    | some v =>
      rw [documented.cursorOpen hkind hview]
      by_cases hans : (e.answers .cursorOpen).headD 0 ≠ 0
      · rw [if_pos hans]
        exact fun hrc => absurd hrc hans
      rw [if_neg hans]
      by_cases hnone : (v (.table iTable)).isNone = true
      · rw [if_pos hnone]
        exact fun hrc => absurd hrc (by decide)
      rw [if_neg hnone]
      intro _ c hc
      have hself : Function.update e.cursors e.next (some ⟨t, .table iTable, .unset⟩) e.next = some c := hc
      rw [Function.update_self] at hself
      obtain rfl := Option.some.inj hself
      refine ⟨rfl, fun hlive u hu => ?_⟩
      obtain ⟨u', rest, hw, -, rfl⟩ := writer_of_view (by rw [Env.kind, if_pos hlive]) hview
      rw [hw] at hu
      obtain rfl := Option.some.inj hu
      exact fun heq => hnone (by rw [heq]; rfl)

/-- A cursor that is opened is opened on a table that is there. -/
theorem putsKeep_openInto (j t iTable : ℕ) (f : BtCursor → BtCursor) :
    Keeps (PutFrame i) (openInto j t iTable f) := by
  intro w
  rw [openInto, ensures_bind, ensures_lmdb]
  refine ((rootsKeep_cursorOpen t iTable w.env).and (cursorOpen_opens t iTable w.env)).imp fun r e h => ?_
  obtain ⟨hroots, hopened⟩ := h
  refine .ite (fun _ hw => hw.roots (hroots hw.rooted.metaFree)) fun hok => ?_
  rw [ensures_bind, ensures_setCur, ensures_pure]
  intro hw
  have hroots := hroots hw.rooted.metaFree
  have hready := hw.roots hroots
  refine ⟨hready.rooted, fun h c n hh hc htxn hdb => ?_⟩
  dsimp only at hh
  by_cases hj : i = j
  · subst hj
    rw [Function.update_self] at hh
    obtain rfl := Option.some.inj hh
    obtain ⟨hdb', hexists⟩ := hopened (not_not.mp hok) c hc
    obtain rfl := DbName.table.inj (hdb'.symm.trans hdb)
    have hlive : c.txn ∈ w.env.writers.map WriteTxn.id := by
      rw [← hroots.writers.ids]
      exact htxn
    exact hroots.given hw.rooted (hw.rooted.given (hexists hlive))
  · rw [Function.update_of_ne hj] at hh
    exact hready.known h c n hh hc htxn hdb

theorem MovePart.puts {α : Type} {m : Call α} (h : MovePart False α m) : Keeps (PutFrame i) m := by
  cases h with
  | lmdb h => exact putsKeep_lmdb h
  | setCur j f hf => exact putsKeep_setCur j fun c => (hf c).cursor
  | openInto j t iTable f hf => exact putsKeep_openInto j t iTable f

/-- Rows are put by cursor `i`. -/
theorem puts_cursorPut (hw : PutReady i w) (probe : Bytes → Ordering) (key val : Bytes) :
    Ensures (fun _ => True) (lmdb (mdbCursorPut (w.curs i).cursor probe key val)) (fun _ w' => Rooted w'.env) w := by
  rw [ensures_lmdb]
  cases hh : (w.curs i).cursor with
  | none => exact hw.rooted
  | some h =>
    rw [mdbCursorPut, ensures_bind, ensures_read, id_eq]
    cases hc : w.env.cursors h with
    | none => trivial
    | some c =>
      dsimp only
      refine .ite (fun _ => hw.rooted) fun hmem => ?_
      cases w.env.cursorView c with
      | none => trivial
      | some v =>
        dsimp only
        rw [ensures_bind, ensures_answer]
        have hfree := hw.rooted.metaFree
        have hpop := hw.rooted.roots (.pop hfree .cursorPut)
        refine .ite (fun _ => hpop) fun _ => .ite (fun _ => hpop) fun _ => ?_
        refine ⟨(EnvTablesOnly.write hfree hc .cursorPut _ _ _).metaFree, ?_⟩
        have hset : ((w.env.pop .cursorPut).setView c.db (some (place probe (key, val) (overwrite key val)
            ((v c.db).getD [])))).AllViews Covered := by
          apply hpop.views.setView
          intro t ht
          cases hdb : c.db with
          | metadata => exact absurd hdb (hfree.cursors h c hc)
          | table n =>
            have hgiven := hw.known h c n hh hc (not_not.mp hmem) hdb t ht
            exact (hw.rooted.views.writers t (List.mem_of_mem_head? ht)).setTable hgiven _
        exact ⟨hset.disk, hset.writers, hset.readers⟩

theorem puts_insertCopied (hw : PutReady i w) (src : Bytes × Bytes) :
    Ensures (fun _ => True) (insertCopied i src) (fun _ w' => Rooted w'.env) w := by
  rw [insertCopied, ensures_bind, ensures_getCur, ensures_bind, ensures_read]
  refine .ite (fun _ => trivial) fun _ => ?_
  rw [ensures_bind]
  exact puts_cursorPut hw _ _ _

theorem puts_insertIndex (hw : PutReady i w) (keyInfo : KeyInfo) (pX : Payload) (preformat : Bool)
    (src : Bytes × Bytes) :
    Ensures (fun _ => True) (insertIndex i keyInfo pX preformat src) (fun _ w' => Rooted w'.env) w := by
  have hunpack : Keeps (PutFrame i) (unpackKey keyInfo pX) :=
    ((built_unpackKey keyInfo pX).trans UsePart.built).keeps MovePart.puts
  rw [insertIndex, ensures_bind]
  refine (hunpack w).imp fun u w₁ h₁ => ?_
  have hw₁ := h₁ hw
  refine .ite (fun _ => hw₁.rooted) fun _ => .ite (fun _ => puts_insertCopied hw₁ src) fun _ => ?_
  refine .ite (fun _ => hw₁.rooted) fun _ => ?_
  rw [ensures_bind, ensures_getCur, ensures_bind, ensures_getP, ensures_bind]
  exact puts_cursorPut hw₁ _ _ _

theorem puts_insertRow (hw : PutReady i w) (nKey : ℤ) (data : Bytes) :
    Ensures (fun _ => True) (insertRow i nKey data) (fun _ w' => Rooted w'.env) w := by
  rw [insertRow, ensures_bind, ensures_getCur, ensures_bind, ensures_build, ensures_bind]
  exact puts_cursorPut hw _ _ _

theorem puts_insertSource (hw : PutReady i w) (pX : Payload) (preformat : Bool) (src : Rc × Bytes × Bytes) :
    Ensures (fun _ => True) (insertSource i pX preformat src) (fun _ w' => Rooted w'.env) w := by
  rw [insertSource]
  refine .ite (fun _ => hw.rooted) fun _ => ?_
  rw [ensures_bind, ensures_getCur]
  cases (w.curs i).keyInfo with
  | some keyInfo => exact puts_insertIndex hw keyInfo pX preformat src.2
  | none => exact .ite (fun _ => puts_insertRow hw _ _) fun _ => puts_insertRow hw _ _

theorem puts_insert (hw : PutReady i w) (pX : Payload) (preformat : Bool) :
    Ensures (fun _ => True) (sqlite3BtreeInsert i pX preformat) (fun _ w' => Rooted w'.env) w := by
  have hrestore : Keeps (PutFrame i) (restoreCursor i false) := (built_restoreCursor i false).keeps MovePart.puts
  have hcopy : Keeps (PutFrame i) (preformatted i) := ((built_preformatted i).trans UsePart.built).keeps MovePart.puts
  rw [sqlite3BtreeInsert, ensures_bind, ensures_getCur]
  refine .ite (fun _ => trivial) fun _ => ?_
  rw [ensures_bind]
  refine (hrestore w).imp fun rc w₁ h₁ => .ite (fun _ => (h₁ hw).rooted) fun _ => ?_
  refine .ite (fun _ => ?_) fun _ => ?_
  · rw [ensures_bind]
    exact (hcopy w₁).imp fun src w₂ h₂ => puts_insertSource (h₂ (h₁ hw)) pX preformat src
  · rw [ensures_bind]
    exact puts_insertSource (h₁ hw) pX preformat _

end Insertion

end LumoSql.Btree
