import LumoSql.LmdbLaws

/-! What one call of LMDB can do to an environment, said once for all calls. -/
namespace LumoSql.Lmdb
open StateLogic SortedEntries

/-- The changes calls make, apart from the codes that are left; they close no cursors but `closes`,
and a snapshot is only taken with `reads`. Cursors are opened on tables only. -/
inductive Env.Change (closes : ℕ → Prop) (reads : Prop) (e : Env) : Env → Prop
  | same : e.Change closes reads e
  | setView (db : DbName) (es : Option Entries) : e.Change closes reads (e.setView db es)
  | drop (db : DbName) (es : Option Entries) (f : ℕ → Position → Position) :
      e.Change closes reads ((e.setView db es).adjust db f)
  | move {h : ℕ} {c : MdbCursor} (hc : e.cursors h = some c) (pos : Position) : e.Change closes reads (e.setCursor h c pos)
  | write {h : ℕ} {c : MdbCursor} (hc : e.cursors h = some c) (es : Option Entries)
      (f : ℕ → Position → Position) (pos : Position) :
      e.Change closes reads (((e.setView c.db es).adjust c.db f).setCursor h c pos)
  | cursorOpen {t : ℕ} (ht : e.kind t ≠ none) (iTable : ℕ) : e.Change closes reads { e with
      cursors := Function.update e.cursors e.next (some ⟨t, .table iTable, .unset⟩)
      next := e.next + 1 }
  | cursorClose {h : ℕ} (hh : closes h) : e.Change closes reads { e with cursors := Function.update e.cursors h none }
  | beginReader (hr : reads) : e.Change closes reads e.beginReader
  | beginWriter : e.Change closes reads e.beginWriter
  | beginNested (view : Contents) : e.Change closes reads (e.beginNested view)
  | endReader (t : ℕ) : e.Change closes reads (e.endReader t)
  | abort (t : ℕ) : e.Change closes reads (e.abort t)
  | commit (t : ℕ) : e.Change closes reads (e.commit t)
  | close (hall : ∀ h, closes h) : e.Change closes reads { e with writers := [], readers := [], cursors := fun _ => none }

/-- One call: it uses up codes, and makes a change. -/
def Env.Step (closes : ℕ → Prop) (reads : Prop) (e e' : Env) : Prop :=
  ∃ codes : Answers, (∀ c, e.answers c = [] → codes c = []) ∧ { e with answers := codes }.Change closes reads e'

/-- Whatever state a call is made in, it makes one of the changes. -/
def Steps (closes : ℕ → Prop) (reads : Prop) {α : Type} (m : Mdb α) : Prop :=
  ∀ e : Env, Ensures (fun _ => True) m (fun _ e' => e.Step closes reads e') e

section Calls

variable {closes : ℕ → Prop} {reads : Prop} {e e' : Env}

theorem Env.Change.step (h : e.Change closes reads e') : e.Step closes reads e' := ⟨e.answers, fun _ h => h, h⟩

theorem Env.Step.pop (c : Fallible) (h : (e.pop c).Change closes reads e') : e.Step closes reads e' := by
  refine ⟨(e.pop c).answers, fun d hd => ?_, h⟩
  by_cases hdc : d = c
  · rw [hdc] at hd ⊢
    rw [pop_answers_self, hd, List.tail_nil]
  · rw [pop_answers_of_ne hdc, hd]

theorem steps_answer (c : Fallible) : Steps closes reads (answer c) := fun e => by
  rw [ensures_answer]
  exact .pop c .same

/-- What a live transaction sees is looked at first. -/
theorem steps_withView (t : ℕ) {m : Contents → Mdb (Rc × Bytes)}
    (hm : ∀ (e : Env) k c, e.kind t = some k → Ensures (fun _ => True) (m c) (fun _ e' => e.Step closes reads e') e) :
    Steps closes reads (withView t m) := by
  intro e
  rw [withView, ensures_bind, ensures_read, id_eq]
  cases hkind : e.kind t with
  | none => trivial
  | some k =>
    dsimp only
    cases e.view t with
    | none => exact Env.Change.same.step
    | some c => exact hm e k c hkind

theorem steps_dbiOpen (t : ℕ) (db : DbName) (create : Bool) : Steps closes reads (mdbDbiOpen t db create) := by
  intro e
  rw [mdbDbiOpen, ensures_bind]
  refine steps_withView t (fun e k c hkind => ?_) e
  rw [ensures_bind, ensures_answer]
  refine .ite (fun _ => .pop _ .same) fun _ => .ite (fun _ => .pop _ .same) fun _ => ?_
  refine .ite (fun _ => .pop _ .same) fun _ => ?_
  rw [ensures_bind, ensures_read]
  exact .ite (fun _ => .pop _ .same) fun _ => .pop _ (.setView db _)

theorem steps_get (t : ℕ) (db : DbName) (key : Bytes) : Steps closes reads (mdbGet t db key) := by
  refine steps_withView t fun e k c hkind => ?_
  rw [ensures_bind, ensures_answer]
  refine .ite (fun _ => .pop _ .same) fun _ => ?_
  cases c db with
  | none => exact .pop _ .same
  | some es =>
    dsimp only
    cases lookup (byteProbe key) es with
    | none => exact .pop _ .same
    | some e => exact .pop _ .same

theorem steps_put (t : ℕ) (db : DbName) (key val : Bytes) : Steps closes reads (mdbPut t db key val) := by
  intro e
  rw [mdbPut, ensures_bind]
  refine steps_withView t (fun e k c hkind => ?_) e
  rw [ensures_bind, ensures_read]
  refine .ite (fun _ => Env.Change.same.step) fun _ => ?_
  rw [ensures_bind, ensures_answer]
  refine .ite (fun _ => .pop _ .same) fun _ => ?_
  cases c db with
  | none => exact .pop _ .same
  | some es => exact .pop _ (.setView db _)

theorem steps_drop (t : ℕ) (db : DbName) (del : Bool) : Steps closes reads (mdbDrop t db del) := by
  intro e
  rw [mdbDrop, ensures_bind]
  refine steps_withView t (fun e k c hkind => ?_) e
  rw [ensures_bind, ensures_read]
  refine .ite (fun _ => Env.Change.same.step) fun _ => ?_
  rw [ensures_bind, ensures_answer]
  refine .ite (fun _ => .pop _ .same) fun _ => .ite (fun _ => .pop _ .same) fun _ => ?_
  exact .pop _ (.drop db _ _)

theorem steps_stat (t : ℕ) (db : DbName) : Steps closes reads (mdbStat t db) := by
  intro e
  rw [mdbStat, ensures_bind, ensures_read, id_eq]
  cases e.kind t with
  | none => trivial
  | some k =>
    dsimp only
    cases e.view t with
    | none => exact Env.Change.same.step
    | some c =>
      dsimp only
      rw [ensures_bind, ensures_answer]
      refine .ite (fun _ => .pop _ .same) fun _ => ?_
      cases c db with
      | none => exact .pop _ .same
      | some es => exact .pop _ .same

theorem steps_cursorOpen (t iTable : ℕ) : Steps closes reads (mdbCursorOpen t (.table iTable)) := by
  intro e
  rw [mdbCursorOpen, ensures_bind, ensures_read, id_eq]
  cases hkind : e.kind t with
  | none => trivial
  | some k =>
    dsimp only
    cases e.view t with
    | none => exact Env.Change.same.step
    | some c =>
      dsimp only
      rw [ensures_bind, ensures_answer]
      refine .ite (fun _ => .pop _ .same) fun _ => .ite (fun _ => .pop _ .same) fun _ => ?_
      have hlive : (e.pop .cursorOpen).kind t ≠ none := by
        rw [pop_kind, hkind]
        exact Option.some_ne_none k
      exact .pop _ (.cursorOpen hlive iTable)

theorem steps_cursorClose {o : Option ℕ} (ho : ∀ h ∈ o, closes h) : Steps closes reads (mdbCursorClose o) := by
  intro e
  cases o with
  | none => exact Env.Change.same.step
  | some h =>
    rw [mdbCursorClose, ensures_bind, ensures_read, id_eq]
    cases e.cursors h with
    | none => trivial
    | some c => exact (Env.Change.cursorClose (ho h rfl)).step

theorem steps_cursorGet (h : Option ℕ) (op : CursorOp) : Steps closes reads (mdbCursorGet h op) := by
  intro e
  cases h with
  | none => exact Env.Change.same.step
  | some h =>
    rw [mdbCursorGet, ensures_bind, ensures_read, id_eq]
    cases hc : e.cursors h with
    | none => trivial
    | some c =>
      dsimp only
      cases e.cursorView c with
      | none => trivial
      | some v =>
        dsimp only
        rw [ensures_bind, ensures_answer]
        have hpop : (e.pop .cursorGet).cursors h = some c := hc
        exact .ite (fun _ => .pop _ .same) fun _ => .pop _ (.move hpop _)

theorem steps_cursorPut (h : Option ℕ) (probe : Bytes → Ordering) (key val : Bytes) :
    Steps closes reads (mdbCursorPut h probe key val) := by
  intro e
  cases h with
  | none => exact Env.Change.same.step
  | some h =>
    rw [mdbCursorPut, ensures_bind, ensures_read, id_eq]
    cases hc : e.cursors h with
    | none => trivial
    | some c =>
      dsimp only
      refine .ite (fun _ => Env.Change.same.step) fun _ => ?_
      cases e.cursorView c with
      | none => trivial
      | some v =>
        dsimp only
        rw [ensures_bind, ensures_answer]
        have hpop : (e.pop .cursorPut).cursors h = some c := hc
        refine .ite (fun _ => .pop _ .same) fun _ => .ite (fun _ => .pop _ .same) fun _ => ?_
        exact .pop _ (.write hpop _ _ _)

theorem steps_cursorDel (h : Option ℕ) : Steps closes reads (mdbCursorDel h) := by
  intro e
  cases h with
  | none => trivial
  | some h =>
    rw [mdbCursorDel, ensures_bind, ensures_read, id_eq]
    cases hc : e.cursors h with
    | none => trivial
    | some c =>
      dsimp only
      refine .ite (fun _ => Env.Change.same.step) fun _ => ?_
      cases e.cursorView c with
      | none => trivial
      | some v =>
        dsimp only
        rw [ensures_bind, ensures_answer]
        have hpop : (e.pop .cursorDel).cursors h = some c := hc
        refine .ite (fun _ => .pop _ .same) fun _ => .ite (fun _ => .pop _ .same) fun _ => ?_
        exact .ite (fun _ => .pop _ .same) fun _ => .pop _ (.write hpop _ _ _)

theorem steps_txnBegin (parent : Option ℕ) {rdonly : Bool} (hr : rdonly = true → reads) : Steps closes reads (mdbTxnBegin parent rdonly) := by
  intro e
  rw [mdbTxnBegin, ensures_bind, ensures_read, id_eq]
  cases parent with
  | none =>
    refine .ite (fun _ => Env.Change.same.step) fun _ => ?_
    rw [ensures_bind, ensures_answer]
    refine .ite (fun _ => .pop _ .same) fun _ => .ite (fun h => .pop _ (.beginReader (hr h))) fun _ => ?_
    exact .ite (fun _ => trivial) fun _ => .pop _ .beginWriter
  | some t =>
    dsimp only
    cases e.kind t with
    | none => trivial
    | some k =>
      cases k with
      | readOnly => exact Env.Change.same.step
      | readWrite =>
        dsimp only
        cases e.view t with
        | none => exact Env.Change.same.step
        | some view =>
          refine .ite (fun _ => Env.Change.same.step) fun _ => ?_
          rw [ensures_bind, ensures_answer]
          exact .ite (fun _ => .pop _ .same) fun _ => .pop _ (.beginNested view)

theorem steps_txnAbort (t : ℕ) : Steps closes reads (mdbTxnAbort t) := by
  intro e
  rw [mdbTxnAbort, ensures_bind, ensures_read, id_eq]
  cases e.kind t with
  | none => trivial
  | some k =>
    cases k with
    | readOnly => exact (Env.Change.endReader t).step
    | readWrite => exact (Env.Change.abort t).step

theorem steps_txnCommit (t : ℕ) : Steps closes reads (mdbTxnCommit t) := by
  intro e
  rw [mdbTxnCommit, ensures_bind, ensures_read, id_eq]
  cases e.kind t with
  | none => trivial
  | some k =>
    cases k with
    | readOnly => exact (Env.Change.endReader t).step
    | readWrite =>
      dsimp only
      rw [ensures_bind, ensures_answer]
      exact .ite (fun _ => .pop _ (.abort t)) fun _ => .pop _ (.commit t)

end Calls

section Cursors

variable {closes : ℕ → Prop} {reads : Prop} {e e' : Env}

theorem mem_setView {db : DbName} {es : Option Entries} {t : WriteTxn} (ht : t ∈ (e.setView db es).writers) :
    ∃ u ∈ e.writers, u.id = t.id ∧ u.shadow = t.shadow := by
  rw [Env.setView] at ht
  cases hw : e.writers with
  | nil =>
    rw [hw] at ht
    cases ht
  | cons w rest =>
    rw [hw] at ht
    rcases List.mem_cons.mp ht with rfl | ht
    · exact ⟨w, List.mem_cons_self, rfl, rfl⟩
    · exact ⟨t, List.mem_cons_of_mem w ht, rfl, rfl⟩

theorem mem_outer {t : ℕ} {u : WriteTxn} (hu : u ∈ e.outer t) : u ∈ e.writers :=
  (List.dropWhile_sublist _).subset (List.mem_of_mem_tail hu)

theorem adjust_cursors {db : DbName} {f : ℕ → Position → Position} {h : ℕ} {c : MdbCursor}
    (hc : (e.adjust db f).cursors h = some c) : ∃ d, e.cursors h = some d ∧ d.txn = c.txn ∧ d.db = c.db := by
  simp only [Env.adjust] at hc
  cases hd : e.cursors h with
  | none => simp [hd] at hc
  | some d =>
    simp only [hd] at hc
    split_ifs at hc
    · obtain rfl := Option.some.inj hc
      exact ⟨d, rfl, rfl, rfl⟩
    · obtain rfl := Option.some.inj hc
      exact ⟨d, rfl, rfl, rfl⟩

theorem survivors_cursors {rest : List WriteTxn} {shadow : ℕ → Option MdbCursor} {h : ℕ} {c : MdbCursor}
    (hc : e.survivors rest shadow h = some c) : e.cursors h = some c ∨ shadow h = some c := by
  simp only [Env.survivors] at hc
  cases hd : e.cursors h with
  | none => simp [hd] at hc
  | some d =>
    simp only [hd] at hc
    split_ifs at hc
    cases hs : shadow h with
    | none => simpa [hs] using hc
    | some d' => exact .inr (by simpa [hs] using hc)

theorem shadowOf_cursors {t h : ℕ} {c : MdbCursor} (hc : e.shadowOf t h = some c) :
    ∃ u ∈ e.writers, u.shadow h = some c := by
  rw [Env.shadowOf] at hc
  cases hfind : e.writers.find? fun w => w.id = t with
  | none => simp [hfind] at hc
  | some u =>
    rw [hfind] at hc
    exact ⟨u, List.mem_of_find?_eq_some hfind, hc⟩

theorem commit_writers {t : ℕ} {u : WriteTxn} (hu : u ∈ (e.commit t).writers) :
    ∃ v ∈ e.writers, v.id = u.id ∧ v.shadow = u.shadow := by
  rw [Env.commit] at hu
  cases hw : e.writers with
  | nil =>
    rw [hw] at hu
    simp [hw] at hu
  | cons w ws =>
    rw [hw] at hu
    rw [← hw]
    dsimp only at hu
    cases houter : e.outer t with
    | nil =>
      rw [houter] at hu
      cases hu
    | cons p ps =>
      rw [houter] at hu
      rcases List.mem_cons.mp hu with rfl | hu
      · exact ⟨p, mem_outer (by rw [houter]; exact List.mem_cons_self), rfl, rfl⟩
      · exact ⟨u, mem_outer (by rw [houter]; exact List.mem_cons_of_mem p hu), rfl, rfl⟩

/-- A property of every cursor, those that would come back with a rollback included. -/
structure Env.AllCursors (P : ℕ → MdbCursor → Prop) (e : Env) : Prop where
  cursors : ∀ h c, e.cursors h = some c → P h c
  shadows : ∀ t ∈ e.writers, ∀ h c, t.shadow h = some c → P h c

variable {P : ℕ → MdbCursor → Prop}

theorem Env.AllCursors.setView (he : e.AllCursors P) (db : DbName) (es : Option Entries) :
    (e.setView db es).AllCursors P := by
  refine ⟨he.cursors, fun t ht h c hc => ?_⟩
  obtain ⟨u, hu, -, hshadow⟩ := mem_setView ht
  rw [← hshadow] at hc
  exact he.shadows u hu h c hc

theorem Env.AllCursors.adjust (hP : ∀ h c pos, P h c → P h { c with pos := pos }) (he : e.AllCursors P) (db : DbName)
    (f : ℕ → Position → Position) : (e.adjust db f).AllCursors P := by
  refine ⟨fun h c hc => ?_, he.shadows⟩
  obtain ⟨d, hd, htxn, hdb⟩ := adjust_cursors hc
  have hsame : c = { d with pos := c.pos } := by
    rw [htxn, hdb]
  rw [hsame]
  exact hP h d c.pos (he.cursors h d hd)

theorem Env.AllCursors.update (he : e.AllCursors P) {h : ℕ} {o : Option MdbCursor} (ho : ∀ c ∈ o, P h c) :
    ({ e with cursors := Function.update e.cursors h o }).AllCursors P := by
  refine ⟨fun h' c hc => ?_, he.shadows⟩
  by_cases hh : h' = h
  · subst hh
    have ho' : Function.update e.cursors h' o h' = some c := hc
    rw [Function.update_self] at ho'
    exact ho c ho'
  · have hc' : Function.update e.cursors h o h' = some c := hc
    rw [Function.update_of_ne hh] at hc'
    exact he.cursors h' c hc'

theorem Env.AllCursors.survivors (he : e.AllCursors P) {rest : List WriteTxn} {shadow : ℕ → Option MdbCursor}
    (hshadow : ∀ h c, shadow h = some c → P h c) {h : ℕ} {c : MdbCursor} (hc : e.survivors rest shadow h = some c) :
    P h c := by
  rcases survivors_cursors hc with hc | hc
  · exact he.cursors h c hc
  · exact hshadow h c hc

theorem survivors_none (he : e.AllCursors P) {rest : List WriteTxn} {h : ℕ} {c : MdbCursor}
    (hc : e.survivors rest (fun _ => none) h = some c) : P h c :=
  he.survivors (fun _ _ hnone => absurd hnone (Option.some_ne_none _).symm) hc

/-- What cursors are opened with, and no move changes, holds of all cursors. -/
theorem Env.Change.allCursors (hP : ∀ h c pos, P h c → P h { c with pos := pos })
    (hopen : ∀ t iTable, e.kind t ≠ none → e.next < e'.next → P e.next ⟨t, .table iTable, .unset⟩) (hchange : e.Change closes reads e')
    (he : e.AllCursors P) : e'.AllCursors P := by
  cases hchange with
  | same => exact he
  | setView db es => exact he.setView db es
  | drop db es f => exact (he.setView db es).adjust hP db f
  | @move h c hc pos =>
    refine he.update fun d hd => ?_
    obtain rfl := Option.some.inj hd
    exact hP h c pos (he.cursors h c hc)
  | @write h c hc es f pos =>
    refine ((he.setView c.db es).adjust hP c.db f).update fun d hd => ?_
    obtain rfl := Option.some.inj hd
    exact hP h c pos (he.cursors h c hc)
  | @cursorOpen t ht iTable =>
    have hset := he.update (h := e.next) (o := some ⟨t, .table iTable, .unset⟩) fun d hd => by
      obtain rfl := Option.some.inj hd
      exact hopen t iTable ht (Nat.lt_succ_self _)
    exact ⟨hset.cursors, hset.shadows⟩
  | cursorClose h => exact he.update (o := none) fun _ hd => absurd hd (Option.not_mem_none _)
  | beginReader => exact ⟨he.cursors, he.shadows⟩
  | beginWriter =>
    refine ⟨he.cursors, fun t ht => ?_⟩
    obtain rfl := List.mem_singleton.mp ht
    exact he.cursors
  | beginNested view =>
    refine ⟨he.cursors, fun t ht => ?_⟩
    rcases List.mem_cons.mp ht with rfl | ht
    · exact he.cursors
    · exact he.shadows t ht
  | endReader t => exact ⟨he.cursors, he.shadows⟩
  | abort t =>
    refine ⟨fun h c hc => he.survivors (fun h c hc => ?_) hc, fun u hu => he.shadows u (mem_outer hu)⟩
    obtain ⟨u, hu, hshadow⟩ := shadowOf_cursors hc
    exact he.shadows u hu h c hshadow
  | commit t =>
    have hshadows : ∀ u ∈ (e.commit t).writers, ∀ h c, u.shadow h = some c → P h c := by
      intro u hu h c hc
      obtain ⟨v, hv, -, hshadow⟩ := commit_writers hu
      rw [← hshadow] at hc
      exact he.shadows v hv h c hc
    refine ⟨fun h c hc => ?_, hshadows⟩
    rw [Env.commit] at hc
    cases hw : e.writers with
    | nil =>
      rw [hw] at hc
      exact he.cursors h c hc
    | cons w ws =>
      rw [hw] at hc
      exact survivors_none he hc
  | close => exact ⟨fun _ _ hc => (by cases hc), fun _ ht => (by cases ht)⟩

/-- Changes use up no codes. -/
theorem Env.Change.answers (h : e.Change closes reads e') : e'.answers = e.answers := by
  cases h with
  | commit t =>
    rw [Env.commit]
    cases e.writers <;> rfl
  | _ => rfl

end Cursors

/-- Transactions and cursors have numbers below the next one to be given. -/
structure Env.Issued (e : Env) : Prop where
  writers : ∀ t ∈ e.writers, t.id < e.next
  readers : ∀ r ∈ e.readers, r.id < e.next
  cursors : e.AllCursors fun h c => h < e.next ∧ c.txn < e.next

section Issued

variable {closes : ℕ → Prop} {reads : Prop} {e e' : Env}

theorem Env.Issued.kind (he : e.Issued) {t : ℕ} (ht : e.kind t ≠ none) : t < e.next := by
  rw [Env.kind] at ht
  split_ifs at ht with hw hr
  · obtain ⟨u, hu, rfl⟩ := List.mem_map.mp hw
    exact he.writers u hu
  · obtain ⟨r, hmem, rfl⟩ := List.mem_map.mp hr
    exact he.readers r hmem
  · exact absurd rfl ht

theorem commit_next (t : ℕ) : (e.commit t).next = e.next ∧ (e.commit t).readers = e.readers := by
  rw [Env.commit]
  cases e.writers with
  | nil => exact ⟨rfl, rfl⟩
  | cons w ws => exact ⟨rfl, rfl⟩

theorem Env.Change.next_le (h : e.Change closes reads e') : e.next ≤ e'.next := by
  cases h with
  | cursorOpen | beginReader | beginWriter | beginNested => exact Nat.le_succ e.next
  | commit t => exact (commit_next t).1.ge
  | same | setView | drop | move | write | cursorClose | endReader | abort | close => exact Nat.le_refl e.next

/-- Numbers are given in order. -/
theorem Env.Change.issued (h : e.Change closes reads e') (he : e.Issued) : e'.Issued := by
  have hnext := h.next_le
  have hcursors : e'.AllCursors fun h c => h < e'.next ∧ c.txn < e'.next := by
    refine h.allCursors (fun _ _ _ hc => hc) (fun t iTable ht hlt => ⟨hlt, (he.kind ht).trans_le hnext⟩) ?_
    refine ⟨fun h c hc => ?_, fun t ht h c hc => ?_⟩
    · exact (he.cursors.cursors h c hc).imp hnext.trans_lt' hnext.trans_lt'
    · exact (he.cursors.shadows t ht h c hc).imp hnext.trans_lt' hnext.trans_lt'
  refine ⟨fun t ht => ?_, fun r hr => ?_, hcursors⟩
  · cases h with
    | same => exact he.writers t ht
    | setView | drop | write =>
      obtain ⟨u, hu, hid, -⟩ := mem_setView ht
      rw [← hid]
      exact he.writers u hu
    | move | cursorClose | beginReader | endReader => exact (he.writers t ht).trans_le hnext
    | cursorOpen => exact (he.writers t ht).trans_le hnext
    | beginWriter =>
      obtain rfl := List.mem_singleton.mp ht
      exact Nat.lt_succ_self e.next
    | beginNested =>
      rcases List.mem_cons.mp ht with rfl | ht
      · exact Nat.lt_succ_self e.next
      · exact (he.writers t ht).trans_le hnext
    | abort => exact he.writers t (mem_outer ht)
    | commit =>
      obtain ⟨u, hu, hid, -⟩ := commit_writers ht
      rw [← hid, (commit_next _).1]
      exact he.writers u hu
    | close => cases ht
  · cases h with
    | beginReader =>
      rcases List.mem_cons.mp hr with rfl | hr
      · exact Nat.lt_succ_self e.next
      · exact (he.readers r hr).trans_le hnext
    | endReader => exact he.readers r (List.mem_of_mem_filter hr)
    | commit =>
      rw [(commit_next _).2] at hr
      rw [(commit_next _).1]
      exact he.readers r hr
    | close => cases hr
    | same | setView | drop | move | write | cursorOpen | cursorClose | beginWriter | beginNested | abort =>
      exact (he.readers r hr).trans_le hnext

theorem Env.Step.issued (h : e.Step closes reads e') (he : e.Issued) : e'.Issued ∧ e.next ≤ e'.next := by
  obtain ⟨codes, -, hchange⟩ := h
  exact ⟨hchange.issued ⟨he.writers, he.readers, he.cursors.cursors, he.cursors.shadows⟩, hchange.next_le⟩

end Issued

end LumoSql.Lmdb
