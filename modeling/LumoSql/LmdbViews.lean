import LumoSql.LmdbSteps

/-! What holds of everything that is seen: of the contents on the disk and of what each transaction
sees. Transactions that begin and end only hand contents on. -/
namespace LumoSql.Lmdb
open StateLogic

structure Env.AllViews (P : Contents → Prop) (e : Env) : Prop where
  disk : P e.disk.contents
  writers : ∀ t ∈ e.writers, P t.view
  readers : ∀ r ∈ e.readers, P r.view

/-- What is kept by calls that keep `P` in all that is seen. -/
def ViewsFrame (P : Contents → Prop) (e e' : Env) : Prop := e.AllViews P → e'.AllViews P

section Views

variable {P : Contents → Prop} {e : Env}

instance : Frame (ViewsFrame P) where
  refl _ := id
  trans h h' he := h' (h he)

theorem Env.AllViews.view (he : e.AllViews P) {t : ℕ} {c : Contents} (hview : e.view t = some c) : P c := by
  have hreader : (e.readers.find? fun r => r.id = t).map ReadTxn.view = some c → P c := by
    intro hfind
    obtain ⟨r, hr, rfl⟩ := Option.map_eq_some_iff.mp hfind
    exact he.readers r (List.mem_of_find?_eq_some hr)
  rw [Env.view] at hview
  cases hw : e.writers with
  | nil =>
    rw [hw] at hview
    exact hreader hview
  | cons w rest =>
    rw [hw] at hview
    dsimp only at hview
    split_ifs at hview with hid hrest
    · obtain rfl := Option.some.inj hview
      exact he.writers w (by rw [hw]; exact List.mem_cons_self)
    · exact hreader hview

theorem Env.AllViews.outer (he : e.AllViews P) (t : ℕ) : ∀ u ∈ e.outer t, P u.view :=
  fun u hu => he.writers u (mem_outer hu)

theorem Env.AllViews.abort (he : e.AllViews P) (t : ℕ) : (e.abort t).AllViews P :=
  ⟨he.disk, he.outer t, he.readers⟩

theorem Env.AllViews.commit (he : e.AllViews P) (t : ℕ) : (e.commit t).AllViews P := by
  rw [Env.commit]
  cases hw : e.writers with
  | nil => exact he
  | cons w rest =>
    have hhead : P w.view := he.writers w (by rw [hw]; exact List.mem_cons_self)
    dsimp only
    cases houter : e.outer t with
    | nil => exact ⟨hhead, fun u hu => absurd hu List.not_mem_nil, he.readers⟩
    | cons p ps =>
      refine ⟨he.disk, fun u hu => ?_, he.readers⟩
      rcases List.mem_cons.mp hu with rfl | hu
      · exact hhead
      · exact he.outer t u (by rw [houter]; exact List.mem_cons_of_mem p hu)

theorem Env.AllViews.endReader (he : e.AllViews P) (t : ℕ) : (e.endReader t).AllViews P :=
  ⟨he.disk, he.writers, fun r hr => he.readers r (List.mem_of_mem_filter hr)⟩

theorem Env.AllViews.beginReader (he : e.AllViews P) : e.beginReader.AllViews P := by
  refine ⟨he.disk, he.writers, fun r hr => ?_⟩
  rcases List.mem_cons.mp hr with rfl | hr
  · exact he.disk
  · exact he.readers r hr

theorem Env.AllViews.beginWriter (he : e.AllViews P) : e.beginWriter.AllViews P := by
  refine ⟨he.disk, fun u hu => ?_, he.readers⟩
  obtain rfl := List.mem_singleton.mp hu
  exact he.disk

theorem Env.AllViews.beginNested (he : e.AllViews P) {view : Contents} (hview : P view) :
    (e.beginNested view).AllViews P := by
  refine ⟨he.disk, fun u hu => ?_, he.readers⟩
  rcases List.mem_cons.mp hu with rfl | hu
  · exact hview
  · exact he.writers u hu

theorem Env.AllViews.pop (he : e.AllViews P) (c : Fallible) : (e.pop c).AllViews P :=
  ⟨he.disk, he.writers, he.readers⟩

theorem Env.AllViews.setView (he : e.AllViews P) {db : DbName} {es : Option Entries}
    (hes : ∀ t ∈ e.writers.head?, P (Function.update t.view db es)) : (e.setView db es).AllViews P := by
  refine ⟨he.disk, fun u hu => ?_, he.readers⟩
  cases hw : e.writers with
  | nil =>
    rw [Env.setView, hw] at hu
    cases hu
  | cons t ts =>
    rw [setView_writers hw] at hu
    rcases List.mem_cons.mp hu with rfl | hu
    · exact hes t (by rw [hw]; exact rfl)
    · exact he.writers u (by rw [hw]; exact List.mem_cons_of_mem t hu)

theorem views_txnBegin (parent : Option ℕ) (rdonly : Bool) : Keeps (ViewsFrame P) (mdbTxnBegin parent rdonly) := by
  intro e
  rw [mdbTxnBegin, ensures_bind, ensures_read, id_eq]
  cases parent with
  | none =>
    refine .ite (fun _ => id) fun _ => ?_
    rw [ensures_bind, ensures_answer]
    refine .ite (fun _ he => he.pop _) fun _ => .ite (fun _ he => (he.pop _).beginReader) fun _ => ?_
    exact .ite (fun _ => trivial) fun _ he => (he.pop _).beginWriter
  | some t =>
    dsimp only
    cases e.kind t with
    | none => trivial
    | some k =>
      cases k with
      | readOnly => exact id
      | readWrite =>
        dsimp only
        cases hview : e.view t with
        | none => exact id
        | some view =>
          refine .ite (fun _ => id) fun _ => ?_
          rw [ensures_bind, ensures_answer]
          exact .ite (fun _ he => he.pop _) fun _ he => (he.pop _).beginNested (he.view hview)

theorem views_txnAbort (t : ℕ) : Keeps (ViewsFrame P) (mdbTxnAbort t) := by
  intro e
  rw [mdbTxnAbort, ensures_bind, ensures_read, id_eq]
  cases e.kind t with
  | none => trivial
  | some k =>
    cases k with
    | readOnly => exact fun he => he.endReader t
    | readWrite => exact fun he => he.abort t

theorem views_txnCommit (t : ℕ) : Keeps (ViewsFrame P) (mdbTxnCommit t) := by
  intro e
  rw [mdbTxnCommit, ensures_bind, ensures_read, id_eq]
  cases e.kind t with
  | none => trivial
  | some k =>
    cases k with
    | readOnly => exact fun he => he.endReader t
    | readWrite =>
      dsimp only
      rw [ensures_bind, ensures_answer]
      exact .ite (fun _ he => (he.pop _).abort t) fun _ he => (he.pop _).commit t

end Views

end LumoSql.Lmdb
