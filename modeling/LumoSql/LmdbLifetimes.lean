import LumoSql.LmdbSteps

/-! How long transactions and cursors of LMDB live: a transaction that has ended does not come back, and a cursor
that is not closed lives as long as its transaction. -/
namespace LumoSql.Lmdb
open StateLogic

/-- The transaction has begun and has not ended. -/
def Env.Live (e : Env) (t : ℕ) : Prop := e.kind t ≠ none

/-- No transaction is for reading and for writing. -/
def Env.Disjoint (e : Env) : Prop := ∀ u ∈ e.writers, ∀ r ∈ e.readers, u.id ≠ r.id

/-- Cursor `h` is there, and it is, and comes back as, a cursor of `t` on `db`. -/
structure Env.Pinned (e : Env) (h t : ℕ) (db : DbName) : Prop where
  present : e.cursors h ≠ none
  same : e.AllCursors fun h' c => h' = h → c.txn = t ∧ c.db = db

section Transactions

variable {closes : ℕ → Prop} {reads : Prop} {e e' : Env} {t : ℕ}

theorem live_iff : e.Live t ↔ t ∈ e.writers.map WriteTxn.id ∨ t ∈ e.readers.map ReadTxn.id := by
  rw [Env.Live, Env.kind]
  split_ifs with hw hr
  · simp [hw]
  · simp [hr]
  · simp [hw, hr]

theorem setView_ids (db : DbName) (es : Option Entries) :
    (e.setView db es).writers.map WriteTxn.id = e.writers.map WriteTxn.id := by
  rw [Env.setView]
  cases e.writers <;> rfl

theorem outer_ids_subset (t : ℕ) : (e.outer t).map WriteTxn.id ⊆ e.writers.map WriteTxn.id := by
  intro n hn
  obtain ⟨u, hu, rfl⟩ := List.mem_map.mp hn
  exact List.mem_map_of_mem (mem_outer hu)

/-- A commit leaves the transactions that an abort leaves. -/
theorem commit_ids (t : ℕ) : (e.commit t).writers.map WriteTxn.id = (e.outer t).map WriteTxn.id := by
  rw [Env.commit]
  cases hw : e.writers with
  | nil => simp [Env.outer, hw]
  | cons w ws =>
    dsimp only
    cases e.outer t <;> rfl

/-- Transactions that are alive have been so, or have just begun. -/
theorem Env.Change.ids (hc : e.Change closes reads e') :
    (∀ n ∈ e'.writers.map WriteTxn.id, n ∈ e.writers.map WriteTxn.id ∨ n = e.next ∧ e'.readers = e.readers) ∧
      ∀ n ∈ e'.readers.map ReadTxn.id, n ∈ e.readers.map ReadTxn.id ∨ n = e.next ∧ e'.writers = e.writers := by
  cases hc with
  | same | move | cursorOpen | cursorClose => exact ⟨fun _ => .inl, fun _ => .inl⟩
  | setView | drop | write =>
    refine ⟨fun n hn => .inl ?_, fun _ => .inl⟩
    rwa [← setView_ids]
  | beginReader =>
    refine ⟨fun _ => .inl, fun n hn => ?_⟩
    rcases List.mem_cons.mp hn with hn | hn
    · exact .inr ⟨hn, rfl⟩
    · exact .inl hn
  | beginWriter => exact ⟨fun n hn => .inr ⟨List.mem_singleton.mp hn, rfl⟩, fun _ => .inl⟩
  | beginNested =>
    refine ⟨fun n hn => ?_, fun _ => .inl⟩
    rcases List.mem_cons.mp hn with hn | hn
    · exact .inr ⟨hn, rfl⟩
    · exact .inl hn
  | endReader t =>
    refine ⟨fun _ => .inl, fun n hn => .inl ?_⟩
    obtain ⟨r, hr, rfl⟩ := List.mem_map.mp hn
    exact List.mem_map_of_mem (List.mem_of_mem_filter hr)
  | abort t => exact ⟨fun n hn => .inl (outer_ids_subset t hn), fun _ => .inl⟩
  | commit t =>
    refine ⟨fun n hn => .inl ?_, fun n hn => .inl ?_⟩
    · rw [commit_ids] at hn
      exact outer_ids_subset t hn
    · rwa [← (commit_next t).2]
  | close =>
    exact ⟨fun _ hn => absurd hn List.not_mem_nil, fun _ hn => absurd hn List.not_mem_nil⟩

/-- What has ended stays so. -/
theorem Env.Change.live (hc : e.Change closes reads e') (ht : t < e.next) (hlive : e'.Live t) : e.Live t := by
  obtain ⟨hwriters, hreaders⟩ := hc.ids
  rw [live_iff] at hlive ⊢
  rcases hlive with hw | hr
  · rcases hwriters t hw with hw | ⟨rfl, -⟩
    · exact .inl hw
    · exact absurd ht (lt_irrefl _)
  · rcases hreaders t hr with hr | ⟨rfl, -⟩
    · exact .inr hr
    · exact absurd ht (lt_irrefl _)

theorem Env.Change.disjoint (hc : e.Change closes reads e') (he : e.Issued) (hd : e.Disjoint) : e'.Disjoint := by
  obtain ⟨hwriters, hreaders⟩ := hc.ids
  intro u hu r hr heq
  have hu' := hwriters u.id (List.mem_map_of_mem hu)
  have hr' := hreaders r.id (List.mem_map_of_mem hr)
  rcases hu' with hu' | ⟨hu', hsame⟩
  · obtain ⟨v, hv, hid⟩ := List.mem_map.mp hu'
    rcases hr' with hr' | ⟨hr', -⟩
    · obtain ⟨q, hq, hid'⟩ := List.mem_map.mp hr'
      exact hd v hv q hq (by rw [hid, hid', heq])
    · have := he.writers v hv
      omega
  · rw [hsame] at hr
    have := he.readers r hr
    omega

/-- Without new snapshots no transaction for reading appears. -/
theorem Env.Change.no_readers (hc : e.Change closes False e') (he : e.readers = []) : e'.readers = [] := by
  cases hc with
  | same | setView | drop | move | write | cursorOpen | cursorClose | beginWriter | beginNested | abort => exact he
  | beginReader hr => exact hr.elim
  | endReader t => rw [Env.endReader, he, List.filter_nil]
  | commit t => rw [(commit_next t).2, he]
  | close => rfl

end Transactions

section Cursors

variable {closes : ℕ → Prop} {reads : Prop} {e e' : Env} {h t : ℕ} {db : DbName}

theorem Env.Pinned.below (hp : e.Pinned h t db) (he : e.Issued) : h < e.next ∧ t < e.next := by
  obtain ⟨c, hc⟩ := Option.ne_none_iff_exists'.mp hp.present
  obtain ⟨rfl, -⟩ := hp.same.cursors h c hc rfl
  exact he.cursors.cursors h c hc

theorem adjust_present {f : ℕ → Position → Position} (hp : e.cursors h ≠ none) : (e.adjust db f).cursors h ≠ none := by
  obtain ⟨c, hc⟩ := Option.ne_none_iff_exists'.mp hp
  simp only [Env.adjust, hc]
  split_ifs <;> exact Option.some_ne_none _

theorem update_present {h' : ℕ} {c : MdbCursor} (hp : e.cursors h ≠ none) :
    Function.update e.cursors h' (some c) h ≠ none := by
  by_cases hh : h = h'
  · rw [hh, Function.update_self]
    exact Option.some_ne_none c
  · rwa [Function.update_of_ne hh]

/-- A cursor goes with its transaction only. -/
theorem survivors_present {rest : List WriteTxn} {shadow : ℕ → Option MdbCursor} {c : MdbCursor}
    (hc : e.cursors h = some c) (hrest : c.txn ∈ e.writers.map WriteTxn.id → c.txn ∈ rest.map WriteTxn.id) :
    e.survivors rest shadow h ≠ none := by
  simp only [Env.survivors, hc]
  rw [if_neg fun hended => hended.2 (hrest hended.1)]
  exact Option.some_ne_none _

/-- A cursor that is not closed lives as long as its transaction. -/
theorem Env.Change.pinned (hc : e.Change closes reads e') (he : e.Issued) (hd : e.Disjoint) (hp : e.Pinned h t db)
    (hspared : ¬ closes h) (hlive : e'.Live t) : e'.Pinned h t db := by
  have hbelow := (hp.below he).1
  obtain ⟨c, hcur⟩ := Option.ne_none_iff_exists'.mp hp.present
  obtain ⟨htxn, -⟩ := hp.same.cursors h c hcur rfl
  -- a transaction for writing that is alive afterwards is one of those that are left
  have hleft : ∀ rest : List WriteTxn, e'.writers.map WriteTxn.id = rest.map WriteTxn.id → e'.readers = e.readers →
      c.txn ∈ e.writers.map WriteTxn.id → c.txn ∈ rest.map WriteTxn.id := by
    intro rest hids hsame hwriter
    rw [htxn] at hwriter ⊢
    rcases live_iff.mp hlive with hw | hr
    · rwa [hids] at hw
    · obtain ⟨u, hu, hid⟩ := List.mem_map.mp hwriter
      obtain ⟨r, hr, hid'⟩ := List.mem_map.mp hr
      exact absurd (hid.trans hid'.symm) (hd u hu r (hsame ▸ hr))
  refine ⟨?_, ?_⟩
  · cases hc with
    | same | setView | beginReader | beginWriter | beginNested | endReader => exact hp.present
    | drop => exact adjust_present hp.present
    | move => exact update_present hp.present
    | @write h' d hd' es f pos =>
      exact update_present (e := (e.setView d.db es).adjust d.db f) (adjust_present (e := e.setView d.db es) hp.present)
    | cursorOpen => exact update_present hp.present
    | @cursorClose h' hh =>
      have hne : h ≠ h' := by
        rintro rfl
        exact hspared hh
      dsimp only
      rw [Function.update_of_ne hne]
      exact hp.present
    | abort t' => exact survivors_present hcur (hleft (e.outer t') rfl rfl)
    | commit t' =>
      have hrest := hleft (e.outer t') (commit_ids t') (commit_next t').2
      rw [Env.commit]
      cases hw : e.writers with
      | nil => exact hp.present
      | cons w ws =>
        dsimp only
        exact survivors_present hcur hrest
    | close hall => exact absurd (hall h) hspared
  · refine hc.allCursors (fun h' d pos hP => hP) (fun t' iTable _ _ heq => ?_) hp.same
    omega

end Cursors

section Steps

variable {closes : ℕ → Prop} {reads : Prop} {e e' : Env} {h t : ℕ} {db : DbName}

theorem Env.Step.live (hs : e.Step closes reads e') (ht : t < e.next) (hlive : e'.Live t) : e.Live t := by
  obtain ⟨codes, -, hc⟩ := hs
  exact hc.live ht hlive

theorem Env.Step.disjoint (hs : e.Step closes reads e') (he : e.Issued) (hd : e.Disjoint) : e'.Disjoint := by
  obtain ⟨codes, -, hc⟩ := hs
  exact hc.disjoint ⟨he.writers, he.readers, he.cursors.cursors, he.cursors.shadows⟩ hd

theorem Env.Step.pinned (hs : e.Step closes reads e') (he : e.Issued) (hd : e.Disjoint) (hp : e.Pinned h t db)
    (hspared : ¬ closes h) (hlive : e'.Live t) : e'.Pinned h t db := by
  obtain ⟨codes, -, hc⟩ := hs
  exact hc.pinned ⟨he.writers, he.readers, he.cursors.cursors, he.cursors.shadows⟩ hd
    ⟨hp.present, hp.same.cursors, hp.same.shadows⟩ hspared hlive

theorem Env.Step.no_readers (hs : e.Step closes False e') (he : e.readers = []) : e'.readers = [] := by
  obtain ⟨codes, -, hc⟩ := hs
  exact hc.no_readers he

end Steps

end LumoSql.Lmdb
