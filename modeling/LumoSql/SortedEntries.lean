import Mathlib.Data.List.Basic
import Mathlib.Data.List.Pairwise
import Mathlib.Order.Lattice

/-! Lists of entries in the order of their keys. A key to look for is a probe: how it
compares with a key of the list. -/
namespace LumoSql.SortedEntries

variable {κ υ ρ : Type*}

/-- The first entry that is not below the probe. -/
def lowerBound (probe : κ → Ordering) (es : List (κ × υ)) : ℕ :=
  es.findIdx fun e => probe e.1 != .gt

/-- The entry equal to the probe, if the list has one where it belongs. -/
def lookup (probe : κ → Ordering) (es : List (κ × υ)) : Option (κ × υ) :=
  es[lowerBound probe es]?.filter fun e => probe e.1 == .eq

/-- Put `e` where the probe belongs; an equal entry `o` becomes `merge o`. -/
def place (probe : κ → Ordering) (e : κ × υ) (merge : κ × υ → κ × υ) (es : List (κ × υ)) :
    List (κ × υ) :=
  match lookup probe es with
  | some o => es.take (lowerBound probe es) ++ merge o :: es.drop (lowerBound probe es + 1)
  | none => es.take (lowerBound probe es) ++ e :: es.drop (lowerBound probe es)

/-- The entries are in strictly ascending order of `rank`. -/
def Ascending [LT ρ] (rank : κ → ρ) (es : List (κ × υ)) : Prop :=
  es.Pairwise fun a b => rank a.1 < rank b.1

theorem lowerBound_le (probe : κ → Ordering) (es : List (κ × υ)) :
    lowerBound probe es ≤ es.length := List.findIdx_le_length

theorem Ascending.eraseIdx [LT ρ] {rank : κ → ρ} {es : List (κ × υ)} (h : Ascending rank es)
    (i : ℕ) : Ascending rank (es.eraseIdx i) := h.sublist (List.eraseIdx_sublist es i)

section Graded

variable {probe : κ → Ordering} {es : List (κ × υ)}

/-- The entries below the probe come first, those above it last. -/
def Graded (probe : κ → Ordering) (es : List (κ × υ)) : Prop :=
  es.Pairwise fun a b => (probe b.1 = .gt → probe a.1 = .gt) ∧ (probe a.1 = .lt → probe b.1 = .lt)

theorem gt_of_lt_lowerBound {i : ℕ} {e : κ × υ} (hi : i < lowerBound probe es) (he : es[i]? = some e) :
    probe e.1 = .gt := by
  obtain ⟨hlt, rfl⟩ := List.getElem?_eq_some_iff.mp he
  have hnot := List.not_of_lt_findIdx hi
  simpa using hnot

theorem ne_gt_of_lowerBound {e : κ × υ} (he : es[lowerBound probe es]? = some e) : probe e.1 ≠ .gt := by
  obtain ⟨hlt, rfl⟩ := List.getElem?_eq_some_iff.mp he
  have hfound := List.findIdx_getElem (w := hlt)
  simp only [bne_iff_ne, ne_eq] at hfound
  exact hfound

theorem gt_of_lowerBound_none (h : es[lowerBound probe es]? = none) : ∀ e ∈ es, probe e.1 = .gt := by
  intro e he
  obtain ⟨i, hi, rfl⟩ := List.getElem_of_mem he
  have hlen := List.getElem?_eq_none_iff.mp h
  exact gt_of_lt_lowerBound (by omega) (List.getElem?_eq_getElem hi)

/-- If the entry at the lower bound is above the probe, no entry is equal to it. -/
theorem Graded.ne_eq (h : Graded probe es) {e : κ × υ} (he : es[lowerBound probe es]? = some e)
    (hlt : probe e.1 = .lt) : ∀ x ∈ es, probe x.1 ≠ .eq := by
  intro x hx heq
  obtain ⟨hb, rfl⟩ := List.getElem?_eq_some_iff.mp he
  obtain ⟨i, hi, rfl⟩ := List.getElem_of_mem hx
  rcases Nat.lt_trichotomy i (lowerBound probe es) with hlow | rfl | hhigh
  · rw [gt_of_lt_lowerBound hlow (List.getElem?_eq_getElem hi)] at heq
    cases heq
  · rw [hlt] at heq
    cases heq
  · have := (List.pairwise_iff_getElem.mp h _ _ hb hi hhigh).2 hlt
    rw [this] at heq
    cases heq

theorem mem_of_lookup {e : κ × υ} (h : lookup probe es = some e) :
    es[lowerBound probe es]? = some e ∧ probe e.1 = .eq := by
  obtain ⟨he, hq⟩ := Option.filter_eq_some_iff.mp h
  exact ⟨he, by simpa using hq⟩

theorem Graded.lookup_none (h : Graded probe es) (hl : lookup probe es = none) : ∀ e ∈ es, probe e.1 ≠ .eq := by
  cases he : es[lowerBound probe es]? with
  | none =>
    intro e hmem heq
    rw [gt_of_lowerBound_none he e hmem] at heq
    cases heq
  | some e =>
    have hne : probe e.1 ≠ .eq := by
      intro heq
      rw [lookup, he, Option.filter_some, if_pos (by simp [heq])] at hl
      cases hl
    have hlt : probe e.1 = .lt := by
      cases hp : probe e.1 with
      | lt => rfl
      | eq => exact absurd hp hne
      | gt => exact absurd hp (ne_gt_of_lowerBound he)
    exact h.ne_eq he hlt

/-- Placing an entry changes the first one that is equal to the probe, or is the only such one. -/
theorem Graded.filter_eq_place (h : Graded probe es) {e : κ × υ} {merge : κ × υ → κ × υ}
    (he : probe e.1 = .eq) (hm : ∀ o, probe o.1 = .eq → probe (merge o).1 = .eq) :
    (place probe e merge es).filter (fun x => probe x.1 = .eq) =
      match es.filter (fun x => probe x.1 = .eq) with
      | [] => [e]
      | o :: rest => merge o :: rest := by
  have htake : (es.take (lowerBound probe es)).filter (fun x => probe x.1 = .eq) = [] := by
    rw [List.filter_eq_nil_iff]
    intro x hx
    obtain ⟨i, hi, rfl⟩ := List.getElem_of_mem hx
    rw [List.length_take] at hi
    have hlow : i < lowerBound probe es := by omega
    have hgt := gt_of_lt_lowerBound hlow (List.getElem?_eq_getElem (l := es) (by omega))
    simp [List.getElem_take, hgt]
  have hsplit := List.take_append_drop (lowerBound probe es) es
  rw [place]
  cases hl : lookup probe es with
  | none =>
    have hnone : ∀ l : List (κ × υ), l ⊆ es → l.filter (fun x => probe x.1 = .eq) = [] := by
      intro l hsub
      rw [List.filter_eq_nil_iff]
      intro x hx
      simpa using h.lookup_none hl x (hsub hx)
    rw [hnone es (List.Subset.refl es)]
    simp only [List.filter_append, List.filter_cons, he, decide_true, if_true,
      hnone _ (List.take_subset _ es), hnone _ (List.drop_subset _ es), List.nil_append]
  | some o =>
    obtain ⟨hlt, ho⟩ := List.getElem?_eq_some_iff.mp (mem_of_lookup hl).1
    have hoeq := (mem_of_lookup hl).2
    have hcons : es.drop (lowerBound probe es) = o :: es.drop (lowerBound probe es + 1) := by
      rw [List.drop_eq_getElem_cons hlt, ho]
    have hall : es.filter (fun x => probe x.1 = .eq) =
        o :: (es.drop (lowerBound probe es + 1)).filter (fun x => probe x.1 = .eq) := by
      conv_lhs => rw [← hsplit, hcons]
      rw [List.filter_append, htake, List.nil_append, List.filter_cons, if_pos (by simpa using hoeq)]
    rw [hall]
    simp only [List.filter_append, htake, List.filter_cons, hm o hoeq, decide_true, if_true, List.nil_append]

/-- The entry that was placed stands at the lower bound. -/
theorem getElem?_place (e : κ × υ) (merge : κ × υ → κ × υ) :
    (place probe e merge es)[lowerBound probe es]? = some ((lookup probe es).elim e merge) := by
  have hlen : (es.take (lowerBound probe es)).length = lowerBound probe es := by
    rw [List.length_take, Nat.min_eq_left (lowerBound_le probe es)]
  have hget : ∀ (x : κ × υ) (rest : List (κ × υ)),
      (es.take (lowerBound probe es) ++ x :: rest)[lowerBound probe es]? = some x := by
    intro x rest
    rw [List.getElem?_append_right (Nat.le_of_eq hlen), hlen, Nat.sub_self, List.getElem?_cons_zero]
  rw [place]
  cases lookup probe es <;> exact hget _ _

end Graded

section Search

variable [LinearOrder ρ] {rank : κ → ρ} {probe : κ → Ordering} {x : ρ} {es : List (κ × υ)}

/-- The probe looks for the rank `x` in the list. -/
def Probes (probe : κ → Ordering) (rank : κ → ρ) (x : ρ) (es : List (κ × υ)) : Prop :=
  ∀ e ∈ es, probe e.1 = compare x (rank e.1)

theorem Probes.gt_iff (hp : Probes probe rank x es) {e : κ × υ} (he : e ∈ es) :
    probe e.1 = .gt ↔ rank e.1 < x := by
  rw [hp e he, compare_gt_iff_gt]

theorem Probes.eq_iff (hp : Probes probe rank x es) {e : κ × υ} (he : e ∈ es) :
    probe e.1 = .eq ↔ x = rank e.1 := by
  rw [hp e he, compare_eq_iff_eq]

theorem rank_lt_of_lt_lowerBound (hp : Probes probe rank x es) {i : ℕ} {e : κ × υ}
    (hi : i < lowerBound probe es) (he : es[i]? = some e) : rank e.1 < x := by
  obtain ⟨hlt, rfl⟩ := List.getElem?_eq_some_iff.mp he
  have hnot := List.not_of_lt_findIdx hi
  rw [← hp.gt_iff (List.getElem_mem hlt)]
  simpa using hnot

theorem le_rank_of_lowerBound (hp : Probes probe rank x es) {e : κ × υ}
    (he : es[lowerBound probe es]? = some e) : x ≤ rank e.1 := by
  obtain ⟨hlt, rfl⟩ := List.getElem?_eq_some_iff.mp he
  have hfound := List.findIdx_getElem (w := hlt)
  rw [← not_lt, ← hp.gt_iff (List.getElem_mem hlt)]
  simp only [bne_iff_ne, ne_eq] at hfound
  exact hfound

theorem Ascending.le_rank (h : Ascending rank es) (hp : Probes probe rank x es) {i : ℕ} {e : κ × υ}
    (hi : lowerBound probe es ≤ i) (he : es[i]? = some e) : x ≤ rank e.1 := by
  obtain ⟨hlt, rfl⟩ := List.getElem?_eq_some_iff.mp he
  have hb : lowerBound probe es < es.length := by omega
  have hle := le_rank_of_lowerBound hp (List.getElem?_eq_getElem hb)
  rcases Nat.lt_or_eq_of_le hi with hlt' | heq
  · exact hle.trans (le_of_lt (List.pairwise_iff_getElem.mp h _ _ hb hlt hlt'))
  · simpa only [← heq] using hle

/-- In an ascending list every probe for a rank is graded. -/
theorem Ascending.graded (h : Ascending rank es) (hp : Probes probe rank x es) : Graded probe es := by
  refine List.Pairwise.imp_of_mem ?_ h
  intro a b ha hb hlt
  rw [hp a ha, hp b hb, compare_gt_iff_gt, compare_gt_iff_gt, compare_lt_iff_lt, compare_lt_iff_lt]
  exact ⟨hlt.trans, fun hx => hx.trans hlt⟩

theorem Ascending.lookup_eq_none (h : Ascending rank es) (hp : Probes probe rank x es)
    (hl : lookup probe es = none) {e : κ × υ} (he : e ∈ es) : rank e.1 ≠ x := by
  obtain ⟨i, hi, rfl⟩ := List.getElem_of_mem he
  intro hx
  have hge : lowerBound probe es ≤ i := by
    by_contra hlt
    have := rank_lt_of_lt_lowerBound hp (by omega) (List.getElem?_eq_getElem hi)
    exact absurd hx (ne_of_lt this)
  have hb : lowerBound probe es < es.length := by omega
  have hle := le_rank_of_lowerBound hp (List.getElem?_eq_getElem hb)
  have heq : lowerBound probe es = i := by
    by_contra hne
    have hlt : lowerBound probe es < i := by omega
    have := List.pairwise_iff_getElem.mp h _ _ hb hi hlt
    exact absurd (hx ▸ this) (not_lt.mpr hle)
  have hsome : lookup probe es = some es[i] := by
    rw [lookup, heq, List.getElem?_eq_getElem hi, Option.filter_some, if_pos]
    rw [beq_iff_eq, hp.eq_iff (List.getElem_mem hi), hx]
  rw [hsome] at hl
  exact absurd hl (by simp)

theorem Ascending.rank_of_lookup (hp : Probes probe rank x es) {e : κ × υ}
    (hl : lookup probe es = some e) : rank e.1 = x :=
  ((hp.eq_iff (List.mem_of_getElem? (mem_of_lookup hl).1)).mp (mem_of_lookup hl).2).symm

theorem lt_of_mem_take (hp : Probes probe rank x es) {e : κ × υ}
    (he : e ∈ es.take (lowerBound probe es)) : rank e.1 < x := by
  obtain ⟨i, hi, rfl⟩ := List.getElem_of_mem he
  rw [List.length_take] at hi
  rw [List.getElem_take]
  exact rank_lt_of_lt_lowerBound hp (by omega) (List.getElem?_eq_getElem (by omega))

theorem Ascending.le_of_mem_drop (h : Ascending rank es) (hp : Probes probe rank x es) {e : κ × υ}
    (he : e ∈ es.drop (lowerBound probe es)) : x ≤ rank e.1 := by
  obtain ⟨i, hi, rfl⟩ := List.getElem_of_mem he
  rw [List.length_drop] at hi
  rw [List.getElem_drop]
  exact h.le_rank hp (Nat.le_add_right _ i) (List.getElem?_eq_getElem (by omega))

/-- What `place` leaves after the new entry is above the probe. -/
theorem Ascending.lt_of_mem_rest (h : Ascending rank es) (hp : Probes probe rank x es) {e : κ × υ} :
    (lookup probe es = none → e ∈ es.drop (lowerBound probe es) → x < rank e.1) ∧
    ∀ o, lookup probe es = some o → e ∈ es.drop (lowerBound probe es + 1) → x < rank e.1 := by
  constructor
  · intro hl he
    have hne := h.lookup_eq_none hp hl (List.mem_of_mem_drop he)
    exact lt_of_le_of_ne (h.le_of_mem_drop hp he) (Ne.symm hne)
  · intro o hl he
    obtain ⟨i, hi, rfl⟩ := List.getElem_of_mem he
    rw [List.length_drop] at hi
    obtain ⟨hb, ho⟩ := List.getElem?_eq_some_iff.mp (mem_of_lookup hl).1
    rw [List.getElem_drop, ← Ascending.rank_of_lookup hp hl, ← ho]
    exact List.pairwise_iff_getElem.mp h _ _ hb (by omega) (by omega)

theorem Ascending.place (h : Ascending rank es) (hp : Probes probe rank x es) {e : κ × υ}
    (he : rank e.1 = x) {merge : κ × υ → κ × υ} (hm : ∀ o, rank o.1 = x → rank (merge o).1 = x) :
    Ascending rank (place probe e merge es) := by
  have htake : (es.take (lowerBound probe es)).Pairwise fun a b => rank a.1 < rank b.1 :=
    h.sublist (List.take_sublist _ _)
  have hdrop : ∀ n, (es.drop n).Pairwise fun a b => rank a.1 < rank b.1 := fun n =>
    h.sublist (List.drop_sublist _ _)
  -- both branches put an entry of rank `x` between smaller and larger ones
  have hall : ∀ (new : κ × υ) (rest : List (κ × υ)), rank new.1 = x →
      (rest.Pairwise fun a b => rank a.1 < rank b.1) → (∀ b ∈ rest, x < rank b.1) →
      Ascending rank (es.take (lowerBound probe es) ++ new :: rest) := by
    intro new rest hnew hrest hlt
    refine List.pairwise_append.mpr ⟨htake, List.pairwise_cons.mpr ⟨?_, hrest⟩, ?_⟩
    · exact fun b hb => hnew ▸ hlt b hb
    · intro a ha b hb
      have hax := lt_of_mem_take hp ha
      rcases List.mem_cons.mp hb with rfl | hb
      · exact hnew ▸ hax
      · exact hax.trans (hlt b hb)
  rw [SortedEntries.place]
  cases hl : lookup probe es with
  | none => exact hall e _ he (hdrop _) fun b hb => (h.lt_of_mem_rest hp).1 hl hb
  | some o =>
    exact hall _ _ (hm o (Ascending.rank_of_lookup hp hl)) (hdrop _) fun b hb =>
      (h.lt_of_mem_rest hp).2 o hl hb

/-- The entry at the lower bound is the smallest one that is not below the probe. -/
theorem mem_place_iff (hp : Probes probe rank x es) {e : κ × υ} {merge : κ × υ → κ × υ}
    (he : rank e.1 = x) (hm : ∀ o, rank o.1 = x → rank (merge o).1 = x) (r : ρ) :
    (∃ b ∈ place probe e merge es, rank b.1 = r) ↔ r = x ∨ ∃ b ∈ es, rank b.1 = r := by
  have hsplit := List.take_append_drop (lowerBound probe es) es
  rw [SortedEntries.place]
  cases hl : lookup probe es with
  | none =>
    have hmem : ∀ b, b ∈ es ↔ b ∈ es.take (lowerBound probe es) ∨
        b ∈ es.drop (lowerBound probe es) := fun b => by
      rw [← List.mem_append, hsplit]
    constructor
    · rintro ⟨b, hb, rfl⟩
      rcases List.mem_append.mp hb with hb | hb
      · exact .inr ⟨b, (hmem b).mpr (.inl hb), rfl⟩
      · rcases List.mem_cons.mp hb with rfl | hb
        · exact .inl he
        · exact .inr ⟨b, (hmem b).mpr (.inr hb), rfl⟩
    · rintro (rfl | ⟨b, hb, rfl⟩)
      · exact ⟨e, by simp, he⟩
      · refine ⟨b, ?_, rfl⟩
        rcases (hmem b).mp hb with hb | hb <;> simp [hb]
  | some o =>
    obtain ⟨hlt, ho⟩ := List.getElem?_eq_some_iff.mp (mem_of_lookup hl).1
    have hox := Ascending.rank_of_lookup hp hl
    have hcons : es.drop (lowerBound probe es) = o :: es.drop (lowerBound probe es + 1) := by
      rw [List.drop_eq_getElem_cons hlt, ho]
    have hmem : ∀ b, b ∈ es ↔ b ∈ es.take (lowerBound probe es) ∨ b = o ∨
        b ∈ es.drop (lowerBound probe es + 1) := fun b => by
      conv_lhs => rw [← hsplit, hcons]
      rw [List.mem_append, List.mem_cons]
    constructor
    · rintro ⟨b, hb, rfl⟩
      rcases List.mem_append.mp hb with hb | hb
      · exact .inr ⟨b, (hmem b).mpr (.inl hb), rfl⟩
      · rcases List.mem_cons.mp hb with rfl | hb
        · exact .inl (hm o hox)
        · exact .inr ⟨b, (hmem b).mpr (.inr (.inr hb)), rfl⟩
    · rintro (rfl | ⟨b, hb, rfl⟩)
      · exact ⟨merge o, by simp, hm o hox⟩
      · rcases (hmem b).mp hb with hb | rfl | hb
        · exact ⟨b, by simp [hb], rfl⟩
        · exact ⟨merge b, by simp, (hm b hox).trans hox.symm⟩
        · exact ⟨b, by simp [hb], rfl⟩

/-- In an ascending list a probe finds the entry of its rank. -/
theorem Ascending.lookup_eq_some_iff (h : Ascending rank es) (hp : Probes probe rank x es)
    {e : κ × υ} : lookup probe es = some e ↔ e ∈ es ∧ rank e.1 = x := by
  constructor
  · exact fun hl => ⟨List.mem_of_getElem? (mem_of_lookup hl).1, Ascending.rank_of_lookup hp hl⟩
  · rintro ⟨he, hx⟩
    cases hl : lookup probe es with
    | none => exact absurd hx (h.lookup_eq_none hp hl he)
    | some o =>
      have ho : o ∈ es := List.mem_of_getElem? (mem_of_lookup hl).1
      have hox : rank o.1 = x := Ascending.rank_of_lookup hp hl
      have hpair : es.Pairwise fun a b => rank a.1 ≠ rank b.1 := h.imp fun hlt => ne_of_lt hlt
      by_contra hne
      have hoe : o ≠ e := fun heq => hne (congrArg some heq)
      have hsymm : Std.Symm fun a b : κ × υ => rank a.1 ≠ rank b.1 := ⟨fun _ _ hab => hab.symm⟩
      exact hpair.forall ho he hoe (hox.trans hx.symm)

/-- Entries of other ranks stay. -/
theorem mem_place_of_ne (hp : Probes probe rank x es) {e b : κ × υ} {merge : κ × υ → κ × υ}
    (he : rank e.1 = x) (hm : ∀ o, rank o.1 = x → rank (merge o).1 = x) (hb : rank b.1 ≠ x) :
    b ∈ place probe e merge es ↔ b ∈ es := by
  have hsplit := List.take_append_drop (lowerBound probe es) es
  rw [SortedEntries.place]
  cases hl : lookup probe es with
  | none =>
    have hbe : b ≠ e := fun heq => hb (by rw [heq, he])
    conv_rhs => rw [← hsplit]
    simp only [List.mem_append, List.mem_cons, hbe, false_or]
  | some o =>
    obtain ⟨hlt, ho⟩ := List.getElem?_eq_some_iff.mp (mem_of_lookup hl).1
    have hox := Ascending.rank_of_lookup hp hl
    have hbm : b ≠ merge o := fun heq => hb (by rw [heq, hm o hox])
    have hbo : b ≠ o := fun heq => hb (by rw [heq, hox])
    have hcons : es.drop (lowerBound probe es) = o :: es.drop (lowerBound probe es + 1) := by
      rw [List.drop_eq_getElem_cons hlt, ho]
    conv_rhs => rw [← hsplit, hcons]
    simp only [List.mem_append, List.mem_cons, hbm, hbo, false_or]

/-- Putting an entry only touches the one it takes the place of. -/
theorem filter_place {e : κ × υ} {merge : κ × υ → κ × υ} {q : κ × υ → Bool} (he : q e = false)
    (hm : ∀ o, lookup probe es = some o → q o = false ∧ q (merge o) = false) :
    (place probe e merge es).filter q = es.filter q := by
  have hsplit := List.take_append_drop (lowerBound probe es) es
  rw [SortedEntries.place]
  cases hl : lookup probe es with
  | none =>
    conv_rhs => rw [← hsplit]
    simp only [List.filter_append, List.filter_cons, he, Bool.false_eq_true, if_false]
  | some o =>
    obtain ⟨hlt, ho⟩ := List.getElem?_eq_some_iff.mp (mem_of_lookup hl).1
    obtain ⟨hqo, hqm⟩ := hm o hl
    have hcons : es.drop (lowerBound probe es) = o :: es.drop (lowerBound probe es + 1) := by
      rw [List.drop_eq_getElem_cons hlt, ho]
    conv_rhs => rw [← hsplit, hcons]
    simp only [List.filter_append, List.filter_cons, hqo, hqm, Bool.false_eq_true, if_false]

theorem lookup_congr {es' : List (κ × υ)} (h : Ascending rank es) (h' : Ascending rank es')
    (hp : Probes probe rank x es) (hp' : Probes probe rank x es')
    (hmem : ∀ e, rank e.1 = x → (e ∈ es ↔ e ∈ es')) : lookup probe es = lookup probe es' := by
  refine Option.ext fun e => ?_
  rw [h.lookup_eq_some_iff hp, h'.lookup_eq_some_iff hp']
  exact and_congr_left fun hx => hmem e hx

/-- What is placed is found. -/
theorem Ascending.lookup_place (h : Ascending rank es) (hp : Probes probe rank x es) {e : κ × υ}
    {merge : κ × υ → κ × υ} (he : rank e.1 = x) (hm : ∀ o, rank o.1 = x → rank (merge o).1 = x)
    (hp' : Probes probe rank x (SortedEntries.place probe e merge es)) :
    lookup probe (SortedEntries.place probe e merge es) = some ((lookup probe es).elim e merge) := by
  rw [(h.place hp he hm).lookup_eq_some_iff hp']
  cases hl : lookup probe es with
  | none => exact ⟨by simp [SortedEntries.place, hl], he⟩
  | some o =>
    exact ⟨by simp [SortedEntries.place, hl], hm o (Ascending.rank_of_lookup hp hl)⟩

/-- Other ranks are found as before. -/
theorem Ascending.lookup_place_of_ne (h : Ascending rank es) (hp : Probes probe rank x es) {e : κ × υ}
    {merge : κ × υ → κ × υ} (he : rank e.1 = x) (hm : ∀ o, rank o.1 = x → rank (merge o).1 = x)
    {probe' : κ → Ordering} {y : ρ} (hy : y ≠ x) (hp₁ : Probes probe' rank y es)
    (hp₂ : Probes probe' rank y (SortedEntries.place probe e merge es)) :
    lookup probe' (SortedEntries.place probe e merge es) = lookup probe' es := by
  apply lookup_congr (h.place hp he hm) h hp₂ hp₁
  intro b hb
  exact mem_place_of_ne hp he hm (hb ▸ hy)

end Search

theorem length_place {probe : κ → Ordering} (e : κ × υ) (merge : κ × υ → κ × υ) (es : List (κ × υ)) :
    (place probe e merge es).length = es.length + if (lookup probe es).isNone then 1 else 0 := by
  have hle := lowerBound_le probe es
  rw [place]
  cases hl : lookup probe es with
  | none =>
    simp only [List.length_append, List.length_take, List.length_cons, List.length_drop, Option.isNone_none, if_true]
    omega
  | some o =>
    have hlt := (List.getElem?_eq_some_iff.mp (mem_of_lookup hl).1).1
    simp only [List.length_append, List.length_take, List.length_cons, List.length_drop, Option.isNone_some,
      Bool.false_eq_true, if_false]
    omega

end LumoSql.SortedEntries
