import Mathlib.Data.List.Nodup
import Mathlib.Logic.Function.Basic
import Mathlib.Tactic.Common

/-! Doubly linked lists whose links are kept by the items: what following the links visits, and
how an item is appended and taken out. -/
namespace LumoSql.LinkedLists

variable {ι : Type*} {next next' prev prev' : ι → Option ι}

/-- Following `next` from an item, if there is one, visits the items of the list and ends. -/
inductive Follows (next : ι → Option ι) : Option ι → List ι → Prop
  | nil : Follows next none []
  | cons {i : ι} {l : List ι} (h : Follows next (next i) l) : Follows next (some i) (i :: l)

theorem Follows.congr {o : Option ι} {l : List ι} (h : Follows next o l)
    (hsame : ∀ i ∈ l, next' i = next i) : Follows next' o l := by
  induction h with
  | nil => exact .nil
  | @cons i l _ ih =>
    apply Follows.cons
    rw [hsame i List.mem_cons_self]
    exact ih fun j hj => hsame j (List.mem_cons_of_mem i hj)

/-- The items are linked both ways, from `before` the first of them to `after` the last. -/
def Linked (next prev : ι → Option ι) : Option ι → List ι → Option ι → Prop
  | _, [], _ => True
  | before, i :: l, after => prev i = before ∧ next i = l.head?.or after ∧ Linked next prev (some i) l after

theorem Linked.follows {before : Option ι} {l : List ι} (h : Linked next prev before l none) :
    Follows next l.head? l := by
  induction l generalizing before with
  | nil => exact .nil
  | cons i l ih =>
    apply Follows.cons
    rw [h.2.1, Option.or_none]
    exact ih h.2.2

theorem Linked.congr {before after : Option ι} {l : List ι} (h : Linked next prev before l after)
    (hnext : ∀ i ∈ l, next' i = next i) (hprev : ∀ i ∈ l, prev' i = prev i) :
    Linked next' prev' before l after := by
  induction l generalizing before with
  | nil => trivial
  | cons i l ih =>
    refine ⟨(hprev i List.mem_cons_self).trans h.1, (hnext i List.mem_cons_self).trans h.2.1, ?_⟩
    apply ih h.2.2
    · exact fun j hj => hnext j (List.mem_cons_of_mem i hj)
    · exact fun j hj => hprev j (List.mem_cons_of_mem i hj)

/-- Both parts of a list and the seam between them. -/
theorem linked_append {before after : Option ι} {l l' : List ι} :
    Linked next prev before (l ++ l') after ↔
      Linked next prev before l (l'.head?.or after) ∧ Linked next prev (l.getLast?.or before) l' after := by
  induction l generalizing before with
  | nil => simp [Linked]
  | cons i l ih =>
    have hlast : (i :: l).getLast?.or before = l.getLast?.or (some i) := by
      rw [List.getLast?_cons]
      cases l.getLast? <;> rfl
    rw [List.cons_append, Linked, Linked, ih, hlast, List.head?_append, Option.or_assoc, and_assoc, and_assoc]

theorem linked_singleton {before after : Option ι} {i : ι} :
    Linked next prev before [i] after ↔ prev i = before ∧ next i = after := by
  simp [Linked]

/-- The links of a member are the items next to it. -/
theorem linked_cons_mid {before after : Option ι} {l l' : List ι} {i : ι} :
    Linked next prev before (l ++ i :: l') after ↔ Linked next prev before l (some i) ∧
      prev i = l.getLast?.or before ∧ next i = l'.head?.or after ∧ Linked next prev (some i) l' after := by
  rw [linked_append, List.head?_cons, Option.some_or, Linked]

/-- `prev` is the inverse of `next` on the list. -/
theorem Linked.next_iff {l : List ι} (h : Linked next prev none l none) {i j : ι} (hi : i ∈ l) (hj : j ∈ l) :
    next i = some j ↔ prev j = some i := by
  constructor
  · intro hnext
    obtain ⟨a, b, rfl⟩ := List.append_of_mem hi
    obtain ⟨-, -, hhead, htail⟩ := linked_cons_mid.mp h
    rw [hnext, Option.or_none] at hhead
    cases b with
    | nil => cases hhead
    | cons x b =>
      obtain rfl := Option.some.inj hhead
      exact htail.1
  · intro hprev
    obtain ⟨a, b, rfl⟩ := List.append_of_mem hj
    obtain ⟨hfront, hlast, -, -⟩ := linked_cons_mid.mp h
    rw [hprev, Option.or_none] at hlast
    obtain ⟨a, rfl⟩ := List.getLast?_eq_some_iff.mp hlast.symm
    exact (linked_singleton.mp (linked_append.mp hfront).2).2

theorem Linked.changeNext {before after after' : Option ι} {l : List ι} {j : ι}
    (h : Linked next prev before (l ++ [j]) after) (hlast : next' j = after') (hnext : ∀ i ∈ l, next' i = next i)
    (hprev : ∀ i ∈ l ++ [j], prev' i = prev i) : Linked next' prev' before (l ++ [j]) after' := by
  obtain ⟨hfront, hj, -, -⟩ := linked_cons_mid.mp h
  apply linked_cons_mid.mpr
  refine ⟨hfront.congr hnext fun i hi => hprev i (List.mem_append_left [j] hi), ?_, hlast, trivial⟩
  rw [hprev j (by simp), hj]

theorem Linked.changePrev {before before' after : Option ι} {l : List ι} {j : ι}
    (h : Linked next prev before (j :: l) after) (hfirst : prev' j = before') (hprev : ∀ i ∈ l, prev' i = prev i)
    (hnext : ∀ i ∈ j :: l, next' i = next i) : Linked next' prev' before' (j :: l) after := by
  obtain ⟨-, hj, hrest⟩ := h
  refine ⟨hfirst, ?_, hrest.congr (fun i hi => hnext i (List.mem_cons_of_mem j hi)) hprev⟩
  rw [hnext j List.mem_cons_self, hj]

/-- An item appended to the list. -/
theorem Linked.push {l : List ι} {i : ι} (h : Linked next prev none l none) (hnodup : l.Nodup)
    (hnext : next' i = none) (hprev : prev' i = l.getLast?) (hlast : ∀ j, l.getLast? = some j → next' j = some i)
    (hnexts : ∀ j ∈ l, l.getLast? ≠ some j → next' j = next j) (hprevs : ∀ j ∈ l, prev' j = prev j) :
    Linked next' prev' none (l ++ [i]) none := by
  apply linked_cons_mid.mpr
  refine ⟨?_, by rw [hprev, Option.or_none], hnext, trivial⟩
  rcases List.eq_nil_or_concat l with rfl | ⟨l, j, rfl⟩
  · trivial
  · simp only [List.concat_eq_append, List.getLast?_append, List.getLast?_singleton, Option.some_or] at *
    apply h.changeNext (hlast j rfl) ?_ hprevs
    intro k hk
    apply hnexts k (List.mem_append_left [j] hk)
    rintro ⟨rfl⟩
    exact (List.nodup_append.mp hnodup).2.2 _ hk _ List.mem_cons_self rfl

/-- An item taken out of the list. -/
theorem Linked.remove {a b : List ι} {i : ι} (h : Linked next prev none (a ++ i :: b) none)
    (hnodup : (a ++ i :: b).Nodup)
    (hnext : ∀ j, prev i = some j → next' j = next i) (hprev : ∀ j, next i = some j → prev' j = prev i)
    (hnexts : ∀ j ∈ a ++ b, prev i ≠ some j → next' j = next j)
    (hprevs : ∀ j ∈ a ++ b, next i ≠ some j → prev' j = prev j) :
    Linked next' prev' none (a ++ b) none := by
  obtain ⟨ha, hi, hi', hb⟩ := linked_cons_mid.mp h
  obtain ⟨-, hnodup', hdisjoint⟩ := List.nodup_append.mp hnodup
  rw [Option.or_none] at hi hi'
  have hba : ∀ j ∈ b, j ∉ a := fun j hj hja => hdisjoint j hja j (List.mem_cons_of_mem i hj) rfl
  apply linked_append.mpr
  rw [Option.or_none, Option.or_none]
  constructor
  · rcases List.eq_nil_or_concat a with rfl | ⟨a, j, rfl⟩
    · trivial
    · simp only [List.concat_eq_append, List.getLast?_append, List.getLast?_singleton, Option.some_or] at *
      apply ha.changeNext ((hnext j hi).trans hi')
      · intro k hk
        apply hnexts k (by simp [hk])
        rw [hi]
        rintro ⟨rfl⟩
        exact (List.nodup_append.mp (List.nodup_append.mp hnodup).1).2.2 _ hk _ List.mem_cons_self rfl
      · intro k hk
        apply hprevs k (List.mem_append_left b hk)
        rw [hi']
        exact fun hhead => hba k (List.mem_of_mem_head? hhead) hk
  · cases b with
    | nil => trivial
    | cons j b =>
      apply hb.changePrev ((hprev j hi').trans hi)
      · intro k hk
        apply hprevs k (by simp [hk])
        rw [hi']
        rintro ⟨rfl⟩
        exact (List.nodup_cons.mp (List.nodup_cons.mp hnodup').2).1 hk
      · intro k hk
        apply hnexts k (List.mem_append_right a hk)
        rw [hi]
        exact fun hlast => hba k hk (List.mem_of_getLast? hlast)

end LumoSql.LinkedLists
