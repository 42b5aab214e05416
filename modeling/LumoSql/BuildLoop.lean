import LumoSql.BuildTargets
import Mathlib.Data.List.DropRight
import Mathlib.Data.List.Perm.Basic
import Mathlib.Tactic.Ring

/-! The loop of `build.tcl` over the builds there are. Other processes can hold the lock of a
build: the loop then goes on with the next one and comes back later, and waits only when it has
found nothing else to do. -/
namespace LumoSql.Build
open Tcl

/-- A number from 1 on and the target of the build, two elements of `build_todo`. -/
abbrev Todo := ℕ × Str

/-- What one round of the loop finds: whether the attempt to take the lock fails, and whether
the build is up to date. -/
structure Answer where
  locked : Bool
  upToDate : Bool

inductive Event
  | skipped (build : Todo)
  | waited (build : Todo)
  | handled (build : Todo) (optlist : List (Str × Str)) (upToDate : Bool)
  deriving DecidableEq

structure LoopMode where
  debugBuild : Bool
  cleanup : Bool

structure LoopState where
  todo : List Todo
  numSkipped : ℕ

/-- `build_optlist` of the build with this number. -/
def optionList (builds : List (Str × List (Str × Str))) (bnum : ℕ) : List (Str × Str) :=
  ((builds.map Prod.snd)[bnum - 1]?).getD []

/-- One round of the loop, while there is something to do. -/
def LoopState.round (M : LoopMode) (builds : List (Str × List (Str × Str))) (S : LoopState)
    (a : Answer) : List Event × LoopState :=
  match S.todo with
  | [] => ([], S)
  | x :: todo =>
    -- the list is compared by its length, of which each build makes two elements
    if a.locked ∧ S.numSkipped < 2 * todo.length then
      ([.skipped x], if !M.debugBuild ∧ !M.cleanup then ⟨todo ++ [x], S.numSkipped + 1⟩
        else ⟨todo, S.numSkipped⟩)
    else
      ((if a.locked then [.waited x] else []) ++ [.handled x (optionList builds x.1) a.upToDate],
        ⟨todo, 0⟩)

/-- The events of each round of the loop, with what the round finds; `none` when the loop is not
through after `fuel` rounds. -/
def LoopState.run (M : LoopMode) (builds : List (Str × List (Str × Str))) :
    ℕ → (ℕ → Answer) → LoopState → Option (List (List Event))
  | 0, _, S => if S.todo = [] then some [] else none
  | fuel + 1, answers, S =>
    if S.todo = [] then some []
    else
      let r := S.round M builds (answers 0)
      (LoopState.run M builds fuel (fun n => answers (n + 1)) r.2).map (r.1 :: ·)

def buildTodo (builds : List (Str × List (Str × Str))) : List Todo :=
  builds.zipIdx.map fun b => (b.2 + 1, b.1.1)

def buildLoop (M : LoopMode) (builds : List (Str × List (Str × Str))) (fuel : ℕ)
    (answers : ℕ → Answer) : Option (List (List Event)) :=
  LoopState.run M builds fuel answers ⟨buildTodo builds, 0⟩

def Event.isHandled : Event → Bool
  | .handled .. => true
  | _ => false

/-- The build that was handled, with its options. -/
def Event.handled? : Event → Option (Todo × List (Str × Str))
  | .handled build optlist _ => some (build, optlist)
  | _ => none

/-- The builds handled in these rounds, with their options. -/
def handledIn (rounds : List (List Event)) : List (Todo × List (Str × Str)) :=
  rounds.flatten.filterMap Event.handled?

/-- What a round may do with the answer it got: a build whose lock is taken is skipped, or
handled after waiting for the lock; one whose lock is free is handled at once. The build is up
to date or not as the round has found it. -/
inductive Follows : Answer → List Event → Prop
  | skip {a : Answer} (x : Todo) (locked : a.locked = true) : Follows a [.skipped x]
  | wait {a : Answer} (x : Todo) (optlist : List (Str × Str)) (locked : a.locked = true) :
      Follows a [.waited x, .handled x optlist a.upToDate]
  | lock {a : Answer} (x : Todo) (optlist : List (Str × Str)) (free : a.locked = false) :
      Follows a [.handled x optlist a.upToDate]

/-- The attempt to lock the build failed in one of the rounds, and none was handled since. -/
def FoundLocked (answers : ℕ → Answer) (rounds : List (List Event)) (x : Todo) : Prop :=
  ∃ before after, rounds = before ++ [.skipped x] :: after ∧
    (answers before.length).locked = true ∧ ∀ es ∈ after, ∀ e ∈ es, e.isHandled = false

/-- The loop waits for a lock only when each other build that is left has been found locked
since the last one was handled. -/
def WaitsLast (builds : List (Str × List (Str × Str))) (answers : ℕ → Answer)
    (rounds : List (List Event)) : Prop :=
  ∀ before es after x, rounds = before ++ es :: after → .waited x ∈ es →
    ∀ y ∈ buildTodo builds, y ≠ x → y ∉ (handledIn before).map Prod.fst →
      FoundLocked answers before y

section Rounds

variable {builds : List (Str × List (Str × Str))} {answers : ℕ → Answer}

/-- A build with the options of its number. -/
def withOptions (builds : List (Str × List (Str × Str))) (x : Todo) : Todo × List (Str × Str) :=
  (x, optionList builds x.1)

/-- All builds are handled or still to do; those at the end of the list were found locked. -/
structure Progress (builds : List (Str × List (Str × Str))) (answers : ℕ → Answer)
    (rounds : List (List Event)) (S : LoopState) : Prop where
  follows : ∀ i es, rounds[i]? = some es → Follows (answers i) es
  all : (handledIn rounds ++ S.todo.map (withOptions builds)).Perm
    ((buildTodo builds).map (withOptions builds))
  locked : ∀ x ∈ S.todo.drop (S.todo.length - S.numSkipped), FoundLocked answers rounds x
  few : S.numSkipped ≤ 2 * (S.todo.length - 1)
  waits : WaitsLast builds answers rounds

theorem handledIn_append (rounds : List (List Event)) (es : List Event) :
    handledIn (rounds ++ [es]) = handledIn rounds ++ es.filterMap Event.handled? := by
  simp [handledIn]

/-- A build found locked stays so while none is handled. -/
theorem FoundLocked.append {rounds : List (List Event)} {x : Todo}
    (h : FoundLocked answers rounds x) {es : List Event} (hes : ∀ e ∈ es, e.isHandled = false) :
    FoundLocked answers (rounds ++ [es]) x := by
  obtain ⟨before, after, rfl, hlocked, hafter⟩ := h
  refine ⟨before, after ++ [es], by rw [List.append_assoc, List.cons_append], hlocked, ?_⟩
  intro es' hes'
  rcases List.mem_append.mp hes' with hes' | hes'
  · exact hafter es' hes'
  · rw [List.mem_singleton.mp hes']
    exact hes

theorem foundLocked_last {rounds : List (List Event)} {x : Todo}
    (h : (answers rounds.length).locked = true) :
    FoundLocked answers (rounds ++ [[.skipped x]]) x :=
  ⟨rounds, [], rfl, h, by simp⟩

/-- The next round follows its answer. -/
theorem Progress.follows_append {rounds : List (List Event)} {S : LoopState}
    (h : Progress builds answers rounds S) {es : List Event}
    (hes : Follows (answers rounds.length) es) (i : ℕ) (es' : List Event)
    (hi : (rounds ++ [es])[i]? = some es') : Follows (answers i) es' := by
  rcases Nat.lt_or_ge i rounds.length with hlt | hge
  · rw [List.getElem?_append_left hlt] at hi
    exact h.follows i es' hi
  · rw [List.getElem?_append_right hge] at hi
    have hzero : i - rounds.length = 0 := by
      have hlt := (List.getElem?_eq_some_iff.mp hi).1
      rw [List.length_singleton] at hlt
      omega
    obtain rfl : i = rounds.length := by omega
    rw [hzero] at hi
    obtain rfl : es = es' := Option.some.inj hi
    exact hes

/-- One more round keeps the rule when it waits for nothing, or for the last build there is. -/
theorem WaitsLast.append {rounds : List (List Event)} (h : WaitsLast builds answers rounds)
    {es : List Event} (hes : ∀ x, .waited x ∈ es → ∀ y ∈ buildTodo builds, y ≠ x →
      y ∉ (handledIn rounds).map Prod.fst → FoundLocked answers rounds y) :
    WaitsLast builds answers (rounds ++ [es]) := by
  intro before es' after x hsplit hx
  rcases List.eq_nil_or_concat after with rfl | ⟨after, last, rfl⟩
  · obtain ⟨rfl, hlast⟩ := List.append_inj' hsplit rfl
    obtain rfl : es = es' := List.head_eq_of_cons_eq hlast
    exact hes x hx
  · rw [List.concat_eq_append, ← List.cons_append, ← List.append_assoc] at hsplit
    obtain ⟨hrounds, -⟩ := List.append_inj' hsplit rfl
    exact h before es' after x hrounds hx

/-- A locked build goes to the end of the list. -/
theorem Progress.skip {rounds : List (List Event)} {x : Todo} {todo : List Todo} {k : ℕ}
    (h : Progress builds answers rounds ⟨x :: todo, k⟩) (hk : k < 2 * todo.length)
    (hlocked : (answers rounds.length).locked = true) :
    Progress builds answers (rounds ++ [[.skipped x]]) ⟨todo ++ [x], k + 1⟩ where
  follows := h.follows_append (.skip x hlocked)
  all := by
    have hall := h.all
    rw [handledIn_append]
    simp only [List.filterMap_cons, Event.handled?, List.filterMap_nil, List.append_nil,
      List.map_append, List.map_cons, List.map_nil] at hall ⊢
    exact ((List.perm_append_singleton _ _).append_left _).trans hall
  locked := by
    intro y hy
    rw [List.length_append, List.length_singleton, Nat.add_sub_add_right,
      List.drop_append_of_le_length (by omega), List.mem_append] at hy
    rcases hy with hy | hy
    · refine (h.locked y ?_).append (by simp [Event.isHandled])
      rw [List.length_cons]
      rcases Nat.lt_or_ge todo.length k with hlong | hshort
      · rw [Nat.sub_eq_zero_of_le hlong, List.drop_zero]
        exact List.mem_cons_of_mem x (List.mem_of_mem_drop hy)
      · rw [Nat.succ_sub hshort, List.drop_succ_cons]
        exact hy
    · rw [List.mem_singleton.mp hy]
      exact foundLocked_last hlocked
  few := by
    simp only [List.length_append, List.length_singleton]
    omega
  waits := h.waits.append (by simp)

/-- All builds but the first were found locked once the counter has gone so far. -/
theorem Progress.allLocked {rounds : List (List Event)} {x : Todo} {todo : List Todo} {k : ℕ}
    (h : Progress builds answers rounds ⟨x :: todo, k⟩) (hk : 2 * todo.length ≤ k) {y : Todo}
    (hy : y ∈ buildTodo builds) (hne : y ≠ x) (hleft : y ∉ (handledIn rounds).map Prod.fst) :
    FoundLocked answers rounds y := by
  have hmem : withOptions builds y ∈ handledIn rounds ++ (x :: todo).map (withOptions builds) :=
    h.all.symm.subset (List.mem_map_of_mem hy)
  rcases List.mem_append.mp hmem with hdone | htodo
  · exact absurd (List.mem_map_of_mem hdone) hleft
  · obtain ⟨w, hw, heq⟩ := List.mem_map.mp htodo
    obtain rfl : w = y := congrArg Prod.fst heq
    have hrest := (List.mem_cons.mp hw).resolve_left hne
    apply h.locked
    simp only [List.length_cons]
    rcases Nat.eq_zero_or_pos (todo.length + 1 - k) with hzero | hpos
    · rw [hzero, List.drop_zero]
      exact hw
    · have hone : todo.length + 1 - k = 1 := by
        have hlen := List.length_pos_of_mem hrest
        omega
      rw [hone, List.drop_succ_cons, List.drop_zero]
      exact hrest

/-- A build whose lock was taken is done with. -/
theorem Progress.handle {rounds : List (List Event)} {x : Todo} {todo : List Todo} {k : ℕ}
    (h : Progress builds answers rounds ⟨x :: todo, k⟩) {es : List Event}
    (hes : Follows (answers rounds.length) es)
    (hone : es.filterMap Event.handled? = [withOptions builds x])
    (hwaits : WaitsLast builds answers (rounds ++ [es])) :
    Progress builds answers (rounds ++ [es]) ⟨todo, 0⟩ where
  follows := h.follows_append hes
  all := by
    have hall := h.all
    rw [List.map_cons] at hall
    rw [handledIn_append, hone, List.append_assoc]
    exact hall
  locked := by simp
  few := Nat.zero_le _
  waits := hwaits

/-- One round keeps account of all builds and takes one off the rounds to go. -/
theorem Progress.round {rounds : List (List Event)} {S : LoopState}
    (h : Progress builds answers rounds S) (hne : S.todo ≠ []) {a : Answer}
    (ha : a = answers rounds.length) :
    Progress builds answers (rounds ++ [(S.round ⟨false, false⟩ builds a).1])
        (S.round ⟨false, false⟩ builds a).2 ∧
      (S.round ⟨false, false⟩ builds a).2.todo.length ^ 2 -
          (S.round ⟨false, false⟩ builds a).2.numSkipped < S.todo.length ^ 2 - S.numSkipped := by
  obtain ⟨todo, k⟩ := S
  obtain ⟨x, todo, rfl⟩ := List.exists_cons_of_ne_nil hne
  have hfew : k ≤ 2 * todo.length := by simpa using h.few
  have hsquare : (todo.length + 1) ^ 2 = todo.length ^ 2 + 2 * todo.length + 1 := by ring
  simp only [LoopState.round]
  by_cases hskip : a.locked ∧ k < 2 * todo.length
  · rw [if_pos hskip]
    refine ⟨h.skip hskip.2 (ha ▸ hskip.1), ?_⟩
    simp only [Bool.not_false, and_self, if_true, List.length_append, List.length_cons,
      List.length_nil, zero_add]
    omega
  · rw [if_neg hskip]
    refine ⟨?_, by simp only [List.length_cons]; omega⟩
    by_cases hlocked : a.locked = true
    · have hk : 2 * todo.length ≤ k := Nat.le_of_not_lt fun hlt => hskip ⟨hlocked, hlt⟩
      rw [if_pos hlocked]
      subst ha
      refine h.handle (.wait x _ hlocked) rfl (h.waits.append fun z hz y hy hyz hleft => ?_)
      obtain rfl : z = x := by simpa using hz
      exact h.allLocked hk hy hyz hleft
    · rw [if_neg hlocked]
      subst ha
      exact h.handle (.lock x _ (Bool.eq_false_iff.mpr hlocked)) rfl (h.waits.append (by simp))

theorem Progress.run {rounds : List (List Event)} {S : LoopState}
    (h : Progress builds answers rounds S) (fuel : ℕ)
    (hfuel : S.todo.length ^ 2 - S.numSkipped ≤ fuel) (later : ℕ → Answer)
    (hlater : ∀ n, later n = answers (rounds.length + n)) :
    ∃ more S', LoopState.run ⟨false, false⟩ builds fuel later S = some more ∧
      S'.todo = [] ∧ Progress builds answers (rounds ++ more) S' := by
  induction fuel generalizing rounds S later with
  | zero =>
    have hnil : S.todo = [] := by
      by_contra hne
      have hround := (h.round hne rfl).2
      omega
    exact ⟨[], S, by rw [LoopState.run, if_pos hnil], hnil, by rwa [List.append_nil]⟩
  | succ fuel ih =>
    rw [LoopState.run]
    by_cases hnil : S.todo = []
    · exact ⟨[], S, if_pos hnil, hnil, by rwa [List.append_nil]⟩
    · obtain ⟨hround, hless⟩ := h.round hnil (hlater 0)
      have hrest : ∀ n, later (n + 1) =
          answers ((rounds ++ [(S.round ⟨false, false⟩ builds (later 0)).1]).length + n) := by
        intro n
        rw [hlater, List.length_append, List.length_singleton, Nat.add_assoc, Nat.add_comm n]
      obtain ⟨more, S', hrun, hdone, hmore⟩ := ih hround (by omega) _ hrest
      rw [List.append_assoc, List.singleton_append] at hmore
      refine ⟨_, S', ?_, hdone, hmore⟩
      simp only [if_neg hnil, hrun, Option.map_some]

theorem buildTodo_options :
    (buildTodo builds).map (withOptions builds) =
      builds.zipIdx.map fun b => ((b.2 + 1, b.1.1), b.1.2) := by
  rw [buildTodo, List.map_map]
  apply List.map_congr_left
  rintro ⟨⟨name, ol⟩, i⟩ hb
  have hget : builds[i]? = some (name, ol) := List.mk_mem_zipIdx_iff_getElem?.mp hb
  simp [withOptions, optionList, hget]

end Rounds

/-- Whatever locks other processes hold, the loop ends after at most as many rounds as the square
of the number of builds, each round does what its attempt to take the lock allows, each build is
handled once with its own options, and the loop waits only for want of another build to try. -/
theorem buildLoop_handles (builds : List (Str × List (Str × Str))) (answers : ℕ → Answer) :
    ∃ rounds, buildLoop ⟨false, false⟩ builds (builds.length ^ 2) answers = some rounds ∧
      (∀ i es, rounds[i]? = some es → Follows (answers i) es) ∧
      (handledIn rounds).Perm (builds.zipIdx.map fun b => ((b.2 + 1, b.1.1), b.1.2)) ∧
      WaitsLast builds answers rounds := by
  have hstart : Progress builds answers [] ⟨buildTodo builds, 0⟩ := by
    refine ⟨by simp, by simp [handledIn], by simp, Nat.zero_le _, ?_⟩
    intro before es after x hsplit
    simp at hsplit
  have hlen : (buildTodo builds).length = builds.length := by simp [buildTodo]
  obtain ⟨rounds, S, hrun, hdone, hend⟩ :=
    hstart.run (builds.length ^ 2) (by simp [hlen]) answers (by simp)
  rw [List.nil_append] at hend
  refine ⟨rounds, hrun, hend.follows, ?_, hend.waits⟩
  have hall := hend.all
  rwa [hdone, List.map_nil, List.append_nil, buildTodo_options] at hall

end LumoSql.Build
