import LumoSql.BuildTargetReplay
import Mathlib.Data.List.Induction
import Mathlib.Data.List.Nodup

/-! What a list of versions comes to: each of its elements adds the versions it stands for or
removes them, and the last one that speaks of a version decides. -/
namespace LumoSql.Build
open Tcl

/-- Versions as an element of a list names them. -/
inductive VersionRange
  | version (v : Str)
  | all
  | latest
  | upFrom (v : Str)
  | upTo (v : Str)

/-- One element: versions, or versions of sqlite3 with versions of the backend. A `-` in front
removes; in front of the backend's versions it does so too. -/
inductive VersionItem
  | plain (remove : Bool) (range : VersionRange)
  | pair (remove : Bool) (sqlite : VersionRange) (minus : Bool) (range : VersionRange)

def VersionRange.text : VersionRange → Str
  | .version v => v
  | .all => "all".toList
  | .latest => Build.latest
  | .upFrom v => v ++ ['+']
  | .upTo v => v ++ ['-']

def dash (minus : Bool) : Str := if minus then ['-'] else []

def VersionItem.text : VersionItem → Str
  | .plain remove range => dash remove ++ range.text
  | .pair remove sqlite minus range => (dash remove ++ sqlite.text) ++ '+' :: (dash minus ++ range.text)

def VersionItem.removes : VersionItem → Bool
  | .plain remove _ => remove
  | .pair remove _ minus _ => remove || minus

/-- A pair that is to be removed and has its `-` in front. -/
def VersionItem.dashedPair : VersionItem → Bool
  | .plain _ _ => false
  | .pair remove _ _ _ => remove

def VersionRange.Valid : VersionRange → Prop
  | .version v | .upFrom v | .upTo v => VersionNumber v
  | .all | .latest => True

/-- Pairs are for the versions of a backend that is combined with versions of sqlite3. -/
def VersionItem.Valid (slist : List Str) : VersionItem → Prop
  | .plain _ range => range.Valid
  | .pair _ sqlite _ range => slist ≠ [] ∧ sqlite.Valid ∧ range.Valid

/-- The versions there are of each backend, and which version does not come after which. -/
structure KnownVersions where
  known : Str → List Str
  notAfter : Str → Str → Bool
  number : ∀ backend, ∀ v ∈ known backend, VersionNumber v
  refl : ∀ v, notAfter v v = true
  sorted : ∀ backend, (known backend).Pairwise fun v w => notAfter v w = true ∧ notAfter w v = false

/-- The not-forking tool prints the known versions from the first one given to the second. -/
def PrintsKnown (fork : NotFork) (K : KnownVersions) : Prop :=
  ∀ backend lo hi, fork backend lo hi =
    (K.known backend).filter fun v => (lo = [] ∨ K.notAfter lo v) ∧ (hi = [] ∨ K.notAfter v hi)

/-- The version is one of those named. -/
def VersionRange.Has (K : KnownVersions) (backend v : Str) : VersionRange → Prop
  | .version w => v = w
  | .all => v ∈ K.known backend
  | .latest => v ∈ K.known backend ∧ ∀ w ∈ K.known backend, K.notAfter w v = true
  | .upFrom w => v ∈ K.known backend ∧ K.notAfter w v = true
  | .upTo w => v ∈ K.known backend ∧ K.notAfter v w = true

/-- A version with one of sqlite3, or without when it is `[]`. -/
def versionTarget (backend sv bv : Str) : Str :=
  if sv = [] then bv else sv ++ '+' :: backend ++ '-' :: bv

/-- The target is among those the element stands for. -/
def VersionItem.Covers (K : KnownVersions) (backend : Str) (slist : List Str) (tgt : Str) :
    VersionItem → Prop
  | .plain _ range => ∃ bv, range.Has K backend bv ∧
      if slist = [] then tgt = bv else ∃ sv ∈ slist, tgt = versionTarget backend sv bv
  | .pair _ sqlite _ range => ∃ sv bv, sqlite.Has K sqlite3 sv ∧ range.Has K backend bv ∧
      tgt = versionTarget backend sv bv

/-- The last of the elements that stand for it does not remove. -/
def LastAdds {ε : Type} (covers : ε → Prop) (removes : ε → Bool) (items : List ε) : Prop :=
  ∃ before item after, items = before ++ item :: after ∧ covers item ∧ removes item = false ∧
    ∀ other ∈ after, ¬ covers other

section LastAdds

variable {ε : Type} {covers : ε → Prop} {removes : ε → Bool}

theorem lastAdds_nil : ¬ LastAdds covers removes [] := by
  rintro ⟨before, item, after, hsplit, -⟩
  simp at hsplit

theorem lastAdds_append (items : List ε) (last : ε) :
    LastAdds covers removes (items ++ [last]) ↔
      (covers last ∧ removes last = false) ∨ (¬ covers last ∧ LastAdds covers removes items) := by
  constructor
  · rintro ⟨before, item, after, hsplit, hcovers, hadds, hnone⟩
    rcases List.eq_nil_or_concat after with rfl | ⟨after, b, rfl⟩
    · obtain ⟨rfl, hlast⟩ := List.append_inj' hsplit rfl
      obtain rfl : last = item := by simpa using hlast
      exact .inl ⟨hcovers, hadds⟩
    · rw [List.concat_eq_append] at hsplit hnone
      rw [← List.cons_append, ← List.append_assoc] at hsplit
      obtain ⟨rfl, hlast⟩ := List.append_inj' hsplit rfl
      obtain rfl : last = b := by simpa using hlast
      refine .inr ⟨hnone last (by simp), before, item, after, rfl, hcovers, hadds, ?_⟩
      intro other hother
      exact hnone other (List.mem_append_left _ hother)
  · rintro (⟨hcovers, hadds⟩ | ⟨hlast, before, item, after, rfl, hcovers, hadds, hnone⟩)
    · exact ⟨items, last, [], rfl, hcovers, hadds, by simp⟩
    · refine ⟨before, item, after ++ [last], by simp, hcovers, hadds, ?_⟩
      intro other hother
      rcases List.mem_append.mp hother with hother | hother
      · exact hnone other hother
      · rw [List.mem_singleton.mp hother]
        exact hlast

/-- Only the elements that stand for it matter. -/
theorem lastAdds_congr {covers' : ε → Prop} {removes' : ε → Bool} {items : List ε}
    (hcovers : ∀ item ∈ items, (covers item ↔ covers' item))
    (hremoves : ∀ item ∈ items, covers item → removes item = removes' item) :
    LastAdds covers removes items ↔ LastAdds covers' removes' items := by
  induction items using List.reverseRecOn with
  | nil => exact iff_of_false lastAdds_nil lastAdds_nil
  | append_singleton items last ih =>
    rw [lastAdds_append, lastAdds_append, ← hcovers last (by simp),
      ih (fun item hitem => hcovers item (List.mem_append_left _ hitem))
        fun item hitem => hremoves item (List.mem_append_left _ hitem)]
    apply or_congr_left
    apply and_congr_right
    intro hlast
    rw [hremoves last (by simp) hlast]

/-- Elements that stand for nothing can be left out. -/
theorem lastAdds_filter (keep : ε → Bool) (items : List ε) :
    LastAdds (fun item => keep item = true ∧ covers item) removes items ↔
      LastAdds covers removes (items.filter keep) := by
  induction items using List.reverseRecOn with
  | nil => exact iff_of_false lastAdds_nil lastAdds_nil
  | append_singleton items last ih =>
    rw [lastAdds_append, List.filter_append, ih]
    cases hkeep : keep last with
    | true =>
      rw [List.filter_cons_of_pos (by simpa using hkeep), List.filter_nil, lastAdds_append]
      simp
    | false =>
      rw [List.filter_cons_of_neg (by simp [hkeep]), List.filter_nil, List.append_nil]
      simp

/-- Leaving out elements that remove can only select more. -/
theorem LastAdds.filter {keep : ε → Bool} (hkeep : ∀ item, keep item = false → removes item = true)
    {items : List ε} (h : LastAdds covers removes items) :
    LastAdds covers removes (items.filter keep) := by
  obtain ⟨before, item, after, rfl, hcovers, hadds, hnone⟩ := h
  have hitem : keep item = true := by
    by_contra hno
    rw [hkeep item (by simpa using hno)] at hadds
    cases hadds
  refine ⟨before.filter keep, item, after.filter keep, ?_, hcovers, hadds, ?_⟩
  · rw [List.filter_append, List.filter_cons_of_pos hitem]
  · intro other hother
    exact hnone other (List.mem_of_mem_filter hother)

/-- When none removes, one that stands for it is enough. -/
theorem lastAdds_of_adds {items : List ε} (h : ∀ item ∈ items, removes item = false) :
    LastAdds covers removes items ↔ ∃ item ∈ items, covers item := by
  induction items using List.reverseRecOn with
  | nil => simp [lastAdds_nil]
  | append_singleton items last ih =>
    have hitems := ih fun item hitem => h item (List.mem_append_left _ hitem)
    rw [lastAdds_append, hitems, h last (by simp)]
    by_cases hlast : covers last
    · simp [hlast]
    · simp [hlast, or_and_right, exists_or]

end LastAdds

section Loop

theorem addVersion_nodup {R : List Str} (h : R.Nodup) (remove : Bool) (tgt : Str) :
    (addVersion remove R tgt).Nodup := by
  rw [addVersion]
  split_ifs with hmem
  · exact h.erase tgt
  · exact h
  · exact h
  · exact List.nodup_append.mpr ⟨h, List.nodup_singleton tgt, by
      intro a ha b hb
      rw [List.mem_singleton.mp hb]
      rintro rfl
      exact hmem ha⟩

theorem mem_addVersion {R : List Str} (h : R.Nodup) (remove : Bool) (tgt x : Str) :
    x ∈ addVersion remove R tgt ↔
      (x = tgt ∧ remove = false) ∨ (x ≠ tgt ∧ x ∈ R) := by
  rw [addVersion]
  by_cases hx : x = tgt
  · subst hx
    cases remove <;> split_ifs <;> simp_all [h.mem_erase_iff]
  · cases remove <;> split_ifs <;> simp_all [h.mem_erase_iff]

/-- The targets of one element, one after the other. -/
theorem addVersions (tgts : List Str) {R : List Str} (h : R.Nodup) (remove : Bool) :
    (tgts.foldl (addVersion remove) R).Nodup ∧ ∀ x, x ∈ tgts.foldl (addVersion remove) R ↔
      (x ∈ tgts ∧ remove = false) ∨ (x ∉ tgts ∧ x ∈ R) := by
  induction tgts generalizing R with
  | nil => simpa using h
  | cons tgt tgts ih =>
    obtain ⟨hnodup, hmem⟩ := ih (addVersion_nodup h remove tgt)
    refine ⟨hnodup, ?_⟩
    intro x
    rw [List.foldl_cons, hmem, mem_addVersion h, List.mem_cons]
    by_cases hxs : x ∈ tgts
    · simp [hxs]
    · by_cases hx : x = tgt
      · have hxs' : tgt ∉ tgts := by rwa [← hx]
        simp [hx, hxs']
      · simp [hx, hxs]

/-- The whole list: each word of it removes or adds its targets. -/
theorem versionsLoop_mem {ε : Type} (fork : NotFork) (parts : Str → List Str × Str) (backend : Str)
    {names : Str} {items : List ε} (text : ε → Str)
    (hwords : (split isSpace names).filter (· ≠ []) = items.map text) :
    (versionsLoop fork parts backend names).Nodup ∧ ∀ x, x ∈ versionsLoop fork parts backend names ↔
      LastAdds (fun item => x ∈ versionTargets backend (parts (text item)).1
          (nameVersions fork backend (parts (text item)).2).2)
        (fun item => (nameVersions fork backend (parts (text item)).2).1) items := by
  rw [versionsLoop, hwords]
  clear hwords
  induction items using List.reverseRecOn with
  | nil => exact ⟨List.nodup_nil, fun x => iff_of_false List.not_mem_nil lastAdds_nil⟩
  | append_singleton items last ih =>
    obtain ⟨hnodup, hmem⟩ := ih
    rw [List.map_append, List.foldl_append, List.map_singleton, List.foldl_cons, List.foldl_nil]
    obtain ⟨hnodup', hmem'⟩ := addVersions (versionTargets backend (parts (text last)).1
      (nameVersions fork backend (parts (text last)).2).2) hnodup
      (nameVersions fork backend (parts (text last)).2).1
    refine ⟨hnodup', ?_⟩
    intro x
    rw [hmem', lastAdds_append, hmem]

end Loop

section Names

variable {fork : NotFork} {K : KnownVersions} {backend : Str}

/-- What the loop makes of the versions an element names. -/
def VersionRange.list (fork : NotFork) (backend : Str) : VersionRange → List Str
  | .version v => [v]
  | .all => fork backend [] []
  | .latest => (fork backend [] []).getLast?.toList
  | .upFrom v => fork backend v []
  | .upTo v => fork backend [] v

theorem VersionNumber.last_plain {v : Str} (h : VersionNumber v) : v.getLast? ≠ some '+' := by
  intro hlast
  exact (plain_mem h.plain (List.mem_of_getLast? hlast)).1 rfl

theorem VersionNumber.head_append {v : Str} (h : VersionNumber v) (s : Str) :
    (v ++ s).head? ≠ some '-' := by
  obtain ⟨c, rest, hc⟩ := List.exists_cons_of_ne_nil h.nonempty
  have hhead := h.head
  rw [hc] at hhead ⊢
  exact hhead

theorem VersionRange.text_head {range : VersionRange} (h : range.Valid) :
    range.text.head? ≠ some '-' := by
  cases range with
  | version v => exact h.head
  | all => decide
  | latest => decide
  | upFrom v => exact h.head_append ['+']
  | upTo v => exact h.head_append ['-']

theorem VersionRange.text_ne {range : VersionRange} (h : range.Valid) : range.text ≠ [] := by
  cases range with
  | version v => exact h.nonempty
  | all => decide
  | latest => decide
  | upFrom v => simp [text]
  | upTo v => simp [text]

/-- No `+` but at the end. -/
theorem VersionRange.text_plus {range : VersionRange} (h : range.Valid) (minus : Bool) :
    '+' ∉ (dash minus ++ range.text).dropLast := by
  have hdash : '+' ∉ dash minus := by cases minus <;> decide
  have hnumber : ∀ {v : Str}, VersionNumber v → '+' ∉ v := fun hv hmem => (plain_mem hv.plain hmem).1 rfl
  rw [List.dropLast_append_of_ne_nil (text_ne h), List.mem_append, not_or]
  refine ⟨hdash, ?_⟩
  cases range with
  | version v => exact fun hmem => hnumber h (List.dropLast_subset v hmem)
  | all => decide
  | latest => decide
  | upFrom v =>
    rw [text, List.dropLast_concat]
    exact hnumber h
  | upTo v =>
    rw [text, List.dropLast_concat]
    exact hnumber h

/-- A version with a sign behind it is neither the word `all`, nor does it start with `-`. -/
theorem nameVersions_signed {v : Str} (h : VersionNumber v) (sign : Char) (hsign : sign ≠ 'l') :
    nameVersions fork backend (v ++ [sign]) = if sign = '+' then (false, fork backend v [])
      else if sign = '-' then (false, fork backend [] v)
      else if v ++ [sign] = latest then (false, (fork backend [] []).getLast?.toList)
      else (false, [v ++ [sign]]) := by
  have hall : v ++ [sign] ≠ "all".toList := by
    intro heq
    have hlast := congrArg List.getLast? heq
    rw [List.getLast?_concat] at hlast
    exact hsign (Option.some.inj hlast)
  simp only [nameVersions, h.head_append [sign], decide_false, if_false,
    if_neg hall, List.getLast?_concat, List.dropLast_concat, Option.some.injEq]

theorem nameVersions_self {v : Str} (h : VersionNumber v) :
    nameVersions fork backend v = (false, [v]) := by
  rw [nameVersions]
  simp only [h.head, decide_false, if_false, if_neg h.not_all,
    if_neg h.last_plain, if_neg h.last, if_neg h.not_latest]

/-- A `-` in front and what the rest names. -/
theorem nameVersions_text {range : VersionRange} (h : range.Valid) (remove : Bool) :
    nameVersions fork backend (dash remove ++ range.text) = (remove, range.list fork backend) := by
  have hhead := VersionRange.text_head h
  have hstrip : nameVersions fork backend (dash remove ++ range.text) =
      (remove, (nameVersions fork backend range.text).2) := by
    cases remove with
    | true => simp [nameVersions, dash, hhead, apply_ite Prod.snd, apply_ite (Prod.mk true)]
    | false => simp [nameVersions, dash, hhead, apply_ite Prod.snd, apply_ite (Prod.mk false)]
  rw [hstrip]
  congr 1
  cases range with
  | version v => exact congrArg Prod.snd (nameVersions_self h)
  | all => rfl
  | latest => rfl
  | upFrom v => exact congrArg Prod.snd (nameVersions_signed h '+' (by decide))
  | upTo v => exact congrArg Prod.snd (nameVersions_signed h '-' (by decide))

/-- The last of the known versions is the one that no other comes after. -/
theorem mem_getLast_iff (K : KnownVersions) (backend v : Str) :
    v ∈ (K.known backend).getLast?.toList ↔
      v ∈ K.known backend ∧ ∀ w ∈ K.known backend, K.notAfter w v = true := by
  have hsorted := K.sorted backend
  rcases List.eq_nil_or_concat (K.known backend) with hnil | ⟨vs, last, hlast⟩
  · simp [hnil]
  · rw [List.concat_eq_append] at hlast
    rw [hlast, List.pairwise_append] at hsorted
    rw [hlast, List.getLast?_concat, Option.toList_some, List.mem_singleton]
    constructor
    · rintro rfl
      refine ⟨by simp, ?_⟩
      intro w hw
      rcases List.mem_append.mp hw with hw | hw
      · exact (hsorted.2.2 w hw v (List.mem_singleton_self v)).1
      · rw [List.mem_singleton.mp hw]
        exact K.refl v
    · rintro ⟨hv, hall⟩
      rcases List.mem_append.mp hv with hv | hv
      · have hafter := (hsorted.2.2 v hv last (List.mem_singleton_self last)).2
        rw [hall last (by simp)] at hafter
        cases hafter
      · exact List.mem_singleton.mp hv

theorem VersionRange.mem_list (hfork : PrintsKnown fork K) {range : VersionRange} (h : range.Valid)
    (v : Str) : v ∈ range.list fork backend ↔ range.Has K backend v := by
  have hall : fork backend [] [] = K.known backend := by
    rw [hfork]
    simp
  cases range with
  | version w => simp [list, Has]
  | all => rw [list, hall, Has]
  | latest => rw [list, hall, Has, mem_getLast_iff]
  | upFrom w => simp [list, Has, hfork backend w [], VersionNumber.nonempty h]
  | upTo w => simp [list, Has, hfork backend [] w, VersionNumber.nonempty h]

/-- There is no pair where the only `+` is at the end. -/
theorem lastPlus_none {s : Str} (h : '+' ∉ s.dropLast) : lastPlus s = none := by
  induction s with
  | nil => rfl
  | cons c s ih =>
    cases s with
    | nil => rfl
    | cons d s =>
      rw [List.dropLast_cons_cons, List.mem_cons, not_or] at h
      rw [lastPlus.eq_def]
      simp only [ih h.2]
      cases s with
      | nil => simp
      | cons e s =>
        have hd : d ≠ '+' := by
          rintro rfl
          exact h.2 (by simp)
        simp [hd]

theorem lastPlus_pair {a b : Str} (ha : a ≠ []) (hb : b ≠ []) (hplus : '+' ∉ b.dropLast) :
    lastPlus (a ++ '+' :: b) = some (a, b) := by
  induction a with
  | nil => exact absurd rfl ha
  | cons c a ih =>
    cases a with
    | nil =>
      obtain ⟨d, rest, rfl⟩ := List.exists_cons_of_ne_nil hb
      have htail : lastPlus ('+' :: d :: rest) = none := by
        rw [lastPlus.eq_def]
        simp only [lastPlus_none hplus]
        cases rest with
        | nil => simp
        | cons e rest =>
          have hd : d ≠ '+' := by
            rintro rfl
            exact hplus (by simp)
          simp [hd]
      rw [List.singleton_append, lastPlus.eq_def]
      simp only [htail]
    | cons d a =>
      rw [List.cons_append, lastPlus.eq_def]
      simp only [ih (List.cons_ne_nil d a)]

theorem VersionRange.text_space {range : VersionRange} (h : range.Valid) (minus : Bool) :
    ∀ c ∈ dash minus ++ range.text, isSpace c = false := by
  have hnumber : ∀ {v : Str}, VersionNumber v → ∀ c ∈ v, isSpace c = false :=
    fun hv c hc => (plain_mem hv.plain hc).2.2
  have hword : ∀ s : Str, s.all (!isSpace ·) = true → ∀ c ∈ s, isSpace c = false := by
    intro s hs c hc
    simpa using List.all_eq_true.mp hs c hc
  intro c hc
  rcases List.mem_append.mp hc with hc | hc
  · cases minus with
    | true =>
      rw [List.mem_singleton.mp hc]
      rfl
    | false => cases hc
  · cases range with
    | version v => exact hnumber h c hc
    | all => exact hword _ rfl c hc
    | latest => exact hword _ rfl c hc
    | upFrom v =>
      rcases List.mem_append.mp hc with hc | hc
      · exact hnumber h c hc
      · rw [List.mem_singleton.mp hc]
        rfl
    | upTo v =>
      rcases List.mem_append.mp hc with hc | hc
      · exact hnumber h c hc
      · rw [List.mem_singleton.mp hc]
        rfl

/-- The versions of sqlite3 in front of a pair. -/
theorem mem_plainVersions_text (hfork : PrintsKnown fork K) {range : VersionRange} (h : range.Valid)
    (remove : Bool) (v : Str) : v ∈ plainVersions fork backend (dash remove ++ range.text) ↔
      remove = false ∧ range.Has K backend v := by
  have hwords : (split isSpace (dash remove ++ range.text)).filter (· ≠ []) =
      [dash remove ++ range.text] := by
    have hne : dash remove ++ range.text ≠ [] := List.append_ne_nil_of_right_ne_nil _ (VersionRange.text_ne h)
    rw [split, if_neg hne, List.splitOnP_eq_singleton (VersionRange.text_space h remove)]
    apply List.filter_eq_self.mpr
    intro name hname
    rw [List.mem_singleton.mp hname]
    exact decide_eq_true hne
  have hmem := (versionsLoop_mem fork (fun name => ([[]], name)) backend id
    (hwords.trans (List.map_id _).symm)).2 v
  rw [plainVersions, hmem, ← List.nil_append [dash remove ++ range.text], lastAdds_append]
  simp only [id, nameVersions_text h, plainTargets_mem, VersionRange.mem_list hfork h, lastAdds_nil,
    and_false, or_false]
  exact and_comm

end Names

section Lists

variable {fork : NotFork} {K : KnownVersions} {backend : Str} {slist : List Str}

theorem mem_versionTargets {S bvers : List Str} {tgt : Str} :
    tgt ∈ versionTargets backend S bvers ↔
      ∃ sv ∈ S, ∃ bv ∈ bvers, tgt = versionTarget backend sv bv := by
  simp only [versionTargets, versionTarget, List.mem_flatMap, List.mem_map]
  constructor
  · rintro ⟨bv, hbv, sv, hsv, rfl⟩
    exact ⟨sv, hsv, bv, hbv, rfl⟩
  · rintro ⟨sv, hsv, bv, hbv, rfl⟩
    exact ⟨bv, hbv, sv, hsv, rfl⟩

/-- The versions of sqlite3 an element is combined with, and what it names besides. -/
def VersionItem.parts (fork : NotFork) (slist : List Str) : VersionItem → List Str × Str
  | .plain remove range => (if slist = [] then [[]] else slist, dash remove ++ range.text)
  | .pair remove sqlite minus range =>
    (plainVersions fork sqlite3 (dash remove ++ sqlite.text), dash minus ++ range.text)

/-- What the loop takes a word of the list apart into. -/
theorem nameParts_text {item : VersionItem} (h : item.Valid slist) :
    (if slist = [] then ([[]], item.text) else nameParts fork slist item.text) =
      item.parts fork slist := by
  cases item with
  | plain remove range =>
    rw [VersionItem.parts, VersionItem.text, nameParts, lastPlus_none (VersionRange.text_plus h remove)]
    split_ifs <;> rfl
  | pair remove sqlite minus range =>
    obtain ⟨hslist, hsqlite, hrange⟩ := h
    have hfront : dash remove ++ sqlite.text ≠ [] :=
      List.append_ne_nil_of_right_ne_nil _ (VersionRange.text_ne hsqlite)
    have hback : dash minus ++ range.text ≠ [] :=
      List.append_ne_nil_of_right_ne_nil _ (VersionRange.text_ne hrange)
    rw [if_neg hslist, VersionItem.parts, VersionItem.text, nameParts,
      lastPlus_pair hfront hback (VersionRange.text_plus hrange minus)]

/-- The versions that one element adds or removes; a pair with a `-` in front has none. -/
theorem mem_parts (hfork : PrintsKnown fork K) {item : VersionItem}
    (h : item.Valid slist) (tgt : Str) :
    tgt ∈ versionTargets backend (item.parts fork slist).1
        (nameVersions fork backend (item.parts fork slist).2).2 ↔
      (!item.dashedPair) = true ∧ item.Covers K backend slist tgt := by
  rw [mem_versionTargets]
  cases item with
  | plain remove range =>
    simp only [VersionItem.parts, nameVersions_text h, VersionRange.mem_list hfork h,
      VersionItem.dashedPair, VersionItem.Covers, Bool.not_false, true_and]
    by_cases hnil : slist = []
    · simp [hnil, versionTarget]
    · simp only [hnil, if_false]
      constructor
      · rintro ⟨sv, hsv, bv, hbv, rfl⟩
        exact ⟨bv, hbv, sv, hsv, rfl⟩
      · rintro ⟨bv, hbv, sv, hsv, rfl⟩
        exact ⟨sv, hsv, bv, hbv, rfl⟩
  | pair remove sqlite minus range =>
    obtain ⟨-, hsqlite, hrange⟩ := h
    simp only [VersionItem.parts, nameVersions_text hrange, VersionRange.mem_list hfork hrange,
      mem_plainVersions_text hfork hsqlite, VersionItem.dashedPair, VersionItem.Covers]
    cases remove <;> simp

theorem parts_removes {item : VersionItem} (h : item.Valid slist) (hdash : item.dashedPair = false) :
    (nameVersions fork backend (item.parts fork slist).2).1 = item.removes := by
  cases item with
  | plain remove range => rw [VersionItem.parts, nameVersions_text h, VersionItem.removes]
  | pair remove sqlite minus range =>
    obtain rfl : remove = false := hdash
    rw [VersionItem.parts, nameVersions_text h.2.2, VersionItem.removes, Bool.false_or]

/-- What a list comes to: the elements are followed, but for the pairs with a `-` in front. -/
theorem mem_versionsList (backend : Str) (hfork : PrintsKnown fork K) {names : Str}
    {items : List VersionItem} (hvalid : ∀ item ∈ items, item.Valid slist)
    (hwords : (split isSpace names).filter (· ≠ []) = items.map VersionItem.text) :
    (versionsList fork backend names slist).Nodup ∧ ∀ tgt,
      tgt ∈ versionsList fork backend names slist ↔
        LastAdds (VersionItem.Covers K backend slist tgt) VersionItem.removes
          (items.filter (!VersionItem.dashedPair ·)) := by
  have hloop : versionsList fork backend names slist = versionsLoop fork
      (fun name => if slist = [] then ([[]], name) else nameParts fork slist name) backend names := by
    rw [versionsList]
    split_ifs <;> rfl
  rw [hloop]
  obtain ⟨hnodup, hmem⟩ := versionsLoop_mem fork
    (fun name => if slist = [] then ([[]], name) else nameParts fork slist name) backend
    VersionItem.text hwords
  refine ⟨hnodup, ?_⟩
  intro tgt
  rw [hmem, ← lastAdds_filter]
  apply lastAdds_congr
  · intro item hitem
    rw [nameParts_text (hvalid item hitem)]
    exact mem_parts hfork (hvalid item hitem) tgt
  · intro item hitem hcovers
    rw [nameParts_text (hvalid item hitem)] at hcovers ⊢
    have hdash := ((mem_parts hfork (hvalid item hitem) tgt).mp hcovers).1
    exact parts_removes (hvalid item hitem) (by simpa using hdash)

/-- A list of versions has no duplicates and holds a target exactly when the last element that
stands for it does not remove, just where nothing depends on the pairs to be removed: those
with a `-` in front do nothing. -/
theorem versionsList_last_iff (hfork : PrintsKnown fork K) {names : Str}
    {items : List VersionItem} (hvalid : ∀ item ∈ items, item.Valid slist)
    (hwords : (split isSpace names).filter (· ≠ []) = items.map VersionItem.text) :
    ((versionsList fork backend names slist).Nodup ∧ ∀ tgt,
      tgt ∈ versionsList fork backend names slist ↔
        LastAdds (VersionItem.Covers K backend slist tgt) VersionItem.removes items) ↔
    ∀ tgt, LastAdds (VersionItem.Covers K backend slist tgt) VersionItem.removes
        (items.filter (!VersionItem.dashedPair ·)) →
      LastAdds (VersionItem.Covers K backend slist tgt) VersionItem.removes items := by
  obtain ⟨hnodup, hmem⟩ := mem_versionsList backend hfork hvalid hwords
  have hkeep : ∀ item : VersionItem, (!item.dashedPair) = false → item.removes = true := by
    intro item hdash
    cases item with
    | plain remove range => cases hdash
    | pair remove sqlite minus range =>
      obtain rfl : remove = true := by simpa [VersionItem.dashedPair] using hdash
      rfl
  constructor
  · rintro ⟨-, hlaw⟩ tgt htgt
    exact (hlaw tgt).mp ((hmem tgt).mpr htgt)
  · intro hidle
    refine ⟨hnodup, ?_⟩
    intro tgt
    rw [hmem]
    exact ⟨hidle tgt, LastAdds.filter hkeep⟩

end Lists

def textLe : Str → Str → Bool
  | [], _ => true
  | _ :: _, [] => false
  | c :: s, d :: t => c.toNat < d.toNat || (c == d && textLe s t)

theorem textLe_refl (s : Str) : textLe s s = true := by
  induction s with
  | nil => rfl
  | cons c s ih => simp [textLe, ih]

/-- Versions in the order of their characters. -/
def sampleVersions : KnownVersions where
  known backend := if backend = sqlite3 then ["3.36.0".toList, "3.37.2".toList]
    else ["0.9.28".toList, "0.9.29".toList]
  notAfter := textLe
  number backend v hv := by
    split_ifs at hv <;>
    · simp only [List.mem_cons, List.not_mem_nil, or_false] at hv
      rcases hv with rfl | rfl <;>
        exact ⟨by decide, by decide, by decide, by decide, by decide, by decide⟩
  refl := textLe_refl
  sorted backend := by
    split_ifs <;> simp [List.pairwise_cons] <;> decide

def sampleFork : NotFork := fun backend lo hi => (sampleVersions.known backend).filter fun v =>
  (lo = [] ∨ sampleVersions.notAfter lo v) ∧ (hi = [] ∨ sampleVersions.notAfter v hi)

def sampleSqlite : List Str := ["3.36.0".toList, "3.37.2".toList]

theorem sampleNumber : VersionNumber "3.36.0".toList ∧ VersionNumber "0.9.29".toList :=
  ⟨⟨by decide, by decide, by decide, by decide, by decide, by decide⟩,
    ⟨by decide, by decide, by decide, by decide, by decide, by decide⟩⟩

/-- All versions of the backend with all of sqlite3, but for one pair. -/
def sampleItems (remove minus : Bool) : List VersionItem :=
  [.plain false .all, .pair remove (.version "3.36.0".toList) minus (.version "0.9.29".toList)]

theorem sampleItems_valid (remove minus : Bool) :
    ∀ item ∈ sampleItems remove minus, item.Valid sampleSqlite := by
  intro item hitem
  simp only [sampleItems, List.mem_cons, List.not_mem_nil, or_false] at hitem
  rcases hitem with rfl | rfl
  · trivial
  · exact ⟨by decide, sampleNumber.1, sampleNumber.2⟩

theorem versionsList_last_iff_sample :
    ((versionsList sampleFork lmdb "all 3.36.0+-0.9.29".toList sampleSqlite).Nodup ∧ ∀ tgt,
      tgt ∈ versionsList sampleFork lmdb "all 3.36.0+-0.9.29".toList sampleSqlite ↔
        LastAdds (VersionItem.Covers sampleVersions lmdb sampleSqlite tgt) VersionItem.removes
          (sampleItems false true)) ↔
    ∀ tgt, LastAdds (VersionItem.Covers sampleVersions lmdb sampleSqlite tgt) VersionItem.removes
        ((sampleItems false true).filter (!VersionItem.dashedPair ·)) →
      LastAdds (VersionItem.Covers sampleVersions lmdb sampleSqlite tgt) VersionItem.removes
        (sampleItems false true) :=
  versionsList_last_iff (fun _ _ _ => rfl) (sampleItems_valid false true) (by decide)

/-- A pair with a `-` in front of it is not removed. -/
theorem dashed_pair_kept : ¬ ∀ (fork : NotFork) (K : KnownVersions) (backend names : Str)
    (slist : List Str) (items : List VersionItem), PrintsKnown fork K →
    (∀ item ∈ items, item.Valid slist) →
    (split isSpace names).filter (· ≠ []) = items.map VersionItem.text →
    (versionsList fork backend names slist).Nodup ∧ ∀ tgt,
      tgt ∈ versionsList fork backend names slist ↔
        LastAdds (VersionItem.Covers K backend slist tgt) VersionItem.removes items := by
  intro h
  obtain ⟨-, hlaw⟩ := h sampleFork sampleVersions lmdb "all -3.36.0+0.9.29".toList sampleSqlite
    (sampleItems true false) (fun _ _ _ => rfl) (sampleItems_valid true false) (by decide)
  have hlisted : "3.36.0+lmdb-0.9.29".toList ∈
      versionsList sampleFork lmdb "all -3.36.0+0.9.29".toList sampleSqlite := by decide
  have hlast := (hlaw _).mp hlisted
  rw [sampleItems, ← List.singleton_append, lastAdds_append] at hlast
  rcases hlast with ⟨-, hadds⟩ | ⟨hnot, -⟩
  · cases hadds
  · exact hnot ⟨_, _, rfl, rfl, by decide⟩

end LumoSql.Build
