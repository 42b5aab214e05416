import LumoSql.BuildOptionText

/-! Giving the target strings of a list back as targets. A target that names its version of sqlite3
is read as itself; one that does not, as those of a backend with its own sqlite3, is dropped. -/
namespace LumoSql.Build
open Tcl

/-- A version number, and no other way to name versions. -/
structure VersionNumber (v : Str) : Prop where
  nonempty : v ≠ []
  plain : v.all isPlain = true
  head : v.head? ≠ some '-'
  last : v.getLast? ≠ some '-'
  not_all : v ≠ "all".toList
  not_latest : v ≠ latest

/-- The not-forking tool prints version numbers. -/
def PrintsVersions (fork : NotFork) : Prop := ∀ backend lo hi, ∀ v ∈ fork backend lo hi, VersionNumber v

/-- Neither a blank nor a backslash. -/
def isSolid (c : Char) : Bool := c ≠ '\\' && !isSpace c

theorem plain_solid {s : Str} (h : s.all isPlain = true) : s.all isSolid = true :=
  List.all_eq_true.mpr fun c hc => by
    have := List.all_eq_true.mp h c hc
    simp only [isPlain, isSolid, Bool.and_eq_true] at this ⊢
    exact ⟨this.1.2, this.2⟩

theorem solid_mem {s : Str} (h : s.all isSolid = true) {c : Char} (hc : c ∈ s) :
    c ≠ '\\' ∧ isSpace c = false := by
  have := List.all_eq_true.mp h c hc
  simpa [isSolid] using this

theorem plain_mem {s : Str} (h : s.all isPlain = true) {c : Char} (hc : c ∈ s) :
    c ≠ '+' ∧ c ≠ '\\' ∧ isSpace c = false := by
  have := List.all_eq_true.mp h c hc
  simpa [isPlain, and_assoc] using this

section Versions

variable {fork : NotFork} {backend names : Str}

theorem addVersion_mem {remove : Bool} {R : List Str} {tgt x : Str} (h : x ∈ addVersion remove R tgt) :
    x ∈ R ∨ remove = false ∧ x = tgt := by
  rw [addVersion] at h
  split_ifs at h with hmem hremove hremove
  · exact .inl (List.mem_of_mem_erase h)
  · exact .inl h
  · exact .inl h
  · rcases List.mem_append.mp h with h | h
    · exact .inl h
    · exact .inr ⟨by simpa using hremove, List.mem_singleton.mp h⟩

/-- What holds of everything that is added holds of the list. -/
theorem versionsLoop_all {P : Str → Prop} {parts : Str → List Str × Str}
    (h : ∀ name ∈ split isSpace names, name ≠ [] →
      (nameVersions fork backend (parts name).2).1 = false →
        ∀ tgt ∈ versionTargets backend (parts name).1 (nameVersions fork backend (parts name).2).2,
          P tgt) :
    ∀ tgt ∈ versionsLoop fork parts backend names, P tgt := by
  rw [versionsLoop]
  refine List.foldlRecOn (motive := fun R => ∀ tgt ∈ R, P tgt) _ _ (by simp) fun R hR name hname => ?_
  obtain ⟨hname, hne⟩ := List.mem_filter.mp hname
  refine List.foldlRecOn (motive := fun R => ∀ tgt ∈ R, P tgt) _ _ hR fun R hR tgt htgt x hx => ?_
  rcases addVersion_mem hx with hx | ⟨hremove, rfl⟩
  · exact hR x hx
  · exact h name hname (by simpa using hne) hremove x htgt

/-- A name that does not remove stands for versions that were printed, or for itself. -/
theorem nameVersions_mem {name v : Str} (hremove : (nameVersions fork backend name).1 = false)
    (hv : v ∈ (nameVersions fork backend name).2) :
    (∃ lo hi, v ∈ fork backend lo hi) ∨ v = name ∧ name.head? ≠ some '-' ∧
      name ≠ "all".toList ∧ name.getLast? ≠ some '+' ∧ name.getLast? ≠ some '-' ∧ name ≠ latest := by
  rw [nameVersions] at hremove hv
  by_cases hdash : name.head? = some '-'
  · simp only [hdash, decide_true, if_true] at hremove
    split_ifs at hremove
  · simp only [hdash, decide_false, if_false] at hv
    split_ifs at hv with hall hplus hminus hlatest
    · exact .inl ⟨_, _, hv⟩
    · exact .inl ⟨_, _, hv⟩
    · exact .inl ⟨_, _, hv⟩
    · exact .inl ⟨_, _, List.mem_of_getLast? (Option.mem_toList.mp hv)⟩
    · exact .inr ⟨List.mem_singleton.mp hv, hdash, hall, hplus, hminus, hlatest⟩

theorem plainTargets_mem {bvers : List Str} {tgt : Str} :
    tgt ∈ versionTargets backend [[]] bvers ↔ tgt ∈ bvers := by
  rw [versionTargets]
  simp

/-- Without a `+` or a backslash in the list, all versions are version numbers. -/
theorem plainVersions_number (hfork : PrintsVersions fork) (hplus : '+' ∉ names) (hback : '\\' ∉ names) :
    ∀ v ∈ plainVersions fork backend names, VersionNumber v := by
  refine versionsLoop_all fun name hname hne hremove tgt htgt => ?_
  rcases nameVersions_mem hremove (plainTargets_mem.mp htgt) with ⟨lo, hi, h⟩ |
    ⟨rfl, hhead, hall, -, hlast, hlatest⟩
  · exact hfork backend lo hi tgt h
  · refine ⟨hne, List.all_eq_true.mpr fun c hc => ?_, hhead, hlast, hall, hlatest⟩
    obtain ⟨hmem, hspace⟩ := split_mem hname hc
    have h1 : c ≠ '+' := fun he => hplus (he ▸ hmem)
    have h2 : c ≠ '\\' := fun he => hback (he ▸ hmem)
    simp [isPlain, h1, h2, hspace]

/-- A version number stands for itself. -/
theorem plainVersions_self {v : Str} (hv : VersionNumber v) : plainVersions fork backend v = [v] := by
  have hspace : ∀ c ∈ v, isSpace c = false := fun c hc => (plain_mem hv.plain hc).2.2
  have hplus : v.getLast? ≠ some '+' := fun h => (plain_mem hv.plain (List.mem_of_getLast? h)).1 rfl
  have hname : nameVersions fork backend v = (false, [v]) := by
    rw [nameVersions]
    simp only [hv.head, decide_false, if_false, if_neg hv.not_all, if_neg hplus,
      if_neg hv.last, if_neg hv.not_latest]
  rw [plainVersions, versionsLoop, split, if_neg hv.nonempty, List.splitOnP_eq_singleton hspace,
    List.filter_cons_of_pos (by simpa using hv.nonempty), List.filter_nil, List.foldl_cons]
  simp [hname, versionTargets, addVersion]

theorem lastPlus_append {name a b : Str} (h : lastPlus name = some (a, b)) :
    name = a ++ '+' :: b ∧ b ≠ [] := by
  induction name generalizing a with
  | nil => cases h
  | cons c s ih =>
    rw [lastPlus.eq_def] at h
    dsimp only at h
    cases hrest : lastPlus s with
    | some ab =>
      rw [hrest] at h
      obtain ⟨rfl, rfl⟩ := Prod.mk.inj (Option.some.inj h)
      obtain ⟨hs, hb⟩ := ih hrest
      exact ⟨by rw [hs]; rfl, hb⟩
    | none =>
      rw [hrest] at h
      dsimp only at h
      split at h
      · obtain ⟨rfl, rfl⟩ := Prod.mk.inj (Option.some.inj h)
        exact ⟨rfl, List.cons_ne_nil _ _⟩
      · cases h

variable {clean : Prop}

/-- What a list of versions can hold: words, that do not end with a `+`; they have no backslash
when the list is clean. -/
structure Named (clean : Prop) (t : Str) : Prop where
  nonempty : t ≠ []
  solid : clean → t.all isSolid = true
  last : t.getLast? ≠ some '+'

theorem VersionNumber.named {v : Str} (hv : VersionNumber v) : Named clean v :=
  ⟨hv.nonempty, fun _ => plain_solid hv.plain, fun h => (plain_mem hv.plain (List.mem_of_getLast? h)).1 rfl⟩

/-- A name of a list, or its last part. -/
theorem nameVersions_named (hfork : PrintsVersions fork) {name : Str} (hne : name ≠ [])
    (hsolid : clean → name.all isSolid = true)
    (hremove : (nameVersions fork backend name).1 = false) :
    ∀ v ∈ (nameVersions fork backend name).2, Named clean v := by
  intro v hv
  rcases nameVersions_mem hremove hv with ⟨lo, hi, h⟩ | ⟨rfl, -, -, hplus, -, -⟩
  · exact (hfork backend lo hi v h).named
  · exact ⟨hne, hsolid, hplus⟩

theorem word_solid (hback : clean → '\\' ∉ names) {name : Str} (hname : name ∈ split isSpace names) :
    clean → name.all isSolid = true := fun hclean =>
  List.all_eq_true.mpr fun c hc => by
    obtain ⟨hmem, hspace⟩ := split_mem hname hc
    have hne : c ≠ '\\' := fun he => hback hclean (he ▸ hmem)
    simp [isSolid, hne, hspace]

theorem plainVersions_named (hfork : PrintsVersions fork) (hback : clean → '\\' ∉ names) :
    ∀ v ∈ plainVersions fork backend names, Named clean v :=
  versionsLoop_all fun _ hname hne hremove tgt htgt =>
    nameVersions_named hfork hne (word_solid hback hname) hremove tgt (plainTargets_mem.mp htgt)

theorem versionsList_named (hfork : PrintsVersions fork) (hbackend : backend.all isSolid = true)
    (hback : clean → '\\' ∉ names) {slist : List Str} (hslist : ∀ sv ∈ slist, Named clean sv) :
    ∀ v ∈ versionsList fork backend names slist, Named clean v := by
  rw [versionsList]
  split_ifs with hnil
  · exact plainVersions_named hfork hback
  refine versionsLoop_all fun name hname hne hremove tgt htgt => ?_
  have hword := word_solid hback hname
  -- both parts of a name are versions themselves
  have hparts : (∀ sv ∈ (nameParts fork slist name).1, Named clean sv) ∧
      (nameParts fork slist name).2 ≠ [] ∧
        (clean → (nameParts fork slist name).2.all isSolid = true) := by
    rw [nameParts]
    cases hplus : lastPlus name with
    | none => exact ⟨hslist, hne, hword⟩
    | some ab =>
      obtain ⟨hsplit, hb⟩ := lastPlus_append hplus
      rw [hsplit, List.all_append, List.all_cons, Bool.and_eq_true, Bool.and_eq_true] at hword
      refine ⟨plainVersions_named hfork fun hclean hmem => ?_, hb, fun hclean => (hword hclean).2.2⟩
      exact (solid_mem (hword hclean).1 hmem).1 rfl
  obtain ⟨hS, hrest, hsolid⟩ := hparts
  have hversions := nameVersions_named hfork hrest hsolid hremove
  obtain ⟨bv, hbv, htgt⟩ := List.mem_flatMap.mp htgt
  obtain ⟨sv, hsv, rfl⟩ := List.mem_map.mp htgt
  have hv := hversions bv hbv
  rw [if_neg (hS sv hsv).nonempty]
  refine ⟨by simp, ?_, ?_⟩
  · intro hclean
    rw [List.all_append, List.all_cons, List.all_append, List.all_cons, (hS sv hsv).solid hclean,
      hbackend, hv.solid hclean]
    rfl
  · rw [List.getLast?_append_of_ne_nil _ (List.cons_ne_nil _ _), ← List.singleton_append,
      List.getLast?_append_of_ne_nil _ hv.nonempty]
    exact hv.last

end Versions

section Generated

variable (clean : Prop) (values : OptionValues)

/-- What the two procedures make of what is asked for; the second one is given a backend after a
`+`. -/
inductive Generated : Benchmark → Prop
  | no (target : Str) (hsolid : clean → target.all isSolid = true) : Generated
      ⟨target ++ (benchmarkText values).plus ++ (benchmarkText values).opts,
        target ++ (buildText values).plus ++ (buildText values).opts, (benchmarkText values).ol⟩
  | yes (a b : Str) (hsolid : clean → (a ++ '+' :: b).all isSolid = true) (hb : b ≠ []) : Generated
      ⟨a ++ '+' :: b ++ (benchmarkText values).opts, a ++ '+' :: b ++ (buildText values).opts,
        (benchmarkText values).ol⟩

/-- A list without the same target twice. -/
structure Lists.Good (L : Lists) : Prop where
  nodup : L.names.Nodup
  generated : ∀ t ∈ L.benchmarks, Generated clean values t

variable {clean values} {L : Lists}

@[simp] theorem Lists.addBuild_benchmarks (L : Lists) (b : Str) (ol : List (Str × Str)) :
    (L.addBuild b ol).benchmarks = L.benchmarks := by
  rw [Lists.addBuild]
  split_ifs <;> rfl

theorem Lists.addBenchmark_mem {t u : Benchmark} (h : u ∈ (L.addBenchmark t).benchmarks) :
    u ∈ L.benchmarks ∨ u = t := by
  rw [Lists.addBenchmark] at h
  split_ifs at h
  · exact .inl h
  · rcases List.mem_append.mp h with h | h
    · exact .inl h
    · exact .inr (List.mem_singleton.mp h)

theorem Lists.Good.addBuild (h : L.Good clean values) (b : Str) (ol : List (Str × Str)) :
    (L.addBuild b ol).Good clean values :=
  ⟨by rw [Lists.names, Lists.addBuild_benchmarks]; exact h.nodup,
    by rw [Lists.addBuild_benchmarks]; exact h.generated⟩

theorem Lists.Good.addBenchmark (h : L.Good clean values) {t : Benchmark} (ht : Generated clean values t) :
    (L.addBenchmark t).Good clean values := by
  rw [Lists.addBenchmark]
  split_ifs with hmem
  · exact h
  · refine ⟨?_, fun u hu => ?_⟩
    · rw [Lists.names, List.map_append, List.map_singleton]
      exact List.nodup_append.mpr ⟨h.nodup, by simp, by
        rintro a ha b hb rfl
        exact hmem (List.mem_singleton.mp hb ▸ ha)⟩
    · rcases List.mem_append.mp hu with hu | hu
      · exact h.generated u hu
      · rw [List.mem_singleton.mp hu]
        exact ht

theorem Lists.Good.addTargetNo (h : L.Good clean values) {target : Str}
    (hsolid : clean → target.all isSolid = true) : (addTargetNo values L target true).Good clean values :=
  (h.addBenchmark (.no target hsolid)).addBuild _ _

theorem Lists.Good.addTargetYes (h : L.Good clean values) {a b : Str}
    (hsolid : clean → (a ++ '+' :: b).all isSolid = true) (hb : b ≠ []) :
    (addTargetYes values L (a ++ '+' :: b)).Good clean values := by
  rw [Build.addTargetYes]
  split_ifs
  · exact h
  · exact (h.addBenchmark (.yes a b hsolid hb)).addBuild _ _

theorem Lists.Good.addLinked (h : L.Good clean values) {bver : Str} (hbver : Named clean bver) :
    (addLinked values L bver).Good clean values := by
  rw [Build.addLinked]
  cases hcut : cut '+' bver with
  | none => exact h
  | some ab =>
    obtain ⟨sv, bv⟩ := ab
    obtain ⟨rfl, -⟩ := cut_some hcut
    have hsolid := hbver.solid
    rw [List.all_append, Bool.and_eq_true] at hsolid
    refine (h.addTargetNo fun hclean => (hsolid hclean).1).addTargetYes hbver.solid fun hnil => ?_
    exact hbver.last (by rw [hnil]; simp)

theorem Lists.Good.addStandalone (h : L.Good clean values) {v backend sver : Str}
    (hv : clean → v.all isSolid = true) (hbackend : backend.all isSolid = true)
    (hsver : Named clean sver) :
    (addStandalone v values backend L sver).Good clean values := by
  have htarget : ∀ s : Str, (clean → s.all isSolid = true) →
      clean → ([] ++ '+' :: (backend ++ '-' :: s)).all isSolid = true := fun s hs hclean => by
    rw [List.nil_append, List.all_cons, List.all_append, List.all_cons, hbackend, hs hclean]
    rfl
  rw [Build.addStandalone]
  cases hcut : cut '=' sver with
  | none => exact h.addTargetYes (htarget v hv) (by simp)
  | some ab =>
    obtain ⟨bv, sv⟩ := ab
    obtain ⟨rfl, -⟩ := cut_some hcut
    have hsolid := hsver.solid
    rw [List.all_append, List.all_cons, Bool.and_eq_true, Bool.and_eq_true] at hsolid
    exact (h.addTargetNo fun hclean => (hsolid hclean).2.2).addTargetYes
      (htarget bv fun hclean => (hsolid hclean).1) (by simp)

/-- No backslash in a list of versions. -/
structure Settings.Clean (settings : Settings) : Prop where
  sqliteVersions : '\\' ∉ settings.sqliteVersions
  sqliteFor : ∀ backend ∈ backends, '\\' ∉ (settings.backend backend).sqliteFor
  versions : ∀ backend ∈ backends, '\\' ∉ (settings.backend backend).versions
  standalone : ∀ backend ∈ backends, '\\' ∉ (settings.backend backend).standalone

variable {fork : NotFork} {v : Str} {settings : Settings}

theorem noVersions (clean : Prop) : ∀ sv ∈ ([] : List Str), Named clean sv :=
  fun _ h => absurd h List.not_mem_nil

theorem Lists.Good.addBackend (hfork : PrintsVersions fork) (hv : clean → v.all isSolid = true)
    (hclean : clean → settings.Clean) (h : L.Good clean values) {backend : Str} (hbackend : backend ∈ backends) :
    (addBackend fork v values settings L backend).Good clean values := by
  have hsolid : backend.all isSolid = true := by
    rcases List.mem_cons.mp hbackend with rfl | hbackend
    · decide
    · rw [List.mem_singleton.mp hbackend]
      decide
  have hsqlite : sqlite3.all isSolid = true := by decide
  rw [Build.addBackend]
  split_ifs
  · have hdvers := versionsList_named hfork hsqlite (fun h => (hclean h).sqliteFor backend hbackend)
      (noVersions clean)
    have hbvers := versionsList_named hfork hsolid (fun h => (hclean h).versions backend hbackend) hdvers
    have hsvers := versionsList_named hfork hsolid (fun h => (hclean h).standalone backend hbackend)
      (noVersions clean)
    refine List.foldlRecOn (motive := fun L : Lists => L.Good clean values) _ _ ?_ fun L hL sver hsver =>
      hL.addStandalone hv hsolid (hsvers sver hsver)
    exact List.foldlRecOn (motive := fun L : Lists => L.Good clean values) _ _ h fun L hL bver hbver =>
      hL.addLinked (hbvers bver hbver)
  · exact h

theorem Lists.Good.generateTargets (hfork : PrintsVersions fork) (hv : clean → v.all isSolid = true)
    (hclean : clean → settings.Clean) (h : L.Good clean values) :
    (generateTargets fork v values settings L).Good clean values := by
  rw [Build.generateTargets]
  refine List.foldlRecOn (motive := fun L : Lists => L.Good clean values) _ _ ?_ fun L hL backend hbackend =>
    hL.addBackend hfork hv hclean hbackend
  split_ifs
  · have hsvers := versionsList_named hfork (by decide : sqlite3.all isSolid = true)
      (fun h => (hclean h).sqliteVersions) (noVersions clean)
    exact List.foldlRecOn (motive := fun L : Lists => L.Good clean values) _ _ h fun L hL sv hsv =>
      hL.addTargetNo (hsvers sv hsv).solid
  · exact h

end Generated

section Parse

/-- Nothing, or a backend with its version. -/
def BackendVersion (bv : Str) : Prop :=
  bv = [] ∨ ∃ backend ver, isBackend backend = true ∧ VersionNumber ver ∧ bv = backend ++ '-' :: ver

theorem isBackend_name {backend : Str} (h : isBackend backend = true) :
    backend ≠ [] ∧ backend.all isWord = true ∧ backend.all isPlain = true ∧ '-' ∉ backend := by
  have h := of_decide_eq_true h
  simp only [List.mem_cons, List.not_mem_nil, or_false] at h
  rcases h with rfl | rfl | rfl <;> exact ⟨by decide, by decide, by decide, by decide⟩

theorem BackendVersion.plain {bv : Str} (h : BackendVersion bv) : bv.all isPlain = true := by
  rcases h with rfl | ⟨backend, ver, hbackend, hver, rfl⟩
  · rfl
  · rw [List.all_append, List.all_cons, (isBackend_name hbackend).2.2.1, hver.plain]
    rfl

theorem BackendVersion.last {bv : Str} (h : BackendVersion bv) : bv.getLast? ≠ some '+' := fun hlast =>
  (plain_mem h.plain (List.mem_of_getLast? hlast)).1 rfl

/-- What follows the version of sqlite3 in a target. -/
def targetData (bv : Str) (items : List Str) : List Str :=
  if bv = [] then if items = [] then [] else [] :: items else bv :: items

theorem targetData_tail (bv : Str) (items : List Str) : (targetData bv items).tail = items := by
  rw [targetData]
  split_ifs with hbv hitems
  · exact hitems.symm
  · rfl
  · rfl

theorem targetData_head (bv : Str) (items : List Str) : (targetData bv items).head?.getD [] = bv := by
  rw [targetData]
  split_ifs with hbv
  · exact hbv.symm
  · exact hbv.symm
  · rfl

variable {values : OptionValues} {sv bv : Str}

theorem targetBenchmark_name (values : OptionValues) (sv bv : Str) :
    (targetBenchmark values sv bv).name = sv ++ plused (targetData bv (optionItems values options)) := by
  rw [targetBenchmark, benchmarkText_eq, targetData]
  by_cases hbv : bv = []
  · rw [if_pos hbv, if_pos hbv, plusOf]
    split_ifs with hitems
    · rw [hitems]
      simp [plused]
    · simp [plused]
  · rw [if_neg hbv, if_neg hbv]
    simp [plused]

theorem targetItems_eq {s : Str} (hback : '\\' ∉ s) : targetItems s = split (· == '+') s :=
  split_escaped '+' 'p' ⟨fun _ => rfl, fun c s hc => by simp [List.isPrefixOf, Ne.symm hc]⟩ rfl rfl hback

theorem targetWords_eq {s : Str} (hback : '\\' ∉ s) :
    targetWords s = (split isSpace s).filter (· ≠ []) :=
  words_escaped ' ' 's' ⟨fun _ => rfl, fun c s hc => by simp [List.isPrefixOf, Ne.symm hc]⟩ rfl rfl hback

theorem targetData_plain (hbv : BackendVersion bv) (hvalid : ValidValues values) :
    ∀ item ∈ targetData bv (optionItems values options), item.all isPlain = true := by
  have hitems := optionItems_plain hvalid
  rw [targetData]
  intro item hitem
  split_ifs at hitem
  · cases hitem
  · rcases List.mem_cons.mp hitem with rfl | hitem
    · rfl
    · exact hitems item hitem
  · rcases List.mem_cons.mp hitem with rfl | hitem
    · exact hbv.plain
    · exact hitems item hitem

/-- A target comes apart into what it was made of. -/
theorem targetItems_name (hsv : VersionNumber sv) (hbv : BackendVersion bv) (hvalid : ValidValues values) :
    targetItems (targetBenchmark values sv bv).name =
      sv :: targetData bv (optionItems values options) := by
  have hdata := targetData_plain hbv hvalid
  rw [targetBenchmark_name]
  generalize targetData bv (optionItems values options) = data at hdata
  have hchars : ∀ {s : Str}, s.all isPlain = true → ∀ c ∈ s, (c == '+') = false := fun hs c hc => by
    simpa using (plain_mem hs hc).1
  have hback : '\\' ∉ sv ++ plused data := by
    intro hmem
    rcases List.mem_append.mp hmem with hmem | hmem
    · exact (plain_mem hsv.plain hmem).2.1 rfl
    · obtain ⟨item, hitem, hmem⟩ := List.mem_flatMap.mp hmem
      rcases List.mem_cons.mp hmem with hmem | hmem
      · exact absurd hmem (by decide)
      · exact (plain_mem (hdata item hitem) hmem).2.1 rfl
  have hne : sv ++ plused data ≠ [] := List.append_ne_nil_of_left_ne_nil hsv.nonempty _
  rw [targetItems_eq hback, split, if_neg hne]
  exact splitOnP_intercalate rfl (hchars hsv.plain) fun l hl => hchars (hdata l hl)

theorem name_solid (hsv : VersionNumber sv) (hbv : BackendVersion bv) (hvalid : ValidValues values) :
    (targetBenchmark values sv bv).name.all isSolid = true := by
  have hdata := targetData_plain hbv hvalid
  rw [targetBenchmark_name, List.all_append, plain_solid hsv.plain, Bool.true_and]
  refine List.all_eq_true.mpr fun c hc => ?_
  obtain ⟨item, hitem, hc⟩ := List.mem_flatMap.mp hc
  rcases List.mem_cons.mp hc with rfl | hc
  · rfl
  · exact List.all_eq_true.mp (plain_solid (hdata item hitem)) c hc

theorem nameAndRest_backend {backend : Str} (h : isBackend backend = true) (ver : Str) :
    nameAndRest (backend ++ '-' :: ver) = some (backend, ver) := by
  obtain ⟨hne, hword, -, hdash⟩ := isBackend_name h
  rw [nameAndRest, cut_append hdash, Option.filter_some]
  simp only [hword, Bool.and_true, decide_eq_true hne, if_true]

theorem targetBackends_data {fork : NotFork} (hbv : BackendVersion bv) (items : List Str)
    (benchmark : Str) : targetBackends fork benchmark (targetData bv items) = .ok [bv] := by
  rw [targetData]
  by_cases hnil : bv = []
  · rw [if_pos hnil, hnil]
    split_ifs <;> rfl
  · obtain ⟨backend, ver, hbackend, hver, rfl⟩ := hbv.resolve_left hnil
    rw [if_neg hnil, targetBackends, if_neg hnil]
    simp only [nameAndRest_backend hbackend, hbackend, plainVersions_self hver, Bool.not_true,
      Bool.false_eq_true, if_false, List.cons_ne_nil, List.map_cons, List.map_nil]

/-- A target that names its version of sqlite3 is read as itself. -/
theorem parseTarget_name {fork : NotFork} (hsv : VersionNumber sv) (hbv : BackendVersion bv)
    (hvalid : ValidValues values) (L : Lists) :
    parseTarget fork defaultValues L (targetBenchmark values sv bv).name =
      .ok ((L.addBenchmark (targetBenchmark values sv bv)).addBuild
        (targetBenchmark values sv bv).build (buildText values).ol) := by
  have hname := targetBenchmark_name values sv bv
  have hne : (targetBenchmark values sv bv).name ≠ [] := by
    rw [hname]
    exact List.append_ne_nil_of_left_ne_nil hsv.nonempty _
  have hhead : (targetBenchmark values sv bv).name.head? ≠ some ' ' := fun h => by
    have := solid_mem (name_solid hsv hbv hvalid) (List.mem_of_head? h)
    exact absurd this.2 (by decide)
  obtain ⟨final, hrun, hlisted⟩ := targetOptions_all hvalid
  have htexts := texts_eq hlisted
  have hsame : targetBenchmark final sv bv = targetBenchmark values sv bv := by
    rw [targetBenchmark, htexts.1, htexts.2]
    rfl
  have hadd : addTarget defaultValues true (optionItems values options) L (sv, bv) =
      .ok ((L.addBenchmark (targetBenchmark values sv bv)).addBuild
        (targetBenchmark values sv bv).build (buildText values).ol) := by
    rw [addTarget, hrun, ← htexts.2, ← hsame]
    rfl
  rw [parseTarget, if_neg hne, if_neg hhead, parseBenchmark]
  simp only [targetItems_name hsv hbv hvalid, targetData_tail, plainVersions_self hsv,
    targetBackends_data hbv]
  exact (congrArg (· >>= pure) hadd : _)

end Parse

section Replay

variable {clean : Prop} {fork : NotFork} {values : OptionValues} {sv bv : Str}

/-- A generated target with the name of another has the same build and options. -/
theorem Generated.eq_target {t : Benchmark} (h : Generated clean values t) (hsv : VersionNumber sv)
    (hbv : BackendVersion bv) (hname : t.name = (targetBenchmark values sv bv).name) :
    t = targetBenchmark values sv bv := by
  have hplus : '+' ∉ sv := fun hmem => (plain_mem hsv.plain hmem).1 rfl
  rw [targetBenchmark] at hname ⊢
  cases h with
  | no target hsolid =>
    split_ifs at hname ⊢ with hnil
    · rw [List.append_left_inj, List.append_left_inj] at hname
      rw [hname]
    · rw [List.append_left_inj] at hname
      rw [benchmarkText_eq] at hname ⊢
      rw [buildText_eq]
      dsimp only [plusOf] at hname ⊢
      by_cases hitems : optionItems values options = []
      · rw [if_pos hitems, List.append_nil] at hname
        rw [if_pos hitems, build_items_nil hitems, if_pos rfl, List.append_nil, hname]
      · rw [if_neg hitems] at hname
        have hlast : ('+' :: bv).getLast? = bv.getLast? := by
          rw [← List.singleton_append, List.getLast?_append_of_ne_nil _ hnil]
        rw [← List.getLast?_append_of_ne_nil sv (List.cons_ne_nil _ _), ← hname,
          List.getLast?_concat] at hlast
        exact absurd hlast.symm hbv.last
  | yes a b hsolid hb =>
    split_ifs at hname ⊢ with hnil
    · rw [List.append_left_inj] at hname
      refine absurd ?_ hplus
      have hmem : '+' ∈ (a ++ '+' :: b).dropLast := by
        rw [List.dropLast_append_of_ne_nil (List.cons_ne_nil _ _), List.dropLast_cons_of_ne_nil hb]
        simp
      rw [hname, benchmarkText_eq] at hmem
      dsimp only [plusOf] at hmem
      split_ifs at hmem
      · rw [List.append_nil] at hmem
        exact List.dropLast_subset _ hmem
      · rwa [List.dropLast_concat] at hmem
    · rw [List.append_left_inj] at hname
      rw [hname]

/-- The names of the targets of a list that are not read as others. -/
def NamesVersions (values : OptionValues) (t : Benchmark) : Prop :=
  ∃ sv bv, VersionNumber sv ∧ BackendVersion bv ∧ t.name = (targetBenchmark values sv bv).name

/-- A list of such targets is read as itself. -/
theorem parseTargets_names (fork : NotFork) (hvalid : ValidValues values) {ts : List Benchmark} {L : Lists}
    (hts : ∀ t ∈ ts, Generated clean values t ∧ NamesVersions values t)
    (hnodup : (L.names ++ ts.map Benchmark.name).Nodup) :
    ∃ L', (ts.map Benchmark.name).foldlM (parseTarget fork defaultValues) L = .ok L' ∧
      L'.benchmarks = L.benchmarks ++ ts := by
  induction ts generalizing L with
  | nil => exact ⟨L, rfl, (List.append_nil _).symm⟩
  | cons t ts ih =>
    obtain ⟨hgenerated, sv, bv, hsv, hbv, hname⟩ := hts t List.mem_cons_self
    obtain rfl := hgenerated.eq_target hsv hbv hname
    have hnew : (targetBenchmark values sv bv).name ∉ L.names := fun hmem =>
      (List.nodup_append.mp hnodup).2.2 _ hmem _ List.mem_cons_self rfl
    have hadd : (L.addBenchmark (targetBenchmark values sv bv)).benchmarks =
        L.benchmarks ++ [targetBenchmark values sv bv] := by
      rw [Lists.addBenchmark, if_neg hnew]
    rw [List.map_cons, List.foldlM_cons, parseTarget_name hsv hbv hvalid]
    obtain ⟨L', hrun, hbenchmarks⟩ := ih
      (L := (L.addBenchmark (targetBenchmark values sv bv)).addBuild
        (targetBenchmark values sv bv).build (buildText values).ol)
      (fun u hu => hts u (List.mem_cons_of_mem _ hu))
      (by
        rw [Lists.names, Lists.addBuild_benchmarks, hadd, List.map_append, List.map_singleton,
          List.append_assoc]
        exact hnodup)
    refine ⟨L', hrun, ?_⟩
    rw [hbenchmarks, Lists.addBuild_benchmarks, hadd, List.append_assoc]
    rfl

theorem targetBackends_reads (hfork : PrintsVersions fork) {benchmark : Str} {tdata bvlist : List Str}
    (hitem : ∀ item ∈ tdata, '+' ∉ item ∧ '\\' ∉ item)
    (h : targetBackends fork benchmark tdata = .ok bvlist) : ∀ bv ∈ bvlist, BackendVersion bv := by
  rw [targetBackends.eq_def] at h
  match tdata with
  | [] =>
    obtain rfl := Except.ok.inj h
    exact fun bv hbv => .inl (List.mem_singleton.mp hbv)
  | part :: rest =>
    dsimp only at h
    split_ifs at h with hpart
    · obtain rfl := Except.ok.inj h
      exact fun bv hbv => .inl (List.mem_singleton.mp hbv)
    cases hname : nameAndRest part with
    | none =>
      rw [hname] at h
      cases h
    | some nr =>
      obtain ⟨bname, bversion⟩ := nr
      rw [hname] at h
      dsimp only at h
      split_ifs at h with hbname hnone
      obtain rfl := Except.ok.inj h
      intro bv hbv
      obtain ⟨ver, hver, rfl⟩ := List.mem_map.mp hbv
      obtain ⟨hplus, hback⟩ := hitem part List.mem_cons_self
      obtain ⟨rfl, -⟩ := cut_some (Option.filter_eq_some_iff.mp hname).1
      refine .inr ⟨bname, ver, by simpa using hbname, ?_, rfl⟩
      exact plainVersions_number hfork (fun hm => hplus (by simp [hm])) (fun hm => hback (by simp [hm]))
        ver hver

/-- What reading a target can make. -/
def Readable (t : Benchmark) : Prop :=
  ∃ values sv bv, VersionNumber sv ∧ BackendVersion bv ∧ t = targetBenchmark values sv bv

theorem addTarget_reads {doBenchmark : Bool} {optstrings : List Str} {L L' : Lists}
    (hsv : VersionNumber sv) (hbv : BackendVersion bv)
    (h : addTarget values doBenchmark optstrings L (sv, bv) = .ok L') (hL : ∀ t ∈ L.benchmarks, Readable t) :
    ∀ t ∈ L'.benchmarks, Readable t := by
  rw [addTarget] at h
  cases hvalues : optstrings.foldlM targetOption values with
  | error e =>
    rw [hvalues] at h
    cases h
  | ok values' =>
    rw [hvalues] at h
    obtain rfl := Except.ok.inj h
    intro t ht
    rw [Lists.addBuild_benchmarks] at ht
    split_ifs at ht
    · rcases Lists.addBenchmark_mem ht with ht | rfl
      · exact hL t ht
      · exact ⟨values', sv, bv, hsv, hbv, rfl⟩
    · exact hL t ht

theorem parseBenchmark_reads (hfork : PrintsVersions fork) {doBenchmark : Bool} {L L' : Lists}
    {benchmark : Str} (hback : '\\' ∉ benchmark)
    (h : parseBenchmark fork values doBenchmark L benchmark = .ok L')
    (hL : ∀ t ∈ L.benchmarks, Readable t) : ∀ t ∈ L'.benchmarks, Readable t := by
  have hitem : ∀ item ∈ targetItems benchmark, '+' ∉ item ∧ '\\' ∉ item := by
    rw [targetItems_eq hback]
    refine fun item hitem => ⟨fun hmem => ?_, fun hmem => hback (split_mem hitem hmem).1⟩
    exact absurd (split_mem hitem hmem).2 (by decide)
  rw [parseBenchmark] at h
  cases hitems : targetItems benchmark with
  | nil =>
    rw [hitems] at h
    obtain rfl := Except.ok.inj h
    exact hL
  | cons sv tdata =>
    rw [hitems] at h hitem
    dsimp only at h
    cases hbackends : targetBackends fork benchmark tdata with
    | error e =>
      rw [hbackends] at h
      cases h
    | ok bvlist =>
      rw [hbackends] at h
      obtain ⟨hplus, hback'⟩ := hitem sv List.mem_cons_self
      have hsvs : ∀ v ∈ plainVersions fork sqlite3 sv, VersionNumber v :=
        plainVersions_number hfork hplus hback'
      have hbvs := targetBackends_reads hfork (fun item h => hitem item (List.mem_cons_of_mem sv h))
        hbackends
      refine foldlM_keeps (P := fun M : Lists => ∀ t ∈ M.benchmarks, Readable t)
        (fun M version M' hversion hM hone => ?_) hL h
      obtain ⟨sv', hsv', hversion⟩ := List.mem_flatMap.mp hversion
      obtain ⟨bv, hbv, rfl⟩ := List.mem_map.mp hversion
      exact addTarget_reads (hsvs sv' hsv') (hbvs bv hbv) hone hM

/-- A target that is in a list after reading has been made of version numbers. -/
theorem parseTarget_reads (hfork : PrintsVersions fork) {L L' : Lists} {s : Str} (hs : '\\' ∉ s)
    (h : parseTarget fork values L s = .ok L') (hL : ∀ t ∈ L.benchmarks, Readable t) :
    ∀ t ∈ L'.benchmarks, Readable t := by
  rw [parseTarget] at h
  split_ifs at h
  · obtain rfl := Except.ok.inj h
    exact hL
  · exact parseBenchmark_reads hfork (fun hmem => hs (List.mem_of_mem_tail hmem)) h hL
  · exact parseBenchmark_reads hfork hs h hL

end Replay

end LumoSql.Build
