import LumoSql.BuildTargetReplay

/-! Whole lists of targets: which of them are made again from the strings they are printed as. -/
namespace LumoSql.Build
open Tcl

/-- Given back as targets, the strings of a list make the list. -/
def Replays (fork : NotFork) (v : Str) (L : Lists) : Prop :=
  ∃ L', benchmarkLists fork v (replaySettings L) defaultValues = .ok L' ∧ L'.benchmarks = L.benchmarks

section Printed

variable {clean : Prop} {fork : NotFork} {v : Str} {values : OptionValues} {settings : Settings}
  {L : Lists}

/-- A generated list, when nothing is parsed. -/
theorem benchmarkLists_generated (htargets : settings.targets = []) (hextra : settings.extraBuilds = []) :
    benchmarkLists fork v settings values = .ok (generateTargets fork v values settings
      ⟨[], [(sqlite3ForDb fork settings, (buildText defaultValues).ol)]⟩) := by
  have hwords : targetWords [] = [] := rfl
  rw [benchmarkLists, targetList, htargets, hextra, hwords]
  rfl

theorem generated_good (hfork : PrintsVersions fork) (hv : clean → v.all isSolid = true)
    (hclean : clean → settings.Clean) (htargets : settings.targets = [])
    (hextra : settings.extraBuilds = []) (hL : benchmarkLists fork v settings values = .ok L) :
    L.Good clean values := by
  rw [benchmarkLists_generated htargets hextra] at hL
  obtain rfl := Except.ok.inj hL
  have hempty : Lists.Good clean values
      ⟨[], [(sqlite3ForDb fork settings, (buildText defaultValues).ol)]⟩ :=
    ⟨List.nodup_nil, fun t ht => absurd ht List.not_mem_nil⟩
  exact hempty.generateTargets hfork hv hclean

theorem plused_solid {items : List Str} (h : ∀ item ∈ items, item.all isPlain = true) :
    (plused items).all isSolid = true := by
  refine List.all_eq_true.mpr fun c hc => ?_
  obtain ⟨item, hitem, hc⟩ := List.mem_flatMap.mp hc
  rcases List.mem_cons.mp hc with rfl | hc
  · rfl
  · exact List.all_eq_true.mp (plain_solid (h item hitem)) c hc

/-- The strings of a clean list are words. -/
theorem Generated.solid {t : Benchmark} (h : Generated clean values t) (hclean : clean)
    (hvalid : ValidValues values) : t.name.all isSolid = true := by
  have hopts : (benchmarkText values).opts.all isSolid = true := by
    rw [benchmarkText_eq]
    exact plused_solid (optionItems_plain hvalid)
  have hplus : (benchmarkText values).plus.all isSolid = true := by
    rw [benchmarkText_eq]
    dsimp only [plusOf]
    split_ifs <;> rfl
  cases h with
  | no target hsolid =>
    rw [List.all_append, List.all_append, hsolid hclean, hplus, hopts]
    rfl
  | yes a b hsolid hb =>
    rw [List.all_append, hsolid hclean, hopts]
    rfl

theorem Generated.options {t : Benchmark} (h : Generated clean values t) :
    t.options = (benchmarkText values).ol := by
  cases h <;> rfl

/-- The words of the line that is printed. -/
theorem targetList_replay (h : ∀ name ∈ L.names, name.all isSolid = true) :
    targetList (replaySettings L) = L.names.filter (· ≠ []) := by
  have hback : '\\' ∉ join L.names := by
    intro hmem
    rw [join] at hmem
    cases hnames : L.names with
    | nil =>
      rw [hnames] at hmem
      cases hmem
    | cons x names =>
      rw [hnames, intercalate_cons] at hmem
      rw [hnames] at h
      rcases List.mem_append.mp hmem with hmem | hmem
      · exact (solid_mem (h x List.mem_cons_self) hmem).1 rfl
      · obtain ⟨name, hname, hmem⟩ := List.mem_flatMap.mp hmem
        rcases List.mem_cons.mp hmem with hmem | hmem
        · exact absurd hmem (by decide)
        · exact (solid_mem (h name (List.mem_cons_of_mem x hname)) hmem).1 rfl
  have hextra : targetWords [] = [] := rfl
  rw [targetList, replaySettings, targetWords_eq hback, defaultSettings, hextra, List.map_nil,
    List.append_nil]
  exact words_join fun name hname c hc => (solid_mem (h name hname) hc).2

end Printed

section Defaults

variable {fork : NotFork} {v : Str} {values : OptionValues} {L : Lists}

/-- What is in a list stays in it. -/
theorem addTargetNo_mem {x : Str} (h : x ∈ L.names) (target : Str) :
    x ∈ (addTargetNo values L target true).names := by
  rw [addTargetNo, Lists.names, Lists.addBuild_benchmarks, if_pos rfl, Lists.addBenchmark]
  split_ifs
  · exact h
  · rw [List.map_append]
    exact List.mem_append_left _ h

theorem addTargetYes_mem {x : Str} (h : x ∈ L.names) (target : Str) :
    x ∈ (addTargetYes values L target).names := by
  rw [addTargetYes]
  split_ifs with hmem
  · exact h
  · have hnew : ∀ t : Benchmark, x ∈ (L.addBenchmark t).names := fun t => by
      rw [Lists.addBenchmark]
      split_ifs
      · exact h
      · rw [Lists.names, List.map_append]
        exact List.mem_append_left _ h
    rw [Lists.names, Lists.addBuild_benchmarks]
    exact hnew _

theorem addBackend_mem {x : Str} (settings : Settings) (h : x ∈ L.names) (backend : Str) :
    x ∈ (addBackend fork v values settings L backend).names := by
  rw [addBackend]
  split_ifs
  · refine List.foldlRecOn (motive := fun L : Lists => x ∈ L.names) _ _ ?_ fun L hL sver _ => ?_
    · refine List.foldlRecOn (motive := fun L : Lists => x ∈ L.names) _ _ h fun L hL bver _ => ?_
      rw [addLinked]
      split
      · exact addTargetYes_mem (addTargetNo_mem hL _) _
      · exact hL
    · rw [addStandalone]
      split
      · exact addTargetYes_mem (addTargetNo_mem hL _) _
      · exact addTargetYes_mem hL _
  · exact h

theorem addTargetNo_self (values : OptionValues) (L : Lists) (target : Str) :
    target ++ (benchmarkText values).plus ++ (benchmarkText values).opts ∈
      (addTargetNo values L target true).names := by
  rw [addTargetNo, Lists.names, Lists.addBuild_benchmarks, if_pos rfl, Lists.addBenchmark]
  split_ifs with hmem
  · exact hmem
  · rw [List.map_append]
    exact List.mem_append_right _ List.mem_cons_self

/-- The version of sqlite3 that the default names by its number. -/
def namedVersion : Str := "3.36.0".toList

theorem namedVersion_listed : namedVersion ∈ plainVersions fork sqlite3 defaultSettings.sqliteVersions := by
  have hwords : (split isSpace defaultSettings.sqliteVersions).filter (· ≠ []) =
      [latest, namedVersion] := rfl
  have hname : nameVersions fork sqlite3 namedVersion = (false, [namedVersion]) := rfl
  rw [plainVersions, versionsLoop, hwords, List.foldl_cons, List.foldl_cons, List.foldl_nil]
  simp only [hname, versionTargets, List.flatMap_cons, List.flatMap_nil, List.map_cons, List.map_nil,
    if_true, List.append_nil, List.foldl_cons, List.foldl_nil]
  rw [addVersion]
  split_ifs with hmem
  · contradiction
  · exact hmem
  · contradiction
  · exact List.mem_append_right _ List.mem_cons_self

/-- Without targets there is the list of the defaults, which is not empty. -/
theorem defaults_listed (fork : NotFork) (v : Str) (M : Lists) :
    namedVersion ∈ (generateTargets fork v defaultValues defaultSettings M).names := by
  have htext : (benchmarkText defaultValues).plus = [] ∧ (benchmarkText defaultValues).opts = [] :=
    ⟨rfl, rfl⟩
  have hfold : ∀ (svers : List Str) (M : Lists), namedVersion ∈ svers →
      namedVersion ∈ (svers.foldl (fun L sv => addTargetNo defaultValues L sv true) M).names := by
    intro svers M hmem
    obtain ⟨before, after, rfl⟩ := List.append_of_mem hmem
    rw [List.foldl_append, List.foldl_cons]
    refine List.foldlRecOn (motive := fun L : Lists => namedVersion ∈ L.names) _ _ ?_ fun L hL sv _ =>
      addTargetNo_mem hL sv
    have hself := addTargetNo_self defaultValues
      (before.foldl (fun L sv => addTargetNo defaultValues L sv true) M) namedVersion
    rwa [htext.1, htext.2, List.append_nil, List.append_nil] at hself
  rw [generateTargets]
  refine List.foldlRecOn (motive := fun L : Lists => namedVersion ∈ L.names) _ _ ?_ fun L hL backend _ =>
    addBackend_mem defaultSettings hL backend
  have huse : defaultSettings.useSqlite = yes := rfl
  rw [if_pos huse]
  exact hfold _ M namedVersion_listed

end Defaults

section RoundTrip

variable {fork : NotFork} {v : Str} {values : OptionValues} {settings : Settings} {L : Lists}
  {args : List (Str × Str)}

/-- A list is made again when all its targets name their versions of sqlite3. -/
theorem replays_of_names {clean : Prop} (hvalid : ValidValues values) (hgood : L.Good clean values)
    (hne : L.benchmarks ≠ []) (hnames : ∀ t ∈ L.benchmarks, NamesVersions values t) :
    Replays fork v L := by
  have hname : ∀ name ∈ L.names, name ≠ [] ∧ name.all isSolid = true := by
    intro name hmem
    obtain ⟨t, ht, rfl⟩ := List.mem_map.mp hmem
    obtain ⟨sv, bv, hsv, hbv, hname⟩ := hnames t ht
    refine ⟨?_, by rw [hname]; exact name_solid hsv hbv hvalid⟩
    rw [hname, targetBenchmark_name]
    exact List.append_ne_nil_of_left_ne_nil hsv.nonempty _
  have hwords : targetList (replaySettings L) = L.names := by
    rw [targetList_replay fun name hmem => (hname name hmem).2]
    exact List.filter_eq_self.mpr fun name hmem => by simpa using (hname name hmem).1
  have htargets : (replaySettings L).targets ≠ [] := by
    obtain ⟨t, ts, hts⟩ := List.exists_cons_of_ne_nil hne
    rw [replaySettings, Lists.names, hts, List.map_cons, join, intercalate_cons]
    exact List.append_ne_nil_of_left_ne_nil (hname t.name (by rw [Lists.names, hts]; simp)).1 _
  obtain ⟨L', hrun, hbenchmarks⟩ := parseTargets_names fork
    (L := ⟨[], [(sqlite3ForDb fork (replaySettings L), (buildText defaultValues).ol)]⟩) hvalid
    (fun t ht => ⟨hgood.generated t ht, hnames t ht⟩) hgood.nodup
  refine ⟨L', ?_, hbenchmarks⟩
  rw [benchmarkLists, if_neg htargets, hwords]
  exact hrun

/-- In a list without a backslash that is made again every target names its version of sqlite3. -/
theorem names_of_replays (hfork : PrintsVersions fork) (hvalid : ValidValues values)
    (hgood : L.Good True values) (h : Replays fork v L) :
    L.benchmarks ≠ [] ∧ ∀ t ∈ L.benchmarks, NamesVersions values t := by
  have hsolid : ∀ name ∈ L.names, name.all isSolid = true := by
    intro name hname
    obtain ⟨t, ht, rfl⟩ := List.mem_map.mp hname
    exact (hgood.generated t ht).solid trivial hvalid
  obtain ⟨L', hrun, hsame⟩ := h
  rw [benchmarkLists, targetList_replay hsolid] at hrun
  by_cases hnil : (replaySettings L).targets = []
  · -- the line is empty, so the defaults are listed
    have hnames : L.names.filter (· ≠ []) = [] := by
      rw [← targetList_replay hsolid, targetList, hnil]
      rfl
    rw [if_pos hnil, hnames] at hrun
    obtain rfl := Except.ok.inj hrun
    have hdefault : namedVersion ∈ L.names := by
      rw [Lists.names, ← hsame]
      exact defaults_listed fork v _
    refine absurd (List.filter_eq_nil_iff.mp hnames namedVersion hdefault) ?_
    decide
  · rw [if_neg hnil] at hrun
    have hread : ∀ t ∈ L'.benchmarks, Readable t := by
      refine foldlM_keeps (P := fun M : Lists => ∀ t ∈ M.benchmarks, Readable t)
        (fun M name M' hname hM hone => ?_) (fun t ht => absurd ht List.not_mem_nil) hrun
      refine parseTarget_reads hfork (fun hmem => ?_) hone hM
      exact (solid_mem (hsolid name (List.mem_of_mem_filter hname)) hmem).1 rfl
    refine ⟨fun hempty => hnil ?_, fun t ht => ?_⟩
    · rw [replaySettings, Lists.names, hempty]
      rfl
    · rw [hsame] at hread
      obtain ⟨values', sv, bv, hsv, hbv, rfl⟩ := hread t ht
      have hoptions := (hgood.generated _ ht).options
      have hol : (targetBenchmark values' sv bv).options = (benchmarkText values').ol := by
        rw [targetBenchmark]
        split_ifs <;> rfl
      rw [hol, benchmarkText_eq, benchmarkText_eq] at hoptions
      have htexts := texts_eq hoptions
      refine ⟨sv, bv, hsv, hbv, ?_⟩
      rw [targetBenchmark, targetBenchmark, htexts.1, htexts.2]

/-- Targets with different versions, backends or values have different strings. -/
theorem targetBenchmark_injective {values' : OptionValues} (hvalid : ValidValues values)
    (hvalid' : ValidValues values') {sv sv' bv bv' : Str} (hsv : VersionNumber sv)
    (hsv' : VersionNumber sv') (hbv : BackendVersion bv) (hbv' : BackendVersion bv')
    (h : (targetBenchmark values sv bv).name = (targetBenchmark values' sv' bv').name) :
    sv = sv' ∧ bv = bv' ∧ listed values options = listed values' options := by
  have hitems := targetItems_name hsv hbv hvalid
  rw [h, targetItems_name hsv' hbv' hvalid', List.cons_eq_cons] at hitems
  obtain ⟨rfl, hdata⟩ := hitems
  have hsame := congrArg List.tail hdata
  rw [targetData_tail, targetData_tail] at hsame
  refine ⟨rfl, ?_, ?_⟩
  · have hhead := congrArg (fun l => l.head?.getD []) hdata
    rw [targetData_head, targetData_head] at hhead
    exact hhead.symm
  · obtain ⟨final, hrun, hlisted⟩ := targetOptions_all hvalid
    obtain ⟨final', hrun', hlisted'⟩ := targetOptions_all hvalid'
    rw [hsame, hrun] at hrun'
    obtain rfl := Except.ok.inj hrun'
    exact hlisted.symm.trans hlisted'

/-- Target strings can be replayed when, and for lists of versions without a backslash only when,
there is a target and every target names its version of sqlite3; those that do are told apart. -/
theorem replays_iff (hfork : PrintsVersions fork) (htargets : settings.targets = [])
    (hextra : settings.extraBuilds = []) (hargs : optionArguments args = .ok values)
    (hL : benchmarkLists fork v settings values = .ok L) :
    (L.benchmarks ≠ [] ∧ (∀ t ∈ L.benchmarks, NamesVersions values t) → Replays fork v L) ∧
      (settings.Clean → v.all isSolid = true → Replays fork v L →
        L.benchmarks ≠ [] ∧ ∀ t ∈ L.benchmarks, NamesVersions values t) ∧
      ∀ args' values', optionArguments args' = .ok values' → ∀ sv sv' bv bv', VersionNumber sv →
        VersionNumber sv' → BackendVersion bv → BackendVersion bv' →
          (targetBenchmark values sv bv).name = (targetBenchmark values' sv' bv').name →
            sv = sv' ∧ bv = bv' ∧ listed values options = listed values' options := by
  have hvalid := optionArguments_valid hargs
  refine ⟨?_, fun hclean hv h => ?_, fun args' values' hargs' sv sv' bv bv' hsv hsv' hbv hbv' h => ?_⟩
  · rintro ⟨hne, hnames⟩
    have hgood : L.Good False values :=
      generated_good hfork False.elim False.elim htargets hextra hL
    exact replays_of_names hvalid hgood hne hnames
  · exact names_of_replays hfork hvalid
      (generated_good hfork (fun _ => hv) (fun _ => hclean) htargets hextra hL) h
  · exact targetBenchmark_injective hvalid (optionArguments_valid hargs') hsv hsv' hbv hbv' h

end RoundTrip

/-- Versions of sqlite3 and of the backends that are known. -/
def knownVersions : NotFork := fun backend _ _ =>
  if backend = sqlite3 then ["3.36.0".toList, "3.37.2".toList]
  else if backend = lmdb then ["0.9.28".toList, "0.9.29".toList]
  else ["18.1.32".toList]

theorem knownVersions_numbers : PrintsVersions knownVersions := by
  have hnumber : ∀ v ∈ ["3.36.0".toList, "3.37.2".toList, "0.9.28".toList, "0.9.29".toList,
      "18.1.32".toList], VersionNumber v := by
    intro v hv
    simp only [List.mem_cons, List.not_mem_nil, or_false] at hv
    rcases hv with rfl | rfl | rfl | rfl | rfl <;>
      exact ⟨by decide, by decide, by decide, by decide, by decide, by decide⟩
  have hsub : ∀ backend, knownVersions backend [] [] ⊆ ["3.36.0".toList, "3.37.2".toList,
      "0.9.28".toList, "0.9.29".toList, "18.1.32".toList] := by
    intro backend
    rw [knownVersions]
    split_ifs <;> decide
  exact fun backend lo hi v hv => hnumber v (hsub backend hv)

/-- The variable that is left over when the backends are read in the order of their names. -/
def lastVersion : Str := "latest+lmdb-latest".toList

/-- A target without a version of sqlite3. -/
theorem NamesVersions.head {values : OptionValues} {t : Benchmark} (h : NamesVersions values t) :
    t.name.head? ≠ some '+' := by
  obtain ⟨sv, bv, hsv, -, hname⟩ := h
  obtain ⟨c, sv', hc⟩ := List.exists_cons_of_ne_nil hsv.nonempty
  rw [hname, targetBenchmark_name, hc, List.cons_append, List.head?_cons]
  intro hplus
  refine (plain_mem hsv.plain (c := c) ?_).1 (Option.some.inj hplus)
  rw [hc]
  exact List.mem_cons_self

/-- The list of the defaults is not made again: the backend with its own sqlite3 is missing. -/
theorem defaults_not_replayed : PrintsVersions knownVersions ∧
    optionArguments [] = .ok defaultValues ∧ defaultSettings.Clean ∧
      ∃ L, benchmarkLists knownVersions lastVersion defaultSettings defaultValues = .ok L ∧
        "+bdb-18.1.32".toList ∈ L.names ∧ ¬ Replays knownVersions lastVersion L := by
  have hclean : defaultSettings.Clean := ⟨by decide, by decide, by decide, by decide⟩
  have hL : benchmarkLists knownVersions lastVersion defaultSettings defaultValues = _ :=
    benchmarkLists_generated rfl rfl
  have hgood : Lists.Good True defaultValues _ :=
    generated_good knownVersions_numbers (fun _ => by decide) (fun _ => hclean) rfl rfl hL
  have hstandalone : "+bdb-18.1.32".toList ∈ (generateTargets knownVersions lastVersion defaultValues
      defaultSettings
        ⟨[], [(sqlite3ForDb knownVersions defaultSettings, (buildText defaultValues).ol)]⟩).names := by
    decide +kernel
  refine ⟨knownVersions_numbers, rfl, hclean, _, hL, hstandalone, fun h => ?_⟩
  obtain ⟨t, ht, hname⟩ := List.mem_map.mp hstandalone
  have hnamed := (names_of_replays knownVersions_numbers defaultValues_valid hgood h).2 t ht
  exact hnamed.head (by rw [hname]; rfl)

/-- The settings for one version of sqlite3, alone and with one version of the LMDB backend. -/
def oneVersion : Settings :=
  { defaultSettings with
    sqliteVersions := namedVersion
    backend := fun name =>
      if name = lmdb then ⟨yes, namedVersion, "0.9.28".toList, []⟩ else ⟨"no".toList, [], [], []⟩ }

def oneVersionNames : List Str := ["3.36.0++datasize-2".toList, "3.36.0+lmdb-0.9.28+datasize-2".toList]

/-- One version of sqlite3 and one of a backend, with two equal sizes of data. -/
theorem replays_iff_sample : ∃ values L, optionArguments [("DATASIZE".toList, "2,2".toList)] = .ok values ∧
    benchmarkLists knownVersions lastVersion oneVersion values = .ok L ∧
      L.names = oneVersionNames ∧ Replays knownVersions lastVersion L := by
  have hargs : optionArguments [("DATASIZE".toList, "2,2".toList)] =
      .ok (Function.update defaultValues "DATASIZE".toList "2".toList) := rfl
  have hL : benchmarkLists knownVersions lastVersion oneVersion
      (Function.update defaultValues "DATASIZE".toList "2".toList) = _ :=
    benchmarkLists_generated rfl rfl
  have hsqlite : VersionNumber namedVersion :=
    ⟨by decide, by decide, by decide, by decide, by decide, by decide⟩
  have hlmdb : VersionNumber "0.9.28".toList :=
    ⟨by decide, by decide, by decide, by decide, by decide, by decide⟩
  refine ⟨_, _, hargs, hL, by decide +kernel, ?_⟩
  refine (replays_iff knownVersions_numbers (rfl : oneVersion.targets = []) rfl hargs hL).1
    ⟨?_, fun t ht => ?_⟩
  · decide +kernel
  · have hname : t.name ∈ oneVersionNames := by
      have hnames := List.mem_map_of_mem (f := Benchmark.name) ht
      have hall : List.map Benchmark.name (generateTargets knownVersions lastVersion
          (Function.update defaultValues "DATASIZE".toList "2".toList) oneVersion
          ⟨[], [(sqlite3ForDb knownVersions oneVersion, (buildText defaultValues).ol)]⟩).benchmarks =
          oneVersionNames := by decide +kernel
      rwa [hall] at hnames
    rcases List.mem_pair.mp hname with hplain | hbackend
    · refine ⟨namedVersion, [], hsqlite, .inl rfl, ?_⟩
      rw [hplain]
      rfl
    · refine ⟨namedVersion, "lmdb-0.9.28".toList, hsqlite, .inr ⟨lmdb, _, by decide, hlmdb, rfl⟩, ?_⟩
      rw [hbackend]
      rfl

end LumoSql.Build
