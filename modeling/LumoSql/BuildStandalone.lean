import LumoSql.BuildTargetLists
import LumoSql.BuildVersionLists

/-! Backends that bring their own sqlite3: what is added for the list of their versions, each
with or without the version of sqlite3 it comes with. -/
namespace LumoSql.Build
open Tcl

/-- A version of the backend and, behind a `=`, the version of sqlite3 it contains. -/
structure StandaloneItem where
  version : Str
  sqlite : Option Str

def StandaloneItem.text (item : StandaloneItem) : Str :=
  match item.sqlite with
  | some sv => item.version ++ '=' :: sv
  | none => item.version

structure StandaloneItem.Valid (item : StandaloneItem) : Prop where
  version : VersionNumber item.version
  plain : '=' ∉ item.version
  sqlite : ∀ sv, item.sqlite = some sv → VersionNumber sv

section Targets

variable (values : OptionValues) (backend : Str)

def sqliteTarget (sv : Str) : Str :=
  sv ++ (benchmarkText values).plus ++ (benchmarkText values).opts

def standaloneTarget (bv : Str) : Str :=
  ('+' :: backend ++ '-' :: bv) ++ (benchmarkText values).opts

/-- The targets that are asked for with one element. -/
def StandaloneItem.Asks (tgt : Str) (item : StandaloneItem) : Prop :=
  tgt = standaloneTarget values backend item.version ∨
    ∃ sv, item.sqlite = some sv ∧ tgt = sqliteTarget values sv

/-- To one list of targets exactly the missing ones of those that are asked for are added, each
once. -/
def AddsAsked (items : List StandaloneItem) (L L' : Lists) : Prop :=
  (L.names.Nodup → L'.names.Nodup) ∧
    ∀ tgt, tgt ∈ L'.names ↔ tgt ∈ L.names ∨ ∃ item ∈ items, item.Asks values backend tgt

/-- The list before the standalone versions of a backend are added. -/
def linkedTargets (fork : NotFork) (settings : Settings) (L : Lists) : Lists :=
  let B := settings.backend backend
  (versionsList fork backend B.versions (versionsList fork sqlite3 B.sqliteFor [])).foldl
    (addLinked values) L

/-- What is left of earlier loops does no harm: each version without a `=` is left over, or is
listed with one, or is there already, and then so is the version that is left over. -/
structure Harmless (v : Str) (items : List StandaloneItem) (L : Lists) : Prop where
  added : ∀ item ∈ items, item.sqlite = none →
    standaloneTarget values backend item.version ∈ L.names ∨ item.version = v ∨
      ∃ other ∈ items, other.sqlite.isSome ∧ other.version = item.version
  asked : (∃ item ∈ items, item.sqlite = none) →
    standaloneTarget values backend v ∈ L.names ∨ ∃ item ∈ items, item.version = v

end Targets

section Added

variable (values : OptionValues) (backend : Str)

theorem addBenchmark_names (L : Lists) (t : Benchmark) :
    ((L.names.Nodup → (L.addBenchmark t).names.Nodup) ∧
      ∀ tgt, tgt ∈ (L.addBenchmark t).names ↔ tgt ∈ L.names ∨ tgt = t.name) := by
  rw [Lists.addBenchmark]
  split_ifs with hmem
  · refine ⟨id, ?_⟩
    intro tgt
    constructor
    · exact .inl
    · rintro (h | rfl)
      · exact h
      · exact hmem
  · simp only [Lists.names, List.map_append, List.map_singleton, List.mem_append,
      List.mem_singleton]
    refine ⟨?_, fun _ => trivial⟩
    intro hnodup
    refine List.nodup_append.mpr ⟨hnodup, by simp, ?_⟩
    rintro a ha b hb rfl
    exact hmem (List.mem_singleton.mp hb ▸ ha)

theorem addBuild_names (L : Lists) (b : Str) (ol : List (Str × Str)) :
    (L.addBuild b ol).names = L.names := by
  rw [Lists.names, Lists.addBuild_benchmarks, Lists.names]

theorem addTargetNo_names (L : Lists) (target : Str) :
    ((L.names.Nodup → (addTargetNo values L target true).names.Nodup) ∧
      ∀ tgt, tgt ∈ (addTargetNo values L target true).names ↔
        tgt ∈ L.names ∨ tgt = sqliteTarget values target) := by
  have hbench := addBenchmark_names L ⟨sqliteTarget values target,
    target ++ (buildText values).plus ++ (buildText values).opts, (benchmarkText values).ol⟩
  rw [addTargetNo, addBuild_names]
  exact hbench

theorem addTargetYes_names (L : Lists) (bv : Str) :
    ((L.names.Nodup → (addTargetYes values L ('+' :: backend ++ '-' :: bv)).names.Nodup) ∧
      ∀ tgt, tgt ∈ (addTargetYes values L ('+' :: backend ++ '-' :: bv)).names ↔
        tgt ∈ L.names ∨ tgt = standaloneTarget values backend bv) := by
  have hbench := addBenchmark_names L ⟨standaloneTarget values backend bv,
    ('+' :: backend ++ '-' :: bv) ++ (buildText values).opts, (benchmarkText values).ol⟩
  rw [addTargetYes]
  split_ifs with hmem
  · refine ⟨id, ?_⟩
    intro tgt
    constructor
    · exact .inl
    · rintro (h | rfl)
      · exact h
      · exact hmem
  · rw [addBuild_names]
    exact hbench

/-- What is made of a word of the list: one without a `=` counts as the version left over. -/
def Makes (values : OptionValues) (backend v tgt w : Str) : Prop :=
  match cut '=' w with
  | some (bv, sv) => tgt = standaloneTarget values backend bv ∨ tgt = sqliteTarget values sv
  | none => tgt = standaloneTarget values backend v

theorem addStandalone_names (v : Str) (L : Lists) (w : Str) :
    (L.names.Nodup → (addStandalone v values backend L w).names.Nodup) ∧
      ∀ tgt, tgt ∈ (addStandalone v values backend L w).names ↔
        tgt ∈ L.names ∨ Makes values backend v tgt w := by
  rw [addStandalone]
  simp only [Makes]
  cases hcut : cut '=' w with
  | none => exact addTargetYes_names values backend L v
  | some ab =>
    obtain ⟨bv, sv⟩ := ab
    obtain ⟨hno, hnoMem⟩ := addTargetNo_names values L sv
    obtain ⟨hyes, hyesMem⟩ := addTargetYes_names values backend
      (addTargetNo values L sv true) bv
    refine ⟨fun hnodup => hyes (hno hnodup), ?_⟩
    intro tgt
    rw [hyesMem, hnoMem, or_assoc]
    exact or_congr_right or_comm

theorem addStandalones_names (v : Str) (L : Lists) (words : List Str) :
    (L.names.Nodup → (words.foldl (addStandalone v values backend) L).names.Nodup) ∧
      ∀ tgt, tgt ∈ (words.foldl (addStandalone v values backend) L).names ↔
        tgt ∈ L.names ∨ ∃ w ∈ words, Makes values backend v tgt w := by
  induction words generalizing L with
  | nil => simp
  | cons w words ih =>
    obtain ⟨hone, honeMem⟩ := addStandalone_names values backend v L w
    obtain ⟨hrest, hrestMem⟩ := ih (addStandalone v values backend L w)
    refine ⟨fun hnodup => hrest (hone hnodup), ?_⟩
    intro tgt
    rw [List.foldl_cons, hrestMem, honeMem, or_assoc, List.exists_mem_cons_iff]

/-- An element stands for itself in a list of versions. -/
theorem StandaloneItem.Valid.number {item : StandaloneItem} (h : item.Valid) :
    VersionNumber item.text := by
  rw [StandaloneItem.text]
  cases hsqlite : item.sqlite with
  | none => exact h.version
  | some sv =>
    have hsv := h.sqlite sv hsqlite
    have hword : ∀ s : Str, '=' ∉ s → item.version ++ '=' :: sv ≠ s := by
      rintro s hs rfl
      exact hs (by simp)
    refine ⟨by simp, ?_, h.version.head_append _, ?_, hword _ (by decide), hword _ (by decide)⟩
    · rw [List.all_append, List.all_cons, h.version.plain, hsv.plain]
      rfl
    · rw [List.getLast?_append_of_ne_nil _ (List.cons_ne_nil _ _), List.getLast?_cons_of_ne_nil hsv.nonempty]
      exact hsv.last

theorem mem_standaloneList (fork : NotFork) {names : Str} {items : List StandaloneItem}
    (hvalid : ∀ item ∈ items, item.Valid)
    (hwords : (split isSpace names).filter (· ≠ []) = items.map StandaloneItem.text) (w : Str) :
    w ∈ versionsList fork backend names [] ↔ ∃ item ∈ items, w = item.text := by
  have hmem := (versionsLoop_mem fork (fun name => ([[]], name)) backend StandaloneItem.text hwords).2 w
  rw [versionsList, if_pos rfl, plainVersions, hmem, lastAdds_of_adds]
  · apply exists_congr
    intro item
    apply and_congr_right
    intro hitem
    rw [nameVersions_self (hvalid item hitem).number, plainTargets_mem, List.mem_singleton]
  · intro item hitem
    rw [nameVersions_self (hvalid item hitem).number]

theorem makes_text (v tgt : Str) {item : StandaloneItem} (h : item.Valid) :
    Makes values backend v tgt item.text ↔
      (item.sqlite = none ∧ tgt = standaloneTarget values backend v) ∨
        (item.sqlite.isSome ∧ item.Asks values backend tgt) := by
  rw [Makes, StandaloneItem.text, StandaloneItem.Asks]
  cases hsqlite : item.sqlite with
  | none =>
    rw [cut_none h.plain]
    simp
  | some sv =>
    simp only [cut_append h.plain]
    simp

end Added

section Exactly

variable {values : OptionValues} {backend : Str}

theorem standaloneTarget_injective {a b : Str}
    (h : standaloneTarget values backend a = standaloneTarget values backend b) : a = b := by
  have hcancel := List.append_cancel_right h
  exact List.tail_eq_of_cons_eq (List.append_cancel_left hcancel)

/-- A target without a version of sqlite3 is not one of sqlite3 alone. -/
theorem standaloneTarget_ne {bv sv : Str} (h : VersionNumber sv) :
    standaloneTarget values backend bv ≠ sqliteTarget values sv := by
  obtain ⟨c, rest, hc⟩ := List.exists_cons_of_ne_nil h.nonempty
  intro heq
  rw [standaloneTarget, sqliteTarget, hc] at heq
  have hhead : '+' = c := List.head_eq_of_cons_eq heq
  have hplain := h.plain
  rw [hc, ← hhead] at hplain
  exact absurd hplain (by simp [isPlain])

/-- The versions of a backend that brings its own sqlite3 are added exactly, and the sqlite3
versions they are compared with, if and only if what is left of earlier loops does no harm. -/
theorem addBackend_standalone_iff (fork : NotFork) (v : Str) {settings : Settings} (L : Lists)
    (huse : (settings.backend backend).use = yes) {items : List StandaloneItem}
    (hvalid : ∀ item ∈ items, item.Valid)
    (hwords : (split isSpace (settings.backend backend).standalone).filter (· ≠ []) =
      items.map StandaloneItem.text) :
    AddsAsked values backend items (linkedTargets values backend fork settings L)
        (addBackend fork v values settings L backend) ↔
      Harmless values backend v items (linkedTargets values backend fork settings L) := by
  have hadd : addBackend fork v values settings L backend =
      (versionsList fork backend (settings.backend backend).standalone []).foldl
        (addStandalone v values backend) (linkedTargets values backend fork settings L) := by
    rw [addBackend, if_pos huse]
    rfl
  rw [hadd]
  generalize linkedTargets values backend fork settings L = L
  obtain ⟨hnodup, hmem⟩ := addStandalones_names values backend v L
    (versionsList fork backend (settings.backend backend).standalone [])
  have hmade : ∀ tgt, tgt ∈ ((versionsList fork backend (settings.backend backend).standalone
      []).foldl (addStandalone v values backend) L).names ↔ tgt ∈ L.names ∨
        ((∃ item ∈ items, item.sqlite = none) ∧ tgt = standaloneTarget values backend v) ∨
        ∃ item ∈ items, item.sqlite.isSome ∧ item.Asks values backend tgt := by
    intro tgt
    rw [hmem]
    apply or_congr_right
    constructor
    · rintro ⟨w, hw, hmakes⟩
      obtain ⟨item, hitem, rfl⟩ := (mem_standaloneList backend fork hvalid hwords w).mp hw
      rcases (makes_text values backend v tgt (hvalid item hitem)).mp hmakes with ⟨hnone, htgt⟩ | hasks
      · exact .inl ⟨⟨item, hitem, hnone⟩, htgt⟩
      · exact .inr ⟨item, hitem, hasks⟩
    · rintro (⟨⟨item, hitem, hnone⟩, htgt⟩ | ⟨item, hitem, hasks⟩)
      · exact ⟨item.text, (mem_standaloneList backend fork hvalid hwords _).mpr ⟨item, hitem, rfl⟩,
          (makes_text values backend v tgt (hvalid item hitem)).mpr (.inl ⟨hnone, htgt⟩)⟩
      · exact ⟨item.text, (mem_standaloneList backend fork hvalid hwords _).mpr ⟨item, hitem, rfl⟩,
          (makes_text values backend v tgt (hvalid item hitem)).mpr (.inr hasks)⟩
  have hasked : ∀ bv, ∀ item ∈ items, item.Asks values backend (standaloneTarget values backend bv) →
      item.version = bv := by
    rintro bv item hitem (htgt | ⟨sv, hsv, htgt⟩)
    · exact (standaloneTarget_injective htgt).symm
    · exact absurd htgt (standaloneTarget_ne ((hvalid item hitem).sqlite sv hsv))
  constructor
  · rintro ⟨-, hexact⟩
    refine ⟨?_, ?_⟩
    · intro item hitem hnone
      rcases (hmade _).mp ((hexact _).mpr (.inr ⟨item, hitem, .inl rfl⟩)) with
        hthere | ⟨-, hleft⟩ | ⟨other, hother, hsome, hasks⟩
      · exact .inl hthere
      · exact .inr (.inl (standaloneTarget_injective hleft))
      · exact .inr (.inr ⟨other, hother, hsome, hasked _ other hother hasks⟩)
    · intro hnone
      rcases (hexact _).mp ((hmade _).mpr (.inr (.inl ⟨hnone, rfl⟩))) with
        hthere | ⟨item, hitem, hasks⟩
      · exact .inl hthere
      · exact .inr ⟨item, hitem, hasked v item hitem hasks⟩
  · intro hharmless
    refine ⟨hnodup, ?_⟩
    intro tgt
    rw [hmade]
    constructor
    · rintro (hthere | ⟨hnone, rfl⟩ | ⟨item, hitem, -, hasks⟩)
      · exact .inl hthere
      · rcases hharmless.asked hnone with hthere | ⟨item, hitem, rfl⟩
        · exact .inl hthere
        · exact .inr ⟨item, hitem, .inl rfl⟩
      · exact .inr ⟨item, hitem, hasks⟩
    · rintro (hthere | ⟨item, hitem, hasks⟩)
      · exact .inl hthere
      · by_cases hsome : item.sqlite.isSome
        · exact .inr (.inr ⟨item, hitem, hsome, hasks⟩)
        · have hnone : item.sqlite = none := by simpa using hsome
          rcases hasks with rfl | ⟨sv, hsv, -⟩
          · rcases hharmless.added item hitem hnone with hthere | rfl | ⟨other, hother, hisSome, heq⟩
            · exact .inl hthere
            · exact .inr (.inl ⟨⟨item, hitem, hnone⟩, rfl⟩)
            · exact .inr (.inr ⟨other, hother, hisSome, .inl (by rw [heq])⟩)
          · rw [hnone] at hsv
            cases hsv

end Exactly

/-- One backend with one version of its own. -/
def standaloneSettings (standalone : Str) : Settings :=
  { defaultSettings with backend := fun _ => ⟨yes, [], [], standalone⟩ }

def bdbItem (sqlite : Option Str) : StandaloneItem := ⟨"18.1.32".toList, sqlite⟩

theorem bdbItem_valid : (bdbItem none).Valid ∧ (bdbItem (some "3.18.2".toList)).Valid := by
  have hbdb : VersionNumber "18.1.32".toList :=
    ⟨by decide, by decide, by decide, by decide, by decide, by decide⟩
  refine ⟨⟨hbdb, by decide, ?_⟩, ⟨hbdb, by decide, ?_⟩⟩
  · intro sv hsv
    cases hsv
  · intro sv hsv
    obtain rfl := Option.some.inj hsv
    exact ⟨by decide, by decide, by decide, by decide, by decide, by decide⟩

def bothForms : Settings := standaloneSettings "18.1.32 18.1.32=3.18.2".toList

/-- A list that has targets already. -/
def earlierTargets : Lists :=
  addBackend knownVersions lastVersion defaultValues (standaloneSettings "18.1.32=3.18.2".toList)
    ⟨[], []⟩ bdb

theorem addBackend_standalone_iff_sample :
    AddsAsked defaultValues bdb [bdbItem none, bdbItem (some "3.18.2".toList)]
        (linkedTargets defaultValues bdb knownVersions bothForms earlierTargets)
        (addBackend knownVersions lastVersion defaultValues bothForms earlierTargets bdb) ↔
      Harmless defaultValues bdb lastVersion [bdbItem none, bdbItem (some "3.18.2".toList)]
        (linkedTargets defaultValues bdb knownVersions bothForms earlierTargets) :=
  addBackend_standalone_iff knownVersions lastVersion earlierTargets rfl
    (List.forall_mem_cons.mpr ⟨bdbItem_valid.1, List.forall_mem_singleton.mpr bdbItem_valid.2⟩)
    (by decide)

/-- A version without a `=` comes out as whatever version was read last. -/
theorem standalone_left_over : ¬ ∀ (fork : NotFork) (v : Str) (values : OptionValues)
    (settings : Settings) (L : Lists) (backend : Str) (items : List StandaloneItem),
    (settings.backend backend).use = yes → (∀ item ∈ items, item.Valid) →
    (split isSpace (settings.backend backend).standalone).filter (· ≠ []) =
      items.map StandaloneItem.text →
    AddsAsked values backend items (linkedTargets values backend fork settings L)
      (addBackend fork v values settings L backend) := by
  intro h
  have hexact := h knownVersions lastVersion defaultValues (standaloneSettings "18.1.32".toList)
    ⟨[], []⟩ bdb [bdbItem none] rfl (List.forall_mem_singleton.mpr bdbItem_valid.1) (by decide)
  have hasked := (hexact.2 "+bdb-18.1.32".toList).mpr
    (.inr ⟨bdbItem none, List.mem_singleton_self _, .inl (by decide)⟩)
  exact absurd hasked (by decide)

end LumoSql.Build
