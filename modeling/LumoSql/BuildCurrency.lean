import LumoSql.BuildTargets
import LumoSql.SqliteRecordFormat

/-! Whether `build.tcl` takes a build as it is. It compares the times and the contents of the
files it was configured with, in the directory of sqlite3 and in that of the backend, with the
copy kept from the time of the build. -/
namespace LumoSql.Build
open Tcl

/-- A directory: its entries in the order they are listed in. -/
inductive Listing
  | nil
  | file (name : Str) (mtime : ℕ) (content : Bytes) (rest : Listing)
  | dir (name : Str) (entries rest : Listing)
  deriving DecidableEq

inductive Entry
  | file (mtime : ℕ) (content : Bytes)
  | dir (entries : Listing)

def Listing.find (name : Str) : Listing → Option Entry
  | .nil => none
  | .file n mtime content rest => if n = name then some (.file mtime content) else rest.find name
  | .dir n entries rest => if n = name then some (.dir entries) else rest.find name

/-- The directory of that name, if it is one. -/
def Listing.subdir (L : Listing) (name : Str) : Option Listing :=
  match L.find name with
  | some (.dir entries) => some entries
  | _ => none

/-- What is in the file of that name, if it can be opened. -/
def Listing.content (L : Listing) (name : Str) : Option Bytes :=
  match L.find name with
  | some (.file _ content) => some content
  | _ => none

/-- What reading the file of that name in the copy of a directory gives. -/
def copyText (read : Bytes → Str) (copy : Option Listing) (name : Str) : Option Str :=
  copy.bind fun c => (c.content name).map read

/-- A name that `glob` does not list, or that is excluded. -/
def unseen (exclude : List Str) (name : Str) : Bool := exclude.contains name || name.head? == some '.'

section Search

/- `read` is what reading a file as text makes of its bytes, `mtime` the time the build records. -/
variable (read : Bytes → Str) (mtime : ℕ)

/-- The new `skip_rebuild`; `copy` is the same directory in `notfork_copy`. -/
def searchDir : Listing → List Str → Option Listing → ℕ → ℕ
  | .nil, _, _, skip => skip
  | .file name dmtime content rest, exclude, copy, skip =>
    if unseen exclude name then searchDir rest exclude copy skip
    else if mtime < dmtime then
      if copyText read copy name = some (read content) then
        searchDir rest exclude copy (if skip < dmtime then dmtime else skip)
      else 0
    else searchDir rest exclude copy skip
  | .dir name entries rest, exclude, copy, skip =>
    if unseen exclude name then searchDir rest exclude copy skip
    else
      let skip := searchDir entries [] (copy.bind fun c => c.subdir name) skip
      if skip = 0 then 0 else searchDir rest exclude copy skip

def benchmarkDir : Str := "benchmark".toList

def checkMtime (notforkDir notforkCopy : Listing) (skip : ℕ) (subdir : Str) : ℕ :=
  match notforkDir.subdir subdir with
  | some entries => searchDir read mtime entries [benchmarkDir] (notforkCopy.subdir subdir) skip
  | none => skip

end Search

/-- What a build is made of. -/
structure BuildParts where
  sqlite3Version : Str
  backendName : Str
  backendVersion : Str

def buildParts (build : Str) : BuildParts :=
  let tl := split (· == '+') build
  match tl[1]?.bind nameAndRest with
  | some (name, version) => ⟨tl.head?.getD [], name, version⟩
  | none => ⟨tl.head?.getD [], [], []⟩

/-- The directories whose files are checked. -/
def BuildParts.checked (P : BuildParts) : List Str :=
  (if P.sqlite3Version ≠ [] then [sqlite3] else []) ++
    (if P.backendVersion ≠ [] then [P.backendName] else [])

/-- What is kept of a build: the number in `build_time`, if the file is there and has one,
whether there is a `sqlite3_commit_timestamp`, and `notfork_copy`. -/
structure BuildDir where
  buildTime : Option ℕ
  timestamp : Bool
  notforkCopy : Listing

/-- The time a build records from now on when it is taken as it is, `none` for a rebuild. -/
def skipRebuild (read : Bytes → Str) (alwaysRebuild : Bool) (notforkDir : Listing) (build : Str)
    (dest : BuildDir) : Option ℕ :=
  match dest.buildTime with
  | none => none
  | some mtime =>
    if alwaysRebuild ∨ !dest.timestamp ∨ mtime = 0 then none
    else
      let skip := (buildParts build).checked.foldl
        (checkMtime read mtime notforkDir dest.notforkCopy) mtime
      if skip = 0 then none else some (if mtime < skip then skip else mtime)

/-- The files below a directory and what is in them. -/
def Listing.files : Listing → List Str → List (List Str × Bytes)
  | .nil, _ => []
  | .file name _ content rest, exclude =>
    (if name ∈ exclude then [] else [([name], content)]) ++ rest.files exclude
  | .dir name entries rest, exclude =>
    (if name ∈ exclude then [] else (entries.files []).map fun f => (name :: f.1, f.2)) ++
      rest.files exclude

def checkedFiles (root : Listing) (subdir : Str) : List (List Str × Bytes) :=
  ((root.subdir subdir).map fun entries => entries.files [benchmarkDir]).getD []

/-- The same files with the same contents are in both. -/
def SameFiles (notforkDir notforkCopy : Listing) (subdir : Str) : Prop :=
  ∀ f, f ∈ checkedFiles notforkDir subdir ↔ f ∈ checkedFiles notforkCopy subdir

section Search

variable (read : Bytes → Str) (mtime : ℕ)

/-- A file that is listed is newer than the build and is not read like its copy. -/
def Stale : Listing → List Str → Option Listing → Prop
  | .nil, _, _ => False
  | .file name dmtime content rest, exclude, copy =>
    (unseen exclude name = false ∧ mtime < dmtime ∧
      copyText read copy name ≠ some (read content)) ∨ Stale rest exclude copy
  | .dir name entries rest, exclude, copy =>
    (unseen exclude name = false ∧ Stale entries [] (copy.bind fun c => c.subdir name)) ∨
      Stale rest exclude copy

/-- Going down into the first directory each time, the search meets a newer file. -/
def Leads : Listing → List Str → Prop
  | .nil, _ => False
  | .file name dmtime _ rest, exclude =>
    (unseen exclude name = false ∧ mtime < dmtime) ∨ Leads rest exclude
  | .dir name entries rest, exclude =>
    if unseen exclude name then Leads rest exclude else Leads entries []

def StaleDir (notforkDir notforkCopy : Listing) (subdir : Str) : Prop :=
  ∃ entries, notforkDir.subdir subdir = some entries ∧
    Stale read mtime entries [benchmarkDir] (notforkCopy.subdir subdir)

def LeadsDir (notforkDir : Listing) (subdir : Str) : Prop :=
  ∃ entries, notforkDir.subdir subdir = some entries ∧ Leads mtime entries [benchmarkDir]

/-- There is a stale file, and there is one from each directory on that leads to a newer file. -/
def Noticed (notforkDir notforkCopy : Listing) (subdirs : List Str) : Prop :=
  (∃ d ∈ subdirs, StaleDir read mtime notforkDir notforkCopy d) ∧
    ∀ before d after, subdirs = before ++ d :: after → LeadsDir mtime notforkDir d →
      ∃ e ∈ d :: after, StaleDir read mtime notforkDir notforkCopy e

variable {read mtime}

/-- What is left of the search: it fails for a stale file, and from nothing it comes to something
only with a newer file. -/
theorem searchDir_ne_zero (L : Listing) (exclude : List Str) (copy : Option Listing) (skip : ℕ) :
    searchDir read mtime L exclude copy skip ≠ 0 ↔
      ¬ Stale read mtime L exclude copy ∧ (skip ≠ 0 ∨ Leads mtime L exclude) := by
  induction L generalizing exclude copy skip with
  | nil => simp [searchDir, Stale, Leads]
  | file name dmtime content rest ih =>
    rw [searchDir, Stale, Leads]
    by_cases hunseen : unseen exclude name = true
    · simp [hunseen, ih]
    by_cases hnewer : mtime < dmtime
    · have hpos : (if skip < dmtime then dmtime else skip) ≠ 0 := by
        split_ifs <;> omega
      by_cases hsame : copyText read copy name = some (read content)
      · rw [if_neg hunseen, if_pos hnewer, if_pos hsame, ih]
        simp [hunseen, hnewer, hsame, hpos]
      · rw [if_neg hunseen, if_pos hnewer, if_neg hsame]
        simp [hunseen, hnewer, hsame]
    · simp [hunseen, hnewer, ih]
  | dir name entries rest ihEntries ihRest =>
    rw [searchDir, Stale, Leads]
    by_cases hunseen : unseen exclude name = true
    · simp [hunseen, ihRest]
    rw [if_neg hunseen, if_neg hunseen]
    have hinner := ihEntries [] (copy.bind fun c => c.subdir name) skip
    by_cases hzero : searchDir read mtime entries [] (copy.bind fun c => c.subdir name) skip = 0
    · have hnone := mt hinner.mpr (not_not.mpr hzero)
      simp only [hzero, if_true, ne_eq, not_true_eq_false, false_iff]
      rintro ⟨hstale, hlead⟩
      apply hnone
      rw [not_or] at hstale
      exact ⟨fun h => hstale.1 ⟨by simpa using hunseen, h⟩, hlead⟩
    · have hsome := hinner.mp hzero
      simp only [if_neg hzero]
      rw [ihRest]
      simp [hunseen, hzero, hsome.1, hsome.2]

variable (notforkDir notforkCopy : Listing)

theorem checkMtime_ne_zero (skip : ℕ) (subdir : Str) :
    checkMtime read mtime notforkDir notforkCopy skip subdir ≠ 0 ↔
      ¬ StaleDir read mtime notforkDir notforkCopy subdir ∧
        (skip ≠ 0 ∨ LeadsDir mtime notforkDir subdir) := by
  rw [checkMtime, StaleDir, LeadsDir]
  cases hdir : notforkDir.subdir subdir with
  | none => simp
  | some entries => simp [← searchDir_ne_zero]

/-- The checks of all directories, one after the other. -/
theorem checks_ne_zero (subdirs : List Str) (skip : ℕ) :
    subdirs.foldl (checkMtime read mtime notforkDir notforkCopy) skip ≠ 0 ↔
      (skip ≠ 0 ∧ ∀ d ∈ subdirs, ¬ StaleDir read mtime notforkDir notforkCopy d) ∨
        ∃ before d after, subdirs = before ++ d :: after ∧ LeadsDir mtime notforkDir d ∧
          ∀ e ∈ d :: after, ¬ StaleDir read mtime notforkDir notforkCopy e := by
  induction subdirs generalizing skip with
  | nil => simp
  | cons first rest ih =>
    rw [List.foldl_cons, ih, checkMtime_ne_zero]
    constructor
    · rintro (⟨⟨hfirst, hskip | hlead⟩, hrest⟩ | ⟨before, d, after, rfl, hlead, hnone⟩)
      · exact .inl ⟨hskip, List.forall_mem_cons.mpr ⟨hfirst, hrest⟩⟩
      · exact .inr ⟨[], first, rest, rfl, hlead, List.forall_mem_cons.mpr ⟨hfirst, hrest⟩⟩
      · exact .inr ⟨first :: before, d, after, rfl, hlead, hnone⟩
    · rintro (⟨hskip, hnone⟩ | ⟨before, d, after, hsplit, hlead, hnone⟩)
      · obtain ⟨hfirst, hrest⟩ := List.forall_mem_cons.mp hnone
        exact .inl ⟨⟨hfirst, .inl hskip⟩, hrest⟩
      · cases before with
        | nil =>
          obtain ⟨rfl, rfl⟩ := List.cons_eq_cons.mp hsplit
          obtain ⟨hfirst, hrest⟩ := List.forall_mem_cons.mp hnone
          exact .inl ⟨⟨hfirst, .inr hlead⟩, hrest⟩
        | cons b before =>
          obtain ⟨rfl, rfl⟩ := List.cons_eq_cons.mp hsplit
          exact .inr ⟨before, d, after, rfl, hlead, hnone⟩

theorem checks_noticed (subdirs : List Str) {skip : ℕ} (hskip : skip ≠ 0) :
    subdirs.foldl (checkMtime read mtime notforkDir notforkCopy) skip = 0 ↔
      Noticed read mtime notforkDir notforkCopy subdirs := by
  rw [← not_iff_not, ← ne_eq, checks_ne_zero, Noticed, not_and_or]
  constructor
  · rintro (⟨-, hnone⟩ | ⟨before, d, after, hsplit, hlead, hnone⟩)
    · left
      rintro ⟨d, hd, hstale⟩
      exact hnone d hd hstale
    · right
      intro hall
      obtain ⟨e, he, hstale⟩ := hall before d after hsplit hlead
      exact hnone e he hstale
  · rintro (hnone | hall)
    · exact .inl ⟨hskip, fun d hd hstale => hnone ⟨d, hd, hstale⟩⟩
    · push Not at hall
      exact .inr hall

end Search

/-- The files of a build are not looked at: it records no time, or a rebuild is forced. -/
def Unchecked (alwaysRebuild : Bool) (dest : BuildDir) : Prop :=
  alwaysRebuild = true ∨ dest.timestamp = false ∨ dest.buildTime.getD 0 = 0

/-- A build is taken only with the files it was made of, exactly where it is rebuilt without a
look at them, or the files are the same, or the difference is noticed. -/
theorem skipRebuild_current_iff (read : Bytes → Str) (alwaysRebuild : Bool) (notforkDir : Listing)
    (build : Str) (dest : BuildDir) :
    (∀ t, skipRebuild read alwaysRebuild notforkDir build dest = some t →
      ∀ d ∈ (buildParts build).checked, SameFiles notforkDir dest.notforkCopy d) ↔
    Unchecked alwaysRebuild dest ∨
      Noticed read (dest.buildTime.getD 0) notforkDir dest.notforkCopy (buildParts build).checked ∨
      ∀ d ∈ (buildParts build).checked, SameFiles notforkDir dest.notforkCopy d := by
  rw [skipRebuild, Unchecked]
  cases htime : dest.buildTime with
  | none => simp
  | some mtime =>
    by_cases hun : alwaysRebuild = true ∨ dest.timestamp = false ∨ mtime = 0
    · simp [hun]
    · have hforce : ¬ (alwaysRebuild = true ∨ (!dest.timestamp) = true ∨ mtime = 0) := by
        simpa using hun
      have hpos : mtime ≠ 0 := fun h => hun (.inr (.inr h))
      have hnoticed : (buildParts build).checked.foldl
          (checkMtime read mtime notforkDir dest.notforkCopy) mtime = 0 ↔ _ :=
        checks_noticed notforkDir dest.notforkCopy (buildParts build).checked hpos
      simp only [hforce, if_false, Option.getD_some, hun, false_or]
      by_cases hzero : (buildParts build).checked.foldl
          (checkMtime read mtime notforkDir dest.notforkCopy) mtime = 0
      · simp [hzero, hnoticed.mp hzero]
      · simp [hzero, mt hnoticed.mpr hzero]

/-- The file of sqlite3 has been edited, that of the backend has only been touched. -/
def editedDir : Listing :=
  .dir sqlite3 (.file "mod".toList 5 [2] .nil) (.dir lmdb (.file "mod".toList 6 [1] .nil) .nil)

def originalDir : Listing :=
  .dir sqlite3 (.file "mod".toList 2 [1] .nil) (.dir lmdb (.file "mod".toList 2 [1] .nil) .nil)

/-- After the edit is found the check of the next directory goes on and forgets it. -/
theorem edited_taken : ¬ ∀ (read : Bytes → Str) (alwaysRebuild : Bool) (notforkDir : Listing)
    (build : Str) (dest : BuildDir) (t : ℕ),
    skipRebuild read alwaysRebuild notforkDir build dest = some t →
      ∀ d ∈ (buildParts build).checked, SameFiles notforkDir dest.notforkCopy d := by
  intro h
  have htaken : skipRebuild (List.map fun b => Char.ofNat b.toNat) false editedDir
      "3.36.0+lmdb-0.9.29".toList ⟨some 3, true, originalDir⟩ = some 6 := by decide
  have hsame := h _ _ _ _ _ _ htaken sqlite3 (by decide) (["mod".toList], [2])
  exact absurd (hsame.mp (by decide)) (by decide)

end LumoSql.Build
