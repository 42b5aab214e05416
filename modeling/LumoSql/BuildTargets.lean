import LumoSql.TclStrings
import Mathlib.Logic.Function.Basic

/-! The list of targets of `build.tcl`: it is made from lists of versions and from options, or
read from target strings. The word characters of its regular expressions are those of ASCII. -/
namespace LumoSql.Build
open Tcl

/-- What the not-forking tool prints for a backend and a range of versions, in its order. -/
abbrev NotFork := Str → Str → Str → List Str

def sqlite3 : Str := "sqlite3".toList
def latest : Str := "latest".toList
def yes : Str := "yes".toList

/-- What stops the program: its exit status and its message. -/
structure Exit where
  status : ℕ
  message : Str
  deriving DecidableEq

/-- `^(.+)\+(.+)$`, where the first group takes as much as it can. -/
def lastPlus : Str → Option (Str × Str)
  | [] => none
  | c :: s =>
    match lastPlus s with
    | some (a, b) => some (c :: a, b)
    | none =>
      match s with
      | '+' :: d :: b => some ([c], d :: b)
      | _ => none

/-- What stands before and after the first `c`. -/
def cut (c : Char) : Str → Option (Str × Str)
  | [] => none
  | d :: s => if d = c then some ([], s) else (cut c s).map fun ab => (d :: ab.1, ab.2)

def isWord (c : Char) : Bool := c.isAlphanum || c == '_'

/-- `^(\w+)-(.*)$`. -/
def nameAndRest (s : Str) : Option (Str × Str) :=
  (cut '-' s).filter fun ab => ab.1 ≠ [] && ab.1.all isWord

section Versions

variable (fork : NotFork)

/-- What one name of a list of versions stands for, and whether that is to be removed. -/
def nameVersions (backend name : Str) : Bool × List Str :=
  let remove := name.head? = some '-'
  let name := if remove then name.tail else name
  if name = "all".toList then (remove, fork backend [] [])
  else if name.getLast? = some '+' then (remove, fork backend name.dropLast [])
  else if name.getLast? = some '-' then (remove, fork backend [] name.dropLast)
  else if name = latest then (remove, (fork backend [] []).getLast?.toList)
  else (remove, [name])

def addVersion (remove : Bool) (R : List Str) (tgt : Str) : List Str :=
  if tgt ∈ R then if remove then R.erase tgt else R
  else if remove then R else R ++ [tgt]

/-- The versions of a backend with each version of sqlite3, `""` for none. -/
def versionTargets (backend : Str) (S bvers : List Str) : List Str :=
  bvers.flatMap fun bv => S.map fun sv => if sv = [] then bv else sv ++ '+' :: backend ++ '-' :: bv

/-- The loop of `versions_list`; `parts` says which versions of sqlite3 a name is combined with
and what is left of it. -/
def versionsLoop (parts : Str → List Str × Str) (backend names : Str) : List Str :=
  ((split isSpace names).filter (· ≠ [])).foldl (fun R name =>
    let S := parts name
    let v := nameVersions fork backend S.2
    (versionTargets backend S.1 v.2).foldl (addVersion v.1) R) []

/-- `versions_list` without a list of sqlite3 versions. -/
def plainVersions (backend names : Str) : List Str :=
  versionsLoop fork (fun name => ([[]], name)) backend names

/-- A name can tell the versions of sqlite3 itself. -/
def nameParts (slist : List Str) (name : Str) : List Str × Str :=
  match lastPlus name with
  | some (sv, name) => (plainVersions fork sqlite3 sv, name)
  | none => (slist, name)

def versionsList (backend names : Str) (slist : List Str) : List Str :=
  if slist = [] then plainVersions fork backend names
  else versionsLoop fork (nameParts fork slist) backend names

end Versions

section Options

/-- One `*.option` file. -/
structure OptionDef where
  name : Str
  build : Bool
  syntax_ok : Str → Bool
  defval : Str
  equiv : List (Str × Str)
  requiv : Str → Str

def enum (values : List String) (v : Str) : Bool := (values.map String.toList).contains v

/-- An option that is on or off. -/
def booleanOption (name : String) (build : Bool) : OptionDef where
  name := name.toList
  build := build
  syntax_ok := enum ["on", "off", "yes", "no", "true", "false"]
  defval := "off".toList
  equiv := [("true", "on"), ("yes", "on"), ("false", "off"), ("no", "off")].map
    fun e => (e.1.toList, e.2.toList)
  requiv := id

/-- An option with a list of values, some of which are other words for others. -/
def enumOption (name : String) (build : Bool) (values : List String) (defval : String)
    (equiv : List (String × String)) : OptionDef where
  name := name.toList
  build := build
  syntax_ok := enum values
  defval := defval.toList
  equiv := equiv.map fun e => (e.1.toList, e.2.toList)
  requiv := id

/-- `[1-9]\d*`. -/
def isPositive : Str → Bool
  | [] => false
  | c :: s => c.isDigit && c ≠ '0' && s.all Char.isDigit

/-- `[1-9]\d*(?:,[1-9]\d*)?`. -/
def isDatasize (v : Str) : Bool :=
  match cut ',' v with
  | none => isPositive v
  | some (a, b) => isPositive a && isPositive b

/-- `^(?:(\d+),\1)$` is replaced by the number. -/
def equalSizes (v : Str) : Str :=
  match cut ',' v with
  | none => v
  | some (a, b) => if a = b ∧ a ≠ [] ∧ a.all Char.isDigit then a else v

/-- The options there are, in the order of their names. -/
def options : List OptionDef :=
  [⟨"DATASIZE".toList, false, isDatasize, "1".toList, [], equalSizes⟩,
    booleanOption "DEBUG" true,
    booleanOption "DISCARD_OUTPUT" false,
    enumOption "LMDB_DEBUG" true ["off", "on", "insert"] "off" [],
    booleanOption "LMDB_FIXED_ROWID" true,
    enumOption "LMDB_TRANSACTION" false ["noupgrade", "optimistic", "serialise", "serialize"]
      "optimistic" [("serialize", "serialise")],
    booleanOption "ROWSUM" true,
    enumOption "ROWSUM_ALGORITHM" false ["none", "empty", "sha3_512", "sha3_384", "sha3_256", "sha3_224",
      "sha3", "blake3_512", "blake3_384", "blake3_256", "blake3_224", "blake3"] "sha3_256"
      [("sha3", "sha3_256"), ("blake3", "blake3_256")],
    enumOption "SQLITE3_JOURNAL" false ["default", "delete", "persist", "off", "truncate", "memory", "wal"]
      "default" []]

def findOption (name : Str) : Option OptionDef := options.find? fun od => od.name = name

def OptionDef.normalise (od : OptionDef) (value : Str) : Str :=
  od.requiv (od.equiv.foldl (fun v e => if v = e.1 then e.2 else v) value)

/-- The value of each option. -/
abbrev OptionValues := Str → Str

def defaultValues : OptionValues := fun name => ((findOption name).map OptionDef.defval).getD []

def invalidValue (option value : Str) : Exit := ⟨1, "Invalid value for ".toList ++ option ++ ": ".toList ++ value⟩

/-- One argument `-OPTION=VALUE` of the program. -/
def optionArgument (values : OptionValues) (arg : Str × Str) : Except Exit OptionValues :=
  match findOption arg.1 with
  | none => .error ⟨1, "Invalid benchmark option ".toList ++ arg.1⟩
  | some od =>
    if !od.syntax_ok arg.2 then .error (invalidValue arg.1 arg.2)
    else .ok (Function.update values od.name (od.normalise arg.2))

def optionArguments (args : List (Str × Str)) : Except Exit OptionValues :=
  args.foldlM optionArgument defaultValues

/-- `benchmark_opts`, `benchmark_plus` and `benchmark_ol`, or those of the build. -/
structure OptionText where
  opts : Str
  plus : Str
  ol : List (Str × Str)

def addOption (values : OptionValues) (T : OptionText) (od : OptionDef) : OptionText :=
  let value := values od.name
  let ol := T.ol ++ [(od.name, value)]
  if value ≠ od.defval then ⟨T.opts ++ '+' :: od.name.map Char.toLower ++ '-' :: value, ['+'], ol⟩
  else { T with ol := ol }

def benchmarkText (values : OptionValues) : OptionText :=
  options.foldl (addOption values) ⟨[], [], []⟩

def buildText (values : OptionValues) : OptionText :=
  (options.filter OptionDef.build).foldl (addOption values) ⟨[], [], []⟩

end Options

/-- A target string, the build it runs and the options it runs with. -/
structure Benchmark where
  name : Str
  build : Str
  options : List (Str × Str)
  deriving DecidableEq

structure Lists where
  benchmarks : List Benchmark
  builds : List (Str × List (Str × Str))
  deriving DecidableEq

def Lists.names (L : Lists) : List Str := L.benchmarks.map Benchmark.name

def Lists.addBenchmark (L : Lists) (t : Benchmark) : Lists :=
  if t.name ∈ L.names then L else { L with benchmarks := L.benchmarks ++ [t] }

def Lists.addBuild (L : Lists) (b : Str) (ol : List (Str × Str)) : Lists :=
  if b ∈ L.builds.map Prod.fst then L else { L with builds := L.builds ++ [(b, ol)] }

def addTargetNo (values : OptionValues) (L : Lists) (target : Str) (addBench : Bool) : Lists :=
  let B := benchmarkText values
  let b := target ++ (buildText values).plus ++ (buildText values).opts
  let L := if addBench then L.addBenchmark ⟨target ++ B.plus ++ B.opts, b, B.ol⟩ else L
  L.addBuild b (buildText values).ol

def addTargetYes (values : OptionValues) (L : Lists) (target : Str) : Lists :=
  let B := benchmarkText values
  let b := target ++ (buildText values).opts
  if target ++ B.opts ∈ L.names then L
  else (L.addBenchmark ⟨target ++ B.opts, b, B.ol⟩).addBuild b (buildText values).ol

/-- The options of one backend. -/
structure BackendSettings where
  use : Str
  sqliteFor : Str
  versions : Str
  standalone : Str

structure Settings where
  sqliteForDb : Str
  sqliteVersions : Str
  useSqlite : Str
  backend : Str → BackendSettings
  targets : Str
  extraBuilds : Str

def bdb : Str := "bdb".toList
def lmdb : Str := "lmdb".toList
def backends : List Str := [bdb, lmdb]

/-- There is a directory with benchmarks for it. -/
def isBackend (name : Str) : Bool := name ∈ [bdb, lmdb, sqlite3]

/-- The settings when none is given, as the files `versions` and `standalone` have them. -/
def defaultSettings : Settings where
  sqliteForDb := []
  sqliteVersions := "latest 3.36.0".toList
  useSqlite := yes
  backend name :=
    if name = bdb then ⟨yes, [], [], "18.1.32=3.18.2".toList⟩
    else ⟨yes, "3.36.0 latest".toList, "0.9.28 latest".toList, []⟩
  targets := []
  extraBuilds := []

section Lists

/- `v` is the variable of that name at the top of the program, which still holds the version read
last, of whichever backend was read last. -/
variable (fork : NotFork) (v : Str) (values : OptionValues)

/-- A version of a backend with a version of sqlite3. -/
def addLinked (L : Lists) (bver : Str) : Lists :=
  match cut '+' bver with
  | some (sv, _) => addTargetYes values (addTargetNo values L sv true) bver
  | none => L

/-- A version of a backend that has its own sqlite3. -/
def addStandalone (backend : Str) (L : Lists) (sver : Str) : Lists :=
  match cut '=' sver with
  | some (bv, sv) =>
    addTargetYes values (addTargetNo values L sv true) ('+' :: backend ++ '-' :: bv)
  | none => addTargetYes values L ('+' :: backend ++ '-' :: v)

def addBackend (settings : Settings) (L : Lists) (backend : Str) : Lists :=
  let B := settings.backend backend
  if B.use = yes then
    let dvers := versionsList fork sqlite3 B.sqliteFor []
    let L := (versionsList fork backend B.versions dvers).foldl (addLinked values) L
    (versionsList fork backend B.standalone []).foldl (addStandalone v values backend) L
  else L

/-- The list that is made when no targets are given. -/
def generateTargets (settings : Settings) (L : Lists) : Lists :=
  let L := if settings.useSqlite = yes then
      (versionsList fork sqlite3 settings.sqliteVersions []).foldl
        (fun L sv => addTargetNo values L sv true) L
    else L
  backends.foldl (addBackend fork v values settings) L

end Lists

section Targets

variable (fork : NotFork)

/-- The words of a list of targets, where a backslash keeps a blank in a word. -/
def targetWords (s : Str) : List Str :=
  ((split isSpace (stringMap (escapes ' ' 's') s)).filter (· ≠ [])).map
    (stringMap [([':', 'c'], [':']), ([':', 's'], [' '])])

/-- The parts of a target, where a backslash keeps a `+` in a part. -/
def targetItems (s : Str) : List Str :=
  (split (· == '+') (stringMap (escapes '+' 'p') s)).map
    (stringMap [([':', 'p'], ['+']), ([':', 'c'], [':'])])

/-- An extra build is marked with a blank. -/
def targetList (settings : Settings) : List Str :=
  targetWords settings.targets ++ (targetWords settings.extraBuilds).map (' ' :: ·)

def invalidTarget (benchmark : Str) : Exit :=
  ⟨2, "Invalid target (".toList ++ benchmark ++ "), backend needs to be NAME-VERSION".toList⟩

/-- `bvlist`; `tdata` is what follows the version of sqlite3. -/
def targetBackends (benchmark : Str) (tdata : List Str) : Except Exit (List Str) :=
  match tdata with
  | [] => .ok [[]]
  | bv :: _ =>
    if bv = [] then .ok [[]]
    else match nameAndRest bv with
      | none => .error (invalidTarget benchmark)
      | some (bname, bversion) =>
        if !isBackend bname then .error (invalidTarget benchmark)
        else
          let bxlist := plainVersions fork bname bversion
          if bxlist = [] then .error (invalidTarget benchmark)
          else .ok (bxlist.map fun bv => bname ++ '-' :: bv)

/-- One option of a target. -/
def targetOption (values : OptionValues) (optstring : Str) : Except Exit OptionValues :=
  match nameAndRest optstring with
  | none => .error ⟨1, "Invalid option ".toList ++ optstring⟩
  | some (option, value) =>
    match findOption (option.map Char.toUpper) with
    | none => .error ⟨1, "Invalid option name: ".toList ++ option⟩
    | some od =>
      if value = od.defval then .ok values
      else if !od.syntax_ok value then .error (invalidValue option value)
      else
        let value := od.normalise value
        if value = od.defval then .ok values
        else .ok (Function.update values (option.map Char.toUpper) value)

/-- The normalised target of one version of sqlite3 and one of a backend. -/
def targetBenchmark (values : OptionValues) (sv bv : Str) : Benchmark :=
  let B := benchmarkText values
  let b := buildText values
  if bv = [] then ⟨sv ++ B.plus ++ B.opts, sv ++ b.plus ++ b.opts, B.ol⟩
  else ⟨sv ++ '+' :: bv ++ B.opts, sv ++ '+' :: bv ++ b.opts, B.ol⟩

def addTarget (values : OptionValues) (doBenchmark : Bool) (optstrings : List Str) (L : Lists)
    (version : Str × Str) : Except Exit Lists := do
  let values ← optstrings.foldlM targetOption values
  let t := targetBenchmark values version.1 version.2
  let L := if doBenchmark then L.addBenchmark t else L
  pure (L.addBuild t.build (buildText values).ol)

def parseBenchmark (values : OptionValues) (doBenchmark : Bool) (L : Lists) (benchmark : Str) :
    Except Exit Lists :=
  match targetItems benchmark with
  | [] => .ok L
  | sv :: tdata => do
    let svlist := plainVersions fork sqlite3 sv
    let bvlist ← targetBackends fork benchmark tdata
    (svlist.flatMap fun sv => bvlist.map fun bv => (sv, bv)).foldlM
      (addTarget values doBenchmark tdata.tail) L

def parseTarget (values : OptionValues) (L : Lists) (benchmark : Str) : Except Exit Lists :=
  if benchmark = [] then .ok L
  else if benchmark.head? = some ' ' then parseBenchmark fork values false L benchmark.tail
  else parseBenchmark fork values true L benchmark

end Targets

/-- The version of sqlite3 that keeps the results. -/
def sqlite3ForDb (fork : NotFork) (settings : Settings) : Str :=
  if settings.sqliteForDb = [] then (plainVersions fork sqlite3 latest).head?.getD []
  else settings.sqliteForDb

/-- The targets and builds of an invocation. -/
def benchmarkLists (fork : NotFork) (v : Str) (settings : Settings) (values : OptionValues) :
    Except Exit Lists :=
  let L : Lists := ⟨[], [(sqlite3ForDb fork settings, (buildText defaultValues).ol)]⟩
  let L := if settings.targets = [] then generateTargets fork v values settings L else L
  (targetList settings).foldlM (parseTarget fork values) L

/-- The invocation that is given the target strings of a list and nothing else. -/
def replaySettings (L : Lists) : Settings := { defaultSettings with targets := join L.names }

end LumoSql.Build
