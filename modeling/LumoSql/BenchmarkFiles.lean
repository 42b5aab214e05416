import LumoSql.TclStrings
import Mathlib.Data.Char
import Mathlib.Data.List.Lex
import Mathlib.Data.List.Sort
import Mathlib.Data.List.TakeWhile

/-! Runs of a benchmark database: how `benchmark-filter.tcl` exports them to a text and imports
such a text. The database is read and written by running `sqlite3`. -/
namespace LumoSql.BenchmarkFilter
open Tcl

structure RunRow where
  run : Str
  key : Str
  value : Str
  deriving DecidableEq

structure TestRow where
  run : Str
  number : ℕ
  key : Str
  value : Str
  deriving DecidableEq

/-- The tables `run_data` and `test_data`. -/
structure Tables where
  runData : List RunRow
  testData : List TestRow
  deriving DecidableEq

/-- `[[:xdigit:]]`. -/
def isXdigit (c : Char) : Bool := c.isDigit || ('a' ≤ c && c ≤ 'f') || ('A' ≤ c && c ≤ 'F')

/-- The hash that names a run. -/
def IsRunId (s : Str) : Prop := s.length = 64 ∧ s.all isXdigit = true

def testName : Str := "test-name".toList

/-- The tables as benchmarks leave them: the indexes are unique, and a run is named by a hash. -/
structure Database extends Tables where
  run_unique : ∀ a ∈ runData, ∀ b ∈ runData, a.run = b.run → a.key = b.key → a = b
  test_unique : ∀ a ∈ testData, ∀ b ∈ testData, a.run = b.run → a.number = b.number → a.key = b.key → a = b
  run_id : ∀ row ∈ runData, IsRunId row.run
  test_id : ∀ row ∈ testData, IsRunId row.run

def decimal (n : ℕ) : Str := Nat.toDigits 10 n

/-- The interpreter of the script: the classes `\w`, `\s` and `\d` of its regular expressions, and
how `!=` compares a number with digits. Leading zeros depend on its version. -/
structure Interpreter where
  word : Char → Bool
  space : Char → Bool
  digit : Char → Bool
  differs : ℕ → Str → Bool
  digit_word : ∀ c, digit c = true → word c = true
  word_space : ∀ c, word c = true → space c = false
  isDigit_digit : ∀ c : Char, c.isDigit = true → digit c = true
  blank_space : space ' ' = true
  dash : word '-' = false ∧ space '-' = false
  marks : ∀ c ∈ ['|', '\'', '\n', '\r', '\x00'], word c = false
  differs_decimal : ∀ n m, differs n (decimal m) = decide (n ≠ m)

/-- Why there is no result: the program exits with a message, or it does not end. -/
inductive Failure
  | exit (message : Str)
  | diverges
  deriving DecidableEq

section Export

variable (sqlite3 : Str)

/-- A text as `sqlite3` prints it. -/
def printed (s : Str) : Str := s.takeWhile (· ≠ '\x00')

/-- What `sqlite3` prints of a selection with two columns. -/
def listMode (rows : List (Str × Str)) : Str :=
  rows.flatMap fun r => (printed r.1 ++ '|' :: printed r.2) ++ ['\n']

/-- `order by key`. -/
def byKey (rows : List (Str × Str)) : List (Str × Str) := rows.insertionSort fun a b => a.1 ≤ b.1

def rowFields (rv : Str) : Except Failure (Str × Str) :=
  match split (· == '|') rv with
  | [key, value] => .ok (key, value)
  | _ => .error (.exit ("Invalid data from ".toList ++ sqlite3 ++ ": ".toList ++ rv))

def readRows (text : Str) : Except Failure (List (Str × Str)) := (lines text).mapM (rowFields sqlite3)

/-- The keys and values of a run. -/
def Tables.runRows (T : Tables) (run : Str) : List (Str × Str) :=
  byKey ((T.runData.filter fun row => row.run = run).map fun row => (row.key, row.value))

def Tables.testRows (T : Tables) (run : Str) (number : ℕ) : List (Str × Str) :=
  byKey ((T.testData.filter fun row => row.run = run ∧ row.number = number).map
    fun row => (row.key, row.value))

def getRunData (T : Tables) (run : Str) : Except Failure (List (Str × Str)) :=
  readRows sqlite3 (listMode (T.runRows run))

def getTestData (T : Tables) (run : Str) (number : ℕ) : Except Failure (List (Str × Str)) :=
  readRows sqlite3 (listMode (T.testRows run number))

/-- The rows with the names of the tests of a run. -/
def Tables.named (T : Tables) (run : Str) : List TestRow :=
  T.testData.filter fun row => row.run = run ∧ row.key = testName

/-- The entry `n-tests` that `add_test_op` makes for a run, if it makes one. -/
def Tables.nTests (T : Tables) (run : Str) : Option ℕ :=
  if T.named run = [] then none else some (T.named run).length

def keyLines (rows : List (Str × Str)) : List Str := rows.map fun r => r.1 ++ ' ' :: r.2

/-- The loop over the numbers `tn` of tests, `tc` of which have been found. -/
def exportTests (T : Tables) (run : Str) (nTests : ℕ) : ℕ → ℕ → ℕ → Except Failure (List Str)
  | fuel, tn, tc =>
    if nTests ≤ tc then .ok []
    else match fuel with
      | 0 => .error .diverges
      | fuel + 1 => do
        let tdata ← getTestData sqlite3 T run tn
        if tdata = [] then exportTests T run nTests fuel (tn + 1) tc
        else do
          let rest ← exportTests T run nTests fuel (tn + 1) (tc + 1)
          pure (('-' :: '-' :: decimal tn) :: keyLines tdata ++ rest)

/-- The lines of one run. -/
def exportRun (fuel : ℕ) (T : Tables) (run : Str) : Except Failure (List Str) :=
  match T.nTests run with
  | none => .error (.exit "key \"n-tests\" not known in dictionary".toList)
  | some nTests => do
    let rd ← getRunData sqlite3 T run
    let tests ← exportTests sqlite3 T run nTests fuel 1 0
    pure ((run ++ ' ' :: decimal nTests) :: keyLines rd ++ tests ++ [[]])

def header : Str := "# LumoSQL benchmark data version 0.0".toList

/-- The file that `-export` writes for the runs selected. -/
def exportFile (fuel : ℕ) (T : Tables) (runlist : List Str) : Except Failure Str := do
  let runs ← runlist.mapM (exportRun sqlite3 fuel T)
  pure ((header :: runs.flatten).flatMap (· ++ ['\n']))

end Export

section Import

/-- One row to be inserted; number 0 is `run_data`. -/
structure Insert where
  run : Str
  num : ℕ
  key : Str
  value : Str
  deriving DecidableEq

/-- What follows the first `word` in a text. -/
def after (word : Str) : Str → Option Str
  | [] => none
  | c :: s => if word.isPrefixOf (c :: s) then some ((c :: s).drop word.length) else after word s

/-- `LumoSQL.*benchmark.*data`. -/
def isHeader (line : Str) : Bool :=
  (((after "LumoSQL".toList line).bind (after "benchmark".toList)).bind (after "data".toList)).isSome

variable (tcl : Interpreter)

def isKeyChar (c : Char) : Bool := c == '-' || tcl.word c

/-- `^([[:xdigit:]]{64}) (\d+)`. -/
def runStart (line : Str) : Option (Str × Str) :=
  let run := line.take 64
  if run.length = 64 ∧ run.all isXdigit then
    match line.drop 64 with
    | ' ' :: rest =>
      let tests := rest.takeWhile tcl.digit
      if tests = [] then none else some (run, tests)
    | _ => none
  else none

/-- `^--(\d+)`. -/
def testStart (line : Str) : Option Str :=
  match line with
  | '-' :: '-' :: rest =>
    let tnum := rest.takeWhile tcl.digit
    if tnum = [] then none else some tnum
  | _ => none

/-- `^([-\w]+)\s+(.*)$`. -/
def keyValue (line : Str) : Option (Str × Str) :=
  let key := line.takeWhile (isKeyChar tcl)
  match line.dropWhile (isKeyChar tcl) with
  | c :: rest =>
    if key ≠ [] ∧ tcl.space c then some (key, (c :: rest).dropWhile tcl.space) else none
  | [] => none

variable (file : Str)

def invalidFile (reason : Str) : Failure := .exit (file ++ ": Invalid import file: ".toList ++ reason)

def wrongCount (tests : Str) (num : ℕ) : Failure :=
  invalidFile file ("expected ".toList ++ tests ++ " tests, found ".toList ++ decimal num)

/-- The loops over the lines of a file; in a run, its name, its number of tests and the number of
those found are known. -/
def importLines : Option (Str × Str × ℕ) → List Str → Except Failure (List Insert)
  | none, [] => .ok []
  | some (_, tests, num), [] => if tcl.differs num tests then .error (wrongCount file tests num) else .ok []
  | none, line :: rest =>
    match runStart tcl line with
    | none => .error (invalidFile file ("invalid run start line (".toList ++ line ++ ")".toList))
    | some (run, tests) => importLines (some (run, tests, 0)) rest
  | some (run, tests, num), line :: rest =>
    if line = [] then
      if tcl.differs num tests then .error (wrongCount file tests num) else importLines none rest
    else match testStart tcl line with
      | some tnum =>
        if tcl.differs (num + 1) tnum then
          .error (invalidFile file ("test ".toList ++ tnum ++ " out of sequence".toList))
        else importLines (some (run, tests, num + 1)) rest
      | none =>
        match keyValue tcl line with
        | some (key, value) => do
          let inserts ← importLines (some (run, tests, num)) rest
          pure (⟨run, num, key, value⟩ :: inserts)
        | none => .error (.exit (file ++ ": Invalid input line (".toList ++ line ++ ")".toList))

def importText (text : Str) : Except Failure (List Insert) :=
  match lines text with
  | [] => .error (invalidFile file "invalid initial line".toList)
  | line :: rest =>
    if isHeader line then importLines tcl file none rest
    else .error (invalidFile file "invalid initial line".toList)

/-- A text as it stands in a string literal. -/
def quoted (value : Str) : Str := value.flatMap fun c => if c = '\'' then ['\'', '\''] else [c]

def runInto : Str := "INSERT INTO run_data (run_id, key, value) VALUES ('".toList

def testInto : Str := "INSERT INTO test_data (run_id, test_number, key, value) VALUES ('".toList

/-- A statement with string literals that hold these texts. -/
def insertStatement (s : Insert) (value : Str) : Str :=
  if s.num = 0 then runInto ++ s.run ++ "', '".toList ++ s.key ++ "', '".toList ++ value ++ "');".toList
  else testInto ++ s.run ++ "', ".toList ++ decimal s.num ++ ", '".toList ++ s.key ++ "', '".toList ++
    value ++ "');".toList

/-- The statement the import writes; the value of a test goes in as it is. -/
def importStatement (s : Insert) : Str :=
  insertStatement s (if s.num = 0 then quoted s.value else s.value)

def importScript (inserts : List Insert) : Str := inserts.flatMap fun s => importStatement s ++ ['\n']

/-- A row goes in unless the unique index has its key. -/
def insertRow {α κ : Type} [DecidableEq κ] (key : α → κ) (rows : List α) (row : α) : List α :=
  if ∃ other ∈ rows, key other = key row then rows else rows ++ [row]

def RunRow.index (row : RunRow) : Str × Str := (row.run, row.key)

def TestRow.index (row : TestRow) : Str × ℕ × Str := (row.run, row.number, row.key)

def Tables.insert (T : Tables) (s : Insert) : Tables :=
  if s.num = 0 then { T with runData := insertRow RunRow.index T.runData ⟨s.run, s.key, s.value⟩ }
  else { T with testData := insertRow TestRow.index T.testData ⟨s.run, s.num, s.key, s.value⟩ }

/-- Texts that `sqlite3` reads in a line of its input as they are. -/
def Insert.Literal (s : Insert) : Prop :=
  (∀ c ∈ s.run ++ s.key ++ s.value, c ∉ ['\n', '\r', '\x00']) ∧ '\'' ∉ s.run ++ s.key

/-- `sqlite3` on the tables `make_database` makes: what a script leaves in them. Of a script of
insertions with string literals that is known. -/
structure Shell where
  run : Str → Tables
  inserts : ∀ ss : List Insert, (∀ s ∈ ss, s.Literal) →
    run (ss.flatMap fun s => insertStatement s (quoted s.value) ++ ['\n']) =
      ss.foldl Tables.insert ⟨[], []⟩

/-- The tables after `-import` of one file. -/
def importFile (shell : Shell) (text : Str) : Except Failure Tables := do
  let inserts ← importText tcl file text
  pure (shell.run (importScript inserts))

end Import

/-- The rows of these runs are the same. -/
def SameRuns (T T' : Tables) (runlist : List Str) : Prop :=
  (∀ row : RunRow, row.run ∈ runlist → (row ∈ T'.runData ↔ row ∈ T.runData)) ∧
    ∀ row : TestRow, row.run ∈ runlist → (row ∈ T'.testData ↔ row ∈ T.testData)

/-- The runs are exported and imported with the rows they have. -/
def RoundTrip (tcl : Interpreter) (shell : Shell) (sqlite3 file : Str) (T : Tables) (runlist : List Str) :
    Prop :=
  ∃ fuel text T', exportFile sqlite3 fuel T runlist = .ok text ∧
    importFile tcl file shell text = .ok T' ∧ SameRuns T T' runlist

end LumoSql.BenchmarkFilter
