import LumoSql.BenchmarkRows

/-! The lines of a run in an exported file. Export writes them and import reads them back as the
rows, if its tests are numbered from 1 without gaps. -/
namespace LumoSql.BenchmarkFilter
open Tcl

def block (number : ℕ) (rows : List (Str × Str)) : List Str := ('-' :: '-' :: decimal number) :: keyLines rows

/-- The lines of a run with `nTests` tests, of which those with the numbers `ns` are written. -/
def runLines (T : Tables) (run : Str) (nTests : ℕ) (ns : List ℕ) : List Str :=
  (run ++ ' ' :: decimal nTests) :: keyLines (T.runRows run) ++
    ns.flatMap (fun m => block m (T.testRows run m)) ++ [[]]

def rowInserts (run : Str) (num : ℕ) (rows : List (Str × Str)) : List Insert :=
  rows.map fun r => ⟨run, num, r.1, r.2⟩

def testInserts (T : Tables) (run : Str) (ns : List ℕ) : List Insert :=
  ns.flatMap fun m => rowInserts run m (T.testRows run m)

/-- All rows of a run can be written. -/
structure PlainRun (tcl : Interpreter) (T : Tables) (run : Str) : Prop where
  run_rows : ∀ r ∈ T.runRows run, Plain tcl r
  test_rows : ∀ m, ∀ r ∈ T.testRows run m, Plain tcl r

variable {tcl : Interpreter} {T : Tables} {run : Str}

theorem decimal_digits (tcl : Interpreter) (n : ℕ) : decimal n ≠ [] ∧ ∀ c ∈ decimal n, tcl.digit c = true :=
  ⟨Nat.toDigits_ne_nil, fun c hc => tcl.isDigit_digit c (Nat.isDigit_of_mem_toDigits (by decide) (by decide) hc)⟩

theorem takeWhile_decimal (n : ℕ) : (decimal n).takeWhile tcl.digit = decimal n := by
  rw [List.takeWhile_eq_self_iff]
  exact (decimal_digits tcl n).2

theorem testStart_decimal (n : ℕ) : testStart tcl ('-' :: '-' :: decimal n) = some (decimal n) := by
  rw [testStart, takeWhile_decimal]
  simp [(decimal_digits tcl n).1]

theorem runStart_decimal (hrun : IsRunId run) (n : ℕ) :
    runStart tcl (run ++ ' ' :: decimal n) = some (run, decimal n) := by
  have htake : (run ++ ' ' :: decimal n).take 64 = run := by simp [← hrun.1]
  have hdrop : (run ++ ' ' :: decimal n).drop 64 = ' ' :: decimal n := by simp [← hrun.1]
  simp only [runStart, htake, hdrop, hrun.1, hrun.2, and_self, if_true, takeWhile_decimal]
  simp [(decimal_digits tcl n).1]

section Import

variable {file tests : Str} {num : ℕ} {rest : List Str} {rows : List (Str × Str)}

theorem keyValue_plain {r : Str × Str} (h : Plain tcl r) : keyValue tcl (r.1 ++ ' ' :: r.2) = some r := by
  have hblank : isKeyChar tcl ' ' = false := space_not_key tcl.blank_space
  have hkey : (r.1 ++ ' ' :: r.2).takeWhile (isKeyChar tcl) = r.1 := by
    rw [List.takeWhile_append_of_pos h.key, List.takeWhile_cons, hblank]
    simp
  have hrest : (r.1 ++ ' ' :: r.2).dropWhile (isKeyChar tcl) = ' ' :: r.2 := by
    rw [List.dropWhile_append_of_pos h.key, List.dropWhile_cons, hblank]
    simp
  have hvalue : (' ' :: r.2).dropWhile tcl.space = r.2 := by
    rw [List.dropWhile_cons, if_pos tcl.blank_space]
    cases hv : r.2 with
    | nil => rfl
    | cons c v => simp [h.start c (by simp [hv])]
  simp only [keyValue, hkey, hrest, hvalue, if_pos (And.intro h.nonempty tcl.blank_space)]

/-- The rows of a run or a test are read back. -/
theorem importLines_keyLines (h : ∀ r ∈ rows, Plain tcl r) :
    importLines tcl file (some (run, tests, num)) (keyLines rows ++ rest) =
      (rowInserts run num rows ++ ·) <$> importLines tcl file (some (run, tests, num)) rest := by
  induction rows with
  | nil => simp [keyLines, rowInserts]
  | cons r rows ih =>
    have hr := h r (by simp)
    have htest : testStart tcl (r.1 ++ ' ' :: r.2) = none := by
      rw [testStart_append tcl.blank_space, hr.not_test]
    have ih := ih fun r hr => h r (by simp [hr])
    rw [keyLines] at ih
    rw [keyLines, List.map_cons, List.cons_append, importLines, if_neg (by simp), htest, keyValue_plain hr]
    simp only [ih, rowInserts]
    cases importLines tcl file (some (run, tests, num)) rest <;> rfl

/-- A test has to be the next one. -/
theorem importLines_block {m : ℕ} (h : ∀ r ∈ rows, Plain tcl r) :
    importLines tcl file (some (run, tests, num)) (block m rows ++ rest) =
      if m = num + 1 then
        (rowInserts run m rows ++ ·) <$> importLines tcl file (some (run, tests, m)) rest
      else .error (invalidFile file ("test ".toList ++ decimal m ++ " out of sequence".toList)) := by
  rw [block, List.cons_append, importLines, if_neg (by simp), testStart_decimal]
  simp only [tcl.differs_decimal]
  by_cases hm : m = num + 1
  · subst hm
    simp [importLines_keyLines h]
  · simp [hm, Ne.symm hm]

theorem importLines_range (h : PlainRun tcl T run) (k : ℕ) :
    importLines tcl file (some (run, tests, num))
        ((List.range' (num + 1) k).flatMap (fun m => block m (T.testRows run m)) ++ rest) =
      (testInserts T run (List.range' (num + 1) k) ++ ·) <$>
        importLines tcl file (some (run, tests, num + k)) rest := by
  induction k generalizing num with
  | zero => simp [testInserts]
  | succ k ih =>
    have hnum : num + (k + 1) = num + 1 + k := by omega
    rw [List.range'_succ, List.flatMap_cons, List.append_assoc, importLines_block (h.test_rows _), if_pos rfl,
      ih, hnum]
    simp only [testInserts, List.flatMap_cons, List.append_assoc, Functor.map_map]

/-- Tests that are accepted are numbered without gaps. -/
theorem blocks_range (h : PlainRun tcl T run) {ns : List ℕ} {inserts : List Insert}
    (hok : importLines tcl file (some (run, tests, num))
      (ns.flatMap (fun m => block m (T.testRows run m)) ++ rest) = .ok inserts) :
    ns = List.range' (num + 1) ns.length := by
  induction ns generalizing num inserts with
  | nil => rfl
  | cons m ns ih =>
    rw [List.flatMap_cons, List.append_assoc, importLines_block (h.test_rows m)] at hok
    split_ifs at hok with hm
    subst hm
    cases hrest : importLines tcl file (some (run, tests, num + 1))
        (ns.flatMap (fun m => block m (T.testRows run m)) ++ rest) with
    | error e => simp [hrest] at hok
    | ok inserts' => rw [List.length_cons, List.range'_succ, ← ih hrest]

theorem importLines_runLines (h : PlainRun tcl T run) (hrun : IsRunId run) (n : ℕ) (ns : List ℕ) :
    importLines tcl file none (runLines T run n ns ++ rest) =
      (rowInserts run 0 (T.runRows run) ++ ·) <$>
        importLines tcl file (some (run, decimal n, 0))
          (ns.flatMap (fun m => block m (T.testRows run m)) ++ [] :: rest) := by
  rw [runLines, List.cons_append, List.cons_append, List.cons_append, importLines, runStart_decimal hrun]
  simp only [List.append_assoc, importLines_keyLines h.run_rows, List.singleton_append]

theorem importLines_run (h : PlainRun tcl T run) (hrun : IsRunId run) (n k : ℕ) :
    importLines tcl file none (runLines T run n (List.range' 1 k) ++ rest) =
      if k = n then
        (rowInserts run 0 (T.runRows run) ++ testInserts T run (List.range' 1 n) ++ ·) <$>
          importLines tcl file none rest
      else .error (wrongCount file (decimal n) k) := by
  have hrange : importLines tcl file (some (run, decimal n, 0))
      ((List.range' (0 + 1) k).flatMap (fun m => block m (T.testRows run m)) ++ [] :: rest) = _ := importLines_range h k
  have hend : importLines tcl file (some (run, decimal n, 0 + k)) ([] :: rest) =
      if k = n then importLines tcl file none rest else .error (wrongCount file (decimal n) k) := by
    rw [importLines, if_pos rfl, Nat.zero_add]
    simp only [tcl.differs_decimal]
    by_cases hk : k = n <;> simp [hk]
  rw [Nat.zero_add] at hrange
  rw [importLines_runLines h hrun, hrange, hend]
  by_cases hk : k = n
  · simp only [hk, if_true, Functor.map_map, List.append_assoc]
  · simp only [if_neg hk]
    rfl

end Import

section Export

variable {sqlite3 : Str}

/-- No value of these rows is cut at a bar. -/
def NoBar (rows : List (Str × Str)) : Prop := ∀ r ∈ rows, '|' ∉ r.2

theorem getTestData_ok (h : PlainRun tcl T run) {m : ℕ} (hbar : NoBar (T.testRows run m)) :
    getTestData sqlite3 T run m = .ok (T.testRows run m) := readRows_ok (h.test_rows m) hbar

theorem exportTests_ok (sqlite3 : Str) (h : PlainRun tcl T run) {n : ℕ}
    (hrows : ∀ m, 1 ≤ m → m ≤ n → T.testRows run m ≠ [] ∧ NoBar (T.testRows run m)) (k : ℕ) {fuel tc : ℕ}
    (hn : tc + k = n) (hfuel : k ≤ fuel) :
    exportTests sqlite3 T run n fuel (tc + 1) tc =
      .ok ((List.range' (tc + 1) k).flatMap fun m => block m (T.testRows run m)) := by
  induction k generalizing tc fuel with
  | zero =>
    have : n ≤ tc := by omega
    unfold exportTests
    simp [this]
  | succ k ih =>
    obtain ⟨fuel, rfl⟩ := Nat.exists_eq_add_one_of_ne_zero (Nat.ne_of_gt (Nat.lt_of_lt_of_le k.succ_pos hfuel))
    obtain ⟨hne, hbar⟩ := hrows (tc + 1) (by omega) (by omega)
    have hmore : ¬ n ≤ tc := by omega
    have hrest : exportTests sqlite3 T run n fuel (tc + 1 + 1) (tc + 1) = _ :=
      ih (by omega) (Nat.le_of_succ_le_succ hfuel)
    rw [exportTests, if_neg hmore]
    simp only [getTestData_ok h hbar, bind, Except.bind, if_neg hne, hrest, List.range'_succ, List.flatMap_cons]
    rfl

/-- What has been written when the loop ends. -/
theorem exportTests_spec (h : PlainRun tcl T run) {n fuel tn tc : ℕ} {ls : List Str}
    (hok : exportTests sqlite3 T run n fuel tn tc = .ok ls) :
    ∃ ns : List ℕ, ls = ns.flatMap (fun m => block m (T.testRows run m)) ∧
      ∀ m ∈ ns, T.testRows run m ≠ [] ∧ NoBar (T.testRows run m) := by
  induction fuel generalizing tn tc ls with
  | zero =>
    rw [exportTests] at hok
    split_ifs at hok
    obtain rfl := Except.ok.inj hok
    exact ⟨[], rfl, by simp⟩
  | succ fuel ih =>
    rw [exportTests] at hok
    split_ifs at hok
    · obtain rfl := Except.ok.inj hok
      exact ⟨[], rfl, by simp⟩
    · cases hdata : getTestData sqlite3 T run tn with
      | error e => simp [hdata, bind, Except.bind] at hok
      | ok tdata =>
        have hbar := readRows_bar (h.test_rows tn) hdata
        obtain rfl : T.testRows run tn = tdata :=
          Except.ok.inj ((getTestData_ok h hbar).symm.trans hdata)
        simp only [hdata, bind, Except.bind] at hok
        split_ifs at hok with hne
        · exact ih hok
        · cases hrest : exportTests sqlite3 T run n fuel (tn + 1) (tc + 1) with
          | error e => simp [hrest] at hok
          | ok rest =>
            simp only [hrest] at hok
            obtain rfl := Except.ok.inj hok
            obtain ⟨ns, rfl, hns⟩ := ih hrest
            refine ⟨tn :: ns, rfl, ?_⟩
            intro m hm
            rcases List.mem_cons.mp hm with rfl | hm
            · exact ⟨hne, hbar⟩
            · exact hns m hm

/-- The tests of a run are numbered from 1 to `n`, and nothing is cut. -/
structure Numbered (T : Tables) (run : Str) (n : ℕ) : Prop where
  count : T.nTests run = some n
  run_rows : NoBar (T.runRows run)
  tests : ∀ m, 1 ≤ m → m ≤ n → T.testRows run m ≠ [] ∧ NoBar (T.testRows run m)

theorem exportRun_ok (sqlite3 : Str) (h : PlainRun tcl T run) {n fuel : ℕ} (hn : Numbered T run n) (hfuel : n ≤ fuel) :
    exportRun sqlite3 fuel T run = .ok (runLines T run n (List.range' 1 n)) := by
  have hrun : getRunData sqlite3 T run = .ok (T.runRows run) := readRows_ok h.run_rows hn.run_rows
  have htests := exportTests_ok sqlite3 h hn.tests n (Nat.zero_add n) hfuel
  simp only [exportRun, hn.count, hrun, htests, bind, Except.bind]
  rfl

theorem exportRun_spec (h : PlainRun tcl T run) {fuel : ℕ} {ls : List Str}
    (hok : exportRun sqlite3 fuel T run = .ok ls) :
    ∃ n ns, T.nTests run = some n ∧ NoBar (T.runRows run) ∧ ls = runLines T run n ns ∧
      ∀ m ∈ ns, T.testRows run m ≠ [] ∧ NoBar (T.testRows run m) := by
  rw [exportRun] at hok
  cases hn : T.nTests run with
  | none => simp [hn] at hok
  | some n =>
    cases hdata : getRunData sqlite3 T run with
    | error e => simp [hn, hdata, bind, Except.bind] at hok
    | ok rd =>
      have hbar := readRows_bar h.run_rows hdata
      obtain rfl : T.runRows run = rd := Except.ok.inj ((readRows_ok h.run_rows hbar).symm.trans hdata)
      cases htests : exportTests sqlite3 T run n fuel 1 0 with
      | error e => simp [hn, hdata, htests, bind, Except.bind] at hok
      | ok tests =>
        obtain ⟨ns, rfl, hns⟩ := exportTests_spec h htests
        simp only [hn, hdata, htests, bind, Except.bind] at hok
        obtain rfl := Except.ok.inj hok
        exact ⟨n, ns, rfl, hbar, rfl, hns⟩

/-- A run that was exported and can be imported. -/
theorem numbered_of_import (h : PlainRun tcl T run) (hrun : IsRunId run) {fuel : ℕ} {file : Str}
    {ls rest : List Str} {inserts : List Insert} (hexport : exportRun sqlite3 fuel T run = .ok ls)
    (himport : importLines tcl file none (ls ++ rest) = .ok inserts) :
    ∃ n, Numbered T run n ∧ ls = runLines T run n (List.range' 1 n) := by
  obtain ⟨n, ns, hcount, hbar, rfl, hns⟩ := exportRun_spec h hexport
  have hrange : ns = List.range' 1 ns.length := by
    rw [importLines_runLines h hrun] at himport
    cases hblocks : importLines tcl file (some (run, decimal n, 0))
        (ns.flatMap (fun m => block m (T.testRows run m)) ++ [] :: rest) with
    | error e => simp [hblocks] at himport
    | ok _ => exact blocks_range h hblocks
  have hlen : ns.length = n := by
    rw [hrange, importLines_run h hrun] at himport
    split_ifs at himport with hlen
    exact hlen
  rw [hlen] at hrange
  refine ⟨n, ⟨hcount, hbar, fun m hm hmn => hns m ?_⟩, by rw [← hrange]⟩
  rw [hrange, List.mem_range'_1]
  omega

end Export

end LumoSql.BenchmarkFilter
