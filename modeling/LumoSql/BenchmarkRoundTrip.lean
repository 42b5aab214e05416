import LumoSql.BenchmarkText

/-! Which runs are exported and imported with all their rows. -/
namespace LumoSql.BenchmarkFilter
open Tcl

/-- A key and its value, of these runs or of their tests. -/
def Tables.Row (T : Tables) (runlist : List Str) (r : Str × Str) : Prop :=
  (∃ run ∈ runlist, ⟨run, r.1, r.2⟩ ∈ T.runData) ∨ ∃ run ∈ runlist, ∃ m, ⟨run, m, r.1, r.2⟩ ∈ T.testData

/-- Runs with tests, with keys of the form `[-\w]+` and without a newline in a value. -/
structure Selection (tcl : Interpreter) (T : Tables) (runlist : List Str) : Prop where
  tests : ∀ run ∈ runlist, ∃ row ∈ T.testData, row.run = run
  keys : ∀ r, T.Row runlist r → r.1 ≠ [] ∧ ∀ c ∈ r.1, isKeyChar tcl c = true
  values : ∀ r, T.Row runlist r → '\n' ∉ r.2

/-- A value that is not cut, neither where it is printed nor where it is read, at a key that is
not taken for the start of a test. -/
structure Writable (tcl : Interpreter) (r : Str × Str) : Prop where
  cut : ∀ c ∈ r.2, c ∉ ['|', '\r', '\x00']
  start : ∀ c, r.2.head? = some c → tcl.space c = false
  not_test : testStart tcl r.1 = none

/-- The runs that come back: the tests of each are numbered from 1 to the number of their names, and
their values have no apostrophes. -/
structure Exportable (tcl : Interpreter) (T : Tables) (runlist : List Str) : Prop where
  rows : ∀ r, T.Row runlist r → Writable tcl r
  numbers : ∀ run ∈ runlist, ∀ m,
    (∃ row ∈ T.testData, row.run = run ∧ row.number = m) ↔ 1 ≤ m ∧ m ≤ (T.named run).length
  apostrophes : ∀ row ∈ T.testData, row.run ∈ runlist → '\'' ∉ row.value

variable {tcl : Interpreter} {T : Tables} {runlist : List Str} {run : Str} {r : Str × Str}

section Rows

theorem mem_runRows : r ∈ T.runRows run ↔ ⟨run, r.1, r.2⟩ ∈ T.runData := by
  rw [Tables.runRows, byKey, List.mem_insertionSort, List.mem_map]
  constructor
  · rintro ⟨row, hrow, rfl⟩
    obtain ⟨hmem, hrun⟩ := List.mem_filter.mp hrow
    obtain rfl := of_decide_eq_true hrun
    exact hmem
  · exact fun hmem => ⟨_, List.mem_filter.mpr ⟨hmem, decide_eq_true rfl⟩, rfl⟩

theorem mem_testRows {m : ℕ} : r ∈ T.testRows run m ↔ ⟨run, m, r.1, r.2⟩ ∈ T.testData := by
  rw [Tables.testRows, byKey, List.mem_insertionSort, List.mem_map]
  constructor
  · rintro ⟨row, hrow, rfl⟩
    obtain ⟨hmem, hrun⟩ := List.mem_filter.mp hrow
    obtain ⟨rfl, rfl⟩ := of_decide_eq_true hrun
    exact hmem
  · exact fun hmem => ⟨_, List.mem_filter.mpr ⟨hmem, decide_eq_true ⟨rfl, rfl⟩⟩, rfl⟩

theorem row_of_runRows (hrun : run ∈ runlist) (h : r ∈ T.runRows run) : T.Row runlist r :=
  Or.inl ⟨run, hrun, mem_runRows.mp h⟩

theorem row_of_testRows {m : ℕ} (hrun : run ∈ runlist) (h : r ∈ T.testRows run m) : T.Row runlist r :=
  Or.inr ⟨run, hrun, m, mem_testRows.mp h⟩

theorem plainRun_of (h : ∀ r, T.Row runlist r → Plain tcl r) (hrun : run ∈ runlist) : PlainRun tcl T run :=
  ⟨fun r hr => h r (row_of_runRows hrun hr), fun _ r hr => h r (row_of_testRows hrun hr)⟩

/-- A row whose characters can be read in a line. -/
theorem Selection.plain (hsel : Selection tcl T runlist) (hr : T.Row runlist r)
    (hline : ∀ c ∈ r.2, c ∉ ['\r', '\x00']) (hstart : ∀ c, r.2.head? = some c → tcl.space c = false)
    (htest : testStart tcl r.1 = none) : Plain tcl r := by
  refine ⟨(hsel.keys r hr).1, (hsel.keys r hr).2, htest, ?_, hstart⟩
  intro c hc hbad
  rcases List.mem_cons.mp hbad with rfl | hbad
  · exact hsel.values r hr hc
  · exact hline c hc hbad

end Rows

section Inserts

/-- What is inserted for these runs when they can be read back. -/
def allInserts (T : Tables) (runlist : List Str) : List Insert :=
  runlist.flatMap fun run =>
    rowInserts run 0 (T.runRows run) ++ testInserts T run (List.range' 1 (T.named run).length)

theorem mem_allInserts {s : Insert} (hs : s ∈ allInserts T runlist) :
    s.run ∈ runlist ∧ ((s.num = 0 ∧ ⟨s.run, s.key, s.value⟩ ∈ T.runData) ∨
      (1 ≤ s.num ∧ s.num ≤ (T.named s.run).length ∧ ⟨s.run, s.num, s.key, s.value⟩ ∈ T.testData)) := by
  obtain ⟨run, hrun, hs⟩ := List.mem_flatMap.mp hs
  rcases List.mem_append.mp hs with hs | hs
  · obtain ⟨r, hr, rfl⟩ := List.mem_map.mp hs
    exact ⟨hrun, Or.inl ⟨rfl, mem_runRows.mp hr⟩⟩
  · obtain ⟨m, hm, hs⟩ := List.mem_flatMap.mp hs
    obtain ⟨r, hr, rfl⟩ := List.mem_map.mp hs
    rw [List.mem_range'_1] at hm
    refine ⟨hrun, Or.inr ⟨hm.1, ?_, mem_testRows.mp hr⟩⟩
    show m ≤ (T.named run).length
    omega

theorem run_allInserts {row : RunRow} :
    row ∈ (allInserts T runlist).filterMap Insert.runRow ↔ row.run ∈ runlist ∧ row ∈ T.runData := by
  rw [List.mem_filterMap]
  constructor
  · rintro ⟨s, hs, hrow⟩
    rw [Insert.runRow] at hrow
    split_ifs at hrow with hnum
    obtain rfl := Option.some.inj hrow
    obtain ⟨hrun, ⟨-, hmem⟩ | ⟨hpos, -⟩⟩ := mem_allInserts hs
    · exact ⟨hrun, hmem⟩
    · omega
  · rintro ⟨hrun, hmem⟩
    refine ⟨⟨row.run, 0, row.key, row.value⟩, ?_, by simp [Insert.runRow]⟩
    refine List.mem_flatMap.mpr ⟨row.run, hrun, List.mem_append_left _ ?_⟩
    exact List.mem_map.mpr ⟨(row.key, row.value), mem_runRows.mpr hmem, rfl⟩

theorem test_allInserts {row : TestRow} :
    row ∈ (allInserts T runlist).filterMap Insert.testRow ↔
      row.run ∈ runlist ∧ (1 ≤ row.number ∧ row.number ≤ (T.named row.run).length) ∧ row ∈ T.testData := by
  rw [List.mem_filterMap]
  constructor
  · rintro ⟨s, hs, hrow⟩
    rw [Insert.testRow] at hrow
    split_ifs at hrow with hnum
    obtain rfl := Option.some.inj hrow
    obtain ⟨hrun, ⟨hzero, -⟩ | ⟨hpos, hle, hmem⟩⟩ := mem_allInserts hs
    · exact absurd hzero hnum
    · exact ⟨hrun, ⟨hpos, hle⟩, hmem⟩
  · rintro ⟨hrun, ⟨hpos, hle⟩, hmem⟩
    have hnum : row.number ≠ 0 := by omega
    refine ⟨⟨row.run, row.number, row.key, row.value⟩, ?_, by simp [Insert.testRow, hnum]⟩
    refine List.mem_flatMap.mpr ⟨row.run, hrun, List.mem_append_right _ ?_⟩
    refine List.mem_flatMap.mpr ⟨row.number, List.mem_range'_1.mpr (by omega), ?_⟩
    exact List.mem_map.mpr ⟨(row.key, row.value), mem_testRows.mpr hmem, rfl⟩

/-- The tables that the insertions leave. -/
theorem tables_allInserts (runlist : List Str) (D : Database) :
    (∀ row, row ∈ ((allInserts D.toTables runlist).foldl Tables.insert ⟨[], []⟩).runData ↔
      row.run ∈ runlist ∧ row ∈ D.runData) ∧
    ∀ row, row ∈ ((allInserts D.toTables runlist).foldl Tables.insert ⟨[], []⟩).testData ↔
      row.run ∈ runlist ∧ (1 ≤ row.number ∧ row.number ≤ (D.named row.run).length) ∧ row ∈ D.testData := by
  rw [foldl_insert]
  constructor
  · intro row
    rw [foldl_insertRow_iff, run_allInserts]
    intro a ha b hb hab
    obtain ⟨hrun, hkey⟩ := Prod.mk.inj hab
    exact D.run_unique a (run_allInserts.mp ha).2 b (run_allInserts.mp hb).2 hrun hkey
  · intro row
    rw [foldl_insertRow_iff, test_allInserts]
    intro a ha b hb hab
    obtain ⟨hrun, hrest⟩ := Prod.mk.inj hab
    obtain ⟨hnumber, hkey⟩ := Prod.mk.inj hrest
    exact D.test_unique a (test_allInserts.mp ha).2.2 b (test_allInserts.mp hb).2.2 hrun hnumber hkey

end Inserts

section Files

variable {sqlite3 file : Str}

theorem keyLines_isLine {rows : List (Str × Str)} (h : ∀ r ∈ rows, Plain tcl r) :
    ∀ l ∈ keyLines rows, IsLine l := by
  have hends : ∀ e ∈ ['\n', '\r'], ∀ r, Plain tcl r → e ∉ r.1 ++ ' ' :: r.2 := by
    intro e he r hr hmem
    have hkey := fun hc => isKeyChar_mark (hr.key e hc)
    have hvalue := fun hc => hr.value e hc
    simp only [List.mem_append, List.mem_cons, List.not_mem_nil, or_false] at he hmem
    rcases he with rfl | rfl
    · rcases hmem with hmem | hmem | hmem
      · exact hkey hmem (by simp)
      · cases hmem
      · exact hvalue hmem (by simp)
    · rcases hmem with hmem | hmem | hmem
      · exact hkey hmem (by simp)
      · cases hmem
      · exact hvalue hmem (by simp)
  intro l hl
  obtain ⟨r, hr, rfl⟩ := List.mem_map.mp hl
  exact ⟨hends _ (by simp) r (h r hr), hends _ (by simp) r (h r hr)⟩

theorem decimal_isLine (n : ℕ) : IsLine (decimal n) := by
  have hdigit : ∀ c ∈ decimal n, c.isDigit = true := fun c hc =>
    Nat.isDigit_of_mem_toDigits (by decide) (by decide) hc
  constructor <;> (intro hc; exact absurd (hdigit _ hc) (by decide))

theorem isRunId_isLine (hrun : IsRunId run) : IsLine run := by
  have hx := List.all_eq_true.mp hrun.2
  constructor <;> (intro hc; exact absurd (hx _ hc) (by decide))

theorem runLines_isLine (h : PlainRun tcl T run) (hrun : IsRunId run) (n : ℕ) (ns : List ℕ) :
    ∀ l ∈ runLines T run n ns, IsLine l := by
  intro l hl
  simp only [runLines, List.cons_append, List.append_assoc, List.mem_cons, List.mem_append, List.not_mem_nil,
    or_false] at hl
  rcases hl with rfl | hl | hl | rfl
  · have hid := isRunId_isLine hrun
    have hn := decimal_isLine n
    constructor
    · simp [hid.1, hn.1]
    · simp [hid.2, hn.2]
  · exact keyLines_isLine h.run_rows l hl
  · obtain ⟨m, -, hl⟩ := List.mem_flatMap.mp hl
    rcases List.mem_cons.mp hl with rfl | hl
    · have hm := decimal_isLine m
      constructor
      · simp [hm.1]
      · simp [hm.2]
    · exact keyLines_isLine (h.test_rows m) l hl
  · exact ⟨List.not_mem_nil, List.not_mem_nil⟩

theorem importText_lines {ls : List Str} (h : ∀ l ∈ ls, IsLine l) :
    importText tcl file ((header :: ls).flatMap (· ++ ['\n'])) = importLines tcl file none ls := by
  have hheader : IsLine header := by constructor <;> decide
  have hlines : lines ((header :: ls).flatMap (· ++ ['\n'])) = header :: ls := by
    refine lines_flatMap fun l hl => ?_
    rcases List.mem_cons.mp hl with rfl | hl
    · exact hheader
    · exact h l hl
  rw [importText, hlines]
  simp only [show isHeader header = true by decide, if_true]

/-- The lines of runs that are numbered. -/
def allLines (T : Tables) (runlist : List Str) : List (List Str) :=
  runlist.map fun run => runLines T run (T.named run).length (List.range' 1 (T.named run).length)

theorem mapM_exportRun {fuel : ℕ} (hfuel : T.testData.length ≤ fuel)
    (h : ∀ run ∈ runlist, PlainRun tcl T run ∧ Numbered T run (T.named run).length) :
    runlist.mapM (exportRun sqlite3 fuel T) = .ok (allLines T runlist) := by
  induction runlist with
  | nil => rfl
  | cons run runlist ih =>
    obtain ⟨hplain, hnumbered⟩ := h run (by simp)
    have hrun := exportRun_ok sqlite3 hplain hnumbered
      ((List.length_filter_le _ _).trans hfuel)
    rw [List.mapM_cons, hrun, ih fun run hrun => h run (by simp [hrun])]
    rfl

theorem importLines_allLines (hid : ∀ run ∈ runlist, IsRunId run)
    (h : ∀ run ∈ runlist, PlainRun tcl T run) :
    importLines tcl file none (allLines T runlist).flatten = .ok (allInserts T runlist) := by
  induction runlist with
  | nil =>
    unfold importLines
    rfl
  | cons run runlist ih =>
    have hrest := ih (fun run hrun => hid run (by simp [hrun])) fun run hrun => h run (by simp [hrun])
    rw [allLines, List.map_cons, List.flatten_cons, importLines_run (h run (by simp)) (hid run (by simp)),
      if_pos rfl]
    rw [allLines] at hrest
    rw [hrest]
    rfl

/-- Runs that were exported and imported are numbered. -/
theorem numbered_of_imports (hid : ∀ run ∈ runlist, IsRunId run)
    (h : ∀ run ∈ runlist, PlainRun tcl T run) {fuel : ℕ} {lss : List (List Str)} {inserts : List Insert}
    (hexport : runlist.mapM (exportRun sqlite3 fuel T) = .ok lss)
    (himport : importLines tcl file none lss.flatten = .ok inserts) :
    lss = allLines T runlist ∧ ∀ run ∈ runlist, Numbered T run (T.named run).length := by
  induction runlist generalizing lss inserts with
  | nil =>
    obtain rfl : [] = lss := Except.ok.inj hexport
    exact ⟨rfl, by simp⟩
  | cons run runlist ih =>
    rw [List.mapM_cons] at hexport
    cases hrun : exportRun sqlite3 fuel T run with
    | error e => simp [hrun, bind, Except.bind] at hexport
    | ok ls =>
      cases hrest : runlist.mapM (exportRun sqlite3 fuel T) with
      | error e => simp [hrun, hrest, bind, Except.bind] at hexport
      | ok lss' =>
        simp only [hrun, hrest, bind, Except.bind] at hexport
        obtain rfl : ls :: lss' = lss := Except.ok.inj hexport
        rw [List.flatten_cons] at himport
        obtain ⟨n, hnumbered, rfl⟩ :=
          numbered_of_import (h run (by simp)) (hid run (by simp)) hrun himport
        obtain rfl : (T.named run).length = n := by
          have hcount := hnumbered.count
          rw [Tables.nTests] at hcount
          split_ifs at hcount
          exact Option.some.inj hcount
        rw [importLines_run (h run (by simp)) (hid run (by simp)), if_pos rfl] at himport
        cases htail : importLines tcl file none lss'.flatten with
        | error e => simp [htail] at himport
        | ok inserts' =>
          obtain ⟨rfl, hall⟩ := ih (fun run hrun => hid run (by simp [hrun]))
            (fun run hrun => h run (by simp [hrun])) hrest htail
          refine ⟨rfl, fun run' hrun' => ?_⟩
          rcases List.mem_cons.mp hrun' with rfl | hrun'
          · exact hnumbered
          · exact hall run' hrun'

end Files

section Literals

/-- Hashes, keys and values of one line can stand in a statement. -/
theorem literal_of {s : Insert} (hrun : s.run.all isXdigit = true) (hkey : ∀ c ∈ s.key, isKeyChar tcl c = true)
    (hvalue : ∀ c ∈ s.value, c ∉ ['\n', '\r', '\x00']) : s.Literal := by
  have hx := List.all_eq_true.mp hrun
  have hrun' : ∀ c ∈ s.run, c ∉ ['\n', '\r', '\x00', '\''] := by
    intro c hc hbad
    simp only [List.mem_cons, List.not_mem_nil, or_false] at hbad
    rcases hbad with rfl | rfl | rfl | rfl <;> exact absurd (hx _ hc) (by decide)
  have hkey' : ∀ c ∈ s.key, c ∉ ['\n', '\r', '\x00', '\''] := by
    intro c hc hbad
    refine isKeyChar_mark (hkey c hc) ?_
    simp only [List.mem_cons, List.not_mem_nil, or_false] at hbad ⊢
    tauto
  constructor
  · intro c hc hbad
    simp only [List.mem_append] at hc
    rcases hc with (hc | hc) | hc
    · exact hrun' c hc (by simp at hbad ⊢; tauto)
    · exact hkey' c hc (by simp at hbad ⊢; tauto)
    · exact hvalue c hc hbad
  · intro hmem
    rcases List.mem_append.mp hmem with hmem | hmem
    · exact hrun' _ hmem (by simp)
    · exact hkey' _ hmem (by simp)

end Literals

variable {D : Database} {shell : Shell} {sqlite3 file : Str}

theorem Selection.isRunId (hsel : Selection tcl D.toTables runlist) : ∀ run ∈ runlist, IsRunId run := by
  intro run hrun
  obtain ⟨row, hrow, rfl⟩ := hsel.tests run hrun
  exact D.test_id row hrow

/-- The condition is enough. -/
theorem roundTrip_of_exportable (hsel : Selection tcl D.toTables runlist)
    (h : Exportable tcl D.toTables runlist) : RoundTrip tcl shell sqlite3 file D.toTables runlist := by
  have hid := hsel.isRunId
  have hplain : ∀ r, D.Row runlist r → Plain tcl r := by
    intro r hr
    obtain ⟨hcut, hstart, htest⟩ := h.rows r hr
    exact hsel.plain hr (fun c hc hbad => hcut c hc (List.mem_cons_of_mem _ hbad)) hstart htest
  have hbar : ∀ rows : List (Str × Str), (∀ r ∈ rows, D.Row runlist r) → NoBar rows :=
    fun rows hrows r hr hmem => (h.rows r (hrows r hr)).cut _ hmem (by simp)
  have hnumbered : ∀ run ∈ runlist, Numbered D.toTables run (D.named run).length := by
    intro run hrun
    refine ⟨?_, hbar _ fun r hr => row_of_runRows hrun hr, ?_⟩
    · obtain ⟨row, hrow, hname⟩ := hsel.tests run hrun
      have hnumber := (h.numbers run hrun row.number).mp ⟨row, hrow, hname, rfl⟩
      have hne : D.named run ≠ [] := by
        intro hnil
        simp only [hnil, List.length_nil] at hnumber
        omega
      rw [Tables.nTests, if_neg hne]
    · intro m hm hmn
      refine ⟨?_, hbar _ fun r hr => row_of_testRows hrun hr⟩
      obtain ⟨row, hrow, rfl, rfl⟩ := (h.numbers run hrun m).mpr ⟨hm, hmn⟩
      exact List.ne_nil_of_mem (mem_testRows (r := (row.key, row.value)).mpr hrow)
  have hruns := fun run (hrun : run ∈ runlist) => plainRun_of hplain hrun
  have hlines : ∀ l ∈ (allLines D.toTables runlist).flatten, IsLine l := by
    intro l hl
    obtain ⟨ls, hls, hl⟩ := List.mem_flatten.mp hl
    obtain ⟨run, hrun, rfl⟩ := List.mem_map.mp hls
    exact runLines_isLine (hruns run hrun) (hid run hrun) _ _ l hl
  have hrow : ∀ s ∈ allInserts D.toTables runlist, D.Row runlist (s.key, s.value) := by
    intro s hs
    obtain ⟨hrun, ⟨-, hmem⟩ | ⟨-, -, hmem⟩⟩ := mem_allInserts hs
    · exact Or.inl ⟨s.run, hrun, hmem⟩
    · exact Or.inr ⟨s.run, hrun, s.num, hmem⟩
  have hread : importText tcl file
      ((header :: (allLines D.toTables runlist).flatten).flatMap (· ++ ['\n'])) =
        .ok (allInserts D.toTables runlist) := by
    rw [importText_lines hlines, importLines_allLines hid hruns]
  have himport := importFile_eq shell hread
    (fun s hs => literal_of (hid _ (mem_allInserts hs).1).2 (hplain _ (hrow s hs)).key (hplain _ (hrow s hs)).value)
    (fun s hs hnum => by
      obtain ⟨hrun, ⟨hzero, -⟩ | ⟨-, -, hmem⟩⟩ := mem_allInserts hs
      · exact absurd hzero hnum
      · exact h.apostrophes _ hmem hrun)
  refine ⟨D.testData.length, _, _, ?_, himport, ?_⟩
  · rw [exportFile, mapM_exportRun (Nat.le_refl _) fun run hrun => ⟨hruns run hrun, hnumbered run hrun⟩]
    rfl
  · obtain ⟨hrunrows, htestrows⟩ := tables_allInserts runlist D
    constructor
    · intro row hrun
      simp [hrunrows row, hrun]
    · intro row hrun
      rw [htestrows row]
      refine ⟨fun hmem => hmem.2.2, fun hmem => ⟨hrun, ?_, hmem⟩⟩
      exact (h.numbers row.run hrun row.number).mp ⟨row, hmem, rfl, rfl⟩

section Necessity

/-- Without apostrophes in the rows there are none in the file. -/
theorem quiet_exportFile (hid : ∀ run ∈ runlist, IsRunId run)
    (hkeys : ∀ r, T.Row runlist r → ∀ c ∈ r.1, isKeyChar tcl c = true)
    (hquote : ∀ r, T.Row runlist r → '\'' ∉ r.2) {fuel : ℕ} {lss : List (List Str)}
    (hexport : runlist.mapM (exportRun sqlite3 fuel T) = .ok lss) :
    Quiet ((header :: lss.flatten).flatMap (· ++ ['\n'])) := by
  have hlines : ∀ l ∈ lss.flatten, Quiet l := by
    intro l hl
    obtain ⟨ls, hls, hl⟩ := List.mem_flatten.mp hl
    obtain ⟨run, hrun, hok⟩ := mapM_mem hexport ls hls
    have hrows : ∀ rows : List (Str × Str), (∀ r ∈ rows, T.Row runlist r) → QuietRows tcl rows :=
      fun rows hmem r hr => ⟨hkeys r (hmem r hr), hquote r (hmem r hr)⟩
    exact quiet_exportRun (hid run hrun) (hrows _ fun r hr => row_of_runRows hrun hr)
      (fun m => hrows _ fun r hr => row_of_testRows hrun hr) hok l hl
  intro c hc
  obtain ⟨l, hl, hc⟩ := List.mem_flatMap.mp hc
  rcases List.mem_append.mp hc with hc | hc
  · rcases List.mem_cons.mp hl with rfl | hl
    · have hheader : header.all (fun c => c ≠ '\'' ∧ c ≠ '\x00') := by decide
      simpa using List.all_eq_true.mp hheader c hc
    · exact hlines l hl c hc
  · obtain rfl := List.mem_singleton.mp hc
    decide

/-- What is read from a text without these characters can be inserted as it is. -/
theorem importText_literal {text : Str} (htext : Quiet text) {inserts : List Insert}
    (hread : importText tcl file text = .ok inserts) :
    ∀ s ∈ inserts, s.Literal ∧ '\'' ∉ s.value ∧ testStart tcl s.key = none ∧
      (∀ c ∈ s.value, c ∉ ['\r', '\x00']) ∧ ∀ c, s.value.head? = some c → tcl.space c = false := by
  intro s hs
  rw [importText] at hread
  split at hread
  · cases hread
  · next line rest hlines =>
    split_ifs at hread
    obtain ⟨hrun, hkey, htest, ⟨l, hl, hvalue⟩, hstart⟩ := importLines_mem (by simp) hread s hs
    have hlisted : l ∈ linesFrom false text := by
      rw [show linesFrom false text = line :: rest from hlines]
      simp [hl]
    obtain ⟨hline, hmem⟩ := linesFrom_mem hlisted
    have hchars : ∀ c ∈ s.value, c ∉ ['\n', '\r', '\x00'] := by
      intro c hc hbad
      have hcl := hvalue c hc
      simp only [List.mem_cons, List.not_mem_nil, or_false] at hbad
      rcases hbad with rfl | rfl | rfl
      · exact hline.1 hcl
      · exact hline.2 hcl
      · exact (htext _ (hmem _ hcl)).2 rfl
    refine ⟨literal_of hrun hkey hchars, ?_, htest, ?_, hstart⟩
    · exact fun hc => (htext _ (hmem _ (hvalue _ hc))).1 rfl
    · exact fun c hc hbad => hchars c hc (List.mem_cons_of_mem _ hbad)

/-- A row in the tables comes from what was inserted. -/
theorem row_inserted {inserts : List Insert}
    (hr : (inserts.foldl Tables.insert ⟨[], []⟩).Row runlist r) : ∃ s ∈ inserts, r = (s.key, s.value) := by
  rw [foldl_insert] at hr
  rcases hr with ⟨run, -, hmem⟩ | ⟨run, -, m, hmem⟩
  · rcases mem_foldl_insertRow hmem with hmem | hmem
    · cases hmem
    · obtain ⟨s, hs, hrow⟩ := List.mem_filterMap.mp hmem
      rw [Insert.runRow] at hrow
      split_ifs at hrow
      obtain ⟨-, hkey, hvalue⟩ := RunRow.mk.inj (Option.some.inj hrow)
      exact ⟨s, hs, Prod.ext hkey.symm hvalue.symm⟩
  · rcases mem_foldl_insertRow hmem with hmem | hmem
    · cases hmem
    · obtain ⟨s, hs, hrow⟩ := List.mem_filterMap.mp hmem
      rw [Insert.testRow] at hrow
      split_ifs at hrow
      obtain ⟨-, -, hkey, hvalue⟩ := TestRow.mk.inj (Option.some.inj hrow)
      exact ⟨s, hs, Prod.ext hkey.symm hvalue.symm⟩

theorem SameRuns.row {T' : Tables} (h : SameRuns T T' runlist) (hr : T.Row runlist r) : T'.Row runlist r := by
  rcases hr with ⟨run, hrun, hmem⟩ | ⟨run, hrun, m, hmem⟩
  · exact Or.inl ⟨run, hrun, (h.1 ⟨run, r.1, r.2⟩ hrun).mpr hmem⟩
  · exact Or.inr ⟨run, hrun, m, (h.2 ⟨run, m, r.1, r.2⟩ hrun).mpr hmem⟩

/-- Where there are no apostrophes the condition is needed. -/
theorem exportable_of_roundTrip (hsel : Selection tcl D.toTables runlist)
    (hquote : ∀ r, D.Row runlist r → '\'' ∉ r.2)
    (h : RoundTrip tcl shell sqlite3 file D.toTables runlist) : Exportable tcl D.toTables runlist := by
  obtain ⟨fuel, text, T', hexport, himport, hsame⟩ := h
  have hid := hsel.isRunId
  rw [exportFile] at hexport
  cases hmap : runlist.mapM (exportRun sqlite3 fuel D.toTables) with
  | error e => simp [hmap, bind, Except.bind] at hexport
  | ok lss =>
    simp only [hmap, bind, Except.bind] at hexport
    obtain rfl := Except.ok.inj hexport
    have hquiet := quiet_exportFile hid (fun r hr => (hsel.keys r hr).2) hquote hmap
    cases hread : importText tcl file ((header :: lss.flatten).flatMap (· ++ ['\n'])) with
    | error e =>
      rw [importFile, hread] at himport
      cases himport
    | ok inserts =>
      have hlit := importText_literal hquiet hread
      rw [importFile_eq shell hread (fun s hs => (hlit s hs).1) fun s hs _ => (hlit s hs).2.1] at himport
      obtain rfl := Except.ok.inj himport
      have hreadable : ∀ r, D.Row runlist r → testStart tcl r.1 = none ∧
          (∀ c ∈ r.2, c ∉ ['\r', '\x00']) ∧ ∀ c, r.2.head? = some c → tcl.space c = false := by
        intro r hr
        obtain ⟨s, hs, rfl⟩ := row_inserted (hsame.row hr)
        exact (hlit s hs).2.2
      have hplain : ∀ r, D.Row runlist r → Plain tcl r := by
        intro r hr
        obtain ⟨htest, hline, hstart⟩ := hreadable r hr
        exact hsel.plain hr hline hstart htest
      have hruns := fun run (hrun : run ∈ runlist) => plainRun_of hplain hrun
      have hlines : ∀ l ∈ lss.flatten, IsLine l := by
        intro l hl
        obtain ⟨ls, hls, hl⟩ := List.mem_flatten.mp hl
        obtain ⟨run, hrun, hok⟩ := mapM_mem hmap ls hls
        obtain ⟨n, ns, -, -, rfl, -⟩ := exportRun_spec (hruns run hrun) hok
        exact runLines_isLine (hruns run hrun) (hid run hrun) n ns l hl
      rw [importText_lines hlines] at hread
      obtain ⟨rfl, hnumbered⟩ := numbered_of_imports hid hruns hmap hread
      obtain rfl : allInserts D.toTables runlist = inserts :=
        Except.ok.inj ((importLines_allLines hid hruns).symm.trans hread)
      have htests : ∀ row ∈ D.testData, row.run ∈ runlist →
          1 ≤ row.number ∧ row.number ≤ (D.named row.run).length := by
        intro row hrow hrun
        exact (((tables_allInserts runlist D).2 row).mp ((hsame.2 row hrun).mpr hrow)).2.1
      refine ⟨?_, ?_, ?_⟩
      · intro r hr
        obtain ⟨htest, hline, hstart⟩ := hreadable r hr
        have hbar : '|' ∉ r.2 := by
          rcases hr with ⟨run, hrun, hmem⟩ | ⟨run, hrun, m, hmem⟩
          · exact (hnumbered run hrun).run_rows r (mem_runRows.mpr hmem)
          · obtain ⟨hm, hmn⟩ := htests _ hmem hrun
            exact ((hnumbered run hrun).tests m hm hmn).2 r (mem_testRows.mpr hmem)
        refine ⟨fun c hc hbad => ?_, hstart, htest⟩
        rcases List.mem_cons.mp hbad with rfl | hbad
        · exact hbar hc
        · exact hline c hc hbad
      · intro run hrun m
        constructor
        · rintro ⟨row, hrow, rfl, rfl⟩
          exact htests row hrow hrun
        · rintro ⟨hm, hmn⟩
          obtain ⟨r, hr⟩ := List.exists_mem_of_ne_nil _ ((hnumbered run hrun).tests m hm hmn).1
          exact ⟨_, mem_testRows.mp hr, rfl, rfl⟩
      · intro row hrow hrun
        exact hquote (row.key, row.value) (Or.inr ⟨row.run, hrun, row.number, hrow⟩)

end Necessity

section Sample

def hash : Str := List.replicate 64 'a'

theorem isRunId_hash : IsRunId hash := by constructor <;> decide

/-- A run with one test. -/
def sample (title : Str) : Database where
  runData := [⟨hash, "title".toList, title⟩]
  testData := [⟨hash, 1, testName, "insert".toList⟩, ⟨hash, 1, "duration".toList, "0.75".toList⟩]
  run_unique := by simp
  test_unique := by decide
  run_id := by
    intro row hrow
    obtain rfl := List.mem_singleton.mp hrow
    exact isRunId_hash
  test_id := by
    intro row hrow
    simp only [List.mem_cons, List.not_mem_nil, or_false] at hrow
    rcases hrow with rfl | rfl <;> exact isRunId_hash

theorem sample_row {title : Str} (hr : (sample title).Row [hash] r) :
    r = ("title".toList, title) ∨ r = (testName, "insert".toList) ∨ r = ("duration".toList, "0.75".toList) := by
  rcases hr with ⟨run, -, hmem⟩ | ⟨run, -, m, hmem⟩
  · obtain ⟨-, hkey, hvalue⟩ := RunRow.mk.inj (List.mem_singleton.mp hmem)
    exact Or.inl (Prod.ext hkey hvalue)
  · rcases List.mem_cons.mp hmem with hrow | hmem
    · obtain ⟨-, -, hkey, hvalue⟩ := TestRow.mk.inj hrow
      exact Or.inr (Or.inl (Prod.ext hkey hvalue))
    · obtain ⟨-, -, hkey, hvalue⟩ := TestRow.mk.inj (List.mem_singleton.mp hmem)
      exact Or.inr (Or.inr (Prod.ext hkey hvalue))

theorem sample_selection {title : Str} (h : '\n' ∉ title) :
    Selection ascii (sample title).toTables [hash] := by
  refine ⟨?_, ?_, ?_⟩
  · intro run hrun
    obtain rfl := List.mem_singleton.mp hrun
    exact ⟨_, List.mem_cons_self, rfl⟩
  · have hkeys : ["title".toList, testName, "duration".toList].all fun key =>
        key ≠ [] ∧ key.all (isKeyChar ascii) := by decide
    have hkey : ∀ key ∈ ["title".toList, testName, "duration".toList],
        key ≠ [] ∧ ∀ c ∈ key, isKeyChar ascii c = true :=
      fun key hkey => by simpa using List.all_eq_true.mp hkeys key hkey
    intro r hr
    rcases sample_row hr with rfl | rfl | rfl <;> exact hkey _ (by simp)
  · intro r hr
    rcases sample_row hr with rfl | rfl | rfl
    · exact h
    · decide
    · decide

end Sample

/-- Export and import give back the rows of runs that meet the condition; of runs without
apostrophes in their values they give back no others. -/
theorem export_import_iff (D : Database) (shell : Shell) (sqlite3 file : Str)
    (hsel : Selection tcl D.toTables runlist) :
    (Exportable tcl D.toTables runlist → RoundTrip tcl shell sqlite3 file D.toTables runlist) ∧
      ((∀ r, D.Row runlist r → '\'' ∉ r.2) → RoundTrip tcl shell sqlite3 file D.toTables runlist →
        Exportable tcl D.toTables runlist) :=
  ⟨roundTrip_of_exportable hsel, exportable_of_roundTrip hsel⟩

theorem export_import_iff_sample :
    RoundTrip ascii literalShell "sqlite3".toList "runs".toList (sample "two words".toList).toTables [hash] := by
  refine (export_import_iff _ _ _ _ (sample_selection (by decide))).1 ⟨?_, ?_, ?_⟩
  · intro r hr
    rcases sample_row hr with rfl | rfl | rfl <;> (constructor <;> simp <;> decide)
  · intro run hrun m
    obtain rfl := List.mem_singleton.mp hrun
    have hnamed : ((sample "two words".toList).named hash).length = 1 := by decide
    rw [hnamed]
    constructor
    · rintro ⟨row, hrow, -, rfl⟩
      simp only [sample, List.mem_cons, List.not_mem_nil, or_false] at hrow
      rcases hrow with rfl | rfl <;> decide
    · rintro ⟨hm, hmn⟩
      obtain rfl : m = 1 := by omega
      exact ⟨_, List.mem_cons_self, rfl, rfl⟩
  · intro row hrow _
    simp only [sample, List.mem_cons, List.not_mem_nil, or_false] at hrow
    rcases hrow with rfl | rfl <;> decide

/-- A title with a bar is not exported. -/
theorem title_with_bar :
    ¬ ∀ (tcl : Interpreter) (shell : Shell) (sqlite3 file : Str) (D : Database) (runlist : List Str),
      Selection tcl D.toTables runlist → RoundTrip tcl shell sqlite3 file D.toTables runlist := by
  intro h
  have hsel : Selection ascii (sample "a|b".toList).toTables [hash] := sample_selection (by decide)
  have hquote : ∀ r, (sample "a|b".toList).Row [hash] r → '\'' ∉ r.2 := by
    intro r hr
    rcases sample_row hr with rfl | rfl | rfl <;> decide
  have hexport := exportable_of_roundTrip hsel hquote (h ascii literalShell [] [] _ _ hsel)
  have hrow : (sample "a|b".toList).Row [hash] ("title".toList, "a|b".toList) :=
    Or.inl ⟨hash, List.mem_singleton_self hash, List.mem_cons_self⟩
  exact (hexport.rows _ hrow).cut '|' (by decide) (by decide)

end LumoSql.BenchmarkFilter
