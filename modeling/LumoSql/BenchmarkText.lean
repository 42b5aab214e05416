import LumoSql.BenchmarkDump
import LumoSql.BenchmarkShell

/-! What an import puts into the tables: the texts it takes from a file, the insertions it writes,
and the rows that are left where the indexes are unique. -/
namespace LumoSql.BenchmarkFilter
open Tcl

section Tables

variable {α κ : Type} [DecidableEq κ] {key : α → κ}

theorem mem_foldl_insertRow {start rows : List α} {row : α} (h : row ∈ rows.foldl (insertRow key) start) :
    row ∈ start ∨ row ∈ rows := by
  induction rows generalizing start with
  | nil => exact Or.inl h
  | cons a rows ih =>
    rcases ih h with hstart | hrows
    · rw [insertRow] at hstart
      split_ifs at hstart
      · exact Or.inl hstart
      · rcases List.mem_append.mp hstart with hstart | ha
        · exact Or.inl hstart
        · simp [List.mem_singleton.mp ha]
    · simp [hrows]

/-- The key of each row is there. -/
theorem exists_foldl_insertRow {start rows : List α} {row : α} (h : row ∈ start ∨ row ∈ rows) :
    ∃ other ∈ rows.foldl (insertRow key) start, key other = key row := by
  induction rows generalizing start row with
  | nil => exact ⟨row, by simpa using h, rfl⟩
  | cons a rows ih =>
    have hkeep : row ∈ start → row ∈ insertRow key start a := by
      intro hrow
      rw [insertRow]
      split_ifs <;> simp [hrow]
    rcases h with hstart | hrows
    · exact ih (Or.inl (hkeep hstart))
    · rcases List.mem_cons.mp hrows with rfl | hrows
      · by_cases hold : ∃ other ∈ start, key other = key row
        · obtain ⟨other, hother, hkey⟩ := hold
          obtain ⟨last, hlast, heq⟩ := ih (Or.inl hother)
          refine ⟨last, ?_, heq.trans hkey⟩
          rwa [List.foldl_cons, insertRow, if_pos ⟨other, hother, hkey⟩]
        · refine ih (Or.inl ?_)
          simp [insertRow, hold]
      · exact ih (Or.inr hrows)

/-- Where no two rows have one key, all rows are there. -/
theorem foldl_insertRow_iff {rows : List α} (h : ∀ a ∈ rows, ∀ b ∈ rows, key a = key b → a = b) {row : α} :
    row ∈ rows.foldl (insertRow key) [] ↔ row ∈ rows := by
  constructor
  · intro hrow
    simpa using mem_foldl_insertRow hrow
  · intro hrow
    have hexists : ∃ other ∈ rows.foldl (insertRow key) [], key other = key row :=
      exists_foldl_insertRow (Or.inr hrow)
    obtain ⟨other, hother, hkey⟩ := hexists
    have hmem : other ∈ rows := by simpa using mem_foldl_insertRow hother
    rwa [← h other hmem row hrow hkey]

/-- The rows for `run_data`. -/
def Insert.runRow (s : Insert) : Option RunRow := if s.num = 0 then some ⟨s.run, s.key, s.value⟩ else none

def Insert.testRow (s : Insert) : Option TestRow :=
  if s.num = 0 then none else some ⟨s.run, s.num, s.key, s.value⟩

theorem foldl_insert (ss : List Insert) (T : Tables) :
    ss.foldl Tables.insert T =
      ⟨(ss.filterMap Insert.runRow).foldl (insertRow RunRow.index) T.runData,
        (ss.filterMap Insert.testRow).foldl (insertRow TestRow.index) T.testData⟩ := by
  induction ss generalizing T with
  | nil => rfl
  | cons s ss ih =>
    rw [List.foldl_cons, ih, Tables.insert]
    by_cases hs : s.num = 0
    · simp [hs, Insert.runRow, Insert.testRow]
    · simp [hs, Insert.runRow, Insert.testRow]

end Tables

section Statements

/-- Without apostrophes in the values of tests the script inserts what was read. -/
theorem importFile_eq {tcl : Interpreter} {file text : Str} {inserts : List Insert} (shell : Shell)
    (hread : importText tcl file text = .ok inserts) (hlit : ∀ s ∈ inserts, s.Literal)
    (hquote : ∀ s ∈ inserts, s.num ≠ 0 → '\'' ∉ s.value) :
    importFile tcl file shell text = .ok (inserts.foldl Tables.insert ⟨[], []⟩) := by
  have hscript : importScript inserts =
      inserts.flatMap fun s => insertStatement s (quoted s.value) ++ ['\n'] := by
    rw [importScript]
    refine List.flatMap_congr fun s hs => ?_
    by_cases hnum : s.num = 0
    · rw [importStatement, if_pos hnum]
    · rw [importStatement, if_neg hnum, quoted_eq (hquote s hs hnum)]
  rw [importFile, hread, ← shell.inserts inserts hlit, ← hscript]
  rfl

end Statements

section Lines

variable {tcl : Interpreter} {line : Str}

theorem keyValue_spec {key value : Str} (h : keyValue tcl line = some (key, value)) :
    (∀ c ∈ key, isKeyChar tcl c = true) ∧ testStart tcl key = testStart tcl line ∧
      (∀ c ∈ key ++ value, c ∈ line) ∧ ∀ c, value.head? = some c → tcl.space c = false := by
  rw [keyValue] at h
  split at h
  · next c rest hdrop =>
    split_ifs at h with hc
    obtain ⟨rfl, rfl⟩ : line.takeWhile (isKeyChar tcl) = key ∧ (c :: rest).dropWhile tcl.space = value := by
      simpa using h
    have hline : line.takeWhile (isKeyChar tcl) ++ c :: rest = line := by
      rw [← hdrop, List.takeWhile_append_dropWhile]
    refine ⟨fun d hd => List.mem_takeWhile_imp hd, ?_, ?_, ?_⟩
    · rw [← testStart_append hc.2 _ rest, hline]
    · intro d hd
      rw [← hline, List.mem_append]
      rcases List.mem_append.mp hd with hd | hd
      · exact Or.inl hd
      · exact Or.inr (List.dropWhile_subset _ hd)
    · intro d hd
      have := List.head?_dropWhile_not tcl.space (c :: rest)
      simpa [hd] using this
  · cases h

/-- What is known of a row that comes from the lines `ls`. -/
structure FromLines (tcl : Interpreter) (ls : List Str) (s : Insert) : Prop where
  run : s.run.all isXdigit = true
  key : ∀ c ∈ s.key, isKeyChar tcl c = true
  not_test : testStart tcl s.key = none
  value : ∃ line ∈ ls, ∀ c ∈ s.value, c ∈ line
  start : ∀ c, s.value.head? = some c → tcl.space c = false

theorem FromLines.mono {ls ls' : List Str} {s : Insert} (h : FromLines tcl ls s) (hsub : ls ⊆ ls') :
    FromLines tcl ls' s :=
  ⟨h.run, h.key, h.not_test, by obtain ⟨l, hl, hs⟩ := h.value; exact ⟨l, hsub hl, hs⟩, h.start⟩

theorem importLines_mem {file : Str} {state : Option (Str × Str × ℕ)} {ls : List Str} {inserts : List Insert}
    (hstate : ∀ st, state = some st → st.1.all isXdigit = true)
    (h : importLines tcl file state ls = .ok inserts) : ∀ s ∈ inserts, FromLines tcl ls s := by
  induction ls generalizing state inserts with
  | nil =>
    obtain rfl : inserts = [] := by
      rcases state with _ | ⟨run, tests, num⟩
      · rw [importLines] at h
        exact (Except.ok.inj h).symm
      · rw [importLines] at h
        split_ifs at h
        exact (Except.ok.inj h).symm
    simp
  | cons line rest ih =>
    have hrest : ∀ {state' inserts'}, (∀ st, state' = some st → st.1.all isXdigit = true) →
        importLines tcl file state' rest = .ok inserts' → ∀ s ∈ inserts', FromLines tcl (line :: rest) s :=
      fun hstate' h' s hs => (ih hstate' h' s hs).mono (List.subset_cons_self line rest)
    rcases state with _ | ⟨run, tests, num⟩
    · rw [importLines] at h
      split at h
      · cases h
      · next run tests hstart =>
        refine hrest ?_ h
        rintro st ⟨rfl⟩
        simp only [runStart] at hstart
        split_ifs at hstart with hx
        split at hstart
        · split_ifs at hstart
          obtain ⟨rfl, -⟩ : line.take 64 = run ∧ _ = tests := by simpa using hstart
          exact hx.2
        · cases hstart
    · have hrun : run.all isXdigit = true := hstate _ rfl
      have hnext : ∀ num' : ℕ, ∀ st, some (run, tests, num') = some st → st.1.all isXdigit = true := by
        rintro num' st ⟨rfl⟩
        exact hrun
      rw [importLines] at h
      split_ifs at h with hnil hdiff
      · exact hrest (by simp) h
      · split at h
        · split_ifs at h
          exact hrest (hnext _) h
        · next htest =>
          split at h
          · next key value hkv =>
            cases htail : importLines tcl file (some (run, tests, num)) rest with
            | error e => simp [htail, bind, Except.bind] at h
            | ok tail =>
              simp only [htail, bind, Except.bind] at h
              obtain rfl := Except.ok.inj h
              intro s hs
              rcases List.mem_cons.mp hs with rfl | hs
              · obtain ⟨hkey, hsame, hmem, hstart⟩ := keyValue_spec hkv
                refine ⟨hrun, hkey, hsame.trans htest, ⟨line, by simp, ?_⟩, hstart⟩
                exact fun c hc => hmem c (by simp [hc])
              · exact hrest (hnext _) htail s hs
          · cases h

end Lines

section Export

variable {tcl : Interpreter} {sqlite3 : Str} {T : Tables} {run : Str}

/-- Texts without the characters that `sqlite3` takes for something else. -/
def Quiet (s : Str) : Prop := ∀ c ∈ s, c ≠ '\'' ∧ c ≠ '\x00'

/-- Rows that are read out of a text. -/
theorem readRows_mem {text : Str} {rows : List (Str × Str)} (h : readRows sqlite3 text = .ok rows) :
    ∀ r ∈ rows, ∀ c ∈ r.1 ++ r.2, c ∈ text := by
  intro r hr c hc
  obtain ⟨l, hl, hfields⟩ := mapM_mem h r hr
  refine (linesFrom_mem hl).2 c ?_
  rw [rowFields] at hfields
  split at hfields
  · next key value hsplit =>
    obtain rfl := Except.ok.inj hfields
    rcases List.mem_append.mp hc with hc | hc
    · exact (split_mem (hsplit ▸ by simp : key ∈ split (· == '|') l) hc).1
    · exact (split_mem (hsplit ▸ by simp : value ∈ split (· == '|') l) hc).1
  · cases hfields

/-- The keys and the values are without apostrophes. -/
def QuietRows (tcl : Interpreter) (rows : List (Str × Str)) : Prop :=
  ∀ r ∈ rows, (∀ c ∈ r.1, isKeyChar tcl c = true) ∧ '\'' ∉ r.2

theorem quiet_listMode {rows : List (Str × Str)} (h : QuietRows tcl rows) : Quiet (listMode rows) := by
  intro c hc
  obtain ⟨r, hr, hc⟩ := List.mem_flatMap.mp hc
  have hkey : c ∈ printed r.1 → c ≠ '\'' ∧ c ≠ '\x00' := by
    intro hc
    refine ⟨?_, (mem_printed hc).2⟩
    rintro rfl
    exact isKeyChar_mark ((h r hr).1 _ (mem_printed hc).1) (by simp)
  have hvalue : c ∈ printed r.2 → c ≠ '\'' ∧ c ≠ '\x00' := by
    intro hc
    refine ⟨?_, (mem_printed hc).2⟩
    rintro rfl
    exact (h r hr).2 (mem_printed hc).1
  simp only [List.mem_append, List.mem_cons, List.not_mem_nil, or_false] at hc
  rcases hc with (hc | rfl | hc) | rfl
  · exact hkey hc
  · decide
  · exact hvalue hc
  · decide

theorem quiet_keyLines {text : Str} (h : Quiet text) {rows : List (Str × Str)}
    (hread : readRows sqlite3 text = .ok rows) : ∀ l ∈ keyLines rows, Quiet l := by
  intro l hl c hc
  obtain ⟨r, hr, rfl⟩ := List.mem_map.mp hl
  rcases List.mem_append.mp hc with hc | hc
  · exact h c (readRows_mem hread r hr c (by simp [hc]))
  · rcases List.mem_cons.mp hc with rfl | hc
    · decide
    · exact h c (readRows_mem hread r hr c (by simp [hc]))

theorem quiet_decimal (n : ℕ) : Quiet (decimal n) := by
  intro c hc
  have hdigit : c.isDigit = true := Nat.isDigit_of_mem_toDigits (by decide) (by decide) hc
  constructor <;> (rintro rfl; exact absurd hdigit (by decide))

theorem quiet_exportTests (h : ∀ m, QuietRows tcl (T.testRows run m)) {n fuel tn tc : ℕ} {ls : List Str}
    (hok : exportTests sqlite3 T run n fuel tn tc = .ok ls) : ∀ l ∈ ls, Quiet l := by
  induction fuel generalizing tn tc ls with
  | zero =>
    rw [exportTests] at hok
    split_ifs at hok
    obtain rfl := Except.ok.inj hok
    simp
  | succ fuel ih =>
    rw [exportTests] at hok
    split_ifs at hok
    · obtain rfl := Except.ok.inj hok
      simp
    · cases hdata : getTestData sqlite3 T run tn with
      | error e => simp [hdata, bind, Except.bind] at hok
      | ok tdata =>
        simp only [hdata, bind, Except.bind] at hok
        split_ifs at hok
        · exact ih hok
        · cases hrest : exportTests sqlite3 T run n fuel (tn + 1) (tc + 1) with
          | error e => simp [hrest] at hok
          | ok rest =>
            simp only [hrest] at hok
            obtain rfl := Except.ok.inj hok
            intro l hl
            simp only [List.cons_append, List.mem_cons, List.mem_append] at hl
            rcases hl with rfl | hl | hl
            · intro c hc
              simp only [List.mem_cons] at hc
              rcases hc with rfl | rfl | hc
              · decide
              · decide
              · exact quiet_decimal tn c hc
            · exact quiet_keyLines (quiet_listMode (h tn)) hdata l hl
            · exact ih hrest l hl

theorem isRunId_quiet (hrun : IsRunId run) : Quiet run := by
  intro c hc
  have hx := List.all_eq_true.mp hrun.2 c hc
  constructor <;> (rintro rfl; exact absurd hx (by decide))

theorem quiet_exportRun (hid : IsRunId run) (hrun : QuietRows tcl (T.runRows run))
    (htest : ∀ m, QuietRows tcl (T.testRows run m)) {fuel : ℕ} {ls : List Str}
    (hok : exportRun sqlite3 fuel T run = .ok ls) : ∀ l ∈ ls, Quiet l := by
  rw [exportRun] at hok
  cases hn : T.nTests run with
  | none => simp [hn] at hok
  | some n =>
    cases hdata : getRunData sqlite3 T run with
    | error e => simp [hn, hdata, bind, Except.bind] at hok
    | ok rd =>
      cases htests : exportTests sqlite3 T run n fuel 1 0 with
      | error e => simp [hn, hdata, htests, bind, Except.bind] at hok
      | ok tests =>
        simp only [hn, hdata, htests, bind, Except.bind] at hok
        obtain rfl := Except.ok.inj hok
        intro l hl
        simp only [List.cons_append, List.append_assoc, List.mem_cons, List.mem_append, List.not_mem_nil,
          or_false] at hl
        rcases hl with rfl | hl | hl | rfl
        · intro c hc
          rcases List.mem_append.mp hc with hc | hc
          · exact isRunId_quiet hid c hc
          · rcases List.mem_cons.mp hc with rfl | hc
            · decide
            · exact quiet_decimal n c hc
        · exact quiet_keyLines (quiet_listMode hrun) hdata l hl
        · exact quiet_exportTests htest htests l hl
        · simp [Quiet]

end Export

end LumoSql.BenchmarkFilter
