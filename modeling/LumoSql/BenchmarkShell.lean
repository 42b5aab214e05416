import LumoSql.BenchmarkFiles

/-! A shell that runs scripts of insertions, and an interpreter for texts in ASCII. -/
namespace LumoSql.BenchmarkFilter
open Tcl

/-- An interpreter that knows the characters of ASCII. -/
def ascii : Interpreter where
  word c := c.isAlphanum || c == '_'
  space c := [' ', '\t', '\n', '\r', '\x0b', '\x0c'].contains c
  digit := Char.isDigit
  differs n s := n ≠ Nat.ofDigitChars 10 s 0
  digit_word c hc := by simp [Char.isAlphanum, hc]
  word_space c hc := by
    by_contra hspace
    simp only [Bool.not_eq_false, List.contains_iff_mem, List.mem_cons, List.not_mem_nil, or_false] at hspace
    rcases hspace with rfl | rfl | rfl | rfl | rfl | rfl <;> exact absurd hc (by decide)
  isDigit_digit _ hc := hc
  blank_space := by decide
  dash := by decide
  marks c hc := by
    simp only [List.mem_cons, List.not_mem_nil, or_false] at hc
    rcases hc with rfl | rfl | rfl | rfl | rfl <;> rfl
  differs_decimal n m := by simp [decimal, Nat.ofDigitChars_toDigits]

/-- The rest of a string literal, behind its first apostrophe, and what follows it. -/
def readLiteral : Str → Option (Str × Str)
  | [] => none
  | '\'' :: '\'' :: s => (readLiteral s).map fun r => ('\'' :: r.1, r.2)
  | '\'' :: s => some ([], s)
  | c :: s => (readLiteral s).map fun r => (c :: r.1, r.2)

/-- What follows the number of a test or the run in a statement. -/
def readColumns (s : Str) : Option (Str × Str × Str) := do
  let (key, s) ← readLiteral (← s.dropPrefix? ", '".toList)
  let (value, s) ← readLiteral (← s.dropPrefix? ", '".toList)
  pure (key, value, ← s.dropPrefix? ");\n".toList)

def readInsert (s : Str) : Option (Insert × Str) :=
  match s.dropPrefix? runInto with
  | some s => do
    let (run, s) ← readLiteral s
    let (key, value, s) ← readColumns s
    pure (⟨run, 0, key, value⟩, s)
  | none => do
    let (run, s) ← readLiteral (← s.dropPrefix? testInto)
    let s ← s.dropPrefix? ", ".toList
    let (key, value, rest) ← readColumns (s.dropWhile Char.isDigit)
    pure (⟨run, Nat.ofDigitChars 10 (s.takeWhile Char.isDigit) 0, key, value⟩, rest)

/-- The insertions a script starts with. -/
def readInserts : ℕ → Str → List Insert
  | 0, _ => []
  | fuel + 1, s =>
    match readInsert s with
    | some (insert, rest) => insert :: readInserts fuel rest
    | none => []

section Reading

theorem quoted_eq {value : Str} (h : '\'' ∉ value) : quoted value = value := by
  rw [quoted]
  induction value with
  | nil => rfl
  | cons c value ih =>
    rw [List.mem_cons, not_or] at h
    rw [List.flatMap_cons, if_neg (Ne.symm h.1), ih h.2]
    rfl

theorem readLiteral_quoted (value : Str) {rest : Str} (h : rest.head? ≠ some '\'') :
    readLiteral (quoted value ++ '\'' :: rest) = some (value, rest) := by
  induction value with
  | nil =>
    cases rest with
    | nil => rfl
    | cons c rest =>
      have hc : c ≠ '\'' := by simpa using h
      simp [quoted, readLiteral, hc]
  | cons c value ih =>
    rw [quoted] at ih ⊢
    rw [List.flatMap_cons]
    by_cases hc : c = '\''
    · simp [hc, readLiteral, ih]
    · simp [hc, readLiteral, ih]

theorem readLiteral_plain {value rest : Str} (hvalue : '\'' ∉ value) (h : rest.head? ≠ some '\'') :
    readLiteral (value ++ '\'' :: rest) = some (value, rest) := by
  have hread := readLiteral_quoted value h
  rwa [quoted_eq hvalue] at hread

theorem dropPrefix_append (p s : Str) : (p ++ s).dropPrefix? p = some s :=
  List.dropPrefix?_eq_some_iff.mpr ⟨p, rfl, beq_self_eq_true p⟩

theorem readColumns_append {key : Str} (hkey : '\'' ∉ key) (value rest : Str) :
    readColumns (", '".toList ++ (key ++ '\'' :: (", '".toList ++ (quoted value ++ '\'' ::
      (");\n".toList ++ rest))))) = some (key, value, rest) := by
  have hcomma : ∀ s : Str, (", '".toList ++ s).head? ≠ some '\'' := by simp
  have hend : ∀ s : Str, (");\n".toList ++ s).head? ≠ some '\'' := by simp
  rw [readColumns, dropPrefix_append]
  simp only [bind, Option.bind, readLiteral_plain hkey (hcomma _), dropPrefix_append,
    readLiteral_quoted value (hend rest)]
  rfl

theorem readInsert_statement {s : Insert} (hs : s.Literal) (rest : Str) :
    readInsert (insertStatement s (quoted s.value) ++ ['\n'] ++ rest) = some (s, rest) := by
  have hquote : '\'' ∉ s.run ∧ '\'' ∉ s.key := by simpa using hs.2
  have hcolumns := readColumns_append hquote.2 s.value rest
  have hcomma : ∀ s : Str, (", ".toList ++ s).head? ≠ some '\'' := by simp
  have hcomma' : ∀ s : Str, (", '".toList ++ s).head? ≠ some '\'' := by simp
  have hsep : "', '".toList = '\'' :: ", '".toList := rfl
  have hnumber : "', ".toList = '\'' :: ", ".toList := rfl
  have hclose : "');".toList = '\'' :: ");".toList := rfl
  have hnewline : ");\n".toList = ");".toList ++ ['\n'] := rfl
  rw [hnewline] at hcolumns
  obtain ⟨run, num, key, value⟩ := s
  by_cases hnum : num = 0
  · subst hnum
    have hform : insertStatement ⟨run, 0, key, value⟩ (quoted value) ++ ['\n'] ++ rest =
        runInto ++ (run ++ '\'' :: (", '".toList ++ (key ++ '\'' :: (", '".toList ++ (quoted value ++ '\'' ::
          (");".toList ++ ['\n'] ++ rest)))))) := by
      rw [insertStatement, if_pos rfl]
      simp only [hsep, hclose, List.append_assoc, List.cons_append, List.nil_append]
    rw [hform, readInsert, dropPrefix_append]
    simp only [bind, Option.bind, readLiteral_plain hquote.1 (hcomma' _), hcolumns]
    rfl
  · have hform : insertStatement ⟨run, num, key, value⟩ (quoted value) ++ ['\n'] ++ rest =
        testInto ++ (run ++ '\'' :: (", ".toList ++ (decimal num ++ (", '".toList ++ (key ++ '\'' ::
          (", '".toList ++ (quoted value ++ '\'' :: (");".toList ++ ['\n'] ++ rest)))))))) := by
      rw [insertStatement, if_neg hnum]
      simp only [hsep, hnumber, hclose, List.append_assoc, List.cons_append,
        List.nil_append]
    have hdigits : ∀ c ∈ decimal num, c.isDigit = true := fun c hc =>
      Nat.isDigit_of_mem_toDigits (by decide) (by decide) hc
    have hother : ∀ s : Str, (testInto ++ s).dropPrefix? runInto = none := fun _ => rfl
    have htake : ∀ s : Str, (decimal num ++ (", '".toList ++ s)).takeWhile Char.isDigit = decimal num := by
      intro s
      rw [List.takeWhile_append_of_pos hdigits]
      exact List.append_nil _
    have hdrop : ∀ s : Str, (decimal num ++ (", '".toList ++ s)).dropWhile Char.isDigit = ", '".toList ++ s := by
      intro s
      rw [List.dropWhile_append_of_pos hdigits]
      rfl
    have hvalue : Nat.ofDigitChars 10 (decimal num) 0 = num :=
      Nat.ofDigitChars_toDigits (by decide) (by decide)
    rw [hform, readInsert, hother]
    simp only [bind, Option.bind, dropPrefix_append, readLiteral_plain hquote.1 (hcomma _), htake, hdrop, hcolumns,
      hvalue]
    rfl

theorem readInserts_statements {ss : List Insert} (h : ∀ s ∈ ss, s.Literal) {fuel : ℕ} (hfuel : ss.length ≤ fuel) :
    readInserts fuel (ss.flatMap fun s => insertStatement s (quoted s.value) ++ ['\n']) = ss := by
  induction ss generalizing fuel with
  | nil => cases fuel <;> rfl
  | cons s ss ih =>
    obtain ⟨fuel, rfl⟩ := Nat.exists_eq_add_one_of_ne_zero (Nat.ne_of_gt (Nat.lt_of_lt_of_le ss.length.succ_pos hfuel))
    rw [List.flatMap_cons, readInserts, readInsert_statement (h s (by simp))]
    simp only [ih (fun s hs => h s (by simp [hs])) (Nat.le_of_succ_le_succ hfuel)]

end Reading

/-- The shell that takes a script for a list of insertions. -/
def literalShell : Shell where
  run script := (readInserts script.length script).foldl Tables.insert ⟨[], []⟩
  inserts ss h := by
    rw [readInserts_statements h]
    rw [List.length_flatMap]
    induction ss with
    | nil => simp
    | cons s ss ih =>
      have ih := ih fun s hs => h s (by simp [hs])
      rw [List.map_cons, List.sum_cons, List.length_cons, List.length_append, List.length_singleton]
      omega

end LumoSql.BenchmarkFilter
