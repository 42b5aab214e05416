import LumoSql.BenchmarkFiles

/-! Rows as lines: which rows `sqlite3` prints so that they are read back, and which lines of a
file give the rows they were written for. -/
namespace LumoSql.BenchmarkFilter
open Tcl

variable {tcl : Interpreter}

theorem isKeyChar_mark {c : Char} (hc : isKeyChar tcl c = true) : c ∉ ['|', '\'', '\n', '\r', '\x00'] := by
  intro hmark
  have hword := tcl.marks c hmark
  simp only [isKeyChar, hword, Bool.or_false, beq_iff_eq] at hc
  simp [hc] at hmark

theorem isKeyChar_space {c : Char} (hc : isKeyChar tcl c = true) : tcl.space c = false := by
  rw [isKeyChar, Bool.or_eq_true, beq_iff_eq] at hc
  cases hc with
  | inl hdash => rw [hdash, tcl.dash.2]
  | inr hword => exact tcl.word_space c hword

theorem space_not_key {c : Char} (hc : tcl.space c = true) : isKeyChar tcl c = false := by
  by_contra hkey
  simp [isKeyChar_space (Bool.of_not_eq_false hkey)] at hc

theorem space_not_digit {c : Char} (hc : tcl.space c = true) : tcl.digit c = false := by
  by_contra hdigit
  simp [tcl.word_space c (tcl.digit_word c (Bool.of_not_eq_false hdigit))] at hc

theorem space_not_dash {c : Char} (hc : tcl.space c = true) : c ≠ '-' := by
  rintro rfl
  simp [tcl.dash.2] at hc

/-- A row that can stand in a line of an exported file. -/
structure Plain (tcl : Interpreter) (r : Str × Str) : Prop where
  nonempty : r.1 ≠ []
  key : ∀ c ∈ r.1, isKeyChar tcl c = true
  not_test : testStart tcl r.1 = none
  value : ∀ c ∈ r.2, c ∉ ['\n', '\r', '\x00']
  start : ∀ c, r.2.head? = some c → tcl.space c = false

theorem takeWhile_append_stop {p : Char → Bool} {c : Char} (hc : p c = false) (s rest : Str) :
    (s ++ c :: rest).takeWhile p = s.takeWhile p := by
  induction s with
  | nil => simp [hc]
  | cons d s ih => simp only [List.cons_append, List.takeWhile_cons, ih]

/-- Whether a line starts a test is seen from what stands before the first blank. -/
theorem testStart_append {c : Char} (hc : tcl.space c = true) (key rest : Str) :
    testStart tcl (key ++ c :: rest) = testStart tcl key := by
  match key with
  | [] => simp [testStart, space_not_dash hc]
  | [a] =>
    have hline : testStart tcl [a] = none := by simp [testStart]
    rw [hline, List.singleton_append, testStart]
    intro rest' heq
    exact space_not_dash hc (List.cons.inj (List.cons.inj heq).2).1
  | a :: b :: key =>
    by_cases hdash : a = '-' ∧ b = '-'
    · obtain ⟨rfl, rfl⟩ := hdash
      simp only [List.cons_append, testStart, takeWhile_append_stop (space_not_digit hc)]
    · have hnone : ∀ s : Str, testStart tcl (a :: b :: s) = none := by
        intro s
        rw [testStart]
        rintro rest' heq
        obtain ⟨rfl, hb⟩ := List.cons.inj heq
        exact hdash ⟨rfl, (List.cons.inj hb).1⟩
      rw [List.cons_append, List.cons_append, hnone, hnone]

section Reading

variable {sqlite3 : Str} {r : Str × Str} {rows : List (Str × Str)}

theorem printed_eq {s : Str} (h : ∀ c ∈ s, c ≠ '\x00') : printed s = s := by
  rw [printed, List.takeWhile_eq_self_iff]
  simpa using h

theorem mem_printed {s : Str} {c : Char} (hc : c ∈ printed s) : c ∈ s ∧ c ≠ '\x00' :=
  ⟨List.takeWhile_subset _ hc, by simpa using List.mem_takeWhile_imp hc⟩

theorem Plain.printed (h : Plain tcl r) : printed r.1 = r.1 ∧ printed r.2 = r.2 := by
  constructor
  · refine printed_eq fun c hc => ?_
    rintro rfl
    exact isKeyChar_mark (h.key _ hc) (by simp)
  · refine printed_eq fun c hc => ?_
    rintro rfl
    exact h.value _ hc (by simp)

theorem Plain.isLine (h : Plain tcl r) : IsLine (r.1 ++ '|' :: r.2) := by
  constructor
  · intro hmem
    rcases List.mem_append.mp hmem with hmem | hmem
    · exact isKeyChar_mark (h.key _ hmem) (by simp)
    · rcases List.mem_cons.mp hmem with hmem | hmem
      · cases hmem
      · exact h.value _ hmem (by simp)
  · intro hmem
    rcases List.mem_append.mp hmem with hmem | hmem
    · exact isKeyChar_mark (h.key _ hmem) (by simp)
    · rcases List.mem_cons.mp hmem with hmem | hmem
      · cases hmem
      · exact h.value _ hmem (by simp)

/-- Plain rows are read line by line. -/
theorem readRows_plain (h : ∀ r ∈ rows, Plain tcl r) :
    readRows sqlite3 (listMode rows) = rows.mapM fun r => rowFields sqlite3 (r.1 ++ '|' :: r.2) := by
  have hprint : listMode rows = (rows.map fun r => r.1 ++ '|' :: r.2).flatMap (· ++ ['\n']) := by
    rw [listMode, List.flatMap_map]
    refine List.flatMap_congr fun r hr => ?_
    rw [(h r hr).printed.1, (h r hr).printed.2]
  rw [readRows, hprint, lines_flatMap, List.mapM_map]
  · rfl
  · intro l hl
    obtain ⟨r, hr, rfl⟩ := List.mem_map.mp hl
    exact (h r hr).isLine

theorem rowFields_ok (hkey : ∀ c ∈ r.1, isKeyChar tcl c = true) (hbar : '|' ∉ r.2) :
    rowFields sqlite3 (r.1 ++ '|' :: r.2) = .ok r := by
  have hsplit : split (· == '|') (r.1 ++ '|' :: r.2) = [r.1, r.2] := by
    rw [split, if_neg (by simp), List.splitOnP_append_cons_of_forall_mem _ _ (by simp),
      List.splitOnP_eq_singleton]
    · intro c hc
      rw [beq_eq_false_iff_ne]
      rintro rfl
      exact hbar hc
    · intro c hc
      rw [beq_eq_false_iff_ne]
      rintro rfl
      exact isKeyChar_mark (hkey _ hc) (by simp)
  rw [rowFields, hsplit]

theorem rowFields_bar {kv : Str × Str} (h : rowFields sqlite3 (r.1 ++ '|' :: r.2) = .ok kv) : '|' ∉ r.2 := by
  intro hbar
  obtain ⟨s, t, hst⟩ := List.append_of_mem hbar
  have hsplit : split (· == '|') (r.1 ++ '|' :: r.2) =
      r.1.splitOnP (· == '|') ++ (s.splitOnP (· == '|') ++ t.splitOnP (· == '|')) := by
    rw [split, if_neg (by simp), List.splitOnP_append_cons _ _ (by simp), hst,
      List.splitOnP_append_cons _ _ (by simp)]
  have hlen : ∀ u : Str, 0 < (u.splitOnP (· == '|')).length := fun u =>
    List.length_pos_iff.mpr (List.splitOnP_ne_nil _ u)
  have hr := hlen r.1
  have hs := hlen s
  have ht := hlen t
  rw [rowFields] at h
  split at h
  · next heq =>
    have := congrArg List.length (hsplit.symm.trans heq)
    simp only [List.length_append, List.length_cons, List.length_nil] at this
    omega
  · cases h

/-- The rows come back if no value has a bar in it. -/
theorem readRows_ok (h : ∀ r ∈ rows, Plain tcl r) (hbar : ∀ r ∈ rows, '|' ∉ r.2) :
    readRows sqlite3 (listMode rows) = .ok rows := by
  rw [readRows_plain h]
  induction rows with
  | nil => rfl
  | cons r rows ih =>
    rw [List.mapM_cons, rowFields_ok (h r (by simp)).key (hbar r (by simp)),
      ih (fun r hr => h r (by simp [hr])) fun r hr => hbar r (by simp [hr])]
    rfl

theorem readRows_bar (h : ∀ r ∈ rows, Plain tcl r) {rs : List (Str × Str)}
    (hread : readRows sqlite3 (listMode rows) = .ok rs) : ∀ r ∈ rows, '|' ∉ r.2 := by
  rw [readRows_plain h] at hread
  induction rows generalizing rs with
  | nil => simp
  | cons r rows ih =>
    rw [List.mapM_cons] at hread
    cases hr : rowFields sqlite3 (r.1 ++ '|' :: r.2) with
    | error e => simp [hr, bind, Except.bind] at hread
    | ok kv =>
      cases hrest : rows.mapM fun r => rowFields sqlite3 (r.1 ++ '|' :: r.2) with
      | error e => simp [hr, hrest, bind, Except.bind] at hread
      | ok rest =>
        intro r' hr'
        rcases List.mem_cons.mp hr' with rfl | hr'
        · exact rowFields_bar hr
        · exact ih (fun r hr => h r (by simp [hr])) hrest r' hr'

end Reading

end LumoSql.BenchmarkFilter
