import Mathlib.Data.List.Basic

/-! The string commands of Tcl that take a list apart: `split`, `join` and `string map`, and
what a pair of maps that escapes a separator and brings it back does to them. -/
namespace LumoSql.Tcl

abbrev Str := List Char

/-- The white space `split` divides at when it is given no characters. -/
def isSpace (c : Char) : Bool := c == ' ' || c == '\t' || c == '\n' || c == '\r'

/-- The empty string has no elements. -/
def split (p : Char → Bool) (s : Str) : List Str := if s = [] then [] else s.splitOnP p

def join (ls : List Str) : Str := [' '].intercalate ls

/-- `string map`, while the next characters have been replaced already. -/
def mapFrom (table : List (Str × Str)) : ℕ → Str → Str
  | _, [] => []
  | n + 1, _ :: s => mapFrom table n s
  | 0, c :: s =>
    match table.find? fun kv => kv.1.isPrefixOf (c :: s) with
    | some kv => kv.2 ++ mapFrom table (kv.1.length - 1) s
    | none => c :: mapFrom table 0 s

/-- The first key that fits is replaced at each place. -/
def stringMap (table : List (Str × Str)) (s : Str) : Str := mapFrom table 0 s

/-- The lines of a text; after a carriage return a line feed ends no other line. -/
def linesFrom (afterReturn : Bool) : Str → List Str
  | [] => []
  | c :: s =>
    if c = '\n' then if afterReturn then linesFrom false s else [] :: linesFrom false s
    else if c = '\r' then [] :: linesFrom true s
    else match linesFrom false s with
      | [] => [[c]]
      | l :: ls => (c :: l) :: ls

/-- What `gets` returns one after the other: a line ends at a line feed, a carriage return or both. -/
def lines (s : Str) : List Str := linesFrom false s

section Split

variable {p : Char → Bool}

theorem split_mem {s x : Str} (hx : x ∈ split p s) {c : Char} (hc : c ∈ x) : c ∈ s ∧ p c = false := by
  rw [split] at hx
  split_ifs at hx with hnil
  · cases hx
  · clear hnil
    induction s generalizing x with
    | nil =>
      rw [List.splitOnP_nil, List.mem_singleton] at hx
      rw [hx] at hc
      cases hc
    | cons a s ih =>
      rw [List.splitOnP_cons_eq_if_modifyHead] at hx
      split_ifs at hx with ha
      · rcases List.mem_cons.mp hx with rfl | hx
        · cases hc
        · have := ih hc hx
          exact ⟨List.mem_cons_of_mem a this.1, this.2⟩
      · obtain ⟨y, ys, hys⟩ := List.exists_cons_of_ne_nil (List.splitOnP_ne_nil p s)
        rw [hys] at hx ih
        rcases List.mem_cons.mp hx with rfl | hx
        · rcases List.mem_cons.mp hc with rfl | hc
          · exact ⟨List.mem_cons_self, by simpa using ha⟩
          · have := ih hc List.mem_cons_self
            exact ⟨List.mem_cons_of_mem a this.1, this.2⟩
        · have := ih hc (List.mem_cons_of_mem y hx)
          exact ⟨List.mem_cons_of_mem a this.1, this.2⟩

/-- Words that hold no separator come back. -/
theorem splitOnP_intercalate {sep : Char} (hsep : p sep = true) {x : Str} {ls : List Str}
    (hx : ∀ c ∈ x, p c = false) (h : ∀ l ∈ ls, ∀ c ∈ l, p c = false) :
    (x ++ ls.flatMap (sep :: ·)).splitOnP p = x :: ls := by
  induction ls generalizing x with
  | nil => rw [List.flatMap_nil, List.append_nil, List.splitOnP_eq_singleton hx]
  | cons l ls ih =>
    rw [List.flatMap_cons, List.cons_append, List.splitOnP_append_cons_of_forall_mem hx sep hsep,
      ih (h l List.mem_cons_self) fun m hm => h m (List.mem_cons_of_mem l hm)]

theorem intercalate_cons (sep : Char) (x : Str) (ls : List Str) :
    [sep].intercalate (x :: ls) = x ++ ls.flatMap (sep :: ·) := by
  induction ls generalizing x with
  | nil => simp
  | cons l ls ih => rw [List.intercalate_cons_cons, ih, List.flatMap_cons]; simp

/-- Replacing single characters that are no separators, by some that are none. -/
theorem splitOnP_flatMap {f : Char → Str} (hsep : ∀ c, p c = true → f c = [c])
    (hother : ∀ c, p c = false → ∀ d ∈ f c, p d = false) (s : Str) :
    (s.flatMap f).splitOnP p = (s.splitOnP p).map (List.flatMap f) := by
  induction s with
  | nil => rfl
  | cons c s ih =>
    rw [List.flatMap_cons, List.splitOnP_cons_eq_if_modifyHead]
    by_cases hc : p c = true
    · rw [hsep c hc, List.singleton_append, List.splitOnP_cons_eq_if_modifyHead, if_pos hc, if_pos hc, ih]
      rfl
    · rw [if_neg hc]
      have hf := hother c (by simpa using hc)
      obtain ⟨y, ys, hys⟩ := List.exists_cons_of_ne_nil (List.splitOnP_ne_nil p s)
      have hgoal : ∀ g : Str, (∀ d ∈ g, p d = false) →
          (g ++ s.flatMap f).splitOnP p = (g ++ y.flatMap f) :: ys.map (List.flatMap f) := by
        intro g hg
        induction g with
        | nil => rw [List.nil_append, ih, hys]; rfl
        | cons d g ihg =>
          rw [List.cons_append, List.splitOnP_cons_eq_if_modifyHead, hg d List.mem_cons_self,
            ihg fun e he => hg e (List.mem_cons_of_mem d he)]
          rfl
      rw [hgoal (f c) hf, hys]
      rfl

end Split

section Escapes

/-- The escape of `x` behind a backslash, with `:` as the mark. -/
def escapes (x y : Char) : List (Str × Str) := [([':'], [':', 'c']), (['\\', x], [':', y])]

/-- A colon becomes two characters. -/
def escapeColon (c : Char) : Str := if c = ':' then [':', 'c'] else [c]

/-- Where there is no backslash nothing but colons is escaped. -/
theorem stringMap_escapes (x y : Char) {s : Str} (h : '\\' ∉ s) :
    stringMap (escapes x y) s = s.flatMap escapeColon := by
  rw [stringMap]
  induction s with
  | nil => rfl
  | cons c s ih =>
    have hc : ¬ '\\' = c := fun he => h (he ▸ List.mem_cons_self)
    have ih := ih fun hs => h (List.mem_cons_of_mem c hs)
    by_cases hcolon : c = ':'
    · subst hcolon
      rw [mapFrom, List.flatMap_cons, ← ih]
      rfl
    · have hcolon' : ¬ ':' = c := fun he => hcolon he.symm
      have hnone : ((escapes x y).find? fun kv => kv.1.isPrefixOf (c :: s)) = none := by
        simp [escapes, List.isPrefixOf, hcolon', hc]
      rw [mapFrom, hnone, List.flatMap_cons, escapeColon, if_neg hcolon, ← ih]
      rfl

/-- What brings the escaped characters back. -/
structure Unescapes (table : List (Str × Str)) : Prop where
  colon : ∀ s, (table.find? fun kv => kv.1.isPrefixOf (':' :: 'c' :: s)) = some ([':', 'c'], [':'])
  other : ∀ c s, c ≠ ':' → (table.find? fun kv => kv.1.isPrefixOf (c :: s)) = none

theorem stringMap_unescape {table : List (Str × Str)} (h : Unescapes table) (s : Str) :
    stringMap table (s.flatMap escapeColon) = s := by
  rw [stringMap]
  induction s with
  | nil => rfl
  | cons c s ih =>
    rw [List.flatMap_cons, escapeColon]
    split_ifs with hcolon
    · rw [List.cons_append, List.singleton_append, mapFrom, h.colon, hcolon]
      exact congrArg (':' :: ·) ih
    · rw [List.singleton_append, mapFrom, h.other c _ hcolon, ih]

theorem flatMap_escapeColon_nil {s : Str} : s.flatMap escapeColon = [] ↔ s = [] := by
  cases s with
  | nil => simp
  | cons c s =>
    rw [List.flatMap_cons, escapeColon]
    split_ifs <;> simp

/-- Splitting what has been escaped. -/
theorem split_escapes {p : Char → Bool} (x y : Char) (hcolon : p ':' = false) (hc : p 'c' = false)
    {s : Str} (hs : '\\' ∉ s) :
    split p (stringMap (escapes x y) s) = (split p s).map (List.flatMap escapeColon) := by
  rw [stringMap_escapes x y hs, split, split]
  by_cases hnil : s = []
  · rw [hnil]
    rfl
  rw [if_neg hnil, if_neg (mt flatMap_escapeColon_nil.mp hnil), splitOnP_flatMap]
  · intro c hp
    rw [escapeColon, if_neg]
    rintro rfl
    rw [hcolon] at hp
    cases hp
  · intro c hp d hd
    rw [escapeColon] at hd
    split_ifs at hd with hcol
    · rcases List.mem_cons.mp hd with rfl | hd
      · exact hcolon
      · rw [List.mem_singleton.mp hd]
        exact hc
    · rw [List.mem_singleton.mp hd]
      exact hp

/-- Splitting between the two maps is splitting. -/
theorem split_escaped {p : Char → Bool} (x y : Char) {table : List (Str × Str)} (h : Unescapes table)
    (hcolon : p ':' = false) (hc : p 'c' = false) {s : Str} (hs : '\\' ∉ s) :
    (split p (stringMap (escapes x y) s)).map (stringMap table) = split p s := by
  have hback : stringMap table ∘ List.flatMap escapeColon = id :=
    funext fun s => stringMap_unescape h s
  rw [split_escapes x y hcolon hc hs, List.map_map, hback, List.map_id]

/-- The words that are left when the empty ones are dropped between the two maps. -/
theorem words_escaped {p : Char → Bool} (x y : Char) {table : List (Str × Str)} (h : Unescapes table)
    (hcolon : p ':' = false) (hc : p 'c' = false) {s : Str} (hs : '\\' ∉ s) :
    ((split p (stringMap (escapes x y) s)).filter (· ≠ [])).map (stringMap table) =
      (split p s).filter (· ≠ []) := by
  have hback : stringMap table ∘ List.flatMap escapeColon = id :=
    funext fun s => stringMap_unescape h s
  have hkeep : (fun s : Str => decide (s ≠ [])) ∘ List.flatMap escapeColon = fun s => decide (s ≠ []) :=
    funext fun s => decide_eq_decide.mpr (not_congr flatMap_escapeColon_nil)
  rw [split_escapes x y hcolon hc hs, List.filter_map, List.map_map, hback, List.map_id, hkeep]

end Escapes

/-- The words of a joined list. -/
theorem words_join {names : List Str} (h : ∀ name ∈ names, ∀ c ∈ name, isSpace c = false) :
    (split isSpace (join names)).filter (· ≠ []) = names.filter (· ≠ []) := by
  cases names with
  | nil => rfl
  | cons x names =>
    rw [join, intercalate_cons, split]
    split_ifs with hnil
    · obtain ⟨rfl, hrest⟩ := List.append_eq_nil_iff.mp hnil
      have hnames : names = [] := by
        cases names with
        | nil => rfl
        | cons l ls => simp at hrest
      rw [hnames]
      rfl
    · rw [splitOnP_intercalate rfl (h x List.mem_cons_self) fun l hl => h l (List.mem_cons_of_mem x hl)]

section Lines

/-- A line without an end in it. -/
def IsLine (l : Str) : Prop := '\n' ∉ l ∧ '\r' ∉ l

theorem lines_append {l : Str} (h : IsLine l) (s : Str) : lines (l ++ '\n' :: s) = l :: lines s := by
  rw [lines]
  induction l with
  | nil => rfl
  | cons c l ih =>
    have hn : c ≠ '\n' := fun he => h.1 (he ▸ List.mem_cons_self)
    have hr : c ≠ '\r' := fun he => h.2 (he ▸ List.mem_cons_self)
    rw [List.cons_append, linesFrom, if_neg hn, if_neg hr,
      ih ⟨fun hm => h.1 (List.mem_cons_of_mem c hm), fun hm => h.2 (List.mem_cons_of_mem c hm)⟩]

/-- What was written line by line is read line by line. -/
theorem lines_flatMap {ls : List Str} (h : ∀ l ∈ ls, IsLine l) :
    lines (ls.flatMap (· ++ ['\n'])) = ls := by
  induction ls with
  | nil => rfl
  | cons l ls ih =>
    rw [List.flatMap_cons, List.append_assoc, List.singleton_append,
      lines_append (h l List.mem_cons_self), ih fun m hm => h m (List.mem_cons_of_mem l hm)]

/-- Lines have no end in them, and their characters are those of the text. -/
theorem linesFrom_mem {afterReturn : Bool} {s l : Str} (hl : l ∈ linesFrom afterReturn s) :
    IsLine l ∧ ∀ c ∈ l, c ∈ s := by
  induction s generalizing afterReturn l with
  | nil => cases hl
  | cons c s ih =>
    have hrest : ∀ {afterReturn : Bool}, l ∈ linesFrom afterReturn s → IsLine l ∧ ∀ d ∈ l, d ∈ c :: s :=
      fun hl => ⟨(ih hl).1, fun d hd => List.mem_cons_of_mem c ((ih hl).2 d hd)⟩
    have hempty : l = [] → IsLine l ∧ ∀ d ∈ l, d ∈ c :: s := by
      rintro rfl
      exact ⟨⟨List.not_mem_nil, List.not_mem_nil⟩, fun d hd => absurd hd List.not_mem_nil⟩
    rw [linesFrom] at hl
    split_ifs at hl with hn hr hr
    · exact hrest hl
    · rcases List.mem_cons.mp hl with hl | hl
      · exact hempty hl
      · exact hrest hl
    · rcases List.mem_cons.mp hl with hl | hl
      · exact hempty hl
      · exact hrest hl
    · have hhead : ∀ {m : Str}, IsLine m → (∀ d ∈ m, d ∈ s) →
          IsLine (c :: m) ∧ ∀ d ∈ c :: m, d ∈ c :: s := by
        refine fun hm hmem => ⟨⟨?_, ?_⟩, fun d hd => ?_⟩
        · rw [List.mem_cons, not_or]
          exact ⟨Ne.symm hn, hm.1⟩
        · rw [List.mem_cons, not_or]
          exact ⟨Ne.symm hr, hm.2⟩
        · rcases List.mem_cons.mp hd with rfl | hd
          · exact List.mem_cons_self
          · exact List.mem_cons_of_mem c (hmem d hd)
      cases hls : linesFrom false s with
      | nil =>
        rw [hls] at hl
        rw [List.mem_singleton.mp hl]
        exact hhead ⟨List.not_mem_nil, List.not_mem_nil⟩ fun d hd => absurd hd List.not_mem_nil
      | cons m ms =>
        rw [hls] at hl
        rcases List.mem_cons.mp hl with rfl | hl
        · obtain ⟨hline, hmem⟩ := ih (hls ▸ List.mem_cons_self)
          exact hhead hline hmem
        · exact hrest (hls ▸ List.mem_cons_of_mem m hl)

end Lines

section Folds

variable {ε α β : Type} {P : β → Prop} {f : β → α → Except ε β}

/-- What each step keeps holds when all have succeeded. -/
theorem foldlM_keeps {l : List α} {b b' : β}
    (hstep : ∀ b a b', a ∈ l → P b → f b a = .ok b' → P b') (hb : P b)
    (h : l.foldlM f b = .ok b') : P b' := by
  induction l generalizing b with
  | nil =>
    obtain rfl := Except.ok.inj h
    exact hb
  | cons a l ih =>
    rw [List.foldlM_cons] at h
    cases hone : f b a with
    | error e =>
      rw [hone] at h
      cases h
    | ok next =>
      rw [hone] at h
      exact ih (fun b a b' ha => hstep b a b' (List.mem_cons_of_mem _ ha))
        (hstep b a next List.mem_cons_self hb hone) h

/-- Each result is that of an element. -/
theorem mapM_mem {f : α → Except ε β} {l : List α} {bs : List β} (h : l.mapM f = .ok bs) :
    ∀ b ∈ bs, ∃ a ∈ l, f a = .ok b := by
  induction l generalizing bs with
  | nil =>
    obtain rfl : [] = bs := Except.ok.inj h
    simp
  | cons a l ih =>
    rw [List.mapM_cons] at h
    cases hone : f a with
    | error e => simp [hone, bind, Except.bind] at h
    | ok first =>
      cases hrest : l.mapM f with
      | error e => simp [hone, hrest, bind, Except.bind] at h
      | ok rest =>
        simp only [hone, hrest, bind, Except.bind] at h
        obtain rfl : first :: rest = bs := Except.ok.inj h
        intro b hb
        rcases List.mem_cons.mp hb with rfl | hb
        · exact ⟨a, by simp, hone⟩
        · obtain ⟨a', ha', hf⟩ := ih hrest b hb
          exact ⟨a', by simp [ha'], hf⟩

end Folds

end LumoSql.Tcl
