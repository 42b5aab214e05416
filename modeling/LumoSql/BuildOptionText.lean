import LumoSql.BuildTargets

/-! Options in a target string: what a value is once it has been normalised, the text made of the
values that are not the default, and what reading that text back sets. -/
namespace LumoSql.Build
open Tcl

/-- The characters that neither separate words nor parts, nor escape what does. -/
def isPlain (c : Char) : Bool := c ≠ '+' && c ≠ '\\' && !isSpace c

/-- A value that is accepted as it is. -/
structure OptionDef.Settled (od : OptionDef) (value : Str) : Prop where
  syntax_ok : od.syntax_ok value = true
  normalise : od.normalise value = value
  plain : value.all isPlain = true

section Table

theorem enum_mem {values : List String} {v : Str} (h : enum values v = true) :
    v ∈ values.map String.toList := by
  rw [enum] at h
  exact List.contains_iff_mem.mp h

theorem booleanOption_settled (name : String) (build : Bool) {v : Str}
    (h : (booleanOption name build).syntax_ok v = true) :
    (booleanOption name build).Settled ((booleanOption name build).normalise v) := by
  have hall : ∀ v ∈ ["on", "off", "yes", "no", "true", "false"].map String.toList,
      (booleanOption name build).syntax_ok ((booleanOption name build).normalise v) = true ∧
        (booleanOption name build).normalise ((booleanOption name build).normalise v) =
          (booleanOption name build).normalise v ∧
        ((booleanOption name build).normalise v).all isPlain = true := by
    simp only [booleanOption, OptionDef.normalise]
    decide
  obtain ⟨hwritten, hnormal, hplain⟩ := hall v (enum_mem h)
  exact ⟨hwritten, hnormal, hplain⟩

/-- A list of values is settled when each of its values is. -/
theorem enumOption_settled {name : String} {build : Bool} {values : List String} {defval : String}
    {equiv : List (String × String)}
    (hall : ∀ v ∈ values.map String.toList,
      let w := (enumOption name build values defval equiv).normalise v
      enum values w = true ∧ (enumOption name build values defval equiv).normalise w = w ∧
        w.all isPlain = true)
    {v : Str} (h : (enumOption name build values defval equiv).syntax_ok v = true) :
    (enumOption name build values defval equiv).Settled
      ((enumOption name build values defval equiv).normalise v) := by
  obtain ⟨hwritten, hnormal, hplain⟩ := hall v (enum_mem h)
  exact ⟨hwritten, hnormal, hplain⟩

theorem digit_plain {c : Char} (h : c.isDigit = true) : isPlain c = true ∧ c ≠ ',' := by
  have hval : 48 ≤ c.val.toNat ∧ c.val.toNat ≤ 57 := by
    simp only [Char.isDigit, Bool.and_eq_true, decide_eq_true_eq] at h
    exact h
  have hne : ∀ d : Char, d.val.toNat < 48 ∨ 57 < d.val.toNat → c ≠ d := by
    rintro d hd rfl
    omega
  refine ⟨?_, hne ',' (by decide)⟩
  simp [isPlain, isSpace, hne '+' (by decide), hne '\\' (by decide), hne ' ' (by decide),
    hne '\t' (by decide), hne '\n' (by decide), hne '\r' (by decide)]

theorem isPositive_digits {s : Str} (h : isPositive s = true) :
    s ≠ [] ∧ s.all Char.isDigit = true := by
  cases s with
  | nil => cases h
  | cons c s =>
    simp only [isPositive, Bool.and_eq_true, decide_eq_true_eq] at h
    exact ⟨List.cons_ne_nil c s, by simp [h.1.1, h.2]⟩

theorem cut_some {c : Char} {s a b : Str} (h : cut c s = some (a, b)) : s = a ++ c :: b ∧ c ∉ a := by
  induction s generalizing a with
  | nil => cases h
  | cons d s ih =>
    rw [cut] at h
    split_ifs at h with hd
    · obtain ⟨rfl, rfl⟩ := Prod.mk.inj (Option.some.inj h)
      rw [hd]
      exact ⟨rfl, List.not_mem_nil⟩
    · obtain ⟨⟨a', b'⟩, hcut, heq⟩ := Option.map_eq_some_iff.mp h
      obtain ⟨rfl, rfl⟩ := Prod.mk.inj heq
      obtain ⟨rfl, hnot⟩ := ih hcut
      refine ⟨rfl, fun hmem => ?_⟩
      rcases List.mem_cons.mp hmem with rfl | hmem
      · exact hd rfl
      · exact hnot hmem

theorem cut_append {c : Char} {a : Str} (h : c ∉ a) (b : Str) : cut c (a ++ c :: b) = some (a, b) := by
  induction a with
  | nil => rw [List.nil_append, cut, if_pos rfl]
  | cons d a ih =>
    have hd : d ≠ c := fun he => h (he ▸ List.mem_cons_self)
    rw [List.cons_append, cut, if_neg hd, ih fun hm => h (List.mem_cons_of_mem d hm)]
    rfl

theorem cut_none {c : Char} {s : Str} (h : c ∉ s) : cut c s = none := by
  induction s with
  | nil => rfl
  | cons d s ih =>
    have hd : d ≠ c := fun he => h (he ▸ List.mem_cons_self)
    rw [cut, if_neg hd, ih fun hm => h (List.mem_cons_of_mem d hm)]
    rfl

/-- Two sizes that are equal become one, and other sizes stay. -/
theorem isDatasize_equalSizes {v : Str} (h : isDatasize v = true) :
    isDatasize (equalSizes v) = true ∧ equalSizes (equalSizes v) = equalSizes v ∧
      (equalSizes v).all isPlain = true := by
  have hcomma : ∀ {s : Str}, s.all Char.isDigit = true → ',' ∉ s := fun hs hm =>
    (digit_plain (List.all_eq_true.mp hs _ hm)).2 rfl
  have hplain : ∀ {s : Str}, s.all Char.isDigit = true → s.all isPlain = true := fun hs =>
    List.all_eq_true.mpr fun c hc => (digit_plain (List.all_eq_true.mp hs c hc)).1
  -- one size is left alone
  have hone : ∀ {s : Str}, isPositive s = true →
      isDatasize s = true ∧ equalSizes s = s ∧ s.all isPlain = true := fun hs => by
    have hdigits := (isPositive_digits hs).2
    have hcut := cut_none (hcomma hdigits)
    exact ⟨by rw [isDatasize, hcut]; exact hs, by rw [equalSizes, hcut], hplain hdigits⟩
  cases hcut : cut ',' v with
  | none =>
    rw [isDatasize, hcut] at h
    have hsame : equalSizes v = v := by rw [equalSizes, hcut]
    obtain ⟨hsize, -, hplain'⟩ := hone h
    exact ⟨by rw [hsame]; exact hsize, by rw [hsame, hsame], by rw [hsame]; exact hplain'⟩
  | some ab =>
    obtain ⟨a, b⟩ := ab
    have hv := h
    rw [isDatasize, hcut, Bool.and_eq_true] at hv
    have hdigits := (isPositive_digits hv.1).2
    by_cases hab : a = b ∧ a ≠ [] ∧ a.all Char.isDigit = true
    · have hsame : equalSizes v = a := by rw [equalSizes, hcut]; exact if_pos hab
      rw [hsame]
      exact hone hv.1
    · have hsame : equalSizes v = v := by rw [equalSizes, hcut]; exact if_neg hab
      rw [hsame, hsame]
      refine ⟨h, rfl, ?_⟩
      rw [(cut_some hcut).1, List.all_append, List.all_cons, hplain hdigits,
        hplain (isPositive_digits hv.2).2]
      rfl

/-- A value that has been normalised is accepted as it is. -/
theorem options_settled {od : OptionDef} (hod : od ∈ options) {v : Str} (h : od.syntax_ok v = true) :
    od.Settled (od.normalise v) := by
  have hdatasize : ∀ od' : OptionDef, od' =
      ⟨"DATASIZE".toList, false, isDatasize, "1".toList, [], equalSizes⟩ → od'.syntax_ok v = true →
        od'.Settled (od'.normalise v) := by
    rintro _ rfl h
    obtain ⟨hwritten, hnormal, hplain⟩ := isDatasize_equalSizes h
    exact ⟨hwritten, hnormal, hplain⟩
  rw [options] at hod
  simp only [List.mem_cons, List.not_mem_nil, or_false] at hod
  rcases hod with rfl | rfl | rfl | rfl | rfl | rfl | rfl | rfl | rfl
  · exact hdatasize _ rfl h
  · exact booleanOption_settled _ _ h
  · exact booleanOption_settled _ _ h
  · exact enumOption_settled (by decide) h
  · exact booleanOption_settled _ _ h
  · exact enumOption_settled (by decide) h
  · exact booleanOption_settled _ _ h
  · exact enumOption_settled (by decide) h
  · exact enumOption_settled (by decide) h

/-- The name of an option, in the target, is its own again in capitals. -/
theorem findOption_lower {od : OptionDef} (hod : od ∈ options) :
    findOption ((od.name.map Char.toLower).map Char.toUpper) = some od ∧
      (od.name.map Char.toLower).map Char.toUpper = od.name := by
  rw [options] at hod
  simp only [List.mem_cons, List.not_mem_nil, or_false] at hod
  rcases hod with rfl | rfl | rfl | rfl | rfl | rfl | rfl | rfl | rfl <;> exact ⟨rfl, rfl⟩

theorem lower_word {od : OptionDef} (hod : od ∈ options) :
    od.name.map Char.toLower ≠ [] ∧ (od.name.map Char.toLower).all isWord = true ∧
      (od.name.map Char.toLower).all isPlain = true ∧ '-' ∉ od.name.map Char.toLower := by
  rw [options] at hod
  simp only [List.mem_cons, List.not_mem_nil, or_false] at hod
  rcases hod with rfl | rfl | rfl | rfl | rfl | rfl | rfl | rfl | rfl <;>
    exact ⟨by decide, by decide, by decide, by decide⟩

theorem findOption_name {od : OptionDef} (hod : od ∈ options) : findOption od.name = some od := by
  have h := findOption_lower hod
  rw [h.2] at h
  exact h.1

theorem findOption_some {name : Str} {od : OptionDef} (h : findOption name = some od) :
    od ∈ options ∧ od.name = name := by
  rw [findOption] at h
  have hname := List.find?_some h
  exact ⟨List.mem_of_find?_eq_some h, of_decide_eq_true hname⟩

end Table

/-- Every option has its default or a value that is accepted as it is. -/
def ValidValues (values : OptionValues) : Prop :=
  ∀ od ∈ options, values od.name = od.defval ∨ od.Settled (values od.name)

theorem defaultValues_valid : ValidValues defaultValues := fun od hod => by
  refine .inl ?_
  rw [defaultValues, findOption_name hod]
  rfl

theorem optionArguments_valid {args : List (Str × Str)} {values : OptionValues}
    (h : optionArguments args = .ok values) : ValidValues values := by
  refine foldlM_keeps (fun start arg next _ hstart hone => ?_) defaultValues_valid h
  rw [optionArgument] at hone
  cases hfind : findOption arg.1 with
  | none =>
    rw [hfind] at hone
    cases hone
  | some od =>
    rw [hfind] at hone
    dsimp only at hone
    split_ifs at hone with hwritten
    obtain rfl := Except.ok.inj hone
    intro od' hod'
    by_cases hname : od'.name = od.name
    · have hsame : od' = od := by
        have h' := findOption_name hod'
        rw [hname, findOption_name (findOption_some hfind).1] at h'
        exact (Option.some.inj h').symm
      rw [hsame, Function.update_self]
      exact .inr (options_settled (findOption_some hfind).1 (by simpa using hwritten))
    · rw [Function.update_of_ne hname]
      exact hstart od' hod'

section Text

variable (values : OptionValues)

/-- One option in a target string. -/
def optionItem (od : OptionDef) : Str := od.name.map Char.toLower ++ '-' :: values od.name

/-- The options a target string tells. -/
def optionItems (ods : List OptionDef) : List Str :=
  (ods.filter fun od => values od.name ≠ od.defval).map (optionItem values)

def listed (ods : List OptionDef) : List (Str × Str) := ods.map fun od => (od.name, values od.name)

/-- Parts with a `+` in front of each. -/
def plused (items : List Str) : Str := items.flatMap ('+' :: ·)

/-- The `+` that stands for a backend when there is none. -/
def plusOf (items : List Str) : Str := if items = [] then [] else ['+']

theorem addOption_loop (ods : List OptionDef) (T : OptionText) :
    ods.foldl (addOption values) T =
      ⟨T.opts ++ plused (optionItems values ods),
        if optionItems values ods = [] then T.plus else ['+'], T.ol ++ listed values ods⟩ := by
  induction ods generalizing T with
  | nil => simp [optionItems, plused, listed]
  | cons od ods ih =>
    rw [List.foldl_cons, ih]
    by_cases hdef : values od.name ≠ od.defval
    · have hitems : optionItems values (od :: ods) = optionItem values od :: optionItems values ods := by
        rw [optionItems, List.filter_cons_of_pos (by simpa using hdef)]
        rfl
      rw [addOption, if_pos hdef, hitems]
      simp [plused, listed, optionItem]
    · have hitems : optionItems values (od :: ods) = optionItems values ods := by
        rw [optionItems, List.filter_cons_of_neg (by simpa using hdef)]
        rfl
      rw [addOption, if_neg hdef, hitems]
      simp [listed]

theorem benchmarkText_eq : benchmarkText values =
    ⟨plused (optionItems values options), plusOf (optionItems values options),
      listed values options⟩ := by
  rw [benchmarkText, addOption_loop]
  rfl

theorem buildText_eq : buildText values =
    ⟨plused (optionItems values (options.filter OptionDef.build)),
      plusOf (optionItems values (options.filter OptionDef.build)),
      listed values (options.filter OptionDef.build)⟩ := by
  rw [buildText, addOption_loop]
  rfl

variable {values}

/-- A build has no option where the benchmark has none. -/
theorem build_items_nil (h : optionItems values options = []) :
    optionItems values (options.filter OptionDef.build) = [] := by
  rw [optionItems, List.map_eq_nil_iff, List.filter_eq_nil_iff] at h ⊢
  exact fun od hod => h od (List.mem_of_mem_filter hod)

/-- The texts are made of the values of the options alone. -/
theorem texts_eq {values' : OptionValues} (h : listed values' options = listed values options) :
    benchmarkText values' = benchmarkText values ∧ buildText values' = buildText values := by
  have hsame : ∀ od ∈ options, values' od.name = values od.name := fun od hod =>
    congrArg Prod.snd (List.map_inj_left.mp h od hod)
  have hitems : ∀ ods : List OptionDef, (∀ od ∈ ods, od ∈ options) →
      optionItems values' ods = optionItems values ods ∧ listed values' ods = listed values ods := by
    intro ods hods
    constructor
    · rw [optionItems, optionItems, List.filter_congr fun od hod => by rw [hsame od (hods od hod)]]
      refine List.map_congr_left fun od hod => ?_
      rw [optionItem, optionItem, hsame od (hods od (List.mem_of_mem_filter hod))]
    · exact List.map_congr_left fun od hod => by rw [hsame od (hods od hod)]
  have hall := hitems options fun _ h => h
  have hbuild := hitems (options.filter OptionDef.build) fun _ h => List.mem_of_mem_filter h
  constructor
  · rw [benchmarkText_eq, benchmarkText_eq, hall.1, hall.2]
  · rw [buildText_eq, buildText_eq, hbuild.1, hbuild.2]

theorem optionItem_plain (hvalid : ValidValues values) {od : OptionDef} (hod : od ∈ options)
    (hdef : values od.name ≠ od.defval) : (optionItem values od).all isPlain = true := by
  have hsettled := (hvalid od hod).resolve_left hdef
  rw [optionItem, List.all_append, List.all_cons, (lower_word hod).2.2.1, hsettled.plain]
  rfl

theorem optionItems_plain (hvalid : ValidValues values) :
    ∀ item ∈ optionItems values options, item.all isPlain = true := by
  intro item hitem
  obtain ⟨od, hod, rfl⟩ := List.mem_map.mp hitem
  obtain ⟨hod, hdef⟩ := List.mem_filter.mp hod
  exact optionItem_plain hvalid hod (by simpa using hdef)

/-- An option of a target sets its value. -/
theorem targetOption_item (hvalid : ValidValues values) {od : OptionDef} (hod : od ∈ options)
    (hdef : values od.name ≠ od.defval) (start : OptionValues) :
    targetOption start (optionItem values od) =
      .ok (Function.update start od.name (values od.name)) := by
  have hsettled := (hvalid od hod).resolve_left hdef
  obtain ⟨hne, hword, -, hdash⟩ := lower_word hod
  have hname : nameAndRest (optionItem values od) =
      some (od.name.map Char.toLower, values od.name) := by
    rw [nameAndRest, optionItem, cut_append hdash, Option.filter_some]
    simp only [hword, Bool.and_true, decide_eq_true hne, if_true]
  rw [targetOption, hname]
  simp only [(findOption_lower hod).2, findOption_name hod, if_neg hdef, hsettled.syntax_ok,
    Bool.not_true, Bool.false_eq_true, if_false, hsettled.normalise]

/-- The options of a target, read one after the other. -/
theorem targetOptions_items (hvalid : ValidValues values) (ods : List OptionDef)
    (hods : ∀ od ∈ ods, od ∈ options) (start : OptionValues) :
    ∃ final, (optionItems values ods).foldlM targetOption start = .ok final ∧
      (∀ name, final name = values name ∨ final name = start name) ∧
      ∀ od ∈ ods, values od.name ≠ od.defval → final od.name = values od.name := by
  induction ods generalizing start with
  | nil => exact ⟨start, rfl, fun _ => .inr rfl, fun _ h => absurd h List.not_mem_nil⟩
  | cons od ods ih =>
    have hrest := fun od' h => hods od' (List.mem_cons_of_mem od h)
    rw [optionItems]
    by_cases hdef : values od.name ≠ od.defval
    · rw [List.filter_cons_of_pos (by simpa using hdef), List.map_cons, List.foldlM_cons,
        targetOption_item hvalid (hods od List.mem_cons_self) hdef]
      obtain ⟨final, hrun, hany, hset⟩ := ih hrest (Function.update start od.name (values od.name))
      refine ⟨final, hrun, fun name => ?_, fun od' hod' hdef' => ?_⟩
      · rcases hany name with h | h
        · exact .inl h
        · by_cases hname : name = od.name
          · rw [hname, Function.update_self] at h
            exact .inl (hname ▸ h)
          · rw [Function.update_of_ne hname] at h
            exact .inr h
      · rcases List.mem_cons.mp hod' with rfl | hod'
        · rcases hany od'.name with h | h
          · exact h
          · rwa [Function.update_self] at h
        · exact hset od' hod' hdef'
    · rw [List.filter_cons_of_neg (by simpa using hdef)]
      obtain ⟨final, hrun, hany, hset⟩ := ih hrest start
      refine ⟨final, hrun, hany, fun od' hod' hdef' => ?_⟩
      rcases List.mem_cons.mp hod' with rfl | hod'
      · exact absurd hdef' hdef
      · exact hset od' hod' hdef'

/-- The options that are not told have their defaults. -/
theorem targetOptions_all (hvalid : ValidValues values) :
    ∃ final, (optionItems values options).foldlM targetOption defaultValues = .ok final ∧
      listed final options = listed values options := by
  obtain ⟨final, hrun, hany, hset⟩ :=
    targetOptions_items hvalid options (fun _ h => h) defaultValues
  refine ⟨final, hrun, List.map_congr_left fun od hod => ?_⟩
  by_cases hdef : values od.name = od.defval
  · have hdefault : defaultValues od.name = od.defval := by
      rw [defaultValues, findOption_name hod]
      rfl
    rcases hany od.name with h | h
    · rw [h]
    · rw [h, hdefault, hdef]
  · rw [hset od hod hdef]

end Text

end LumoSql.Build
