import LumoSql.RowsumChecking

/-! The strings the checker accepts when rowsums are not looked at: the magic, elements and
the end byte. Every other string is refused without a read outside it. -/
namespace LumoSql.LumoExtension
open RowsumAlgorithms SqliteRecordFormat

/-- A varint is as long as its own bytes say: the first byte below `0x80` ends it, and what
follows it does not matter. -/
structure SelfDelimiting (F : SqliteFormat) : Prop where
  ends : ∀ bs, (∃ b ∈ bs, b.toNat < 128) → ∃ v n, F.getVarint32 bs = some (v, n)
  own : ∀ bs rest v n, F.getVarint32 bs = some (v, n) →
    F.getVarint32 (bs.take n ++ rest) = some (v, n)

theorem getGroups_ends (bs : Bytes) (i acc : ℕ) (h : ∃ b ∈ bs, b.toNat < 128) :
    ∃ v n, getGroups i acc bs = some (v, n) := by
  induction bs generalizing i acc with
  | nil => simp at h
  | cons b bs ih =>
    rw [getGroups]
    split_ifs with h8 hb
    · exact ⟨_, _, rfl⟩
    · exact ⟨_, _, rfl⟩
    · apply ih
      obtain ⟨c, hc, hlt⟩ := h
      rcases List.mem_cons.mp hc with rfl | hc
      · exact absurd hlt hb
      · exact ⟨c, hc, hlt⟩

theorem getGroups_own (bs rest : Bytes) (i acc v n : ℕ) (hi : i ≤ 8)
    (h : getGroups i acc bs = some (v, n)) :
    getGroups i acc (bs.take (n - i) ++ rest) = some (v, n) := by
  induction bs generalizing i acc with
  | nil => simp [getGroups] at h
  | cons b bs ih =>
    have hpos := (getGroups_bounds _ _ _ _ _ hi h).1
    obtain ⟨k, hk⟩ := Nat.exists_eq_add_of_le hpos
    have hsub : n - i = k + 1 := by omega
    rw [hsub, List.take_succ_cons, List.cons_append]
    simp only [getGroups] at h ⊢
    split_ifs at h ⊢ with h8 hb
    · exact h
    · exact h
    · have hrest : n - (i + 1) = k := by omega
      rw [← hrest]
      exact ih _ _ (by omega) h

theorem documented_selfDelimiting : SelfDelimiting documented where
  ends := by
    intro bs h
    obtain ⟨v, n, hg⟩ := getGroups_ends bs 0 0 h
    exact ⟨_, n, congrArg (Option.map _) hg⟩
  own := by
    intro bs rest v n h
    simp only [documented, documentedGet, Option.map_eq_some_iff, Prod.mk.injEq] at h ⊢
    obtain ⟨⟨w, m⟩, hg, hv, rfl⟩ := h
    exact ⟨(w, m), by simpa using getGroups_own bs rest 0 0 w m (by omega) hg, hv, rfl⟩

variable {F : SqliteFormat} {H : RowsumHashes}

/-- The string is one varint, of this value. -/
def Reads (F : SqliteFormat) (bs : Bytes) (v : ℕ) : Prop := F.getVarint32 bs = some (v, bs.length)

/-- The bytes of one element: type, subtype, length and as many bytes as that says. -/
def IsElement (F : SqliteFormat) (block : Bytes) : Prop :=
  ∃ xtype xsubtype ts ss ls data, Reads F ts xtype ∧ xtype ≠ lumoEndType ∧ Reads F ss xsubtype ∧
    Reads F ls data.length ∧ block = ts ++ (ss ++ (ls ++ data))

/-- The string is a Lumo column: magic, elements, end byte. -/
def IsLumoColumn (F : SqliteFormat) (bs : Bytes) : Prop :=
  ∃ blocks : List Bytes, (∀ block ∈ blocks, IsElement F block) ∧
    bs = lumoExtensionMagic ++ (blocks.flatten ++ [UInt8.ofNat lumoEndType])

theorem Reads.append (hF : SelfDelimiting F) {bs : Bytes} {v : ℕ} (h : Reads F bs v) (rest : Bytes) :
    F.getVarint32 (bs ++ rest) = some (v, bs.length) := by
  have hown := hF.own bs rest v _ h
  rwa [List.take_length] at hown

theorem Reads.length_pos {bs : Bytes} {v : ℕ} (h : Reads F bs v) : 0 < bs.length :=
  (F.getVarint32_bounds _ _ _ h).2.1

/-- The next varint ends before the end byte or with it; in the first case it can be split off. -/
theorem exists_reads (hF : SelfDelimiting F) (body : Bytes) :
    ∃ v n, F.getVarint32 (body ++ [UInt8.ofNat lumoEndType]) = some (v, n) ∧ 1 ≤ n ∧
      (n ≤ body.length → ∃ vs body', body = vs ++ body' ∧ vs.length = n ∧ Reads F vs v) := by
  have hlow : ∃ b ∈ body ++ [UInt8.ofNat lumoEndType], b.toNat < 128 :=
    ⟨UInt8.ofNat lumoEndType, by simp, by decide⟩
  obtain ⟨v, n, hv⟩ := hF.ends _ hlow
  refine ⟨v, n, hv, (F.getVarint32_bounds _ _ _ hv).2.1, ?_⟩
  intro hn
  have hlen : (body.take n).length = n := by simp [hn]
  refine ⟨body.take n, body.drop n, (List.take_append_drop n body).symm, hlen, ?_⟩
  have hown := hF.own _ [] v n hv
  rw [List.take_append_of_le_length hn, List.append_nil] at hown
  rw [Reads, hlen]
  exact hown

theorem drop_append {bs xs ys : Bytes} {k : ℕ} (h : bs.drop k = xs ++ ys) :
    bs.drop (k + xs.length) = ys := by
  rw [← List.drop_drop, h, List.drop_left]

/-- A sequence of elements in front of the end byte is accepted. -/
theorem handleElements_accepts (hF : SelfDelimiting F) (nSum : ℕ) (pC : PayloadReader)
    {zRow : Bytes} {zEnd : ℕ} (blocks : List Bytes) (hblocks : ∀ block ∈ blocks, IsElement F block)
    (zH fuel : ℕ) (hrest : zRow.drop zH = blocks.flatten ++ [UInt8.ofNat lumoEndType])
    (hend : zEnd = zH + blocks.flatten.length) (hfuel : blocks.flatten.length < fuel) :
    handleElements F H 0 zRow zEnd nSum pC fuel zH false = some 1 := by
  induction blocks generalizing zH fuel with
  | nil =>
    obtain ⟨fuel, rfl⟩ := Nat.exists_eq_succ_of_ne_zero (by omega : fuel ≠ 0)
    rw [handleElements, if_neg (by simp [hend])]
    rfl
  | cons block blocks ih =>
    obtain ⟨xtype, xsubtype, ts, ss, ls, data, ht, hne, hs, hl, rfl⟩ :=
      hblocks block List.mem_cons_self
    have htpos := ht.length_pos
    have hspos := hs.length_pos
    have hlpos := hl.length_pos
    simp only [List.flatten_cons, List.append_assoc] at hrest
    simp only [List.flatten_cons, List.length_append] at hend hfuel
    obtain ⟨fuel, rfl⟩ := Nat.exists_eq_succ_of_ne_zero (by omega : fuel ≠ 0)
    have hrest1 := drop_append hrest
    have hrest2 := drop_append hrest1
    have hrest3 := drop_append (drop_append hrest2)
    have htail := ih (fun b hb => hblocks b (List.mem_cons_of_mem _ hb)) _ fuel hrest3
      (by omega) (by omega)
    rw [handleElements, if_pos (by omega), hrest, ht.append hF]
    simp only [Option.bind_eq_bind, Option.bind_some]
    rw [if_neg hne, if_neg (by omega), hrest1, hs.append hF]
    simp only [Option.bind_some]
    rw [if_neg (by omega), hrest2, hl.append hF]
    simp only [Option.bind_some]
    rw [if_neg (by omega), if_neg (by simp)]
    exact htail

/-- One round of the loop refuses the column or splits an element off it. -/
theorem handleElements_step (hF : SelfDelimiting F) (nSum : ℕ) (pC : PayloadReader)
    {zRow body : Bytes} {zEnd zH : ℕ}
    (hrest : zRow.drop zH = body ++ [UInt8.ofNat lumoEndType])
    (hend : zEnd = zH + body.length) (hpos : 0 < body.length) (fuel : ℕ) :
    handleElements F H 0 zRow zEnd nSum pC (fuel + 1) zH false = some (-1) ∨
      ∃ block body', IsElement F block ∧ body = block ++ body' ∧ 0 < block.length ∧
        handleElements F H 0 zRow zEnd nSum pC (fuel + 1) zH false =
          handleElements F H 0 zRow zEnd nSum pC fuel (zH + block.length) false := by
  obtain ⟨xtype, n₁, htype, hn₁, hsplit₁⟩ := exists_reads hF body
  rw [handleElements, if_pos (by omega), hrest, htype]
  simp only [Option.bind_eq_bind, Option.bind_some]
  by_cases hne : xtype = lumoEndType
  · exact .inl (by rw [if_pos hne])
  by_cases h1 : zEnd ≤ zH + n₁
  · exact .inl (by rw [if_neg hne, if_pos h1])
  obtain ⟨ts, body₁, rfl, rfl, hts⟩ := hsplit₁ (by omega)
  rw [List.append_assoc] at hrest
  rw [List.length_append] at hend
  obtain ⟨xsubtype, n₂, hsub, hn₂, hsplit₂⟩ := exists_reads hF body₁
  rw [if_neg hne, if_neg h1, drop_append hrest, hsub]
  simp only [Option.bind_some]
  by_cases h2 : zEnd ≤ zH + ts.length + n₂
  · exact .inl (by rw [if_pos h2])
  obtain ⟨ss, body₂, rfl, rfl, hss⟩ := hsplit₂ (by omega)
  have hrest₁ := drop_append hrest
  rw [List.append_assoc] at hrest₁
  rw [List.length_append] at hend
  obtain ⟨xlen, n₃, hlen, hn₃, hsplit₃⟩ := exists_reads hF body₂
  rw [if_neg h2, drop_append hrest₁, hlen]
  simp only [Option.bind_some]
  by_cases h3 : zEnd < zH + ts.length + ss.length + n₃ + xlen
  · exact .inl (by rw [if_pos h3])
  obtain ⟨ls, body₃, rfl, rfl, hls⟩ := hsplit₃ (by omega)
  rw [List.length_append] at hend
  have hdata : (body₃.take xlen).length = xlen := by
    rw [List.length_take]
    omega
  refine .inr ⟨ts ++ (ss ++ (ls ++ body₃.take xlen)), body₃.drop xlen, ?_, ?_, ?_, ?_⟩
  · exact ⟨xtype, xsubtype, ts, ss, ls, _, hts, hne, hss, by rwa [hdata], rfl⟩
  · simp
  · rw [List.length_append]
    omega
  · rw [if_neg h3, if_neg (by simp)]
    simp only [List.length_append, hdata, Nat.add_assoc]

/-- The loop ends within the string, and accepts only a sequence of elements. -/
theorem handleElements_total (hF : SelfDelimiting F) (nSum : ℕ) (pC : PayloadReader)
    {zRow : Bytes} {zEnd : ℕ} (fuel zH : ℕ) (body : Bytes)
    (hrest : zRow.drop zH = body ++ [UInt8.ofNat lumoEndType])
    (hend : zEnd = zH + body.length) (hfuel : body.length < fuel) :
    handleElements F H 0 zRow zEnd nSum pC fuel zH false = some (-1) ∨
      (handleElements F H 0 zRow zEnd nSum pC fuel zH false = some 1 ∧
        ∃ blocks : List Bytes, (∀ block ∈ blocks, IsElement F block) ∧ body = blocks.flatten) := by
  induction fuel generalizing zH body with
  | zero => omega
  | succ fuel ih =>
    rcases Nat.eq_zero_or_pos body.length with hnil | hpos
    · obtain rfl := List.length_eq_zero_iff.mp hnil
      rw [handleElements, if_neg (by simp [hend])]
      exact .inr ⟨rfl, [], by simp, rfl⟩
    · rcases handleElements_step (H := H) hF nSum pC hrest hend hpos fuel with
        hbad | ⟨block, body', hblock, rfl, hlen, hrun⟩
      · exact .inl hbad
      · rw [List.append_assoc] at hrest
        rw [List.length_append] at hend hfuel
        rw [hrun]
        rcases ih _ _ (drop_append hrest) (by omega) (by omega) with
          hbad | ⟨hok, blocks, hblocks, rfl⟩
        · exact .inl hbad
        · refine .inr ⟨hok, block :: blocks, ?_, rfl⟩
          intro b hb
          rcases List.mem_cons.mp hb with rfl | hb
          · exact hblock
          · exact hblocks b hb

/-- The string is too short for a Lumo column or does not start with the magic. -/
def NoMagic (zRow : Bytes) : Prop :=
  zRow.length ≤ lumoExtensionMagic.length ∨ ¬ lumoExtensionMagic <+: zRow

theorem IsLumoColumn.magic {zRow : Bytes} (h : IsLumoColumn F zRow) : ¬ NoMagic zRow := by
  obtain ⟨blocks, -, rfl⟩ := h
  rintro (hshort | hpre)
  · simp at hshort
  · exact hpre (List.prefix_append _ _)

theorem handle_noMagic {zRow : Bytes} (h : NoMagic zRow) (check nSum : ℕ) (pC : PayloadReader) :
    lumoExtensionHandle F H check zRow nSum zRow.length pC = some 0 := by
  rw [lumoExtensionHandle]
  by_cases hshort : zRow.length ≤ lumoExtensionMagic.length
  · rw [if_pos hshort]
  · have hne := h.resolve_left hshort
    rw [List.prefix_iff_eq_take, eq_comm] at hne
    rw [if_neg hshort, if_neg (by omega), if_pos hne]

/-- With the magic in front the last byte decides whether the loop is entered. -/
theorem handle_magic {zRow : Bytes} (h : ¬ NoMagic zRow) :
    ∃ body last, zRow = lumoExtensionMagic ++ (body ++ [last]) ∧ ∀ nSum (pC : PayloadReader),
      lumoExtensionHandle F H 0 zRow nSum zRow.length pC =
        if last.toNat ≠ lumoEndType then some (-1)
        else handleElements F H 0 zRow (zRow.length - 1) nSum pC zRow.length
          lumoExtensionMagic.length false := by
  obtain ⟨hlong, hpre⟩ := not_or.mp h
  obtain ⟨rest, rfl⟩ := not_not.mp hpre
  rcases List.eq_nil_or_concat rest with rfl | ⟨body, last, hbody⟩
  · simp at hlong
  · rw [List.concat_eq_append] at hbody
    subst hbody
    refine ⟨body, last, rfl, ?_⟩
    intro nSum pC
    have hlast : (lumoExtensionMagic ++ (body ++ [last]))[(lumoExtensionMagic ++ (body ++
        [last])).length - 1]? = some last := by
      rw [← List.append_assoc]
      simp
    rw [lumoExtensionHandle, if_neg hlong]
    simp only [Option.bind_eq_bind]
    rw [if_neg (by omega), List.take_left, if_neg (not_not.mpr rfl), hlast]
    simp

theorem handle_column (hF : SelfDelimiting F) {zRow : Bytes} (h : IsLumoColumn F zRow) (nSum : ℕ)
    (pC : PayloadReader) : lumoExtensionHandle F H 0 zRow nSum zRow.length pC = some 1 := by
  obtain ⟨body, last, hsplit, hrun⟩ := handle_magic (F := F) (H := H) h.magic
  obtain ⟨blocks, hblocks, hcol⟩ := h
  have htail := hsplit.symm.trans hcol
  obtain ⟨rfl, hone⟩ := List.append_inj' (List.append_cancel_left htail) rfl
  obtain rfl : last = UInt8.ofNat lumoEndType := by simpa using hone
  rw [hrun, if_neg (by decide)]
  apply handleElements_accepts hF nSum pC blocks hblocks
  · rw [hcol, List.drop_left]
  · rw [hcol]
    simp
  · rw [hcol]
    simp
    omega

theorem handle_total (hF : SelfDelimiting F) {zRow : Bytes} (h : ¬ NoMagic zRow) (nSum : ℕ)
    (pC : PayloadReader) :
    lumoExtensionHandle F H 0 zRow nSum zRow.length pC = some (-1) ∨
      (lumoExtensionHandle F H 0 zRow nSum zRow.length pC = some 1 ∧ IsLumoColumn F zRow) := by
  obtain ⟨body, last, hsplit, hrun⟩ := handle_magic (F := F) (H := H) h
  rw [hrun]
  by_cases hend : last.toNat = lumoEndType
  · obtain rfl : last = UInt8.ofNat lumoEndType := by rw [← hend, UInt8.ofNat_toNat]
    have hlen : zRow.length = lumoExtensionMagic.length + (body.length + 1) := by
      rw [hsplit, List.length_append, List.length_append, List.length_singleton]
    have hdrop : zRow.drop lumoExtensionMagic.length = body ++ [UInt8.ofNat lumoEndType] := by
      rw [hsplit, List.drop_left]
    rw [if_neg (by decide)]
    rcases handleElements_total (H := H) hF nSum pC zRow.length lumoExtensionMagic.length body
      hdrop (by omega : zRow.length - 1 = _ + body.length) (by omega) with
      hbad | ⟨hok, blocks, hblocks, rfl⟩
    · exact .inl hbad
    · exact .inr ⟨hok, blocks, hblocks, hsplit⟩
  · exact .inl (if_pos hend)

/-- With rowsum checking off the checker ends on every string without a read outside it: 0
where the string is too short or does not start with the magic, 1 exactly for the Lumo
columns, and -1 for the rest. -/
theorem lumoExtensionHandle_grammar (hF : SelfDelimiting F) (zRow : Bytes) (nSum : ℕ)
    (pC : PayloadReader) :
    ∃ r, lumoExtensionHandle F H 0 zRow nSum zRow.length pC = some r ∧
      (r = 0 ↔ NoMagic zRow) ∧ (r = 1 ↔ IsLumoColumn F zRow) ∧
      (r = -1 ↔ ¬ NoMagic zRow ∧ ¬ IsLumoColumn F zRow) := by
  by_cases hno : NoMagic zRow
  · have hcol : ¬ IsLumoColumn F zRow := fun h => h.magic hno
    exact ⟨0, handle_noMagic hno 0 nSum pC, by simp [hno], by simp [hcol], by simp [hno]⟩
  · rcases handle_total (H := H) hF hno nSum pC with hbad | ⟨hok, hcol⟩
    · have hcol : ¬ IsLumoColumn F zRow := by
        intro h
        rw [handle_column hF h] at hbad
        exact absurd hbad (by decide)
      exact ⟨-1, hbad, by simp [hno], by simp [hcol], by simp [hno, hcol]⟩
    · exact ⟨1, hok, by simp [hno], by simp [hcol], by simp [hcol]⟩

/-- Two elements, the second without data and with a subtype of two bytes. -/
def sampleColumn : Bytes := lumoExtensionMagic ++ [2, 0, 1, 7, 3, 0x81, 0, 0, 0]

theorem lumoExtensionHandle_grammar_sample :
    ∃ r, lumoExtensionHandle documented prefixHashes 0 sampleColumn 0 sampleColumn.length
        (PayloadReader.ofBytes []) = some r ∧
      (r = 0 ↔ NoMagic sampleColumn) ∧ (r = 1 ↔ IsLumoColumn documented sampleColumn) ∧
      (r = -1 ↔ ¬ NoMagic sampleColumn ∧ ¬ IsLumoColumn documented sampleColumn) :=
  lumoExtensionHandle_grammar documented_selfDelimiting sampleColumn 0 (PayloadReader.ofBytes [])

end LumoSql.LumoExtension
