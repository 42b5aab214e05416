import LumoSql.RowsumRoundTrip

/-! Where a Lumo column is found in payloads that nobody vouches for: the serial types of the
header are arbitrary, and the payload may have been written without the extension. -/
namespace LumoSql.LumoExtension
open SqliteRecordFormat

section Headers

variable (F : SqliteFormat)

/-- The serial types of the header entries from an offset on, whatever they are. -/
inductive HeaderTypes (zData : Bytes) (nHeader : ℕ) : ℕ → List ℕ → Prop
  | done {nOffset : ℕ} (h : nHeader ≤ nOffset) : HeaderTypes zData nHeader nOffset []
  | entry {nOffset t n : ℕ} {ts : List ℕ} (h : nOffset < nHeader)
      (hget : F.getVarint32 (zData.drop nOffset) = some (t, n))
      (hrest : HeaderTypes zData nHeader (nOffset + n) ts) : HeaderTypes zData nHeader nOffset (t :: ts)

/-- Where the first `k` of the columns end that begin at `nCol`. -/
def columnsEnd (nCol : ℕ) (ts : List ℕ) (k : ℕ) : ℕ :=
  nCol + ((ts.take k).map F.sqlite3VdbeSerialTypeLen).sum

/-- The header has entries for `k` columns, each of which begins inside the payload. -/
def Describes (nData nCol : ℕ) (ts : List ℕ) (k : ℕ) : Prop :=
  k ≤ ts.length ∧ ∀ j < k, columnsEnd F nCol ts j < nData

/-- In a table, what the entry after `k` columns describes lies inside the payload if it is a blob
of more than four bytes; in an index, there is room for the rowid's copy behind the columns and
the rest is no negative `int`. -/
def LumoFits (isIndex : Bool) (zData : Bytes) (nHeader nData nCol : ℕ) (ts : List ℕ) (k : ℕ) : Prop :=
  Describes F nData nCol ts k →
    if isIndex then ∀ t, 0 < nHeader → zData[nHeader - 1]? = some t → isRowidType t.toNat = true →
      columnsEnd F nCol ts k + F.sqlite3VdbeSerialTypeLen t.toNat ≤ nData ∧
      (nData - columnsEnd F nCol ts k - F.sqlite3VdbeSerialTypeLen t.toNat) % 2 ^ 32 < 2 ^ 31
    else ∀ t, ts[k]? = some t → 22 ≤ t → t < 2 ^ 31 → t % 2 = 0 →
      columnsEnd F nCol ts k + (t - 12) / 2 ≤ nData

end Headers

section Parsing

variable {F : SqliteFormat} {zData : Bytes} {nHeader nData nOffset nCol : ℕ} {ts : List ℕ}

theorem serialTypeLen_lt (t : ℕ) (ht : t < 2 ^ 32) : F.sqlite3VdbeSerialTypeLen t < 2 ^ 31 := by
  have hsize : serialTypeSize t ≤ 8 ∨ serialTypeSize t = (t - 12) / 2 := by
    unfold serialTypeSize
    split
    · exact Or.inr rfl
    · left
      split <;> omega
  rw [F.serialTypeLen_eq t ht]
  omega

theorem columnsEnd_zero : columnsEnd F nCol ts 0 = nCol := by simp [columnsEnd]

theorem columnsEnd_cons (t k : ℕ) :
    columnsEnd F nCol (t :: ts) (k + 1) = columnsEnd F (nCol + F.sqlite3VdbeSerialTypeLen t) ts k := by
  simp [columnsEnd, Nat.add_assoc]

theorem describes_cons {t k : ℕ} :
    Describes F nData nCol (t :: ts) (k + 1) ↔
      nCol < nData ∧ Describes F nData (nCol + F.sqlite3VdbeSerialTypeLen t) ts k := by
  constructor
  · rintro ⟨hlen, hbegin⟩
    have hzero := hbegin 0 k.succ_pos
    rw [columnsEnd_zero] at hzero
    refine ⟨hzero, by simpa using hlen, fun j hj => ?_⟩
    rw [← columnsEnd_cons]
    exact hbegin (j + 1) (by omega)
  · rintro ⟨hzero, hlen, hbegin⟩
    refine ⟨by simpa using hlen, fun j hj => ?_⟩
    cases j with
    | zero =>
      rw [columnsEnd_zero]
      exact hzero
    | succ j =>
      rw [columnsEnd_cons]
      exact hbegin j (by omega)

/-- One turn of the loop. -/
theorem skipColumns_entry {t n k : ℕ} (hHeader : nHeader + 8 < 2 ^ 32) (hData : nData < 2 ^ 63)
    (hlt : nOffset < nHeader) (hcol : nCol < nData) (hget : F.getVarint32 (zData.drop nOffset) = some (t, n)) :
    skipColumns F zData nHeader nData (k + 1) nOffset nCol =
      skipColumns F zData nHeader nData k (nOffset + n) (nCol + F.sqlite3VdbeSerialTypeLen t) := by
  obtain ⟨ht, -, hn, -⟩ := F.getVarint32_bounds _ _ _ hget
  have hlen := serialTypeLen_lt (F := F) t ht
  have hoffset : (nOffset + n) % 2 ^ 32 = nOffset + n := Nat.mod_eq_of_lt (by omega)
  have hend : (nCol + F.sqlite3VdbeSerialTypeLen t) % 2 ^ 64 = nCol + F.sqlite3VdbeSerialTypeLen t :=
    Nat.mod_eq_of_lt (by omega)
  simp only [skipColumns, if_pos (And.intro hlt hcol), hget, Option.bind_eq_bind, Option.bind_some, hoffset, hend]

/-- The loop ends behind the columns when the header describes them. -/
theorem skipColumns_describes {k : ℕ} (htypes : HeaderTypes F zData nHeader nOffset ts) (hHeader : nHeader + 8 < 2 ^ 32)
    (hData : nData < 2 ^ 63) (h : Describes F nData nCol ts k) :
    ∃ nOffset', skipColumns F zData nHeader nData k nOffset nCol = some (0, nOffset', columnsEnd F nCol ts k) ∧
      HeaderTypes F zData nHeader nOffset' (ts.drop k) := by
  induction k generalizing ts nOffset nCol with
  | zero => exact ⟨nOffset, by rw [skipColumns, columnsEnd_zero], htypes⟩
  | succ k ih =>
    cases htypes with
    | done => exact absurd h.1 (by simp)
    | @entry _ t n ts hlt hget hrest =>
      obtain ⟨hcol, hdescribes⟩ := describes_cons.mp h
      obtain ⟨nOffset', hrun, hrest'⟩ := ih hrest hdescribes
      refine ⟨nOffset', ?_, hrest'⟩
      rw [skipColumns_entry hHeader hData hlt hcol hget, hrun, columnsEnd_cons]

/-- Otherwise some columns are left. -/
theorem skipColumns_left {k : ℕ} (htypes : HeaderTypes F zData nHeader nOffset ts) (hHeader : nHeader + 8 < 2 ^ 32)
    (hData : nData < 2 ^ 63) (h : ¬ Describes F nData nCol ts k) :
    ∃ left nOffset' nCol', skipColumns F zData nHeader nData k nOffset nCol =
      some (left + 1, nOffset', nCol') := by
  induction k generalizing ts nOffset nCol with
  | zero => exact absurd ⟨Nat.zero_le _, fun j hj => absurd hj (Nat.not_lt_zero j)⟩ h
  | succ k ih =>
    cases htypes with
    | done hle =>
      refine ⟨k, nOffset, nCol, ?_⟩
      rw [skipColumns, if_neg (by omega)]
    | @entry _ t n ts hlt hget hrest =>
      by_cases hcol : nCol < nData
      · have hdescribes : ¬ Describes F nData (nCol + F.sqlite3VdbeSerialTypeLen t) ts k :=
          fun hd => h (describes_cons.mpr ⟨hcol, hd⟩)
        obtain ⟨left, nOffset', nCol', hrun⟩ := ih hrest hdescribes
        refine ⟨left, nOffset', nCol', ?_⟩
        rw [skipColumns_entry hHeader hData hlt hcol hget, hrun]
      · refine ⟨k, nOffset, nCol, ?_⟩
        rw [skipColumns, if_neg fun hand => hcol hand.2]

theorem HeaderTypes.types_lt (h : HeaderTypes F zData nHeader nOffset ts) : ∀ t ∈ ts, t < 2 ^ 32 := by
  induction h with
  | done => simp
  | @entry _ t n ts _ hget _ ih =>
    intro u hu
    rcases List.mem_cons.mp hu with rfl | hu
    · exact (F.getVarint32_bounds _ _ _ hget).1
    · exact ih u hu

theorem columnsEnd_lt {k : ℕ} (hts : ∀ t ∈ ts, t < 2 ^ 32) (hcol : nCol ≤ nData) (h : Describes F nData nCol ts k) :
    columnsEnd F nCol ts k < nData + 2 ^ 31 := by
  cases k with
  | zero =>
    rw [columnsEnd_zero]
    omega
  | succ k =>
    have hk : k < ts.length := h.1
    have hbegin := h.2 k k.lt_succ_self
    have hlen := serialTypeLen_lt (F := F) ts[k] (hts _ (List.getElem_mem hk))
    have hsucc : columnsEnd F nCol ts (k + 1) = columnsEnd F nCol ts k + F.sqlite3VdbeSerialTypeLen ts[k] := by
      rw [columnsEnd, columnsEnd, List.take_succ_eq_append_getElem hk, List.map_append, List.sum_append]
      simp only [List.map_cons, List.map_nil, List.sum_cons, List.sum_nil, Nat.add_zero, Nat.add_assoc]
    omega

/-- What is read of the entry behind the columns. -/
theorem blobLength_eq (htypes : HeaderTypes F zData nHeader nOffset ts) :
    blobLength F zData nHeader nOffset = some (ts.head?.bind fun t => blobTypeLength (toInt t)) := by
  cases htypes with
  | done h => rw [blobLength, if_pos h, List.head?_nil, Option.bind_none]
  | entry h hget _ =>
    rw [blobLength, if_neg (by omega), hget, Option.map_some, List.head?_cons, Option.bind_some]

theorem toInt_neg {t : ℕ} (ht : t < 2 ^ 32) (hlarge : 2 ^ 31 ≤ t) : toInt t < 0 := by
  unfold toInt
  rw [Int.bmod_def]
  split_ifs with h
  · push_cast at h
    omega
  · push_cast
    omega

/-- A serial type as `int` is that of a blob when it is even, at least `14` and below `2 ^ 31`. -/
theorem blobTypeLength_toInt {t : ℕ} (ht : t < 2 ^ 32) :
    blobTypeLength (toInt t) = if 14 ≤ t ∧ t < 2 ^ 31 ∧ t % 2 = 0 then some (((t - 12) / 2 : ℕ) : ℤ) else none := by
  rw [blobTypeLength]
  by_cases hsmall : t < 2 ^ 31
  · rw [toInt_natCast hsmall]
    by_cases hblob : 14 ≤ t ∧ t % 2 = 0
    · rw [if_neg (by omega), if_pos ⟨hblob.1, hsmall, hblob.2⟩]
      have hhalf : ((t : ℤ) - 12) / 2 = ((t - 12) / 2 : ℕ) := by omega
      rw [hhalf]
    · rw [if_pos (by omega), if_neg fun h => hblob ⟨h.1, h.2.2⟩]
  · have hneg := toInt_neg ht (not_lt.mp hsmall)
    rw [if_pos (by omega), if_neg fun h => hsmall h.2.1]

end Parsing

section Bounds

/-- A length computed in 64 bits, kept in an `int` and taken for 64 bits again. -/
def trailerLen (i : ℤ) : ℕ := toU64 (toInt (toU64 i))

theorem toU64_of_neg {i : ℤ} (hneg : i < 0) (hlow : -2 ^ 63 ≤ i) : 2 ^ 63 ≤ toU64 i := by
  unfold toU64
  omega

/-- The low 32 bits, as an `int`. -/
theorem toInt_toU64 (i : ℤ) :
    i % 2 ^ 32 < 2 ^ 31 ∧ toInt (toU64 i) = i % 2 ^ 32 ∨
      2 ^ 31 ≤ i % 2 ^ 32 ∧ toInt (toU64 i) = i % 2 ^ 32 - 2 ^ 32 := by
  have hu : (toU64 i : ℤ) = i % 2 ^ 64 := by
    unfold toU64
    omega
  unfold toInt
  rw [hu, Int.bmod_def]
  push_cast
  split_ifs <;> omega

/-- The column of an index ends inside the payload when the difference is neither negative nor made
so by the `int`. -/
theorem trailerLen_inside_iff {n r c : ℕ} (hn : n < 2 ^ 63) (hr : r ≤ 8) (hc : c < n + 2 ^ 31) :
    c + trailerLen (n - r - c) ≤ n ↔ c + r ≤ n ∧ (n - c - r) % 2 ^ 32 < 2 ^ 31 := by
  obtain ⟨i, hi⟩ : ∃ i : ℤ, (n : ℤ) - r - c = i := ⟨_, rfl⟩
  rw [hi, trailerLen]
  rcases toInt_toU64 i with ⟨hsmall, hint⟩ | ⟨hlarge, hint⟩
  · have hlen : (toU64 (toInt (toU64 i)) : ℤ) = i % 2 ^ 32 := by
      rw [hint]
      unfold toU64
      omega
    omega
  · have hlen := toU64_of_neg (i := toInt (toU64 i)) (by omega) (by omega)
    omega

variable {F : SqliteFormat} {zData : Bytes} {nHeader nData nParsed nOffset nCol nField : ℕ} {ts : List ℕ}

/-- What `lumoExtensionPresent` tells about a payload, if it finds a column, lies inside it. -/
def InsidePayload (found : Option (Option (ℕ × ℕ))) (nData : ℕ) : Prop :=
  ∀ nStart nLen, found = some (some (nStart, nLen)) → nStart + nLen ≤ nData

theorem present_not_described {isIndex : Bool} (htypes : HeaderTypes F zData nHeader nOffset ts)
    (hHeader : nHeader + 8 < 2 ^ 32) (hData : nData < 2 ^ 63)
    (h : ¬ Describes F nData nCol ts (nField - nParsed)) :
    lumoExtensionPresent F isIndex nParsed nOffset nCol nField zData nHeader nData = some none := by
  obtain ⟨left, nOffset', nCol', hrun⟩ := skipColumns_left htypes hHeader hData h
  rw [lumoExtensionPresent, hrun]
  simp

/-- In a table the entry behind the columns tells where the column is. -/
theorem present_table_iff (htypes : HeaderTypes F zData nHeader nOffset ts)
    (hHeader : nHeader + 8 < 2 ^ 32) (hData : nData < 2 ^ 63)
    (h : Describes F nData nCol ts (nField - nParsed)) {nStart nLen : ℕ} :
    lumoExtensionPresent F false nParsed nOffset nCol nField zData nHeader nData = some (some (nStart, nLen)) ↔
      ∃ t, ts[nField - nParsed]? = some t ∧ 22 ≤ t ∧ t < 2 ^ 31 ∧ t % 2 = 0 ∧
        nStart = columnsEnd F nCol ts (nField - nParsed) ∧ nLen = (t - 12) / 2 := by
  obtain ⟨nOffset', hrun, hrest⟩ := skipColumns_describes htypes hHeader hData h
  rw [lumoExtensionPresent, hrun]
  simp only [Option.bind_eq_bind, Option.bind_some, lt_irrefl, if_false, Bool.false_eq_true,
    blobLength_eq hrest, List.head?_drop]
  cases hentry : ts[nField - nParsed]? with
  | none => simp
  | some t =>
    have ht := htypes.types_lt t (List.mem_of_getElem? hentry)
    have hmagic : lumoExtensionMagic.length = 4 := rfl
    rw [Option.bind_some, blobTypeLength_toInt ht]
    by_cases hblob : 14 ≤ t ∧ t < 2 ^ 31 ∧ t % 2 = 0
    · have hlen : toU64 (((t - 12) / 2 : ℕ) : ℤ) = (t - 12) / 2 := toU64_natCast (by omega)
      simp only [if_pos hblob, hlen, hmagic]
      split_ifs with hsmall
      · simp only [Option.some.injEq, reduceCtorEq, false_iff]
        rintro ⟨u, rfl, hbig, -⟩
        omega
      · simp only [Option.some.injEq, Prod.mk.injEq]
        constructor
        · rintro ⟨rfl, rfl⟩
          exact ⟨t, rfl, by omega, hblob.2.1, hblob.2.2, rfl, rfl⟩
        · rintro ⟨u, rfl, -, -, -, rfl, rfl⟩
          exact ⟨rfl, rfl⟩
    · simp only [if_neg hblob, Option.some.injEq, reduceCtorEq, false_iff]
      rintro ⟨u, rfl, hbig, hlt, heven, -⟩
      exact hblob ⟨by omega, hlt, heven⟩

/-- In an index everything between the columns and the rowid's copy is taken for the column. -/
theorem present_index_iff (htypes : HeaderTypes F zData nHeader nOffset ts)
    (hHeader : nHeader + 8 < 2 ^ 32) (hData : nData < 2 ^ 63)
    (h : Describes F nData nCol ts (nField - nParsed)) {nStart nLen : ℕ} :
    lumoExtensionPresent F true nParsed nOffset nCol nField zData nHeader nData = some (some (nStart, nLen)) ↔
      ∃ t, 0 < nHeader ∧ zData[nHeader - 1]? = some t ∧ isRowidType t.toNat = true ∧
        nStart = columnsEnd F nCol ts (nField - nParsed) ∧
        nLen = trailerLen (nData - F.sqlite3VdbeSerialTypeLen t.toNat - columnsEnd F nCol ts (nField - nParsed)) ∧
        4 < nLen := by
  obtain ⟨nOffset', hrun, -⟩ := skipColumns_describes htypes hHeader hData h
  have hmagic : lumoExtensionMagic.length = 4 := rfl
  rw [lumoExtensionPresent, hrun]
  simp only [Option.bind_eq_bind, Option.bind_some, lt_irrefl, if_false, if_true, trailerLength, hmagic]
  by_cases hzero : nHeader = 0
  · simp [hzero]
  · simp only [if_neg hzero]
    cases hlast : zData[nHeader - 1]? with
    | none => simp
    | some t =>
      by_cases hrowid : isRowidType t.toNat = true
      · obtain ⟨iLen, hiLen⟩ : ∃ iLen, toInt (toU64 ((nData : ℤ) - F.sqlite3VdbeSerialTypeLen t.toNat -
            columnsEnd F nCol ts (nField - nParsed))) = iLen := ⟨_, rfl⟩
        have hlen : trailerLen (nData - F.sqlite3VdbeSerialTypeLen t.toNat - columnsEnd F nCol ts (nField - nParsed)) =
            toU64 iLen := by rw [trailerLen, hiLen]
        simp only [Option.bind_some, hrowid, Bool.not_true, Bool.false_eq_true, if_false, hiLen]
        split_ifs with hsmall
        · simp only [Option.some.injEq, reduceCtorEq, false_iff]
          rintro ⟨u, -, rfl, -, -, hu, hbig⟩
          rw [hlen] at hu
          omega
        · simp only [Option.some.injEq, Prod.mk.injEq]
          constructor
          · rintro ⟨rfl, rfl⟩
            exact ⟨t, Nat.pos_of_ne_zero hzero, rfl, hrowid, rfl, hlen.symm, not_le.mp hsmall⟩
          · rintro ⟨u, -, rfl, -, rfl, hu, -⟩
            exact ⟨rfl, (hu.trans hlen).symm⟩
      · simp only [Option.bind_some, Bool.eq_false_iff.mpr hrowid, Bool.not_false, if_true,
          Option.some.injEq, reduceCtorEq, false_iff]
        rintro ⟨u, -, rfl, hrowid', -⟩
        exact hrowid hrowid'

theorem isRowidType_len {t : ℕ} (h : isRowidType t = true) : F.sqlite3VdbeSerialTypeLen t ≤ 8 := by
  have ht := isRowidType_lt h
  rw [F.serialTypeLen_eq t (by omega)]
  interval_cases t <;> decide

/-- A short trailer, for which no column is reported, is inside the payload. -/
theorem trailerLen_small {n r c : ℕ} (hn : n < 2 ^ 63) (hr : r ≤ 8) (hc : c < n + 2 ^ 31)
    (h : trailerLen (n - r - c) ≤ 4) : c + trailerLen (n - r - c) ≤ n := by
  obtain ⟨i, hi⟩ : ∃ i : ℤ, (n : ℤ) - r - c = i := ⟨_, rfl⟩
  rw [hi] at h ⊢
  rw [trailerLen] at h ⊢
  rcases toInt_toU64 i with ⟨hsmall, hint⟩ | ⟨hlarge, hint⟩
  · have hlen : (toU64 (toInt (toU64 i)) : ℤ) = i % 2 ^ 32 := by
      rw [hint]
      unfold toU64
      omega
    omega
  · have hlen := toU64_of_neg (i := toInt (toU64 i)) (by omega) (by omega)
    omega

theorem inside_table_iff (htypes : HeaderTypes F zData nHeader nOffset ts)
    (hHeader : nHeader + 8 < 2 ^ 32) (hData : nData < 2 ^ 63) :
    InsidePayload (lumoExtensionPresent F false nParsed nOffset nCol nField zData nHeader nData) nData ↔
      LumoFits F false zData nHeader nData nCol ts (nField - nParsed) := by
  constructor
  · intro hinside hdescribes t ht hbig hlt heven
    exact hinside _ _ ((present_table_iff htypes hHeader hData hdescribes).mpr
      ⟨t, ht, hbig, hlt, heven, rfl, rfl⟩)
  · intro hfits nStart nLen hfound
    by_cases hdescribes : Describes F nData nCol ts (nField - nParsed)
    · obtain ⟨t, ht, hbig, hlt, heven, rfl, rfl⟩ :=
        (present_table_iff htypes hHeader hData hdescribes).mp hfound
      exact hfits hdescribes t ht hbig hlt heven
    · simp [present_not_described htypes hHeader hData hdescribes] at hfound

theorem inside_index_iff (htypes : HeaderTypes F zData nHeader nOffset ts)
    (hHeader : nHeader + 8 < 2 ^ 32) (hData : nData < 2 ^ 63) (hcol : nCol ≤ nData) :
    InsidePayload (lumoExtensionPresent F true nParsed nOffset nCol nField zData nHeader nData) nData ↔
      LumoFits F true zData nHeader nData nCol ts (nField - nParsed) := by
  constructor
  · intro hinside hdescribes t hpos hlast hrowid
    have hlen := isRowidType_len (F := F) hrowid
    have hend := columnsEnd_lt htypes.types_lt hcol hdescribes
    rw [← trailerLen_inside_iff hData hlen hend]
    by_cases hbig : 4 < trailerLen (nData - F.sqlite3VdbeSerialTypeLen t.toNat -
        columnsEnd F nCol ts (nField - nParsed))
    · exact hinside _ _ ((present_index_iff htypes hHeader hData hdescribes).mpr
        ⟨t, hpos, hlast, hrowid, rfl, rfl, hbig⟩)
    · exact trailerLen_small hData hlen hend (not_lt.mp hbig)
  · intro hfits nStart nLen hfound
    by_cases hdescribes : Describes F nData nCol ts (nField - nParsed)
    · obtain ⟨t, hpos, hlast, hrowid, hstart, hlen, -⟩ :=
        (present_index_iff htypes hHeader hData hdescribes).mp hfound
      have hend := columnsEnd_lt htypes.types_lt hcol hdescribes
      have hroom := hfits hdescribes t hpos hlast hrowid
      rw [← trailerLen_inside_iff hData (isRowidType_len hrowid) hend] at hroom
      rw [hstart, hlen]
      exact hroom
    · simp [present_not_described htypes hHeader hData hdescribes] at hfound

/-- Whatever the serial types are, the column that `lumoExtensionPresent` reports lies inside the
payload exactly when it fits. -/
theorem lumo_column_inside_iff {isIndex : Bool} (htypes : HeaderTypes F zData nHeader nOffset ts)
    (hHeader : nHeader + 8 < 2 ^ 32) (hData : nData < 2 ^ 63) (hcol : nCol ≤ nData) :
    InsidePayload (lumoExtensionPresent F isIndex nParsed nOffset nCol nField zData nHeader nData) nData ↔
      LumoFits F isIndex zData nHeader nData nCol ts (nField - nParsed) := by
  cases isIndex with
  | false => exact inside_table_iff htypes hHeader hData
  | true => exact inside_index_iff htypes hHeader hData hcol

/-- A damaged table row: a blob of 44 bytes is announced behind the only column. -/
theorem lumo_column_inside_iff_sample :
    InsidePayload (lumoExtensionPresent documented false 0 1 3 1 [3, 1, 100, 5, 7] 3 5) 5 ↔
      LumoFits documented false [3, 1, 100, 5, 7] 3 5 3 [1, 100] 1 := by
  have htypes : HeaderTypes documented [3, 1, 100, 5, 7] 3 1 [1, 100] := by
    apply HeaderTypes.entry (n := 1) (by omega) (by decide +kernel)
    apply HeaderTypes.entry (n := 1) (by omega) (by decide +kernel)
    exact HeaderTypes.done (le_refl _)
  exact lumo_column_inside_iff htypes (by omega) (by omega) (by omega)

end Bounds

section Records

variable {F : SqliteFormat}

/-- Every header in memory has some serial types, when nine bytes are enough for a varint. -/
theorem exists_headerTypes (hget : ∀ bs, 9 ≤ bs.length → (F.getVarint32 bs).isSome) (zData : Bytes) (nHeader : ℕ)
    (hmem : nHeader + 8 ≤ zData.length) (nOffset : ℕ) : ∃ ts, HeaderTypes F zData nHeader nOffset ts := by
  obtain ⟨left, hleft⟩ : ∃ left, nHeader - nOffset = left := ⟨_, rfl⟩
  induction left using Nat.strong_induction_on generalizing nOffset with
  | _ left ih =>
    by_cases hlt : nOffset < nHeader
    · obtain ⟨⟨t, n⟩, htn⟩ := Option.isSome_iff_exists.mp
        (hget (zData.drop nOffset) (by rw [List.length_drop]; omega))
      have hn := (F.getVarint32_bounds _ _ _ htn).2.1
      obtain ⟨ts, hts⟩ := ih (nHeader - (nOffset + n)) (by omega) (nOffset + n) rfl
      exact ⟨t :: ts, HeaderTypes.entry hlt htn hts⟩
    · exact ⟨[], HeaderTypes.done (not_lt.mp hlt)⟩

theorem getGroups_isSome (bs : Bytes) (i acc : ℕ) (hi : i ≤ 8) (hlen : 9 ≤ i + bs.length) :
    (getGroups i acc bs).isSome := by
  induction bs generalizing i acc with
  | nil =>
    simp only [List.length_nil] at hlen
    omega
  | cons b bs ih =>
    simp only [List.length_cons] at hlen
    rw [getGroups]
    split_ifs with h8 hb
    · rfl
    · rfl
    · exact ih (i + 1) _ (by omega) (by omega)

theorem documented_headerTypes (zData : Bytes) (nHeader nOffset : ℕ) (hmem : nHeader + 8 ≤ zData.length) :
    ∃ ts, HeaderTypes documented zData nHeader nOffset ts := by
  apply exists_headerTypes _ zData nHeader hmem nOffset
  intro bs hlen
  change (documentedGet bs).isSome
  rw [documentedGet, Option.isSome_map]
  exact getGroups_isSome bs 0 0 (by omega) (by omega)

theorem headerTypes_put {zData rest : Bytes} {nHeader : ℕ} (ts : List ℕ) (o : ℕ) (hts : ∀ t ∈ ts, t < 2 ^ 32)
    (hdata : zData.drop o = ts.flatMap F.putVarint32 ++ rest)
    (hhdr : o + (ts.flatMap F.putVarint32).length = nHeader) : HeaderTypes F zData nHeader o ts := by
  induction ts generalizing o with
  | nil => exact HeaderTypes.done (by simpa using hhdr.ge)
  | cons t ts ih =>
    have ht := hts t List.mem_cons_self
    have hput := F.putVarint32_length t ht
    have hpos := varintSize_pos t
    have hget := F.getVarint32_put t (ts.flatMap F.putVarint32 ++ rest) ht
    simp only [List.flatMap_cons, List.append_assoc, List.length_append] at hdata hhdr
    rw [← hdata] at hget
    apply HeaderTypes.entry (by omega) hget
    apply ih
    · exact fun u hu => hts u (List.mem_cons_of_mem _ hu)
    · rw [← List.drop_drop, hdata, List.drop_left' hput]
    · omega

namespace Record

theorem headerTypes (R : Record F) {pre post : List ℕ} (ht : R.types = pre ++ post) (tail : Bytes) :
    HeaderTypes F (R.header ++ tail) R.nHdr (R.entryOffset pre) post := by
  have hlen := R.header_length
  simp only [header, ht, List.flatMap_append, List.length_append] at hlen
  have hpre : R.header ++ tail = (F.putVarint32 R.nHdr ++ pre.flatMap F.putVarint32) ++
      (post.flatMap F.putVarint32 ++ tail) := by
    simp only [header, ht, List.flatMap_append, List.append_assoc]
  have hdrop : (R.header ++ tail).drop (R.entryOffset pre) = post.flatMap F.putVarint32 ++ tail := by
    rw [hpre, List.drop_left' (by rw [List.length_append, entryOffset])]
  apply headerTypes_put post _ _ hdrop
  · rw [entryOffset]
    omega
  · intro t hpost
    exact R.types_lt t (by simp [ht, hpost])

theorem columnOffset_append (R : Record F) (pre mid : List ℕ) :
    R.columnOffset (pre ++ mid) = R.columnOffset pre + (mid.map F.sqlite3VdbeSerialTypeLen).sum := by
  simp [columnOffset, Nat.add_assoc]

theorem columnOffset_types (R : Record F) : R.columnOffset R.types = R.size := by
  rw [columnOffset, R.size_eq]

/-- In an intact table record whatever follows any number of columns lies inside the payload. -/
theorem table_fits (R : Record F) {pre post : List ℕ} (ht : R.types = pre ++ post) (zData : Bytes) (k : ℕ) :
    LumoFits F false zData R.nHdr R.size (R.columnOffset pre) post k := by
  intro _ t hentry hbig hlt _
  have hk := (List.getElem?_eq_some_iff.mp hentry).1
  have hsplit : R.types = pre ++ post.take k ++ t :: post.drop (k + 1) := by
    have hget : post[k] = t := (List.getElem?_eq_some_iff.mp hentry).2
    rw [ht, List.append_assoc, ← hget, List.getElem_cons_drop, List.take_append_drop]
  have hend := R.columnOffset_types
  have hlen : F.sqlite3VdbeSerialTypeLen t = (t - 12) / 2 := by
    rw [F.serialTypeLen_eq t (by omega)]
    unfold serialTypeSize
    rw [if_pos (by omega)]
  rw [hsplit, columnOffset_append, columnOffset_append, List.map_cons, List.sum_cons, hlen] at hend
  rw [columnsEnd]
  omega

/-- An index entry written without the extension ends with its rowid: what is found behind it
has a negative length. -/
theorem plain_index_overruns (R : Record F) {pre mid : List ℕ} {t : ℕ} (ht : R.types = pre ++ (mid ++ [t]))
    (hrowid : isRowidType t = true) (hlen : 0 < F.sqlite3VdbeSerialTypeLen t) (hR : R.size < 2 ^ 30)
    (hz : R.nZero = 0) :
    ¬ InsidePayload (lumoExtensionPresent F true pre.length (R.entryOffset pre) (R.columnOffset pre)
      R.types.length R.packed R.nHdr R.size) R.size := by
  have hbyte : R.RowidByte t := R.rowidByte (ht.trans (List.append_assoc _ _ _).symm) hrowid hz
  have hlast : R.packed[R.nHdr - 1]? = some (UInt8.ofNat t) := last_byte_append hbyte _
  have htype : (UInt8.ofNat t).toNat = t := by
    have := isRowidType_lt hrowid
    rw [UInt8.toNat_ofNat', Nat.mod_eq_of_lt (by omega)]
  have hend := R.columnOffset_types
  rw [ht, columnOffset_append] at hend
  have hleft : R.types.length - pre.length = (mid ++ [t]).length := by simp [ht]
  have hdescribes : Describes F R.size (R.columnOffset pre) (mid ++ [t]) (mid ++ [t]).length := by
    refine ⟨le_refl _, fun j hj => ?_⟩
    have hsum : (((mid ++ [t]).take j).map F.sqlite3VdbeSerialTypeLen).sum ≤ (mid.map F.sqlite3VdbeSerialTypeLen).sum := by
      rw [List.take_append_of_le_length (by simpa [Nat.lt_succ_iff] using hj)]
      conv_rhs => rw [← List.take_append_drop j mid, List.map_append, List.sum_append]
      exact Nat.le_add_right _ _
    simp only [List.map_append, List.sum_append, List.map_cons, List.map_nil, List.sum_cons, List.sum_nil] at hend
    rw [columnsEnd]
    omega
  have htypes : HeaderTypes F R.packed R.nHdr (R.entryOffset pre) (mid ++ [t]) := R.headerTypes ht R.body
  have hHeader := R.nHdr_lt hR
  rw [lumo_column_inside_iff htypes (by omega) (by omega) (by omega), hleft]
  intro hfits
  have hroom := (hfits hdescribes (UInt8.ofNat t) R.nHdr_pos hlast (by rwa [htype])).1
  rw [htype, columnsEnd, List.take_length] at hroom
  omega

end Record

end Records

/-- A row of an index on one column, key `5` and rowid `7`, as a database holds it that the
extension never wrote to: the column is reported behind the end, as long as the address space. -/
theorem unextended_index_row_overruns :
    lumoExtensionPresent documented true 0 1 3 2 [3, 1, 1, 5, 7] 3 5 = some (some (5, 2 ^ 64 - 1)) ∧
      ¬ InsidePayload (lumoExtensionPresent documented true 0 1 3 2 [3, 1, 1, 5, 7] 3 5) 5 := by
  have hfound : lumoExtensionPresent documented true 0 1 3 2 [3, 1, 1, 5, 7] 3 5 = some (some (5, 2 ^ 64 - 1)) := by
    decide +kernel
  refine ⟨hfound, fun hinside => ?_⟩
  have hend := hinside 5 (2 ^ 64 - 1) hfound
  omega

end LumoSql.LumoExtension
