import LumoSql.LumoExtension

/-! What the checker makes of a well-formed Lumo column, element by element, and when it
reports a rowsum that does not hold. -/
namespace LumoSql.LumoExtension
open RowsumAlgorithms SqliteRecordFormat

variable (F : SqliteFormat) (H : RowsumHashes)

/-- One element of a Lumo column. -/
structure Element where
  xtype : ℕ
  xsubtype : ℕ
  data : Bytes
  deriving DecidableEq

/-- The bytes from `zH` to `zEnd` are the given elements. -/
inductive ElementsAt (zRow : Bytes) (zEnd : ℕ) : ℕ → List Element → Prop
  | done : ElementsAt zRow zEnd zEnd []
  | element {zH n₁ n₂ n₃ : ℕ} {e : Element} {es : List Element}
      (htype : F.getVarint32 (zRow.drop zH) = some (e.xtype, n₁))
      (hend : e.xtype ≠ lumoEndType)
      (hsub : F.getVarint32 (zRow.drop (zH + n₁)) = some (e.xsubtype, n₂))
      (hlen : F.getVarint32 (zRow.drop (zH + n₁ + n₂)) = some (e.data.length, n₃))
      (hdata : (zRow.drop (zH + n₁ + n₂ + n₃)).take e.data.length = e.data)
      (hnext : ElementsAt zRow zEnd (zH + n₁ + n₂ + n₃ + e.data.length) es) :
      ElementsAt zRow zEnd zH (e :: es)

/-- A well-formed Lumo column: magic, elements, end byte. -/
structure LumoColumn (zRow : Bytes) (nLen : ℕ) (elements : List Element) : Prop where
  length : lumoExtensionMagic.length < nLen ∧ nLen ≤ zRow.length
  magic : zRow.take lumoExtensionMagic.length = lumoExtensionMagic
  last : zRow[nLen - 1]? = some (UInt8.ofNat lumoEndType)
  elements : ElementsAt F zRow (nLen - 1) lumoExtensionMagic.length elements

/-- A piece of the first `nSum` bytes of the row cannot be read. -/
def Unreadable (pC : PayloadReader) (nSum : ℕ) : Prop := readChunks pC nSum nSum 0 = none

instance (pC : PayloadReader) (nSum : ℕ) : Decidable (Unreadable pC nSum) :=
  inferInstanceAs (Decidable (readChunks pC nSum nSum 0 = none))

/-- Each piece of at most 4096 bytes in which the first `nSum` bytes are hashed can be read. -/
def Readable (pC : PayloadReader) (nSum : ℕ) : Prop :=
  ∀ k, 4096 * k < nSum → (pC.sqlite3BtreePayload (4096 * k) (min 4096 (nSum - 4096 * k))).isSome

theorem readChunks_isSome {pC : PayloadReader} (fuel nCheck nPos : ℕ) (hfuel : nCheck ≤ fuel) :
    (readChunks pC fuel nCheck nPos).isSome ↔ ∀ k, 4096 * k < nCheck →
      (pC.sqlite3BtreePayload (nPos + 4096 * k) (min 4096 (nCheck - 4096 * k))).isSome := by
  induction fuel generalizing nCheck nPos with
  | zero =>
    obtain rfl := Nat.le_zero.mp hfuel
    simp [readChunks]
  | succ fuel ih =>
    by_cases hpos : 0 < nCheck
    · have htodo : (if nCheck < 4096 then nCheck else 4096) = min 4096 nCheck := by
        split_ifs <;> omega
      have hrest := ih (nCheck - min 4096 nCheck) (nPos + min 4096 nCheck) (by omega)
      simp only [readChunks, if_pos hpos, htodo, Option.bind_eq_bind]
      cases hbuf : pC.sqlite3BtreePayload nPos (min 4096 nCheck) with
      | none =>
        simp only [Option.bind_none, Option.isSome_none, Bool.false_eq_true, false_iff, not_forall]
        exact ⟨0, by omega, by simp [hbuf]⟩
      | some buffer =>
        have hcons : ((readChunks pC fuel (nCheck - min 4096 nCheck) (nPos + min 4096 nCheck)).bind
            fun rest => some (buffer :: rest)).isSome =
            (readChunks pC fuel (nCheck - min 4096 nCheck) (nPos + min 4096 nCheck)).isSome := by
          cases readChunks pC fuel (nCheck - min 4096 nCheck) (nPos + min 4096 nCheck) <;> rfl
        have hpiece : ∀ k, 4096 * k < nCheck - min 4096 nCheck →
            pC.sqlite3BtreePayload (nPos + 4096 * (k + 1)) (min 4096 (nCheck - 4096 * (k + 1))) =
              pC.sqlite3BtreePayload (nPos + min 4096 nCheck + 4096 * k)
                (min 4096 (nCheck - min 4096 nCheck - 4096 * k)) :=
          fun k hk => congrArg₂ _ (by omega) (congrArg _ (by omega))
        rw [Option.bind_some, hcons, hrest]
        constructor
        · rintro h (_ | k) hk
          · simp [hbuf]
          · have hk' : 4096 * k < nCheck - min 4096 nCheck := by omega
            exact (congrArg Option.isSome (hpiece k hk')).trans (h k hk')
        · exact fun h k hk => (congrArg Option.isSome (hpiece k hk)).symm.trans (h (k + 1) (by omega))
    · obtain rfl := Nat.eq_zero_of_not_pos hpos
      simp [readChunks]

theorem not_unreadable_iff {pC : PayloadReader} {nSum : ℕ} :
    ¬ Unreadable pC nSum ↔ Readable pC nSum := by
  rw [Unreadable, ← Ne, ← Option.isSome_iff_ne_none, readChunks_isSome nSum nSum 0 (le_refl _),
    Readable]
  simp only [Nat.zero_add]

instance (pC : PayloadReader) (nSum : ℕ) : Decidable (Readable pC nSum) :=
  decidable_of_iff (¬ Unreadable pC nSum) not_unreadable_iff

/-- A reader that never fails inside the stored row. -/
def PayloadReader.Complete (pC : PayloadReader) : Prop :=
  ∀ offset amt, offset + amt ≤ pC.stored.length → (pC.sqlite3BtreePayload offset amt).isSome

theorem PayloadReader.Complete.readable {pC : PayloadReader} (h : pC.Complete) {nSum : ℕ}
    (hle : nSum ≤ pC.stored.length) : Readable pC nSum := by
  intro k hk
  exact h _ _ (by omega)

inductive RowsumStatus
  | other | unknown | wrongLength | rejected | accepted
  deriving DecidableEq

/-- How an element stands to the first `nSum` bytes of the stored row. -/
def Element.status (pC : PayloadReader) (nSum : ℕ) (e : Element) : RowsumStatus :=
  if e.xtype ≠ lumoRowsumType then .other
  else match (lumoRowsumAlgorithms H)[e.xsubtype]? with
    | none => .unknown
    | some spec =>
      if spec.length ≠ e.data.length then .wrongLength
      else if e.data.length = 0 then .accepted
      else if Unreadable pC nSum then .rejected
      else if e.data = spec.digest (pC.stored.take nSum) then .accepted
      else .rejected

/-- What the statuses amount to when rowsums are checked, `need` as on entry. -/
def verdict : Bool → List RowsumStatus → ℤ
  | need, [] => if need then -1 else 1
  | need, .other :: sts => verdict need sts
  | _, .unknown :: sts => verdict false sts
  | _, .wrongLength :: _ => -1
  | need, .rejected :: sts => verdict need sts
  | _, .accepted :: sts => verdict false sts

theorem verdict_eq (need : Bool) (sts : List RowsumStatus) :
    verdict need sts = -1 ↔ .wrongLength ∈ sts ∨
      (need = true ∧ .unknown ∉ sts ∧ .accepted ∉ sts) := by
  induction sts generalizing need with
  | nil => cases need <;> simp [verdict]
  | cons st sts ih =>
    cases st <;> cases need <;> simp [verdict, ih]

variable {F H}

/-- What the pieces read amount to, when they can be read. -/
theorem readChunks_flatten {pC : PayloadReader} (fuel nCheck nPos : ℕ) (hfuel : nCheck ≤ fuel)
    {chunks : List Bytes} (h : readChunks pC fuel nCheck nPos = some chunks) :
    chunks.flatten = (pC.stored.drop nPos).take nCheck := by
  induction fuel generalizing nCheck nPos chunks with
  | zero =>
    obtain rfl := Nat.le_zero.mp hfuel
    obtain rfl := Option.some.inj h
    simp
  | succ fuel ih =>
    by_cases hpos : 0 < nCheck
    · simp only [readChunks, if_pos hpos, Option.bind_eq_bind, Option.bind_eq_some_iff,
        Option.some.injEq] at h
      obtain ⟨buffer, hbuf, rest, hrest, rfl⟩ := h
      obtain ⟨_, rfl⟩ := pC.payload_eq _ _ _ hbuf
      have htodo : 0 < (if nCheck < 4096 then nCheck else 4096) := by split_ifs <;> omega
      have hle : (if nCheck < 4096 then nCheck else 4096) ≤ nCheck := by split_ifs <;> omega
      rw [List.flatten_cons, ih _ _ (by omega) hrest, ← List.drop_drop, ← List.take_add]
      congr 1
      omega
    · obtain rfl := Nat.eq_zero_of_not_pos hpos
      obtain rfl : [] = chunks := by simpa [readChunks] using h
      simp

/-- The digest the checker computes is that of the stored bytes. -/
theorem final_readChunks {n : ℕ} (h : StreamHash n) {pC : PayloadReader} {nSum : ℕ}
    {chunks : List Bytes} (hc : readChunks pC nSum nSum 0 = some chunks) :
    h.final (chunks.foldl h.update h.init) = h.generate (pC.stored.take nSum) := by
  rw [h.final_foldl, readChunks_flatten nSum nSum 0 (le_refl _) hc, List.drop_zero]

theorem readChunks_some {pC : PayloadReader} {nSum : ℕ} (h : ¬ Unreadable pC nSum) :
    ∃ chunks, readChunks pC nSum nSum 0 = some chunks :=
  Option.ne_none_iff_exists'.mp h

/-- One check by the status of the element. -/
theorem checkRowsum_status {pC : PayloadReader} {nSum : ℕ} {e : Element}
    (he : e.xtype = lumoRowsumType) {zH : Bytes} (hz : zH.take e.data.length = e.data)
    (need : Bool) :
    checkRowsum H zH e.data.length e.xsubtype nSum pC need =
      match e.status H pC nSum with
      | .other => some (1, need)
      | .unknown => some (1, false)
      | .wrongLength => some (0, need)
      | .rejected => some (-1, need)
      | .accepted => some (1, false) := by
  have hzlen : ¬ zH.length < e.data.length := by
    have := congrArg List.length hz
    rw [List.length_take] at this
    omega
  rw [Element.status, if_neg (not_not.mpr he)]
  cases hs : (lumoRowsumAlgorithms H)[e.xsubtype]? with
  | none => simp [checkRowsum, hs]
  | some spec =>
    by_cases hl : spec.length = e.data.length
    · by_cases h0 : e.data.length = 0
      · simp [checkRowsum, hs, hl, h0]
      · have hpos : 0 < spec.length := by omega
        obtain ⟨h, hh⟩ := Option.isSome_iff_exists.mp ((spec_hash_isSome hs).mpr hpos)
        by_cases hu : Unreadable pC nSum
        · have hu' : readChunks pC nSum nSum 0 = none := hu
          simp [checkRowsum, hs, hl, h0, hh, hu, hu']
        · obtain ⟨chunks, hc⟩ := readChunks_some hu
          have hdigest : h.final (chunks.foldl h.update h.init) =
              spec.digest (pC.stored.take nSum) := by
            rw [final_readChunks h hc, LumoRowsumSpec.digest, hh]
          simp only [checkRowsum, hs, hl, ne_eq, not_true_eq_false, if_false, h0, not_false_eq_true,
            if_true, hh, hc, hdigest, hz, hu, hzlen]
          by_cases hd : spec.digest (pC.stored.take nSum) = e.data
          · simp [hd]
          · rw [if_pos hd, if_neg (fun h => hd h.symm)]
    · simp [checkRowsum, hs, hl]

theorem ElementsAt.le {zRow : Bytes} {zEnd zH : ℕ} {es : List Element}
    (h : ElementsAt F zRow zEnd zH es) : zH ≤ zEnd := by
  induction h with
  | done => exact le_refl _
  | element _ _ _ _ _ _ ih => omega

/-- What the loop looks at: nothing when rowsums are not checked. -/
def checkedStatuses (H : RowsumHashes) (check : ℕ) (pC : PayloadReader) (nSum : ℕ)
    (es : List Element) : List RowsumStatus :=
  if check = 0 then [] else es.map (Element.status H pC nSum)

/-- The loop over well-formed elements computes the verdict. -/
theorem handleElements_verdict {check : ℕ} {zRow : Bytes} {zEnd nSum : ℕ}
    {pC : PayloadReader} {zH : ℕ} {es : List Element} (h : ElementsAt F zRow zEnd zH es)
    (fuel : ℕ) (hfuel : zEnd - zH < fuel) (need : Bool) :
    handleElements F H check zRow zEnd nSum pC fuel zH need =
      some (verdict need (checkedStatuses H check pC nSum es)) := by
  induction h generalizing fuel need with
  | done =>
    obtain ⟨fuel, rfl⟩ := Nat.exists_eq_succ_of_ne_zero (by omega : fuel ≠ 0)
    rw [handleElements, if_neg (lt_irrefl _)]
    cases need <;> simp [checkedStatuses, verdict]
  | @element zH n₁ n₂ n₃ e es htype hend hsub hlen hdata hnext ih =>
    obtain ⟨fuel, rfl⟩ := Nat.exists_eq_succ_of_ne_zero (by omega : fuel ≠ 0)
    have hle := hnext.le
    obtain ⟨_, hn₁, _⟩ := F.getVarint32_bounds _ _ _ htype
    obtain ⟨_, hn₂, _⟩ := F.getVarint32_bounds _ _ _ hsub
    obtain ⟨_, hn₃, _⟩ := F.getVarint32_bounds _ _ _ hlen
    have hrest := ih fuel (by omega)
    rw [handleElements, if_pos (by omega)]
    simp only [htype, Option.bind_eq_bind, Option.bind_some]
    rw [if_neg hend, if_neg (by omega)]
    simp only [hsub, Option.bind_some]
    rw [if_neg (by omega)]
    simp only [hlen, Option.bind_some]
    rw [if_neg (by omega)]
    by_cases hcheck : check = 0
    · rw [if_neg fun h => h.2 hcheck, hrest, checkedStatuses, if_pos hcheck, checkedStatuses,
        if_pos hcheck]
    · rw [checkedStatuses, if_neg hcheck] at hrest ⊢
      by_cases ht : e.xtype = lumoRowsumType
      · rw [if_pos ⟨ht, hcheck⟩, checkRowsum_status ht hdata]
        cases hst : e.status H pC nSum <;> simp [hst, hrest, verdict]
      · have hst : e.status H pC nSum = .other := by rw [Element.status, if_pos ht]
        rw [if_neg (fun h => ht h.1), hrest, List.map_cons, hst, verdict]

theorem handle_verdict {zRow : Bytes} {nLen nSum : ℕ} {es : List Element}
    (h : LumoColumn F zRow nLen es) (check : ℕ) (pC : PayloadReader) :
    lumoExtensionHandle F H check zRow nSum nLen pC =
      some (verdict (decide (1 < check)) (checkedStatuses H check pC nSum es)) := by
  obtain ⟨hmagic, hlen⟩ := h.length
  rw [lumoExtensionHandle, if_neg (by omega)]
  simp only [Option.bind_eq_bind]
  rw [if_neg (by omega), if_neg (not_not.mpr h.magic), h.last]
  simp only [Option.bind_some]
  rw [if_neg (by decide), handleElements_verdict h.elements _ (by omega)]

/-- A rowsum that can be checked and does not hold: its algorithm is known, it has that
algorithm's length, and it is not the hash of the first `nSum` bytes, or these cannot be
read. -/
def Element.Corrupt (H : RowsumHashes) (pC : PayloadReader) (nSum : ℕ) (e : Element) : Prop :=
  e.xtype = lumoRowsumType ∧ ∃ spec, (lumoRowsumAlgorithms H)[e.xsubtype]? = some spec ∧
    spec.length = e.data.length ∧
    (e.data ≠ spec.digest (pC.stored.take nSum) ∨ Unreadable pC nSum)

/-- A corrupt rowsum in a well-formed column is reported exactly when another rowsum has the
wrong length for its algorithm, or every rowsum was demanded and no rowsum is let pass. -/
theorem corruption_reported_iff (F : SqliteFormat) (H : RowsumHashes) {zRow : Bytes} {nLen nSum : ℕ}
    {es : List Element} (hcol : LumoColumn F zRow nLen es) (pC : PayloadReader)
    {e : Element} (_ : e ∈ es) (_ : e.Corrupt H pC nSum) {check : ℕ}
    (hcheck : check = 1 ∨ check = 2) :
    lumoExtensionHandle F H check zRow nSum nLen pC = some (-1) ↔
      (∃ e' ∈ es, e'.status H pC nSum = .wrongLength) ∨
      (check = 2 ∧ ∀ e' ∈ es, e'.status H pC nSum ≠ .unknown ∧ e'.status H pC nSum ≠ .accepted) := by
  rw [handle_verdict hcol, checkedStatuses, if_neg (by omega), Option.some.injEq, verdict_eq]
  have hneed : decide (1 < check) = true ↔ check = 2 := by
    rw [decide_eq_true_iff]
    omega
  rw [hneed]
  simp only [List.mem_map, not_exists, not_and, ne_eq]
  constructor
  · rintro (h | ⟨h2, hu, ha⟩)
    · exact Or.inl h
    · exact Or.inr ⟨h2, fun e' he' => ⟨hu e' he', ha e' he'⟩⟩
  · rintro (h | ⟨h2, hall⟩)
    · exact Or.inl h
    · exact Or.inr ⟨h2, fun e' he' => (hall e' he').1, fun e' he' => (hall e' he').2⟩

/-- A reader of bytes that are all there. -/
def PayloadReader.ofBytes (stored : Bytes) : PayloadReader where
  stored := stored
  sqlite3BtreePayload offset amt :=
    if offset + amt ≤ stored.length then some ((stored.drop offset).take amt) else none
  payload_eq offset amt bs h := by
    split_ifs at h with hle
    exact ⟨hle, (Option.some.inj h).symm⟩

theorem PayloadReader.ofBytes_complete (stored : Bytes) : (ofBytes stored).Complete := by
  intro offset amt h
  have hle : offset + amt ≤ stored.length := h
  simp [ofBytes, hle]

/-- A cursor of the LMDB backend, whose `sqlite3BtreePayload` returns `SQLITE_INTERNAL`. -/
def PayloadReader.lmdb (stored : Bytes) : PayloadReader where
  stored := stored
  sqlite3BtreePayload _ _ := none
  payload_eq := by simp

theorem PayloadReader.readable_lmdb {stored : Bytes} {nSum : ℕ} :
    Readable (lmdb stored) nSum ↔ nSum = 0 := by
  refine ⟨fun h => ?_, fun h k hk => absurd hk (by omega)⟩
  by_contra hpos
  have hnone := h 0 (by omega)
  simp [lmdb] at hnone

def corruptElement : Element := ⟨lumoRowsumType, 8, List.replicate 28 1⟩

def corruptColumn : Bytes :=
  lumoExtensionMagic ++ ([1, 8, 28] ++ (List.replicate 28 1 ++ [UInt8.ofNat lumoEndType]))

theorem corruptColumn_wellFormed : LumoColumn documented corruptColumn 36 [corruptElement] where
  length := by decide
  magic := by decide
  last := by decide
  elements := by
    have htype : documented.getVarint32 (corruptColumn.drop 4) = some (lumoRowsumType, 1) := by decide
    have hsub : documented.getVarint32 (corruptColumn.drop 5) = some (8, 1) := by decide
    have hlen : documented.getVarint32 (corruptColumn.drop 6) = some (28, 1) := by decide
    exact .element htype (by decide) hsub hlen (by decide) .done

theorem corruptElement_corrupt :
    corruptElement.Corrupt prefixHashes (PayloadReader.ofBytes [2, 0]) 2 :=
  ⟨rfl, _, rfl, rfl, Or.inl (by decide)⟩

theorem corruption_reported_iff_sample :
    lumoExtensionHandle documented prefixHashes 2 corruptColumn 2 36 (PayloadReader.ofBytes [2, 0]) =
        some (-1) ↔
      (∃ e' ∈ [corruptElement],
        e'.status prefixHashes (PayloadReader.ofBytes [2, 0]) 2 = .wrongLength) ∨
      (2 = 2 ∧ ∀ e' ∈ [corruptElement],
        e'.status prefixHashes (PayloadReader.ofBytes [2, 0]) 2 ≠ .unknown ∧
        e'.status prefixHashes (PayloadReader.ofBytes [2, 0]) 2 ≠ .accepted) :=
  corruption_reported_iff documented prefixHashes corruptColumn_wellFormed _
    List.mem_cons_self corruptElement_corrupt (Or.inr rfl)

/-- In mode `yes` the checker returns 1 on a row that does not hash to its rowsum. -/
theorem corruption_unreported :
    ¬ ∀ (F : SqliteFormat) (H : RowsumHashes) (zRow : Bytes) (nLen nSum : ℕ) (es : List Element)
      (pC : PayloadReader) (e : Element) (check : ℕ),
      LumoColumn F zRow nLen es → e ∈ es → e.Corrupt H pC nSum → check = 1 ∨ check = 2 →
        lumoExtensionHandle F H check zRow nSum nLen pC = some (-1) := by
  intro h
  have hmode := h documented prefixHashes corruptColumn 36 2 [corruptElement]
    (PayloadReader.ofBytes [2, 0]) corruptElement 1 corruptColumn_wellFormed List.mem_cons_self
    corruptElement_corrupt (Or.inl rfl)
  have hone : lumoExtensionHandle documented prefixHashes 1 corruptColumn 2 36
      (PayloadReader.ofBytes [2, 0]) = some 1 := by decide
  rw [hone] at hmode
  exact absurd hmode (by decide)

end LumoSql.LumoExtension
