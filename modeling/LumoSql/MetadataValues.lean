import LumoSql.TransactionEnd

/-! The metadata as a table of values under keys of one byte, and what writing one of them
does to the others, the commit counter above all. -/
namespace LumoSql.Btree
open StateLogic Lmdb RowidEncoding SortedEntries

/-- Metadata as LMDB keeps it, in the order of its keys of one byte. -/
structure MetaTable (es : Entries) : Prop where
  ascending : Ascending bigEndian es
  keys : ∀ e ∈ es, e.1.length = 1

theorem metaKey_rank (idx : ℕ) : bigEndian (metaKey idx) = idx % 256 := by
  rw [metaKey, bigEndian_cons, bigEndian_nil, UInt8.toNat_ofNat']
  simp

theorem MetaTable.probes {es : Entries} (h : MetaTable es) (idx : ℕ) :
    Probes (byteProbe (metaKey idx)) bigEndian (idx % 256) es := by
  intro e he
  have hlen : (metaKey idx).length = e.1.length := (h.keys e he).symm
  rw [byteProbe, memcmp_eq_compare hlen, metaKey_rank]

theorem overwrite_key {key val : Bytes} {o : Bytes × Bytes} (h : bigEndian o.1 = bigEndian key) :
    bigEndian (overwrite key val o).1 = bigEndian key := by
  rw [overwrite]
  split_ifs
  · exact h
  · rfl

theorem MetaTable.put {es : Entries} (h : MetaTable es) (idx : ℕ) (val : Bytes) :
    MetaTable (putEntry es (metaKey idx) val) := by
  refine ⟨h.ascending.place (h.probes idx) (metaKey_rank idx) fun o ho => ?_, fun e he => ?_⟩
  · rw [← metaKey_rank] at ho ⊢
    exact overwrite_key ho
  · by_cases hrank : bigEndian e.1 = idx % 256
    · rw [putEntry, place] at he
      have hold : ∀ o ∈ es, (overwrite (metaKey idx) val o).1.length = 1 := fun o ho => by
        rw [overwrite]
        split_ifs
        · exact h.keys o ho
        · rfl
      split at he
      · rename_i o ho
        have hmem := List.mem_of_getElem? (mem_of_lookup ho).1
        rcases List.mem_append.mp he with he | he
        · exact h.keys e (List.mem_of_mem_take he)
        · rcases List.mem_cons.mp he with rfl | he
          · exact hold o hmem
          · exact h.keys e (List.mem_of_mem_drop he)
      · rcases List.mem_append.mp he with he | he
        · exact h.keys e (List.mem_of_mem_take he)
        · rcases List.mem_cons.mp he with rfl | he
          · rfl
          · exact h.keys e (List.mem_of_mem_drop he)
    · refine h.keys e ((mem_place_of_ne (h.probes idx) (metaKey_rank idx) (fun o ho => ?_) hrank).mp he)
      rw [← metaKey_rank] at ho ⊢
      exact overwrite_key ho

/-- The value put is the one read. -/
theorem MetaTable.lookup_put {es : Entries} (h : MetaTable es) (idx : ℕ) (val : Bytes) :
    ∃ e, lookup (byteProbe (metaKey idx)) (putEntry es (metaKey idx) val) = some e ∧ e.2 = val := by
  have hm : ∀ o, bigEndian o.1 = idx % 256 →
      bigEndian (overwrite (metaKey idx) val o).1 = idx % 256 := fun o ho => by
    rw [← metaKey_rank] at ho ⊢
    exact overwrite_key ho
  have hfound := h.ascending.lookup_place (h.probes idx) (e := (metaKey idx, val))
    (metaKey_rank idx) hm ((h.put idx val).probes idx)
  refine ⟨_, hfound, ?_⟩
  cases lookup (byteProbe (metaKey idx)) es <;> rfl

/-- Other values stay. -/
theorem MetaTable.lookup_put_of_ne {es : Entries} (h : MetaTable es) {idx idx' : ℕ}
    (hne : idx' % 256 ≠ idx % 256) (val : Bytes) :
    lookup (byteProbe (metaKey idx')) (putEntry es (metaKey idx) val) =
      lookup (byteProbe (metaKey idx')) es := by
  have hput := h.put idx val
  refine lookup_congr hput.ascending h.ascending (hput.probes idx') (h.probes idx') fun e he => ?_
  refine mem_place_of_ne (h.probes idx) (metaKey_rank idx) (fun o ho => ?_) (by rw [he]; exact hne)
  rw [← metaKey_rank] at ho ⊢
  exact overwrite_key ho

/-- The number of values in the header of a database. -/
def headerValues : ℕ := 16

/-- Values of the header have been written. -/
inductive HeaderWritten (o : Option Entries) : Option Entries → Prop
  | refl : HeaderWritten o o
  | put {es : Entries} (h : HeaderWritten o (some es)) (idx iValue : ℕ)
      (hidx : idx < headerValues) :
      HeaderWritten o (some (putEntry es (metaKey idx) (put4byte iValue)))

theorem HeaderWritten.trans {o₁ o₂ o₃ : Option Entries} (h : HeaderWritten o₁ o₂)
    (h' : HeaderWritten o₂ o₃) : HeaderWritten o₁ o₃ := by
  induction h' with
  | refl => exact h
  | put _ idx iValue hidx ih => exact .put ih idx iValue hidx

/-- The entry of the commit counter. -/
def counterEntry (o : Option Entries) : Option (Bytes × Bytes) :=
  o.bind (lookup (byteProbe (metaKey lumoLmdbMetaCounter)))

/-- There is metadata, and LMDB keeps it in order. -/
def HasMetadata (o : Option Entries) : Prop := ∃ es, o = some es ∧ MetaTable es

theorem HeaderWritten.counter {o o' : Option Entries} (h : HeaderWritten o o')
    (ho : HasMetadata o) : HasMetadata o' ∧ counterEntry o' = counterEntry o := by
  induction h with
  | refl => exact ⟨ho, rfl⟩
  | put _ idx iValue hidx ih =>
    obtain ⟨⟨es', hes, htable⟩, hcounter⟩ := ih
    obtain rfl := Option.some.inj hes
    refine ⟨⟨_, rfl, htable.put idx _⟩, ?_⟩
    rw [← hcounter]
    have hne : lumoLmdbMetaCounter % 256 ≠ idx % 256 := by
      rw [headerValues] at hidx
      rw [lumoLmdbMetaCounter]
      omega
    exact htable.lookup_put_of_ne hne _

/-- The commit counter when `mdb_get` answers `rc`, from its entry. -/
def readCounter (fixedRowid : Bool) (entry : Option (Bytes × Bytes)) (rc : Rc) : ℤ :=
  if rc ≠ 0 then 0 else (entry.map fun e => toInt (get8 fixedRowid e.2)).getD 0

theorem get_counter (c : Contents) : ∃ rc, rc ≠ 0 ∧
    c.get .metadata (metaKey lumoLmdbMetaCounter) =
      (counterEntry (c .metadata)).elim (rc, []) fun e => (0, e.2) := by
  rw [Contents.get, counterEntry]
  cases c .metadata with
  | none => exact ⟨einval, by decide, rfl⟩
  | some es =>
    refine ⟨mdbNotfound, by decide, ?_⟩
    rw [Option.bind_some]
    rcases Option.eq_none_or_eq_some (lookup (byteProbe (metaKey lumoLmdbMetaCounter)) es) with
      hl | ⟨e, hl⟩
    · simp only [hl, Option.elim_none]
    · simp only [hl, Option.elim_some]

theorem meta64_counter (fixedRowid : Bool) (c : Contents) (rc : Rc) :
    meta64 fixedRowid c rc lumoLmdbMetaCounter =
      readCounter fixedRowid (counterEntry (c .metadata)) rc := by
  obtain ⟨code, hcode, hget⟩ := get_counter c
  rw [meta64, metaEntry, readCounter, hget]
  by_cases hrc : rc ≠ 0
  · rw [if_pos hrc, if_pos hrc, if_pos hrc]
  · rw [if_neg hrc, if_neg hrc]
    cases counterEntry (c .metadata) with
    | none => rw [Option.elim_none, if_pos hcode, Option.map_none, Option.getD_none]
    | some e => rw [Option.elim_some, if_neg (by simp), Option.map_some, Option.getD_some]

/-- What a commit writes after it has read `i`. -/
def nextCounter (i : ℤ) : ℕ := toU64 (Int.bmod (i + 1) (2 ^ 32))

end LumoSql.Btree
