import LumoSql.RowidOrder
import LumoSql.VdbeOpcodes

/-! What `OP_Insert` stores through the backend: the row that `lumoExtensionAdd` built, and behind it
the implied zeros once more. -/
namespace LumoSql.Btree
open StateLogic Lmdb RowidEncoding SortedEntries

/-- The payload stored under a rowid. -/
def World.payload (w : World) (n : ℕ) (iKey : ℤ) : Option Bytes :=
  (lookup (rowidProbe w.fixedRowid (put8 w.fixedRowid (toU64 iKey))) (w.rows n)).map Prod.snd

/-- A row that has been inserted is found under its rowid. -/
theorem Inserted.payload {n : ℕ} {cursors : Set ℕ} {w w' : World} {key : ℤ} {data : Bytes}
    (hw : RowInvariant n cursors w) (h : Inserted w n key data w') : w'.payload n key = some data := by
  have hlt := toU64_lt key
  have hrank : get8 w.fixedRowid (put8 w.fixedRowid (toU64 key)) = toU64 key := get8_put8 _ hlt
  have hmerge : ∀ o : Bytes × Bytes, get8 w.fixedRowid o.1 = toU64 key →
      get8 w.fixedRowid (overwrite (put8 w.fixedRowid (toU64 key)) data o).1 = toU64 key := by
    intro o ho
    rw [overwrite]
    split_ifs
    · exact ho
    · exact hrank
  have hfound := hw.rows.ascending.lookup_place (hw.rows.probes hlt)
    (e := (put8 w.fixedRowid (toU64 key), data)) hrank hmerge ((hw.rows.place hlt data).probes hlt)
  rw [World.payload, h.build, h.rows, hfound]
  cases lookup (rowidProbe w.fixedRowid (put8 w.fixedRowid (toU64 key))) (w.rows n) <;> rfl

end LumoSql.Btree

namespace LumoSql.VdbeOpcodes
open LumoExtension RowsumAlgorithms WriteBlocks SqliteRecordFormat StateLogic Lmdb Btree

variable (F : SqliteFormat) (H : RowsumHashes)

/-- `OP_Insert` on cursor `i` of a rowid table that is not ephemeral, and the code it ends with. -/
def insertOpcode (alg : ℕ) (oom : Bool) (i : ℕ) (iKey : ℤ) (x : BtreePayload) : Call Rc :=
  match opInsert F H alg oom false ⟨true, false⟩ x with
  | some (.btreeInsert x) => sqlite3BtreeInsert i ⟨iKey, [], x.data, x.nZero, none⟩ false
  | some (.abortDueToError rc) => pure rc
  | none => Prog.halt .undefined

/-- What is stored is the buffer, and the Lumo column is its last part. -/
structure StoresBuffer (alg : ℕ) (zNew : Block UInt8) (stored : Bytes) : Prop where
  bytes : zNew.cells = stored.map some
  length : stored.length = zNew.size
  column : ∃ row ext : Bytes, stored = row ++ ext ∧ ext.length = lumoExtensionLength F H alg ∧
    lumoExtensionMagic <+: ext

variable {F H}

/-- The payload that the backend gets is the new record, followed by the zeros it already contains. -/
theorem opInsert_built {alg : ℕ} {spec : LumoRowsumSpec} (hs : (lumoRowsumAlgorithms H)[alg]? = some spec)
    (R : Record F) (hR : R.size < 2 ^ 30) :
    opInsert F H alg false false ⟨true, false⟩ ⟨R.packed, R.nZero⟩ =
      some (.btreeInsert ⟨tableRecord F H alg R ++ extensionBytes alg spec (tableRecord F H alg R),
        R.nZero⟩) := by
  have hadd := lumoExtensionAdd_table (F := F) hs R hR
  simp only [opInsert, Bool.not_false, Bool.and_self, if_true, hadd, Option.map_some,
    BtreePayload.extend, ne_eq, not_true_eq_false, if_false, filled_contents, List.replicate_zero,
    List.append_nil]

theorem insertOpcode_payload {alg : ℕ} {spec : LumoRowsumSpec}
    (hs : (lumoRowsumAlgorithms H)[alg]? = some spec) (R : Record F) (hR : R.size < 2 ^ 30)
    {n i : ℕ} {cursors : Set ℕ} {w w' : World} (hw : RowInvariant n cursors w) (hi : i ∈ cursors)
    {iKey : ℤ} (hrun : insertOpcode F H alg false i iKey ⟨R.packed, R.nZero⟩ w = .ok (sqliteOk, w')) :
    w'.payload n iKey = some (tableRecord F H alg R ++
      extensionBytes alg spec (tableRecord F H alg R) ++ List.replicate R.nZero 0) := by
  have hins := insert_spec (E := fun _ => True) (hw.onTable i hi) ⟨iKey, [], tableRecord F H alg R ++
    extensionBytes alg spec (tableRecord F H alg R), R.nZero, none⟩
  rw [insertOpcode, opInsert_built hs R hR] at hrun
  rcases hins.of_ok hrun with ⟨hrc, -⟩ | ⟨-, hins⟩
  · exact absurd rfl hrc
  · exact hins.payload hw

/-- The row stored is the one that was built exactly when no zeros were implied, or nothing is added. -/
theorem insert_stores_buffer_iff (F : SqliteFormat) (H : RowsumHashes) (alg : ℕ) (oom : Bool)
    (R : Record F) (hR : R.size < 2 ^ 30) {n i : ℕ} {cursors : Set ℕ} {w w' : World}
    (hw : RowInvariant n cursors w) (hi : i ∈ cursors) (iKey : ℤ)
    (hrun : insertOpcode F H alg oom i iKey ⟨R.packed, R.nZero⟩ w = .ok (sqliteOk, w')) :
    (∀ zNew, lumoExtensionAdd F H alg oom false R.packed R.nZero = some ⟨sqliteOk, some zNew⟩ →
      ∃ stored, w'.payload n iKey = some stored ∧ StoresBuffer F H alg zNew stored) ↔
    lumoRowsumNAlgorithms H ≤ alg ∨ R.nZero = 0 := by
  by_cases halg : lumoRowsumNAlgorithms H ≤ alg
  · refine iff_of_true (fun zNew hadd => ?_) (Or.inl halg)
    have hnone : (lumoRowsumAlgorithms H)[alg]? = none := List.getElem?_eq_none halg
    simp [lumoExtensionAdd, lumoExtensionLength, hnone] at hadd
  obtain ⟨spec, hs⟩ := spec_of_lt (not_le.mp halg)
  have hnew := lumoExtensionAdd_table (F := F) hs R hR
  cases oom with
  | true =>
    -- the opcode ends before anything is stored
    have hpos : 0 < lumoExtensionLength F H alg := by
      rw [lumoExtensionLength_eq hs]
      omega
    have hadd : lumoExtensionAdd F H alg true false R.packed R.nZero = some ⟨sqliteNomem, none⟩ := by
      simp only [lumoExtensionAdd, if_pos hpos, R.getVarint32_packed hR, Option.bind_eq_bind,
        Option.bind_some, Bool.false_eq_true, if_false, if_true]
    simp only [insertOpcode, opInsert, Bool.not_false, Bool.and_self, if_true, hadd, Option.map_some,
      BtreePayload.extend] at hrun
    cases hrun
  | false =>
    have hpayload := insertOpcode_payload hs R hR hw hi hrun
    have hext := extensionBytes_length (F := F) hs (tableRecord F H alg R)
    constructor
    · intro hstores
      obtain ⟨stored, hstored, hbuffer⟩ := hstores _ hnew
      obtain rfl := Option.some.inj (hpayload.symm.trans hstored)
      have hlen := hbuffer.length
      rw [filled_size, List.length_append, List.length_replicate] at hlen
      exact Or.inr (by omega)
    · intro hzero zNew hadd
      have hz : R.nZero = 0 := hzero.resolve_left halg
      rw [hnew] at hadd
      obtain rfl : (filled _ 0).block = zNew := by simpa using hadd
      refine ⟨_, hpayload, ?_, ?_, ?_⟩
      · simp [filled_full, hz]
      · simp [filled_size, hz]
      · refine ⟨tableRecord F H alg R, extensionBytes alg spec (tableRecord F H alg R), by simp [hz], hext, ?_⟩
        simp [extensionBytes, List.append_assoc]

/-- A row with `zeroblob(1)` as its only column. -/
def zeroblobRow : Record documented := ⟨[14], [], 1, 2, by decide, by decide, by decide, by decide⟩

/-- The insertion of such a row into an empty table. -/
theorem zeroblob_insert : ∃ w', insertOpcode documented prefixHashes 3 false 0 1
    ⟨zeroblobRow.packed, zeroblobRow.nZero⟩ (emptyTable false) = .ok (sqliteOk, w') := by
  have hcode : (insertOpcode documented prefixHashes 3 false 0 1 ⟨zeroblobRow.packed, zeroblobRow.nZero⟩
      (emptyTable false)).toOption.map (fun r => r.1) = some sqliteOk := by decide +kernel
  cases hrun : insertOpcode documented prefixHashes 3 false 0 1 ⟨zeroblobRow.packed, zeroblobRow.nZero⟩
      (emptyTable false) with
  | error e =>
    rw [hrun] at hcode
    cases hcode
  | ok r =>
    rw [hrun] at hcode
    exact ⟨r.2, by rw [← Option.some.inj hcode]⟩

theorem insert_stores_buffer_iff_sample : ∃ w' : World,
    insertOpcode documented prefixHashes 3 false 0 1 ⟨zeroblobRow.packed, zeroblobRow.nZero⟩
      (emptyTable false) = .ok (sqliteOk, w') ∧
    ((∀ zNew, lumoExtensionAdd documented prefixHashes 3 false false zeroblobRow.packed zeroblobRow.nZero =
        some ⟨sqliteOk, some zNew⟩ →
      ∃ stored, w'.payload 3 1 = some stored ∧ StoresBuffer documented prefixHashes 3 zNew stored) ↔
    lumoRowsumNAlgorithms prefixHashes ≤ 3 ∨ zeroblobRow.nZero = 0) := by
  obtain ⟨w', hrun⟩ := zeroblob_insert
  exact ⟨w', hrun, insert_stores_buffer_iff documented prefixHashes 3 false zeroblobRow (by decide)
    (emptyTable_invariant false) (Set.mem_singleton 0) 1 hrun⟩

/-- One more zero byte is stored than was built. -/
theorem zeroblob_stored_twice : ∃ (w' : World) (zNew : Block UInt8) (stored : Bytes),
    insertOpcode documented prefixHashes 3 false 0 1 ⟨zeroblobRow.packed, zeroblobRow.nZero⟩
      (emptyTable false) = .ok (sqliteOk, w') ∧
    lumoExtensionAdd documented prefixHashes 3 false false zeroblobRow.packed zeroblobRow.nZero =
      some ⟨sqliteOk, some zNew⟩ ∧
    w'.payload 3 1 = some stored ∧ stored = zNew.contents 0 ++ [0] ∧
    ¬StoresBuffer documented prefixHashes 3 zNew stored := by
  obtain ⟨spec, hs⟩ : ∃ spec, (lumoRowsumAlgorithms prefixHashes)[3]? = some spec := spec_of_lt (by decide)
  obtain ⟨w', hrun⟩ := zeroblob_insert
  have hnew := lumoExtensionAdd_table (F := documented) hs zeroblobRow (by decide)
  have hpayload := insertOpcode_payload hs zeroblobRow (by decide) (emptyTable_invariant false)
    (Set.mem_singleton 0) hrun
  refine ⟨w', _, _, hrun, hnew, hpayload, by simp [filled_contents, zeroblobRow], fun hbuffer => ?_⟩
  have hlen := hbuffer.length
  simp [filled_size, zeroblobRow] at hlen

end LumoSql.VdbeOpcodes
