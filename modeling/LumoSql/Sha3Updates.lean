import LumoSql.Sha3Sponge
import Mathlib.Data.List.GetD

/-! The hash of a message is that of the sponge, however the message is split and wherever its
parts lie in memory, on machines of either byte order. -/
namespace LumoSql.Keccak

section Words

variable {bytes more : Bytes}

theorem foldl_xor_congr {f f' : ℕ → UInt64} {n : ℕ} (h : ∀ i < n, f i = f' i) :
    (List.range n).foldl (fun w i => w ^^^ f i) 0 = (List.range n).foldl (fun w i => w ^^^ f' i) 0 := by
  induction n with
  | zero => rfl
  | succ n ih =>
    rw [List.range_succ, List.foldl_append, List.foldl_append, ih fun i hi => h i (by omega)]
    simp only [List.foldl_cons, List.foldl_nil, h n (Nat.lt_succ_self n)]

/-- Changing one term of a sum changes the sum by as much. -/
theorem foldl_xor_update {f f' : ℕ → UInt64} {d : UInt64} {k n : ℕ} (hk : k < n) (hf : ∀ i, i ≠ k → f' i = f i)
    (hd : f' k = f k ^^^ d) :
    (List.range n).foldl (fun w i => w ^^^ f' i) 0 = (List.range n).foldl (fun w i => w ^^^ f i) 0 ^^^ d := by
  induction n with
  | zero => omega
  | succ n ih =>
    rw [List.range_succ, List.foldl_append, List.foldl_append]
    simp only [List.foldl_cons, List.foldl_nil]
    rcases Nat.lt_or_eq_of_le (Nat.le_of_lt_succ hk) with hlt | rfl
    · rw [ih hlt, hf n (by omega), UInt64.xor_assoc, UInt64.xor_comm d, UInt64.xor_assoc]
    · rw [hd, foldl_xor_congr fun i hi => hf i (by omega), UInt64.xor_assoc]

theorem leWord_congr {bytes bytes' : Bytes} (h : ∀ i < 8, bytes.getD i 0 = bytes'.getD i 0) : leWord bytes = leWord bytes' :=
  foldl_xor_congr fun i hi => by rw [h i hi]

@[simp] theorem leWord_nil : leWord [] = 0 := by decide

theorem leWord_snoc (h : bytes.length < 8) (v : UInt8) :
    leWord (bytes ++ [v]) = leWord bytes ^^^ v.toUInt64 <<< (8 * bytes.length).toUInt64 := by
  refine foldl_xor_update h (fun i hi => ?_) ?_
  · rcases Nat.lt_or_gt_of_ne hi with hlt | hgt
    · rw [List.getD_append _ _ _ _ hlt]
    · rw [List.getD_eq_default _ _ (by simpa [Nat.succ_le_iff] using hgt), List.getD_eq_default _ _ (by omega)]
  · rw [List.getD_append_right _ _ _ _ (Nat.le_refl _), List.getD_eq_default _ _ (Nat.le_refl _), Nat.sub_self]
    simp

theorem leWord_append (h : 8 ≤ bytes.length) : leWord (bytes ++ more) = leWord bytes :=
  leWord_congr fun i hi => List.getD_append _ _ _ _ (by omega)

theorem leWord_zeros (n : ℕ) : leWord (bytes ++ List.replicate n 0) = leWord bytes := by
  refine leWord_congr fun i _ => ?_
  rcases Nat.lt_or_ge i bytes.length with hlt | hge
  · rw [List.getD_append _ _ _ _ hlt]
  · rw [List.getD_append_right _ _ _ _ hge, List.getD_eq_default _ _ hge]
    rw [List.getD_eq_getElem?_getD, List.getElem?_replicate]
    split <;> rfl

end Words

section States

variable {s : Lanes} {bytes more : Bytes} {rate : ℕ}

/-- A state with some bytes added from its beginning on. -/
def xorPrefix (s : Lanes) (bytes : Bytes) : Lanes := Vector.ofFn fun j => s.get j ^^^ leWord (bytes.drop (8 * j.val))

theorem xorPrefix_get (s : Lanes) (bytes : Bytes) {j : ℕ} (hj : j < 25) :
    (xorPrefix s bytes)[j] = s[j] ^^^ leWord (bytes.drop (8 * j)) := by
  rw [xorPrefix, Vector.getElem_ofFn]
  rfl

@[simp] theorem xorPrefix_nil (s : Lanes) : xorPrefix s [] = s := by
  refine Vector.ext fun j hj => ?_
  simp [xorPrefix_get]

theorem xorWord_prefix {w : Bytes} {d : UInt64} (hlast : leWord (bytes.drop (8 * (bytes.length / 8)) ++ w) =
      leWord (bytes.drop (8 * (bytes.length / 8))) ^^^ d) (hw : bytes.length % 8 + w.length ≤ 8) :
    xorWord (xorPrefix s bytes) (bytes.length / 8) d = xorPrefix s (bytes ++ w) := by
  refine Vector.ext fun j hj => ?_
  simp only [xorWord, xorPrefix_get, Vector.getElem_ofFn, Fin.getElem_fin]
  rcases Nat.lt_trichotomy j (bytes.length / 8) with hlt | rfl | hgt
  · rw [if_neg (by omega), List.drop_append_of_le_length (by omega), leWord_append (by rw [List.length_drop]; omega)]
  · rw [if_pos rfl, List.drop_append_of_le_length (by omega), hlast, UInt64.xor_assoc]
  · rw [if_neg (by omega), List.drop_eq_nil_of_le (by omega), List.drop_eq_nil_of_le (by rw [List.length_append]; omega)]

/-- On a machine of either byte order a byte is added where it belongs. -/
theorem xorByte_prefix (s : Lanes) (bytes : Bytes) (v : UInt8) : xorByte false (xorPrefix s bytes) bytes.length v = xorPrefix s (bytes ++ [v]) := by
  have hlen : (bytes.drop (8 * (bytes.length / 8))).length = bytes.length % 8 := by rw [List.length_drop]; omega
  refine xorWord_prefix ?_ (Nat.succ_le_of_lt (Nat.mod_lt _ (by omega)))
  rw [leWord_snoc (by rw [hlen]; exact Nat.mod_lt _ (by omega)), hlen]
  rfl

theorem xor_seven (i : ℕ) : (i ^^^ 7) / 8 = i / 8 ∧ 7 - (i ^^^ 7) % 8 = i % 8 := by
  have hdiv : (i ^^^ 7) / 2 ^ 3 = i / 2 ^ 3 ^^^ 7 / 2 ^ 3 := Nat.xor_div_two_pow
  have hmod : (i ^^^ 7) % 2 ^ 3 = (i % 2 ^ 3) ^^^ (7 % 2 ^ 3) := Nat.xor_mod_two_pow
  have hlow : ∀ r < 8, 7 - (r ^^^ 7) = r := by decide
  refine ⟨by simpa using hdiv, ?_⟩
  have hr := hlow (i % 8) (Nat.mod_lt _ (by omega))
  rw [show (i ^^^ 7) % 8 = i % 8 ^^^ 7 from hmod, hr]

theorem xorByte_swapped (s : Lanes) (i : ℕ) (v : UInt8) : xorByte true s (i ^^^ 7) v = xorByte false s i v := by
  simp only [xorByte, bytePlace, if_true, (xor_seven i).1, (xor_seven i).2]
  rfl

theorem xorPrefix_zeros (n : ℕ) : xorPrefix s (bytes ++ List.replicate n 0) = xorPrefix s bytes := by
  refine Vector.ext fun j hj => ?_
  simp only [xorPrefix_get, List.drop_append, List.drop_replicate, leWord_zeros]

/-- The words of the state after the first blocks of a message. -/
def absorbedLanes (rate : ℕ) (message : Bytes) : ℕ → Lanes
  | 0 => Vector.replicate 25 0
  | k + 1 => keccakF1600Step (xorPrefix (absorbedLanes rate message k) ((message.drop (rate * k)).take rate))

theorem absorbedLanes_view (rate : ℕ) (message : Bytes) (k : ℕ) :
    lanesView (absorbedLanes rate message k) = absorbed rate message k := by
  induction k with
  | zero =>
    funext x y
    simp [lanesView, view, absorbedLanes, absorbed]
  | succ k ih =>
    rw [absorbedLanes, step_view, absorbed, absorbBlock, ← ih]
    refine congrArg keccakF (funext fun x => funext fun y => ?_)
    simp only [lanesView, view, xorPrefix_get, lane, Fin.getElem_fin]

theorem absorbedLanes_append {k : ℕ} (h : rate * k ≤ bytes.length) :
    absorbedLanes rate (bytes ++ more) k = absorbedLanes rate bytes k := by
  induction k with
  | zero => rfl
  | succ k ih =>
    rw [Nat.mul_succ] at h
    rw [absorbedLanes, absorbedLanes, ih (by omega), List.drop_append_of_le_length (by omega),
      List.take_append_of_le_length (by rw [List.length_drop]; omega)]

end States

section Contexts

variable {rate : ℕ} {message more : Bytes} {order : ByteOrder}

/-- The context after a message, of which the last bytes are added but not mixed yet. -/
def contextOf (order : ByteOrder) (rate : ℕ) (message : Bytes) : Sha3Context where
  s := xorPrefix (absorbedLanes rate message (message.length / rate)) (message.drop (rate * (message.length / rate)))
  nRate := rate
  nLoaded := message.length % rate
  ixMask := order.ixMask

/-- Adding some bytes to a block, which is mixed once it is full. -/
theorem contextOf_append (hpos : 0 < more.length) (hle : message.length % rate + more.length ≤ rate) {s : Lanes}
    (hs : s = xorPrefix (absorbedLanes rate message (message.length / rate))
      (message.drop (rate * (message.length / rate)) ++ more)) :
    contextOf order rate (message ++ more) =
      if message.length % rate + more.length = rate then ⟨keccakF1600Step s, rate, 0, order.ixMask⟩
      else ⟨s, rate, message.length % rate + more.length, order.ixMask⟩ := by
  have hmod := Nat.div_add_mod message.length rate
  have hrate : 0 < rate := by omega
  have hlen : (message ++ more).length = rate * (message.length / rate) + (message.length % rate + more.length) := by
    rw [List.length_append]
    omega
  have hheld : message.length % rate = (message.drop (rate * (message.length / rate))).length := by
    rw [List.length_drop]
    omega
  generalize message.length / rate = k at *
  split
  case isTrue hfull =>
    have hdiv : (message ++ more).length / rate = k + 1 := by
      rw [hlen, hfull, ← Nat.mul_succ, Nat.mul_div_cancel_left _ hrate]
    have hrest : (message ++ more).length % rate = 0 := by rw [hlen, hfull, ← Nat.mul_succ, Nat.mul_mod_right]
    rw [contextOf, hdiv, hrest, absorbedLanes, absorbedLanes_append (by omega), List.drop_append_of_le_length (by omega),
      List.take_of_length_le (by rw [List.length_append]; omega), ← hs,
      List.drop_eq_nil_of_le (by rw [hlen, hfull, Nat.mul_succ]), xorPrefix_nil]
  case isFalse hfull =>
    have hlt : message.length % rate + more.length < rate := by omega
    have hdiv : (message ++ more).length / rate = k := by
      rw [hlen, Nat.mul_add_div hrate, Nat.div_eq_of_lt hlt, Nat.add_zero]
    have hrest : (message ++ more).length % rate = message.length % rate + more.length := by
      rw [hlen, Nat.mul_add_mod, Nat.mod_eq_of_lt hlt]
    rw [contextOf, hdiv, hrest, absorbedLanes_append (by omega), List.drop_append_of_le_length (by omega), ← hs]

theorem xorNextByte_eq {p : Sha3Context} (h : p.ixMask = order.ixMask) (v : UInt8) :
    xorNextByte order p v = xorByte false p.s p.nLoaded v := by
  cases order with
  | little => rfl
  | big => exact xorByte_swapped _ _ _
  | unknown bigEndian =>
    rw [xorNextByte, h]
    cases bigEndian with
    | false => rw [ByteOrder.ixMask, if_neg (by decide), Nat.xor_zero]
    | true => rw [ByteOrder.ixMask, if_pos rfl, xorByte_swapped]

theorem loaded_length (rate : ℕ) (message : Bytes) :
    (message.drop (rate * (message.length / rate))).length = message.length % rate := by
  have hmod := Nat.div_add_mod message.length rate
  rw [List.length_drop]
  omega

theorem sha3UpdateByte_of (hrate : 0 < rate) (v : UInt8) :
    sha3UpdateByte order (contextOf order rate message) v = contextOf order rate (message ++ [v]) := by
  have hs := xorByte_prefix (absorbedLanes rate message (message.length / rate))
    (message.drop (rate * (message.length / rate))) v
  rw [loaded_length] at hs
  rw [contextOf_append (by simp) (show _ + 1 ≤ rate from Nat.mod_lt _ hrate) hs, sha3UpdateByte, xorNextByte_eq rfl]
  rfl

theorem foldl_updateByte_of (hrate : 0 < rate) (aData : Bytes) :
    aData.foldl (sha3UpdateByte order) (contextOf order rate message) = contextOf order rate (message ++ aData) := by
  induction aData generalizing message with
  | nil => simp
  | cons v aData ih => rw [List.foldl_cons, sha3UpdateByte_of hrate, ih, List.append_assoc, List.singleton_append]

/-- Eight bytes added as a word are the same bytes added one by one. -/
theorem xorWord_eight {s : Lanes} {bytes : Bytes} (hwords : bytes.length % 8 = 0) (hmore : more.length = 8) :
    xorWord (xorPrefix s bytes) (bytes.length / 8) (leWord more) = xorPrefix s (bytes ++ more) := by
  refine xorWord_prefix ?_ (by omega)
  rw [List.drop_eq_nil_of_le (by omega), List.nil_append, leWord_nil, UInt64.zero_xor]

/-- The loop over words adds some of the data and leaves the rest. -/
theorem sha3UpdateWords_of (order : ByteOrder) (hrate : 0 < rate) (hwords : rate % 8 = 0) (aData : Bytes) (h : message.length % rate % 8 = 0) :
    ∃ front rest, aData = front ++ rest ∧
      sha3UpdateWords (contextOf order rate message) aData = (contextOf order rate (message ++ front), rest) := by
  induction hn : aData.length using Nat.strongRecOn generalizing message aData with
  | ind n ih =>
    subst hn
    rw [sha3UpdateWords]
    by_cases hlong : aData.length > 7
    · have hword : (aData.take 8).length = 8 := by rw [List.length_take]; omega
      have hle : leWord aData = leWord (aData.take 8) := by
        conv => lhs; rw [← List.take_append_drop 8 aData]
        exact leWord_append (by omega)
      have hroom : message.length % rate + 8 ≤ rate := by
        have := Nat.mod_lt message.length hrate
        omega
      have hs : xorWord (contextOf order rate message).s (message.length % rate / 8) (leWord aData) =
          xorPrefix (absorbedLanes rate message (message.length / rate))
            (message.drop (rate * (message.length / rate)) ++ aData.take 8) := by
        rw [hle, ← loaded_length]
        exact xorWord_eight (by rwa [loaded_length]) hword
      have hnext : contextOf order rate (message ++ aData.take 8) = _ := contextOf_append (by omega) (by omega) hs
      rw [hword] at hnext
      have hmod : (message ++ aData.take 8).length % rate % 8 = 0 := by
        rw [Nat.mod_mod_of_dvd _ (Nat.dvd_of_mod_eq_zero hwords)] at h ⊢
        rw [List.length_append, hword]
        omega
      obtain ⟨front, rest, hsplit, hrun⟩ := ih (aData.drop 8).length (by rw [List.length_drop]; omega) (aData.drop 8) hmod rfl
      refine ⟨aData.take 8 ++ front, rest, by rw [List.append_assoc, ← hsplit, List.take_append_drop], ?_⟩
      have hloaded : (contextOf order rate message).nLoaded = message.length % rate := rfl
      rw [if_pos hlong, ← List.append_assoc, ← hrun, hnext, hloaded]
      have hnRate : (contextOf order rate message).nRate = rate := rfl
      dsimp only
      by_cases hfull : message.length % rate + 8 = rate
      · rw [if_pos hfull, hnRate, if_pos (Nat.le_of_eq hfull.symm)]
        rfl
      · rw [if_neg hfull, hnRate, if_neg fun hge => hfull (Nat.le_antisymm hroom hge)]
        rfl
    · rw [if_neg hlong]
      exact ⟨[], aData, rfl, by rw [List.append_nil]⟩

theorem sha3Update_of (hrate : 0 < rate) (hwords : rate % 8 = 0) (aligned : Bool) (aData : Bytes) :
    sha3Update order aligned (contextOf order rate message) aData = contextOf order rate (message ++ aData) := by
  rw [sha3Update]
  by_cases hpath : order = .little ∧ (contextOf order rate message).nLoaded % 8 = 0 ∧ aligned
  · obtain ⟨front, rest, rfl, hrun⟩ := sha3UpdateWords_of order hrate hwords aData hpath.2.1
    rw [if_pos hpath, hrun]
    dsimp only
    rw [foldl_updateByte_of hrate, List.append_assoc]
  · rw [if_neg hpath, foldl_updateByte_of hrate]

theorem sha3Update_foldl (hrate : 0 < rate) (hwords : rate % 8 = 0) (inputs : List (Bool × Bytes)) :
    inputs.foldl (fun p a => sha3Update order a.1 p a.2) (contextOf order rate message) =
      contextOf order rate (message ++ (inputs.map Prod.snd).flatten) := by
  induction inputs generalizing message with
  | nil => simp
  | cons a inputs ih =>
    rw [List.foldl_cons, sha3Update_of hrate hwords, ih, List.map_cons, List.flatten_cons, List.append_assoc]

/-- Zeros that do not fill the block only move the place of the next byte. -/
theorem contextOf_zeros {n : ℕ} (h : message.length % rate + n < rate) :
    contextOf order rate (message ++ List.replicate n 0) =
      { contextOf order rate message with nLoaded := message.length % rate + n } := by
  cases n with
  | zero => simp [contextOf]
  | succ n =>
    have hlen : (List.replicate (n + 1) (0 : UInt8)).length = n + 1 := List.length_replicate
    rw [contextOf_append (by omega) (by omega) rfl, hlen, if_neg (by omega), xorPrefix_zeros]
    rfl

theorem padded_mod (hrate : 1 < rate) : (message ++ padding rate message.length).length % rate = 0 := by
  have hmod := Nat.div_add_mod message.length rate
  have hlt := Nat.mod_lt message.length (by omega : 0 < rate)
  have hlen : (message ++ padding rate message.length).length = rate * (message.length / rate + 1) := by
    rw [List.length_append, padding, Nat.mul_succ]
    split
    case isTrue h => simp only [List.length_cons, List.length_nil]; omega
    case isFalse h => simp only [List.length_append, List.length_cons, List.length_nil, List.length_replicate]; omega
  rw [hlen, Nat.mul_mod_right]

theorem sha3Pad_of (hrate : 1 < rate) (hwords : rate % 8 = 0) :
    sha3Pad order (contextOf order rate message) = contextOf order rate (message ++ padding rate message.length) := by
  have hpos : 0 < rate := by omega
  have hlt := Nat.mod_lt message.length hpos
  have hloaded (m : Bytes) : (contextOf order rate m).nLoaded = m.length % rate := rfl
  have hnRate (m : Bytes) : (contextOf order rate m).nRate = rate := rfl
  rw [sha3Pad, hloaded, hnRate, padding]
  by_cases hlast : message.length % rate = rate - 1
  · rw [if_pos hlast, if_pos hlast, sha3Update_of hpos hwords]
  · have hmod : (message ++ [0x06]).length % rate = message.length % rate + 1 := by
      rw [List.length_append, List.length_singleton, Nat.add_mod, Nat.mod_eq_of_lt hrate, Nat.mod_eq_of_lt (by omega)]
    have hzeros : contextOf order rate (message ++ [0x06] ++ List.replicate (rate - 2 - message.length % rate) 0) =
        { contextOf order rate (message ++ [0x06]) with nLoaded := rate - 1 } := by
      rw [contextOf_zeros (by rw [hmod]; omega), hmod, show message.length % rate + 1 + (rate - 2 - message.length % rate) = rate - 1 by omega]
    have hclose : sha3Update order false
        (contextOf order rate (message ++ [0x06] ++ List.replicate (rate - 2 - message.length % rate) 0)) [0x80] = _ :=
      sha3Update_of hpos hwords false [0x80]
    rw [hzeros] at hclose
    rw [if_neg hlast, if_neg hlast, sha3Update_of hpos hwords, ← List.append_assoc, ← List.append_assoc]
    exact hclose

theorem stateByte_view (s : Lanes) {i : ℕ} (hi : i < 200) : stateByte (lanesView s) i = byteAt false s i := by
  have hword : lanesView s (Fin.ofNat 5 (i / 8)) (Fin.ofNat 5 (i / 8 / 5)) = s.toList.getD (i / 8) 0 := by
    have hplace : (lane (Fin.ofNat 5 (i / 8 / 5)) (Fin.ofNat 5 (i / 8))).val = i / 8 := by
      simp only [lane, Fin.val_ofNat]
      omega
    have hlt : i / 8 < s.toList.length := by simp only [Vector.length_toList]; omega
    rw [List.getD_eq_getElem _ _ hlt, Vector.getElem_toList]
    simp only [lanesView, view, Fin.getElem_fin, hplace]
  rw [stateByte, hword, byteAt]
  rfl

theorem byteAt_swapped (s : Lanes) (i : ℕ) : byteAt true s (i ^^^ 7) = byteAt false s i := by
  simp only [byteAt, bytePlace, if_true, (xor_seven i).1, (xor_seven i).2]
  rfl

theorem byteAt_mask (s : Lanes) (i : ℕ) : byteAt order.bigEndian s (i ^^^ order.ixMask) = byteAt false s i := by
  cases order with
  | little => exact congrArg _ (Nat.xor_zero i)
  | big => exact byteAt_swapped s i
  | unknown bigEndian =>
    cases bigEndian with
    | false => exact congrArg _ (Nat.xor_zero i)
    | true => exact byteAt_swapped s i

theorem sha3Final_of (hrate : 1 < rate) (hwords : rate % 8 = 0) (hsmall : rate ≤ 200) :
    sha3Final order (contextOf order rate message) = sponge rate message rate := by
  have hmod : (message ++ padding rate message.length).length % rate = 0 := padded_mod hrate
  have hdiv := Nat.div_add_mod (message ++ padding rate message.length).length rate
  have hstate : (contextOf order rate (message ++ padding rate message.length)).s =
      absorbedLanes rate (message ++ padding rate message.length) ((message ++ padding rate message.length).length / rate) := by
    rw [contextOf, List.drop_eq_nil_of_le (by omega), xorPrefix_nil]
  rw [sha3Final, sha3Pad_of hrate hwords, sponge, ← absorbedLanes_view, ← hstate]
  refine List.map_congr_left fun i hi => ?_
  have hi' : i < rate := List.mem_range.mp hi
  exact (byteAt_mask _ i).trans (stateByte_view _ (by omega)).symm

/-- A block is a whole number of words and not larger than the state. -/
theorem sha3Rate_spec (iSize : ℕ) : 1 < sha3Rate iSize ∧ sha3Rate iSize % 8 = 0 ∧ sha3Rate iSize ≤ 200 := by
  rw [sha3Rate]
  split <;> omega

/-- The hash of a message is that of the sponge. -/
theorem sha3Final_eq (order : ByteOrder) (iSize : ℕ) (inputs : List (Bool × Bytes)) :
    sha3Final order (inputs.foldl (fun p a => sha3Update order a.1 p a.2) (sha3Init order iSize)) =
      sponge (sha3Rate iSize) (inputs.map Prod.snd).flatten (sha3Rate iSize) := by
  obtain ⟨hrate, hwords, hsmall⟩ := sha3Rate_spec iSize
  have hinit : sha3Init order iSize = contextOf order (sha3Rate iSize) [] := by
    rw [contextOf, List.length_nil, Nat.zero_div, Nat.zero_mod, List.drop_nil, xorPrefix_nil]
    rfl
  rw [hinit, sha3Update_foldl (by omega) hwords, List.nil_append, sha3Final_of hrate hwords hsmall]

end Contexts

end LumoSql.Keccak
