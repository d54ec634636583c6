import DartNet.Common.Seg
import DartNet.Foundation.Flip
import DartNet.Foundation.OnesComplement

/-! The check of a received segment in `common/seg.c`, and the bit errors that `seglost`
makes. -/
namespace DartNet
open Packed OnesComplement

/-- The words that both checksum functions add up; their number is even, so no byte is left
over. -/
def Seg.sum (segment : Seg) : ℕ :=
  wordSum ((segLayout.encode segment).take (checksumCount segment))

def checkchecksum (segment : Seg) : ℤ :=
  if ~~~ UInt16.ofNat (foldSum segment.sum) = 0 then 1 else -1

/-- One hundred times `PKT_LOSS_RATE`. -/
def pktLossPercent : ℕ := 10

/-- The segment in memory with one bit of it flipped. -/
def flipBit (segPtr : Seg) (errorbit : ℕ) : Seg := segLayout.invertBit segPtr errorbit

/-- The number of bits that `seglost` chooses from: those of the header and of the data that
belongs to the segment. -/
def Seg.errorbits (segPtr : Seg) : ℕ :=
  (srtHdrLayout.size + segPtr.header.length.toNat) * 8

/-- `seglost` with the numbers that its calls of `rand` return. -/
def seglost (segPtr : Seg) (random coin place : ℕ) : ℤ × Seg :=
  if random % 100 < pktLossPercent then
    if coin % 2 = 0 then (1, segPtr)
    else (0, flipBit segPtr (place % segPtr.errorbits))
  else (0, segPtr)

/-- The bits that `seglost` can flip. -/
theorem seglost_flips (segPtr : Seg) {errorbit : ℕ} (h : errorbit < segPtr.errorbits) :
    seglost segPtr 0 1 errorbit = (0, flipBit segPtr errorbit) := by
  unfold seglost
  rw [if_pos (by decide), if_neg (by decide), Nat.mod_eq_of_lt h]

theorem seglost_cases (segPtr : Seg) (random coin place : ℕ) :
    (seglost segPtr random coin place).2 = segPtr ∨
      ∃ errorbit < segPtr.errorbits,
        seglost segPtr random coin place = (0, flipBit segPtr errorbit) := by
  unfold seglost
  split
  next =>
    split
    next => exact .inl rfl
    next =>
      have hpos : 0 < segPtr.errorbits := by
        show 0 < (24 + _) * 8
        omega
      exact .inr ⟨_, Nat.mod_lt place hpos, rfl⟩
  next => exact .inl rfl

theorem wordSum_append {bs : List UInt8} (h : bs.length % 2 = 0) (cs : List UInt8) :
    wordSum (bs ++ cs) = wordSum bs + wordSum cs := by
  fun_induction wordSum bs with
  | case1 lo hi rest ih =>
    have hrest : rest.length % 2 = 0 := by
      simp only [List.length_cons] at h
      omega
    simp only [List.cons_append, wordSum, ih hrest]
    omega
  | case2 bs hbs =>
    cases bs with
    | nil => simp
    | cons b bs =>
      cases bs with
      | nil => simp at h
      | cons c bs => exact absurd rfl (hbs b c bs)

theorem wordSum_le (bs : List UInt8) : wordSum bs ≤ 65535 * (bs.length / 2) := by
  fun_induction wordSum bs with
  | case1 lo hi rest ih =>
    have hlo := lo.toNat_lt
    have hhi := hi.toNat_lt
    simp only [List.length_cons]
    omega
  | case2 => exact Nat.zero_le _

theorem xor_bit (b : UInt8) {k : ℕ} (h : k < 8) :
    (b ^^^ 1 <<< UInt8.ofNat k).toNat = b.toNat + 2 ^ k ∨
      b.toNat = (b ^^^ 1 <<< UInt8.ofNat k).toNat + 2 ^ k := by
  rw [UInt8.toNat_xor, toNat_bit k h]
  exact xor_two_pow_cases b.toNat k

/-- A flipped bit changes the sum by the weight of the bit in its word. -/
theorem wordSum_invertBit {bs : List UInt8} {bit : ℕ} (heven : bs.length % 2 = 0)
    (h : bit < 8 * bs.length) :
    wordSum (invertBit bs bit) = wordSum bs + 2 ^ (bit % 16) ∨
      wordSum bs = wordSum (invertBit bs bit) + 2 ^ (bit % 16) := by
  fun_induction wordSum bs generalizing bit with
  | case1 lo hi rest ih =>
    simp only [List.length_cons] at heven h
    rcases Nat.lt_or_ge bit 8 with hlo | hlo
    · have hb := xor_bit lo hlo
      simp only [invertBit, Nat.div_eq_of_lt hlo, Nat.mod_eq_of_lt hlo, List.modify_zero_cons,
        wordSum, Nat.mod_eq_of_lt (show bit < 16 by omega)]
      omega
    rcases Nat.lt_or_ge bit 16 with hhi | hhi
    · obtain ⟨j, rfl⟩ : ∃ j, bit = j + 8 := ⟨bit - 8, by omega⟩
      have hj : j < 8 := by omega
      have hb := xor_bit hi hj
      have hpow : 2 ^ (j + 8) = 256 * 2 ^ j := by rw [Nat.pow_add, Nat.mul_comm]
      simp only [invertBit, show (j + 8) / 8 = 0 + 1 by omega, Nat.add_mod_right,
        Nat.mod_eq_of_lt hj, List.modify_succ_cons, List.modify_zero_cons, wordSum,
        Nat.mod_eq_of_lt hhi, hpow]
      omega
    · obtain ⟨j, rfl⟩ : ∃ j, bit = j + 16 := ⟨bit - 16, by omega⟩
      have hrest : invertBit (lo :: hi :: rest) (j + 16) = lo :: hi :: invertBit rest j := by
        simp only [invertBit, show (j + 16) / 8 = j / 8 + 1 + 1 by omega,
          show (j + 16) % 8 = j % 8 by omega, List.modify_succ_cons]
      have hb := @ih j (by omega) (by omega)
      simp only [hrest, wordSum, Nat.add_mod_right]
      omega
  | case2 bs hbs =>
    cases bs with
    | nil => simp at h
    | cons b bs =>
      cases bs with
      | nil => simp at heven
      | cons c bs => exact absurd rfl (hbs b c bs)

/-! The sums as one's-complement numbers. -/

theorem foldSum_mod (n : ℕ) : foldSum n % 2 ^ 16 = fold (2 ^ 16) (fold (2 ^ 16) n) % 2 ^ 16 :=
  add_div_mod _ _

theorem foldSum_eq {n : ℕ} (h : n < 2 ^ 32) :
    foldSum n % 2 ^ 16 = fold (2 ^ 16) (fold (2 ^ 16) n) := by
  rw [foldSum_mod, Nat.mod_eq_of_lt (fold_fold_lt (by omega))]

theorem wordSum_lt {bs : List UInt8} (h : bs.length ≤ segLayout.size) : wordSum bs < 2 ^ 32 := by
  have hle := wordSum_le bs
  have hlen : bs.length ≤ 224 := h
  omega

/-- The two folding lines lose no carry: what is left is the sum modulo `65535`, and zero
for zero only. -/
theorem foldSum_exact {bs : List UInt8} (h : bs.length ≤ segLayout.size) :
    foldSum (wordSum bs) % 2 ^ 16 ≡ wordSum bs [MOD 2 ^ 16 - 1] ∧
      (foldSum (wordSum bs) % 2 ^ 16 = 0 ↔ wordSum bs = 0) := by
  rw [foldSum_eq (wordSum_lt h)]
  exact ⟨fold_fold_modEq (by decide) _, fold_fold_eq_zero (by decide)⟩

theorem Seg.sum_lt (segment : Seg) : segment.sum < 2 ^ 32 := by
  apply wordSum_lt
  rw [List.length_take, segLayout.length_encode]
  exact Nat.min_le_right _ _

theorem checkchecksum_valid (segment : Seg) :
    checkchecksum segment = 1 ↔ 0 < segment.sum ∧ 2 ^ 16 - 1 ∣ segment.sum := by
  have hsum := segment.sum_lt
  rw [← fold_fold_eq_top (b := 2 ^ 16) (by decide) (by omega), ← foldSum_eq hsum]
  have hnot : ~~~ UInt16.ofNat (foldSum segment.sum) = 0 ↔
      foldSum segment.sum % 2 ^ 16 = 2 ^ 16 - 1 := by
    rw [← UInt16.toNat_inj, UInt16.toNat_not, UInt16.toNat_ofNat']
    have hlt := Nat.mod_lt (foldSum segment.sum) (show 0 < 2 ^ 16 by decide)
    simp only [UInt16.size, UInt16.toNat_zero]
    omega
  unfold checkchecksum
  rw [← hnot]
  split
  next h => simp [h]
  next h => simp [h]

theorem checkchecksum_invalid (segment : Seg) :
    checkchecksum segment = -1 ↔ checkchecksum segment ≠ 1 := by
  unfold checkchecksum
  split <;> simp

/-- The bytes of the header in front of `type`. -/
def Seg.front (segment : Seg) : List UInt8 :=
  Layout.u32.encode segment.header.srcPort ++ (Layout.u32.encode segment.header.destPort ++
    (Layout.u32.encode segment.header.seqNum ++ (Layout.u32.encode segment.header.ackNum ++
      Layout.u16.encode segment.header.length)))

theorem Seg.length_front (segment : Seg) : segment.front.length = 18 := by
  simp only [Seg.front, List.length_append, Layout.length_encode]
  rfl

/-- The bytes of the header behind `type`. -/
def Seg.back (segment : Seg) : List UInt8 :=
  Layout.u16.encode segment.header.rcvWin ++ Layout.u16.encode segment.header.checksum

theorem Seg.length_back (segment : Seg) : segment.back.length = 4 := by
  simp only [Seg.back, List.length_append, Layout.length_encode]
  rfl

theorem Seg.encode_eq (segment : Seg) : segLayout.encode segment =
    segment.front ++ (Layout.u16.encode segment.header.type ++
      (segment.back ++ segment.data.val)) := by
  simp only [Seg.front, Seg.back, List.append_assoc]
  simp only [segLayout, srtHdrLayout, SrtHdr.equiv, Layout.ofEquiv, Layout.pair, Layout.bytes,
    Equiv.coe_fn_mk, List.append_assoc]

theorem wordSum_u16 (v : UInt16) : wordSum (Layout.u16.encode v) = v.toNat := by
  have hv := v.toNat_lt
  show wordSum (Layout.digits 2 v.toNat) = v.toNat
  simp only [Layout.digits, wordSum, UInt8.toNat_ofNat']
  omega

theorem wordSum_u32 (v : UInt32) : wordSum (Layout.u32.encode v) = 0 ↔ v = 0 := by
  have hv := v.toNat_lt
  rw [← UInt32.toNat_inj]
  show wordSum (Layout.digits 4 v.toNat) = 0 ↔ v.toNat = 0
  simp only [Layout.digits, wordSum, UInt8.toNat_ofNat']
  omega

/-- What is summed: the words around `type`, the type itself, and the data of a `DATA`
segment. -/
theorem Seg.sum_eq (segment : Seg) : segment.sum =
    wordSum segment.front + segment.header.type.toNat + wordSum segment.back +
      (if segment.header.type = SegType.data then wordSum segment.data.val else 0) := by
  have hfront : segment.front.length % 2 = 0 := by rw [segment.length_front]
  have htype : (Layout.u16.encode segment.header.type).length = 2 := Layout.length_encode _ _
  have hback : segment.back.length % 2 = 0 := by rw [segment.length_back]
  unfold Seg.sum checksumCount
  rw [segment.encode_eq]
  split
  next =>
    rw [← segment.encode_eq, List.take_of_length_le (segLayout.length_encode _).le,
      segment.encode_eq, wordSum_append hfront, wordSum_append (by rw [htype]),
      wordSum_append hback, wordSum_u16]
    omega
  next =>
    have htake : (segment.front ++ (Layout.u16.encode segment.header.type ++
        (segment.back ++ segment.data.val))).take srtHdrLayout.size =
        segment.front ++ (Layout.u16.encode segment.header.type ++ segment.back) := by
      rw [← List.append_assoc, ← List.append_assoc, List.take_left']
      · rw [List.append_assoc]
      · rw [List.length_append, List.length_append, segment.length_front, htype,
          segment.length_back]
        rfl
    rw [htake, wordSum_append hfront, wordSum_append (by rw [htype]), wordSum_u16]
    omega

/-! Bits flipped inside and outside the type field. -/

def Seg.withType (segment : Seg) (type : UInt16) : Seg :=
  { segment with header := { segment.header with type := type } }

theorem Seg.sum_withType (segment : Seg) (type : UInt16) : (segment.withType type).sum =
    wordSum segment.front + type.toNat + wordSum segment.back +
      (if type = SegType.data then wordSum segment.data.val else 0) :=
  (segment.withType type).sum_eq

/-- The place of the first bit of `header.type`. -/
def typeBit : ℕ := 144

theorem flipBit_type (segPtr : Seg) {bit : ℕ} (h : bit < 16) :
    flipBit segPtr (typeBit + bit) =
      segPtr.withType (segPtr.header.type ^^^ UInt16.ofNat (2 ^ bit)) := by
  have hfront : 8 * segPtr.front.length = typeBit := by rw [segPtr.length_front, typeBit]
  apply segLayout.encode_injective
  rw [flipBit, Layout.encode_invertBit, Seg.encode_eq, Seg.encode_eq,
    invertBit_append_right (by omega), hfront, Nat.add_sub_cancel_left,
    invertBit_append_left (by rw [Layout.length_encode]; exact h), ← Layout.encode_invertBit,
    Layout.invertBit_u16 _ h]
  rfl

/-- Every other bit leaves the type, and with it the range that is summed. -/
theorem flipBit_other (segPtr : Seg) {errorbit : ℕ}
    (h : errorbit < typeBit ∨ typeBit + 16 ≤ errorbit) :
    (flipBit segPtr errorbit).header.type = segPtr.header.type := by
  have hfront : 8 * segPtr.front.length = typeBit := by rw [segPtr.length_front, typeBit]
  have htype : (Layout.u16.encode segPtr.header.type).length = 2 := Layout.length_encode _ _
  have henc : segLayout.encode (flipBit segPtr errorbit) =
      invertBit (segLayout.encode segPtr) errorbit := Layout.encode_invertBit _ _ _
  rw [Seg.encode_eq, Seg.encode_eq] at henc
  apply Layout.u16.encode_injective
  rcases h with h | h
  · rw [invertBit_append_left (by omega)] at henc
    have hrest := (List.append_inj henc (by
      rw [length_invertBit, Seg.length_front, Seg.length_front])).2
    exact (List.append_inj hrest (by rw [Layout.length_encode, Layout.length_encode])).1
  · rw [invertBit_append_right (by omega), hfront,
      invertBit_append_right (by rw [htype]; omega)] at henc
    have hrest := (List.append_inj henc (by rw [Seg.length_front, Seg.length_front])).2
    exact (List.append_inj hrest (by rw [Layout.length_encode, Layout.length_encode])).1

theorem checksumCount_even (segment : Seg) : checksumCount segment % 2 = 0 := by
  unfold checksumCount
  split <;> rfl

theorem checksumCount_le (segment : Seg) : checksumCount segment ≤ segLayout.size := by
  unfold checksumCount
  split <;> decide

/-- Outside the type field a flipped bit is added to or taken from the sum if it is in the
range summed, and not seen at all otherwise. -/
theorem sum_flipBit_other (segPtr : Seg) {errorbit : ℕ}
    (h : errorbit < typeBit ∨ typeBit + 16 ≤ errorbit) :
    (errorbit < 8 * checksumCount segPtr ∧
      ((flipBit segPtr errorbit).sum = segPtr.sum + 2 ^ (errorbit % 16) ∨
        segPtr.sum = (flipBit segPtr errorbit).sum + 2 ^ (errorbit % 16))) ∨
    (8 * checksumCount segPtr ≤ errorbit ∧ (flipBit segPtr errorbit).sum = segPtr.sum) := by
  have hcount : checksumCount (flipBit segPtr errorbit) = checksumCount segPtr := by
    unfold checksumCount
    rw [flipBit_other segPtr h]
  have hle : checksumCount segPtr ≤ (segLayout.encode segPtr).length := by
    rw [Layout.length_encode]
    exact checksumCount_le segPtr
  have hlen : ((segLayout.encode segPtr).take (checksumCount segPtr)).length =
      checksumCount segPtr := List.length_take_of_le hle
  have hsum : (flipBit segPtr errorbit).sum =
      wordSum ((invertBit (segLayout.encode segPtr) errorbit).take (checksumCount segPtr)) := by
    unfold Seg.sum
    rw [hcount, flipBit, Layout.encode_invertBit]
  rw [hsum]
  rcases Nat.lt_or_ge errorbit (8 * checksumCount segPtr) with hlt | hge
  · left
    rw [take_invertBit_lt hle hlt]
    constructor
    · exact hlt
    · exact wordSum_invertBit (by rw [hlen]; exact checksumCount_even segPtr) (by rwa [hlen])
  · right
    rw [take_invertBit_ge hle hge]
    exact ⟨hge, rfl⟩

/-! Stamped segments. -/

theorem Seg.wordSum_back (segment : Seg) :
    wordSum segment.back = segment.header.rcvWin.toNat + segment.header.checksum.toNat := by
  unfold Seg.back
  rw [wordSum_append (by rw [Layout.length_encode]; rfl), wordSum_u16, wordSum_u16]

theorem Seg.sum_stamp (segPtr : Seg) :
    segPtr.stamp.sum = segPtr.clearChecksum.sum + (checksum segPtr).toNat := by
  have hdata : (if segPtr.stamp.header.type = SegType.data then
      wordSum segPtr.stamp.data.val else 0) =
      if segPtr.clearChecksum.header.type = SegType.data then
        wordSum segPtr.clearChecksum.data.val else 0 := rfl
  have hfront : wordSum segPtr.stamp.front = wordSum segPtr.clearChecksum.front := rfl
  have htype : segPtr.stamp.header.type.toNat = segPtr.clearChecksum.header.type.toNat := rfl
  have hstamp : wordSum segPtr.stamp.back =
      segPtr.header.rcvWin.toNat + (checksum segPtr).toNat := Seg.wordSum_back _
  have hclear : wordSum segPtr.clearChecksum.back = segPtr.header.rcvWin.toNat + 0 :=
    Seg.wordSum_back _
  rw [Seg.sum_eq, Seg.sum_eq, hdata, hfront, htype, hstamp, hclear]
  omega

theorem checksum_toNat (segPtr : Seg) : (checksum segPtr).toNat =
    2 ^ 16 - 1 - fold (2 ^ 16) (fold (2 ^ 16) segPtr.clearChecksum.sum) := by
  rw [← foldSum_eq segPtr.clearChecksum.sum_lt]
  show (~~~ UInt16.ofNat (foldSum segPtr.clearChecksum.sum)).toNat = _
  rw [UInt16.toNat_not, UInt16.toNat_ofNat']
  rfl

theorem Seg.stamp_valid (segPtr : Seg) :
    0 < segPtr.stamp.sum ∧ 2 ^ 16 - 1 ∣ segPtr.stamp.sum := by
  have hsum := segPtr.clearChecksum.sum_lt
  rw [segPtr.sum_stamp, checksum_toNat]
  exact add_complement (by decide) (by omega)

/-- A stamped segment and every copy of its bytes pass the check, the sums involved lose no
carry, and stamping changes the checksum field only. -/
theorem stamp_verifies (segPtr : Seg) :
    checkchecksum segPtr.stamp = 1 ∧
    (∀ copy, segLayout.encode copy = segLayout.encode segPtr.stamp → checkchecksum copy = 1) ∧
    (∀ bs : List UInt8, bs.length = srtHdrLayout.size ∨ bs.length = segLayout.size →
      foldSum (wordSum bs) % 2 ^ 16 ≡ wordSum bs [MOD 2 ^ 16 - 1] ∧
        (foldSum (wordSum bs) % 2 ^ 16 = 0 ↔ wordSum bs = 0)) ∧
    { segPtr.stamp with header :=
      { segPtr.stamp.header with checksum := segPtr.header.checksum } } = segPtr := by
  have hvalid := (checkchecksum_valid segPtr.stamp).mpr segPtr.stamp_valid
  constructor
  · exact hvalid
  constructor
  · intro copy hcopy
    rw [segLayout.encode_injective hcopy]
    exact hvalid
  constructor
  · intro bs hbs
    apply foldSum_exact
    rcases hbs with h | h
    · rw [h]
      decide
    · exact h.le
  · rfl

/-! Which flipped bits are caught. -/

/-- The type that a flipped bit makes of `DATA`, and `DATA` of. -/
def dataFlipped (bit : ℕ) : UInt16 := SegType.data ^^^ UInt16.ofNat (2 ^ bit)

/-- The flips that leave a stamped segment valid: a data bit of a segment whose data is not
summed, and a bit of the type between `DATA` and another type when `DATA` and the data
sum to the other type. A segment that is left with an all-zero header is not valid. -/
def Escapes (segPtr : Seg) (errorbit : ℕ) : Prop :=
  (segPtr.header.type ≠ SegType.data ∧ 8 * srtHdrLayout.size ≤ errorbit) ∨
  ∃ bit < 16, errorbit = typeBit + bit ∧
    (segPtr.header.type = SegType.data ∨ segPtr.header.type = dataFlipped bit) ∧
    SegType.data.toNat + wordSum segPtr.data.val ≡ (dataFlipped bit).toNat [MOD 2 ^ 16 - 1] ∧
    ¬ (bit = 2 ∧ segPtr.clearChecksum.header = ⟨0, 0, 0, 0, 0, SegType.data, 0, 0⟩)

theorem dataFlipped_ne {bit : ℕ} (h : bit < 16) : dataFlipped bit ≠ SegType.data := by
  interval_cases bit <;> decide

theorem dataFlipped_eq_zero {bit : ℕ} (h : bit < 16) : dataFlipped bit = 0 ↔ bit = 2 := by
  interval_cases bit <;> decide

theorem xor_eq_data (type : UInt16) (bit : ℕ) :
    type ^^^ UInt16.ofNat (2 ^ bit) = SegType.data ↔ type = dataFlipped bit := by
  unfold dataFlipped
  constructor
  · intro h
    rw [← h, UInt16.xor_assoc, UInt16.xor_self, UInt16.xor_zero]
  · intro h
    rw [h, UInt16.xor_assoc, UInt16.xor_self, UInt16.xor_zero]

theorem xor_type (type : UInt16) {bit : ℕ} (h : bit < 16) :
    (type ^^^ UInt16.ofNat (2 ^ bit)).toNat = type.toNat + 2 ^ bit ∨
      type.toNat = (type ^^^ UInt16.ofNat (2 ^ bit)).toNat + 2 ^ bit := by
  have hpow : 2 ^ bit < 2 ^ 16 := Nat.pow_lt_pow_right (by decide) h
  rw [UInt16.toNat_xor, UInt16.toNat_ofNat', Nat.mod_eq_of_lt hpow]
  exact xor_two_pow_cases type.toNat bit

theorem Seg.front_eq_zero (segment : Seg) : wordSum segment.front = 0 ↔
    segment.header.srcPort = 0 ∧ segment.header.destPort = 0 ∧ segment.header.seqNum = 0 ∧
      segment.header.ackNum = 0 ∧ segment.header.length = 0 := by
  have h32 (v : UInt32) : (Layout.u32.encode v).length % 2 = 0 := by
    rw [Layout.length_encode]
    rfl
  have h16 (v : UInt16) : v.toNat = 0 ↔ v = 0 := UInt16.toNat_inj (b := 0)
  unfold Seg.front
  rw [wordSum_append (h32 _), wordSum_append (h32 _), wordSum_append (h32 _),
    wordSum_append (h32 _), wordSum_u16, ← wordSum_u32, ← wordSum_u32, ← wordSum_u32,
    ← wordSum_u32, ← h16]
  omega

/-- The words around the type of a stamped `DATA` segment whose type and data sum to zero. -/
theorem stamp_around_eq_zero (segPtr : Seg) (htype : segPtr.header.type = SegType.data)
    (hdata : 2 ^ 16 - 1 ∣ SegType.data.toNat + wordSum segPtr.data.val) :
    wordSum segPtr.front + wordSum segPtr.stamp.back = 0 ↔
      segPtr.clearChecksum.header = ⟨0, 0, 0, 0, 0, SegType.data, 0, 0⟩ := by
  have hback : wordSum segPtr.stamp.back =
      segPtr.header.rcvWin.toNat + (checksum segPtr).toNat := Seg.wordSum_back _
  have hwin : segPtr.header.rcvWin.toNat = 0 ↔ segPtr.header.rcvWin = 0 :=
    UInt16.toNat_inj (b := 0)
  constructor
  · intro hzero
    obtain ⟨hsrc, hdest, hseq, hack, hlen⟩ := segPtr.front_eq_zero.mp (by omega)
    rw [Seg.clearChecksum, SrtHdr.mk.injEq]
    exact ⟨hsrc, hdest, hseq, hack, hlen, htype, hwin.mp (by omega), rfl⟩
  · intro hheader
    rw [Seg.clearChecksum, SrtHdr.mk.injEq] at hheader
    obtain ⟨hsrc, hdest, hseq, hack, hlen, _, hrcv, _⟩ := hheader
    have hfront := segPtr.front_eq_zero.mpr ⟨hsrc, hdest, hseq, hack, hlen⟩
    have hsum : segPtr.clearChecksum.sum =
        wordSum segPtr.front + SegType.data.toNat + (segPtr.header.rcvWin.toNat + 0) +
          wordSum segPtr.data.val := by
      have hclear : wordSum segPtr.clearChecksum.back = segPtr.header.rcvWin.toNat + 0 :=
        Seg.wordSum_back _
      rw [Seg.sum_eq, hclear, if_pos (show segPtr.clearChecksum.header.type = _ from htype)]
      show _ + segPtr.header.type.toNat + _ + _ = _
      rw [htype]
      rfl
    have hlt := segPtr.clearChecksum.sum_lt
    have hfour : SegType.data.toNat = 4 := rfl
    have htop : fold (2 ^ 16) (fold (2 ^ 16) segPtr.clearChecksum.sum) = 2 ^ 16 - 1 := by
      rw [fold_fold_eq_top (by decide) (by omega), hsum, hfront, hwin.mpr hrcv]
      constructor
      · omega
      · simpa using hdata
    rw [hback, checksum_toNat, htop, hfront, hwin.mpr hrcv, Nat.sub_self]

/-- What is summed of a stamped segment makes its check come out. -/
theorem stamp_sum (segPtr : Seg) :
    0 < wordSum segPtr.front + segPtr.header.type.toNat + wordSum segPtr.stamp.back +
        (if segPtr.header.type = SegType.data then wordSum segPtr.data.val else 0) ∧
      2 ^ 16 - 1 ∣ wordSum segPtr.front + segPtr.header.type.toNat + wordSum segPtr.stamp.back +
        (if segPtr.header.type = SegType.data then wordSum segPtr.data.val else 0) := by
  have h := segPtr.stamp_valid
  rw [show segPtr.stamp = segPtr.stamp.withType segPtr.header.type from rfl,
    Seg.sum_withType] at h
  exact h

/-- What is summed when a bit of its type is flipped. -/
theorem flipBit_type_sum (segPtr : Seg) {bit : ℕ} (h : bit < 16) {type : UInt16}
    (htype : segPtr.header.type ^^^ UInt16.ofNat (2 ^ bit) = type) :
    checkchecksum (flipBit segPtr.stamp (typeBit + bit)) = 1 ↔
      0 < wordSum segPtr.front + type.toNat + wordSum segPtr.stamp.back +
        (if type = SegType.data then wordSum segPtr.data.val else 0) ∧
      2 ^ 16 - 1 ∣ wordSum segPtr.front + type.toNat + wordSum segPtr.stamp.back +
        (if type = SegType.data then wordSum segPtr.data.val else 0) := by
  subst htype
  rw [checkchecksum_valid, flipBit_type _ h, Seg.sum_withType]
  rfl

/-- With the type taken to `DATA` or away from it, both sums share the words around the
type, so only the difference of the two types and the data decides. -/
theorem flipBit_type_valid (segPtr : Seg) {bit : ℕ} (h : bit < 16) :
    checkchecksum (flipBit segPtr.stamp (typeBit + bit)) = 1 ↔
      (segPtr.header.type = SegType.data ∨ segPtr.header.type = dataFlipped bit) ∧
      SegType.data.toNat + wordSum segPtr.data.val ≡
        (dataFlipped bit).toNat [MOD 2 ^ 16 - 1] ∧
      ¬ (bit = 2 ∧ segPtr.clearChecksum.header = ⟨0, 0, 0, 0, 0, SegType.data, 0, 0⟩) := by
  have hxor := xor_eq_data segPtr.header.type bit
  have hne := dataFlipped_ne h
  have hzero := dataFlipped_eq_zero h
  have hnat : (dataFlipped bit).toNat = 0 ↔ dataFlipped bit = 0 := UInt16.toNat_inj (b := 0)
  have hfour : SegType.data.toNat = 4 := rfl
  obtain ⟨hpos, hdvd⟩ := stamp_sum segPtr
  by_cases hdata : segPtr.header.type = SegType.data
  · -- the data drops out of the sum
    have hflip : segPtr.header.type ^^^ UInt16.ofNat (2 ^ bit) = dataFlipped bit := by
      rw [hdata, dataFlipped]
    rw [if_pos hdata, hdata] at hdvd
    rw [flipBit_type_sum segPtr h hflip, if_neg hne]
    have haround := stamp_around_eq_zero segPtr hdata
    rw [hfour] at hdvd haround ⊢
    generalize wordSum segPtr.front = front, wordSum segPtr.stamp.back = back,
      wordSum segPtr.data.val = dataSum, (dataFlipped bit).toNat = other at *
    unfold Nat.ModEq
    constructor
    · rintro ⟨hpos', hdvd'⟩
      refine ⟨.inl hdata, by omega, ?_⟩
      rintro ⟨hbit, hheader⟩
      have hother : other = 0 := hnat.mpr (hzero.mpr hbit)
      have hsum := (haround (by omega)).mpr hheader
      omega
    · rintro ⟨_, hmod, hnot⟩
      refine ⟨?_, by omega⟩
      by_contra hle
      exact hnot ⟨hzero.mp (hnat.mp (by omega)), (haround (by omega)).mp (by omega)⟩
  · by_cases hother : segPtr.header.type = dataFlipped bit
    · -- the data joins the sum
      have hheader : segPtr.clearChecksum.header ≠ ⟨0, 0, 0, 0, 0, SegType.data, 0, 0⟩ :=
        fun heq => hdata (congrArg SrtHdr.type heq)
      rw [if_neg hdata, hother] at hdvd
      rw [flipBit_type_sum segPtr h (hxor.mpr hother), if_pos rfl, hfour]
      generalize wordSum segPtr.front = front, wordSum segPtr.stamp.back = back,
        wordSum segPtr.data.val = dataSum, (dataFlipped bit).toNat = other at *
      unfold Nat.ModEq
      constructor
      · rintro ⟨_, hdvd'⟩
        exact ⟨.inr hother, by omega, fun hnot => hheader hnot.2⟩
      · rintro ⟨_, hmod, _⟩
        exact ⟨by omega, by omega⟩
    · -- neither type sums the data, and the sum has changed by one bit
      have htwo : ¬ 2 ^ 16 - 1 ∣ 2 ^ bit := not_dvd_two_pow (by decide) h
      have htype := xor_type segPtr.header.type h
      rw [if_neg hdata] at hdvd
      rw [flipBit_type_sum segPtr h rfl, if_neg (mt hxor.mp hother)]
      constructor
      · rintro ⟨_, hdvd'⟩
        omega
      · rintro ⟨hor, _⟩
        exact absurd hor (not_or.mpr ⟨hdata, hother⟩)

/-- Of the other bits the check misses exactly those of the data when it is not summed. -/
theorem flipBit_other_valid (segPtr : Seg) {errorbit : ℕ}
    (hout : errorbit < typeBit ∨ typeBit + 16 ≤ errorbit)
    (hsize : errorbit < 8 * segLayout.size) :
    checkchecksum (flipBit segPtr.stamp errorbit) = 1 ↔
      segPtr.header.type ≠ SegType.data ∧ 8 * srtHdrLayout.size ≤ errorbit := by
  obtain ⟨hpos, hdvd⟩ := segPtr.stamp_valid
  have htwo : ¬ 2 ^ 16 - 1 ∣ 2 ^ (errorbit % 16) :=
    not_dvd_two_pow (by decide) (Nat.mod_lt _ (by decide))
  rw [checkchecksum_valid]
  rcases sum_flipBit_other segPtr.stamp hout with ⟨hlt, hsum⟩ | ⟨hge, hsum⟩
  · constructor
    · rintro ⟨_, hdvd'⟩
      exfalso
      apply htwo
      rcases hsum with hsum | hsum
      · rw [hsum] at hdvd'
        exact (Nat.dvd_add_right hdvd).mp hdvd'
      · rw [hsum] at hdvd
        exact (Nat.dvd_add_right hdvd').mp hdvd
    · rintro ⟨hne, hge⟩
      have hcount : checksumCount segPtr.stamp = srtHdrLayout.size := if_neg hne
      omega
  · have hne : segPtr.header.type ≠ SegType.data := by
      intro heq
      have hcount : checksumCount segPtr.stamp = segLayout.size := if_pos heq
      omega
    have hcount : checksumCount segPtr.stamp = srtHdrLayout.size := if_neg hne
    rw [hsum, ← hcount]
    constructor
    · intro _
      exact ⟨hne, hge⟩
    · intro _
      exact ⟨hpos, hdvd⟩

/-- What the check misses among the bits that `seglost` can flip. -/
theorem flip_caught_iff (segPtr : Seg) (errorbit : ℕ)
    (hlen : segPtr.header.length.toNat ≤ maxSegLen) (hbit : errorbit < segPtr.errorbits) :
    checkchecksum (flipBit segPtr.stamp errorbit) = -1 ↔ ¬ Escapes segPtr errorbit := by
  rw [checkchecksum_invalid]
  apply not_congr
  have hsize : errorbit < 8 * segLayout.size := by
    have hs : segLayout.size = srtHdrLayout.size + maxSegLen := rfl
    unfold Seg.errorbits at hbit
    omega
  by_cases htype : typeBit ≤ errorbit ∧ errorbit < typeBit + 16
  · obtain ⟨bit, rfl⟩ : ∃ bit, errorbit = typeBit + bit := ⟨errorbit - typeBit, by omega⟩
    have hb : bit < 16 := by omega
    have hdata : ¬ 8 * srtHdrLayout.size ≤ typeBit + bit := by
      show ¬ 192 ≤ 144 + bit
      omega
    rw [flipBit_type_valid segPtr hb]
    unfold Escapes
    constructor
    · intro hmiss
      exact .inr ⟨bit, hb, rfl, hmiss⟩
    · rintro (⟨_, hge⟩ | ⟨bit', _, heq, hmiss⟩)
      · exact absurd hge hdata
      · rw [show bit = bit' by omega]
        exact hmiss
  · rw [flipBit_other_valid segPtr (by omega) hsize]
    unfold Escapes
    constructor
    · exact fun hmiss => .inl hmiss
    · rintro (hmiss | ⟨bit, _, heq, _⟩)
      · exact hmiss
      · exact absurd ⟨by omega, by omega⟩ htype

/-- A `DATA` segment with one byte of data. -/
def byteSeg (byte : UInt8) : Seg :=
  ⟨⟨4000, 80, 1, 0, 1, SegType.data, 0, 0⟩, List.Vector.cons byte (List.Vector.replicate 199 0)⟩

theorem flip_caught_port :
    (byteSeg 1).header.length.toNat ≤ maxSegLen ∧ 0 < (byteSeg 1).errorbits ∧
      (checkchecksum (flipBit (byteSeg 1).stamp 0) = -1 ↔ ¬ Escapes (byteSeg 1) 0) :=
  ⟨by decide, by decide, flip_caught_iff (byteSeg 1) 0 (by decide) (by decide)⟩

/-- The lowest bit of the type takes `DATA` to `DATAACK`, whose data is not summed: the byte
`1` that is no longer added is made up for by the type. -/
theorem data_turned_dataack : ¬ ∀ (segPtr : Seg) (errorbit : ℕ),
    segPtr.header.length.toNat ≤ maxSegLen → errorbit < segPtr.errorbits →
      checkchecksum (flipBit segPtr.stamp errorbit) = -1 := by
  intro hall
  have hvalid : checkchecksum (flipBit (byteSeg 1).stamp typeBit) = 1 := by decide +kernel
  have hinvalid := hall (byteSeg 1) typeBit (by decide) (by decide)
  rw [hvalid] at hinvalid
  exact absurd hinvalid (by decide)

end DartNet
