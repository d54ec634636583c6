import DartNet.Foundation.Layout
import Mathlib.Tactic.IntervalCases

/-! One flipped bit: in a number, in the bytes of an image, and in the value that a
layout reads from them. -/
namespace Packed

/-- A flipped bit adds or takes away its weight. -/
theorem xor_two_pow (n k : ℕ) :
    n ^^^ 2 ^ k = if n.testBit k then n - 2 ^ k else n + 2 ^ k := by
  induction k generalizing n with
  | zero =>
    have hdiv : (n ^^^ 1) / 2 = n / 2 := by
      have h := Nat.xor_div_two_pow (a := n) (b := 1) (n := 1)
      simpa using h
    have hmod : (n ^^^ 1) % 2 = (n + 1) % 2 := by
      have h := Nat.xor_mod_two_pow (a := n) (b := 1) (n := 1)
      rw [pow_one] at h
      rw [h, Nat.add_mod]
      rcases Nat.mod_two_eq_zero_or_one n with hn | hn <;> rw [hn] <;> rfl
    simp only [pow_zero, Nat.testBit_zero, decide_eq_true_eq]
    split <;> omega
  | succ k ih =>
    have hdiv : (n ^^^ 2 ^ (k + 1)) / 2 = n / 2 ^^^ 2 ^ k := by
      have h := Nat.xor_div_two_pow (a := n) (b := 2 ^ (k + 1)) (n := 1)
      simpa [Nat.pow_succ] using h
    have hmod : (n ^^^ 2 ^ (k + 1)) % 2 = n % 2 := by
      have h := Nat.xor_mod_two_pow (a := n) (b := 2 ^ (k + 1)) (n := 1)
      rw [pow_one, Nat.pow_succ, Nat.mul_mod_left, Nat.xor_zero] at h
      rwa [Nat.pow_succ]
    rw [ih] at hdiv
    rw [Nat.testBit_succ]
    split at hdiv
    next hb =>
      have hle := Nat.ge_two_pow_of_testBit hb
      rw [if_pos hb]
      omega
    next hb =>
      rw [if_neg hb]
      omega

theorem xor_two_pow_cases (n k : ℕ) : n ^^^ 2 ^ k = n + 2 ^ k ∨ n = (n ^^^ 2 ^ k) + 2 ^ k := by
  rw [xor_two_pow]
  split
  next hb =>
    have hle := Nat.ge_two_pow_of_testBit hb
    omega
  next => exact .inl rfl

/-- The bytes with one bit flipped, the bits numbered from the low bit of the first byte. -/
def invertBit (bs : List UInt8) (bit : ℕ) : List UInt8 :=
  bs.modify (bit / 8) (· ^^^ (1 <<< UInt8.ofNat (bit % 8)))

@[simp] theorem length_invertBit (bs : List UInt8) (bit : ℕ) :
    (invertBit bs bit).length = bs.length := by
  simp [invertBit]

theorem toNat_bit (k : ℕ) (h : k < 8) : ((1 : UInt8) <<< UInt8.ofNat k).toNat = 2 ^ k := by
  interval_cases k <;> rfl

theorem invertBit_append_left {bs : List UInt8} {bit : ℕ} (h : bit < 8 * bs.length)
    (cs : List UInt8) : invertBit (bs ++ cs) bit = invertBit bs bit ++ cs := by
  have hlt : bit / 8 < bs.length := by omega
  unfold invertBit
  rw [List.modify_eq_take_cons_drop (by simp; omega), List.modify_eq_take_cons_drop hlt,
    List.take_append_of_le_length hlt.le, List.drop_append_of_le_length hlt,
    List.getElem_append_left hlt]
  simp

theorem invertBit_append_right {bs : List UInt8} {bit : ℕ} (h : 8 * bs.length ≤ bit)
    (cs : List UInt8) : invertBit (bs ++ cs) bit = bs ++ invertBit cs (bit - 8 * bs.length) := by
  have hdiv : bit / 8 = bs.length + (bit - 8 * bs.length) / 8 := by omega
  have hmod : bit % 8 = (bit - 8 * bs.length) % 8 := by omega
  unfold invertBit List.modify
  rw [hdiv, hmod, List.modifyTailIdx_add]

theorem take_invertBit_lt {bs : List UInt8} {n bit : ℕ} (hn : n ≤ bs.length)
    (h : bit < 8 * n) : (invertBit bs bit).take n = invertBit (bs.take n) bit := by
  have hlen : (bs.take n).length = n := List.length_take_of_le hn
  conv_lhs => rw [← List.take_append_drop n bs]
  rw [invertBit_append_left (by rwa [hlen]), List.take_left' (by rw [length_invertBit, hlen])]

theorem take_invertBit_ge {bs : List UInt8} {n bit : ℕ} (hn : n ≤ bs.length)
    (h : 8 * n ≤ bit) : (invertBit bs bit).take n = bs.take n := by
  have hlen : (bs.take n).length = n := List.length_take_of_le hn
  conv_lhs => rw [← List.take_append_drop n bs]
  rw [invertBit_append_right (by rwa [hlen]), List.take_left' hlen]

/-- Flipping a bit of a number flips that bit of its little-endian image. -/
theorem Layout.digits_xor (k v bit : ℕ) :
    Layout.digits k (v ^^^ 2 ^ bit) = invertBit (Layout.digits k v) bit := by
  induction k generalizing v bit with
  | zero => simp [Layout.digits, invertBit]
  | succ k ih =>
    have hdiv : (v ^^^ 2 ^ bit) / 256 = v / 256 ^^^ 2 ^ bit / 256 :=
      Nat.xor_div_two_pow (n := 8)
    simp only [Layout.digits, hdiv]
    rcases Nat.lt_or_ge bit 8 with hbit | hbit
    · have hz : 2 ^ bit / 256 = 0 := Nat.div_eq_of_lt (Nat.pow_lt_pow_right (by decide) hbit)
      have hhead : UInt8.ofNat (v ^^^ 2 ^ bit) = UInt8.ofNat v ^^^ 1 <<< UInt8.ofNat bit := by
        apply UInt8.toNat_inj.mp
        rw [UInt8.toNat_xor, toNat_bit bit hbit, UInt8.toNat_ofNat', UInt8.toNat_ofNat',
          Nat.xor_mod_two_pow, Nat.mod_eq_of_lt (Nat.pow_lt_pow_right (by decide) hbit)]
      simp [invertBit, hz, hhead, Nat.div_eq_of_lt hbit, Nat.mod_eq_of_lt hbit]
    · obtain ⟨j, rfl⟩ : ∃ j, bit = j + 8 := ⟨bit - 8, by omega⟩
      have hpow : 2 ^ (j + 8) / 256 = 2 ^ j := by simp [Nat.pow_add]
      have hhead : UInt8.ofNat (v ^^^ 2 ^ (j + 8)) = UInt8.ofNat v := by
        apply UInt8.toNat_inj.mp
        rw [UInt8.toNat_ofNat', UInt8.toNat_ofNat', Nat.xor_mod_two_pow, Nat.pow_add,
          Nat.mul_mod_left, Nat.xor_zero]
      rw [hpow, hhead, ih]
      simp [invertBit]

namespace Layout
variable {α β : Type*}

/-- The value read after one bit of the image has been flipped. -/
def invertBit (L : Layout α) (a : α) (bit : ℕ) : α := L.decode (Packed.invertBit (L.encode a) bit)

theorem encode_invertBit (L : Layout α) (a : α) (bit : ℕ) :
    L.encode (L.invertBit a bit) = Packed.invertBit (L.encode a) bit :=
  L.encode_decode _ (by rw [length_invertBit, L.length_encode])

theorem invertBit_u16 (v : UInt16) {bit : ℕ} (h : bit < 16) :
    u16.invertBit v bit = v ^^^ UInt16.ofNat (2 ^ bit) := by
  apply u16.encode_injective
  rw [encode_invertBit]
  show Packed.invertBit (digits 2 v.toNat) bit = digits 2 (v ^^^ UInt16.ofNat (2 ^ bit)).toNat
  have hpow : 2 ^ bit < 2 ^ 16 := Nat.pow_lt_pow_right (by decide) h
  rw [UInt16.toNat_xor, UInt16.toNat_ofNat', Nat.mod_eq_of_lt hpow, digits_xor]

end Layout
end Packed
