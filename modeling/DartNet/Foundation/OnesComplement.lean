import Mathlib.Data.Nat.ModEq
import Mathlib.Tactic.Ring

/-! One's-complement sums in a base `b`: the digit above the lowest is carried around to
it, so that a sum is known modulo `b - 1` and as zero or not. -/
namespace OnesComplement
variable {b : ℕ}

/-- One end-around carry. -/
def fold (b n : ℕ) : ℕ := n % b + n / b

theorem fold_add (hb : 1 ≤ b) (n : ℕ) : fold b n + (b - 1) * (n / b) = n := by
  obtain ⟨k, rfl⟩ : ∃ k, b = k + 1 := ⟨b - 1, by omega⟩
  have h := Nat.div_add_mod n (k + 1)
  rw [Nat.add_mul, Nat.one_mul] at h
  unfold fold
  rw [Nat.add_sub_cancel]
  omega

theorem fold_modEq (hb : 1 ≤ b) (n : ℕ) : fold b n ≡ n [MOD b - 1] := by
  have h := fold_add hb n
  unfold Nat.ModEq
  conv_rhs => rw [← h]
  rw [Nat.add_mul_mod_self_left]

theorem fold_eq_zero (hb : 1 ≤ b) {n : ℕ} : fold b n = 0 ↔ n = 0 := by
  constructor
  · intro h
    have hdiv : n / b = 0 := (Nat.add_eq_zero_iff.mp h).2
    have hn := fold_add hb n
    rw [h, hdiv] at hn
    omega
  · intro h
    simp [h, fold]

/-- A sum below `b * b` keeps at most one carry after the first step and none after the
second. -/
theorem fold_fold_lt {n : ℕ} (h : n < b * b) : fold b (fold b n) < b := by
  have hb : 0 < b := Nat.pos_of_mul_pos_right (Nat.zero_lt_of_lt h)
  have hmod := Nat.mod_lt n hb
  have hdiv : n / b < b := Nat.div_lt_of_lt_mul h
  have hfold : fold b n < 2 * b - 1 := by unfold fold; omega
  rcases Nat.lt_or_ge (fold b n) b with hlt | hge
  · show fold b n % b + fold b n / b < b
    rw [Nat.mod_eq_of_lt hlt, Nat.div_eq_of_lt hlt]
    omega
  · show fold b n % b + fold b n / b < b
    rw [Nat.mod_eq_sub_mod hge, Nat.mod_eq_of_lt (by omega),
      Nat.div_eq_of_lt_le (k := 1) (by omega) (by omega)]
    omega

theorem fold_fold_modEq (hb : 1 ≤ b) (n : ℕ) : fold b (fold b n) ≡ n [MOD b - 1] :=
  (fold_modEq hb _).trans (fold_modEq hb n)

theorem fold_fold_eq_zero (hb : 1 ≤ b) {n : ℕ} : fold b (fold b n) = 0 ↔ n = 0 := by
  rw [fold_eq_zero hb, fold_eq_zero hb]

/-- Adding the carry without dropping it first gives the same lowest digit. -/
theorem add_div_mod (b s : ℕ) : (s + s / b) % b = fold b s % b :=
  (Nat.mod_add_mod s b (s / b)).symm

/-- The two representations of zero: the doubly folded sum is the largest digit exactly
for the positive multiples of it. -/
theorem fold_fold_eq_top (hb : 2 ≤ b) {n : ℕ} (h : n < b * b) :
    fold b (fold b n) = b - 1 ↔ 0 < n ∧ b - 1 ∣ n := by
  have hlt := fold_fold_lt h
  have hmod : fold b (fold b n) ≡ n [MOD b - 1] := fold_fold_modEq (by omega) n
  have hzero : fold b (fold b n) = 0 ↔ n = 0 := fold_fold_eq_zero (by omega)
  have hdvd : b - 1 ∣ fold b (fold b n) ↔ b - 1 ∣ n := hmod.dvd_iff (dvd_refl _)
  constructor
  · intro heq
    constructor
    · omega
    · rw [← hdvd, heq]
  · rintro ⟨hpos, hn⟩
    have hle := Nat.le_of_dvd (by omega) (hdvd.mpr hn)
    omega

/-- A sum together with the complement of its folded value is a positive multiple of the
largest digit. -/
theorem add_complement (hb : 2 ≤ b) {n : ℕ} (h : n < b * b) :
    0 < n + (b - 1 - fold b (fold b n)) ∧ b - 1 ∣ n + (b - 1 - fold b (fold b n)) := by
  have hlt := fold_fold_lt h
  have hmod : fold b (fold b n) ≡ n [MOD b - 1] := fold_fold_modEq (by omega) n
  have hzero : fold b (fold b n) = 0 ↔ n = 0 := fold_fold_eq_zero (by omega)
  constructor
  · omega
  · apply Nat.dvd_of_mod_eq_zero
    have hsum := hmod.symm.add_right (b - 1 - fold b (fold b n))
    rw [Nat.add_sub_cancel' (by omega)] at hsum
    rw [show n + (b - 1 - fold b (fold b n)) ≡ b - 1 [MOD b - 1] from hsum, Nat.mod_self]

/-- No power of two that is a single bit of a `w`-bit digit is a multiple of `2 ^ w - 1`. -/
theorem not_dvd_two_pow {w j : ℕ} (hw : 2 ≤ w) (hj : j < w) : ¬ 2 ^ w - 1 ∣ 2 ^ j := by
  intro h
  have hle := Nat.le_of_dvd (Nat.two_pow_pos j) h
  have hpow : 2 ^ j ≤ 2 ^ (w - 1) := Nat.pow_le_pow_right (by decide) (by omega)
  have hsucc : 2 ^ (w - 1) * 2 = 2 ^ w := by
    rw [← Nat.pow_succ, Nat.succ_eq_add_one, Nat.sub_add_cancel (by omega)]
  have htwo : 2 ^ 1 ≤ 2 ^ (w - 1) := Nat.pow_le_pow_right (by decide) (by omega)
  omega

end OnesComplement
