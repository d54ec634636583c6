import Mathlib.Tactic.Common

/-! Timeouts on a clock that shows only how far its current period has come. The time elapsed is
taken as the unsigned difference of two readings. -/
namespace Clock

/-- A wait that was given up: the instant it began at, if there is one, the instant it ended at,
and the time it should have taken at least. -/
structure Wait where
  since : Option ℕ
  till : ℕ
  limit : ℕ
  deriving DecidableEq, Repr

/-- More than the limit has passed. -/
def Wait.Full (w : Wait) : Prop := ∃ t ∈ w.since, t + w.limit < w.till

instance (w : Wait) : Decidable w.Full := by unfold Wait.Full; infer_instance

@[simp] theorem Wait.full_some {t till limit : ℕ} :
    (⟨some t, till, limit⟩ : Wait).Full ↔ t + limit < till := by
  simp [Wait.Full]

@[simp] theorem Wait.not_full_none {till limit : ℕ} : ¬ (⟨none, till, limit⟩ : Wait).Full := by
  simp [Wait.Full]

/-- A full wait is still full when it ends later. -/
theorem Wait.Full.mono {since : Option ℕ} {till till' limit : ℕ}
    (h : (⟨since, till, limit⟩ : Wait).Full) (hle : till ≤ till') :
    (⟨since, till', limit⟩ : Wait).Full := by
  obtain ⟨t, ht, hlt⟩ := h
  exact ⟨t, ht, Nat.lt_of_lt_of_le hlt hle⟩

def AllFull (ws : List Wait) : Prop := ∀ w ∈ ws, w.Full

instance (ws : List Wait) : Decidable (AllFull ws) := by unfold AllFull; infer_instance

@[simp] theorem allFull_nil : AllFull [] := by simp [AllFull]

@[simp] theorem allFull_append {ws vs : List Wait} :
    AllFull (ws ++ vs) ↔ AllFull ws ∧ AllFull vs := by
  simp [AllFull, or_imp, forall_and]

@[simp] theorem allFull_singleton {w : Wait} : AllFull [w] ↔ w.Full := by simp [AllFull]

/-- A clock with a period, in a unit of time. -/
def reading (period unit t : ℕ) : ℕ := t % period / unit

/-- The unsigned difference of two readings passes the limit: it wraps around, or it is large. -/
def Fires (limit start now : ℕ) : Prop := now < start ∨ limit < now - start

theorem reading_lt {period unit : ℕ} (hperiod : 0 < period) (t : ℕ) :
    reading period unit t < period :=
  Nat.lt_of_le_of_lt (Nat.div_le_self _ _) (Nat.mod_lt t hperiod)

/-- Readings are never further apart than the instants they were taken at. -/
theorem reading_sub_le (period unit : ℕ) {s t : ℕ} (hst : s ≤ t) :
    (reading period unit t - reading period unit s) * unit ≤ t - s + (unit - 1) := by
  unfold reading
  have hs := Nat.div_add_mod s period
  have ht := Nat.div_add_mod t period
  have hperiods : period * (s / period) ≤ period * (t / period) :=
    Nat.mul_le_mul_left _ (Nat.div_le_div_right hst)
  have hmod : t % period - s % period ≤ t - s := by omega
  rcases Nat.eq_zero_or_pos unit with rfl | hunit
  · simp
  · have hlow := Nat.div_add_mod (s % period) unit
    have hhigh := Nat.div_mul_le_self (t % period) unit
    have hrest := Nat.mod_lt (s % period) hunit
    rw [Nat.sub_mul, Nat.mul_comm (s % period / unit)]
    omega

/-- If the later reading is raised by a period when it shows less than the earlier one, the
difference is the elapsed time without its whole periods, however many there were. -/
theorem corrected_sub {period s t : ℕ} (hperiod : 0 < period) (hst : s ≤ t) :
    (reading period 1 t + if reading period 1 t < reading period 1 s then period else 0) -
      reading period 1 s = (t - s) % period := by
  obtain ⟨d, rfl⟩ := Nat.exists_eq_add_of_le hst
  simp only [reading, Nat.div_one, Nat.add_sub_cancel_left]
  have hs := Nat.mod_lt s hperiod
  have hd := Nat.mod_lt d hperiod
  rw [Nat.add_mod]
  rcases Nat.lt_or_ge (s % period + d % period) period with hlt | hge
  · rw [Nat.mod_eq_of_lt hlt, if_neg (by omega)]
    omega
  · rw [Nat.mod_eq_sub_mod hge, Nat.mod_eq_of_lt (by omega), if_pos (by omega)]
    omega

/-- A timeout fires only after its limit exactly if no reading within the limit shows less than
the first one. -/
theorem fires_full_iff (period limit : ℕ) {unit s t : ℕ} (hunit : 0 < unit) (hst : s ≤ t) :
    (Fires limit (reading period unit s) (reading period unit t) → s + limit * unit < t) ↔
      (t ≤ s + limit * unit → reading period unit s ≤ reading period unit t) := by
  constructor
  · intro h hle
    by_contra hlt
    exact absurd (h (.inl (Nat.lt_of_not_le hlt))) (Nat.not_lt_of_le hle)
  · intro h hfires
    by_contra hle
    have hle : t ≤ s + limit * unit := Nat.le_of_not_lt hle
    have hread := h hle
    rcases hfires with hwrap | hlarge
    · omega
    · have hsub := reading_sub_le period unit hst
      have hmul := Nat.mul_le_mul_right unit hlarge
      rw [Nat.succ_mul] at hmul
      omega

/-- The unsigned difference of 64-bit readings. -/
theorem lt_sub_iff {period limit : ℕ} {start now : UInt64} (hstart : start.toNat < period)
    (hnow : now.toNat < period) (hlimit : limit + period ≤ UInt64.size) :
    limit < (now - start).toNat ↔ Fires limit start.toNat now.toNat := by
  rw [UInt64.toNat_sub, Fires]
  simp only [UInt64.size] at hlimit
  omega

end Clock
