import Mathlib.Tactic.Common

/-! Labelled transition systems given by a partial step function. A label that is
not enabled, or whose effect is undefined, has no successor. -/
namespace Transition
variable {σ α : Type*}

structure Machine (σ α : Type*) where
  Init : σ → Prop
  step : σ → α → Option σ

namespace Machine
variable (M : Machine σ α)

/-- States reached from an initial state by steps that were all admitted in the
state they started from. -/
inductive Reachable (ok : σ → α → Prop) : σ → Prop
  | init {s : σ} : M.Init s → Reachable ok s
  | step {s t : σ} {a : α} : Reachable ok s → ok s a → M.step s a = some t → Reachable ok t

variable {M} {ok : σ → α → Prop}

/-- The invariant rule: what holds initially and is kept by admitted steps holds throughout. -/
theorem Reachable.invariant {I : σ → Prop} (hinit : ∀ s, M.Init s → I s)
    (hstep : ∀ s a t, I s → ok s a → M.step s a = some t → I t) {s : σ}
    (h : M.Reachable ok s) : I s := by
  induction h with
  | init h => exact hinit _ h
  | step _ ha hs ih => exact hstep _ _ _ ih ha hs

/-- The invariant rule where the step may use an invariant established before. -/
theorem Reachable.invariant_of {I J : σ → Prop} (hJ : ∀ s, M.Reachable ok s → J s)
    (hinit : ∀ s, M.Init s → I s)
    (hstep : ∀ s a t, J s → I s → ok s a → M.step s a = some t → I t) {s : σ}
    (h : M.Reachable ok s) : I s := by
  induction h with
  | init h => exact hinit _ h
  | step h ha hs ih => exact hstep _ _ _ (hJ _ h) ih ha hs

/-- A machine whose steps are, seen through a projection, steps of another one or nothing at
all, reaches only what the other one reaches. -/
theorem Reachable.project {τ β : Type*} {N : Machine τ β} {f : σ → τ}
    (hinit : ∀ s, M.Init s → N.Init (f s))
    (hstep : ∀ s a t, M.step s a = some t → f t = f s ∨ ∃ b, N.step (f s) b = some (f t)) {s : σ}
    (h : M.Reachable ok s) : N.Reachable (fun _ _ => True) (f s) := by
  induction h with
  | init h => exact .init (hinit _ h)
  | step _ _ hs ih =>
    obtain heq | ⟨b, hb⟩ := hstep _ _ _ hs
    · exact heq ▸ ih
    · exact .step ih trivial hb

theorem Reachable.mono {ok' : σ → α → Prop} (hok : ∀ s a, ok s a → ok' s a) {s : σ}
    (h : M.Reachable ok s) : M.Reachable ok' s := by
  induction h with
  | init h => exact .init h
  | step _ ha hs ih => exact .step ih (hok _ _ ha) hs

/-- The simulation rule: where each step is one of the other machine or leaves the related state
as it is, a reachable state is related to a reachable one. -/
theorem Reachable.simulate {τ β : Type*} {N : Machine τ β} {ok' : τ → β → Prop} {R : σ → τ → Prop}
    (hinit : ∀ s, M.Init s → ∃ u, N.Init u ∧ R s u)
    (hstep : ∀ s a t u, N.Reachable ok' u → R s u → ok s a → M.step s a = some t →
      R t u ∨ ∃ b v, ok' u b ∧ N.step u b = some v ∧ R t v) {s : σ} (h : M.Reachable ok s) :
    ∃ u, N.Reachable ok' u ∧ R s u := by
  induction h with
  | init h =>
    obtain ⟨u, hu, hR⟩ := hinit _ h
    exact ⟨u, .init hu, hR⟩
  | step _ ha hs ih =>
    obtain ⟨u, hu, hR⟩ := ih
    obtain hR | ⟨b, v, hb, hv, hR⟩ := hstep _ _ _ u hu hR ha hs
    · exact ⟨u, hu, hR⟩
    · exact ⟨v, .step hu hb hv, hR⟩

variable (M) (ok) [∀ s a, Decidable (ok s a)]

/-- Execute a list of labels, stopping when one is not admitted or not enabled. -/
def run : σ → List α → Option σ
  | s, [] => some s
  | s, a :: as => if ok s a then (M.step s a).bind fun t => run t as else none

theorem reachable_run {s t : σ} (hs : M.Reachable ok s) {as : List α}
    (h : M.run ok s as = some t) : M.Reachable ok t := by
  induction as generalizing s with
  | nil => exact Option.some.inj h ▸ hs
  | cons a as ih =>
    simp only [run] at h
    split at h
    next ha =>
      obtain ⟨u, hu, ht⟩ := Option.bind_eq_some_iff.mp h
      exact ih (.step hs ha hu) ht
    next => contradiction

theorem run_append {s : σ} (as bs : List α) :
    M.run ok s (as ++ bs) = (M.run ok s as).bind fun t => M.run ok t bs := by
  induction as generalizing s with
  | nil => rfl
  | cons a as ih =>
    simp only [List.cons_append, run]
    split
    next =>
      cases M.step s a with
      | none => rfl
      | some u => simp only [Option.bind_some, ih]
    next => rfl

/-- The invariant rule for a run from any state. -/
theorem run_invariant {I : σ → Prop} (hstep : ∀ s a t, I s → ok s a → M.step s a = some t → I t)
    {s t : σ} (hs : I s) {as : List α} (h : M.run ok s as = some t) : I t := by
  induction as generalizing s with
  | nil => exact Option.some.inj h ▸ hs
  | cons a as ih =>
    simp only [run] at h
    split at h
    next ha =>
      obtain ⟨u, hu, ht⟩ := Option.bind_eq_some_iff.mp h
      exact ih (hstep s a u hs ha hu) ht
    next => contradiction

/-- A state found by executing a run is reachable and has the property tested on it. -/
theorem exists_of_run {s : σ} (hs : M.Init s) (as : List α) {P : σ → Prop} [DecidablePred P]
    (h : (M.run ok s as).any (fun t => decide (P t)) = true) :
    ∃ t, M.run ok s as = some t ∧ M.Reachable ok t ∧ P t := by
  obtain ⟨t, ht, hP⟩ := (Option.any_eq_true ..).mp h
  exact ⟨t, ht, M.reachable_run ok (.init hs) ht, of_decide_eq_true hP⟩

/-- What the steps of a run cost together. -/
def total (f : σ → α → ℕ) : σ → List α → ℕ
  | _, [] => 0
  | s, a :: as => f s a + ((M.step s a).map fun t => total f t as).getD 0

section Measure
variable {M ok} {m : σ → ℕ}

/-- A run costs no more than a measure falls, if each step pays for itself. -/
theorem total_add_le_of_run {f : σ → α → ℕ}
    (hm : ∀ s a t, M.Reachable ok s → ok s a → M.step s a = some t → f s a + m t ≤ m s) {s t : σ}
    (hs : M.Reachable ok s) {as : List α} (h : M.run ok s as = some t) :
    M.total f s as + m t ≤ m s := by
  induction as generalizing s with
  | nil =>
    obtain rfl := Option.some.inj h
    simp [total]
  | cons a as ih =>
    simp only [run] at h
    split at h
    next ha =>
      obtain ⟨u, hu, ht⟩ := Option.bind_eq_some_iff.mp h
      have hfirst := hm s a u hs ha hu
      have hrest := ih (.step hs ha hu) ht
      simp only [total, hu, Option.map_some, Option.getD_some]
      omega
    next => contradiction

theorem total_one {s t : σ} {as : List α} (h : M.run ok s as = some t) :
    M.total (fun _ _ => 1) s as = as.length := by
  induction as generalizing s with
  | nil => rfl
  | cons a as ih =>
    simp only [run] at h
    split at h
    next =>
      obtain ⟨u, hu, ht⟩ := Option.bind_eq_some_iff.mp h
      simp only [total, hu, Option.map_some, Option.getD_some, ih ht, List.length_cons]
      omega
    next => contradiction

/-- A run is no longer than a measure that each step lowers. -/
theorem length_le_of_run
    (hm : ∀ s a t, M.Reachable ok s → ok s a → M.step s a = some t → m t < m s) {s t : σ}
    (hs : M.Reachable ok s) {as : List α} (h : M.run ok s as = some t) :
    as.length + m t ≤ m s := by
  rw [← total_one h]
  apply total_add_le_of_run _ hs h
  intro s a t hs ha hstep
  have hlt := hm s a t hs ha hstep
  omega

/-- Where each state without a property has a step that lowers the measure, some run ends with
the property. -/
theorem exists_run {P : σ → Prop} (hstep : ∀ s, M.Reachable ok s → ¬ P s →
      ∃ a t, ok s a ∧ M.step s a = some t ∧ m t < m s) {s : σ} (hs : M.Reachable ok s) :
    ∃ as t, M.run ok s as = some t ∧ P t := by
  induction hn : m s using Nat.strongRecOn generalizing s with
  | ind n ih =>
    by_cases hP : P s
    · exact ⟨[], s, rfl, hP⟩
    · obtain ⟨a, u, ha, hu, hlt⟩ := hstep s hs hP
      obtain ⟨as, t, ht, hPt⟩ := ih (m u) (hn ▸ hlt) (.step hs ha hu) rfl
      exact ⟨a :: as, t, by simp [run, ha, hu, ht], hPt⟩

end Measure

end Machine

/-! Partial computations in step: both are undefined, or both have results that are related. -/
section InStep
variable {α' β β' : Type*} {R : α → α' → Prop} {x : Option α} {y : Option α'}

theorem rel_bind {S : β → β' → Prop} (h : Option.Rel R x y) {f : α → Option β}
    {g : α' → Option β'} (hfg : ∀ a b, R a b → Option.Rel S (f a) (g b)) :
    Option.Rel S (x.bind f) (y.bind g) := by
  cases h with
  | none => exact .none
  | some hab => exact hfg _ _ hab

theorem rel_map {S : β → β' → Prop} (h : Option.Rel R x y) {f : α → β} {g : α' → β'}
    (hfg : ∀ a b, R a b → S (f a) (g b)) : Option.Rel S (x.map f) (y.map g) := by
  cases h with
  | none => exact .none
  | some hab => exact .some (hfg _ _ hab)

theorem bind_congr_of_rel (h : Option.Rel R x y) {f : α → Option β} {g : α' → Option β}
    (hfg : ∀ a b, R a b → f a = g b) : x.bind f = y.bind g := by
  cases h with
  | none => rfl
  | some hab => exact hfg _ _ hab

end InStep

/-! Lists whose elements are related one by one. -/
section Aligned
variable {β : Type*} {R : α → β → Prop} {xs : List α} {ys : List β} (h : List.Forall₂ R xs ys)
include h

theorem forall₂_getElem? {i : ℕ} {a : α} (ha : xs[i]? = some a) :
    ∃ b, ys[i]? = some b ∧ R a b := by
  induction h generalizing i with
  | nil => simp at ha
  | @cons x y xs ys hxy _ ih =>
    cases i with
    | zero => exact ⟨y, rfl, Option.some.inj ha ▸ hxy⟩
    | succ i => exact ih ha

theorem forall₂_set {i : ℕ} {a : α} {b : β} (hb : ys[i]? = some b) (hab : R a b) :
    List.Forall₂ R (xs.set i a) ys := by
  induction h generalizing i with
  | nil => exact .nil
  | cons hxy hrest ih =>
    cases i with
    | zero => exact .cons (Option.some.inj hb ▸ hab) hrest
    | succ i => exact .cons hxy (ih hb)

theorem forall₂_eraseIdx (i : ℕ) : List.Forall₂ R (xs.eraseIdx i) (ys.eraseIdx i) := by
  induction h generalizing i with
  | nil => exact .nil
  | cons hxy hrest ih =>
    cases i with
    | zero => exact hrest
    | succ i => exact .cons hxy (ih i)

end Aligned
end Transition
