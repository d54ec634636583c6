import Mathlib.Data.List.Perm.Subperm
import Mathlib.Tactic.Common

/-! Arrivals, some of which carry a key. If as many are taken as there are keys to come, then each
of these has come only if every arrival carried one of them and none came twice. -/
namespace Arrivals
variable {α κ : Type*} [DecidableEq κ] (key : α → Option κ)

/-- The last arrival with a key. -/
def latest (k : κ) (xs : List α) : Option α := xs.reverse.find? fun x => key x = some k

@[simp] theorem latest_nil (k : κ) : latest key k [] = none := rfl

theorem latest_cons (k : κ) (x : α) (xs : List α) : latest key k (x :: xs) =
    (latest key k xs).or (if key x = some k then some x else none) := by
  rw [latest, latest, List.reverse_cons, List.find?_append]
  by_cases h : key x = some k <;> simp [h]

variable {key}

theorem exists_latest {k : κ} {xs : List α} (h : k ∈ xs.filterMap key) :
    ∃ x ∈ xs, key x = some k ∧ latest key k xs = some x := by
  cases hfind : latest key k xs with
  | none =>
    obtain ⟨x, hx, hk⟩ := List.mem_filterMap.mp h
    have hnone := List.find?_eq_none.mp hfind x (List.mem_reverse.mpr hx)
    exact absurd hk (by simpa using hnone)
  | some x =>
    have hx := List.mem_reverse.mp (List.mem_of_find?_eq_some hfind)
    have hk : key x = some k := by simpa using List.find?_some hfind
    exact ⟨x, hx, hk, rfl⟩

omit [DecidableEq κ] in
theorem forall_arrived_iff {ks : List κ} (hks : ks.Nodup) {xs : List α}
    (hlen : xs.length = ks.length) : (∀ k ∈ ks, k ∈ xs.filterMap key) ↔
      (∀ x ∈ xs, ∃ k ∈ ks, key x = some k) ∧ (xs.filterMap key).Nodup := by
  constructor
  · intro hall
    have hle : (xs.filterMap key).length ≤ ks.length := hlen ▸ List.length_filterMap_le key xs
    have hperm := (hks.subperm hall).perm_of_length_le hle
    have hkeyed := List.filterMap_length_eq_length.mp (hperm.length_eq.symm.trans hlen.symm)
    constructor
    · intro x hx
      obtain ⟨k, hk⟩ := Option.isSome_iff_exists.mp (hkeyed x hx)
      exact ⟨k, hperm.mem_iff.mpr (List.mem_filterMap.mpr ⟨x, hx, hk⟩), hk⟩
    · exact hperm.nodup_iff.mp hks
  · rintro ⟨hkeyed, hnodup⟩ k hk
    have hsub : xs.filterMap key ⊆ ks := by
      intro k hk
      obtain ⟨x, hx, hkx⟩ := List.mem_filterMap.mp hk
      obtain ⟨k', hk', hkx'⟩ := hkeyed x hx
      rw [hkx] at hkx'
      exact Option.some.inj hkx' ▸ hk'
    have hfull : (xs.filterMap key).length = xs.length := by
      apply List.filterMap_length_eq_length.mpr
      intro x hx
      obtain ⟨k, _, hkx⟩ := hkeyed x hx
      simp [hkx]
    have hperm := (hnodup.subperm hsub).perm_of_length_le
      (Nat.le_of_eq (hlen.symm.trans hfull.symm))
    exact hperm.mem_iff.mpr hk

end Arrivals
