import Mathlib.Data.List.Perm.Basic
import Mathlib.Tactic.Common

/-! Interleavings of any number of sequences: what one shared channel carries when each
thread writes its own sequence in order. -/
namespace Interleave
variable {α : Type*}

/-- `Merge ls out`: `out` is an order in which the elements of all the lists can appear. -/
inductive Merge : List (List α) → List α → Prop
  | nil {ls : List (List α)} : (∀ l ∈ ls, l = []) → Merge ls []
  | cons {ls : List (List α)} {i : ℕ} {a : α} {l out : List α} :
      ls[i]? = some (a :: l) → Merge (ls.set i l) out → Merge ls (a :: out)

theorem flatten_set_perm {ls : List (List α)} {i : ℕ} {a : α} {l : List α}
    (h : ls[i]? = some (a :: l)) : ls.flatten.Perm (a :: (ls.set i l).flatten) := by
  induction ls generalizing i with
  | nil => simp at h
  | cons x xs ih =>
    cases i with
    | zero =>
      obtain rfl : x = a :: l := by simpa using h
      simp
    | succ i =>
      have hperm := (ih (by simpa using h)).append_left x
      simpa using hperm.trans List.perm_middle

namespace Merge
variable {ls : List (List α)} {out : List α}

/-- A sequence may go on by several elements at once. -/
theorem append {i : ℕ} (as : List α) {l : List α} (hi : ls[i]? = some (as ++ l))
    (h : Merge (ls.set i l) out) : Merge ls (as ++ out) := by
  induction as generalizing ls with
  | nil =>
    obtain ⟨hlt, hget⟩ := List.getElem?_eq_some_iff.mp hi
    rwa [← show ls[i] = l from hget, List.set_getElem_self] at h
  | cons a as ih =>
    have hlt := (List.getElem?_eq_some_iff.mp hi).choose
    exact .cons hi (ih (List.getElem?_set_self hlt) (by rwa [List.set_set]))

theorem perm (h : Merge ls out) : out.Perm ls.flatten := by
  induction h with
  | nil hnil => simp [List.flatten_eq_nil_iff.mpr hnil]
  | cons hi _ ih => exact (ih.cons _).trans (flatten_set_perm hi).symm

theorem exists_mem (h : Merge ls out) {a : α} (ha : a ∈ out) : ∃ l ∈ ls, a ∈ l :=
  List.mem_flatten.mp (h.perm.mem_iff.mp ha)

/-- An element not yet taken is still to come. -/
theorem exists_cons (h : Merge ls out) {l : List α} (hl : l ∈ ls) (hne : l ≠ []) :
    ∃ i a l' out', out = a :: out' ∧ ls[i]? = some (a :: l') ∧ Merge (ls.set i l') out' := by
  cases h with
  | nil hnil => exact absurd (hnil l hl) hne
  | cons hi hrest => exact ⟨_, _, _, _, rfl, hi, hrest⟩

/-- After a thread has moved on to `b :: l`, it goes on or another thread does. -/
theorem next_cases {i : ℕ} {b : α} {l : List α} (hi : i < ls.length)
    (h : Merge (ls.set i (b :: l)) out) :
    ∃ out', (out = b :: out' ∧ Merge (ls.set i l) out') ∨
      ∃ j c l', j ≠ i ∧ ls[j]? = some (c :: l') ∧ out = c :: out' ∧
        Merge ((ls.set i (b :: l)).set j l') out' := by
  have hself : (ls.set i (b :: l))[i]? = some (b :: l) := List.getElem?_set_self hi
  obtain ⟨j, c, l', out', rfl, hj, hrest⟩ :=
    h.exists_cons (List.mem_of_getElem? hself) (List.cons_ne_nil _ _)
  refine ⟨out', ?_⟩
  by_cases hji : j = i
  · subst hji
    obtain ⟨rfl, rfl⟩ := List.cons.inj (Option.some.inj (hself.symm.trans hj))
    exact .inl ⟨rfl, by simpa only [List.set_set] using hrest⟩
  · rw [List.getElem?_set_ne (Ne.symm hji)] at hj
    exact .inr ⟨j, c, l', hji, hj, rfl, hrest⟩

end Merge
end Interleave
