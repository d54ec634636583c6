import Mathlib.Data.List.Infix
import Mathlib.Tactic.Common

/-! A stream cut into chunks. `offset f xs k` is where chunk `k` begins. -/
namespace Chunks
variable {α β : Type*} (f : α → List β)

def offset (xs : List α) (k : ℕ) : ℕ := ((xs.take k).flatMap f).length

@[simp] theorem offset_zero (xs : List α) : offset f xs 0 = 0 := by simp [offset]

theorem offset_length (xs : List α) : offset f xs xs.length = (xs.flatMap f).length := by
  simp [offset]

theorem offset_succ {xs : List α} {k : ℕ} {x : α} (h : xs[k]? = some x) :
    offset f xs (k + 1) = offset f xs k + (f x).length := by
  simp [offset, List.take_add_one, h]

theorem offset_append {xs : List α} {k : ℕ} (h : k ≤ xs.length) (ys : List α) :
    offset f (xs ++ ys) k = offset f xs k := by
  rw [offset, List.take_append_of_le_length h, offset]

theorem offset_mono (xs : List α) {j k : ℕ} (h : j ≤ k) : offset f xs j ≤ offset f xs k := by
  obtain ⟨d, rfl⟩ := Nat.exists_eq_add_of_le h
  simp [offset, List.take_add]

theorem offset_le (xs : List α) (k : ℕ) : offset f xs k ≤ (xs.flatMap f).length := by
  rcases Nat.le_total k xs.length with h | h
  · exact Nat.le_trans (offset_mono f xs h) (Nat.le_of_eq (offset_length f xs))
  · simp [offset, List.take_of_length_le h]

/-- Empty chunks begin where the first of them does. -/
theorem offset_add_of_nil {xs : List α} {k n : ℕ}
    (h : ∀ j < n, ∃ x, xs[k + j]? = some x ∧ f x = []) : offset f xs (k + n) = offset f xs k := by
  induction n with
  | zero => rfl
  | succ n ih =>
    obtain ⟨x, hx, hnil⟩ := h n (Nat.lt_succ_self n)
    rw [← Nat.add_assoc, offset_succ f hx, hnil, List.length_nil, Nat.add_zero,
      ih fun j hj => h j (Nat.lt_succ_of_lt hj)]

/-- The stream up to the beginning of chunk `k`. -/
theorem take_offset (xs : List α) (k : ℕ) :
    (xs.flatMap f).take (offset f xs k) = (xs.take k).flatMap f := by
  conv_lhs => rw [← List.take_append_drop k xs, List.flatMap_append]
  rw [List.take_left']
  simp [offset]

theorem lt_of_offset_lt {xs : List α} {j k : ℕ} (h : offset f xs j < offset f xs k) : j < k :=
  Nat.lt_of_not_le fun hle => absurd h (Nat.not_lt.mpr (offset_mono f xs hle))

/-- A chunk that begins before a boundary ends there or before. -/
theorem offset_succ_le_of_lt {xs : List α} {j k : ℕ} (h : offset f xs j < offset f xs k) :
    offset f xs (j + 1) ≤ offset f xs k :=
  offset_mono f xs (lt_of_offset_lt f h)

/-- Before the end of the stream some chunk is not empty. -/
theorem exists_next {xs : List α} {k : ℕ} (h : offset f xs k < (xs.flatMap f).length) :
    ∃ z x, xs[k + z]? = some x ∧ f x ≠ [] ∧ ∀ j < z, ∃ y, xs[k + j]? = some y ∧ f y = [] := by
  induction hn : xs.length - k generalizing k with
  | zero =>
    rw [← offset_length] at h
    exact absurd (lt_of_offset_lt f h) (by omega)
  | succ n ih =>
    obtain ⟨x, hx⟩ : ∃ x, xs[k]? = some x := ⟨_, List.getElem?_eq_getElem (by omega)⟩
    by_cases hnil : f x = []
    · have hsucc := offset_succ f hx
      simp only [hnil, List.length_nil, Nat.add_zero] at hsucc
      rw [← hsucc] at h
      obtain ⟨z, y, hy, hne, hempty⟩ := ih h (by omega)
      refine ⟨z + 1, y, by rwa [Nat.add_right_comm, Nat.add_assoc] at hy, hne, ?_⟩
      intro j hj
      cases j with
      | zero => exact ⟨x, hx, hnil⟩
      | succ j =>
        obtain ⟨y, hy, hnil⟩ := hempty j (by omega)
        exact ⟨y, by rwa [Nat.add_right_comm, Nat.add_assoc] at hy, hnil⟩
    · exact ⟨0, x, hx, hnil, by simp⟩

/-- Chunks with the lengths of other ones, and a stream that begins theirs, are the first of
them. -/
theorem prefix_of_flatten {xs ys : List (List β)}
    (hlen : xs.map List.length <+: ys.map List.length) (h : xs.flatten <+: ys.flatten) :
    xs <+: ys := by
  induction xs generalizing ys with
  | nil => exact List.nil_prefix
  | cons x xs ih =>
    cases ys with
    | nil => simp at hlen
    | cons y ys =>
      obtain ⟨hxy, hlens⟩ := List.cons_prefix_cons.mp hlen
      obtain ⟨rest, hrest⟩ := h
      rw [List.flatten_cons, List.flatten_cons, List.append_assoc] at hrest
      obtain ⟨rfl, htail⟩ := List.append_inj hrest hxy
      exact List.cons_prefix_cons.mpr ⟨rfl, ih hlens ⟨rest, htail⟩⟩

/-- A prefix goes on with the element behind it. -/
theorem prefix_concat {xs ys : List α} (h : xs <+: ys) {y : α} (hy : ys[xs.length]? = some y) :
    xs ++ [y] <+: ys := by
  obtain ⟨hlt, rfl⟩ := List.getElem?_eq_some_iff.mp hy
  exact List.concat_get_prefix h hlt

end Chunks
