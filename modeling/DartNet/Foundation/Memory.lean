import Mathlib.Tactic.Common

/-! Flat memory: reading, copying, moving and clearing ranges of cells. -/
namespace Memory
variable {β : Type*}

/-- The `n` cells from address `p` on. -/
def read (m : ℕ → β) (p n : ℕ) : List β := (List.range n).map fun i => m (p + i)

/-- `memcpy` of a list of cells to address `p` -/
def write (m : ℕ → β) (p : ℕ) (xs : List β) : ℕ → β := fun a =>
  if p ≤ a then (xs[a - p]?).getD (m a) else m a

/-- `memmove`: the ranges may overlap. -/
def move (m : ℕ → β) (dst src n : ℕ) : ℕ → β := write m dst (read m src n)

/-- `memset` -/
def fill (m : ℕ → β) (p : ℕ) (x : β) (n : ℕ) : ℕ → β := write m p (List.replicate n x)

variable (m : ℕ → β)

@[simp] theorem length_read (p n : ℕ) : (read m p n).length = n := by simp [read]

theorem getElem?_read (p n i : ℕ) :
    (read m p n)[i]? = if i < n then some (m (p + i)) else none := by
  simp only [read, List.getElem?_map]
  split
  next h => simp [List.getElem?_range h]
  next h => simp [h]

theorem read_append (p a b : ℕ) : read m p a ++ read m (p + a) b = read m p (a + b) := by
  simp [read, List.range_add, Nat.add_assoc]

theorem take_read {p a b : ℕ} (h : a ≤ b) : (read m p b).take a = read m p a := by
  obtain ⟨c, rfl⟩ := Nat.exists_eq_add_of_le h
  rw [← read_append, List.take_left' (length_read m p a)]

theorem drop_read {p a b : ℕ} (h : a ≤ b) : (read m p b).drop a = read m (p + a) (b - a) := by
  obtain ⟨c, rfl⟩ := Nat.exists_eq_add_of_le h
  rw [← read_append, List.drop_left' (length_read m p a), Nat.add_sub_cancel_left]

@[simp] theorem read_write_self (p : ℕ) (xs : List β) : read (write m p xs) p xs.length = xs := by
  apply List.ext_getElem?
  intro i
  rw [getElem?_read]
  split
  next h => simp [write, h]
  next h => simp [h]

@[simp] theorem write_nil (p : ℕ) : write m p [] = m := by
  funext a
  simp [write]

/-- A write leaves the cells in front of it alone. -/
theorem read_write_before {p n q : ℕ} (h : p + n ≤ q) (xs : List β) :
    read (write m q xs) p n = read m p n := by
  simp only [read, List.map_inj_left, List.mem_range]
  intro i hi
  rw [write, if_neg (by omega)]

theorem write_behind {p a : ℕ} {xs : List β} (h : p + xs.length ≤ a) : write m p xs a = m a := by
  unfold write
  split
  next => rw [List.getElem?_eq_none (by omega), Option.getD_none]
  next => rfl

/-- A write leaves the cells on both sides alone. -/
theorem write_outside {p a : ℕ} {xs : List β} (h : ¬ (p ≤ a ∧ a < p + xs.length)) :
    write m p xs a = m a := by
  rcases Nat.lt_or_ge a p with hlt | hge
  · exact if_neg (by omega)
  · exact write_behind m (by omega)

theorem fill_inside {p a n : ℕ} (x : β) (hp : p ≤ a) (ha : a < p + n) : fill m p x n a = x := by
  unfold fill write
  rw [if_pos hp, List.getElem?_replicate, if_pos (by omega), Option.getD_some]

theorem read_move_self (dst src n : ℕ) : read (move m dst src n) dst n = read m src n := by
  have h := read_write_self m dst (read m src n)
  rwa [length_read] at h

/-- What is cleared behind a range does not change it. -/
theorem read_fill_before {p n q : ℕ} (h : p + n ≤ q) (x : β) (k : ℕ) :
    read (fill m q x k) p n = read m p n := read_write_before m h _

end Memory
