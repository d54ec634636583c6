import Mathlib.Data.List.Nodup
import Mathlib.Data.Nat.Find
import Mathlib.Logic.Function.Basic
import Mathlib.Tactic.Common

/-! Cells in a heap with `malloc` and `free`, and the linked lists that they form. -/
namespace Cells
open Function

/-- Finitely many addresses are in use. -/
@[ext] structure Heap (β : Type*) where
  cell : ℕ → Option β
  bounded : ∃ b, ∀ a, b ≤ a → cell a = none

/-- Where `malloc` finds room, and what the memory there holds. -/
structure Allocator (β : Type*) where
  addr : Heap β → ℕ
  junk : Heap β → β
  fresh : ∀ h : Heap β, h.cell (addr h) = none

section Heaps
variable {β : Type*}

theorem Heap.exists_free (h : Heap β) : ∃ a, h.cell a = none :=
  h.bounded.imp fun b hb => hb b (Nat.le_refl b)

/-- The lowest address that is free. -/
def Allocator.lowest (junk : β) : Allocator β where
  addr h := Nat.find h.exists_free
  junk _ := junk
  fresh h := Nat.find_spec h.exists_free

namespace Heap

def empty : Heap β := ⟨fun _ => none, 0, fun _ _ => rfl⟩

def set (h : Heap β) (a : ℕ) (b : Option β) : Heap β where
  cell := update h.cell a b
  bounded := by
    obtain ⟨c, hc⟩ := h.bounded
    refine ⟨max c (a + 1), fun a' ha' => ?_⟩
    rw [update_of_ne (by omega), hc a' (by omega)]

/-- An assignment through a pointer to a cell. -/
def store (h : Heap β) (a : ℕ) (f : β → β) : Option (Heap β) :=
  (h.cell a).map fun b => h.set a (some (f b))

def malloc (alloc : Allocator β) (h : Heap β) : ℕ × Heap β :=
  (alloc.addr h, h.set (alloc.addr h) (some (alloc.junk h)))

def free (h : Heap β) (a : ℕ) : Option (Heap β) :=
  (h.cell a).map fun _ => h.set a none

variable {h : Heap β} {a : ℕ} {b : β}

@[simp] theorem cell_set_self (h : Heap β) (a : ℕ) (b : Option β) : (h.set a b).cell a = b :=
  update_self ..

theorem cell_set_of_ne {a' : ℕ} (hne : a' ≠ a) (h : Heap β) (b : Option β) :
    (h.set a b).cell a' = h.cell a' := update_of_ne hne ..

@[simp] theorem set_set (h : Heap β) (a : ℕ) (b b' : Option β) :
    (h.set a b).set a b' = h.set a b' := Heap.ext (update_idem ..)

theorem set_comm {a' : ℕ} (hne : a ≠ a') (h : Heap β) (b b' : Option β) :
    (h.set a b).set a' b' = (h.set a' b').set a b := Heap.ext (update_comm hne ..)

theorem set_eq_self {b : Option β} (hb : h.cell a = b) : h.set a b = h :=
  Heap.ext (hb ▸ update_eq_self a h.cell)

theorem store_eq (hb : h.cell a = some b) (f : β → β) :
    h.store a f = some (h.set a (some (f b))) := by
  rw [store, hb, Option.map_some]

@[simp] theorem store_set (h : Heap β) (a : ℕ) (b : β) (f : β → β) :
    (h.set a (some b)).store a f = some (h.set a (some (f b))) := by
  rw [store_eq (cell_set_self ..), set_set]

theorem free_eq (hb : h.cell a = some b) : h.free a = some (h.set a none) := by
  rw [free, hb, Option.map_some]

end Heap
end Heaps

structure Cell (α : Type*) where
  data : α
  next : Option ℕ

section Lists
variable {α : Type*} {h h' : Heap (Cell α)} {p : Option ℕ} {as : List ℕ} {xs : List α}

/-- From a pointer the cells at some addresses lead to null, with these data. -/
inductive ListAt (h : Heap (Cell α)) : Option ℕ → List ℕ → List α → Prop
  | nil : ListAt h none [] []
  | cons {a : ℕ} {x : α} {next : Option ℕ} {as : List ℕ} {xs : List α} :
      h.cell a = some ⟨x, next⟩ → ListAt h next as xs → ListAt h (some a) (a :: as) (x :: xs)

theorem ListAt.of_none (hl : ListAt h none as xs) : as = [] ∧ xs = [] := by
  cases hl
  exact ⟨rfl, rfl⟩

theorem ListAt.of_some {a : ℕ} (hl : ListAt h (some a) as xs) : ∃ as' x next xs',
    as = a :: as' ∧ xs = x :: xs' ∧ h.cell a = some ⟨x, next⟩ ∧ ListAt h next as' xs' := by
  cases hl with
  | cons hcell htail => exact ⟨_, _, _, _, rfl, rfl, hcell, htail⟩

theorem ListAt.length_eq (hl : ListAt h p as xs) : as.length = xs.length := by
  induction hl with
  | nil => rfl
  | cons _ _ ih => rw [List.length_cons, List.length_cons, ih]

theorem ListAt.allocated (hl : ListAt h p as xs) : ∀ a ∈ as, h.cell a ≠ none := by
  induction hl with
  | nil => simp
  | cons hcell _ ih => exact List.forall_mem_cons.mpr ⟨by simp [hcell], ih⟩

/-- The list depends on its own cells only. -/
theorem ListAt.frame (hl : ListAt h p as xs) (hsame : ∀ a ∈ as, h'.cell a = h.cell a) :
    ListAt h' p as xs := by
  induction hl with
  | nil => exact .nil
  | cons hcell _ ih =>
    obtain ⟨ha, hsame⟩ := List.forall_mem_cons.mp hsame
    exact .cons (ha.trans hcell) (ih hsame)

/-- A list of the same cells, or with one more at its end, where nothing else has changed. -/
structure Grows (h h' : Heap (Cell α)) (p : Option ℕ) (as as' : List ℕ) (xs : List α) :
    Prop where
  list : ListAt h' p as' xs
  addrs : as' = as ∨ ∃ a, h.cell a = none ∧ as' = as ++ [a]
  rest : ∀ a ∉ as', h'.cell a = h.cell a

variable {as' : List ℕ}

theorem Grows.mem (hg : Grows h h' p as as' xs) {a : ℕ} (ha : a ∈ as') :
    a ∈ as ∨ h.cell a = none := by
  rcases hg.addrs with rfl | ⟨a', hfree, rfl⟩
  · exact .inl ha
  · rcases List.mem_append.mp ha with ha | ha
    · exact .inl ha
    · exact .inr (List.mem_singleton.mp ha ▸ hfree)

theorem Grows.subset (hg : Grows h h' p as as' xs) {a : ℕ} (ha : a ∈ as) : a ∈ as' := by
  rcases hg.addrs with rfl | ⟨a', _, rfl⟩
  · exact ha
  · exact List.mem_append_left _ ha

theorem Grows.nodup (hg : Grows h h' p as as' xs) (hnodup : as.Nodup)
    (halloc : ∀ a ∈ as, h.cell a ≠ none) : as'.Nodup := by
  rcases hg.addrs with rfl | ⟨a, hfree, rfl⟩
  · exact hnodup
  · apply List.nodup_append.mpr ⟨hnodup, List.nodup_singleton a, ?_⟩
    rintro b hb _ hb' rfl
    exact halloc b hb (List.mem_singleton.mp hb' ▸ hfree)

/-- The cell in front of a list that grows. -/
theorem Grows.cons (hg : Grows h h' p as as' xs) {a : ℕ} {x : α}
    (hcell : h.cell a = some ⟨x, p⟩) (ha : a ∉ as) :
    Grows h h' (some a) (a :: as) (a :: as') (x :: xs) := by
  have hold : a ∉ as' := by
    intro hmem
    rcases hg.mem hmem with hmem | hfree
    · exact ha hmem
    · simp [hcell] at hfree
  refine ⟨.cons ((hg.rest a hold).trans hcell) hg.list, ?_, ?_⟩
  · rcases hg.addrs with rfl | ⟨b, hfree, rfl⟩
    · exact .inl rfl
    · exact .inr ⟨b, hfree, rfl⟩
  · intro b hb
    exact hg.rest b fun hmem => hb (List.mem_cons_of_mem _ hmem)

/-- Other data in the first cell. -/
theorem ListAt.grows_set (hl : ListAt h p as xs) {a : ℕ} (ha : a ∉ as) (y : α) :
    Grows h (h.set a (some ⟨y, p⟩)) (some a) (a :: as) (a :: as) (y :: xs) where
  list := .cons (Heap.cell_set_self ..)
    (hl.frame fun _ hb => Heap.cell_set_of_ne (ne_of_mem_of_not_mem hb ha) ..)
  addrs := .inl rfl
  rest _ hb := Heap.cell_set_of_ne (List.ne_of_not_mem_cons hb) ..

/-- A new cell behind the last one. -/
theorem grows_link {a b : ℕ} {x y : α} (hcell : h.cell a = some ⟨x, none⟩)
    (hfree : h.cell b = none) :
    Grows h ((h.set b (some ⟨y, none⟩)).set a (some ⟨x, some b⟩)) (some a) [a] [a, b] [x, y] := by
  have hne : b ≠ a := by
    rintro rfl
    simp [hcell] at hfree
  refine ⟨.cons (Heap.cell_set_self ..) (.cons ?_ .nil), .inr ⟨b, hfree, rfl⟩, ?_⟩
  · rw [Heap.cell_set_of_ne hne, Heap.cell_set_self]
  · intro c hc
    simp only [List.mem_cons, List.not_mem_nil, or_false, not_or] at hc
    rw [Heap.cell_set_of_ne hc.1, Heap.cell_set_of_ne hc.2]

theorem grows_new {a : ℕ} (hfree : h.cell a = none) (x : α) :
    Grows h (h.set a (some ⟨x, none⟩)) (some a) [] [a] [x] where
  list := .cons (Heap.cell_set_self ..) .nil
  addrs := .inr ⟨a, hfree, rfl⟩
  rest _ hb := Heap.cell_set_of_ne (List.ne_of_not_mem_cons hb) ..

end Lists
end Cells
