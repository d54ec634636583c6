import Mathlib.Data.List.Chain
import Mathlib.Tactic.Common

/-! Two-symbol marks `ab` in a list: the first one, what stands in front of it and behind it,
and the first one whose `a` ends a run of an odd number of `a`s. -/
namespace Marks
variable {α : Type*} (a b : α)

/-- No mark inside. -/
def Free (xs : List α) : Prop := xs.IsChain fun x y => ¬ (x = a ∧ y = b)

/-- A list that goes on behind a mark is not free of marks. -/
theorem not_free_append (xs ys : List α) : ¬ Free a b (xs ++ a :: b :: ys) := by
  intro h
  have hright := (List.isChain_append.mp h).2.1
  exact (List.isChain_cons_cons.mp hright).1 ⟨rfl, rfl⟩

variable [DecidableEq α]

/-- What stands behind the first mark. -/
def after : List α → Option (List α)
  | x :: y :: rest => if x = a ∧ y = b then some rest else after (y :: rest)
  | _ => none

/-- What stands in front of the first mark. -/
def upTo : List α → Option (List α)
  | x :: y :: rest => if x = a ∧ y = b then some [] else (upTo (y :: rest)).map (x :: ·)
  | _ => none

/-- What stands behind the first mark whose `a` is the last of an odd number, `run` of them
having been read. -/
def afterOdd : ℕ → List α → Option (List α)
  | _, [] => none
  | run, x :: rest =>
    if x = b ∧ run % 2 = 1 then some rest else afterOdd (if x = a then run + 1 else 0) rest

variable {a b}

theorem upTo_some {xs front : List α} (h : upTo a b xs = some front) :
    ∃ rest, xs = front ++ a :: b :: rest ∧ Free a b front := by
  fun_induction upTo a b xs generalizing front with
  | case1 x y rest hxy =>
    cases h
    exact ⟨rest, by rw [hxy.1, hxy.2, List.nil_append], List.isChain_nil⟩
  | case2 x y rest hxy ih =>
    obtain ⟨tail, htail, rfl⟩ := Option.map_eq_some_iff.mp h
    obtain ⟨rest', heq, hfree⟩ := ih htail
    refine ⟨rest', by rw [heq, List.cons_append], ?_⟩
    cases tail with
    | nil => exact List.isChain_singleton x
    | cons z zs =>
      obtain ⟨rfl, _⟩ := List.cons.inj heq
      exact List.isChain_cons_cons.mpr ⟨hxy, hfree⟩
  | case3 xs hxs => contradiction

theorem upTo_none {xs : List α} (h : upTo a b xs = none) : Free a b xs := by
  fun_induction upTo a b xs with
  | case1 x y rest hxy => contradiction
  | case2 x y rest hxy ih =>
    exact List.isChain_cons_cons.mpr ⟨hxy, ih (Option.map_eq_none_iff.mp h)⟩
  | case3 xs hxs =>
    cases xs with
    | nil => exact List.isChain_nil
    | cons x xs =>
      cases xs with
      | nil => exact List.isChain_singleton x
      | cons y rest => exact absurd rfl (hxs x y rest)

end Marks
