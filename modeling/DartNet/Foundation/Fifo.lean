import Mathlib.Tactic.Common

/-! Queues. First those that hold items of one kind and behind them items of another: losing items
and taking the first one keep this, and so does an item of the second kind at the end. Then the
history of a queue that is filled and emptied by several items at a time. -/
namespace Fifo
variable {α : Type*} {P Q : α → Prop} {xs : List α}

def Then (P Q : α → Prop) (xs : List α) : Prop :=
  ∃ ys zs, xs = ys ++ zs ∧ (∀ x ∈ ys, P x) ∧ ∀ x ∈ zs, Q x

namespace Then

theorem of_left (h : ∀ x ∈ xs, P x) : Then P Q xs :=
  ⟨xs, [], (List.append_nil xs).symm, h, by simp⟩

theorem imp (h : Then P Q xs) {P' Q' : α → Prop} (hP : ∀ x, P x → P' x) (hQ : ∀ x, Q x → Q' x) :
    Then P' Q' xs := by
  obtain ⟨front, back, rfl, hfront, hback⟩ := h
  exact ⟨front, back, rfl, fun x hx => hP x (hfront x hx), fun x hx => hQ x (hback x hx)⟩

theorem append (h : Then P Q xs) {ys : List α} (hys : ∀ x ∈ ys, Q x) : Then P Q (xs ++ ys) := by
  obtain ⟨front, back, rfl, hfront, hback⟩ := h
  refine ⟨front, back ++ ys, List.append_assoc .., hfront, ?_⟩
  intro x hx
  rcases List.mem_append.mp hx with hx | hx
  · exact hback x hx
  · exact hys x hx

theorem sublist (h : Then P Q xs) {ys : List α} (hys : ys.Sublist xs) : Then P Q ys := by
  obtain ⟨front, back, rfl, hfront, hback⟩ := h
  obtain ⟨front', back', rfl, hf, hb⟩ := List.sublist_append_iff.mp hys
  exact ⟨front', back', rfl, fun x hx => hfront x (hf.subset hx),
    fun x hx => hback x (hb.subset hx)⟩

/-- Once the first item is not of the first kind, all are of the second. -/
theorem all_of_head {x : α} (h : Then P Q (x :: xs)) (hx : ¬ P x) : ∀ y ∈ x :: xs, Q y := by
  obtain ⟨front, back, heq, hfront, hback⟩ := h
  cases front with
  | nil =>
    rw [heq]
    exact hback
  | cons y ys =>
    obtain ⟨rfl, _⟩ := List.cons.inj heq
    exact absurd (hfront x (List.mem_cons_self ..)) hx

end Then

/-- Everything put into the queue is what was taken out of it, in order, and what it holds. -/
def History (put : List α) (taken : List (List α)) (held : List α) : Prop :=
  put = taken.flatten ++ held

namespace History
variable {put held : List α} {taken : List (List α)}

theorem empty : History (α := α) [] [] [] := rfl

theorem append (h : History put taken held) (xs : List α) :
    History (put ++ xs) taken (held ++ xs) := by
  unfold History at h ⊢
  rw [h, List.append_assoc]

theorem take (h : History put taken held) (n : ℕ) :
    History put (taken ++ [held.take n]) (held.drop n) := by
  unfold History at h ⊢
  rw [List.flatten_append, List.flatten_singleton, List.append_assoc, List.take_append_drop, h]

/-- What is taken out continues where the last one ended. -/
theorem next (h : History put taken held) {k : ℕ} {xs : List α} (hk : taken[k]? = some xs) :
    xs = (put.drop (taken.take k).flatten.length).take xs.length := by
  obtain ⟨hlt, rfl⟩ := List.getElem?_eq_some_iff.mp hk
  have hsplit : taken = taken.take k ++ taken[k] :: taken.drop (k + 1) := by simp
  unfold History at h
  conv_rhs => rw [h]
  conv =>
    rhs
    arg 2
    arg 2
    arg 1
    rw [hsplit]
  rw [List.flatten_append, List.flatten_cons, List.append_assoc, List.append_assoc,
    List.drop_left, List.take_left]

end History
end Fifo
