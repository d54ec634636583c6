import DartNet.Foundation.ShortestPath
import Mathlib.Data.Set.Insert

/-! The distance vector algorithm. A node may use any mixture of values that its neighbours have
ever had, so loss, delay and reordering of the updates need no model of their own. -/
namespace DistanceVector
open ShortestPath
variable {V : Type*}

/-- `own x` is the vector of `x`, `stored x w` its copy of the vector of `w`, `next x` its next
hops, and `past x` what the entries of `x` have been. -/
structure Tables (V : Type*) where
  own : V → V → ℕ
  stored : V → V → V → ℕ
  next : V → V → Option V
  past : V → V → Set ℕ

/-- The invariants: all values there have been are sound and not below the present ones, no
neighbour offers anything better, and next hops lead downwards. -/
structure Inv (link : V → V → ℕ → Prop) (cap : ℕ) (T : Tables V) : Prop where
  self : ∀ x, T.own x x = 0
  own_mem : ∀ x y, T.own x y ∈ T.past x y
  own_le : ∀ x y, ∀ v ∈ T.past x y, T.own x y ≤ v
  le_cap : ∀ x y, ∀ v ∈ T.past x y, v ≤ cap
  sound : ∀ x y, ∀ v ∈ T.past x y, min (pathCost link x y) cap ≤ (v : ℕ∞)
  relaxed : ∀ x w c y, link x w c → T.own x y ≤ c + T.stored x w y
  next : ∀ x y, x ≠ y → T.own x y < cap →
    ∃ w c, T.next x y = some w ∧ link x w c ∧ T.own w y + c ≤ T.own x y

variable {link : V → V → ℕ → Prop} {cap : ℕ} {T : Tables V}

theorem Inv.own_le_cap (h : Inv link cap T) (x y : V) : T.own x y ≤ cap :=
  h.le_cap x y _ (h.own_mem x y)

/-- Entries for `y` that agree with the copies the neighbours hold are the capped shortest
costs. -/
theorem Inv.own_eq (h : Inv link cap T) {y : V}
    (hstored : ∀ x w c, link x w c → T.stored x w y = T.own w y) (x : V) :
    (T.own x y : ℕ∞) = min (pathCost link x y) cap := by
  refine le_antisymm (le_min (le_pathCost ?_) ?_) (h.sound x y _ (h.own_mem x y))
  · intro n hn
    have hle := le_of_walk (d := fun x => T.own x y) (h.self y)
      (fun x w c hc => hstored x w c hc ▸ h.relaxed x w c y hc) hn
    exact_mod_cast hle
  · exact_mod_cast h.own_le_cap x y

/-- At the start a node knows its direct links. -/
theorem start_inv {direct : V → V → ℕ} {next : V → V → Option V}
    (hself : ∀ x, direct x x = 0) (hcap : ∀ x y, direct x y ≤ cap)
    (hlink : ∀ x y, x ≠ y → direct x y < cap → link x y (direct x y))
    (hnext : ∀ x y c, link x y c → next x y = some y) :
    Inv link cap ⟨direct, fun _ _ _ => cap, next, fun x y => {direct x y}⟩ where
  self := hself
  own_mem _ _ := rfl
  own_le x y v hv := (Set.mem_singleton_iff.mp hv).ge
  le_cap x y v hv := hv ▸ hcap x y
  sound x y v hv := by
    obtain rfl : v = direct x y := hv
    by_cases hxy : x = y
    · subst hxy
      rw [min_pathCost_self]
      exact bot_le
    · rcases Nat.lt_or_ge (direct x y) cap with hlt | hge
      · have hwalk := Walk.cons (hlink x y hxy hlt) (.nil y)
        exact (min_le_left _ _).trans (pathCost_le hwalk)
      · exact (min_le_right _ _).trans (by exact_mod_cast hge)
  relaxed x w c y _ := (hcap x y).trans (Nat.le_add_left cap c)
  next x y hxy hlt :=
    ⟨y, direct x y, hnext x y _ (hlink x y hxy hlt), hlink x y hxy hlt, by simp [hself]⟩

section Hear
variable [DecidableEq V] {x w : V} {c : ℕ} {r : V → ℕ}

/-- Node `x` hears the vector `r` of its neighbour `w` at cost `c`. -/
def Tables.hear (T : Tables V) (x w : V) (c : ℕ) (r : V → ℕ) : Tables V :=
  let own z y := if z = x then min (T.own x y) (c + r y) else T.own z y
  { own
    stored := fun z v y => if z = x ∧ v = w then r y else T.stored z v y
    next := fun z y => if z = x ∧ c + r y < T.own x y then some w else T.next z y
    past := fun z y => insert (own z y) (T.past z y) }

theorem hear_own_self (y : V) : (T.hear x w c r).own x y = min (T.own x y) (c + r y) := by
  simp [Tables.hear]

theorem hear_own_ne {z : V} (h : z ≠ x) (y : V) : (T.hear x w c r).own z y = T.own z y := by
  simp [Tables.hear, h]

theorem hear_own_le (z y : V) : (T.hear x w c r).own z y ≤ T.own z y := by
  by_cases hz : z = x
  · rw [hz, hear_own_self]
    exact min_le_left _ _
  · exact (hear_own_ne hz y).le

theorem mem_past_hear {z y : V} {v : ℕ} : v ∈ (T.hear x w c r).past z y ↔
    v = (T.hear x w c r).own z y ∨ v ∈ T.past z y :=
  Set.mem_insert_iff

theorem Inv.hear_sound (h : Inv link cap T) (hlink : link x w c) (hr : ∀ y, r y ∈ T.past w y)
    (z y : V) : min (pathCost link z y) cap ≤ ((T.hear x w c r).own z y : ℕ∞) := by
  by_cases hz : z = x
  · rw [hz, hear_own_self]
    rcases min_choice (T.own x y) (c + r y) with hmin | hmin
    · rw [hmin]
      exact h.sound x y _ (h.own_mem x y)
    · rw [hmin]
      exact min_pathCost_le_add hlink (h.sound w y _ (hr y))
  · rw [hear_own_ne hz]
    exact h.sound z y _ (h.own_mem z y)

theorem Inv.hear_relaxed (h : Inv link cap T)
    (hunique : ∀ x w c k, link x w c → link x w k → c = k) (hlink : link x w c) (z v : V) (k : ℕ)
    (y : V) (hk : link z v k) :
    (T.hear x w c r).own z y ≤ k + (T.hear x w c r).stored z v y := by
  by_cases hzv : z = x ∧ v = w
  · obtain ⟨rfl, rfl⟩ := hzv
    rw [hear_own_self, hunique z v k c hk hlink]
    simp [Tables.hear]
  · refine (hear_own_le z y).trans ((h.relaxed z v k y hk).trans_eq ?_)
    simp [Tables.hear, hzv]

theorem Inv.hear_next (h : Inv link cap T) (hlink : link x w c) (hr : ∀ y, r y ∈ T.past w y)
    {z y : V} (hzy : z ≠ y) (hlt : (T.hear x w c r).own z y < cap) :
    ∃ v k, (T.hear x w c r).next z y = some v ∧ link z v k ∧
      (T.hear x w c r).own v y + k ≤ (T.hear x w c r).own z y := by
  by_cases hlow : z = x ∧ c + r y < T.own x y
  · obtain ⟨rfl, hlow⟩ := hlow
    refine ⟨w, c, by simp [Tables.hear, hlow], hlink, ?_⟩
    rw [hear_own_self, min_eq_right hlow.le, Nat.add_comm]
    exact Nat.add_le_add_left ((hear_own_le w y).trans (h.own_le w y _ (hr y))) c
  · have hsame : (T.hear x w c r).own z y = T.own z y := by
      by_cases hz : z = x
      · subst hz
        rw [hear_own_self]
        exact min_eq_left (Nat.le_of_not_lt fun hlt => hlow ⟨rfl, hlt⟩)
      · exact hear_own_ne hz y
    obtain ⟨v, k, hnext, hk, hle⟩ := h.next z y hzy (hsame ▸ hlt)
    refine ⟨v, k, by simp [Tables.hear, hlow, hnext], hk, ?_⟩
    rw [hsame]
    exact (Nat.add_le_add_right (hear_own_le v y) k).trans hle

theorem Inv.hear (h : Inv link cap T) (hunique : ∀ x w c k, link x w c → link x w k → c = k)
    (hlink : link x w c) (hr : ∀ y, r y ∈ T.past w y) : Inv link cap (T.hear x w c r) where
  self z := Nat.le_zero.mp ((hear_own_le z z).trans (h.self z).le)
  own_mem z y := mem_past_hear.mpr (.inl rfl)
  own_le z y v hv := by
    rcases mem_past_hear.mp hv with rfl | hv
    · exact le_rfl
    · exact (hear_own_le z y).trans (h.own_le z y v hv)
  le_cap z y v hv := by
    rcases mem_past_hear.mp hv with rfl | hv
    · exact (hear_own_le z y).trans (h.own_le_cap z y)
    · exact h.le_cap z y v hv
  sound z y v hv := by
    rcases mem_past_hear.mp hv with rfl | hv
    · exact h.hear_sound hlink hr z y
    · exact h.sound z y v hv
  relaxed := h.hear_relaxed hunique hlink
  next z y hzy := h.hear_next hlink hr hzy

end Hear

/-! The Bellman equation at one node and for one destination. -/

/-- The minimum of a direct cost and the offers of the neighbours. -/
def bellman (direct : ℕ) (offer : V → ℕ) (nbrs : List V) : ℕ :=
  nbrs.foldr (fun v m => min (offer v) m) direct

section Bellman
variable (direct : ℕ) (offer : V → ℕ) {nbrs : List V}

theorem bellman_le_direct : bellman direct offer nbrs ≤ direct := by
  induction nbrs with
  | nil => exact le_rfl
  | cons v vs ih => exact (min_le_right _ _).trans ih

theorem bellman_le_offer {v : V} (hv : v ∈ nbrs) : bellman direct offer nbrs ≤ offer v := by
  induction nbrs with
  | nil => simp at hv
  | cons u vs ih =>
    rcases List.mem_cons.mp hv with rfl | hv
    · exact min_le_left _ _
    · exact (min_le_right _ _).trans (ih hv)

/-- Something offers the minimum. -/
theorem bellman_attained (nbrs : List V) : direct = bellman direct offer nbrs ∨
    ∃ v ∈ nbrs, offer v = bellman direct offer nbrs := by
  induction nbrs with
  | nil => exact .inl rfl
  | cons u vs ih =>
    have hcons : bellman direct offer (u :: vs) = min (offer u) (bellman direct offer vs) := rfl
    rcases min_choice (offer u) (bellman direct offer vs) with hmin | hmin
    · exact .inr ⟨u, by simp, by rw [hcons, hmin]⟩
    · rw [hcons, hmin]
      exact ih.imp_right fun ⟨v, hv, h⟩ => ⟨v, List.mem_cons_of_mem u hv, h⟩

/-- Another offer of `w` does not undercut both the minimum and that offer. -/
theorem min_le_bellman_update [DecidableEq V] (w : V) (r : ℕ) :
    min (bellman direct offer nbrs) r ≤ bellman direct (Function.update offer w r) nbrs := by
  rcases bellman_attained direct (Function.update offer w r) nbrs with hd | ⟨v, hv, hvo⟩
  · rw [← hd]
    exact (min_le_left _ _).trans (bellman_le_direct ..)
  · rw [← hvo]
    by_cases hvw : v = w
    · rw [hvw, Function.update_self]
      exact min_le_right _ _
    · rw [Function.update_of_ne hvw]
      exact (min_le_left _ _).trans (bellman_le_offer _ _ hv)

/-- Lowering the minimum to a new offer `r` of `w` gives the new minimum exactly if the old one
is not lost: it is undercut, or there is another that offers it. -/
theorem bellman_update_iff [DecidableEq V] {w : V} (hw : w ∈ nbrs) (r : ℕ) :
    bellman direct (Function.update offer w r) nbrs = min (bellman direct offer nbrs) r ↔
      r ≤ bellman direct offer nbrs ∨ direct = bellman direct offer nbrs ∨
        ∃ v ∈ nbrs, v ≠ w ∧ offer v = bellman direct offer nbrs := by
  constructor
  · intro h
    rcases Nat.lt_or_ge (bellman direct offer nbrs) r with hlt | hge
    · right
      rw [min_eq_left hlt.le] at h
      rcases bellman_attained direct (Function.update offer w r) nbrs with hd | ⟨v, hv, hvo⟩
      · exact .inl (hd.trans h)
      · by_cases hvw : v = w
        · rw [hvw, Function.update_self, h] at hvo
          omega
        · rw [Function.update_of_ne hvw, h] at hvo
          exact .inr ⟨v, hv, hvw, hvo⟩
    · exact .inl hge
  · intro h
    have hr : bellman direct (Function.update offer w r) nbrs ≤ r := by
      simpa using bellman_le_offer direct (Function.update offer w r) hw
    apply le_antisymm
    · refine le_min ?_ hr
      rcases h with h | h | ⟨v, hv, hvw, h⟩
      · exact hr.trans h
      · exact h ▸ bellman_le_direct ..
      · rw [← h, ← Function.update_of_ne hvw r offer]
        exact bellman_le_offer _ _ hv
    · exact min_le_bellman_update ..

end Bellman
end DistanceVector
