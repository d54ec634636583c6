import Mathlib.Data.ENat.Lattice
import Mathlib.Data.Finset.Card

/-! Costs of walks in a weighted graph, and of the shortest walk. A value below the cap is a
bound on a real walk exactly when it is not below the capped shortest cost. -/
namespace ShortestPath
variable {V : Type*} (link : V → V → ℕ → Prop)

inductive Walk : V → V → ℕ → Prop
  | nil (x : V) : Walk x x 0
  | cons {x w y : V} {c n : ℕ} : link x w c → Walk w y n → Walk x y (c + n)

/-- The cost of the shortest walk, `⊤` if there is none. -/
noncomputable def pathCost (x y : V) : ℕ∞ := ⨅ (n : ℕ) (_ : Walk link x y n), (n : ℕ∞)

variable {link}

theorem pathCost_le {x y : V} {n : ℕ} (h : Walk link x y n) : pathCost link x y ≤ n :=
  iInf₂_le n h

theorem le_pathCost {x y : V} {d : ℕ∞} (h : ∀ n, Walk link x y n → d ≤ n) :
    d ≤ pathCost link x y :=
  le_iInf₂ h

/-- The shortest walk exists. -/
theorem exists_walk_of_le {x y : V} {v : ℕ} (h : pathCost link x y ≤ v) :
    ∃ n ≤ v, Walk link x y n := by
  by_contra hno
  push Not at hno
  have hlt : ((v + 1 : ℕ) : ℕ∞) ≤ pathCost link x y := by
    apply le_pathCost
    intro n hn
    have hvn : v < n := Nat.lt_of_not_le fun hle => hno n hle hn
    exact_mod_cast hvn
  have hle : v + 1 ≤ v := by exact_mod_cast hlt.trans h
  omega

theorem min_pathCost_self {x : V} {cap : ℕ} : min (pathCost link x x) cap = 0 := by
  have h : pathCost link x x ≤ (0 : ℕ) := pathCost_le (.nil x)
  simp only [Nat.cast_zero, nonpos_iff_eq_zero] at h
  simp [h]

/-- A link in front of a walk. -/
theorem min_pathCost_le_add {x w y : V} {c v cap : ℕ} (hlink : link x w c)
    (h : min (pathCost link w y) cap ≤ v) : min (pathCost link x y) cap ≤ (c + v : ℕ) := by
  rcases min_le_iff.mp h with h | h
  · obtain ⟨n, hn, hwalk⟩ := exists_walk_of_le h
    refine (min_le_left _ _).trans ((pathCost_le (.cons hlink hwalk)).trans ?_)
    exact_mod_cast Nat.add_le_add_left hn c
  · refine (min_le_right _ _).trans (h.trans ?_)
    exact_mod_cast Nat.le_add_left v c

/-- Bellman's inequalities towards `y` bound a function by the cost of every walk to `y`. -/
theorem le_of_walk {d : V → ℕ} {x y : V} (hself : d y = 0)
    (hlink : ∀ x w c, link x w c → d x ≤ c + d w) {n : ℕ} (h : Walk link x y n) : d x ≤ n := by
  induction h with
  | nil x => exact hself.le
  | @cons x w y c n hc _ ih => exact (hlink x w c hc).trans (Nat.add_le_add_left (ih hself) c)

section Nearer
variable {nodes : Finset V} {x y : V}

open Classical in
/-- How many of the nodes are nearer to `y` than `x` is. -/
noncomputable def nearer (link : V → V → ℕ → Prop) (nodes : Finset V) (y x : V) : ℕ :=
  (nodes.filter fun z => pathCost link z y < pathCost link x y).card

/-- The first hop of a shortest walk is a node from which one more is not nearer. -/
theorem exists_nearer (hpos : ∀ x w c, link x w c → 0 < c)
    (hmem : ∀ x w c, link x w c → w ∈ nodes) (hxy : x ≠ y) (hfin : pathCost link x y ≠ ⊤) :
    ∃ w c, link x w c ∧ pathCost link x y = c + pathCost link w y ∧
      nearer link nodes y w < nearer link nodes y x := by
  obtain ⟨v, hv⟩ := ENat.ne_top_iff_exists.mp hfin
  obtain ⟨n, hn, hwalk⟩ := exists_walk_of_le hv.ge
  cases hwalk with
  | nil => exact absurd rfl hxy
  | @cons _ w _ c n hlink hwalk =>
    have hle : pathCost link w y ≤ n := pathCost_le hwalk
    obtain ⟨u, hu⟩ := ENat.ne_top_iff_exists.mp (ne_top_of_le_ne_top (ENat.natCast_ne_top n) hle)
    have hun : u ≤ n := by exact_mod_cast hu.trans_le hle
    obtain ⟨m, hm, hwalk'⟩ := exists_walk_of_le hu.ge
    have hvm : v ≤ c + m := by exact_mod_cast hv.trans_le (pathCost_le (.cons hlink hwalk'))
    have hc := hpos x w c hlink
    have hlt : pathCost link w y < pathCost link x y := by
      rw [← hu, ← hv]
      exact_mod_cast (show u < v by omega)
    refine ⟨w, c, hlink, ?_, ?_⟩
    · rw [← hu, ← hv]
      exact_mod_cast (show v = c + u by omega)
    · have hsub := Finset.monotone_filter_right nodes
        fun z _ (hz : pathCost link z y < pathCost link w y) => hz.trans hlt
      apply Finset.card_lt_card
      refine (Finset.ssubset_iff_of_subset hsub).mpr
        ⟨w, Finset.mem_filter.mpr ⟨hmem x w c hlink, hlt⟩, ?_⟩
      exact fun h => lt_irrefl _ (Finset.mem_filter.mp h).2

theorem nearer_lt_card (hx : x ∈ nodes) : nearer link nodes y x < nodes.card := by
  apply Finset.card_lt_card
  refine (Finset.ssubset_iff_of_subset (Finset.filter_subset _ _)).mpr ⟨x, hx, ?_⟩
  exact fun h => lt_irrefl _ (Finset.mem_filter.mp h).2

end Nearer

/-- The way from a node to `y` along next hops: its number of hops and its cost. -/
inductive Way (link : V → V → ℕ → Prop) (next : V → Option V) (y : V) : ℕ → ℕ → V → Prop
  | arrived : Way link next y 0 0 y
  | hop {x w : V} {c n v : ℕ} : x ≠ y → next x = some w → link x w c → Way link next y n v w →
      Way link next y (n + 1) (c + v) x

section Way
variable {next : V → Option V} {x y : V} {n v : ℕ}

theorem Way.walk (h : Way link next y n v x) : Walk link x y v := by
  induction h with
  | arrived => exact .nil y
  | hop _ _ hlink _ ih => exact .cons hlink ih

theorem Way.hops_le (hpos : ∀ x w c, link x w c → 0 < c) (h : Way link next y n v x) : n ≤ v := by
  induction h with
  | arrived => exact Nat.le_refl 0
  | hop _ _ hlink _ ih =>
    have hc := hpos _ _ _ hlink
    omega

/-- Where each next hop is nearer by the cost of the link, the next hops lead to `y`. -/
theorem exists_way {P : V → Prop} {d : V → ℕ} {cap : ℕ}
    (hpos : ∀ x w c, link x w c → 0 < c)
    (hnext : ∀ x, P x → x ≠ y → d x < cap →
      ∃ w c, link x w c ∧ next x = some w ∧ P w ∧ d w + c ≤ d x)
    (hx : P x) (hlt : d x < cap) : ∃ n v, Way link next y n v x ∧ v ≤ d x := by
  induction hd : d x using Nat.strongRecOn generalizing x with
  | ind k ih =>
    by_cases hxy : x = y
    · exact ⟨0, 0, hxy ▸ .arrived, Nat.zero_le _⟩
    · obtain ⟨w, c, hlink, hw, hPw, hle⟩ := hnext x hx hxy hlt
      have hc := hpos x w c hlink
      obtain ⟨n, v, hway, hv⟩ := ih (d w) (by omega) hPw (by omega) rfl
      exact ⟨n + 1, c + v, .hop hxy hw hlink hway, by omega⟩

/-- A way that costs no more than the capped shortest path is one. -/
theorem Way.cost_eq {d cap : ℕ} (h : Way link next y n v x) (hv : v ≤ d) (hlt : d < cap)
    (hd : (d : ℕ∞) = min (pathCost link x y) cap) : (v : ℕ∞) = pathCost link x y := by
  have hpath : (d : ℕ∞) = pathCost link x y := by
    rcases min_choice (pathCost link x y) (cap : ℕ∞) with hmin | hmin
    · rw [hd, hmin]
    · rw [hmin] at hd
      have heq : d = cap := by exact_mod_cast hd
      omega
  apply le_antisymm
  · rw [← hpath]
    exact_mod_cast hv
  · exact pathCost_le h.walk

end Way

end ShortestPath
