import DartNet.Network.Routes

/-! How long the distance vectors take to converge, with updates lost, repeated and overtaken: as
many rounds as there are nodes, a round being one in which each node has heard from each of its
neighbours no more than what that neighbour had at its beginning. -/
namespace DartNet.Network
open ShortestPath Transition
variable {Host : Type} {t : Topology Host} {s u v : Sys}

/-- The route update that `pkthandler` takes in a step, with the node it was sent to. -/
def takes (s : Sys) : Action → List (ℤ × RouteUpdate)
  | .routeUpdate i => s.updates[i]?.toList
  | _ => []

def taken (t : Topology Host) : Sys → List Action → List (ℤ × RouteUpdate)
  | _, [] => []
  | s, a :: as => takes s a ++ (((machine t).step s a).map fun s => taken t s as).getD []

/-- Every node takes from each neighbour an update that is as low as the row the neighbour has
when the run begins. -/
def Round (t : Topology Host) (s : Sys) (as : List Action) : Prop :=
  ∀ x w c, t.link x w c → ∃ u ∈ taken t s as, u.1 = x ∧ u.2.srcNodeID = w ∧
    ∀ y ∈ t.nodeIDs, costIn u.2.entry y ≤ s.entry w y

/-- A run of `k` rounds. -/
inductive Rounds (t : Topology Host) (s : Sys) : ℕ → Sys → Prop
  | start : Rounds t s 0 s
  | round {k : ℕ} {u v : Sys} {as : List Action} : Rounds t s k u → Round t u as →
      (machine t).run (fun _ _ => True) u as = some v → Rounds t s (k + 1) v

section Runs
variable {as : List Action}

theorem reachable_run (h : (machine t).Reachable (fun _ _ => True) s)
    (hrun : (machine t).run (fun _ _ => True) s as = some v) :
    (machine t).Reachable (fun _ _ => True) v :=
  (machine t).reachable_run _ h hrun

theorem entry_le_of_run (ht : t.WellFormed) (h : (machine t).Reachable (fun _ _ => True) s)
    (hrun : (machine t).run (fun _ _ => True) s as = some v) {x : ℤ} (hx : x ∈ t.nodeIDs) (y : ℤ) :
    v.entry x y ≤ s.entry x y := by
  induction as generalizing s with
  | nil =>
    obtain rfl := Option.some.inj hrun
    exact UInt32.le_refl _
  | cons a as ih =>
    rw [Machine.run, if_pos trivial] at hrun
    obtain ⟨s', hs, hrun⟩ := Option.bind_eq_some_iff.mp hrun
    obtain ⟨T, hT⟩ := exists_represents ht h
    exact UInt32.le_trans (ih (.step h trivial hs) hrun) (hT.entry_le ht hs hx y)

/-- An update that is taken lowers the entries to what it offers. -/
theorem entry_le_of_taken (ht : t.WellFormed) (h : (machine t).Reachable (fun _ _ => True) s)
    (hrun : (machine t).run (fun _ _ => True) s as = some v) {x : ℤ} {packet : RouteUpdate}
    (hu : (x, packet) ∈ taken t s as) {c : ℕ} (hlink : t.link x packet.srcNodeID c) {y : ℤ}
    (hy : y ∈ t.nodeIDs) : (v.entry x y).toNat ≤ c + (costIn packet.entry y).toNat := by
  induction as generalizing s with
  | nil => simp [taken] at hu
  | cons a as ih =>
    rw [Machine.run, if_pos trivial] at hrun
    obtain ⟨s', hs, hrun'⟩ := Option.bind_eq_some_iff.mp hrun
    obtain ⟨T, hT⟩ := exists_represents ht h
    have hs' : (machine t).Reachable (fun _ _ => True) s' := .step h trivial hs
    have hx := Topology.link_mem hlink
    rw [taken, hs, Option.map_some, Option.getD_some, List.mem_append] at hu
    rcases hu with hu | hu
    · obtain ⟨_, hna⟩ | ⟨i, x', packet', c', node, out, rfl, hi, hlink', _, hears, hnode⟩ :=
        hT.step_node ht hs
      · cases a with
        | routeUpdate i => exact absurd rfl (hna i)
        | _ => simp [takes] at hu
      · simp only [takes, hi, Option.toList_some, List.mem_singleton, Prod.mk.injEq] at hu
        obtain ⟨rfl, rfl⟩ := hu
        obtain rfl := Topology.link_unique ht hlink hlink'
        have hle := UInt32.le_iff_toNat_le.mp (entry_le_of_run ht hs' hrun' hx y)
        have hown := hears.own y hy
        have hentry : s'.entry x y = dvtableGetcost x y node.dv := by
          rw [Sys.entry, hnode, Function.update_self]
        rw [hentry] at hle
        omega
    · exact ih hs' hrun' hu

end Runs

/-! From every state a round can follow: each node broadcasts its row once for each neighbour, and
the neighbour takes it. -/
section Exists

theorem taken_append (as bs : List Action) : taken t s (as ++ bs) = taken t s as ++
    (((machine t).run (fun _ _ => True) s as).map fun v => taken t v bs).getD [] := by
  induction as generalizing s with
  | nil => simp [taken, Machine.run]
  | cons a as ih =>
    simp only [List.cons_append, taken, Machine.run, if_true]
    cases (machine t).step s a with
    | none => simp
    | some s' => simp [ih]

theorem mem_taken_append_left {as bs : List Action} {p : ℤ × RouteUpdate}
    (h : p ∈ taken t s as) : p ∈ taken t s (as ++ bs) := by
  rw [taken_append]
  exact List.mem_append_left _ h

theorem mem_taken_append_right {as bs : List Action} {p : ℤ × RouteUpdate}
    (hrun : (machine t).run (fun _ _ => True) s as = some v) (h : p ∈ taken t v bs) :
    p ∈ taken t s (as ++ bs) := by
  rw [taken_append, hrun]
  exact List.mem_append_right _ h

theorem gather_congr {f g : ℕ → Option DvEntry} {n : ℕ} (h : ∀ i < n, f i = g i) :
    Sys.gather f n = Sys.gather g n := by
  induction n with
  | zero => rfl
  | succ n ih =>
    rw [Sys.gather, Sys.gather, ih fun i hi => h i (by omega), h n (by omega)]

/-- The daemon copies the row of its node. -/
theorem exists_copies {x : ℤ} (hx : x ∈ t.nodeIDs) {row : Dv}
    (hrow : getRouteUpdateData (s.node x).dv x = some row) {n : ℕ} (hn : n ≤ row.dvEntry.length) :
    ∃ as v, (machine t).run (fun _ _ => True) s as = some v ∧ v.node = s.node ∧
      Sys.gather (v.copied x) n = some (row.dvEntry.take n) := by
  induction n with
  | zero => exact ⟨[], s, rfl, rfl, rfl⟩
  | succ n ih =>
    obtain ⟨as, v, hrun, hnode, hcopied⟩ := ih (by omega)
    have he : row.dvEntry[n]? = some row.dvEntry[n] := List.getElem?_eq_getElem (by omega)
    let v' : Sys :=
      { v with
        copied := Function.update v.copied x
          (Function.update (v.copied x) n (some row.dvEntry[n])) }
    have hstep : (machine t).step v (.copyEntry x n) = some v' := by
      simp [machine, Sys.step, hx, Sys.copyEntry, hnode, hrow, he, v']
    refine ⟨as ++ [.copyEntry x n], v', ?_, hnode, ?_⟩
    · rw [Machine.run_append, hrun, Option.bind_some, Machine.run, if_pos trivial, hstep]
      rfl
    · have hold : Sys.gather (Function.update (v.copied x) n (some row.dvEntry[n])) n =
          some (row.dvEntry.take n) := by
        rw [← hcopied]
        exact gather_congr fun i hi => Function.update_of_ne (by omega) ..
      simp only [v', Function.update_self, Sys.gather, hold, Option.bind_some, Option.map_some]
      rw [List.take_succ_eq_append_getElem (by omega)]

/-- `pkthandler` ends on a route update from a neighbour. -/
theorem Represents.exists_pkthandler (ht : t.WellFormed) {T : DistanceVector.Tables ℤ}
    (hT : Represents t s T) {x : ℤ} {packet : RouteUpdate} {c : ℕ}
    (hlink : t.link x packet.srcNodeID c)
    (hpast : FromPast t (T.past packet.srcNodeID) packet.entry) :
    ∃ r, (s.node x).pkthandler packet = some r := by
  have hx := Topology.link_mem hlink
  have hok := hT.ok x hx
  obtain ⟨row, hrow⟩ := hok.nbr _ c hlink
  have hrelaxed : ∀ y ∈ t.nodeIDs,
      dvtableGetcost packet.srcNodeID y (s.node x).dv = costIn packet.entry y →
        ¬ nbrcosttableGetcost (s.node x).nct packet.srcNodeID + costIn packet.entry y <
          dvtableGetcost (s.node x).myNodeID y (s.node x).dv := by
    intro y hy hsame
    have hcap := hT.inv.le_cap _ y _ (hpast.costIn_mem hy)
    have hle := hT.inv.relaxed x _ c y hlink
    rw [← hT.stored x hx _ c hlink y hy, ← hT.own x hx y hy, hsame, Sys.entry] at hle
    rw [hok.offers_iff ht hlink hcap, hok.myNodeID]
    omega
  obtain ⟨r, hr, _⟩ := (hok.tables ht).heard rfl hpast.1 hrow
    (hok.myNodeID.symm ▸ Topology.link_ne ht hlink) hrelaxed
  exact ⟨r, hr⟩

/-- A neighbour broadcasts its row, and it is taken. -/
theorem exists_hearing (ht : t.WellFormed) (h : (machine t).Reachable (fun _ _ => True) s)
    {x w : ℤ} {c : ℕ} (hlink : t.link x w c) :
    ∃ as v, (machine t).run (fun _ _ => True) s as = some v ∧ ∃ u ∈ taken t s as,
      u.1 = x ∧ u.2.srcNodeID = w ∧ ∀ y ∈ t.nodeIDs, costIn u.2.entry y = s.entry w y := by
  have hw := Topology.link_mem (Topology.link_symm hlink)
  obtain ⟨T, hT⟩ := exists_represents ht h
  obtain ⟨row, hrow⟩ := (hT.ok w hw).own
  obtain ⟨nbrs, hnbrs⟩ := Topology.exists_getNbrArray ht (Topology.link_symm hlink)
  obtain ⟨as, v, hrun, hnode, hcopied⟩ := exists_copies hw hrow le_rfl
  rw [List.take_length] at hcopied
  let b : Sys :=
    { v with
      copied := Function.update v.copied w fun _ => none
      updates := v.updates ++ nbrs.map fun z => (z, ⟨w, row.dvEntry⟩) }
  have hbroadcast : (machine t).step v (.broadcast w) = some b := by
    simp [machine, Sys.step, hw, Sys.broadcast, hnode, hrow, hcopied, overlaySendpkt, hnbrs, b]
  have hmem : (x, ⟨w, row.dvEntry⟩) ∈ b.updates := List.mem_append_right _
    (List.mem_map.mpr ⟨x, (Topology.mem_getNbrArray ht hnbrs).mpr
      ⟨c, Topology.link_symm hlink⟩, rfl⟩)
  obtain ⟨i, hi⟩ := List.mem_iff_getElem?.mp hmem
  have hrunb : (machine t).run (fun _ _ => True) s (as ++ [.broadcast w]) = some b := by
    rw [Machine.run_append, hrun, Option.bind_some, Machine.run, if_pos trivial, hbroadcast]
    rfl
  obtain ⟨T', hT'⟩ := exists_represents ht (reachable_run h hrunb)
  obtain ⟨r, hr⟩ := hT'.exists_pkthandler ht hlink (hT'.updates _ hmem).2
  obtain ⟨v', hstep⟩ : ∃ v', (machine t).step b (.routeUpdate i) = some v' :=
    ⟨_, show b.routeUpdate t i = _ by
      rw [Sys.routeUpdate, hi, Option.bind_some]
      exact congrArg (Option.map _) hr⟩
  refine ⟨(as ++ [.broadcast w]) ++ [.routeUpdate i], v', ?_, (x, ⟨w, row.dvEntry⟩), ?_, rfl, rfl,
    ?_⟩
  · rw [Machine.run_append, hrunb, Option.bind_some, Machine.run, if_pos trivial, hstep]
    rfl
  · apply mem_taken_append_right hrunb
    simp [taken, takes, hi]
  · intro y hy
    rw [Sys.entry, dvtableGetcost_eq (hT.ok w hw).complete hy hrow]

/-- Hearings one after the other. -/
theorem exists_hearings (ht : t.WellFormed) (h : (machine t).Reachable (fun _ _ => True) s)
    (links : List (ℤ × ℤ)) :
    ∃ as v, (machine t).run (fun _ _ => True) s as = some v ∧
      ∀ x w c, (x, w) ∈ links → t.link x w c → ∃ u ∈ taken t s as, u.1 = x ∧ u.2.srcNodeID = w ∧
        ∀ y ∈ t.nodeIDs, costIn u.2.entry y ≤ s.entry w y := by
  induction links with
  | nil => exact ⟨[], s, rfl, by simp⟩
  | cons l links ih =>
    obtain ⟨as, v, hrun, hheard⟩ := ih
    by_cases hlinked : ∃ c, t.link l.1 l.2 c
    · obtain ⟨c, hlink⟩ := hlinked
      have hw := Topology.link_mem (Topology.link_symm hlink)
      obtain ⟨bs, v', hrun', u, hu, hx, hsrc, hcost⟩ := exists_hearing ht (reachable_run h hrun)
        hlink
      refine ⟨as ++ bs, v', by rw [Machine.run_append, hrun, Option.bind_some, hrun'], ?_⟩
      intro x w k hmem hk
      rcases List.mem_cons.mp hmem with rfl | hmem
      · refine ⟨u, mem_taken_append_right hrun hu, hx, hsrc, fun y hy => ?_⟩
        rw [hcost y hy]
        exact entry_le_of_run ht h hrun hw y
      · obtain ⟨u', hu', htold⟩ := hheard x w k hmem hk
        exact ⟨u', mem_taken_append_left hu', htold⟩
    · refine ⟨as, v, hrun, ?_⟩
      intro x w c hmem hlink
      rcases List.mem_cons.mp hmem with rfl | hmem
      · exact absurd ⟨c, hlink⟩ hlinked
      · exact hheard x w c hmem hlink

theorem exists_round (ht : t.WellFormed) (h : (machine t).Reachable (fun _ _ => True) s) :
    ∃ as v, (machine t).run (fun _ _ => True) s as = some v ∧ Round t s as := by
  obtain ⟨as, v, hrun, hheard⟩ := exists_hearings ht h (t.nodeIDs.product t.nodeIDs)
  refine ⟨as, v, hrun, fun x w c hlink => hheard x w c ?_ hlink⟩
  exact List.pair_mem_product.mpr
    ⟨Topology.link_mem hlink, Topology.link_mem (Topology.link_symm hlink)⟩

end Exists

section Rounds
variable {k : ℕ}

theorem Rounds.reachable (hr : Rounds t s k v) (h : (machine t).Reachable (fun _ _ => True) s) :
    (machine t).Reachable (fun _ _ => True) v := by
  induction hr with
  | start => exact h
  | round _ _ hrun ih => exact reachable_run ih hrun

/-- What is not yet the cost of a shortest path waits for a node that is nearer. -/
theorem entry_le_or (ht : t.WellFormed) (h : (machine t).Reachable (fun _ _ => True) v) {x y : ℤ}
    (hx : x ∈ t.nodeIDs) : ((v.entry x y).toNat : ℕ∞) ≤ pathCost t.link x y ∨
      ∃ w c, t.link x w c ∧ pathCost t.link x y = c + pathCost t.link w y ∧
        nearer t.link t.nodeIDs.toFinset y w < nearer t.link t.nodeIDs.toFinset y x := by
  by_cases hxy : x = y
  · subst hxy
    obtain ⟨T, hT⟩ := exists_represents ht h
    rw [hT.own x hx x hx, hT.inv.self x]
    exact .inl bot_le
  · by_cases hfin : pathCost t.link x y = ⊤
    · exact .inl (hfin ▸ le_top)
    · exact .inr (exists_nearer (fun x w c hlink => Topology.link_pos ht hlink)
        (fun x w c hlink => List.mem_toFinset.mpr (Topology.link_mem (Topology.link_symm hlink)))
        hxy hfin)

/-- After as many rounds as there are nodes nearer to `y`, an entry is the cost of a shortest
path or less. -/
theorem Rounds.entry_le_pathCost (ht : t.WellFormed)
    (h : (machine t).Reachable (fun _ _ => True) s) (hr : Rounds t s k v) {x y : ℤ}
    (hx : x ∈ t.nodeIDs) (hy : y ∈ t.nodeIDs)
    (hk : nearer t.link t.nodeIDs.toFinset y x ≤ k) :
    ((v.entry x y).toNat : ℕ∞) ≤ pathCost t.link x y := by
  induction hr generalizing x with
  | start =>
    obtain hle | ⟨w, c, _, _, hlt⟩ := entry_le_or ht h (y := y) hx
    · exact hle
    · omega
  | @round k u v as hr hround hrun ih =>
    have hu := hr.reachable h
    obtain hle | ⟨w, c, hlink, hcost, hlt⟩ := entry_le_or ht (reachable_run hu hrun) (y := y) hx
    · exact hle
    · have hw := Topology.link_mem (Topology.link_symm hlink)
      obtain ⟨⟨x', packet⟩, htaken, rfl, rfl, hlow⟩ := hround x w c hlink
      have hentry := entry_le_of_taken ht hu hrun htaken hlink hy
      have hold := UInt32.le_iff_toNat_le.mp (hlow y hy)
      rw [hcost]
      calc ((v.entry x' y).toNat : ℕ∞)
          ≤ (c + (u.entry packet.srcNodeID y).toNat : ℕ) := by
            exact_mod_cast hentry.trans (Nat.add_le_add_left hold c)
        _ ≤ c + pathCost t.link packet.srcNodeID y := by
            rw [Nat.cast_add]
            exact add_le_add_right (ih hw (by omega)) _

theorem exists_rounds (ht : t.WellFormed) (h : (machine t).Reachable (fun _ _ => True) s)
    (k : ℕ) : ∃ u, Rounds t s k u := by
  induction k with
  | zero => exact ⟨s, .start⟩
  | succ k ih =>
    obtain ⟨u, hr⟩ := ih
    obtain ⟨as, v, hrun, hround⟩ := exists_round ht (hr.reachable h)
    exact ⟨v, .round hr hround hrun⟩

/-- From every state that the SNP processes can reach, one round less than there are nodes can
follow; and whatever happens besides, after that every entry is the cost of a shortest path, and
so it stays, and the routing tables give shortest paths. -/
theorem rounds_converge (ht : t.WellFormed) (h : (machine t).Reachable (fun _ _ => True) s) :
    (∃ u, Rounds t s (t.nodeIDs.length - 1) u) ∧
      ∀ u as v, Rounds t s (t.nodeIDs.length - 1) u →
        (machine t).run (fun _ _ => True) u as = some v → ∀ x ∈ t.nodeIDs, ∀ y ∈ t.nodeIDs,
          ((v.entry x y).toNat : ℕ∞) = min (pathCost t.link x y) infiniteCost.toNat ∧
            (pathCost t.link x y < infiniteCost.toNat →
              ∃ n c, v.Route t y n c x ∧ (c : ℕ∞) = pathCost t.link x y) := by
  refine ⟨exists_rounds ht h _, ?_⟩
  intro u as v hr hrun x hx y hy
  have hu := hr.reachable h
  have hv := reachable_run hu hrun
  obtain ⟨T, hT⟩ := exists_represents ht hv
  have hcard : t.nodeIDs.toFinset.card = t.nodeIDs.length :=
    List.toFinset_card_of_nodup Topology.nodup_nodeIDs
  have hnear : nearer t.link t.nodeIDs.toFinset y x < t.nodeIDs.toFinset.card :=
    nearer_lt_card (List.mem_toFinset.mpr hx)
  have hle := hr.entry_le_pathCost ht h hx hy (by omega)
  have hentry : ((v.entry x y).toNat : ℕ∞) = min (pathCost t.link x y) infiniteCost.toNat := by
    apply le_antisymm (le_min ?_ ?_)
    · rw [hT.own x hx y hy]
      exact hT.inv.sound x y _ (hT.inv.own_mem x y)
    · exact le_trans (by exact_mod_cast
        UInt32.le_iff_toNat_le.mp (entry_le_of_run ht hu hrun hx y)) hle
    · rw [hT.own x hx y hy]
      exact_mod_cast hT.inv.own_le_cap x y
  refine ⟨hentry, fun hlt => ?_⟩
  have hfin : v.entry x y < infiniteCost := by
    rw [min_eq_left hlt.le] at hentry
    exact UInt32.lt_iff_toNat_lt.mpr (by exact_mod_cast hentry.trans_lt hlt)
  obtain ⟨n, c, hroute, hc⟩ := exists_route ht hv hx hfin
  exact ⟨n, c, hroute, hroute.cost_eq hc (UInt32.lt_iff_toNat_lt.mp hfin) hentry⟩

theorem rounds_converge_triangle : ∃ u, Rounds triangle (Sys.start triangle) 2 u ∧
    ((u.entry 2 4).toNat : ℕ∞) = min (pathCost triangle.link 2 4) infiniteCost.toNat := by
  obtain ⟨⟨u, hr⟩, hall⟩ :=
    rounds_converge triangle_wellFormed (.init (start_init (t := triangle) (by decide)))
  exact ⟨u, hr, (hall u [] u hr rfl 2 (by decide) 4 (by decide)).1⟩

end Rounds
end DartNet.Network
