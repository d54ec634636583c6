import DartNet.Network.Forwarding

/-! The whole ways that the routing tables give. -/
namespace DartNet.Network
open ShortestPath Transition
variable {Host : Type} {t : Topology Host} {s : Sys}

/-- The way to `y` along the next hops that the tables have in a state. -/
def Sys.Route (t : Topology Host) (s : Sys) (y : ℤ) (hops cost : ℕ) (x : ℤ) : Prop :=
  Way t.link (fun z => (s.node z).routingtable.getnextnode y) y hops cost x

theorem exists_route (ht : t.WellFormed) (h : (machine t).Reachable (fun _ _ => True) s) {x y : ℤ}
    (hx : x ∈ t.nodeIDs) (hlt : s.entry x y < infiniteCost) :
    ∃ n v, s.Route t y n v x ∧ v ≤ (s.entry x y).toNat := by
  obtain ⟨T, hT⟩ := exists_represents ht h
  apply exists_way (P := (· ∈ t.nodeIDs)) (fun z w c hlink => Topology.link_pos ht hlink) ?_ hx
    (UInt32.lt_iff_toNat_lt.mp hlt)
  intro z hz hzy hlt
  obtain ⟨w, c, hlink, hnext, hle⟩ := hT.next_hop hz hzy (UInt32.lt_iff_toNat_lt.mpr hlt)
  exact ⟨w, c, hlink, hnext, Topology.link_mem (Topology.link_symm hlink), hle⟩

/-- A neighbour's row that is current, seen as the entries of the abstract tables. -/
theorem Represents.entry_eq_of_settled {T : DistanceVector.Tables ℤ} (hT : Represents t s T)
    (hsettled : Settled t s) {x y : ℤ} (hx : x ∈ t.nodeIDs) (hy : y ∈ t.nodeIDs) :
    ((s.entry x y).toNat : ℕ∞) = min (pathCost t.link x y) infiniteCost.toNat := by
  rw [hT.own x hx y hy]
  refine hT.inv.own_eq ?_ x
  intro x w c hc
  have hx := Topology.link_mem hc
  have hw := Topology.link_mem (Topology.link_symm hc)
  obtain ⟨stored, hstored⟩ := (hT.ok x hx).nbr w c hc
  obtain ⟨own, hown⟩ := (hT.ok w hw).own
  have hrow : stored.dvEntry = own.dvEntry := by simpa [hstored, hown] using hsettled x hx w c hc
  rw [← hT.stored x hx w c hc y hy, ← hT.own w hw y hy, Sys.entry,
    dvtableGetcost_eq (hT.ok x hx).complete hy hstored,
    dvtableGetcost_eq (hT.ok w hw).complete hy hown, hrow]

/-- In every state that the SNP processes can reach, the tables as they stand lead from a node
with a finite entry to the destination, over links that cost no more than the entry; once every
stored row is current, they lead there on a shortest path. -/
theorem routes_shortest (ht : t.WellFormed) (h : (machine t).Reachable (fun _ _ => True) s)
    {x y : ℤ} (hx : x ∈ t.nodeIDs) (hy : y ∈ t.nodeIDs) (hlt : s.entry x y < infiniteCost) :
    ∃ n v, s.Route t y n v x ∧ n ≤ v ∧ v ≤ (s.entry x y).toNat ∧
      (Settled t s → (v : ℕ∞) = pathCost t.link x y) := by
  obtain ⟨T, hT⟩ := exists_represents ht h
  obtain ⟨n, v, hroute, hv⟩ := exists_route ht h hx hlt
  refine ⟨n, v, hroute, hroute.hops_le fun z w c hlink => Topology.link_pos ht hlink, hv, ?_⟩
  intro hsettled
  exact hroute.cost_eq hv (UInt32.lt_iff_toNat_lt.mp hlt) (hT.entry_eq_of_settled hsettled hx hy)

theorem routes_shortest_settle : ∃ s : Sys,
    (machine triangle).run (fun _ _ => True) (Sys.start triangle) settle = some s ∧
      s.entry 2 4 = 2 ∧ ∃ n v, s.Route triangle 4 n v 2 ∧ v ≤ 2 := by
  obtain ⟨s, hrun, hs, hentry⟩ := (machine triangle).exists_of_run (fun _ _ => True)
    (start_init (by decide)) settle (P := fun s => s.entry 2 4 = 2) (by decide +kernel)
  obtain ⟨n, v, hroute, _, hv, _⟩ := routes_shortest triangle_wellFormed hs (x := 2) (y := 4)
    (by decide) (by decide) (by rw [hentry]; decide)
  exact ⟨s, hrun, hentry, n, v, hroute, by simpa [hentry] using hv⟩

/-- A node with an infinite entry for a destination has no next hop there. -/
def NoHop (t : Topology Host) (s : Sys) : Prop :=
  ∀ x ∈ t.nodeIDs, ∀ y ∈ t.nodeIDs, s.entry x y = infiniteCost →
    (s.node x).routingtable.getnextnode y = some (-1)

theorem init_noHop (ht : t.WellFormed) (hs : (machine t).Init s) : NoHop t s := by
  intro x hx y hy hinf
  have hstarts := Node.create_starts ht hx (hs.node x hx)
  obtain ⟨hres, _, rt, _, hrt, hnode⟩ := Node.create_cases (hs.node x hx)
  rw [hnode, Routingtable.getnextnode_create hrt (Topology.nodeID_nonneg hres hy), if_neg]
  intro hmem
  obtain ⟨c, hlink⟩ := Topology.mem_flatMap_nbrsOfLine.mp hmem
  have hcost := Topology.getCost_of_link ht hlink
  rw [← hstarts.own y hy] at hcost
  have hlt := Topology.link_lt ht hlink
  rw [← hcost] at hlt
  exact absurd (congrArg UInt32.toNat hinf) hlt.ne

/-- Only a route update changes tables, which is then heard. -/
theorem Represents.step_node (ht : t.WellFormed) {T : DistanceVector.Tables ℤ}
    (hT : Represents t s T) {a : Action} {s' : Sys} (hs : (machine t).step s a = some s') :
    (s'.node = s.node ∧ ∀ i, a ≠ .routeUpdate i) ∨
      ∃ i x packet c node out, a = .routeUpdate i ∧ s.updates[i]? = some (x, packet) ∧
        t.link x packet.srcNodeID c ∧
        (s.node x).pkthandler packet = some (node, out) ∧
        Hears t x packet.srcNodeID c (s.node x) packet.entry node out ∧
        s'.node = Function.update s.node x node := by
  cases a with
  | copyEntry z i =>
    obtain ⟨row, _, hs⟩ := Option.bind_eq_some_iff.mp (Option.ite_none_right_eq_some.mp hs).2
    obtain ⟨e, _, rfl⟩ := Option.map_eq_some_iff.mp hs
    exact .inl ⟨rfl, by simp⟩
  | broadcast z =>
    obtain ⟨row, _, hs⟩ := Option.bind_eq_some_iff.mp (Option.ite_none_right_eq_some.mp hs).2
    obtain ⟨es, _, rfl⟩ := Option.map_eq_some_iff.mp hs
    exact .inl ⟨rfl, by simp⟩
  | send z y => exact .inl ⟨(sendOn_frame (Option.ite_none_right_eq_some.mp hs).2).1, by simp⟩
  | forward i => exact .inl ⟨(forward_frame hs).1, by simp⟩
  | routeUpdate i =>
    obtain ⟨⟨x, packet⟩, hu, hs⟩ := Option.bind_eq_some_iff.mp hs
    obtain ⟨r, hr, rfl⟩ := Option.map_eq_some_iff.mp hs
    obtain ⟨⟨c, hlink⟩, hpast⟩ := hT.updates _ (List.mem_of_getElem? hu)
    dsimp only at hlink hpast hr
    exact .inr ⟨i, x, packet, c, _, _, rfl, hu, hlink, hr, hT.hears ht hlink hpast hr, rfl⟩

/-- A next hop comes with a finite entry, and entries never grow. -/
theorem step_noHop (ht : t.WellFormed) {T : DistanceVector.Tables ℤ} (hT : Represents t s T)
    (h : NoHop t s) {a : Action} {s' : Sys} (hs : (machine t).step s a = some s') :
    NoHop t s' := by
  intro x hx y hy hinf
  obtain ⟨hnode, _⟩ | ⟨_, z, packet, c, node, out, _, _, _, _, hears, hnode⟩ :=
      hT.step_node ht hs
  · rw [Sys.entry, hnode] at hinf
    rw [hnode]
    exact h x hx y hy hinf
  · rw [Sys.entry, hnode] at hinf
    rw [hnode]
    by_cases hxz : x = z
    · subst hxz
      rw [Function.update_self] at hinf ⊢
      have hcap := hT.inv.own_le_cap x y
      rw [← hT.own x hx y hy, Sys.entry] at hcap
      have hown := hears.own y hy
      rw [hinf] at hown
      have hold : (dvtableGetcost x y (s.node x).dv).toNat = infiniteCost.toNat := by omega
      rw [hears.next y hy, if_neg (by omega), h x hx y hy (UInt32.toNat_inj.mp hold)]
    · rw [Function.update_of_ne hxz] at hinf ⊢
      exact h x hx y hy hinf

theorem noHop_of_reachable (ht : t.WellFormed) (h : (machine t).Reachable (fun _ _ => True) s) :
    NoHop t s :=
  h.invariant_of (fun _ hs => exists_represents ht hs) (fun _ hs => init_noHop ht hs)
    fun _ _ _ ⟨_, hT⟩ hno _ hs => step_noHop ht hT hno hs

/-- In every state that the SNP processes can reach, a node has a next hop for another one exactly
if its entry is finite, so never where no way costs less than `INFINITE_COST`, and once every
stored row is current exactly where one does. A packet without a next hop goes no further. -/
theorem next_hop_iff (ht : t.WellFormed) (h : (machine t).Reachable (fun _ _ => True) s)
    {x y : ℤ} (hx : x ∈ t.nodeIDs) (hy : y ∈ t.nodeIDs) (hxy : x ≠ y) :
    ((s.node x).routingtable.getnextnode y = some (-1) ↔ s.entry x y = infiniteCost) ∧
      ((infiniteCost.toNat : ℕ∞) ≤ pathCost t.link x y → s.entry x y = infiniteCost) ∧
      (Settled t s → s.entry x y = infiniteCost →
        (infiniteCost.toNat : ℕ∞) ≤ pathCost t.link x y) ∧
      (s.entry x y = infiniteCost → ∀ hops, s.sendOn t ⟨x, y, hops⟩ =
        some { s with ended := s.ended ++ [⟨x, y, hops⟩] }) := by
  obtain ⟨T, hT⟩ := exists_represents ht h
  have hno := noHop_of_reachable ht h
  have hcap : (s.entry x y).toNat ≤ infiniteCost.toNat := by
    rw [hT.own x hx y hy]
    exact hT.inv.own_le_cap x y
  have hfinite : s.entry x y ≠ infiniteCost → s.entry x y < infiniteCost := by
    intro hne
    exact UInt32.lt_iff_toNat_lt.mpr (lt_of_le_of_ne hcap fun heq => hne (UInt32.toNat_inj.mp heq))
  refine ⟨⟨fun hnone => ?_, hno x hx y hy⟩, fun hfar => ?_, fun hsettled hinf => ?_, ?_⟩
  · by_contra hne
    obtain ⟨w, c, hlink, hnext, _⟩ := hT.next_hop hx hxy (hfinite hne)
    have hw := Topology.nodeID_nonneg ht.resolved (Topology.link_mem (Topology.link_symm hlink))
    have heq := Option.some.inj (hnext.symm.trans hnone)
    omega
  · by_contra hne
    have hsound := hT.inv.sound x y _ (hT.inv.own_mem x y)
    rw [min_eq_right hfar, ← hT.own x hx y hy] at hsound
    have hle : infiniteCost.toNat ≤ (s.entry x y).toNat := by exact_mod_cast hsound
    exact absurd (UInt32.lt_iff_toNat_lt.mp (hfinite hne)) (Nat.not_lt.mpr hle)
  · have heq := hT.entry_eq_of_settled hsettled hx hy
    rw [hinf] at heq
    exact heq ▸ min_le_left _ _
  · intro hinf hops
    rw [Sys.sendOn, hno x hx y hy hinf, Option.map_some, overlaySendpkt_none ht x]

/-- Two pairs of nodes. -/
def islands : Topology ℕ := .numbered [⟨1, 2, 4⟩, ⟨3, 4, 7⟩]

theorem islands_wellFormed : islands.WellFormed where
  resolved := by decide
  noSelfLink := by decide
  onePerPair := by decide
  cost := by decide
  nodes := by decide

theorem next_hop_iff_islands : (Sys.start islands).entry 1 3 = infiniteCost ∧
    ((Sys.start islands).node 1).routingtable.getnextnode 3 = some (-1) := by
  have hentry : (Sys.start islands).entry 1 3 = infiniteCost := by decide
  exact ⟨hentry, (next_hop_iff islands_wellFormed (.init (start_init (by decide))) (by decide)
    (by decide) (by decide)).1.mpr hentry⟩

end DartNet.Network
