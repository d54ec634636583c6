import Mathlib.Algebra.BigOperators.Ring.Finset
import Mathlib.Algebra.Order.BigOperators.Group.List
import DartNet.Network.AnyPacket
import DartNet.Network.Routes

/-! How often `pkthandler` broadcasts. It has lowered an entry of its own row each time, and no
entry falls below the cost of a shortest path, so the broadcasts that follow from each other come
to an end, however the route updates are lost, repeated and overtaken. -/
namespace DartNet.Network
open ShortestPath Transition

def totalCost (es : List DvEntry) : ℕ := (es.map (·.cost.toNat)).sum

section Row
variable {linkCost : UInt32} {own row done : List DvEntry}

/-- The second loop lowers an entry before each broadcast. -/
theorem relaxLoop_totalCost {srcNodeID : ℤ} {rt : Routingtable} {r : Relaxed}
    (h : relaxLoop srcNodeID linkCost done own row rt = some r) :
    r.broadcasts.length + totalCost r.own ≤ totalCost (done ++ own) := by
  induction own generalizing row done rt r with
  | nil =>
    obtain rfl := Option.some.inj h
    simp
  | cons d own ih =>
    cases row with
    | nil =>
      obtain rfl := Option.some.inj h
      simp
    | cons e row =>
      simp only [relaxLoop] at h
      split at h
      next hlt =>
        obtain ⟨rt', _, h⟩ := Option.bind_eq_some_iff.mp h
        obtain ⟨relaxed, hrelaxed, rfl⟩ := Option.map_eq_some_iff.mp h
        have hle := ih hrelaxed
        have hlt := UInt32.lt_iff_toNat_lt.mp hlt
        simp only [totalCost, List.map_append, List.map_cons, List.map_nil, List.sum_append,
          List.sum_cons, List.sum_nil, List.length_cons] at hle ⊢
        omega
      next =>
        have hle := ih h
        rwa [List.append_assoc, List.singleton_append] at hle

theorem sum_costIn {es : List DvEntry} (hnodup : (es.map (·.nodeID)).Nodup) :
    ((es.map (·.nodeID)).map fun y => (costIn es y).toNat).sum = totalCost es := by
  rw [List.map_map, totalCost]
  apply congrArg
  apply List.map_congr_left
  intro e he
  simp only [Function.comp_apply, costIn_of_mem hnodup he]

end Row

/-- The costs in the own row, together. -/
def Node.costs (nodes : List ℤ) (node : Node) : ℕ :=
  (nodes.map fun y => (dvtableGetcost node.myNodeID y node.dv).toNat).sum

section Tables
variable {nodes : List ℤ} {node : Node}

theorem Node.Tables.costs_eq (h : node.Tables nodes) {row : Dv}
    (hrow : getRouteUpdateData node.dv node.myNodeID = some row) :
    node.costs nodes = totalCost row.dvEntry := by
  have hids := h.complete.row hrow
  rw [← sum_costIn (hids ▸ h.nodup), hids, Node.costs]
  apply congrArg
  apply List.map_congr_left
  intro y hy
  rw [dvtableGetcost_eq h.complete hy hrow]

/-- A process broadcasts no more rows than its costs fall. -/
theorem Node.Tables.broadcasts_add_costs (h : node.Tables nodes) {packet : RouteUpdate}
    (hsrc : packet.srcNodeID ≠ node.myNodeID) {r : Node × List RouteUpdate}
    (hr : node.pkthandler packet = some r) :
    r.2.length + r.1.costs nodes ≤ node.costs nodes := by
  obtain ⟨row, hrow, hr'⟩ := Option.bind_eq_some_iff.mp hr
  obtain ⟨r', hr'', htables, hid, _⟩ := h.pkthandler hrow
  obtain rfl : r' = r := Option.some.inj (hr''.symm.trans hr)
  obtain ⟨own, hown⟩ := h.own
  rw [h.costs_eq hown]
  dsimp only at hr'
  split at hr'
  next =>
    obtain ⟨myDV, hmyDV, hr'⟩ := Option.bind_eq_some_iff.mp hr'
    obtain ⟨relaxed, hrelaxed, rfl⟩ := Option.map_eq_some_iff.mp hr'
    rw [getRouteUpdateData_setRow, if_neg hsrc.symm, hown] at hmyDV
    obtain rfl := Option.some.inj hmyDV
    have hafter : getRouteUpdateData (Network.setRow node.myNodeID relaxed.own (Network.setRow
        packet.srcNodeID (updateRow packet.entry row.dvEntry).1 node.dv)) node.myNodeID =
          some { own with dvEntry := relaxed.own } := by
      rw [getRouteUpdateData_setRow, if_pos rfl, getRouteUpdateData_setRow, if_neg hsrc.symm, hown,
        Option.map_some]
    rw [htables.costs_eq hafter, List.length_map]
    exact relaxLoop_totalCost hrelaxed
  next =>
    obtain rfl := Option.some.inj hr'
    have hafter : getRouteUpdateData (Network.setRow packet.srcNodeID
        (updateRow packet.entry row.dvEntry).1 node.dv) node.myNodeID = some own := by
      rw [getRouteUpdateData_setRow, if_neg hsrc.symm, hown]
    rw [htables.costs_eq hafter, List.length_nil, Nat.zero_add]

end Tables

section Runs
variable {Host : Type} {t : Topology Host} {s v : Sys}

namespace Sys

/-- The rows that `pkthandler` broadcasts in a step. -/
def tells (s : Sys) : Action → List RouteUpdate
  | .routeUpdate i =>
    ((s.updates[i]?).bind fun (x, packet) => ((s.node x).pkthandler packet).map (·.2)).getD []
  | _ => []

/-- How many of them are those of `x`. -/
def told (x : ℤ) (s : Sys) (a : Action) : ℕ := (s.tells a).countP (·.srcNodeID = x)

/-- The own entries of `x`, together. -/
def costs (t : Topology Host) (s : Sys) (x : ℤ) : ℕ :=
  (t.nodeIDs.map fun y => (s.entry x y).toNat).sum

end Sys

theorem Represents.told_add_costs (ht : t.WellFormed) {T : DistanceVector.Tables ℤ}
    (hT : Represents t s T) {a : Action} {s' : Sys} (hs : (machine t).step s a = some s') {x : ℤ}
    (hx : x ∈ t.nodeIDs) : s.told x a + s'.costs t x ≤ s.costs t x := by
  obtain ⟨hnode, hna⟩ | ⟨i, z, packet, c, node, out, rfl, hi, hlink, hr, hears, hnode⟩ :=
    hT.step_node ht hs
  · have hnone : s.tells a = [] := by
      cases a with
      | routeUpdate i => exact absurd rfl (hna i)
      | _ => rfl
    simp [Sys.told, hnone, Sys.costs, Sys.entry, hnode]
  · have htells : s.tells (.routeUpdate i) = out := by simp [Sys.tells, hi, hr]
    by_cases hxz : x = z
    · subst hxz
      have hok := hT.ok x hx
      have hsrc : packet.srcNodeID ≠ (s.node x).myNodeID := by
        rw [hok.myNodeID]
        exact (Topology.link_ne ht hlink).symm
      have hle : out.length + node.costs t.nodeIDs ≤ (s.node x).costs t.nodeIDs :=
        (hok.tables ht).broadcasts_add_costs hsrc hr
      have hcount : s.told x (.routeUpdate i) ≤ out.length := htells ▸ List.countP_le_length
      have hbefore : (s.node x).costs t.nodeIDs = s.costs t x := by
        rw [Node.costs, hok.myNodeID]
        rfl
      have hafter : node.costs t.nodeIDs = s'.costs t x := by
        simp only [Node.costs, hears.ok.myNodeID, Sys.costs, Sys.entry, hnode,
          Function.update_self]
      omega
    · have hcount : s.told x (.routeUpdate i) = 0 := by
        rw [Sys.told, htells]
        apply List.countP_eq_zero.mpr
        intro u hu
        rw [(hears.out u hu).1]
        simpa using Ne.symm hxz
      rw [hcount, Nat.zero_add]
      simp [Sys.costs, Sys.entry, hnode, Function.update_of_ne hxz]

/-- From any state that the SNP processes can reach, in any run, the rows that the `pkthandler` of
a node broadcasts are no more than its entries fall, so no more than they are above the costs of
the shortest paths. -/
theorem broadcasts_bounded (ht : t.WellFormed) (h : (machine t).Reachable (fun _ _ => True) s)
    {as : List Action} (hrun : (machine t).run (fun _ _ => True) s as = some v) {x : ℤ}
    (hx : x ∈ t.nodeIDs) : (machine t).total (Sys.told x) s as + v.costs t x ≤ s.costs t x ∧
      ((machine t).total (Sys.told x) s as : ℕ∞) +
        (t.nodeIDs.map fun y => min (pathCost t.link x y) infiniteCost.toNat).sum ≤
          s.costs t x := by
  have hfall : (machine t).total (Sys.told x) s as + v.costs t x ≤ s.costs t x := by
    apply Machine.total_add_le_of_run _ h hrun
    intro s a s' hs _ hstep
    obtain ⟨T, hT⟩ := exists_represents ht hs
    exact hT.told_add_costs ht hstep hx
  refine ⟨hfall, ?_⟩
  obtain ⟨T, hT⟩ := exists_represents ht ((machine t).reachable_run _ h hrun)
  have hleast : (t.nodeIDs.map fun y => min (pathCost t.link x y) infiniteCost.toNat).sum ≤
      v.costs t x := by
    rw [Sys.costs, Nat.cast_list_sum, List.map_map]
    apply List.sum_le_sum
    intro y hy
    rw [Function.comp_apply, hT.own x hx y hy]
    exact hT.inv.sound x y _ (hT.inv.own_mem x y)
  exact (add_le_add_right hleast _).trans (by exact_mod_cast hfall)

theorem broadcasts_bounded_settle : ∃ s : Sys,
    (machine triangle).run (fun _ _ => True) (Sys.start triangle) settle = some s ∧
      (machine triangle).total (Sys.told 2) (Sys.start triangle) settle = 1 ∧
        s.costs triangle 2 = 3 ∧
          1 + s.costs triangle 2 ≤ (Sys.start triangle).costs triangle 2 := by
  obtain ⟨s, hrun, hs, hcosts⟩ := (machine triangle).exists_of_run (fun _ _ => True)
    (start_init (by decide)) settle (P := fun s => s.costs triangle 2 = 3) (by decide +kernel)
  have htold : (machine triangle).total (Sys.told 2) (Sys.start triangle) settle = 1 := by
    decide +kernel
  have hbound := (broadcasts_bounded triangle_wellFormed
    (.init (start_init (t := triangle) (by decide))) hrun (x := 2) (by decide)).1
  exact ⟨s, hrun, htold, hcosts, htold ▸ hbound⟩

end Runs
end DartNet.Network
