import DartNet.Foundation.DistanceVector
import DartNet.Network.RouteCosts
import DartNet.Network.Update

/-! The second loop of `pkthandler` against the algorithm noted in `src/Routing`, which takes the
minimum over all neighbours anew. The loop can only lower an entry. -/
namespace DartNet.Network
open DistanceVector

namespace Node
variable (node : Node)

def nbrs : List ℤ := node.nct.map (·.nodeID)

/-- `c(x,y)`, 0 for the node itself and `INFINITE_COST` without a link. -/
def directCost (y : ℤ) : ℕ :=
  if y = node.myNodeID then 0 else (nbrcosttableGetcost node.nct y).toNat

/-- `c(x,v) + Dv(y)` -/
def viaCost (y v : ℤ) : ℕ :=
  (nbrcosttableGetcost node.nct v).toNat + (dvtableGetcost v y node.dv).toNat

def minCost (y : ℤ) : ℕ := bellman (node.directCost y) (node.viaCost y) node.nbrs

/-- `Dx(y)` -/
def ownCost (y : ℤ) : ℕ := (dvtableGetcost node.myNodeID y node.dv).toNat

/-- Going over the neighbour `v` costs no more than the minimum. -/
def Attains (y v : ℤ) : Prop :=
  (v = y ∧ node.directCost y = node.minCost y) ∨ node.viaCost y v = node.minCost y

instance (y v : ℤ) : Decidable (node.Attains y v) := inferInstanceAs (Decidable (_ ∨ _))

/-- The own row satisfies the Bellman equation, and the next hops attain its minima. -/
structure Bellman (nodes : List ℤ) : Prop where
  row : ∀ y ∈ nodes, node.ownCost y = node.minCost y
  next : ∀ y ∈ nodes, y ≠ node.myNodeID → node.minCost y < infiniteCost.toNat →
    ∃ v ∈ node.nbrs, node.routingtable.getnextnode y = some v ∧ node.Attains y v

/-- What the sender of an update offers for `y` from now on. -/
def newOffer (packet : RouteUpdate) (y : ℤ) : ℕ :=
  (nbrcosttableGetcost node.nct packet.srcNodeID).toNat + (costIn packet.entry y).toNat

theorem newOffer_lt (packet : RouteUpdate) (y : ℤ) :
    node.newOffer packet y < 2 * UInt32.size := by
  have hlink := (nbrcosttableGetcost node.nct packet.srcNodeID).toNat_lt_size
  have hcost := (costIn packet.entry y).toNat_lt_size
  unfold newOffer
  omega

/-- What the sender offers for `y` does not wrap around to below the own entry. -/
def NoWrapTo (packet : RouteUpdate) (y : ℤ) : Prop :=
  node.newOffer packet y < UInt32.size ∨ node.ownCost y + UInt32.size ≤ node.newOffer packet y

/-- The minimum for `y` is undercut, or it does not rest on the sender alone. -/
def KeepsMin (packet : RouteUpdate) (y : ℤ) : Prop :=
  node.newOffer packet y ≤ node.ownCost y ∨ node.directCost y = node.ownCost y ∨
    ∃ v ∈ node.nbrs, v ≠ packet.srcNodeID ∧ node.viaCost y v = node.ownCost y

/-- If the next hop for `y` is the sender, it offers no more than before, or `y` is the sender
and its direct link attains the minimum. -/
def KeepsHop (packet : RouteUpdate) (y : ℤ) : Prop :=
  y ≠ node.myNodeID → node.ownCost y < infiniteCost.toNat →
    node.routingtable.getnextnode y = some packet.srcNodeID →
      node.newOffer packet y ≤ node.ownCost y ∨
        (packet.srcNodeID = y ∧ node.directCost y = node.ownCost y)

instance (packet : RouteUpdate) (y : ℤ) : Decidable (node.NoWrapTo packet y) :=
  inferInstanceAs (Decidable (_ ∨ _))

instance (packet : RouteUpdate) (y : ℤ) : Decidable (node.KeepsMin packet y) :=
  inferInstanceAs (Decidable (_ ∨ _))

instance (packet : RouteUpdate) (y : ℤ) : Decidable (node.KeepsHop packet y) := by
  unfold KeepsHop
  infer_instance

instance (nodes : List ℤ) : Decidable (node.Bellman nodes) :=
  decidable_of_iff ((∀ y ∈ nodes, node.ownCost y = node.minCost y) ∧
      ∀ y ∈ nodes, y ≠ node.myNodeID → node.minCost y < infiniteCost.toNat →
        ∃ v ∈ node.nbrs, node.routingtable.getnextnode y = some v ∧ node.Attains y v)
    ⟨fun h => ⟨h.1, h.2⟩, fun h => ⟨h.row, h.next⟩⟩

end Node

/-- There is a row for each neighbour, and a neighbour is another node. -/
def NbrRows (node : Node) : Prop :=
  ∀ v ∈ node.nbrs, v ≠ node.myNodeID ∧ ∃ row, getRouteUpdateData node.dv v = some row

section Heard
variable {nodes : List ℤ} {node node' : Node} {packet : RouteUpdate} {out : List RouteUpdate}
  (h : Heard nodes packet.srcNodeID node packet.entry node' out) {y : ℤ} (hy : y ∈ nodes)
include h

theorem Heard.nbrs : node'.nbrs = node.nbrs := by rw [Node.nbrs, h.nct, Node.nbrs]

theorem Heard.directCost (y : ℤ) : node'.directCost y = node.directCost y := by
  rw [Node.directCost, h.nct, h.myNodeID, Node.directCost]

include hy

theorem Heard.viaCost (hnbr : NbrRows node) {v : ℤ} (hv : v ∈ node.nbrs) :
    node'.viaCost y v =
      Function.update (node.viaCost y) packet.srcNodeID (node.newOffer packet y) v := by
  obtain ⟨hne, row, hrow⟩ := hnbr v hv
  rw [Node.viaCost, h.nct, h.stored v row hrow hne y hy]
  by_cases hvw : v = packet.srcNodeID
  · rw [if_pos hvw, hvw, Function.update_self, Node.newOffer]
  · rw [if_neg hvw, Function.update_of_ne hvw, Node.viaCost]

theorem Heard.minCost (hnbr : NbrRows node) : node'.minCost y =
    bellman (node.directCost y)
      (Function.update (node.viaCost y) packet.srcNodeID (node.newOffer packet y)) node.nbrs := by
  rw [Node.minCost, h.nbrs, h.directCost, bellman, bellman]
  apply List.foldr_ext
  intro v hv m
  rw [h.viaCost hy hnbr hv]

/-- The second loop compares the offer modulo 2^32. -/
theorem Heard.ownCost_eq : node'.ownCost y =
    min (node.ownCost y) (node.newOffer packet y % UInt32.size) := by
  rw [Node.ownCost, h.myNodeID, h.own y hy]
  have hsum : (nbrcosttableGetcost node.nct packet.srcNodeID + costIn packet.entry y).toNat =
      node.newOffer packet y % UInt32.size := UInt32.toNat_add ..
  rw [← hsum]
  split
  next hlt => exact (min_eq_right (UInt32.lt_iff_toNat_lt.mp hlt).le).symm
  next hge =>
    exact (min_eq_left (Nat.le_of_not_lt fun hlt => hge (UInt32.lt_iff_toNat_lt.mpr hlt))).symm

theorem Heard.nextHop_eq : node'.routingtable.getnextnode y =
    if node.newOffer packet y % UInt32.size < node.ownCost y then some packet.srcNodeID
    else node.routingtable.getnextnode y := by
  rw [h.next y hy]
  exact if_congr (by rw [UInt32.lt_iff_toNat_lt, UInt32.toNat_add]; rfl) rfl rfl

/-- An offer that wraps around to below the own entry is below the new minimum, too. -/
theorem Heard.noWrapTo (hnbr : NbrRows node) (hold : node.ownCost y = node.minCost y)
    (hnew : node'.ownCost y = node'.minCost y) : node.NoWrapTo packet y := by
  have hle : min (node.ownCost y) (node.newOffer packet y) ≤ node'.ownCost y := by
    rw [hnew, hold, h.minCost hy hnbr]
    exact min_le_bellman_update ..
  have hown : node.ownCost y < UInt32.size := UInt32.toNat_lt_size _
  rw [h.ownCost_eq hy] at hle
  unfold Node.NoWrapTo
  simp only [UInt32.size] at *
  omega

section NoWrap
variable (hwrap : node.NoWrapTo packet y)
include hwrap

omit h hy in
theorem Node.NoWrapTo.lt_iff : node.newOffer packet y % UInt32.size < node.ownCost y ↔
    node.newOffer packet y < node.ownCost y := by
  have hown : node.ownCost y < UInt32.size := UInt32.toNat_lt_size _
  have hoffer := node.newOffer_lt packet y
  unfold Node.NoWrapTo at hwrap
  simp only [UInt32.size] at *
  omega

theorem Heard.ownCost : node'.ownCost y = min (node.ownCost y) (node.newOffer packet y) := by
  have hlt := hwrap.lt_iff
  rw [h.ownCost_eq hy]
  rcases hwrap with hsum | hsum
  · rw [Nat.mod_eq_of_lt hsum]
  · omega

theorem Heard.nextHop : node'.routingtable.getnextnode y =
    if node.newOffer packet y < node.ownCost y then some packet.srcNodeID
    else node.routingtable.getnextnode y := by
  rw [h.nextHop_eq hy]
  exact if_congr hwrap.lt_iff rfl rfl

end NoWrap
end Heard

section Update
variable {nodes : List ℤ} {node node' : Node} {packet : RouteUpdate} {out : List RouteUpdate}

/-- The own entry is the new minimum exactly if the old one is not lost. -/
theorem Heard.row_iff (h : Heard nodes packet.srcNodeID node packet.entry node' out) {y : ℤ}
    (hy : y ∈ nodes) (hnbr : NbrRows node) (hsrc : packet.srcNodeID ∈ node.nbrs)
    (hrow : node.ownCost y = node.minCost y) (hwrap : node.NoWrapTo packet y) :
    node'.ownCost y = node'.minCost y ↔ node.KeepsMin packet y := by
  have hiff := bellman_update_iff (node.directCost y) (node.viaCost y) hsrc
    (node.newOffer packet y)
  rw [← h.minCost hy hnbr, show bellman (node.directCost y) (node.viaCost y) node.nbrs =
    node.ownCost y from hrow.symm, ← h.ownCost hy hwrap] at hiff
  exact eq_comm.trans hiff

/-- The next hop attains the new minimum exactly if it did not lose it. -/
theorem Heard.hop_iff (h : Heard nodes packet.srcNodeID node packet.entry node' out) {y : ℤ}
    (hy : y ∈ nodes) (hnbr : NbrRows node) (hsrc : packet.srcNodeID ∈ node.nbrs)
    (hbellman : node.Bellman nodes) (hyx : y ≠ node.myNodeID) (hwrap : node.NoWrapTo packet y)
    (hrow : node'.ownCost y = node'.minCost y) :
    (node'.minCost y < infiniteCost.toNat → ∃ v ∈ node'.nbrs,
      node'.routingtable.getnextnode y = some v ∧ node'.Attains y v) ↔
        node.KeepsHop packet y := by
  have hown := hbellman.row y hy
  have hvia := fun v hv => h.viaCost hy hnbr (v := v) hv
  have hself : node'.viaCost y packet.srcNodeID = node.newOffer packet y := by
    rw [hvia _ hsrc, Function.update_self]
  simp only [Node.Attains, h.nbrs, h.nextHop hy hwrap, ← hrow, h.ownCost hy hwrap, h.directCost]
  by_cases hlt : node.newOffer packet y < node.ownCost y
  · rw [if_pos hlt, min_eq_right hlt.le]
    constructor
    · exact fun _ _ _ _ => .inl hlt.le
    · exact fun _ _ => ⟨_, hsrc, rfl, .inr hself⟩
  · rw [if_neg hlt, min_eq_left (Nat.le_of_not_lt hlt)]
    constructor
    · intro hnew _ hcap hnext
      obtain ⟨v, hv, hvnext, hatt⟩ := hnew hcap
      obtain rfl : v = packet.srcNodeID := Option.some.inj (hvnext.symm.trans hnext)
      rw [hself] at hatt
      exact hatt.symm.imp_left fun h => h.le
    · intro hkeeps hcap
      obtain ⟨v, hv, hvnext, hatt⟩ := hbellman.next y hy hyx (hown ▸ hcap)
      refine ⟨v, hv, hvnext, ?_⟩
      rw [Node.Attains, ← hown] at hatt
      by_cases hvw : v = packet.srcNodeID
      · subst hvw
        rw [hself]
        exact (hkeeps hyx hcap hvnext).symm.imp_right fun hle => by omega
      · rw [hvia v hv, Function.update_of_ne hvw]
        exact hatt

/-- What is heard keeps the agreement exactly if no offer wraps around and no minimum and no next
hop is taken away. -/
theorem Heard.bellman_iff (h : Heard nodes packet.srcNodeID node packet.entry node' out)
    (hnbr : NbrRows node) (hsrc : packet.srcNodeID ∈ node.nbrs) (hbellman : node.Bellman nodes) :
    node'.Bellman nodes ↔ (∀ y ∈ nodes, node.NoWrapTo packet y) ∧
      ∀ y ∈ nodes, node.KeepsMin packet y ∧ node.KeepsHop packet y := by
  constructor
  · intro hnew
    have hwrap : ∀ y ∈ nodes, node.NoWrapTo packet y := fun y hy =>
      h.noWrapTo hy hnbr (hbellman.row y hy) (hnew.row y hy)
    refine ⟨hwrap, ?_⟩
    intro y hy
    refine ⟨(h.row_iff hy hnbr hsrc (hbellman.row y hy) (hwrap y hy)).mp (hnew.row y hy), ?_⟩
    intro hyx
    exact (h.hop_iff hy hnbr hsrc hbellman hyx (hwrap y hy) (hnew.row y hy)).mp
      (hnew.next y hy (h.myNodeID ▸ hyx)) hyx
  · rintro ⟨hwrap, hkeeps⟩
    have hrows : ∀ y ∈ nodes, node'.ownCost y = node'.minCost y := fun y hy =>
      (h.row_iff hy hnbr hsrc (hbellman.row y hy) (hwrap y hy)).mpr (hkeeps y hy).1
    refine ⟨hrows, ?_⟩
    intro y hy hyx
    exact (h.hop_iff hy hnbr hsrc hbellman (h.myNodeID ▸ hyx) (hwrap y hy)
      (hrows y hy)).mpr (hkeeps y hy).2

/-- An update that repeats the stored row offers what its sender offers already. -/
theorem Node.Bellman.keeps_same (hbellman : node.Bellman nodes)
    (hsrc : packet.srcNodeID ∈ node.nbrs) {y : ℤ} (hy : y ∈ nodes)
    (hsame : node.newOffer packet y = node.viaCost y packet.srcNodeID) :
    node.KeepsMin packet y ∧ node.KeepsHop packet y := by
  have hown := hbellman.row y hy
  constructor
  · have hiff := bellman_update_iff (node.directCost y) (node.viaCost y) hsrc
      (node.newOffer packet y)
    rw [hsame, Function.update_eq_self, eq_comm, min_eq_left_iff] at hiff
    rw [Node.KeepsMin, hown, hsame]
    exact hiff.mp (bellman_le_offer _ _ hsrc)
  · intro hyx hcap hnext
    obtain ⟨v, _, hv, hatt⟩ := hbellman.next y hy hyx (hown ▸ hcap)
    obtain rfl : v = packet.srcNodeID := Option.some.inj (hv.symm.trans hnext)
    rw [hsame, hown]
    exact hatt.symm.imp_left le_of_eq

end Update

/-- After a route update the tables agree with the algorithm exactly if the update takes no
minimum and no next hop away, and no sum wraps around where the update changes the stored row. -/
theorem incremental_iff {nodes : List ℤ} {node : Node} (htables : node.Tables nodes)
    (hnbr : NbrRows node) (hbellman : node.Bellman nodes) {packet : RouteUpdate}
    (hsrc : packet.srcNodeID ∈ node.nbrs) (hids : packet.entry.map (·.nodeID) = nodes) :
    ∃ r, node.pkthandler packet = some r ∧ (r.1.Bellman nodes ↔
      (node.Changes packet → ∀ y ∈ nodes, node.NoWrapTo packet y) ∧
        ∀ y ∈ nodes, node.KeepsMin packet y ∧ node.KeepsHop packet y) := by
  obtain ⟨hne, row, hrow⟩ := hnbr _ hsrc
  by_cases hchanges : node.Changes packet
  · obtain ⟨r, hr, heard⟩ := htables.heard_changed rfl hids hrow hne.symm
      ((Node.changes_iff hrow).mp hchanges)
    rw [imp_iff_right hchanges]
    exact ⟨r, hr, heard.bellman_iff hnbr hsrc hbellman⟩
  · obtain ⟨hsame, hr⟩ := htables.pkthandler_same rfl hids hrow
      (by simpa using mt (Node.changes_iff hrow).mpr hchanges)
    refine ⟨_, hr, iff_of_true hbellman ⟨fun h => absurd h hchanges, ?_⟩⟩
    intro y hy
    apply hbellman.keeps_same hsrc hy
    rw [Node.newOffer, Node.viaCost, hsame, dvtableGetcost_eq htables.complete hy hrow]

/-- Node 1 with neighbours 2 and 3, which it reaches over 2. -/
def nodeOne : Node where
  myNodeID := 1
  dv := [⟨1, [⟨1, 0⟩, ⟨2, 1⟩, ⟨3, 2⟩]⟩, ⟨2, [⟨1, 1⟩, ⟨2, 0⟩, ⟨3, 1⟩]⟩,
    ⟨3, [⟨1, 2⟩, ⟨2, 1⟩, ⟨3, 0⟩]⟩]
  nct := [⟨2, 1⟩, ⟨3, 5⟩]
  routingtable := ⟨fun _ => [⟨2, 2⟩, ⟨3, 2⟩]⟩

theorem nodeOne_tables : nodeOne.Tables [1, 2, 3] ∧ NbrRows nodeOne ∧
    nodeOne.Bellman [1, 2, 3] := by
  refine ⟨⟨by decide, by decide, ?_, ⟨_, rfl⟩⟩, ?_, by decide⟩
  · simp [Complete, nodeOne]
  · simp [NbrRows, Node.nbrs, nodeOne, getRouteUpdateData]

/-- Node 3 offers more for node 2, which is reached without it. -/
theorem incremental_nodeOne : ∃ r,
    nodeOne.pkthandler ⟨3, [⟨1, 2⟩, ⟨2, 4⟩, ⟨3, 0⟩]⟩ = some r ∧ r.1.Bellman [1, 2, 3] := by
  obtain ⟨htables, hnbr, hbellman⟩ := nodeOne_tables
  obtain ⟨r, hr, hiff⟩ := @incremental_iff [1, 2, 3] nodeOne htables hnbr hbellman
    ⟨3, [⟨1, 2⟩, ⟨2, 4⟩, ⟨3, 0⟩]⟩ (by decide) rfl
  exact ⟨r, hr, hiff.mpr ⟨fun _ => by decide, by decide⟩⟩

/-- Node 2 loses its link to node 3, and the direct link of node 1 goes unnoticed. -/
theorem raised_cost_kept : nodeOne.Tables [1, 2, 3] ∧ NbrRows nodeOne ∧
    nodeOne.Bellman [1, 2, 3] ∧ ∃ r,
      nodeOne.pkthandler ⟨2, [⟨1, 1⟩, ⟨2, 0⟩, ⟨3, infiniteCost⟩]⟩ = some r ∧
        ¬ r.1.Bellman [1, 2, 3] :=
  ⟨nodeOne_tables.1, nodeOne_tables.2.1, nodeOne_tables.2.2, _, rfl, by decide⟩

end DartNet.Network
