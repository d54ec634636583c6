import DartNet.Common.Pkt
import DartNet.Foundation.Transition
import DartNet.Network.RouteCosts
import DartNet.Network.Update

/-! One turn of `pkthandler` for any packet that `overlay_recvpkt` delivers. An access outside an
array or through a null pointer is undefined. -/
namespace DartNet.Network
open Packed Transition

/-- `routeupdate_entry_t`; its node ID is compared with an `int`. -/
def routeupdateEntryLayout : Layout (Int32 × UInt32) := .pair i32 .u32

/-- The `pkt_routeupdate_t` at the front of the data. -/
def routeUpdateOf (packet : SnpPkt) : RouteUpdate where
  srcNodeID := packet.header.srcNodeID.toInt
  entry := (List.range maxNodeNum).map fun i =>
    let e := routeupdateEntryLayout.decode
      (packet.data.val.drop (Layout.u32.size + i * routeupdateEntryLayout.size))
    ⟨e.1.toInt, e.2⟩

def packetTypes : List String := ["Unknown", "ROUTE_UPDATE", "SNP"]

/-- What a turn passes on: a segment to the SRT process, the packet to the next hop, or the own row
to all neighbours. -/
inductive Passed where
  | toSRT (srcNodeID : Int32) (segment : Seg)
  | toNextNode (nextNodeID : ℤ) (packet : SnpPkt)
  | toNbrs (update : RouteUpdate)

/-- The type is printed before it is tested, and any type but `SNP` is a route update. -/
def Node.turn (node : Node) (packet : SnpPkt) : Option (Node × List Passed) :=
  (packetTypes[packet.header.type.toNat]?).bind fun _ =>
    if packet.header.type = PktType.snp then
      if packet.header.destNodeID.toInt = node.myNodeID then
        some (node, [.toSRT packet.header.srcNodeID (segLayout.decode packet.data.val)])
      else
        (node.routingtable.getnextnode packet.header.destNodeID.toInt).map fun nextNode =>
          (node, [.toNextNode nextNode packet])
    else (node.pkthandler (routeUpdateOf packet)).map fun r => (r.1, r.2.map .toNbrs)

/-- The tables of the SNP process, which only `pkthandler` changes. -/
def snpMachine {Host : Type} (t : Topology Host) (x : ℤ) : Machine Node SnpPkt where
  Init node := Node.create t x = some node
  step node packet := (node.turn packet).map Prod.fst

/-- The type has a text, a packet for another node has a destination with a slot, and a route
update is from the own node or a neighbour. -/
def Handleable (x : ℤ) (nbrs : List ℤ) (packet : SnpPkt) : Prop :=
  packet.header.type ≤ PktType.snp ∧
    (packet.header.type = PktType.snp →
      packet.header.destNodeID.toInt = x ∨ 0 ≤ packet.header.destNodeID.toInt ∨
        10 ∣ packet.header.destNodeID.toInt) ∧
    (packet.header.type ≠ PktType.snp →
      packet.header.srcNodeID.toInt = x ∨ packet.header.srcNodeID.toInt ∈ nbrs)

instance (x : ℤ) (nbrs : List ℤ) (packet : SnpPkt) : Decidable (Handleable x nbrs packet) :=
  inferInstanceAs (Decidable (_ ∧ _ ∧ _))

/-- A remainder is negative if the dividend is, unless it is zero. -/
theorem makehash_nonneg_iff (node : ℤ) : 0 ≤ makehash node ↔ 0 ≤ node ∨ 10 ∣ node := by
  rw [makehash, show ((maxRoutingtableSlots : ℕ) : ℤ) = 10 from rfl, Int.tmod_eq_emod]
  split
  next h => exact iff_of_true (by omega) h
  next h => exact iff_of_false (by omega) h

theorem slot_isSome_iff (node : ℤ) : (slot node).isSome ↔ 0 ≤ node ∨ 10 ∣ node := by
  rw [← makehash_nonneg_iff, slot]
  split <;> simp_all

theorem map_nodeID_updateRow (es ds : List DvEntry) :
    (updateRow es ds).1.map (·.nodeID) = ds.map (·.nodeID) := by
  apply List.ext_getElem?
  intro i
  rw [List.getElem?_map, List.getElem?_map, getElem?_updateRow, Option.map_map]
  rfl

theorem map_nodeID_relaxRow (linkCost : UInt32) (own row : List DvEntry) :
    (relaxRow linkCost own row).map (·.nodeID) = own.map (·.nodeID) := by
  apply List.ext_getElem?
  intro i
  rw [List.getElem?_map, List.getElem?_map, getElem?_relaxRow, Option.map_map]
  congr 1
  funext d
  cases row[i]? with
  | none => rfl
  | some r => exact relaxEntry_nodeID d r

theorem isSome_setRow (w v : ℤ) (es : List DvEntry) (dv : List Dv) :
    (getRouteUpdateData (setRow w es dv) v).isSome = (getRouteUpdateData dv v).isSome := by
  rw [getRouteUpdateData_setRow]
  split
  next h => rw [h, Option.isSome_map]
  next => rfl

/-- A route update is handled if its sender has a row, and every row stays. -/
theorem Node.Tables.pkthandler {nodes : List ℤ} {node : Node} (h : node.Tables nodes)
    {packet : RouteUpdate} {row : Dv}
    (hrow : getRouteUpdateData node.dv packet.srcNodeID = some row) :
    ∃ r, node.pkthandler packet = some r ∧ r.1.Tables nodes ∧ r.1.myNodeID = node.myNodeID ∧
      ∀ v, (getRouteUpdateData r.1.dv v).isSome = (getRouteUpdateData node.dv v).isSome := by
  have hids : (updateRow packet.entry row.dvEntry).1.map (·.nodeID) = nodes :=
    (map_nodeID_updateRow ..).trans (h.complete.row hrow)
  have hstored := h.setRow (v := packet.srcNodeID) hids node.routingtable
  simp only [Node.pkthandler, hrow, Option.bind_some]
  split
  next =>
    obtain ⟨myDV, hmyDV⟩ := hstored.own
    have hown := hstored.complete.row hmyDV
    have hlen : myDV.dvEntry.length = (updateRow packet.entry row.dvEntry).1.length := by
      simpa using congrArg List.length (hown.trans hids.symm)
    have hpos : ∀ d ∈ myDV.dvEntry, 0 ≤ d.nodeID :=
      fun d hd => h.nonneg _ (hown ▸ List.mem_map_of_mem hd)
    obtain ⟨res, hres, _⟩ := relaxLoop_relaxes packet.srcNodeID
      (nbrcosttableGetcost node.nct packet.srcNodeID) hlen hpos [] node.routingtable
    have hresult : res.own.map (·.nodeID) = nodes := by
      rw [relaxLoop_own hres, List.nil_append, map_nodeID_relaxRow, hown]
    rw [hmyDV, Option.bind_some, hres, Option.map_some]
    refine ⟨_, rfl, hstored.setRow hresult res.routingtable, rfl, ?_⟩
    intro v
    rw [isSome_setRow, isSome_setRow]
  next => exact ⟨_, rfl, hstored, rfl, fun v => isSome_setRow ..⟩

/-- The tables of node `x`, with a row for itself and for each neighbour. -/
structure Node.Standing {Host : Type} (t : Topology Host) (x : ℤ) (node : Node) : Prop where
  myNodeID : node.myNodeID = x
  tables : node.Tables t.nodeIDs
  rows : ∀ v, (getRouteUpdateData node.dv v).isSome ↔
    v = x ∨ v ∈ t.lines.flatMap (t.nbrsOfLine x)

namespace Node.Standing
variable {Host : Type} {t : Topology Host} {x : ℤ} {node : Node}

theorem create (h : Node.create t x = some node) : node.Standing t x := by
  obtain ⟨hres, nct, rt, _, _, rfl⟩ := Node.create_cases h
  constructor
  · rfl
  · constructor
    · exact Topology.nodup_nodeIDs
    · exact fun y hy => Topology.nodeID_nonneg hres hy
    · exact freshDv_complete x _
    · exact ⟨_, freshDv_own x _⟩
  · intro v
    rw [getRouteUpdateData, List.find?_isSome]
    simp [freshDv, eq_comm]

theorem step (hs : node.Standing t x) {packet : SnpPkt} {r : Node × List Passed}
    (h : node.turn packet = some r) : r.1.Standing t x := by
  obtain ⟨_, _, h⟩ := Option.bind_eq_some_iff.mp h
  split at h
  next =>
    split at h
    next => exact Option.some.inj h ▸ hs
    next =>
      obtain ⟨_, _, rfl⟩ := Option.map_eq_some_iff.mp h
      exact hs
  next =>
    obtain ⟨q, hq, rfl⟩ := Option.map_eq_some_iff.mp h
    obtain ⟨row, hrow, _⟩ := Option.bind_eq_some_iff.mp hq
    obtain ⟨q', hq', htables, hmy, hrows⟩ := hs.tables.pkthandler hrow
    obtain rfl : q' = q := Option.some.inj (hq'.symm.trans hq)
    exact ⟨hmy.trans hs.myNodeID, htables, fun v => by rw [hrows, hs.rows]⟩

theorem pkthandler_isSome (hs : node.Standing t x) (packet : RouteUpdate) :
    (node.pkthandler packet).isSome ↔
      packet.srcNodeID = x ∨ packet.srcNodeID ∈ t.lines.flatMap (t.nbrsOfLine x) := by
  rw [← hs.rows]
  constructor
  · intro h
    obtain ⟨r, hr⟩ := Option.isSome_iff_exists.mp h
    obtain ⟨row, hrow, _⟩ := Option.bind_eq_some_iff.mp hr
    rw [hrow, Option.isSome_some]
  · intro h
    obtain ⟨row, hrow⟩ := Option.isSome_iff_exists.mp h
    obtain ⟨r, hr, _⟩ := hs.tables.pkthandler hrow
    rw [hr, Option.isSome_some]

/-- The three accesses of a turn. -/
theorem turn_isSome_iff (hs : node.Standing t x) (packet : SnpPkt) :
    (node.turn packet).isSome ↔ Handleable x (t.lines.flatMap (t.nbrsOfLine x)) packet := by
  unfold Node.turn Handleable
  have htypes : packetTypes.length = 3 := rfl
  have hsnp : PktType.snp.toNat = 2 := rfl
  have hle := UInt16.le_iff_toNat_le (a := packet.header.type) (b := PktType.snp)
  rw [hsnp] at hle
  rcases Nat.lt_or_ge packet.header.type.toNat packetTypes.length with hlt | hge
  · rw [List.getElem?_eq_getElem hlt, Option.bind_some, and_iff_right (hle.mpr (by omega))]
    split
    next htype =>
      simp only [htype, ne_eq, not_true_eq_false, false_implies, and_true, true_implies]
      split
      next hdest => simp [← hs.myNodeID, hdest]
      next hdest =>
        rw [Option.isSome_map, Routingtable.getnextnode, Option.isSome_map, slot_isSome_iff,
          ← hs.myNodeID, or_iff_right hdest]
    next htype =>
      simp only [htype, ne_eq, not_false_eq_true, false_implies, true_and, true_implies]
      rw [Option.isSome_map, hs.pkthandler_isSome]
      rfl
  · rw [List.getElem?_eq_none hge, Option.bind_none]
    exact iff_of_false (by simp) fun h => absurd (hle.mp h.1) (by omega)

end Node.Standing

section AnyTopology
variable {Host : Type} {t : Topology Host} {x : ℤ}

theorem reachable_standing {ok : Node → SnpPkt → Prop} {node : Node}
    (h : (snpMachine t x).Reachable ok node) : node.Standing t x := by
  apply h.invariant (I := fun node => node.Standing t x)
  · exact fun s hs => .create hs
  · intro s packet s' hs _ hstep
    obtain ⟨r, hr, rfl⟩ := Option.map_eq_some_iff.mp hstep
    exact hs.step hr

/-- Neither the set-up of the tables nor the packet, whatever packets came before it, makes an
invalid access. -/
def Topology.Handles (t : Topology Host) (x : ℤ) (packet : SnpPkt) : Prop :=
  (Node.create t x).isSome ∧ ∀ node, (snpMachine t x).Reachable (fun _ _ => True) node →
    (node.turn packet).isSome

/-- A packet is handled without an invalid access exactly if the set-up stays inside its arrays
and the packet's type has a text, its destination has a slot where one is looked up, and its source
has a row where one is used. The packet's part is the same in every reachable state. -/
theorem handled_iff (t : Topology Host) (x : ℤ) (packet : SnpPkt) :
    ((∀ word, (t.behind word).Handles x packet) ↔
      t.StartsAt x ∧ Handleable x (t.lines.flatMap (t.nbrsOfLine x)) packet) ∧
    ∀ node, (snpMachine t x).Reachable (fun _ _ => True) node →
      ((node.turn packet).isSome ↔ Handleable x (t.lines.flatMap (t.nbrsOfLine x)) packet) := by
  have hturn : ∀ word node, (snpMachine (t.behind word) x).Reachable (fun _ _ => True) node →
      ((node.turn packet).isSome ↔ Handleable x (t.lines.flatMap (t.nbrsOfLine x)) packet) :=
    fun _ _ h => (reachable_standing h).turn_isSome_iff packet
  refine ⟨⟨?_, ?_⟩, hturn t.behindNodeIDs⟩
  · intro h
    refine ⟨Node.create_behind_iff.mp fun word => (h word).1, ?_⟩
    obtain ⟨node, hnode⟩ := Option.isSome_iff_exists.mp (h 0).1
    exact (hturn 0 node (.init hnode)).mp ((h 0).2 node (.init hnode))
  · rintro ⟨hstarts, hpacket⟩ word
    exact ⟨Node.create_behind_iff.mpr hstarts word,
      fun node hnode => (hturn word node hnode).mpr hpacket⟩

end AnyTopology

/-- Nodes 1, 2 and 3 in a row. -/
def inRow : Topology ℕ where
  lines := [⟨1, 2, 1⟩, ⟨2, 3, 1⟩]
  gethostbyname h := some (UInt32.ofNat h)
  behindNodeIDs := 0

def packetWith (src dest : Int32) (type : UInt16) : SnpPkt :=
  ⟨⟨src, dest, 0, type⟩, .replicate _ 0⟩

/-- A route update with the costs 1, 0 and 1. -/
def updateOfTwo : SnpPkt where
  header := ⟨2, 9999, 84, 1⟩
  data := ⟨(Layout.u32.encode 3 ++ [(1, 1), (2, 0), (3, 1)].flatMap routeupdateEntryLayout.encode ++
    List.replicate maxPktLen 0).take maxPktLen, by simp; omega⟩

/-- Node 1 learns the way to node 3 from a route update and sends a packet for it there. -/
theorem handled_inRow : (∀ word, (inRow.behind word).Handles 1 updateOfTwo) ∧
    ∃ node, (snpMachine inRow 1).Reachable (fun _ _ => True) node ∧
      dvtableGetcost 1 3 node.dv = 2 ∧ node.routingtable.getnextnode 3 = some 2 ∧
      (node.turn (packetWith 2 3 PktType.snp)).isSome := by
  have hstarts : inRow.StartsAt 1 := ⟨by decide, by decide, by decide, by decide⟩
  have hinit : (snpMachine inRow 1).Init ((Node.create inRow 1).get (by decide +kernel)) :=
    (Option.some_get _).symm
  obtain ⟨node, _, hnode, hcost, hnext⟩ := (snpMachine inRow 1).exists_of_run (fun _ _ => True)
    hinit [updateOfTwo]
    (P := fun node => dvtableGetcost 1 3 node.dv = 2 ∧ node.routingtable.getnextnode 3 = some 2)
    (by decide +kernel)
  exact ⟨(handled_iff inRow 1 updateOfTwo).1.mpr ⟨hstarts, by decide +kernel⟩, node, hnode, hcost,
    hnext, ((handled_iff inRow 1 _).2 node hnode).mpr (by decide)⟩

/-- A type without a text, a destination in front of the first slot, and a route update from node 3,
which is no neighbour of node 1. -/
theorem packets_not_handled : ∃ node, (snpMachine inRow 1).Reachable (fun _ _ => True) node ∧
    ¬ (node.turn (packetWith 2 1 3)).isSome ∧
    ¬ (node.turn (packetWith 2 (-1) PktType.snp)).isSome ∧
    ¬ (node.turn (packetWith 3 9999 1)).isSome := by
  obtain ⟨node, hnode⟩ := Option.isSome_iff_exists.mp
    (show (Node.create inRow 1).isSome = true by decide +kernel)
  have hreach : (snpMachine inRow 1).Reachable (fun _ _ => True) node := .init hnode
  have hs := reachable_standing hreach
  refine ⟨node, hreach, ?_, ?_, ?_⟩
  · rw [hs.turn_isSome_iff]
    decide
  · rw [hs.turn_isSome_iff]
    decide
  · rw [hs.turn_isSome_iff]
    decide

end DartNet.Network
