import DartNet.Foundation.Transition
import DartNet.Network.Pkthandler

/-! The SNP processes of a topology, with the route updates and the packets on their way. -/
namespace DartNet.Network
open Transition
variable {Host : Type}

def broadcastNodeID : ℤ := 9999

/-- The neighbours that the overlay process of `x` sends a packet to. -/
def overlaySendpkt (t : Topology Host) (x nextNodeID : ℤ) : List ℤ :=
  let nt := (t.getNbrArray x).getD []
  if nextNodeID = broadcastNodeID then nt
  else if nextNodeID ∈ nt then [nextNodeID] else []

/-- An SNP packet that has come to `node`. The nodes it has left stand in `hops`, the latest
first, each with its own entry for the destination at that time. -/
structure Packet where
  node : ℤ
  destNodeID : ℤ
  hops : List (ℤ × UInt32)
  deriving DecidableEq

/-- A route update stays in flight when it is taken, so that it can be lost, repeated and
overtaken. -/
structure Sys where
  node : ℤ → Node
  /-- The entries of its own row that the daemon of a node has copied for its next broadcast. -/
  copied : ℤ → ℕ → Option DvEntry
  /-- The route updates, with the node that each is sent to. -/
  updates : List (ℤ × RouteUpdate)
  packets : List Packet
  /-- The packets forwarded to the transport layer, or dropped for want of a next hop. -/
  ended : List Packet

inductive Action
  /-- `routeupdate_daemon` copies an entry. Taking them in any order covers a daemon that runs
  while `pkthandler` is between two entries. -/
  | copyEntry (x : ℤ) (i : ℕ)
  | broadcast (x : ℤ)
  /-- `pkthandler` takes a route update. -/
  | routeUpdate (i : ℕ)
  /-- `waitTransport` takes a segment. -/
  | send (x destNodeID : ℤ)
  /-- `pkthandler` takes an SNP packet. -/
  | forward (i : ℕ)

namespace Sys

/-- The own entry of `x` for `y`. -/
def entry (s : Sys) (x y : ℤ) : UInt32 := dvtableGetcost x y (s.node x).dv

/-- The packet of the daemon, once its entries are copied. -/
def gather (copied : ℕ → Option DvEntry) : ℕ → Option (List DvEntry)
  | 0 => some []
  | n + 1 => (gather copied n).bind fun es => (copied n).map fun e => es ++ [e]

def copyEntry (s : Sys) (x : ℤ) (i : ℕ) : Option Sys :=
  (getRouteUpdateData (s.node x).dv x).bind fun routeUpdateDV =>
    (routeUpdateDV.dvEntry[i]?).map fun e =>
      { s with copied := Function.update s.copied x (Function.update (s.copied x) i (some e)) }

def broadcast (t : Topology Host) (s : Sys) (x : ℤ) : Option Sys :=
  (getRouteUpdateData (s.node x).dv x).bind fun routeUpdateDV =>
    (gather (s.copied x) routeUpdateDV.dvEntry.length).map fun es =>
      { s with
        copied := Function.update s.copied x fun _ => none
        updates := s.updates ++ (overlaySendpkt t x broadcastNodeID).map fun w => (w, ⟨x, es⟩) }

def routeUpdate (t : Topology Host) (s : Sys) (i : ℕ) : Option Sys :=
  (s.updates[i]?).bind fun (x, packet) =>
    ((s.node x).pkthandler packet).map fun r =>
      { s with
        node := Function.update s.node x r.1
        updates := s.updates ++ r.2.flatMap fun u =>
          (overlaySendpkt t x broadcastNodeID).map fun w => (w, u) }

/-- The lookup of the next hop, and the packet sent there. -/
def sendOn (t : Topology Host) (s : Sys) (p : Packet) : Option Sys :=
  ((s.node p.node).routingtable.getnextnode p.destNodeID).map fun nextNode =>
    match overlaySendpkt t p.node nextNode with
    | [] => { s with ended := s.ended ++ [p] }
    | nbrs =>
      { s with
        packets := s.packets ++ nbrs.map fun w =>
          { p with node := w, hops := (p.node, s.entry p.node p.destNodeID) :: p.hops } }

def forward (t : Topology Host) (s : Sys) (i : ℕ) : Option Sys :=
  (s.packets[i]?).bind fun p =>
    let s := { s with packets := s.packets.eraseIdx i }
    if p.destNodeID = p.node then some { s with ended := s.ended ++ [p] } else s.sendOn t p

def step (t : Topology Host) (s : Sys) : Action → Option Sys
  | .copyEntry x i => if x ∈ t.nodeIDs then s.copyEntry x i else none
  | .broadcast x => if x ∈ t.nodeIDs then s.broadcast t x else none
  | .routeUpdate i => s.routeUpdate t i
  | .send x destNodeID => if x ∈ t.nodeIDs then s.sendOn t ⟨x, destNodeID, []⟩ else none
  | .forward i => s.forward t i

/-- Every node has set up its tables from the same file, and nothing is on its way. -/
structure Init (t : Topology Host) (s : Sys) : Prop where
  node : ∀ x ∈ t.nodeIDs, Node.create t x = some (s.node x)
  copied : s.copied = fun _ _ => none
  updates : s.updates = []
  packets : s.packets = []
  ended : s.ended = []

/-- An initial state, if the tables of all nodes can be set up. -/
def start (t : Topology Host) : Sys where
  node x := (Node.create t x).getD ⟨x, [], [], ⟨fun _ => []⟩⟩
  copied _ _ := none
  updates := []
  packets := []
  ended := []

end Sys

def machine (t : Topology Host) : Machine Sys Action := ⟨Sys.Init t, Sys.step t⟩

theorem start_init {t : Topology Host} (h : ∀ x ∈ t.nodeIDs, (Node.create t x).isSome = true) :
    (machine t).Init (Sys.start t) where
  node x hx := by
    obtain ⟨node, hnode⟩ := Option.isSome_iff_exists.mp (h x hx)
    simp [Sys.start, hnode]
  copied := rfl
  updates := rfl
  packets := rfl
  ended := rfl

end DartNet.Network
