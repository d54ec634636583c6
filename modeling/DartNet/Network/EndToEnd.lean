import DartNet.Network.RouteUpdates
import DartNet.Network.Routes
import DartNet.Overlay.Traffic

/-! A segment through the whole system: the connections that the start of the overlay made, the
routing tables that the SNP processes have come to, and the framings on the way. -/
open DartNet.Overlay
namespace DartNet.Relay
open Framing Network Transition
variable {Host : Type} {t : Topology Host} {ip : ℤ → UInt32} {room : ℕ}

/-- The tables and the connections of all nodes at one time. -/
def overlayOf (s : Sys) (u : Startup) : Relay.Overlay where
  routingtable x := (s.node x).routingtable
  conn x y := connfd y (u.nt x)

/-- Once every process has joined `waitNbrs`, each has an open connection to each neighbour. -/
theorem connfd_nonneg {u : Startup} (h : LinksInv t ip u)
    (hup : ∀ x ∈ t.nodeIDs, u.waitThread x = .exited) {x y : ℤ} {c : ℕ} (hlink : t.link x y c)
    (hxy : x ≠ y) : 0 ≤ connfd y (u.nt x) := by
  have hx := Topology.link_mem hlink
  have hy := Topology.link_mem (Topology.link_symm hlink)
  have hopen : ∀ e ∈ u.nt x, e.nodeID = y → (∃ en, u.net.fd (ip x) e.conn = some en) →
      0 ≤ connfd y (u.nt x) := by
    rintro e he hid ⟨en, hen⟩
    rw [connfd_eq (h.table x hx).nodup he hid]
    exact (h.good.held _ _ _ hen).1
  rcases Int.lt_or_gt_of_ne hxy with hlt | hlt
  · obtain ⟨_, _, _, ex, hex, hid, _, _, _, hfd⟩ :=
      h.joined_of_exited (Topology.link_symm hlink) hlt (hup x hx)
    exact hopen ex hex hid ⟨_, hfd⟩
  · obtain ⟨ex, hex, hid, _, _, _, _, _, hfd, _⟩ := h.joined_of_exited hlink hlt (hup y hy)
    exact hopen ex hex hid ⟨_, hfd⟩

/-- A way along the next hops is a route over open connections. -/
theorem route_of_way (ht : t.WellFormed) {net : Relay.Overlay} {dest : ℤ}
    (hconn : ∀ x y c, t.link x y c → 0 ≤ net.conn x y) {n v : ℕ} {x : ℤ}
    (h : ShortestPath.Way t.link (fun z => (net.routingtable z).getnextnode dest) dest n v x)
    (hx : x ≠ dest) : Route net dest n x := by
  induction h with
  | arrived => exact absurd rfl hx
  | @hop x w c n v hxy hnext hlink hway ih =>
    by_cases hw : w = dest
    · subst hw
      cases hway with
      | arrived => exact .last hnext (hconn x w c hlink)
      | hop hne => exact absurd rfl hne
    · exact .hop hnext hw
        (isNodeID_of_mem ht (Topology.link_mem (Topology.link_symm hlink)))
        (hconn x w c hlink) (ih hw)

/-- All links of the triangle. -/
def triangleUp : List StartupAction :=
  [.waitNbrs 2 0, .waitNbrs 3 0, .waitNbrs 4 0, .connectNbrs 3 0, .connectNbrs 4 0,
    .connectNbrs 3 7, .connectNbrs 4 5, .connectNbrs 4 6, .waitNbrs 2 4, .waitNbrs 2 5,
    .waitNbrs 3 8, .waitNbrs 2 0, .waitNbrs 3 0]

end DartNet.Relay
