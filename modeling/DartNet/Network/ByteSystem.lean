import DartNet.Network.Convergence
import DartNet.Network.RouteUpdates

/-! The SNP processes with route updates as the bytes that go through the ON processes. Seen
through what the receivers read, they are the processes that exchange the updates themselves. -/
namespace DartNet.Network
open Function Packed Relay Transition
variable {Host : Type} {t : Topology Host}

/-- The route updates in flight are the packets that `overlay_recvpkt` is going to return. -/
structure ByteSys where
  node : ℤ → Node
  copied : ℤ → ℕ → Option DvEntry
  updates : List (ℤ × SnpPkt)

/-- A step of the daemon or of `pkthandler`, with what the stacks of the sender and of the
receivers hold. -/
inductive ByteAction
  | copyEntry (x : ℤ) (i : ℕ)
  | broadcast (x : ℤ) (entries : EntryStack) (stack : ℤ → HopStack)
  | routeUpdate (i : ℕ) (entries : ℕ → EntryStack) (stack : ℕ → ℤ → HopStack)

namespace ByteSys

/-- The packets that the neighbours of `x` receive, over the connections `conn`. -/
def sendAll (t : Topology Host) (conn : ℤ → ℤ → ℤ) (x : ℤ) (stack : ℤ → HopStack)
    (packet : SnpPkt) : List (ℤ × SnpPkt) :=
  (overlaySendpkt t x broadcastNodeID).filterMap fun w =>
    (passUpdate (stack w) (conn x w) packet).map fun p => (w, p)

def copyEntry (s : ByteSys) (x : ℤ) (i : ℕ) : Option ByteSys :=
  (getRouteUpdateData (s.node x).dv x).bind fun routeUpdateDV =>
    (routeUpdateDV.dvEntry[i]?).map fun e =>
      { s with copied := update s.copied x (update (s.copied x) i (some e)) }

def broadcast (t : Topology Host) (conn : ℤ → ℤ → ℤ) (s : ByteSys) (x : ℤ) (entries : EntryStack)
    (stack : ℤ → HopStack) : Option ByteSys :=
  (getRouteUpdateData (s.node x).dv x).bind fun routeUpdateDV =>
    (Sys.gather (s.copied x) routeUpdateDV.dvEntry.length).map fun es =>
      { s with
        copied := update s.copied x fun _ => none
        updates := s.updates ++ sendAll t conn x stack (routeUpdatePacket x es entries) }

/-- The packets broadcast in a turn of `pkthandler`, the first of them number `k`. -/
def passedOn (t : Topology Host) (conn : ℤ → ℤ → ℤ) (x : ℤ) (entries : ℕ → EntryStack)
    (stack : ℕ → ℤ → HopStack) : ℕ → List Passed → List (ℤ × SnpPkt)
  | k, .toNbrs u :: rest =>
    sendAll t conn x (stack k) (routeUpdatePacket u.srcNodeID u.entry (entries k)) ++
      passedOn t conn x entries stack (k + 1) rest
  | k, _ :: rest => passedOn t conn x entries stack (k + 1) rest
  | _, [] => []

def routeUpdate (t : Topology Host) (conn : ℤ → ℤ → ℤ) (s : ByteSys) (i : ℕ)
    (entries : ℕ → EntryStack) (stack : ℕ → ℤ → HopStack) : Option ByteSys :=
  (s.updates[i]?).bind fun (x, packet) =>
    ((s.node x).turn packet).map fun r =>
      { s with
        node := update s.node x r.1
        updates := s.updates ++ passedOn t conn x entries stack 0 r.2 }

def step (t : Topology Host) (conn : ℤ → ℤ → ℤ) (s : ByteSys) : ByteAction → Option ByteSys
  | .copyEntry x i => if x ∈ t.nodeIDs then s.copyEntry x i else none
  | .broadcast x entries stack =>
    if x ∈ t.nodeIDs then s.broadcast t conn x entries stack else none
  | .routeUpdate i entries stack => s.routeUpdate t conn i entries stack

structure Init (t : Topology Host) (s : ByteSys) : Prop where
  node : ∀ x ∈ t.nodeIDs, Node.create t x = some (s.node x)
  copied : s.copied = fun _ _ => none
  updates : s.updates = []

def start (t : Topology Host) : ByteSys := ⟨(Sys.start t).node, fun _ _ => none, []⟩

end ByteSys

def byteMachine (t : Topology Host) (conn : ℤ → ℤ → ℤ) : Machine ByteSys ByteAction :=
  ⟨ByteSys.Init t, ByteSys.step t conn⟩

theorem byte_start_init {conn : ℤ → ℤ → ℤ}
    (h : ∀ x ∈ t.nodeIDs, (Node.create t x).isSome = true) :
    (byteMachine t conn).Init (ByteSys.start t) :=
  ⟨(start_init h).node, rfl, rfl⟩

/-- The same tables, and packets that tell the updates. -/
structure Mirrors (b : ByteSys) (s : Sys) : Prop where
  node : b.node = s.node
  copied : b.copied = s.copied
  updates : List.Forall₂ (fun p u => p.1 = u.1 ∧ Tells u.2.srcNodeID u.2.entry p.2) b.updates
    s.updates

section Sending

/-- Entries with costs that the sender has had can be sent. -/
theorem FromPast.sendable (ht : t.WellFormed) {past : ℤ → Set ℕ} {es : List DvEntry}
    (hes : FromPast t past es) (hcap : ∀ y, ∀ v ∈ past y, v ≤ infiniteCost.toNat) {x : ℤ}
    (hx : x ∈ t.nodeIDs) : Sendable x es where
  source := isNodeID_of_mem ht hx
  length := by
    have hlen := congrArg List.length hes.1
    rw [List.length_map] at hlen
    exact hlen ▸ ht.nodes.le
  nodeID e he := isNodeID_of_mem ht (hes.1 ▸ List.mem_map_of_mem he)
  cost e he := UInt32.le_iff_toNat_le.mpr (hcap e.nodeID _ (hes.2 e he))

/-- Each neighbour receives the update. -/
theorem sendAll_mirrors (ht : t.WellFormed) {conn : ℤ → ℤ → ℤ}
    (hconn : ∀ x y c, t.link x y c → 0 ≤ conn x y) {x : ℤ} {es : List DvEntry}
    (hes : Sendable x es) (stack : ℤ → HopStack) (entries : EntryStack) :
    List.Forall₂ (fun (p : ℤ × SnpPkt) (u : ℤ × RouteUpdate) =>
        p.1 = u.1 ∧ Tells u.2.srcNodeID u.2.entry p.2)
      (ByteSys.sendAll t conn x stack (routeUpdatePacket x es entries))
      ((overlaySendpkt t x broadcastNodeID).map fun w => (w, ⟨x, es⟩)) := by
  have hnbrs : ∀ w ∈ overlaySendpkt t x broadcastNodeID, ∃ c, t.link x w c :=
    fun w hw => mem_overlaySendpkt ht hw
  unfold ByteSys.sendAll
  generalize overlaySendpkt t x broadcastNodeID = nbrs at hnbrs
  induction nbrs with
  | nil => exact .nil
  | cons w nbrs ih =>
    obtain ⟨⟨c, hlink⟩, hnbrs⟩ := List.forall_mem_cons.mp hnbrs
    obtain ⟨p, hp, htells⟩ := (routeUpdatePacket_tells hes.length x entries).pass hes (stack w)
      (hconn x w c hlink)
    rw [List.filterMap_cons, hp]
    exact .cons ⟨rfl, htells⟩ (ih hnbrs)

theorem passedOn_mirrors (ht : t.WellFormed) {conn : ℤ → ℤ → ℤ}
    (hconn : ∀ x y c, t.link x y c → 0 ≤ conn x y) {x : ℤ} {us : List RouteUpdate}
    (hus : ∀ u ∈ us, u.srcNodeID = x ∧ Sendable x u.entry) (entries : ℕ → EntryStack)
    (stack : ℕ → ℤ → HopStack) (k : ℕ) :
    List.Forall₂ (fun (p : ℤ × SnpPkt) (u : ℤ × RouteUpdate) =>
        p.1 = u.1 ∧ Tells u.2.srcNodeID u.2.entry p.2)
      (ByteSys.passedOn t conn x entries stack k (us.map .toNbrs))
      (us.flatMap fun u => (overlaySendpkt t x broadcastNodeID).map fun w => (w, u)) := by
  induction us generalizing k with
  | nil => exact .nil
  | cons u us ih =>
    obtain ⟨⟨hsrc, hes⟩, hus⟩ := List.forall_mem_cons.mp hus
    rw [List.map_cons, ByteSys.passedOn, List.flatMap_cons]
    apply List.rel_append
    · have hmirrors := sendAll_mirrors ht hconn hes (stack k) (entries k)
      rw [hsrc]
      rw [show u = ⟨x, u.entry⟩ from hsrc ▸ rfl]
      exact hmirrors
    · exact ih hus (k + 1)

end Sending

section Steps
variable {T : DistanceVector.Tables ℤ} {b b' : ByteSys} {s : Sys}

theorem Mirrors.exists_update (h : Mirrors b s) {i : ℕ} {x : ℤ} {packet : SnpPkt}
    (hi : b.updates[i]? = some (x, packet)) :
    ∃ u, s.updates[i]? = some (x, u) ∧ Tells u.srcNodeID u.entry packet := by
  obtain ⟨⟨w, u⟩, hu, rfl, htells⟩ := forall₂_getElem? h.updates hi
  exact ⟨u, hu, htells⟩

theorem Mirrors.copyEntry (h : Mirrors b s) {x : ℤ} {i : ℕ} (hs : b.copyEntry x i = some b') :
    ∃ s', s.copyEntry x i = some s' ∧ Mirrors b' s' := by
  obtain ⟨row, hrow, hs⟩ := Option.bind_eq_some_iff.mp hs
  obtain ⟨e, he, rfl⟩ := Option.map_eq_some_iff.mp hs
  rw [h.node] at hrow
  have hgo : s.copyEntry x i =
      some { s with copied := update s.copied x (update (s.copied x) i (some e)) } := by
    rw [Sys.copyEntry, hrow, Option.bind_some, he, Option.map_some]
  exact ⟨_, hgo, h.node, by rw [h.copied], h.updates⟩

variable (ht : t.WellFormed) {conn : ℤ → ℤ → ℤ} (hconn : ∀ x y c, t.link x y c → 0 ≤ conn x y)
include ht hconn

theorem Mirrors.broadcast (hT : Represents t s T) (h : Mirrors b s) {x : ℤ} (hx : x ∈ t.nodeIDs)
    {entries : EntryStack} {stack : ℤ → HopStack}
    (hs : b.broadcast t conn x entries stack = some b') :
    ∃ s', s.broadcast t x = some s' ∧ Mirrors b' s' := by
  obtain ⟨row, hrow, hs⟩ := Option.bind_eq_some_iff.mp hs
  obtain ⟨es, hes, rfl⟩ := Option.map_eq_some_iff.mp hs
  rw [h.node] at hrow
  rw [h.copied] at hes
  have hlen : row.dvEntry.length = t.nodeIDs.length := by
    rw [← (hT.ok x hx).complete.row hrow, List.length_map]
  have hsendable := (hT.fromPast_gather hx (hlen ▸ hes)).sendable ht (hT.inv.le_cap x) hx
  have hgo : s.broadcast t x = some { s with
      copied := update s.copied x fun _ => none
      updates := s.updates ++ (overlaySendpkt t x broadcastNodeID).map fun w => (w, ⟨x, es⟩) } := by
    rw [Sys.broadcast, hrow, Option.bind_some, hes, Option.map_some]
  exact ⟨_, hgo, h.node, by rw [h.copied],
    List.rel_append h.updates (sendAll_mirrors ht hconn hsendable stack entries)⟩

theorem Mirrors.routeUpdate (hT : Represents t s T) (h : Mirrors b s) {i : ℕ}
    {entries : ℕ → EntryStack} {stack : ℕ → ℤ → HopStack}
    (hs : b.routeUpdate t conn i entries stack = some b') :
    ∃ s', s.routeUpdate t i = some s' ∧ Mirrors b' s' := by
  obtain ⟨⟨x, packet⟩, hpacket, hs⟩ := Option.bind_eq_some_iff.mp hs
  obtain ⟨r', hr', rfl⟩ := Option.map_eq_some_iff.mp hs
  obtain ⟨u, hu, htells⟩ := h.exists_update hpacket
  obtain ⟨⟨c, hlink⟩, hpast⟩ := hT.updates _ (List.mem_of_getElem? hu)
  dsimp only at hr' hlink hpast
  have hx := Topology.link_mem hlink
  have hw := Topology.link_mem (Topology.link_symm hlink)
  have hsendable := hpast.sendable ht (hT.inv.le_cap u.srcNodeID) hw
  have hlen : u.entry.length = t.nodeIDs.length := by rw [← hpast.1, List.length_map]
  rw [h.node, htells.turn hsendable (hT.ok x hx).complete hlen] at hr'
  obtain ⟨r, hr, rfl⟩ := Option.map_eq_some_iff.mp hr'
  replace hr : (s.node x).pkthandler u = some r := hr
  have hears := hT.hears ht hlink hpast hr
  have hinv := hT.inv.hear (fun x w c k hc hk => Topology.link_unique ht hc hk) hlink
    (hT.heard_mem hpast)
  have hout : ∀ u ∈ r.2, u.srcNodeID = x ∧ Sendable x u.entry := by
    intro u hu
    obtain ⟨hsrc, hpast⟩ := hT.told hx hears hinv hu
    exact ⟨hsrc, hpast.sendable ht (hinv.le_cap x) hx⟩
  have hgo : s.routeUpdate t i = some { s with
      node := update s.node x r.1
      updates := s.updates ++
        r.2.flatMap fun u => (overlaySendpkt t x broadcastNodeID).map fun w => (w, u) } := by
    simp only [Sys.routeUpdate, hu, Option.bind_some, hr, Option.map_some]
  exact ⟨_, hgo, by rw [h.node], h.copied,
    List.rel_append h.updates (passedOn_mirrors ht hconn hout entries stack 0)⟩

/-- Each step on bytes is a step of the processes that exchange the updates themselves. -/
theorem step_mirrors (hT : Represents t s T) (h : Mirrors b s) {a : ByteAction}
    (hs : (byteMachine t conn).step b a = some b') :
    ∃ a' s', (machine t).step s a' = some s' ∧ Mirrors b' s' := by
  cases a with
  | copyEntry x i =>
    obtain ⟨hx, hs⟩ := Option.ite_none_right_eq_some.mp hs
    obtain ⟨s', hs', h'⟩ := h.copyEntry hs
    exact ⟨.copyEntry x i, s', (if_pos hx).trans hs', h'⟩
  | broadcast x entries stack =>
    obtain ⟨hx, hs⟩ := Option.ite_none_right_eq_some.mp hs
    obtain ⟨s', hs', h'⟩ := h.broadcast ht hconn hT hx hs
    exact ⟨.broadcast x, s', (if_pos hx).trans hs', h'⟩
  | routeUpdate i entries stack =>
    obtain ⟨s', hs', h'⟩ := h.routeUpdate ht hconn hT hs
    exact ⟨.routeUpdate i, s', hs', h'⟩

end Steps

/-- Node 3 of the triangle broadcasts its row. -/
def byteSettle : List ByteAction :=
  [.copyEntry 3 0, .copyEntry 3 1, .copyEntry 3 2,
    .broadcast 3 (List.Vector.replicate _ 7) fun _ => .filled 7]

end DartNet.Network
