import DartNet.Srt.Tables

/-! What the segments of others do to an open connection. Both handlers check the peer in every
branch, so nothing, unless the handling of such a segment never comes to its end: then it holds
up the segments of all sockets. -/
namespace DartNet.Tables
open Slots Transition

/-- The segment comes from a port of a node. -/
def fromPeer (port nodeID : UInt32) (m : Incoming) : Prop :=
  port = m.seg.header.srcPort ∧ nodeID = m.srcNodeID

instance (port nodeID : UInt32) : DecidablePred (fromPeer port nodeID) :=
  fun _ => inferInstanceAs (Decidable (_ ∧ _))

/-- The type has a text, and the data of a segment that is taken is within the segment, so that
`memcpy` is defined. -/
def serverReady (s : Server.Socket) (m : Incoming) : Prop :=
  m.seg.header.type ≤ SegType.dataack ∧
    (s.tcb.state = .connected → m.seg.header.type = SegType.data →
      s.tcb.fromClient m.srcNodeID m.seg → s.tcb.takes m.seg →
        m.seg.header.length.toNat ≤ maxSegLen)

/-- The type has a text, and a `sendMaxSegments` that returned early has not left the mutex
locked. -/
def clientReady (s : Client.Socket) (m : Incoming) : Prop :=
  m.seg.header.type ≤ SegType.dataack ∧
    (s.tcb.state = .connected → m.seg.header.type = SegType.dataack →
      s.tcb.fromServer m.srcNodeID m.seg → s.tcb.bufMutex = false)

instance (s : Server.Socket) (m : Incoming) : Decidable (serverReady s m) := by
  unfold serverReady
  infer_instance

instance (s : Client.Socket) (m : Incoming) : Decidable (clientReady s m) := by
  unfold clientReady
  infer_instance

theorem isSome_of_serverReady {s : Server.Socket} {m : Incoming} (h : serverReady s m) :
    (serverHandler.handle s m).isSome := by
  obtain ⟨htype, h⟩ := h
  obtain ⟨text, htext⟩ := Option.isSome_iff_exists.mp ((segTypeString_isSome m).mpr htype)
  show (m.segTypeString.bind fun _ => (Server.seghandler s.tcb m.srcNodeID m.seg).map _).isSome
  rw [htext, Option.bind_some, Option.isSome_map]
  unfold Server.seghandler
  split
  next =>
    split
    next => rfl
    next => split <;> rfl
    next hst =>
      split
      next => rfl
      next =>
        split
        next => rfl
        next =>
          split
          next ht =>
            unfold Server.handleData
            split
            next htakes => simp [h hst ht.1 ht.2 htakes]
            next => rfl
          next => rfl
    next => split <;> rfl
  next => rfl

theorem isSome_of_clientReady {s : Client.Socket} {m : Incoming} (h : clientReady s m) :
    (clientHandler.handle s m).isSome := by
  obtain ⟨htype, h⟩ := h
  obtain ⟨text, htext⟩ := Option.isSome_iff_exists.mp ((segTypeString_isSome m).mpr htype)
  show (m.segTypeString.bind fun _ =>
    ((Client.seghandler s.tcb m.srcNodeID m.seg).map _).map _).isSome
  rw [htext, Option.bind_some, Option.isSome_map, Option.isSome_map]
  unfold Client.seghandler
  split
  next =>
    split
    next => rfl
    next => split <;> rfl
    next hst =>
      split
      next ht => simp [h hst ht.1 ht.2]
      next => rfl
    next => split <;> rfl
  next => rfl

/-- A connection of a server socket with this peer -/
def serverOwn (port nodeID : UInt32) (s : Server.Socket) : Prop :=
  s.tcb.state ≠ .listening ∧ s.tcb.clientPortNum = port ∧ s.tcb.clientNodeID = nodeID

/-- A connection of a client socket, also one it only asked for, with this peer -/
def clientOwn (port nodeID : UInt32) (s : Client.Socket) : Prop :=
  s.tcb.svrPortNum = port ∧ s.tcb.svrNodeID = nodeID

instance (own : Incoming → Prop) [DecidablePred own] (i : Fin maxTransportConnections)
    (T : ClientTable) (es : List (Event maxTransportConnections Incoming Client.Action)) :
    Decidable (clientHandler.Undisturbed own i T es) := inferInstanceAs (Decidable (_ ∧ _))

theorem server_ignores {s : Server.Socket} {m : Incoming} (hst : s.tcb.state ≠ .listening)
    (hpeer : ¬ s.tcb.fromClient m.srcNodeID m.seg) :
    s.receive m.srcNodeID m.seg = some (s, []) := by
  have hseg : Server.seghandler s.tcb m.srcNodeID m.seg = some ⟨s.tcb, none, []⟩ := by
    unfold Server.seghandler
    split
    next =>
      split
      next => rfl
      next h => exact absurd h hst
      next => simp [hpeer]
      next => simp [hpeer]
    next => rfl
  rw [Server.Socket.receive, hseg]
  simp [Server.Socket.handled, hst]

theorem client_ignores {s : Client.Socket} {m : Incoming}
    (hpeer : ¬ s.tcb.fromServer m.srcNodeID m.seg) : s.receive m.srcNodeID m.seg = some s := by
  have hseg : Client.seghandler s.tcb m.srcNodeID m.seg = some (s.tcb, []) := by
    unfold Client.seghandler
    split
    next => split <;> simp [hpeer]
    next => rfl
  rw [Client.Socket.receive, hseg]
  simp

theorem serverHandler_listens (port nodeID : UInt32) :
    serverHandler.Listens (fun s => s.tcb.state ≠ .closed) (serverOwn port nodeID)
      (fromPeer port nodeID) where
  ignores s m r _ hown hother h := by
    obtain ⟨hst, rfl, rfl⟩ := hown
    have hr := (receive_of_serverHandler h).symm.trans (server_ignores hst hother)
    exact Option.some.inj hr
  handle s m r _ hown h := by
    obtain ⟨hst, hpeer⟩ := hown
    obtain ⟨q, hq, hr, _⟩ := Server.receive_handles (receive_of_serverHandler h)
    rw [hr]
    cases hq with
    | listeningSyn hlisten _ _ => exact absurd hlisten hst
    | connectedFin _ _ _ => exact ⟨by simp [Server.Socket.handled], hpeer⟩
    | _ => exact ⟨hst, hpeer⟩
  act s a r hopen hown h := by
    obtain ⟨t, ht, rfl⟩ := Option.map_eq_some_iff.mp h
    obtain ⟨hst, hpeer⟩ := hown
    cases Server.steps_of_step ht with
    | accept _ hclosed => exact absurd hclosed hopen
    | acceptFailed _ _ _ => exact ⟨by simp, hpeer⟩
    | closeWaitTimer _ => exact ⟨by simp, hpeer⟩
    | _ => exact ⟨hst, hpeer⟩

theorem clientHandler_listens (port nodeID : UInt32) :
    clientHandler.Listens (fun s => s.tcb.state ≠ .closed) (clientOwn port nodeID)
      (fromPeer port nodeID) where
  ignores s m r _ hown hother h := by
    obtain ⟨rfl, rfl⟩ := hown
    obtain ⟨hr, hout⟩ := receive_of_clientHandler h
    exact Prod.ext (Option.some.inj (hr.symm.trans (client_ignores hother))) hout
  handle s m r _ hown h := by
    obtain ⟨_, hport, hnode⟩ := client_receive_ports (receive_of_clientHandler h).1
    exact ⟨hport.trans hown.1, hnode.trans hown.2⟩
  act s a r hopen hown h := by
    obtain ⟨_, hpeer⟩ := client_step_ports h
    obtain ⟨hport, hnode⟩ := hpeer hopen
    exact ⟨hport.trans hown.1, hnode.trans hown.2⟩

/-- A segment of one byte from a port of node `src` -/
def segmentFrom (src srcPort destPort : UInt32) (type : UInt16) : Incoming :=
  ⟨src, ⟨⟨srcPort, destPort, 0, 0, 1, type, 0, 0⟩, List.Vector.replicate _ 7⟩⟩

/-- Node 3 tries to close, and to send data over, the connection of node 1 to port 80. -/
def foreignFin : List (Event maxTransportConnections Incoming Server.Action) :=
  [.message (segmentFrom 3 4000 80 SegType.fin), .message (segmentFrom 1 4000 80 SegType.data),
    .message (segmentFrom 3 4000 80 SegType.data), .message (segmentFrom 1 4000 80 SegType.fin)]

/-- Node 3 answers the `SYN` to node 2, and then node 2 does. -/
def foreignSynack : List (Event maxTransportConnections Incoming Client.Action) :=
  [.message (segmentFrom 3 80 4000 SegType.synack),
    .message (segmentFrom 2 80 4000 SegType.synack)]

/-- A socket whose first `DATA` could not be sent, so that its mutex stays locked, and a second
one that connects to node 3 -/
def leftLocked : List (Op maxTransportConnections UInt32 Incoming Client.Action) :=
  [.sock 4000, .event (.act 0 (.connect 2 80 true)),
    .event (.message (segmentFrom 2 80 4000 SegType.synack)), .event (.act 0 .connectReturn),
    .event (.act 0 (.send [7])), .event (.act 0 .queueSegment),
    .event (.act 0 (.sendReturn ⟨fun _ => 0, [0]⟩)), .sock 4001,
    .event (.act 1 (.connect 3 80 true))]

end DartNet.Tables
