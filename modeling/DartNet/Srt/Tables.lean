import DartNet.Foundation.Slots
import DartNet.Foundation.Transition
import DartNet.Srt.Calls
import DartNet.Srt.Server

/-! The TCB tables of `client/srt_client.c` and `server/srt_server.c`, and the lookup of
`seghandler`, which stops at the first control block with the segment's destination port. -/
namespace DartNet.Tables
open Slots Transition

abbrev maxTransportConnections : ℕ := 10

instance : @NeZero ℕ Zero.ofOfNat0 maxTransportConnections := ⟨by decide⟩

/-- What `snp_recvseg` hands over. -/
structure Incoming where
  srcNodeID : UInt32
  seg : Seg

def segTypeStrings : List String := ["SYN", "SYNACK", "FIN", "FINACK", "DATA", "DATAACK"]

/-- The text of the type is printed before the state is looked at; a read behind the texts is
undefined. -/
def Incoming.segTypeString (m : Incoming) : Option String :=
  segTypeStrings[m.seg.header.type.toNat]?

def serverHandler : Handler Server.Socket UInt32 Incoming Server.Action Seg where
  key s := s.tcb.svrPortNum
  dest m := m.seg.header.destPort
  handle s m := m.segTypeString.bind fun _ => s.receive m.srcNodeID m.seg
  act s a := (s.step a).map fun t => (t, [])

def clientHandler : Handler Client.Socket UInt32 Incoming Client.Action Seg where
  key s := s.tcb.clientPortNum
  dest m := m.seg.header.destPort
  handle s m := m.segTypeString.bind fun _ => (s.receive m.srcNodeID m.seg).map fun t => (t, [])
  act s a := s.step a

theorem segTypeString_isSome (m : Incoming) :
    m.segTypeString.isSome ↔ m.seg.header.type ≤ SegType.dataack := by
  have hlen : segTypeStrings.length = 6 := rfl
  have htype : SegType.dataack.toNat = 5 := rfl
  rw [UInt16.le_iff_toNat_le, htype, Incoming.segTypeString]
  simp only [Option.isSome_iff_ne_none, ne_eq, List.getElem?_eq_none_iff, hlen]
  omega

/-- A segment that is handled has a type with a text. -/
theorem receive_of_serverHandler {s : Server.Socket} {m : Incoming}
    {r : Server.Socket × List Seg} (h : serverHandler.handle s m = some r) :
    s.receive m.srcNodeID m.seg = some r := by
  obtain ⟨_, _, h⟩ := Option.bind_eq_some_iff.mp h
  exact h

theorem receive_of_clientHandler {s : Client.Socket} {m : Incoming}
    {r : Client.Socket × List Seg} (h : clientHandler.handle s m = some r) :
    s.receive m.srcNodeID m.seg = some r.1 ∧ r.2 = [] := by
  obtain ⟨_, _, h⟩ := Option.bind_eq_some_iff.mp h
  obtain ⟨t, ht, rfl⟩ := Option.map_eq_some_iff.mp h
  exact ⟨ht, rfl⟩

theorem serverHandler_keepsKey : serverHandler.KeepsKey where
  handle s m r h := by
    obtain ⟨q, hq, hr, _⟩ := Server.receive_handles (receive_of_serverHandler h)
    show r.1.tcb.svrPortNum = s.tcb.svrPortNum
    rw [hr]
    cases hq <;> rfl
  act s a r h := by
    obtain ⟨t, ht, rfl⟩ := Option.map_eq_some_iff.mp h
    cases Server.steps_of_step ht <;> rfl

/-- The port and the peer of a client socket, which only a connect from `CLOSED` changes. -/
theorem client_step_ports {s : Client.Socket} {a : Client.Action} {r : Client.Socket × List Seg}
    (h : s.step a = some r) : r.1.tcb.clientPortNum = s.tcb.clientPortNum ∧
      (s.tcb.state ≠ .closed →
        r.1.tcb.svrPortNum = s.tcb.svrPortNum ∧ r.1.tcb.svrNodeID = s.tcb.svrNodeID) := by
  have hsent : ∀ {s' : Client.Socket} {q : Client.ClientTcb × List Client.SegBuf},
      Client.SendsFrom s'.tcb q.1 q.2 → s'.tcb = s.tcb →
      (s'.sentNodes q).1.tcb.clientPortNum = s.tcb.clientPortNum ∧ (s.tcb.state ≠ .closed →
        (s'.sentNodes q).1.tcb.svrPortNum = s.tcb.svrPortNum ∧
          (s'.sentNodes q).1.tcb.svrNodeID = s.tcb.svrNodeID) := by
    intro s' q hq hs
    obtain ⟨mutex, buf, ptr, unAck, heq⟩ := hq.same
    simp [Client.Socket.sentNodes, heq, hs]
  cases Client.steps_of_step h with
  | connect _ _ _ _ hst => exact ⟨rfl, fun hne => absurd hst hne⟩
  | sendReturn env q hq => exact hsent (Client.sendMaxSegments_sendsFrom hq) rfl
  | sendMaxSegments env q hq => exact hsent (Client.sendMaxSegments_sendsFrom hq) rfl
  | sendBufTimer env q hq => exact hsent (Client.sendBufTimer_sendsFrom hq) rfl
  | _ => exact ⟨rfl, fun _ => ⟨rfl, rfl⟩⟩

theorem client_receive_ports {s t : Client.Socket} {srcNodeID : UInt32} {seg : Seg}
    (h : s.receive srcNodeID seg = some t) : t.tcb.clientPortNum = s.tcb.clientPortNum ∧
      t.tcb.svrPortNum = s.tcb.svrPortNum ∧ t.tcb.svrNodeID = s.tcb.svrNodeID := by
  obtain ⟨r, hr, rfl⟩ := Client.receive_handles h
  cases hr <;> exact ⟨rfl, rfl, rfl⟩

theorem clientHandler_keepsKey : clientHandler.KeepsKey where
  handle _ _ _ h := (client_receive_ports (receive_of_clientHandler h).1).1
  act _ _ _ h := (client_step_ports h).1

abbrev ClientTable := Table maxTransportConnections Client.Socket

abbrev ServerTable := Table maxTransportConnections Server.Socket

/-- `srt_client_sock` and `srt_client_close`, with all that happens at the sockets between. -/
def clientMachine (nodeID : UInt32) :
    Machine ClientTable (Op maxTransportConnections UInt32 Incoming Client.Action) :=
  clientHandler.machine (Client.Socket.fresh nodeID) fun s =>
    s.call = .idle ∧ s.tcb.state = .closed

/-- `srt_server_sock` and `srt_server_close` -/
def serverMachine (nodeID : UInt32) :
    Machine ServerTable (Op maxTransportConnections UInt32 Incoming Server.Action) :=
  serverHandler.machine (Server.Socket.fresh nodeID) fun s =>
    s.call = .idle ∧ s.tcb.state = .closed

/-- The connection of slot `i` is the one the segment belongs to. -/
def ClientMatches (T : ClientTable) (m : Incoming) (i : Fin maxTransportConnections) : Prop :=
  ∃ s ∈ T i, s.tcb.clientPortNum = m.seg.header.destPort ∧ s.tcb.fromServer m.srcNodeID m.seg

/-- A connection with the client that sent the segment. -/
def BoundTo (m : Incoming) (s : Server.Socket) : Prop :=
  (s.tcb.state = .connected ∨ s.tcb.state = .closewait) ∧ s.tcb.fromClient m.srcNodeID m.seg

/-- The segment belongs to the connection of slot `i`, or opens one there. -/
def ServerMatches (T : ServerTable) (m : Incoming) (i : Fin maxTransportConnections) : Prop :=
  ∃ s ∈ T i, s.tcb.svrPortNum = m.seg.header.destPort ∧
    (BoundTo m s ∨ (s.tcb.state = .listening ∧ m.seg.header.type = SegType.syn ∧
      ∀ j ≠ i, ∀ t ∈ T j, ¬ BoundTo m t))

theorem ClientMatches.key {T : ClientTable} {m : Incoming} {i : Fin maxTransportConnections}
    (h : ClientMatches T m i) : ∃ s, T i = some s ∧ clientHandler.key s = clientHandler.dest m := by
  obtain ⟨s, hs, hport, _⟩ := h
  exact ⟨s, hs, hport⟩

theorem ServerMatches.key {T : ServerTable} {m : Incoming} {i : Fin maxTransportConnections}
    (h : ServerMatches T m i) : ∃ s, T i = some s ∧ serverHandler.key s = serverHandler.dest m := by
  obtain ⟨s, hs, hport, _⟩ := h
  exact ⟨s, hs, hport⟩

/-- A lookup finds a matching control block exactly when one has no other control block with its
port in front of it. That is so for every segment if each socket is for a port no other has. -/
theorem matching_reached (nodeID : UInt32) (m : Incoming) :
    ((∀ T, clientHandler.Reaches T m (ClientMatches T m) ↔
        clientHandler.Unhidden T m (ClientMatches T m)) ∧
      ∀ T, (clientMachine nodeID).Reachable clientHandler.Unused T →
        clientHandler.Reaches T m (ClientMatches T m)) ∧
    (∀ T, serverHandler.Reaches T m (ServerMatches T m) ↔
        serverHandler.Unhidden T m (ServerMatches T m)) ∧
      ∀ T, (serverMachine nodeID).Reachable serverHandler.Unused T →
        serverHandler.Reaches T m (ServerMatches T m) := by
  have hclient : ∀ T, clientHandler.Reaches T m (ClientMatches T m) ↔
      clientHandler.Unhidden T m (ClientMatches T m) :=
    fun T => Handler.reaches_iff_unhidden fun _ h => h.key
  have hserver : ∀ T, serverHandler.Reaches T m (ServerMatches T m) ↔
      serverHandler.Unhidden T m (ServerMatches T m) :=
    fun T => Handler.reaches_iff_unhidden fun _ h => h.key
  refine ⟨⟨hclient, ?_⟩, hserver, ?_⟩
  · intro T h
    have hdistinct := Handler.reachable_distinct clientHandler_keepsKey (fun _ => rfl) h
    exact (hclient T).mpr (hdistinct.unhidden fun _ h => h.key)
  · intro T h
    have hdistinct := Handler.reachable_distinct serverHandler_keepsKey (fun _ => rfl) h
    exact (hserver T).mpr (hdistinct.unhidden fun _ h => h.key)

instance (T : ClientTable) (m : Incoming) : DecidablePred (ClientMatches T m) := fun i => by
  unfold ClientMatches
  infer_instance

instance (m : Incoming) (s : Server.Socket) : Decidable (BoundTo m s) :=
  inferInstanceAs (Decidable (_ ∧ _))

instance (T : ServerTable) (m : Incoming) : DecidablePred (ServerMatches T m) := fun i => by
  unfold ServerMatches
  infer_instance

/-- The `SYNACK` that node `src` sends from port 80 to port 4000 -/
def synackFrom (src : UInt32) : Incoming := ⟨src, controlSeg 80 4000 SegType.synack 0⟩

/-- The `SYN` that node `src` sends from port 4000 to port 81 -/
def synFrom (src : UInt32) : Incoming := ⟨src, controlSeg 4000 81 SegType.syn 0⟩

/-- A client and a server whose second socket has the connection. -/
theorem matching_reached_second :
    (∃ T : ClientTable, (clientMachine 1).run clientHandler.Unused (fun _ => none)
        [.sock 5000, .sock 4000, .event (.act 1 (.connect 2 80 true))] = some T ∧
      ClientMatches T (synackFrom 2) 1 ∧
      clientHandler.Reaches T (synackFrom 2) (ClientMatches T (synackFrom 2))) ∧
    ∃ T : ServerTable, (serverMachine 2).run serverHandler.Unused (fun _ => none)
        [.sock 80, .sock 81, .event (.act 1 .accept), .event (.message (synFrom 1))] = some T ∧
      ServerMatches T (synFrom 1) 1 ∧
      serverHandler.Reaches T (synFrom 1) (ServerMatches T (synFrom 1)) := by
  constructor
  · obtain ⟨T, hrun, hT, hmatches⟩ := (clientMachine 1).exists_of_run clientHandler.Unused rfl
      [.sock 5000, .sock 4000, .event (.act 1 (.connect 2 80 true))]
      (P := fun T => ClientMatches T (synackFrom 2) 1) (by decide +kernel)
    exact ⟨T, hrun, hmatches, (matching_reached 1 (synackFrom 2)).1.2 T hT⟩
  · obtain ⟨T, hrun, hT, hmatches⟩ := (serverMachine 2).exists_of_run serverHandler.Unused rfl
      [.sock 80, .sock 81, .event (.act 1 .accept), .event (.message (synFrom 1))]
      (P := fun T => ServerMatches T (synFrom 1) 1) (by decide +kernel)
    exact ⟨T, hrun, hmatches, (matching_reached 2 (synFrom 1)).2.2 T hT⟩

/-- Two sockets for port 4000, connected to port 80 of node 2 and of node 3. -/
def samePort : List (Op maxTransportConnections UInt32 Incoming Client.Action) :=
  [.sock 4000, .sock 4000, .event (.act 0 (.connect 2 80 true)),
    .event (.act 1 (.connect 3 80 true))]

/-- The `SYNACK` of node 3 goes to the first of the two. -/
theorem second_socket_hidden : ∃ T : ClientTable,
    (clientMachine 1).run (fun _ _ => True) (fun _ => none) samePort = some T ∧
    (clientMachine 1).Reachable (fun _ _ => True) T ∧
    ¬ clientHandler.Reaches T (synackFrom 3) (ClientMatches T (synackFrom 3)) :=
  (clientMachine 1).exists_of_run _ rfl _ (by decide +kernel)

end DartNet.Tables
