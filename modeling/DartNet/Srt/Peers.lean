import DartNet.Srt.Handshake
import DartNet.Srt.Stream

/-! Where the segments of a connection go and come from: each socket knows the other's node and
port, the queued segments carry both ports, and what is on the way is stamped. -/
namespace DartNet.Srt
open Transition

/-- A `DATA` segment of the connection. -/
structure DataTo (clientPort svrPort : UInt32) (q : Seg) : Prop where
  type : q.header.type = SegType.data
  srcPort : q.header.srcPort = clientPort
  destPort : q.header.destPort = svrPort
  length : q.header.length.toNat ≤ maxSegLen

structure Peers (clientNodeID clientPort svrNodeID svrPort : UInt32) (s : Sys) : Prop where
  clientSelf : s.client.tcb.clientNodeID = clientNodeID ∧ s.client.tcb.clientPortNum = clientPort
  serverSelf : s.server.tcb.svrNodeID = svrNodeID ∧ s.server.tcb.svrPortNum = svrPort
  server : s.server.tcb.state = .connected →
    s.server.tcb.clientNodeID = clientNodeID ∧ s.server.tcb.clientPortNum = clientPort
  client : s.client.tcb.state ≠ .closed →
    s.client.tcb.svrNodeID = svrNodeID ∧ s.client.tcb.svrPortNum = svrPort
  queued : ∀ q ∈ s.client.queued, DataTo clientPort svrPort q
  syn : ∀ m ∈ s.toServer, m.seg.header.type = SegType.syn →
    m.nodeID = clientNodeID ∧ m.seg.header.srcPort = clientPort

namespace Peers
variable {clientNodeID clientPort svrNodeID svrPort : UInt32} {s t : Sys}

theorem fresh : Peers clientNodeID clientPort svrNodeID svrPort
    ⟨.fresh clientNodeID clientPort, .fresh svrNodeID svrPort, [], []⟩ where
  clientSelf := ⟨rfl, rfl⟩
  serverSelf := ⟨rfl, rfl⟩
  server h := by simp [Server.Socket.fresh, Server.srtServerSock] at h
  client h := absurd rfl h
  queued := by simp [Client.Socket.fresh]
  syn := by simp

theorem fewer (h : Peers clientNodeID clientPort svrNodeID svrPort s) {toServer toClient : List Msg}
    (h1 : toServer ⊆ s.toServer) : Peers clientNodeID clientPort svrNodeID svrPort
      { s with toServer := toServer, toClient := toClient } :=
  { h with syn := fun m hm => h.syn m (h1 hm) }

/-- A step of the client keeps the server it is connected with. -/
theorem svr_of_step {c : Client.Socket} {a : Client.Action} {r : Client.Socket × List Seg}
    (h : c.step a = some r) (hst : r.1.tcb.state ≠ .closed) :
    (r.1.tcb.svrNodeID = c.tcb.svrNodeID ∧ r.1.tcb.svrPortNum = c.tcb.svrPortNum ∧
      c.tcb.state ≠ .closed) ∨
      ∃ nodeID serverPort sendOk, a = .connect nodeID serverPort sendOk ∧
        r.1.tcb.svrNodeID = nodeID ∧ r.1.tcb.svrPortNum = serverPort := by
  have hsends : ∀ {tcb : Client.ClientTcb} {sent}, Client.SendsFrom c.tcb tcb sent →
      tcb.state ≠ .closed → tcb.svrNodeID = c.tcb.svrNodeID ∧
        tcb.svrPortNum = c.tcb.svrPortNum ∧ c.tcb.state ≠ .closed := by
    intro tcb sent hfrom hst
    obtain ⟨_, _, _, _, rfl⟩ := hfrom.same
    exact ⟨rfl, rfl, hst⟩
  cases Client.steps_of_step h with
  | connect nodeID serverPort sendOk _ _ => exact .inr ⟨_, _, _, rfl, rfl, rfl⟩
  | connectGaveUp _ _ _ _ => exact absurd rfl hst
  | queueSegment _ _ _ _ _ => exact .inl ⟨rfl, rfl, hst⟩
  | sendReturn _ _ hr => exact .inl (hsends (Client.sendMaxSegments_sendsFrom hr) hst)
  | sendMaxSegments _ _ hr => exact .inl (hsends (Client.sendMaxSegments_sendsFrom hr) hst)
  | sendBufTimer _ _ hr => exact .inl (hsends (Client.sendBufTimer_sendsFrom hr) hst)
  | disconnect _ _ hst' _ => exact .inl ⟨rfl, rfl, by simp [hst']⟩
  | disconnectGaveUp _ _ _ _ => exact absurd rfl hst
  | _ => exact .inl ⟨rfl, rfl, hst⟩

/-- What a step of the client queues is a `DATA` segment of the connection. -/
theorem queued_of_step (h : Peers clientNodeID clientPort svrNodeID svrPort s)
    (hcall : Client.CallOk s.client) {a : Client.Action} {r : Client.Socket × List Seg}
    (hr : s.client.step a = some r) : ∀ q ∈ r.1.queued, DataTo clientPort svrPort q := by
  cases Client.steps_of_step hr with
  | queueSegment data num dataRemainder hcall' _ =>
    obtain ⟨hst, hrem⟩ := hcall.send _ _ _ hcall'
    have hle : (if 0 < num then maxSegLen else dataRemainder) ≤ maxSegLen := by split <;> omega
    intro q hq
    rcases List.mem_append.mp hq with hq | hq
    · exact h.queued q hq
    · obtain rfl := List.mem_singleton.mp hq
      exact ⟨rfl, h.clientSelf.2, (h.client (by simp [hst])).2,
        (dataSeg_length s.client.tcb hle data).trans_le hle⟩
  | _ => exact h.queued

theorem clientStep (h : Peers clientNodeID clientPort svrNodeID svrPort s)
    (hcall : Client.CallOk s.client) {a : Client.Action} (hto : connectsTo s.server.tcb a)
    {r : Client.Socket × List Seg} (hr : s.client.step a = some r) :
    Peers clientNodeID clientPort svrNodeID svrPort (s.clientWrites r) := by
  have hmoves := moves_of_step hcall hr
  refine ⟨?_, h.serverSelf, h.server, ?_, h.queued_of_step hcall hr, ?_⟩
  · exact ⟨hmoves.nodeID.trans h.clientSelf.1, hmoves.port.trans h.clientSelf.2⟩
  · intro hst
    obtain ⟨hnode, hport, hst'⟩ | ⟨nodeID, serverPort, sendOk, rfl, hnode, hport⟩ :=
      svr_of_step hr hst
    · exact ⟨hnode.trans (h.client hst').1, hport.trans (h.client hst').2⟩
    · exact ⟨hnode.trans (hto.1.trans h.serverSelf.1), hport.trans (hto.2.trans h.serverSelf.2)⟩
  · intro m hm ht
    rcases List.mem_append.mp hm with hm | hm
    · exact h.syn m hm ht
    · obtain ⟨seg, hseg, rfl⟩ := List.mem_map.mp hm
      refine ⟨hmoves.nodeID.trans h.clientSelf.1, ?_⟩
      cases Client.emitted_of_step hcall hr hseg with
      | syn _ _ _ hport => exact hport.trans (hmoves.port.trans h.clientSelf.2)
      | fin _ ht' => exact absurd (ht'.symm.trans ht) (by decide)
      | data _ ht' => exact absurd (ht'.symm.trans ht) (by decide)

theorem serverStep (h : Peers clientNodeID clientPort svrNodeID svrPort s) {a : Server.Action}
    {v : Server.Socket} (hv : s.server.step a = some v) :
    Peers clientNodeID clientPort svrNodeID svrPort { s with server := v } := by
  obtain ⟨hstate, hport, hnode, _⟩ := server_step hv
  have hself : v.tcb.svrNodeID = s.server.tcb.svrNodeID ∧
      v.tcb.svrPortNum = s.server.tcb.svrPortNum := by
    cases Server.steps_of_step hv <;> exact ⟨rfl, rfl⟩
  refine { h with serverSelf := ?_, server := ?_ }
  · exact ⟨hself.1.trans h.serverSelf.1, hself.2.trans h.serverSelf.2⟩
  · intro hst
    obtain ⟨hnode', hport'⟩ := h.server (hstate.mp hst)
    exact ⟨hnode.trans hnode', hport.trans hport'⟩

theorem serverTakes (h : Peers clientNodeID clientPort svrNodeID svrPort s) {i : ℕ} {dup : Bool}
    {m : Msg} (hm : m ∈ s.toServer) {r : Server.Socket × List Seg}
    (hr : s.server.receive m.nodeID m.seg = some r) :
    Peers clientNodeID clientPort svrNodeID svrPort (s.serverTakes i dup m r) := by
  obtain ⟨v, out⟩ := r
  obtain ⟨r, hhandles, rfl, rfl⟩ := Server.receive_handles hr
  have hrest : ∀ m ∈ rest s.toServer i dup, m ∈ s.toServer := fun _ => mem_of_mem_rest
  cases hhandles with
  | listeningSyn _ _ ht =>
    exact { h with
      server := fun _ => h.syn m hm ht
      syn := fun m hm => h.syn m (hrest m hm) }
  | connectedFin _ _ _ =>
    exact { h with
      server := by simp [Sys.serverTakes, Server.Socket.handled]
      syn := fun m hm => h.syn m (hrest m hm) }
  | _ => exact { h with syn := fun m hm => h.syn m (hrest m hm) }

theorem clientTakes (h : Peers clientNodeID clientPort svrNodeID svrPort s) {i : ℕ} {dup : Bool}
    {m : Msg} {c : Client.Socket} (hc : s.client.receive m.nodeID m.seg = some c) :
    Peers clientNodeID clientPort svrNodeID svrPort
      { s with client := c, toClient := rest s.toClient i dup } := by
  obtain ⟨r, hr, rfl⟩ := Client.receive_handles hc
  cases hr with
  | ignored => exact { h with }
  | synack hst _ _ => exact { h with client := fun _ => h.client (by simp [hst]) }
  | dataack _ _ _ => exact { h with }
  | finack _ _ => exact { h with client := fun hst => absurd rfl hst }

theorem step (h : Peers clientNodeID clientPort svrNodeID svrPort s)
    (hcall : Client.CallOk s.client) {a : Action} (hstep : s.step a = some t) :
    Peers clientNodeID clientPort svrNodeID svrPort t := by
  cases steps_of_step hstep with
  | client _ _ hto hr => exact h.clientStep hcall hto hr
  | server _ _ hv => exact h.serverStep hv
  | toServer _ _ _ _ hm hr => exact h.serverTakes (List.mem_of_getElem? hm) hr
  | toClient _ _ _ _ _ hc => exact h.clientTakes hc
  | loseToServer i => exact h.fewer fun _ => List.mem_of_mem_eraseIdx
  | loseToClient i => exact { h with }

end Peers

theorem callOk_step {s t : Sys} (hs : Client.CallOk s.client) {a : Action}
    (h : s.step a = some t) : Client.CallOk t.client := by
  cases steps_of_step h with
  | client _ _ _ hr => exact hs.step hr
  | toClient _ _ _ _ _ hc => exact hs.receive hc
  | _ => exact hs

theorem peers_of_reachable {clientNodeID clientPort svrNodeID svrPort : UInt32} {s : Sys}
    {ok : Sys → Action → Prop}
    (h : (machine clientNodeID clientPort svrNodeID svrPort).Reachable ok s) :
    Peers clientNodeID clientPort svrNodeID svrPort s := by
  have hinv : Client.CallOk s.client ∧ Peers clientNodeID clientPort svrNodeID svrPort s := by
    apply h.invariant
    · rintro _ rfl
      exact ⟨.fresh clientNodeID clientPort, .fresh⟩
    · exact fun _ _ _ hs _ hstep => ⟨callOk_step hs.1 hstep, hs.2.step hs.1 hstep⟩
  exact hinv.2

/-! What the processes below SRT need to know of the segments. -/

theorem stamp_stamp (seg : Seg) : seg.stamp.stamp = seg.stamp := rfl

/-- The `SYN` or `FIN` that is sent again is stamped. -/
def CallStamped (c : Client.Socket) : Prop :=
  (∀ syn tries, c.call = .connect syn tries → syn.stamp = syn) ∧
    ∀ fin tries, c.call = .disconnect fin tries → fin.stamp = fin

section Stamps
open Client
variable {c : Client.Socket}

theorem CallStamped.of_idle (h : c.call = .idle) : CallStamped c := by simp [CallStamped, h]

theorem sendMaxLoop_stamped (env : Env) (k : ℕ) (unAck : UInt32) (bs : List SegBuf) :
    ∀ b ∈ (sendMaxLoop env k unAck bs).sent, b.seg.stamp = b.seg := by
  fun_induction sendMaxLoop env k unAck bs with
  | case2 k unAck b bs _ _ _ _ ih =>
    intro b' hb'
    rcases List.mem_cons.mp hb' with rfl | hb'
    · rfl
    · exact ih b' hb'
  | _ => simp

theorem resendLoop_stamped (env : Env) (unAck : UInt32) (k : ℕ) (bs : List SegBuf) :
    ∀ b ∈ (resendLoop env unAck k bs).sent, b.seg.stamp = b.seg := by
  fun_induction resendLoop env unAck k bs with
  | case2 k b bs _ _ _ ih =>
    intro b' hb'
    dsimp only at hb'
    split at hb'
    next =>
      rcases List.mem_cons.mp hb' with rfl | hb'
      · rfl
      · exact ih b' hb'
    next => exact ih b' hb'
  | _ => simp

theorem sentNodes_stamped {r : ClientTcb × List SegBuf} (h : ∀ b ∈ r.2, b.seg.stamp = b.seg) :
    ∀ seg ∈ (c.sentNodes r).2, seg.stamp = seg := by
  intro seg hseg
  obtain ⟨b, hb, rfl⟩ := List.mem_map.mp hseg
  exact h b hb

theorem sendMaxSegments_stamped {tcb : ClientTcb} {env : Env} {r : ClientTcb × List SegBuf}
    (h : tcb.sendMaxSegments env = some r) : ∀ b ∈ r.2, b.seg.stamp = b.seg := by
  obtain ⟨_, ⟨_, rfl⟩ | ⟨_, _, _, _, rfl, rfl⟩⟩ := sendMaxSegments_cases h
  · simp
  · exact sendMaxLoop_stamped _ _ _ _

/-- What a step of the client writes is stamped, and so is what it may send again. -/
theorem CallStamped.step (hc : CallStamped c) {a : Client.Action} {r : Client.Socket × List Seg}
    (h : c.step a = some r) : CallStamped r.1 ∧ ∀ seg ∈ r.2, seg.stamp = seg := by
  cases Client.steps_of_step h with
  | connect nodeID serverPort sendOk _ _ =>
    cases sendOk with
    | false => exact ⟨.of_idle rfl, by simp⟩
    | true => exact ⟨by simp [CallStamped, Socket.syn, controlSeg, stamp_stamp], by
        simp [Socket.syn, controlSeg, stamp_stamp]⟩
  | resendSyn sendOk syn tries hcall _ =>
    have hsyn := hc.1 syn tries hcall
    cases sendOk with
    | false => exact ⟨.of_idle rfl, by simp⟩
    | true => exact ⟨by simp [CallStamped, hsyn], by simp [hsyn]⟩
  | connected _ => exact ⟨.of_idle rfl, by simp⟩
  | connectGaveUp _ _ _ _ => exact ⟨.of_idle rfl, by simp⟩
  | sendNothing _ => exact ⟨hc, by simp⟩
  | send _ _ _ => exact ⟨by simp [CallStamped], by simp⟩
  | queueSegment _ _ _ _ _ => exact ⟨by simp [CallStamped, Socket.queue], by simp⟩
  | sendReturn env r hr =>
    exact ⟨.of_idle rfl, sentNodes_stamped (sendMaxSegments_stamped hr)⟩
  | sendMaxSegments env r hr => exact ⟨hc, sentNodes_stamped (sendMaxSegments_stamped hr)⟩
  | sendBufTimer env r hr =>
    obtain ⟨_, _, rfl, rfl⟩ := sendBufTimer_cases hr
    exact ⟨hc, sentNodes_stamped (resendLoop_stamped _ _ _ _)⟩
  | disconnect sendOk _ _ _ =>
    cases sendOk with
    | false => exact ⟨.of_idle rfl, by simp⟩
    | true => exact ⟨by simp [CallStamped, Socket.fin, controlSeg, stamp_stamp], by
        simp [Socket.fin, controlSeg, stamp_stamp]⟩
  | resendFin sendOk fin tries hcall _ =>
    have hfin := hc.2 fin tries hcall
    cases sendOk with
    | false => exact ⟨.of_idle rfl, by simp⟩
    | true => exact ⟨by simp [CallStamped, hfin], by simp [hfin]⟩
  | disconnected _ => exact ⟨.of_idle rfl, by simp⟩
  | disconnectGaveUp _ _ _ _ => exact ⟨.of_idle rfl, by simp⟩

end Stamps

/-- Each segment on the way comes from the node it should, with its checksum, and a reply of the
server goes to the client's node. -/
structure Origins (clientNodeID svrNodeID : UInt32) (s : Sys) : Prop where
  call : CallStamped s.client
  server : s.server.tcb.state = .connected ∨ s.server.tcb.state = .closewait →
    s.server.tcb.clientNodeID = clientNodeID
  toServer : ∀ m ∈ s.toServer, m.nodeID = clientNodeID ∧ m.seg.stamp = m.seg
  toClient : ∀ m ∈ s.toClient, m.nodeID = svrNodeID ∧ m.seg.stamp = m.seg

namespace Origins
variable {clientNodeID clientPort svrNodeID svrPort : UInt32} {s t : Sys}

theorem fresh : Origins clientNodeID svrNodeID
    ⟨.fresh clientNodeID clientPort, .fresh svrNodeID svrPort, [], []⟩ where
  call := .of_idle rfl
  server h := by simp [Server.Socket.fresh, Server.srtServerSock] at h
  toServer := by simp
  toClient := by simp

/-- A reply is stamped and goes to the client. -/
theorem replies (h : Origins clientNodeID svrNodeID s) {m : Msg} (hm : m ∈ s.toServer)
    {r : Server.Handled} (hr : Server.Handles s.server.tcb m.nodeID m.seg r) :
    (r.tcb.state = .connected ∨ r.tcb.state = .closewait → r.tcb.clientNodeID = clientNodeID) ∧
      ∀ seg ∈ r.reply, seg.stamp = seg ∧ r.tcb.clientNodeID = clientNodeID := by
  have hconnected : s.server.tcb.state = .connected → s.server.tcb.clientNodeID = clientNodeID :=
    fun hst => h.server (.inl hst)
  cases hr with
  | ignored => exact ⟨h.server, by simp⟩
  | listeningSyn _ _ _ =>
    refine ⟨fun _ => (h.toServer m hm).1, ?_⟩
    rintro _ ⟨⟩
    exact ⟨rfl, (h.toServer m hm).1⟩
  | connectedSyn hst _ _ =>
    refine ⟨h.server, ?_⟩
    rintro _ ⟨⟩
    exact ⟨rfl, hconnected hst⟩
  | connectedFin hst _ _ =>
    refine ⟨fun _ => hconnected hst, ?_⟩
    rintro _ ⟨⟩
    exact ⟨rfl, hconnected hst⟩
  | dataTaken hst _ _ _ _ =>
    refine ⟨fun _ => hconnected hst, ?_⟩
    rintro _ ⟨⟩
    exact ⟨rfl, hconnected hst⟩
  | dataRefused hst _ _ _ =>
    refine ⟨h.server, ?_⟩
    rintro _ ⟨⟩
    exact ⟨rfl, hconnected hst⟩
  | closewaitFin hst _ =>
    refine ⟨h.server, ?_⟩
    rintro _ ⟨⟩
    exact ⟨rfl, h.server (.inr hst)⟩

theorem step (h : Origins clientNodeID svrNodeID s)
    (hpeers : Peers clientNodeID clientPort svrNodeID svrPort s) (hcall : Client.CallOk s.client)
    {a : Action} (hstep : s.step a = some t) : Origins clientNodeID svrNodeID t := by
  cases steps_of_step hstep with
  | client a r hto hr =>
    obtain ⟨hstamped, hout⟩ := h.call.step hr
    have hnode := (moves_of_step hcall hr).nodeID.trans hpeers.clientSelf.1
    refine { h with call := hstamped, toServer := ?_ }
    intro m hm
    rcases List.mem_append.mp hm with hm | hm
    · exact h.toServer m hm
    · obtain ⟨seg, hseg, rfl⟩ := List.mem_map.mp hm
      exact ⟨hnode, hout seg hseg⟩
  | server a v hv =>
    refine { h with server := ?_ }
    cases Server.steps_of_step hv with
    | accept _ _ => simp
    | acceptFailed _ _ _ => simp
    | closeWaitTimer _ => simp
    | _ => exact h.server
  | toServer i dup m r hm hr =>
    obtain ⟨v, out⟩ := r
    obtain ⟨r, hhandles, rfl, rfl⟩ := Server.receive_handles hr
    obtain ⟨hserver, hreply⟩ := h.replies (List.mem_of_getElem? hm) hhandles
    refine ⟨h.call, hserver, fun m hm => h.toServer m (mem_of_mem_rest hm), ?_⟩
    intro m' hm'
    rcases List.mem_append.mp hm' with hm' | hm'
    · exact h.toClient m' hm'
    · obtain ⟨seg, hseg, rfl⟩ := List.mem_map.mp hm'
      have htakes : Peers clientNodeID clientPort svrNodeID svrPort (s.serverTakes i dup m _) :=
        hpeers.serverTakes (List.mem_of_getElem? hm) hr
      exact ⟨htakes.serverSelf.1, (hreply seg (Option.mem_toList.mp hseg)).1⟩
  | toClient i dup m c hm hc =>
    refine { h with call := ?_, toClient := fun m hm => h.toClient m (mem_of_mem_rest hm) }
    obtain ⟨r, _, rfl⟩ := Client.receive_handles hc
    exact h.call
  | loseToServer i =>
    exact { h with toServer := fun m hm => h.toServer m (List.mem_of_mem_eraseIdx hm) }
  | loseToClient i =>
    exact { h with toClient := fun m hm => h.toClient m (List.mem_of_mem_eraseIdx hm) }

end Origins

theorem callOk_of_reachable {clientNodeID clientPort svrNodeID svrPort : UInt32} {s : Sys}
    {ok : Sys → Action → Prop}
    (h : (machine clientNodeID clientPort svrNodeID svrPort).Reachable ok s) :
    Client.CallOk s.client := by
  apply h.invariant
  · rintro _ rfl
    exact .fresh clientNodeID clientPort
  · exact fun _ _ _ hs _ hstep => callOk_step hs hstep

theorem origins_of_reachable {clientNodeID clientPort svrNodeID svrPort : UInt32} {s : Sys}
    {ok : Sys → Action → Prop}
    (h : (machine clientNodeID clientPort svrNodeID svrPort).Reachable ok s) :
    Origins clientNodeID svrNodeID s := by
  apply h.invariant_of fun _ hs => And.intro (peers_of_reachable hs) (callOk_of_reachable hs)
  · rintro _ rfl
    exact .fresh
  · exact fun _ _ _ hs h _ hstep => h.step hs.1 hs.2 hstep

end DartNet.Srt
