import DartNet.Foundation.Fifo
import DartNet.Srt.System

/-! Reconnects over a network that loses segments but keeps their order. What a closed
connection leaves on the way is harmless, what a connection that was given up leaves is not: the
server answers a `SYN` in `CONNECTED` without taking its sequence number, and a `SYNACK` does not
say which `SYN` it answers. -/
namespace DartNet.Srt
open Transition Fifo

/-- Nothing is duplicated, and the oldest segment arrives first. -/
def InOrder : Action → Prop
  | .deliverToServer i dup => i = 0 ∧ dup = false
  | .deliverToClient i dup => i = 0 ∧ dup = false
  | _ => True

/-- A `SYN` that is answered in `CONNECTED` carries the expected number, and a `SYNACK` that
connects does not answer a `SYN` from before a connection that was given up. -/
def Matched (s : Sys) : Action → Prop
  | .deliverToServer i _ => ∀ m ∈ s.toServer[i]?, s.server.tcb.state = .connected →
      m.seg.header.type = SegType.syn → s.server.tcb.fromClient m.nodeID m.seg →
      m.seg.header.seqNum = s.server.tcb.expectSeqNum
  | .deliverToClient i _ => ∀ m ∈ s.toClient[i]?, s.client.tcb.state = .synsent →
      m.seg.header.type = SegType.synack → m.era = s.client.era
  | _ => True

/-- The server is connected with the client, and expects the number that comes next. -/
structure Agrees (s : Sys) : Prop where
  state : s.server.tcb.state = .connected
  port : s.server.tcb.clientPortNum = s.client.tcb.clientPortNum
  nodeID : s.server.tcb.clientNodeID = s.client.tcb.clientNodeID
  expect : s.server.tcb.expectSeqNum = s.client.tcb.nextSeqNum

/-- A segment that cannot open the connection the client is opening. -/
def Stale (c : Client.Socket) (m : Msg) : Prop := m.seg.header.type = SegType.syn → m.era < c.era

/-- A `SYN` of the connection the client is opening. -/
structure Opens (c : Client.Socket) (m : Msg) : Prop where
  type : m.seg.header.type = SegType.syn
  era : m.era = c.era
  seqNum : m.seg.header.seqNum = c.tcb.nextSeqNum
  port : m.seg.header.srcPort = c.tcb.clientPortNum
  nodeID : m.nodeID = c.tcb.clientNodeID

/-- A segment that does not tell the client that it is connected. -/
def NoAnswer (c : Client.Socket) (m : Msg) : Prop :=
  m.seg.header.type = SegType.synack → m.era < c.era

def IsType (type : UInt16) (m : Msg) : Prop := m.seg.header.type = type

def NotType (type : UInt16) (m : Msg) : Prop := m.seg.header.type ≠ type

/-- The life of a connection: no `SYN` was answered, one was, the client is connected, no `FIN`
was taken, one was. -/
inductive Phase (s : Sys) : Prop
  | waiting : s.client.tcb.state = .closed ∨ s.client.tcb.state = .synsent →
      Then (Stale s.client) (Opens s.client) s.toServer →
      (∀ m ∈ s.toClient, NoAnswer s.client m) → Phase s
  | answered : s.client.tcb.state = .closed ∨ s.client.tcb.state = .synsent → Agrees s →
      (∀ m ∈ s.toServer, Opens s.client m) →
      Then (NoAnswer s.client) (NotType SegType.finack) s.toClient → Phase s
  | connected : s.client.tcb.state = .connected → s.server.tcb.state = .connected →
      (∀ m ∈ s.toServer, NotType SegType.fin m) →
      (∀ m ∈ s.toClient, NotType SegType.finack m) → Phase s
  | closing : s.client.tcb.state = .finwait → s.server.tcb.state = .connected →
      Then (NotType SegType.fin) (IsType SegType.fin) s.toServer →
      (∀ m ∈ s.toClient, NotType SegType.finack m) → Phase s
  | closed : s.client.tcb.state = .finwait → s.server.tcb.state ≠ .connected →
      (∀ m ∈ s.toServer, IsType SegType.fin m) →
      Then (NotType SegType.finack) (NotType SegType.synack) s.toClient → Phase s

theorem Phase.fewer {s : Sys} (h : Phase s) {toServer toClient : List Msg}
    (h1 : toServer.Sublist s.toServer) (h2 : toClient.Sublist s.toClient) :
    Phase { s with toServer := toServer, toClient := toClient } := by
  cases h with
  | waiting hst hserver hclient =>
    exact .waiting hst (hserver.sublist h1) fun m hm => hclient m (h2.subset hm)
  | answered hst hagrees hserver hclient =>
    exact .answered hst { hagrees with } (fun m hm => hserver m (h1.subset hm))
      (hclient.sublist h2)
  | connected hst hup hserver hclient =>
    exact .connected hst hup (fun m hm => hserver m (h1.subset hm))
      fun m hm => hclient m (h2.subset hm)
  | closing hst hup hserver hclient =>
    exact .closing hst hup (hserver.sublist h1) fun m hm => hclient m (h2.subset hm)
  | closed hst hdown hserver hclient =>
    exact .closed hst hdown (fun m hm => hserver m (h1.subset hm)) (hclient.sublist h2)

/-- The server's application and its timer do not take part in the handshake. -/
theorem server_step {v t : Server.Socket} {a : Server.Action} (h : v.step a = some t) :
    (t.tcb.state = .connected ↔ v.tcb.state = .connected) ∧
      t.tcb.clientPortNum = v.tcb.clientPortNum ∧ t.tcb.clientNodeID = v.tcb.clientNodeID ∧
      t.tcb.expectSeqNum = v.tcb.expectSeqNum := by
  cases Server.steps_of_step h with
  | accept _ hst => simp [hst]
  | accepted _ => simp
  | acceptFailed _ _ hst => simp [hst]
  | recv _ _ => simp
  | recvReturn _ _ _ => simp
  | closeWaitTimer hst => simp [hst]

theorem Phase.server {s : Sys} (h : Phase s) {a : Server.Action} {v : Server.Socket}
    (hv : s.server.step a = some v) : Phase { s with server := v } := by
  obtain ⟨hstate, hport, hnode, hexpect⟩ := server_step hv
  cases h with
  | waiting hst hserver hclient => exact .waiting hst hserver hclient
  | answered hst hagrees hserver hclient =>
    exact .answered hst ⟨hstate.mpr hagrees.state, hport.trans hagrees.port,
      hnode.trans hagrees.nodeID, hexpect.trans hagrees.expect⟩ hserver hclient
  | connected hst hup hserver hclient => exact .connected hst (hstate.mpr hup) hserver hclient
  | closing hst hup hserver hclient => exact .closing hst (hstate.mpr hup) hserver hclient
  | closed hst hdown hserver hclient =>
    exact .closed hst (fun h => hdown (hstate.mp h)) hserver hclient

/-- How a step of the client moves it through the phases. -/
structure Moves (c t : Client.Socket) : Prop where
  opening : c.tcb.state = .closed ∨ c.tcb.state = .synsent →
    (t.tcb.state = .closed ∨ t.tcb.state = .synsent) ∧ t.era = c.era ∧
      t.tcb.nextSeqNum = c.tcb.nextSeqNum
  connected : c.tcb.state = .connected → t.tcb.state = .connected ∨ t.tcb.state = .finwait
  finwait : c.tcb.state = .finwait →
    t.tcb.state = .finwait ∨ (t.tcb.state = .closed ∧ c.era < t.era)
  era : c.era ≤ t.era
  port : t.tcb.clientPortNum = c.tcb.clientPortNum
  nodeID : t.tcb.clientNodeID = c.tcb.clientNodeID

theorem moves_of_same {c t : Client.Socket} (hsame : ∃ mutex buf ptr unAck, t.tcb = { c.tcb with
      bufMutex := mutex, sendBuf := buf, sendBufunSent := ptr, unAckSegNum := unAck })
    (hera : t.era = c.era) : Moves c t := by
  obtain ⟨_, _, _, _, heq⟩ := hsame
  constructor <;> simp +contextual [heq, hera]

theorem moves_of_step {c : Client.Socket} (hcall : Client.CallOk c) {a : Client.Action}
    {r : Client.Socket × List Seg} (h : c.step a = some r) : Moves c r.1 := by
  have hidle : ∀ {t : Client.Socket}, t.tcb = c.tcb → t.era = c.era → Moves c t :=
    fun htcb hera => moves_of_same ⟨_, _, _, _, htcb⟩ hera
  cases Client.steps_of_step h with
  | connect _ _ _ _ hst => constructor <;> simp [hst]
  | resendSyn _ _ _ _ _ => exact hidle rfl rfl
  | connected _ => exact hidle rfl rfl
  | connectGaveUp syn tries hcall' hst =>
    obtain ⟨_, _, _, h | h⟩ := hcall.connect syn tries hcall'
    · constructor <;> simp [h]
    · exact absurd h hst
  | sendNothing _ => exact hidle rfl rfl
  | send _ _ _ => exact hidle rfl rfl
  | queueSegment data num dataRemainder hcall' _ =>
    have hst := (hcall.send _ _ _ hcall').1
    constructor <;> simp [hst, Client.Socket.queue, Client.ClientTcb.queueSegBuf]
  | sendReturn env r hr => exact moves_of_same (Client.sendMaxSegments_sendsFrom hr).same rfl
  | sendMaxSegments env r hr => exact moves_of_same (Client.sendMaxSegments_sendsFrom hr).same rfl
  | sendBufTimer env r hr => exact moves_of_same (Client.sendBufTimer_sendsFrom hr).same rfl
  | disconnect sendOk _ hst _ => cases sendOk <;> constructor <;> simp [hst]
  | resendFin sendOk _ _ _ hst => cases sendOk <;> constructor <;> simp [hst]
  | disconnected _ => exact hidle rfl rfl
  | disconnectGaveUp fin tries hcall' hst =>
    obtain ⟨_, h | h⟩ := hcall.disconnect fin tries hcall'
    · constructor <;> simp [h]
    · exact absurd h hst

theorem opens_of_emitted {t : Client.Socket} {seg : Seg} (h : Client.Emitted t seg)
    (hst : t.tcb.state = .closed ∨ t.tcb.state = .synsent) :
    Opens t ⟨t.tcb.clientNodeID, seg, t.era⟩ := by
  cases h with
  | syn _ ht hseq hport => exact ⟨ht, rfl, hseq, hport, rfl⟩
  | fin hst' _ => simp [hst'] at hst
  | data hst' _ => simp [hst'] at hst

theorem notFin_of_emitted {t : Client.Socket} {seg : Seg} (h : Client.Emitted t seg)
    (hst : t.tcb.state = .connected) : seg.header.type ≠ SegType.fin := by
  cases h with
  | syn hst' _ _ _ => simp [hst'] at hst
  | fin hst' _ => simp [hst'] at hst
  | data _ ht => rw [ht]; decide

theorem fin_of_emitted {t : Client.Socket} {seg : Seg} (h : Client.Emitted t seg)
    (hst : t.tcb.state = .finwait) : seg.header.type = SegType.fin := by
  cases h with
  | syn hst' _ _ _ => simp [hst'] at hst
  | fin _ ht => exact ht
  | data hst' _ => simp [hst'] at hst

/-- Steps of the client. Giving up makes everything on the way stale. -/
theorem Phase.client {s : Sys} (h : Phase s) (hcall : Client.CallOk s.client)
    (hera : ∀ m ∈ s.toServer ++ s.toClient, m.era ≤ s.client.era) {a : Client.Action}
    {r : Client.Socket × List Seg} (hr : s.client.step a = some r) : Phase (s.clientWrites r) := by
  have hmoves := moves_of_step hcall hr
  have hout : ∀ m ∈ r.2.map fun seg => (⟨r.1.tcb.clientNodeID, seg, r.1.era⟩ : Msg),
      ∃ seg, m = ⟨r.1.tcb.clientNodeID, seg, r.1.era⟩ ∧ Client.Emitted r.1 seg := by
    intro m hm
    obtain ⟨seg, hseg, rfl⟩ := List.mem_map.mp hm
    exact ⟨seg, rfl, Client.emitted_of_step hcall hr hseg⟩
  have hopens : r.1.tcb.state = .closed ∨ r.1.tcb.state = .synsent →
      ∀ m ∈ r.2.map fun seg => (⟨r.1.tcb.clientNodeID, seg, r.1.era⟩ : Msg), Opens r.1 m := by
    intro hst m hm
    obtain ⟨seg, rfl, hseg⟩ := hout m hm
    exact opens_of_emitted hseg hst
  have hfin : r.1.tcb.state = .finwait →
      ∀ m ∈ r.2.map fun seg => (⟨r.1.tcb.clientNodeID, seg, r.1.era⟩ : Msg),
        IsType SegType.fin m := by
    intro hst m hm
    obtain ⟨seg, rfl, hseg⟩ := hout m hm
    exact fin_of_emitted hseg hst
  have hgiveUp : r.1.tcb.state = .closed → s.client.era < r.1.era → Phase (s.clientWrites r) := by
    intro hst hlt
    refine .waiting (.inl hst) ?_ ?_
    · refine (Then.of_left ?_).append (hopens (.inl hst))
      intro m hm _
      exact (hera m (List.mem_append_left _ hm)).trans_lt hlt
    · intro m hm _
      exact (hera m (List.mem_append_right _ hm)).trans_lt hlt
  cases h with
  | waiting hst hserver hclient =>
    obtain ⟨hst', hera', hnext⟩ := hmoves.opening hst
    refine .waiting hst' ((hserver.imp ?_ ?_).append (hopens hst')) ?_
    · exact fun m hm ht => hera' ▸ hm ht
    · exact fun m hm => ⟨hm.type, hm.era.trans hera'.symm, hm.seqNum.trans hnext.symm,
        hm.port.trans hmoves.port.symm, hm.nodeID.trans hmoves.nodeID.symm⟩
    · intro m hm ht
      exact hera' ▸ hclient m hm ht
  | answered hst hagrees hserver hclient =>
    obtain ⟨hst', hera', hnext⟩ := hmoves.opening hst
    refine .answered hst' ⟨hagrees.state, hagrees.port.trans hmoves.port.symm,
      hagrees.nodeID.trans hmoves.nodeID.symm, hagrees.expect.trans hnext.symm⟩ ?_ ?_
    · intro m hm
      rcases List.mem_append.mp hm with hm | hm
      · have ho := hserver m hm
        exact ⟨ho.type, ho.era.trans hera'.symm, ho.seqNum.trans hnext.symm,
          ho.port.trans hmoves.port.symm, ho.nodeID.trans hmoves.nodeID.symm⟩
      · exact hopens hst' m hm
    · exact hclient.imp (fun m hm ht => hera' ▸ hm ht) fun _ hm => hm
  | connected hst hup hserver hclient =>
    rcases hmoves.connected hst with hst' | hst'
    · refine .connected hst' hup ?_ hclient
      intro m hm
      rcases List.mem_append.mp hm with hm | hm
      · exact hserver m hm
      · obtain ⟨seg, rfl, hseg⟩ := hout m hm
        exact notFin_of_emitted hseg hst'
    · exact .closing hst' hup ((Then.of_left hserver).append (hfin hst')) hclient
  | closing hst hup hserver hclient =>
    rcases hmoves.finwait hst with hst' | ⟨hst', hlt⟩
    · exact .closing hst' hup (hserver.append (hfin hst')) hclient
    · exact hgiveUp hst' hlt
  | closed hst hdown hserver hclient =>
    rcases hmoves.finwait hst with hst' | ⟨hst', hlt⟩
    · refine .closed hst' hdown ?_ hclient
      exact List.forall_mem_append.mpr ⟨hserver, hfin hst'⟩
    · exact hgiveUp hst' hlt

/-- A reply is of the type that answers the segment. -/
inductive Answers (seg q : Seg) : Prop
  | syn : seg.header.type = SegType.syn → q.header.type = SegType.synack → Answers seg q
  | fin : seg.header.type = SegType.fin → q.header.type = SegType.finack → Answers seg q
  | data : seg.header.type = SegType.data → q.header.type = SegType.dataack → Answers seg q

theorem answers_of_handles {tcb : Server.SvrTcb} {srcNodeID : UInt32} {seg : Seg}
    {r : Server.Handled} (h : Server.Handles tcb srcNodeID seg r) {q : Seg} (hq : q ∈ r.reply) :
    Answers seg q := by
  cases h with
  | ignored => simp at hq
  | listeningSyn _ _ ht => exact Option.some.inj hq ▸ .syn ht rfl
  | connectedSyn _ ht _ => exact Option.some.inj hq ▸ .syn ht rfl
  | connectedFin _ ht _ => exact Option.some.inj hq ▸ .fin ht rfl
  | dataTaken _ ht _ _ _ => exact Option.some.inj hq ▸ .data ht rfl
  | dataRefused _ ht _ _ => exact Option.some.inj hq ▸ .data ht rfl
  | closewaitFin _ ht => exact Option.some.inj hq ▸ .fin ht rfl

theorem Answers.finack_iff {seg q : Seg} (h : Answers seg q) :
    q.header.type = SegType.finack ↔ seg.header.type = SegType.fin := by
  cases h with
  | syn h h' => rw [h, h']; decide
  | fin h h' => rw [h, h']; decide
  | data h h' => rw [h, h']; decide

theorem Answers.synack_iff {seg q : Seg} (h : Answers seg q) :
    q.header.type = SegType.synack ↔ seg.header.type = SegType.syn := by
  cases h with
  | syn h h' => rw [h, h']; decide
  | fin h h' => rw [h, h']; decide
  | data h h' => rw [h, h']; decide

/-- A `FIN` is the only segment that ends `CONNECTED`, and nothing but a `SYN` starts it. -/
theorem handles_state {tcb : Server.SvrTcb} {srcNodeID : UInt32} {seg : Seg}
    {r : Server.Handled} (h : Server.Handles tcb srcNodeID seg r) :
    (tcb.state = .connected → seg.header.type ≠ SegType.fin → r.tcb.state = .connected) ∧
      (tcb.state ≠ .connected → seg.header.type ≠ SegType.syn → r.tcb.state ≠ .connected) := by
  cases h with
  | ignored => exact ⟨fun h _ => h, fun h _ => h⟩
  | listeningSyn _ _ ht => exact ⟨fun _ _ => rfl, fun _ h => absurd ht h⟩
  | connectedSyn _ _ _ => exact ⟨fun h _ => h, fun h _ => h⟩
  | connectedFin _ ht _ => exact ⟨fun _ h => absurd ht h, by simp⟩
  | dataTaken _ _ _ _ _ => exact ⟨fun h _ => h, fun h _ => h⟩
  | dataRefused _ _ _ _ => exact ⟨fun h _ => h, fun h _ => h⟩
  | closewaitFin _ _ => exact ⟨fun h _ => h, fun h _ => h⟩

/-- A `FIN` to a connected server. -/
theorem handles_fin {tcb : Server.SvrTcb} {srcNodeID : UInt32} {seg : Seg}
    {r : Server.Handled} (h : Server.Handles tcb srcNodeID seg r) (hst : tcb.state = .connected)
    (ht : seg.header.type = SegType.fin) :
    r = ⟨tcb, none, []⟩ ∨ r.tcb.state ≠ .connected := by
  cases h with
  | ignored => exact .inl rfl
  | connectedFin _ _ _ => exact .inr (by simp)
  | listeningSyn hst' _ _ => simp [hst] at hst'
  | connectedSyn _ ht' _ => exact absurd (ht'.symm.trans ht) (by decide)
  | dataTaken _ ht' _ _ _ => exact absurd (ht'.symm.trans ht) (by decide)
  | dataRefused _ ht' _ _ => exact absurd (ht'.symm.trans ht) (by decide)
  | closewaitFin hst' _ => simp [hst] at hst'

/-- A `SYN` either goes unanswered or the server is connected with its sender. -/
theorem handles_syn {tcb : Server.SvrTcb} {srcNodeID : UInt32} {seg : Seg}
    {r : Server.Handled} (h : Server.Handles tcb srcNodeID seg r)
    (ht : seg.header.type = SegType.syn)
    (hseq : tcb.state = .connected → tcb.fromClient srcNodeID seg →
      seg.header.seqNum = tcb.expectSeqNum) :
    r = ⟨tcb, none, []⟩ ∨ (r.tcb.state = .connected ∧ r.tcb.fromClient srcNodeID seg ∧
      seg.header.seqNum = r.tcb.expectSeqNum) := by
  cases h with
  | ignored => exact .inl rfl
  | listeningSyn _ _ _ => exact .inr ⟨rfl, ⟨rfl, rfl⟩, rfl⟩
  | connectedSyn hst _ hfrom => exact .inr ⟨hst, hfrom, hseq hst hfrom⟩
  | connectedFin _ ht' _ => exact absurd (ht'.symm.trans ht) (by decide)
  | dataTaken _ ht' _ _ _ => exact absurd (ht'.symm.trans ht) (by decide)
  | dataRefused _ ht' _ _ => exact absurd (ht'.symm.trans ht) (by decide)
  | closewaitFin _ ht' => exact absurd (ht'.symm.trans ht) (by decide)

/-- A `SYN` leaves a connected server as it is. -/
theorem handles_syn_connected {tcb : Server.SvrTcb} {srcNodeID : UInt32} {seg : Seg}
    {r : Server.Handled} (h : Server.Handles tcb srcNodeID seg r) (hst : tcb.state = .connected)
    (ht : seg.header.type = SegType.syn) : r.tcb = tcb := by
  cases h with
  | ignored => rfl
  | connectedSyn _ _ _ => rfl
  | dataRefused _ _ _ _ => rfl
  | listeningSyn hst' _ _ => simp [hst] at hst'
  | connectedFin _ ht' _ => exact absurd (ht'.symm.trans ht) (by decide)
  | dataTaken _ ht' _ _ _ => exact absurd (ht'.symm.trans ht) (by decide)
  | closewaitFin hst' _ => simp [hst] at hst'

/-- The oldest segment reaches the server. -/
theorem Phase.serverTakes {s : Sys} (h : Phase s) {m : Msg} {ms : List Msg}
    (hms : s.toServer = m :: ms)
    (hseq : m.seg.header.type = SegType.syn → s.server.tcb.state = .connected →
      s.server.tcb.fromClient m.nodeID m.seg →
      m.seg.header.seqNum = s.server.tcb.expectSeqNum)
    {r : Server.Handled} (hr : Server.Handles s.server.tcb m.nodeID m.seg r) (nodeID : UInt32) :
    Phase { s with
      server := s.server.handled r
      toServer := ms
      toClient := s.toClient ++ r.reply.toList.map fun seg => ⟨nodeID, seg, m.era⟩ } := by
  have hsub : ms.Sublist s.toServer := hms ▸ List.sublist_cons_self m ms
  have hreply : ∀ q ∈ r.reply.toList.map fun seg => (⟨nodeID, seg, m.era⟩ : Msg),
      ∃ seg, q = ⟨nodeID, seg, m.era⟩ ∧ Answers m.seg seg := by
    intro q hq
    obtain ⟨seg, hseg, rfl⟩ := List.mem_map.mp hq
    exact ⟨seg, rfl, answers_of_handles hr (Option.mem_toList.mp hseg)⟩
  have hfinack : m.seg.header.type ≠ SegType.fin →
      ∀ q ∈ r.reply.toList.map fun seg => (⟨nodeID, seg, m.era⟩ : Msg),
        NotType SegType.finack q := by
    intro ht q hq
    obtain ⟨seg, rfl, ha⟩ := hreply q hq
    exact fun h => ht (ha.finack_iff.mp h)
  cases h with
  | waiting hst hserver hclient =>
    by_cases hstale : Stale s.client m
    · refine .waiting hst (hserver.sublist hsub) ?_
      intro q hq ht
      rcases List.mem_append.mp hq with hq | hq
      · exact hclient q hq ht
      · obtain ⟨seg, rfl, ha⟩ := hreply q hq
        exact hstale (ha.synack_iff.mp ht)
    · have hopens := (hms ▸ hserver).all_of_head hstale
      have hm := hopens m (List.mem_cons_self ..)
      rcases handles_syn hr hm.type (hseq hm.type) with rfl | ⟨hup, hfrom, hexpect⟩
      · simp only [Option.toList_none, List.map_nil, List.append_nil]
        exact .waiting hst (hserver.sublist hsub) hclient
      · refine .answered hst ⟨hup, hfrom.1.trans hm.port, hfrom.2.trans hm.nodeID,
          hexpect.symm.trans hm.seqNum⟩ (fun q hq => hopens q (List.mem_cons_of_mem _ hq)) ?_
        refine (Then.of_left hclient).append (hfinack ?_)
        rw [hm.type]
        decide
  | answered hst hagrees hserver hclient =>
    have hm := hserver m (hms ▸ List.mem_cons_self ..)
    have hfin : m.seg.header.type ≠ SegType.fin := by rw [hm.type]; decide
    have hsame := handles_syn_connected hr hagrees.state hm.type
    refine .answered hst ⟨?_, ?_, ?_, ?_⟩ (fun q hq => hserver q (hsub.subset hq))
      (hclient.append (hfinack hfin)) <;> simp only [Server.Socket.handled, hsame]
    · exact hagrees.state
    · exact hagrees.port
    · exact hagrees.nodeID
    · exact hagrees.expect
  | connected hst hup hserver hclient =>
    have hfin := hserver m (hms ▸ List.mem_cons_self ..)
    refine .connected hst ((handles_state hr).1 hup hfin)
      (fun q hq => hserver q (hsub.subset hq)) ?_
    exact List.forall_mem_append.mpr ⟨hclient, hfinack hfin⟩
  | closing hst hup hserver hclient =>
    by_cases hfin : m.seg.header.type = SegType.fin
    · have hall := (hms ▸ hserver).all_of_head (fun h => h hfin)
      rcases handles_fin hr hup hfin with rfl | hdown
      · simp only [Option.toList_none, List.map_nil, List.append_nil]
        exact .closing hst hup (hserver.sublist hsub) hclient
      · refine .closed hst hdown (fun q hq => hall q (List.mem_cons_of_mem _ hq))
          ((Then.of_left hclient).append ?_)
        intro q hq
        obtain ⟨seg, rfl, ha⟩ := hreply q hq
        exact fun h => absurd ((ha.synack_iff.mp h).symm.trans hfin) (by decide)
    · refine .closing hst ((handles_state hr).1 hup hfin) (hserver.sublist hsub) ?_
      exact List.forall_mem_append.mpr ⟨hclient, hfinack hfin⟩
  | closed hst hdown hserver hclient =>
    have hfin : m.seg.header.type = SegType.fin := hserver m (hms ▸ List.mem_cons_self ..)
    have hsyn : m.seg.header.type ≠ SegType.syn := by rw [hfin]; decide
    refine .closed hst ((handles_state hr).2 hdown hsyn)
      (fun q hq => hserver q (hsub.subset hq)) (hclient.append ?_)
    intro q hq
    obtain ⟨seg, rfl, ha⟩ := hreply q hq
    exact fun h => hsyn (ha.synack_iff.mp h)

/-- The oldest segment reaches the client. -/
theorem Phase.clientTakes {s : Sys} (h : Phase s) {m : Msg} {ms : List Msg}
    (hms : s.toClient = m :: ms)
    (hera : s.client.tcb.state = .synsent → m.seg.header.type = SegType.synack →
      m.era = s.client.era)
    {r : Client.ClientTcb × List Client.SegBuf}
    (hr : Client.Handles s.client.tcb m.nodeID m.seg r) :
    Phase { s with
      client := { s.client with tcb := r.1, freed := s.client.freed ++ r.2.map (·.seg) }
      toClient := ms } ∧
    (s.client.tcb.state = .synsent → r.1.state = .connected → Agrees s) := by
  have hsub : ms.Sublist s.toClient := hms ▸ List.sublist_cons_self m ms
  have hm : m ∈ s.toClient := hms ▸ List.mem_cons_self ..
  cases hr with
  | ignored =>
    refine ⟨?_, fun hst h => by simp [hst] at h⟩
    simpa using h.fewer (List.Sublist.refl _) hsub
  | synack hst ht _ =>
    have hcurrent := hera hst ht
    cases h with
    | waiting _ _ hclient => exact absurd (hclient m hm ht) (by omega)
    | answered _ hagrees hserver hclient =>
      refine ⟨.connected rfl hagrees.state ?_ ?_, fun _ _ => hagrees⟩
      · intro q hq h
        exact absurd ((hserver q hq).type.symm.trans h) (by decide)
      · intro q hq
        have hall := (hms ▸ hclient).all_of_head fun h => absurd (h ht) (by omega)
        exact hall q (List.mem_cons_of_mem _ hq)
    | connected hst' _ _ _ => simp [hst] at hst'
    | closing hst' _ _ _ => simp [hst] at hst'
    | closed hst' _ _ _ => simp [hst] at hst'
  | dataack hst _ _ =>
    refine ⟨?_, fun hst' => by simp [hst] at hst'⟩
    cases h with
    | connected _ hup hserver hclient =>
      exact .connected hst hup hserver fun q hq => hclient q (hsub.subset hq)
    | waiting hst' _ _ => simp [hst] at hst'
    | answered hst' _ _ _ => simp [hst] at hst'
    | closing hst' _ _ _ => simp [hst] at hst'
    | closed hst' _ _ _ => simp [hst] at hst'
  | finack hst ht =>
    refine ⟨?_, fun _ h => by simp at h⟩
    cases h with
    | closed _ _ hserver hclient =>
      have hall := (hms ▸ hclient).all_of_head fun h => h ht
      refine .waiting (.inl rfl) (Then.of_left ?_) ?_
      · intro q hq h
        exact absurd ((hserver q hq).symm.trans h) (by decide)
      · intro q hq h
        exact absurd h (hall q (List.mem_cons_of_mem _ hq))
    | closing _ _ _ hclient => exact absurd ht (hclient m hm)
    | waiting hst' _ _ => simp [hst] at hst'
    | answered hst' _ _ _ => simp [hst] at hst'
    | connected hst' _ _ _ => simp [hst] at hst'

structure InPhase (s : Sys) : Prop where
  call : Client.CallOk s.client
  era : ∀ m ∈ s.toServer ++ s.toClient, m.era ≤ s.client.era
  phase : Phase s

theorem fresh_inPhase (clientNodeID clientPort svrNodeID svrPort : UInt32) :
    InPhase ⟨.fresh clientNodeID clientPort, .fresh svrNodeID svrPort, [], []⟩ where
  call := .fresh clientNodeID clientPort
  era := by simp
  phase := .waiting (.inl rfl) (.of_left (by simp)) (by simp)

theorem exists_cons_of_getElem?_zero {ms : List Msg} {m : Msg} (h : ms[0]? = some m) :
    ∃ ms', ms = m :: ms' ∧ rest ms 0 false = ms' := by
  cases ms with
  | nil => simp at h
  | cons m' ms' =>
    obtain rfl : m' = m := by simpa using h
    exact ⟨ms', rfl, rfl⟩

theorem InPhase.fewer {s : Sys} (hs : InPhase s) {toServer toClient : List Msg}
    (h1 : toServer.Sublist s.toServer) (h2 : toClient.Sublist s.toClient) :
    InPhase { s with toServer := toServer, toClient := toClient } where
  call := hs.call
  era m hm := hs.era m ((h1.append h2).subset hm)
  phase := hs.phase.fewer h1 h2

theorem InPhase.step {s t : Sys} (hs : InPhase s) {a : Action} (hfifo : InOrder a)
    (hmatched : Matched s a) (h : s.step a = some t) :
    InPhase t ∧ (s.client.tcb.state = .synsent → t.client.tcb.state = .connected →
      Agrees t ∧ t.client.call = s.client.call) := by
  cases steps_of_step h with
  | client a r _ hr =>
    have hmoves := moves_of_step hs.call hr
    refine ⟨⟨hs.call.step hr, ?_, hs.phase.client hs.call hs.era hr⟩, ?_⟩
    · intro m hm
      simp only [Sys.clientWrites, List.mem_append, List.mem_map] at hm
      rcases hm with (hm | ⟨_, _, rfl⟩) | hm
      · exact (hs.era m (List.mem_append_left _ hm)).trans hmoves.era
      · exact le_rfl
      · exact (hs.era m (List.mem_append_right _ hm)).trans hmoves.era
    · intro hst hst'
      have hst' : r.1.tcb.state = .connected := hst'
      simpa [hst'] using (hmoves.opening (.inr hst)).1
  | server a v hv =>
    refine ⟨⟨hs.call, hs.era, hs.phase.server hv⟩, ?_⟩
    intro hst hst'
    exact absurd (hst.symm.trans hst') (by decide)
  | toServer i dup m r hm hr =>
    obtain ⟨rfl, rfl⟩ := hfifo
    obtain ⟨ms, hms, hrest⟩ := exists_cons_of_getElem?_zero hm
    obtain ⟨v, out⟩ := r
    obtain ⟨r, hhandles, rfl, rfl⟩ := Server.receive_handles hr
    refine ⟨⟨hs.call, ?_, ?_⟩, ?_⟩
    · intro q hq
      have hera := hs.era m (List.mem_append_left _ (hms ▸ List.mem_cons_self ..))
      simp only [Sys.serverTakes, List.mem_append, List.mem_map] at hq
      rcases hq with hq | hq | ⟨_, _, rfl⟩
      · exact hs.era q (List.mem_append_left _ (mem_of_mem_rest hq))
      · exact hs.era q (List.mem_append_right _ hq)
      · exact hera
    · rw [Sys.serverTakes, hrest]
      exact hs.phase.serverTakes hms (fun ht hup => hmatched m hm hup ht) hhandles _
    · intro hst hst'
      exact absurd (hst.symm.trans hst') (by decide)
  | toClient i dup m c hm hc =>
    obtain ⟨rfl, rfl⟩ := hfifo
    obtain ⟨ms, hms, hrest⟩ := exists_cons_of_getElem?_zero hm
    have hcall := hs.call.receive hc
    obtain ⟨r, hr, rfl⟩ := Client.receive_handles hc
    obtain ⟨hphase, hagrees⟩ := hs.phase.clientTakes hms (hmatched m hm) hr
    refine ⟨⟨hcall, ?_, hrest ▸ hphase⟩, ?_⟩
    · intro q hq
      rcases List.mem_append.mp hq with hq | hq
      · exact hs.era q (List.mem_append_left _ hq)
      · have hq : q ∈ rest s.toClient 0 false := hq
        exact hs.era q (List.mem_append_right _ (mem_of_mem_rest hq))
    · intro hst hst'
      obtain ⟨hup, hport, hnode, hexpect⟩ := hagrees hst hst'
      refine ⟨?_, rfl⟩
      cases hr with
      | synack _ _ _ => exact ⟨hup, hport, hnode, hexpect⟩
      | ignored => exact ⟨hup, hport, hnode, hexpect⟩
      | dataack hst'' _ _ => simp [hst] at hst''
      | finack hst'' _ => simp [hst] at hst''
  | loseToServer i =>
    refine ⟨hs.fewer (List.eraseIdx_sublist ..) (List.Sublist.refl _), ?_⟩
    intro hst hst'
    exact absurd (hst.symm.trans hst') (by decide)
  | loseToClient i =>
    refine ⟨hs.fewer (List.Sublist.refl _) (List.eraseIdx_sublist ..), ?_⟩
    intro hst hst'
    exact absurd (hst.symm.trans hst') (by decide)

/-- The server agrees with the client that gets connected, whose `SYN`s carry `seqNum`. -/
def AgreesOn (s t : Sys) : Prop :=
  s.client.tcb.state = .synsent → t.client.tcb.state = .connected → Agrees t ∧
    ∀ syn tries, s.client.call = .connect syn tries →
      t.server.tcb.expectSeqNum = syn.header.seqNum

/-- In every run in order whose steps are matched, a client that gets connected has a server
that is connected with it and expects its next segment. -/
theorem connect_agrees (clientNodeID clientPort svrNodeID svrPort : UInt32) (s t : Sys)
    (a : Action) (h : (machine clientNodeID clientPort svrNodeID svrPort).Reachable
      (fun s a => InOrder a ∧ Matched s a) s) (hok : InOrder a ∧ Matched s a)
    (hstep : s.step a = some t) : AgreesOn s t := by
  have hs : InPhase s := by
    refine h.invariant ?_ fun s a t hs hok hstep => (hs.step hok.1 hok.2 hstep).1
    rintro _ rfl
    exact fresh_inPhase clientNodeID clientPort svrNodeID svrPort
  obtain ⟨ht, hagrees⟩ := hs.step hok.1 hok.2 hstep
  intro hst hst'
  obtain ⟨hagrees, hcall⟩ := hagrees hst hst'
  refine ⟨hagrees, ?_⟩
  intro syn tries hsyn
  obtain ⟨_, hseq, _⟩ := ht.call.connect syn tries (hcall.trans hsyn)
  exact hagrees.expect.trans hseq.symm

instance : DecidablePred InOrder := fun a => by
  unfold InOrder
  split <;> infer_instance

instance (s : Sys) : DecidablePred (Matched s) := fun a => by
  unfold Matched
  split <;> infer_instance

/-- Node 1 connects to port 80 of node 2. -/
def connect : List Action :=
  [.client (.connect 2 80 true), .deliverToServer 0 false]

def acceptAndConnect : List Action :=
  .server .accept :: connect ++
    [.deliverToClient 0 false, .client .connectReturn, .server .acceptReturn]

/-- One byte is sent, which the server does not get. -/
def sendInVain : List Action :=
  [.client (.send [7]), .client .queueSegment, .client (.sendReturn ⟨fun _ => 0, []⟩),
    .loseToServer 0]

def disconnect : List Action :=
  [.client (.disconnect true), .deliverToServer 0 false, .deliverToClient 0 false,
    .client .disconnectReturn, .server .closeWaitTimer]

/-- No `FIN` reaches the server. -/
def giveUp : List Action :=
  .client (.disconnect true) :: .loseToServer 0 ::
    (List.replicate 5 [.client (.resendFin true), .loseToServer 0]).flatten ++
    [.client .disconnectReturn]

/-- The second connection, after the first was closed by a `FIN`. -/
theorem connect_agrees_run : ∃ s t : Sys,
    (machine 1 4000 2 80).run (fun s a => InOrder a ∧ Matched s a)
      ⟨.fresh 1 4000, .fresh 2 80, [], []⟩
      (acceptAndConnect ++ sendInVain ++ disconnect ++ .server .accept :: connect) = some s ∧
    s.step (.deliverToClient 0 false) = some t ∧ s.client.tcb.state = .synsent ∧
    t.client.tcb.state = .connected ∧ AgreesOn s t := by
  obtain ⟨s, hrun, hs, hok, ht⟩ := (machine 1 4000 2 80).exists_of_run
    (fun s a => InOrder a ∧ Matched s a) rfl
    (acceptAndConnect ++ sendInVain ++ disconnect ++ .server .accept :: connect)
    (P := fun s => (InOrder (.deliverToClient 0 false) ∧ Matched s (.deliverToClient 0 false)) ∧
      (s.step (.deliverToClient 0 false)).any fun t =>
        s.client.tcb.state = .synsent ∧ t.client.tcb.state = .connected)
    (by decide +kernel)
  obtain ⟨t, hstep, ht⟩ := (Option.any_eq_true ..).mp ht
  obtain ⟨hst, hst'⟩ := of_decide_eq_true ht
  exact ⟨s, t, hrun, hstep, hst, hst', connect_agrees 1 4000 2 80 s t _ hs hok hstep⟩

/-- The server still has the first connection, and answers the `SYN` of the second. -/
theorem half_open_server_disagrees : ∃ s t : Sys,
    (machine 1 4000 2 80).run (fun _ a => InOrder a) ⟨.fresh 1 4000, .fresh 2 80, [], []⟩
      (acceptAndConnect ++ sendInVain ++ giveUp ++ connect) = some s ∧
    (machine 1 4000 2 80).Reachable (fun _ a => InOrder a) s ∧
    s.step (.deliverToClient 0 false) = some t ∧ ¬ AgreesOn s t := by
  obtain ⟨s, hrun, hs, ht⟩ := (machine 1 4000 2 80).exists_of_run (fun _ a => InOrder a) rfl
    (acceptAndConnect ++ sendInVain ++ giveUp ++ connect)
    (P := fun s => (s.step (.deliverToClient 0 false)).any fun t =>
      s.client.tcb.state = .synsent ∧ t.client.tcb.state = .connected ∧
        t.server.tcb.expectSeqNum ≠ t.client.tcb.nextSeqNum)
    (by decide +kernel)
  obtain ⟨t, hstep, ht⟩ := (Option.any_eq_true ..).mp ht
  obtain ⟨hst, hst', hexpect⟩ := of_decide_eq_true ht
  exact ⟨s, t, hrun, hs, hstep, fun h => hexpect (h hst hst').1.expect⟩

end DartNet.Srt
