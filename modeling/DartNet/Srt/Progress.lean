import DartNet.Srt.DeadEnd
import DartNet.Srt.Peers
import DartNet.Srt.Window

/-! Go-Back-N without the client's application: from any state of a connection the timer, the
acknowledgements and the server's application can bring everything queued to the server, unless
empty segments are in the way or a reader asks for too much. -/
namespace DartNet.Srt
open Transition Chunks Machine

/-- A resend, the arrival of a segment, the arrival of a `DATAACK` with the `sendMaxSegments` that
follows it in the same thread, or a step of the server's application. -/
inductive Turn : List Action → Prop
  | timer (env : Client.Env) : env.failed = [] → Turn [.client (.sendBufTimer env)]
  | segment (i : ℕ) : Turn [.deliverToServer i false]
  | dataack (i : ℕ) (env : Client.Env) : env.failed = [] →
      Turn [.deliverToClient i false, .client (.sendMaxSegments env)]
  | server (a : Server.Action) : Turn [.server a]

/-- The two ends of a connection. -/
structure Ends where
  clientNodeID : UInt32
  clientPort : UInt32
  svrNodeID : UInt32
  svrPort : UInt32

def Ends.machine (e : Ends) : Machine Sys Action :=
  Srt.machine e.clientNodeID e.clientPort e.svrNodeID e.svrPort

/-- A sequence of turns leads from one state to the other. -/
def Goes (e : Ends) (s t : Sys) : Prop :=
  ∃ turns : List (List Action), (∀ turn ∈ turns, Turn turn) ∧
    e.machine.run staysConnected s turns.flatten = some t

/-- A reader that waits leaves room for a segment. -/
def LeavesRoom (v : Server.Socket) : Prop :=
  ∀ length, v.call = .recv length → length ≤ v.tcb.buf.usedBufLen ∨
    length.toNat + maxSegLen ≤ receiveBufSize

/-- A state of an open connection where no `sendMaxSegments` has kept the mutex. -/
structure Live (e : Ends) (s : Sys) : Prop where
  reachable : e.machine.Reachable staysConnected s
  lt : (queuedBytes s.client).length < 2 ^ 32
  connected : s.client.tcb.state = .connected
  mutex : s.client.tcb.bufMutex = false
  recv : LeavesRoom s.server

/-- A state that the connection can come to, with the same queue. -/
structure Later (e : Ends) (s t : Sys) : Prop where
  goes : Goes e s t
  live : Live e t
  queued : t.client.queued = s.client.queued
  expect : s.server.tcb.expectSeqNum.toNat ≤ t.server.tcb.expectSeqNum.toNat
  freed : s.client.freed.length ≤ t.client.freed.length

section Turns
variable {e : Ends} {s t u : Sys}

theorem Goes.trans (h : Goes e s t) (h' : Goes e t u) : Goes e s u := by
  obtain ⟨turns, hturns, hrun⟩ := h
  obtain ⟨turns', hturns', hrun'⟩ := h'
  refine ⟨turns ++ turns', List.forall_mem_append.mpr ⟨hturns, hturns'⟩, ?_⟩
  rw [List.flatten_append, run_append, hrun, Option.bind_some, hrun']

theorem Later.trans (h : Later e s t) (h' : Later e t u) : Later e s u where
  goes := h.goes.trans h'.goes
  live := h'.live
  queued := h'.queued.trans h.queued
  expect := h.expect.trans h'.expect
  freed := h.freed.trans h'.freed

theorem Later.refl (h : Live e s) : Later e s s where
  goes := ⟨[], by simp, rfl⟩
  live := h
  queued := rfl
  expect := le_rfl
  freed := le_rfl

theorem Live.inStep (h : Live e s) : InStep s := inStep_of_reachable h.reachable h.lt

theorem Live.peers (h : Live e s) :
    Peers e.clientNodeID e.clientPort e.svrNodeID e.svrPort s := peers_of_reachable h.reachable

theorem goes_of_step {a : Action} (hturn : Turn [a]) (hok : staysConnected s a)
    (hs : s.step a = some t) : Goes e s t := by
  have hs : e.machine.step s a = some t := hs
  refine ⟨[[a]], by simpa using hturn, ?_⟩
  simp [run, hok, hs]

end Turns

section Server
variable {e : Ends} {s : Sys}

/-- A turn of the server's application. -/
theorem Live.server (h : Live e s) {a : Server.Action} {v : Server.Socket}
    (hv : s.server.step a = some v) (hrecv : LeavesRoom v) : Later e s { s with server := v } := by
  have hs : s.step (.server a) = some { s with server := v } := by simp [Sys.step, hv]
  have hok : staysConnected s (.server a) := trivial
  exact
    { goes := goes_of_step (.server a) hok hs
      live := { h with reachable := .step h.reachable hok hs, recv := hrecv }
      queued := rfl
      expect := (congrArg UInt32.toNat (server_step hv).2.2.2).ge
      freed := le_rfl }

theorem exists_recvReturn {v : Server.Socket} {length : UInt32} (hcall : v.call = .recv length)
    (hle : length ≤ v.tcb.buf.usedBufLen) : ∃ v', v.step .recvReturn = some v' ∧ v'.call = .idle ∧
      v'.tcb.buf.usedBufLen.toNat = v.tcb.buf.usedBufLen.toNat - length.toNat := by
  refine ⟨_, by rw [Server.Socket.step, hcall]; exact if_pos hle, rfl, ?_⟩
  exact Server.RecvBuf.usedBufLen_copyOut 0 hle

/-- There is room for a segment of any length. -/
def Roomy (v : Server.Socket) : Prop := v.tcb.buf.usedBufLen.toNat + maxSegLen < receiveBufSize

/-- The application reads all there is. -/
theorem Live.drain (h : Live e s) (hcall : s.server.call = .idle) :
    ∃ v, Later e s { s with server := v } ∧ Roomy v ∧
      v.tcb.expectSeqNum = s.server.tcb.expectSeqNum := by
  have hroom := h.inStep.room
  have hrecv : s.server.step (.recv s.server.tcb.buf.usedBufLen) =
      some { s.server with call := .recv s.server.tcb.buf.usedBufLen } := by
    simp [Server.Socket.step, hcall, hroom.le]
  have hleaves : LeavesRoom { s.server with call := .recv s.server.tcb.buf.usedBufLen } := by
    intro length hlength
    obtain rfl := Server.Call.recv.inj hlength
    exact .inl (UInt32.le_refl _)
  have hlater := h.server hrecv hleaves
  obtain ⟨v, hv, hidle, hused⟩ := exists_recvReturn (v := { s.server with
    call := .recv s.server.tcb.buf.usedBufLen }) rfl (UInt32.le_refl _)
  have hlater' := hlater.live.server hv (by simp [LeavesRoom, hidle])
  refine ⟨v, hlater.trans hlater', ?_, (server_step hv).2.2.2⟩
  rw [Roomy, hused, Nat.sub_self]
  decide

/-- The server's application can make room. -/
theorem Live.room (h : Live e s) : ∃ v, Later e s { s with server := v } ∧ Roomy v ∧
    v.tcb.expectSeqNum = s.server.tcb.expectSeqNum := by
  have hup := h.inStep.up h.connected
  have hidle : ∀ {a v}, s.server.step a = some v → v.call = .idle →
      ∃ v, Later e s { s with server := v } ∧ Roomy v ∧
        v.tcb.expectSeqNum = s.server.tcb.expectSeqNum := by
    intro a v hv hcall
    have hlater := h.server hv (by simp [LeavesRoom, hcall])
    obtain ⟨v', hlater', hroomy, hexpect⟩ := hlater.live.drain hcall
    exact ⟨v', hlater.trans hlater', hroomy, hexpect.trans (server_step hv).2.2.2⟩
  cases hcall : s.server.call with
  | idle => exact h.drain hcall
  | accept =>
    have hv : s.server.step .acceptReturn =
        some { s.server with call := .idle, accepted := some s.server.conn } := by
      simp [Server.Socket.step, hcall, hup]
    exact hidle hv rfl
  | recv length =>
    by_cases hle : length ≤ s.server.tcb.buf.usedBufLen
    · obtain ⟨v, hv, hcall, _⟩ := exists_recvReturn hcall hle
      exact hidle hv hcall
    · refine ⟨s.server, .refl h, ?_, rfl⟩
      have hlt : s.server.tcb.buf.usedBufLen.toNat < length.toNat := Nat.lt_of_not_le hle
      have hlength := (h.recv length hcall).resolve_left hle
      unfold Roomy
      omega

end Server

section Client
variable {e : Ends} {s : Sys}

theorem resendLoop_sent {env : Client.Env} (henv : env.failed = []) (unAck : UInt32) (k : ℕ)
    (bs : List Client.SegBuf) : (Client.resendLoop env unAck k bs).sent =
      (Client.resendLoop env unAck k bs).bufs.take (unAck.toNat + 1 - k) := by
  induction bs generalizing k with
  | nil => simp [Client.resendLoop]
  | cons b bs ih =>
    simp only [Client.resendLoop, henv, List.not_mem_nil, not_false_eq_true, if_true]
    split
    next hk =>
      rw [show unAck.toNat + 1 - k = unAck.toNat + 1 - (k + 1) + 1 by omega, List.take_succ_cons,
        ih (k + 1)]
    next hk => rw [show unAck.toNat + 1 - k = 0 by omega, List.take_zero]

/-- The timer sends the first `unAckSegNum + 1` nodes. -/
theorem exists_sendBufTimer {c : Client.Socket} (hc : Client.Chain c)
    (hmutex : c.tcb.bufMutex = false) {env : Client.Env} (henv : env.failed = []) :
    ∃ r, c.tcb.sendBufTimer env = some r ∧ ∀ z < c.tcb.sendBuf.length,
      z ≤ c.tcb.unAckSegNum.toNat → ∃ b, r.2[z]? = some b ∧
        c.queued[c.freed.length + z]? = some b.seg.clearChecksum := by
  refine ⟨_, by rw [Client.ClientTcb.sendBufTimer, hmutex]; rfl, ?_⟩
  intro z hz hle
  have hr := Client.resendLoop_resends env c.tcb.unAckSegNum 0 c.tcb.sendBuf
  have hlen := hr.same.length
  obtain ⟨b, hb⟩ : ∃ b, (Client.resendLoop env c.tcb.unAckSegNum 0 c.tcb.sendBuf).bufs[z]? =
      some b := ⟨_, List.getElem?_eq_getElem (hlen ▸ hz)⟩
  refine ⟨b, ?_, ?_⟩
  · simp only [resendLoop_sent henv]
    rw [List.getElem?_take_of_lt (by omega), hb]
  · obtain ⟨haddr, hq⟩ := hc.node hr.same hb
    rwa [haddr] at hq

/-- The timer fires, and the nodes it sends come behind what is on the way. -/
theorem Live.timer (h : Live e s) {env : Client.Env} (henv : env.failed = []) :
    ∃ t, Later e s t ∧ t.server = s.server ∧ t.toClient = s.toClient ∧
      t.client.freed = s.client.freed ∧ ∀ z < s.client.tcb.sendBuf.length,
        z ≤ s.client.tcb.unAckSegNum.toNat → ∃ m, t.toServer[s.toServer.length + z]? = some m ∧
          m.nodeID = e.clientNodeID ∧
          s.client.queued[s.client.freed.length + z]? = some m.seg.clearChecksum := by
  obtain ⟨r, hr, hnodes⟩ := exists_sendBufTimer h.inStep.chain h.mutex henv
  have hstep : s.client.step (.sendBufTimer env) = some (s.client.sentNodes r) := by
    simp [Client.Socket.step, hr]
  have hs : s.step (.client (.sendBufTimer env)) =
      some (s.clientWrites (s.client.sentNodes r)) := by
    simp [Sys.step, connectsTo, hstep]
  have hok : staysConnected s (.client (.sendBufTimer env)) := trivial
  obtain ⟨_, _, _, _, hsame⟩ := (Client.sendBufTimer_sendsFrom hr).same
  have hlive : Live e (s.clientWrites (s.client.sentNodes r)) :=
    { reachable := .step h.reachable hok hs
      lt := h.lt
      connected := by simp [Sys.clientWrites, Client.Socket.sentNodes, hsame, h.connected]
      mutex := Client.sendBufTimer_mutex hr
      recv := h.recv }
  refine ⟨_, ⟨goes_of_step (.timer env henv) hok hs, hlive, rfl, le_rfl, le_rfl⟩, rfl, rfl, rfl, ?_⟩
  intro z hz hle
  obtain ⟨b, hb, hq⟩ := hnodes z hz hle
  refine ⟨⟨r.1.clientNodeID, b.seg, s.client.era⟩, ?_, ?_, hq⟩
  · simp only [Sys.clientWrites, Client.Socket.sentNodes]
    rw [List.getElem?_append_right (Nat.le_add_right ..), Nat.add_sub_cancel_left]
    simp [hb]
  · rw [hsame]
    exact h.peers.clientSelf.1

end Client

section Delivery
variable {e : Ends} {s : Sys}

/-- A `DATAACK` of the connection. -/
structure Acks (e : Ends) (seqNum : UInt32) (m : Msg) : Prop where
  type : m.seg.header.type = SegType.dataack
  seqNum : m.seg.header.seqNum = seqNum
  nodeID : m.nodeID = e.svrNodeID
  srcPort : m.seg.header.srcPort = e.svrPort
  destPort : m.seg.header.destPort = e.clientPort

theorem handleData_eq {tcb : Server.SvrTcb} {srcNodeID : UInt32} {seg : Seg}
    (hst : tcb.state = .connected) (hport : tcb.svrPortNum = seg.header.destPort)
    (ht : seg.header.type = SegType.data) (hfrom : tcb.fromClient srcNodeID seg) :
    Server.seghandler tcb srcNodeID seg = Server.handleData tcb seg := by
  have hsyn : ¬ (seg.header.type = SegType.syn ∧ tcb.fromClient srcNodeID seg) := by
    rw [ht]
    exact fun h => absurd h.1 (by decide)
  have hfin : ¬ (seg.header.type = SegType.fin ∧ tcb.fromClient srcNodeID seg) := by
    rw [ht]
    exact fun h => absurd h.1 (by decide)
  unfold Server.seghandler
  rw [if_pos hport]
  simp only [hst, if_neg hsyn, if_neg hfin, if_pos (And.intro ht hfrom)]

/-- With room for it, a segment is taken if it is the next one, and answered in any case. -/
theorem exists_handleData {tcb : Server.SvrTcb} {seg : Seg}
    (hroom : tcb.buf.usedBufLen.toNat + maxSegLen < receiveBufSize)
    (hlen : seg.header.length.toNat ≤ maxSegLen) : ∃ r, Server.handleData tcb seg = some r ∧
      r.reply = some (r.tcb.reply SegType.dataack r.tcb.expectSeqNum) ∧
      (r.tcb = tcb.append seg ∧ seg.header.seqNum = tcb.expectSeqNum ∨
        r.tcb = tcb ∧ seg.header.seqNum ≠ tcb.expectSeqNum) := by
  by_cases htakes : tcb.takes seg
  · rw [Server.handleData, if_pos htakes, if_pos hlen]
    exact ⟨_, rfl, rfl, .inl ⟨rfl, htakes.1⟩⟩
  · rw [Server.handleData, if_neg htakes]
    refine ⟨_, rfl, rfl, .inr ⟨rfl, fun hseq => htakes ⟨hseq, ?_⟩⟩⟩
    simp only [UInt32.toNat_add, UInt16.toNat_toUInt32, receiveBufSize, maxSegLen] at *
    omega

/-- A segment of the queue arrives. The next one moves the server on, and each is answered. -/
theorem Live.deliver (h : Live e s) (hroomy : Roomy s.server) {i k : ℕ} {m : Msg}
    (hm : s.toServer[i]? = some m) (hnode : m.nodeID = e.clientNodeID)
    (hk : s.client.queued[k]? = some m.seg.clearChecksum) : ∃ t, Later e s t ∧
      t.client = s.client ∧ (∃ ack, t.toClient[s.toClient.length]? = some ack ∧
        Acks e t.server.tcb.expectSeqNum ack) ∧
      (offset Seg.payload s.client.queued k = s.server.tcb.expectSeqNum.toNat →
        t.server.tcb.expectSeqNum.toNat = offset Seg.payload s.client.queued (k + 1)) := by
  have hin := h.inStep
  have hpeers := h.peers
  have hup := hin.up h.connected
  have hdata : DataTo e.clientPort e.svrPort m.seg :=
    { hpeers.queued _ (List.mem_of_getElem? hk) with }
  have hport : s.server.tcb.svrPortNum = m.seg.header.destPort :=
    hpeers.serverSelf.2.trans hdata.destPort.symm
  have hfrom : s.server.tcb.fromClient m.nodeID m.seg := by
    obtain ⟨hnode', hport'⟩ := hpeers.server hup
    exact ⟨hport'.trans hdata.srcPort.symm, hnode'.trans hnode.symm⟩
  obtain ⟨r, hr, hreply, htcb⟩ := exists_handleData hroomy hdata.length
  have hreceive : s.server.receive m.nodeID m.seg = some (s.server.handled r, r.reply.toList) := by
    rw [Server.Socket.receive, handleData_eq hup hport hdata.type hfrom]
    exact congrArg (Option.map _) hr
  have hs : s.step (.deliverToServer i false) =
      some (s.serverTakes i false m (s.server.handled r, r.reply.toList)) := by
    simp [Sys.step, hm, hreceive]
  have hok : staysConnected s (.deliverToServer i false) := trivial
  have hnum : m.seg.clearChecksum.header.seqNum.toNat = offset Seg.payload s.client.queued k :=
    hin.numbered.seqNum k _ hk
  replace hnum : m.seg.header.seqNum.toNat = _ := hnum
  have hpay := Seg.length_payload hdata.length
  have hsucc := offset_succ Seg.payload hk
  rw [Seg.payload_clearChecksum, hpay] at hsucc
  have hend := (offset_le Seg.payload s.client.queued (k + 1)).trans_lt h.lt
  have hself : r.tcb.svrNodeID = e.svrNodeID ∧ r.tcb.svrPortNum = e.svrPort ∧
      r.tcb.clientPortNum = e.clientPort := by
    obtain ⟨heq, _⟩ | ⟨heq, _⟩ := htcb <;> rw [heq] <;>
      exact ⟨hpeers.serverSelf.1, hpeers.serverSelf.2, (hpeers.server hup).2⟩
  have hexpect : s.server.tcb.expectSeqNum.toNat ≤ r.tcb.expectSeqNum.toNat ∧
      (offset Seg.payload s.client.queued k = s.server.tcb.expectSeqNum.toNat →
        r.tcb.expectSeqNum.toNat = offset Seg.payload s.client.queued (k + 1)) := by
    obtain ⟨heq, hseq⟩ | ⟨heq, hseq⟩ := htcb
    · rw [hseq] at hnum
      rw [heq]
      simp only [Server.SvrTcb.append, UInt32.toNat_add, UInt16.toNat_toUInt32]
      omega
    · rw [heq]
      exact ⟨le_rfl, fun hk => absurd (UInt32.toNat_inj.mp (hnum.trans hk)) hseq⟩
  have hused : s.server.tcb.buf.usedBufLen.toNat ≤ r.tcb.buf.usedBufLen.toNat := by
    obtain ⟨heq, _⟩ | ⟨heq, _⟩ := htcb
    · have hlen := hdata.length
      have hsize : receiveBufSize < 2 ^ 32 := by decide
      have hnowrap : s.server.tcb.buf.usedBufLen.toNat + m.seg.payload.length < 2 ^ 32 := by
        unfold Roomy at hroomy
        omega
      rw [heq, Server.SvrTcb.append_buf, Server.RecvBuf.usedBufLen_store hnowrap]
      exact Nat.le_add_right ..
    · rw [heq]
  have hlive : Live e (s.serverTakes i false m (s.server.handled r, r.reply.toList)) :=
    { reachable := .step h.reachable hok hs
      lt := h.lt
      connected := h.connected
      mutex := h.mutex
      recv := fun length hcall => (h.recv length hcall).imp_left fun hle =>
        UInt32.le_iff_toNat_le.mpr ((UInt32.le_iff_toNat_le.mp hle).trans hused) }
  refine ⟨_, ⟨goes_of_step (.segment i) hok hs, hlive, rfl, hexpect.1, le_rfl⟩, rfl,
    ⟨⟨r.tcb.svrNodeID, r.tcb.reply SegType.dataack r.tcb.expectSeqNum, m.era⟩, ?_, ?_⟩, hexpect.2⟩
  · simp [Sys.serverTakes, hreply, Server.Socket.handled]
  · exact ⟨rfl, rfl, hself.1, hself.2.1, hself.2.2⟩

end Delivery

section Acknowledgement
variable {e : Ends} {s : Sys}

theorem sendMaxLoop_stops {env : Client.Env} (henv : env.failed = []) (k : ℕ) (unAck : UInt32)
    (bs : List Client.SegBuf) : (Client.sendMaxLoop env k unAck bs).currentSegBuf = none ∨
      gbnWindow < (Client.sendMaxLoop env k unAck bs).unAckSegNum.toNat := by
  induction bs generalizing k unAck with
  | nil => exact .inl rfl
  | cons b bs ih =>
    simp only [Client.sendMaxLoop, henv, List.not_mem_nil, not_false_eq_true, if_true]
    split
    next => exact ih (k + 1) (unAck + 1)
    next hfull => exact .inr (by simpa using hfull)

/-- `sendMaxSegments` sends until nothing is left or the window is full. -/
theorem exists_sendMaxSegments {c : Client.Socket} (hc : Client.Chain c)
    (hmutex : c.tcb.bufMutex = false) {env : Client.Env} (henv : env.failed = []) :
    ∃ r, c.tcb.sendMaxSegments env = some r ∧
      (r.1.sendBufunSent = none ∨ gbnWindow < r.1.unAckSegNum.toNat) := by
  cases hptr : c.tcb.sendBufunSent with
  | none =>
    refine ⟨(c.tcb, []), ?_, .inl hptr⟩
    simp [Client.ClientTcb.sendMaxSegments, hmutex, hptr]
  | some a =>
    have hcount : c.sentCount = a := by
      rw [Client.Socket.sentCount, hmutex, hptr]
      rfl
    have hle := hcount ▸ hc.freed_le
    have hlen := hc.length
    have hlt := hc.unSent a hptr
    obtain ⟨_, hunsent⟩ := Client.takeWhile_addr_ne hc.addr hle (by omega)
    have hne : c.tcb.sendBuf.dropWhile (·.addr ≠ a) ≠ [] := by
      rw [hunsent, Ne, List.drop_eq_nil_iff]
      omega
    have hloop := sendMaxLoop_stops henv 0 c.tcb.unAckSegNum
      (c.tcb.sendBuf.dropWhile (·.addr ≠ a))
    have hfailed := Client.sendMaxLoop_failed henv 0 c.tcb.unAckSegNum
      (c.tcb.sendBuf.dropWhile (·.addr ≠ a))
    generalize hq : Client.sendMaxLoop env 0 c.tcb.unAckSegNum
      (c.tcb.sendBuf.dropWhile (·.addr ≠ a)) = q at hloop hfailed
    refine ⟨({ c.tcb with
      bufMutex := q.failed
      sendBuf := c.tcb.sendBuf.takeWhile (·.addr ≠ a) ++ q.bufs
      sendBufunSent := if q.failed then some a else q.currentSegBuf
      unAckSegNum := q.unAckSegNum }, q.sent), ?_, ?_⟩
    · simp only [Client.ClientTcb.sendMaxSegments, hmutex, hptr]
      rw [if_neg (by decide), if_neg hne, hq]
    · simpa [hfailed] using hloop

/-- When no node in front is acknowledged, the nodes freed reach up to the acknowledgement. -/
theorem le_offset_freed {c : Client.Socket} (hnum : Numbered c) (hc : Client.Chain c)
    {ack : UInt32} (hle : ack.toNat ≤ (queuedBytes c).length)
    (hhead : ∀ b, c.tcb.sendBuf.head? = some b → ¬ b.seg.header.seqNum < ack) :
    ack.toNat ≤ offset Seg.payload c.queued c.freed.length := by
  have hlen := hc.length
  cases hbuf : c.tcb.sendBuf with
  | nil =>
    rw [hbuf, List.length_nil, Nat.add_zero] at hlen
    rw [hlen, offset_length]
    exact hle
  | cons b bs =>
    have hb : c.tcb.sendBuf[0]? = some b := by simp [hbuf]
    have hseq := hnum.seqNum _ _ (hc.getElem? hb).2
    rw [Nat.add_zero] at hseq
    rw [← hseq]
    exact Nat.le_of_not_lt fun hlt => hhead b (by simp [hbuf]) (UInt32.lt_iff_toNat_lt.mpr hlt)

/-- The client takes a `DATAACK` of the number expected. -/
theorem Live.takeAck (h : Live e s) {i : ℕ} {m : Msg} (hm : s.toClient[i]? = some m)
    (hack : Acks e s.server.tcb.expectSeqNum m) : ∃ t, s.step (.deliverToClient i false) = some t ∧
      Live e t ∧ t.server = s.server ∧ t.client.queued = s.client.queued ∧
      s.client.freed.length ≤ t.client.freed.length ∧
      offset Seg.payload s.client.queued t.client.freed.length =
        s.server.tcb.expectSeqNum.toNat := by
  have hpeers := h.peers
  have hfrom : s.client.tcb.fromServer m.nodeID m.seg := by
    obtain ⟨hnode, hport⟩ := hpeers.client (by simp [h.connected])
    exact ⟨hport.trans hack.srcPort.symm, hnode.trans hack.nodeID.symm⟩
  have hreceive : s.client.receive m.nodeID m.seg = some { s.client with
      tcb := s.client.tcb.freeAcked s.server.tcb.expectSeqNum
      freed := s.client.freed ++ (s.client.tcb.acked s.server.tcb.expectSeqNum).map (·.seg) } := by
    rw [Client.Socket.receive, Client.seghandler,
      if_pos (hpeers.clientSelf.2.trans hack.destPort.symm)]
    simp only [h.connected, hack.type, hfrom, and_self, if_true, h.mutex, hack.seqNum]
    rfl
  have hs : s.step (.deliverToClient i false) = some { s with
      client := { s.client with
        tcb := s.client.tcb.freeAcked s.server.tcb.expectSeqNum
        freed := s.client.freed ++ (s.client.tcb.acked s.server.tcb.expectSeqNum).map (·.seg) }
      toClient := rest s.toClient i false } := by
    simp [Sys.step, hm, hreceive]
  have hok : staysConnected s (.deliverToClient i false) := trivial
  have hlive := (⟨.step h.reachable hok hs, h.lt, h.connected, h.mutex, h.recv⟩ : Live e _)
  refine ⟨_, hs, hlive, rfl, rfl, by simp, ?_⟩
  have hin := hlive.inStep
  refine Nat.le_antisymm hin.freed (le_offset_freed hin.numbered hin.chain ?_ ?_)
  · obtain ⟨k, _, he⟩ := hin.expect
    exact he.trans_le (offset_le ..)
  · intro b hb
    have hb : (s.client.tcb.sendBuf.dropWhile
      (·.seg.header.seqNum < s.server.tcb.expectSeqNum)).head? = some b := hb
    have hhead := List.head?_dropWhile_not
      (fun b : Client.SegBuf => b.seg.header.seqNum < s.server.tcb.expectSeqNum)
      s.client.tcb.sendBuf
    rw [hb] at hhead
    simpa using hhead

/-- A `DATAACK` of the number expected, and the `sendMaxSegments` behind it: the nodes before that
number are freed, and the timer will pass all nodes within reach. -/
theorem Live.ack (h : Live e s) {i : ℕ} {m : Msg} (hm : s.toClient[i]? = some m)
    (hack : Acks e s.server.tcb.expectSeqNum m) {env : Client.Env} (henv : env.failed = []) :
    ∃ t, Later e s t ∧ t.server = s.server ∧
      offset Seg.payload s.client.queued t.client.freed.length =
        s.server.tcb.expectSeqNum.toNat ∧
      ∀ z < t.client.tcb.sendBuf.length, z < reach → z ≤ t.client.tcb.unAckSegNum.toNat := by
  obtain ⟨u, hu, hlive, hserver, hqueued, hfreed, hoffset⟩ := h.takeAck hm hack
  obtain ⟨r, hr, hstops⟩ := exists_sendMaxSegments hlive.inStep.chain hlive.mutex henv
  have hstep : u.client.step (.sendMaxSegments env) = some (u.client.sentNodes r) := by
    simp [Client.Socket.step, hr]
  have ht : u.step (.client (.sendMaxSegments env)) =
      some (u.clientWrites (u.client.sentNodes r)) := by
    simp [Sys.step, connectsTo, hstep]
  have hok : staysConnected s (.deliverToClient i false) := trivial
  have hok' : staysConnected u (.client (.sendMaxSegments env)) := trivial
  obtain ⟨_, _, _, _, hsame⟩ := (Client.sendMaxSegments_sendsFrom hr).same
  have hmutex := Client.sendMaxSegments_mutex henv hr
  have hlive' : Live e (u.clientWrites (u.client.sentNodes r)) :=
    { reachable := .step hlive.reachable hok' ht
      lt := hlive.lt
      connected := by simp [Sys.clientWrites, Client.Socket.sentNodes, hsame, hlive.connected]
      mutex := hmutex
      recv := hlive.recv }
  have hgoes : Goes e s (u.clientWrites (u.client.sentNodes r)) := by
    have hu : e.machine.step s (.deliverToClient i false) = some u := hu
    have ht : e.machine.step u (.client (.sendMaxSegments env)) = some _ := ht
    refine ⟨[_], by simpa using Turn.dataack i env henv, ?_⟩
    simp [run, hok, hok', hu, ht]
  refine ⟨_, ⟨hgoes, hlive', hqueued, ?_, hfreed⟩, hserver, hoffset, ?_⟩
  · exact (congrArg (·.tcb.expectSeqNum.toNat) hserver).ge
  · intro z hz hreach
    have hchain := hlive'.inStep.chain
    have hwin := hchain.window hmutex
    have hlen := hchain.length
    rcases hstops with hnone | hfull
    · have hcount : (u.client.sentNodes r).1.sentCount =
          (u.client.sentNodes r).1.queued.length := by
        simp [Client.Socket.sentCount, Client.Socket.sentNodes, hmutex, hnone]
      simp only [Sys.clientWrites] at hwin hlen hz ⊢
      omega
    · have hfull : gbnWindow < (u.client.sentNodes r).1.tcb.unAckSegNum.toNat := hfull
      simp only [Sys.clientWrites, reach] at hreach ⊢
      omega

end Acknowledgement

section Rounds
variable {e : Ends} {s : Sys}

/-- In the send buffer, a segment with data stands behind more empty ones than are sent before
one is freed. -/
def Stalls (segs : List Seg) : Prop :=
  ∃ k, (∃ q, segs[k + reach]? = some q ∧ q.payload ≠ []) ∧
    ∀ j < reach, ∃ q, segs[k + j]? = some q ∧ q.payload = []

theorem Stalls.of_drop {segs : List Seg} {n : ℕ} (h : Stalls (segs.drop n)) : Stalls segs := by
  obtain ⟨k, ⟨q, hq, hdata⟩, hempty⟩ := h
  rw [List.getElem?_drop] at hq
  refine ⟨n + k, ⟨q, by rwa [Nat.add_assoc], hdata⟩, fun j hj => ?_⟩
  obtain ⟨q, hq, hnil⟩ := hempty j hj
  rw [List.getElem?_drop] at hq
  exact ⟨q, by rwa [Nat.add_assoc], hnil⟩

theorem Stalls.of_clearChecksum {bs : List Client.SegBuf}
    (h : Stalls (bs.map (·.seg.clearChecksum))) : Stalls (bs.map (·.seg)) := by
  have hseg : ∀ {i : ℕ} {q : Seg}, (bs.map (·.seg.clearChecksum))[i]? = some q →
      ∃ p, (bs.map (·.seg))[i]? = some p ∧ p.payload = q.payload := by
    intro i q hq
    rw [List.getElem?_map] at hq
    obtain ⟨b, hb, rfl⟩ := Option.map_eq_some_iff.mp hq
    exact ⟨b.seg, by rw [List.getElem?_map, hb, Option.map_some], rfl⟩
  obtain ⟨k, ⟨q, hq, hdata⟩, hempty⟩ := h
  obtain ⟨p, hp, hpay⟩ := hseg hq
  refine ⟨k, ⟨p, hp, hpay ▸ hdata⟩, fun j hj => ?_⟩
  obtain ⟨q, hq, hnil⟩ := hempty j hj
  obtain ⟨p, hp, hpay⟩ := hseg hq
  exact ⟨p, hp, hpay.trans hnil⟩

theorem Later.stalls {t : Sys} (h : Later e s t)
    (hstalls : ¬ Stalls (s.client.queued.drop s.client.freed.length)) :
    ¬ Stalls (t.client.queued.drop t.client.freed.length) := by
  intro ht
  apply hstalls
  obtain ⟨n, hn⟩ := Nat.exists_eq_add_of_le h.freed
  rw [h.queued, hn, ← List.drop_drop] at ht
  exact ht.of_drop

/-- The first node is sent again and its `DATAACK` comes back. -/
theorem Live.synchronize (h : Live e s) (hbuf : s.client.tcb.sendBuf ≠ []) :
    ∃ t, Later e s t ∧ offset Seg.payload t.client.queued t.client.freed.length =
        t.server.tcb.expectSeqNum.toNat ∧
      ∀ z < t.client.tcb.sendBuf.length, z < reach → z ≤ t.client.tcb.unAckSegNum.toNat := by
  have henv : (⟨fun _ => 0, []⟩ : Client.Env).failed = [] := rfl
  obtain ⟨v, hroom, hroomy, _⟩ := h.room
  obtain ⟨t, htimer, hserver, htoClient, hfreed, hnodes⟩ := hroom.live.timer henv
  obtain ⟨m, hm, hnode, hq⟩ := hnodes 0 (List.length_pos_iff.mpr hbuf) (Nat.zero_le _)
  rw [← htimer.queued] at hq
  obtain ⟨u, hdeliver, hclient, ⟨ack, hack, hacks⟩, _⟩ :=
    htimer.live.deliver (hserver ▸ hroomy) hm hnode hq
  obtain ⟨w, hacked, hserver', hoffset, hwindow⟩ := hdeliver.live.ack hack hacks henv
  refine ⟨w, ((hroom.trans htimer).trans hdeliver).trans hacked, ?_, hwindow⟩
  rw [hacked.queued, hoffset, hserver']

/-- From there the next segment with data is within reach. -/
theorem Live.advance (h : Live e s) (hoffset : offset Seg.payload s.client.queued
      s.client.freed.length = s.server.tcb.expectSeqNum.toNat)
    (hwindow : ∀ z < s.client.tcb.sendBuf.length, z < reach →
      z ≤ s.client.tcb.unAckSegNum.toNat)
    (hlt : s.server.tcb.expectSeqNum.toNat < (queuedBytes s.client).length)
    (hstalls : ¬ Stalls (s.client.queued.drop s.client.freed.length)) :
    ∃ t, Later e s t ∧ s.server.tcb.expectSeqNum.toNat < t.server.tcb.expectSeqNum.toNat := by
  obtain ⟨z, q, hq, hdata, hempty⟩ := exists_next Seg.payload (hoffset ▸ hlt)
  have hlen := h.inStep.chain.length
  have hz : z < reach := by
    by_contra hge
    refine hstalls ⟨z - reach, ⟨q, ?_, hdata⟩, fun j hj => ?_⟩
    · rw [List.getElem?_drop, show s.client.freed.length + (z - reach + reach) =
        s.client.freed.length + z by omega, hq]
    · obtain ⟨q, hq, hnil⟩ := hempty (z - reach + j) (by omega)
      exact ⟨q, by rw [List.getElem?_drop, hq], hnil⟩
  have hzlen : z < s.client.tcb.sendBuf.length := by
    have := (List.getElem?_eq_some_iff.mp hq).1
    omega
  have henv : (⟨fun _ => 0, []⟩ : Client.Env).failed = [] := rfl
  obtain ⟨v, hroom, hroomy, hexpect⟩ := h.room
  obtain ⟨t, htimer, hserver, _, hfreed, hnodes⟩ := hroom.live.timer henv
  obtain ⟨m, hm, hnode, hqm⟩ := hnodes z hzlen (hwindow z hzlen hz)
  rw [← htimer.queued] at hqm
  obtain ⟨u, hdeliver, _, _, hmoves⟩ := htimer.live.deliver (hserver ▸ hroomy) hm hnode hqm
  refine ⟨u, (hroom.trans htimer).trans hdeliver, ?_⟩
  have hstart := offset_add_of_nil Seg.payload hempty
  have hsucc := offset_succ Seg.payload hq
  have hpos := List.length_pos_iff.mpr hdata
  have hqueued : t.client.queued = s.client.queued := htimer.queued
  rw [hqueued, hserver] at hmoves
  dsimp only at hmoves
  rw [hexpect] at hmoves
  rw [hmoves (hstart.trans hoffset)]
  omega

theorem InStep.expect_le (h : InStep s) :
    s.server.tcb.expectSeqNum.toNat ≤ (queuedBytes s.client).length := by
  obtain ⟨k, _, he⟩ := h.expect
  exact he.trans_le (offset_le ..)

/-- One round, while the server has not yet everything. -/
theorem Live.round (h : Live e s)
    (hlt : s.server.tcb.expectSeqNum.toNat < (queuedBytes s.client).length)
    (hstalls : ¬ Stalls (s.client.queued.drop s.client.freed.length)) :
    ∃ t, Later e s t ∧ s.server.tcb.expectSeqNum.toNat < t.server.tcb.expectSeqNum.toNat := by
  have hbuf : s.client.tcb.sendBuf ≠ [] := by
    intro hnil
    have hlen := h.inStep.chain.length
    have hfreed := h.inStep.freed
    rw [hnil, List.length_nil, Nat.add_zero] at hlen
    rw [hlen, offset_length] at hfreed
    exact absurd hlt (Nat.not_lt.mpr hfreed)
  obtain ⟨t, hlater, hoffset, hwindow⟩ := h.synchronize hbuf
  have hexpect := hlater.expect
  rcases Nat.lt_or_eq_of_le hexpect with hlt' | heq
  · exact ⟨t, hlater, hlt'⟩
  · have hlt' : t.server.tcb.expectSeqNum.toNat < (queuedBytes t.client).length := by
      rw [← heq, queuedBytes, hlater.queued]
      exact hlt
    obtain ⟨u, hlater', hlt'⟩ := hlater.live.advance hoffset hwindow hlt' (hlater.stalls hstalls)
    exact ⟨u, hlater.trans hlater', heq ▸ hlt'⟩

theorem Live.complete (h : Live e s)
    (hstalls : ¬ Stalls (s.client.queued.drop s.client.freed.length)) :
    ∃ t, Later e s t ∧ t.server.tcb.expectSeqNum.toNat = (queuedBytes t.client).length := by
  induction hn : (queuedBytes s.client).length - s.server.tcb.expectSeqNum.toNat using
    Nat.strongRecOn generalizing s with
  | ind n ih =>
    have hle := h.inStep.expect_le
    rcases Nat.lt_or_eq_of_le hle with hlt | heq
    · obtain ⟨t, hlater, hmore⟩ := h.round hlt hstalls
      have hbytes : queuedBytes t.client = queuedBytes s.client := by
        rw [queuedBytes, hlater.queued, queuedBytes]
      obtain ⟨u, hlater', hall⟩ := ih _ (by rw [hbytes, ← hn]; omega) hlater.live
        (hlater.stalls hstalls) rfl
      exact ⟨u, hlater.trans hlater', hall⟩
    · exact ⟨s, .refl h, heq⟩

end Rounds

section Runs
variable {clientNodeID clientPort svrNodeID svrPort : UInt32} {s : Sys}

/-- From every state of a connection in which no `sendMaxSegments` has kept the mutex, no reader
asks for too much and no data stands behind twelve empty segments, the resends of the timer and
the `DATAACK`s can bring all that is queued to the server. What is left in the send buffer then
is empty. -/
theorem delivery_completes
    (h : (machine clientNodeID clientPort svrNodeID svrPort).Reachable staysConnected s)
    (hlt : (queuedBytes s.client).length < 2 ^ 32) (hconn : s.client.tcb.state = .connected)
    (hmutex : s.client.tcb.bufMutex = false) (hrecv : LeavesRoom s.server)
    (hstalls : ¬ Stalls (s.client.tcb.sendBuf.map (·.seg))) :
    ∃ (turns : List (List Action)) (t : Sys), (∀ turn ∈ turns, Turn turn) ∧
      (machine clientNodeID clientPort svrNodeID svrPort).run staysConnected s turns.flatten =
        some t ∧
      receivedBytes t.server = queuedBytes s.client ∧
      ∀ b ∈ t.client.tcb.sendBuf, b.seg.payload = [] := by
  have hlive : Live ⟨clientNodeID, clientPort, svrNodeID, svrPort⟩ s :=
    ⟨h, hlt, hconn, hmutex, hrecv⟩
  have hstalls' : ¬ Stalls (s.client.queued.drop s.client.freed.length) := by
    rw [← hlive.inStep.chain.seg]
    exact fun hst => hstalls hst.of_clearChecksum
  obtain ⟨t, hlater, hall⟩ := hlive.complete hstalls'
  obtain ⟨u, hlater', hoffset⟩ : ∃ u, Later ⟨clientNodeID, clientPort, svrNodeID, svrPort⟩ t u ∧
      (queuedBytes u.client).length ≤
        offset Seg.payload u.client.queued u.client.freed.length := by
    by_cases hbuf : t.client.tcb.sendBuf = []
    · have hlen := hlater.live.inStep.chain.length
      rw [hbuf, List.length_nil, Nat.add_zero] at hlen
      exact ⟨t, .refl hlater.live, by rw [hlen, offset_length, queuedBytes]⟩
    · obtain ⟨u, hlater', hoffset, _⟩ := hlater.live.synchronize hbuf
      have hexpect := hlater'.expect
      rw [hall] at hexpect
      exact ⟨u, hlater', by rw [hoffset, queuedBytes, hlater'.queued]; exact hexpect⟩
  have hboth := hlater.trans hlater'
  have hin := hboth.live.inStep
  obtain ⟨turns, hturns, hrun⟩ := hboth.goes
  refine ⟨turns, u, hturns, hrun, ?_, ?_⟩
  · rw [hin.received, List.take_of_length_le (hoffset.trans hin.freed), queuedBytes,
      hboth.queued, queuedBytes]
  · intro b hb
    obtain ⟨i, hi⟩ := List.mem_iff_getElem?.mp hb
    have hq := (hin.chain.getElem? hi).2
    have hsucc := offset_succ Seg.payload hq
    have hmono := offset_mono Seg.payload u.client.queued (Nat.le_add_right u.client.freed.length i)
    have hend := offset_le Seg.payload u.client.queued (u.client.freed.length + i + 1)
    rw [Seg.payload_clearChecksum] at hsucc
    apply List.eq_nil_of_length_eq_zero
    unfold queuedBytes at hoffset
    omega

/-- The only segment of a message is lost, and arrives after all. -/
theorem delivery_completes_lost : ∃ s : Sys,
    (machine 1 4000 2 80).run staysConnected ⟨.fresh 1 4000, .fresh 2 80, [], []⟩
      (establish ++ [.client (.send [7, 8]), .client .queueSegment,
        .client (.sendReturn ⟨fun _ => 0, []⟩), .loseToServer 0]) = some s ∧
    s.toServer.length = 0 ∧ receivedBytes s.server = [] ∧
    ∃ (turns : List (List Action)) (t : Sys), (∀ turn ∈ turns, Turn turn) ∧
      (machine 1 4000 2 80).run staysConnected s turns.flatten = some t ∧
      receivedBytes t.server = [7, 8] := by
  obtain ⟨s, hrun, hs, hbytes, hconn, hmutex, hcall, hlen, hlost, hnone⟩ :=
    (machine 1 4000 2 80).exists_of_run staysConnected rfl
      (establish ++ [.client (.send [7, 8]), .client .queueSegment,
        .client (.sendReturn ⟨fun _ => 0, []⟩), .loseToServer 0])
      (P := fun s => queuedBytes s.client = [7, 8] ∧ s.client.tcb.state = .connected ∧
        s.client.tcb.bufMutex = false ∧ s.server.call = .idle ∧ s.client.tcb.sendBuf.length = 1 ∧
        s.toServer.length = 0 ∧ receivedBytes s.server = [])
      (by decide +kernel)
  have hrecv : LeavesRoom s.server := by simp [LeavesRoom, hcall]
  have hstalls : ¬ Stalls (s.client.tcb.sendBuf.map (·.seg)) := by
    rintro ⟨k, ⟨q, hq, _⟩, _⟩
    have hlt := (List.getElem?_eq_some_iff.mp hq).1
    rw [List.length_map, hlen] at hlt
    simp only [reach, gbnWindow] at hlt
    omega
  obtain ⟨turns, t, hturns, hrun', hreceived, _⟩ :=
    delivery_completes hs (by rw [hbytes]; decide) hconn hmutex hrecv hstalls
  exact ⟨s, hrun, hlost, hnone, turns, t, hturns, hrun', hreceived.trans hbytes⟩

end Runs
end DartNet.Srt
