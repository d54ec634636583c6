import DartNet.Foundation.Chunks
import DartNet.Srt.System
import Mathlib.Data.List.Infix
import Mathlib.Data.List.TakeWhile

/-! One connection over a network that loses, duplicates and reorders: the client's sequence
numbers, what is in flight, `expect_seqNum` and the receive buffer stay in step. -/
namespace DartNet.Srt
open Transition Chunks

/-- The bytes of the segments put into the send buffer so far. -/
def queuedBytes (c : Client.Socket) : List UInt8 := c.queued.flatMap Seg.payload

/-- The bytes returned so far, then those still in the receive buffer. -/
def receivedBytes (v : Server.Socket) : List UInt8 :=
  v.returned.flatMap (·.bytes) ++ v.tcb.buf.contents

/-- Sequence numbers are positions in the stream of queued bytes. -/
structure Numbered (c : Client.Socket) : Prop where
  seqNum : ∀ i q, c.queued[i]? = some q →
    q.header.seqNum.toNat = offset Seg.payload c.queued i
  next : c.tcb.nextSeqNum.toNat = (queuedBytes c).length

theorem dataSeg_length (tcb : Client.ClientTcb) {n : ℕ} (hn : n ≤ maxSegLen)
    (data : List UInt8) : (tcb.dataSeg n data).header.length.toNat = n :=
  UInt16.toNat_ofNat_of_lt' (show n < 2 ^ 16 by simp only [maxSegLen] at hn; omega)

theorem queuedBytes_queue (c : Client.Socket) (data : List UInt8) (num dataRemainder : ℕ) :
    queuedBytes (c.queue data num dataRemainder) = queuedBytes c ++
      (c.tcb.dataSeg (if 0 < num then maxSegLen else dataRemainder) data).payload := by
  simp [queuedBytes, Client.Socket.queue]

theorem Numbered.queue {c : Client.Socket} (hc : Numbered c) {data : List UInt8}
    {num dataRemainder : ℕ} (hrem : dataRemainder < maxSegLen)
    (hlt : (queuedBytes (c.queue data num dataRemainder)).length < 2 ^ 32) :
    Numbered (c.queue data num dataRemainder) := by
  rw [queuedBytes_queue, List.length_append] at hlt
  have hle : (if 0 < num then maxSegLen else dataRemainder) ≤ maxSegLen := by split <;> omega
  have hlen := dataSeg_length c.tcb hle data
  have hpay := Seg.length_payload (hlen.trans_le hle)
  have hbytes := queuedBytes_queue c data num dataRemainder
  constructor
  · intro i q hq
    simp only [Client.Socket.queue, List.getElem?_append] at hq ⊢
    split at hq
    next hi =>
      rw [offset_append _ hi.le]
      exact hc.seqNum i q hq
    next hi =>
      rw [List.getElem?_singleton] at hq
      split at hq
      next h0 =>
        have hi : i = c.queued.length := by omega
        rw [← Option.some.inj hq, hi, offset_append _ le_rfl, offset_length]
        exact hc.next
      next => contradiction
  · rw [hbytes, List.length_append, hpay, hlen, ← hc.next]
    simp only [Client.Socket.queue, Client.ClientTcb.queueSegBuf, UInt32.toNat_add,
      UInt16.toNat_toUInt32, hlen]
    have hnext := hc.next
    omega

/-- A step queues a segment, on a connected socket, or leaves the stream alone. -/
theorem queue_or_same {c : Client.Socket} (hcall : Client.CallOk c) {a : Client.Action}
    {r : Client.Socket × List Seg} (h : c.step a = some r) :
    (r.1.queued = c.queued ∧ r.1.tcb.nextSeqNum = c.tcb.nextSeqNum) ∨
      (c.tcb.state = .connected ∧ ∃ data num dataRemainder, dataRemainder < maxSegLen ∧
        r.1 = c.queue data num dataRemainder) := by
  cases Client.steps_of_step h with
  | queueSegment data num dataRemainder hcall' _ =>
    obtain ⟨hst, hrem⟩ := hcall.send _ _ _ hcall'
    exact .inr ⟨hst, data, num, dataRemainder, hrem, rfl⟩
  | sendReturn env r hr =>
    obtain ⟨_, _, _, _, hsame⟩ := (Client.sendMaxSegments_sendsFrom hr).same
    simp [Client.Socket.sentNodes, hsame]
  | sendMaxSegments env r hr =>
    obtain ⟨_, _, _, _, hsame⟩ := (Client.sendMaxSegments_sendsFrom hr).same
    simp [Client.Socket.sentNodes, hsame]
  | sendBufTimer env r hr =>
    obtain ⟨_, _, _, _, hsame⟩ := (Client.sendBufTimer_sendsFrom hr).same
    simp [Client.Socket.sentNodes, hsame]
  | _ => exact .inl ⟨rfl, rfl⟩

/-- Without a disconnect a connected socket stays connected, and frees nothing by itself. -/
theorem client_step {c : Client.Socket} (hcall : Client.CallOk c) {a : Client.Action}
    (hd : ∀ sendOk, a ≠ .disconnect sendOk) {r : Client.Socket × List Seg}
    (h : c.step a = some r) :
    (r.1.tcb.state = .connected ↔ c.tcb.state = .connected) ∧
      (c.tcb.state ≠ .finwait → r.1.tcb.state ≠ .finwait) ∧ r.1.freed = c.freed := by
  cases Client.steps_of_step h with
  | connect _ _ _ _ hst => simp [hst]
  | resendSyn _ _ _ _ _ => simp
  | connected _ => simp
  | connectGaveUp _ _ _ hst => simp [hst]
  | sendNothing _ => simp
  | send _ _ _ => simp
  | queueSegment _ _ _ _ _ => exact ⟨Iff.rfl, id, rfl⟩
  | sendReturn env r hr =>
    obtain ⟨_, _, _, _, hsame⟩ := (Client.sendMaxSegments_sendsFrom hr).same
    simp [Client.Socket.sentNodes, hsame]
  | sendMaxSegments env r hr =>
    obtain ⟨_, _, _, _, hsame⟩ := (Client.sendMaxSegments_sendsFrom hr).same
    simp [Client.Socket.sentNodes, hsame]
  | sendBufTimer env r hr =>
    obtain ⟨_, _, _, _, hsame⟩ := (Client.sendBufTimer_sendsFrom hr).same
    simp [Client.Socket.sentNodes, hsame]
  | disconnect sendOk _ _ _ => exact absurd rfl (hd sendOk)
  | resendFin _ _ _ _ _ => simp
  | disconnected _ => simp
  | disconnectGaveUp fin tries hcall' hst =>
    rcases (hcall.disconnect fin tries hcall').2 with h | h <;> simp [h]

theorem Numbered.step {c : Client.Socket} (hc : Numbered c) (hcall : Client.CallOk c)
    {a : Client.Action} {r : Client.Socket × List Seg} (h : c.step a = some r)
    (hlt : (queuedBytes r.1).length < 2 ^ 32) : Numbered r.1 := by
  obtain ⟨hq, hnext⟩ | ⟨_, data, num, dataRemainder, hrem, hr⟩ := queue_or_same hcall h
  · exact ⟨hq ▸ hc.seqNum, by rw [hnext, queuedBytes, hq]; exact hc.next⟩
  · rw [hr] at hlt ⊢
    exact hc.queue hrem hlt

/-- The two sides of one connection agree. -/
structure InStep (s : Sys) : Prop where
  chain : Client.Chain s.client
  call : Client.CallOk s.client
  numbered : Numbered s.client
  data : ∀ m ∈ s.toServer, m.seg.header.type = SegType.data →
    ∃ i < s.client.sentCount, s.client.queued[i]? = some m.seg.clearChecksum
  syn : ∀ m ∈ s.toServer, m.seg.header.type = SegType.syn → m.seg.header.seqNum = 0
  fin : ∀ m ∈ s.toServer, m.seg.header.type ≠ SegType.fin
  synack : ∀ m ∈ s.toClient, m.seg.header.type = SegType.synack →
    s.server.tcb.state = .connected
  ack : ∀ m ∈ s.toClient, m.seg.header.type = SegType.dataack →
    m.seg.header.seqNum.toNat ≤ s.server.tcb.expectSeqNum.toNat ∧
      ∃ j ≤ s.client.queued.length,
        m.seg.header.seqNum.toNat = offset Seg.payload s.client.queued j
  finwait : s.client.tcb.state ≠ .finwait
  idle : s.client.tcb.state ≠ .connected → s.client.queued = []
  up : s.client.tcb.state = .connected → s.server.tcb.state = .connected
  wf : s.server.tcb.buf.Wf
  room : s.server.tcb.buf.usedBufLen.toNat < receiveBufSize
  expect : ∃ k ≤ s.client.sentCount,
    s.server.tcb.expectSeqNum.toNat = offset Seg.payload s.client.queued k
  freed : offset Seg.payload s.client.queued s.client.freed.length ≤
    s.server.tcb.expectSeqNum.toNat
  received : receivedBytes s.server =
    (queuedBytes s.client).take s.server.tcb.expectSeqNum.toNat

theorem fresh_inStep (clientNodeID clientPort svrNodeID svrPort : UInt32) :
    InStep ⟨.fresh clientNodeID clientPort, .fresh svrNodeID svrPort, [], []⟩ where
  chain := .fresh clientNodeID clientPort
  call := .fresh clientNodeID clientPort
  numbered := by
    constructor <;> simp [Client.Socket.fresh, Client.srtClientSock, queuedBytes]
  data := by simp
  syn := by simp
  fin := by simp
  synack := by simp
  ack := by simp
  finwait := by simp [Client.Socket.fresh, Client.srtClientSock]
  idle _ := rfl
  up h := by simp [Client.Socket.fresh, Client.srtClientSock] at h
  wf := .fresh 0
  room := by simp [Server.Socket.fresh, Server.srtServerSock, Server.RecvBuf.fresh, receiveBufSize]
  expect := ⟨0, Nat.zero_le _, rfl⟩
  freed := by simp [Client.Socket.fresh, Server.Socket.fresh, Server.srtServerSock]
  received := by simp [receivedBytes, Server.Socket.fresh, Server.srtServerSock, queuedBytes,
    Client.Socket.fresh]

/-- New segments come behind those queued before, and only once the client is connected. -/
theorem queued_append {c : Client.Socket} (hcall : Client.CallOk c) {a : Client.Action}
    (hd : ∀ sendOk, a ≠ .disconnect sendOk) {r : Client.Socket × List Seg}
    (h : c.step a = some r) : ∃ new, r.1.queued = c.queued ++ new ∧
      (r.1.tcb.state ≠ .connected → new = []) := by
  obtain ⟨hstate, _, _⟩ := client_step hcall hd h
  obtain ⟨hq, _⟩ | ⟨hst, data, num, dataRemainder, _, hr⟩ := queue_or_same hcall h
  · exact ⟨[], by simp [hq], fun _ => rfl⟩
  · exact ⟨_, by rw [hr]; rfl, fun hn => absurd (hstate.mpr hst) hn⟩

theorem mem_clientWrites {s : Sys} {r : Client.Socket × List Seg} {m : Msg}
    (hm : m ∈ (s.clientWrites r).toServer) : m ∈ s.toServer ∨ m.seg ∈ r.2 := by
  rcases List.mem_append.mp hm with hm | hm
  · exact .inl hm
  · obtain ⟨seg, hseg, rfl⟩ := List.mem_map.mp hm
    exact .inr hseg

/-- Steps of the client: new segments come behind the stream, and what it sends is queued. -/
theorem InStep.client {s : Sys} (hs : InStep s) {a : Client.Action}
    (hd : ∀ sendOk, a ≠ .disconnect sendOk) {r : Client.Socket × List Seg}
    (h : s.client.step a = some r) (hlt : (queuedBytes r.1).length < 2 ^ 32) :
    InStep (s.clientWrites r) := by
  obtain ⟨hchain, hmono⟩ := hs.chain.step h
  have hcall := hs.call.step h
  have hnumbered := hs.numbered.step hs.call h hlt
  obtain ⟨hstate, hfinwait, hfreed⟩ := client_step hs.call hd h
  replace hfinwait := hfinwait hs.finwait
  obtain ⟨new, hnew, hidle⟩ := queued_append hs.call hd h
  have hbytes : queuedBytes r.1 = queuedBytes s.client ++ new.flatMap Seg.payload := by
    simp [queuedBytes, hnew]
  have hsent := hs.chain.sentCount_le
  have hoffset : ∀ k ≤ s.client.queued.length,
      offset Seg.payload r.1.queued k = offset Seg.payload s.client.queued k :=
    fun k hk => hnew ▸ offset_append _ hk _
  have hnil : r.1.tcb.state ≠ .connected → r.1.queued = [] := fun hst => by
    rw [hnew, hidle hst, List.append_nil]
    exact hs.idle fun h => hst (hstate.mpr h)
  refine
    { chain := hchain
      call := hcall
      numbered := hnumbered
      data := ?_
      syn := ?_
      fin := ?_
      synack := hs.synack
      ack := ?_
      finwait := hfinwait
      idle := hnil
      up := fun hst => hs.up (hstate.mp hst)
      wf := hs.wf
      room := hs.room
      expect := ?_
      freed := ?_
      received := ?_ }
  · intro m hm ht
    rcases mem_clientWrites hm with hm | hm
    · obtain ⟨i, hi, hq⟩ := hs.data m hm ht
      refine ⟨i, hi.trans_le hmono, ?_⟩
      simp only [Sys.clientWrites, hnew]
      rw [List.getElem?_append_left (hi.trans_le hsent)]
      exact hq
    · exact Client.queued_of_step hs.call hs.chain h hm ht
  · intro m hm ht
    rcases mem_clientWrites hm with hm | hm
    · exact hs.syn m hm ht
    · cases Client.emitted_of_step hs.call h hm with
      | syn hst _ hseq _ =>
        have hzero := hnumbered.next
        rw [queuedBytes, hnil (by simp [hst])] at hzero
        rw [hseq]
        exact UInt32.toNat_inj.mp hzero
      | fin hst _ => exact absurd hst hfinwait
      | data _ hdata => exact absurd (hdata.symm.trans ht) (by decide)
  · intro m hm
    rcases mem_clientWrites hm with hm | hm
    · exact hs.fin m hm
    · cases Client.emitted_of_step hs.call h hm with
      | syn _ hsyn _ _ => rw [hsyn]; decide
      | fin hst _ => exact absurd hst hfinwait
      | data _ hdata => rw [hdata]; decide
  · intro m hm ht
    obtain ⟨hle, j, hj, hseq⟩ := hs.ack m hm ht
    refine ⟨hle, j, ?_, ?_⟩
    · simp only [Sys.clientWrites, hnew, List.length_append]
      omega
    · exact hseq.trans (hoffset j hj).symm
  · obtain ⟨k, hk, he⟩ := hs.expect
    exact ⟨k, hk.trans hmono, he.trans (hoffset k (hk.trans hsent)).symm⟩
  · simp only [Sys.clientWrites, hfreed]
    rw [hoffset _ (hs.chain.freed_le.trans hsent)]
    exact hs.freed
  · obtain ⟨k, _, he⟩ := hs.expect
    simp only [Sys.clientWrites, hbytes]
    rw [List.take_append_of_le_length (he ▸ offset_le ..)]
    exact hs.received

theorem client_queued_grows {c : Client.Socket} {a : Client.Action}
    {r : Client.Socket × List Seg} (h : c.step a = some r) : c.queued <+: r.1.queued := by
  cases Client.steps_of_step h with
  | queueSegment _ _ _ _ _ => exact List.prefix_append _ _
  | _ => exact List.prefix_rfl

/-- The queue only grows. -/
theorem queued_grows {s t : Sys} {a : Action} (h : s.step a = some t) :
    s.client.queued <+: t.client.queued := by
  cases steps_of_step h with
  | client a r _ hr => exact client_queued_grows hr
  | server _ _ _ => exact List.prefix_rfl
  | toServer _ _ _ _ _ _ => exact List.prefix_rfl
  | toClient _ _ _ _ _ hc =>
    obtain ⟨_, _, rfl⟩ := Client.receive_handles hc
    exact List.prefix_rfl
  | loseToServer _ => exact List.prefix_rfl
  | loseToClient _ => exact List.prefix_rfl

theorem InStep.server {s : Sys} (hs : InStep s) {a : Server.Action} {v : Server.Socket}
    (h : s.server.step a = some v) : InStep { s with server := v } := by
  cases Server.steps_of_step h with
  | accept _ hst =>
    have hdown : s.server.tcb.state ≠ .connected := by simp [hst]
    exact { hs with
      synack := fun m hm ht => absurd (hs.synack m hm ht) hdown
      up := fun h => absurd (hs.up h) hdown }
  | accepted _ => exact { hs with }
  | acceptFailed _ _ hdown =>
    exact { hs with
      synack := fun m hm ht => absurd (hs.synack m hm ht) hdown
      up := fun h => absurd (hs.up h) hdown }
  | recv length _ => exact { hs with }
  | recvReturn length _ hle =>
    have hle' : length.toNat ≤ s.server.tcb.buf.usedBufLen.toNat := hle
    have hused := Server.RecvBuf.usedBufLen_copyOut 0 hle'
    refine { hs with
      wf := hs.wf.copyOut length
      room := (hused.trans_le (Nat.sub_le _ _)).trans_lt hs.room
      received := ?_ }
    rw [← hs.received]
    simp only [receivedBytes, List.flatMap_append, List.flatMap_singleton,
      Server.RecvBuf.copyOut_fst hle', hs.wf.contents_copyOut hle', List.append_assoc,
      List.take_append_drop]
  | closeWaitTimer hst =>
    have hdown : s.server.tcb.state ≠ .connected := by simp [hst]
    exact { hs with
      synack := fun m hm ht => absurd (hs.synack m hm ht) hdown
      up := fun h => absurd (hs.up h) hdown }

/-- Losing or delivering segments leaves only segments that were there. -/
theorem InStep.fewer {s : Sys} (hs : InStep s) {toServer toClient : List Msg}
    (h1 : toServer ⊆ s.toServer) (h2 : toClient ⊆ s.toClient) :
    InStep { s with toServer := toServer, toClient := toClient } :=
  { hs with
    data := fun m hm => hs.data m (h1 hm)
    syn := fun m hm => hs.syn m (h1 hm)
    fin := fun m hm => hs.fin m (h1 hm)
    synack := fun m hm => hs.synack m (h2 hm)
    ack := fun m hm => hs.ack m (h2 hm) }

/-- A reply of the server is a `SYNACK` of a connection or a `DATAACK` at a boundary. -/
theorem InStep.replies {s : Sys} (hs : InStep s) {m : Msg}
    (hsynack : m.seg.header.type = SegType.synack → s.server.tcb.state = .connected)
    (hack : m.seg.header.type = SegType.dataack →
      m.seg.header.seqNum = s.server.tcb.expectSeqNum) :
    InStep { s with toClient := s.toClient ++ [m] } := by
  refine { hs with synack := ?_, ack := ?_ }
  · intro m' hm' ht
    rcases List.mem_append.mp hm' with hm' | hm'
    · exact hs.synack m' hm' ht
    · rw [List.mem_singleton.mp hm'] at ht
      exact hsynack ht
  · intro m' hm' ht
    rcases List.mem_append.mp hm' with hm' | hm'
    · exact hs.ack m' hm' ht
    · rw [List.mem_singleton.mp hm'] at ht ⊢
      obtain ⟨k, hk, he⟩ := hs.expect
      rw [hack ht]
      exact ⟨le_rfl, k, hk.trans hs.chain.sentCount_le, he⟩

/-- The first `SYN` comes before any data is queued. -/
theorem InStep.connect {s : Sys} (hs : InStep s) {m : Msg} (hm : m ∈ s.toServer)
    (hst : s.server.tcb.state = .listening) (ht : m.seg.header.type = SegType.syn) :
    InStep { s with server := s.server.handled ⟨s.server.tcb.connect m.nodeID m.seg,
      some ((s.server.tcb.connect m.nodeID m.seg).reply SegType.synack 0), []⟩ } := by
  have hdown : s.client.tcb.state ≠ .connected := fun h => by
    have hup := hs.up h
    rw [hst] at hup
    contradiction
  have hnil := hs.idle hdown
  have hseq := hs.syn m hm ht
  have hzero : ∀ k, offset Seg.payload s.client.queued k = 0 := by simp [hnil, offset]
  have hexpect : s.server.tcb.expectSeqNum.toNat = 0 := by
    obtain ⟨k, _, he⟩ := hs.expect
    rw [he, hzero]
  refine
    { hs with
      synack := fun _ _ _ => rfl
      ack := fun m' hm' ht' => ?_
      up := fun _ => rfl
      expect := ⟨0, Nat.zero_le _, ?_⟩
      freed := (hzero _).trans_le (Nat.zero_le _)
      received := ?_ }
  · obtain ⟨hle, j, hj, heq⟩ := hs.ack m' hm' ht'
    exact ⟨by rw [heq, hzero]; exact Nat.zero_le _, j, hj, heq⟩
  · rw [hzero]
    simp [Server.Socket.handled, Server.SvrTcb.connect, hseq]
  · have hrec := hs.received
    rw [hexpect] at hrec
    simpa [Server.Socket.handled, Server.SvrTcb.connect, hseq, receivedBytes] using hrec

/-- A `DATA` segment with the expected number is the next chunk of the stream. -/
theorem InStep.append {s : Sys} (hs : InStep s) {m : Msg} (hm : m ∈ s.toServer)
    (ht : m.seg.header.type = SegType.data) (htakes : s.server.tcb.takes m.seg)
    (hlen : m.seg.header.length.toNat ≤ maxSegLen)
    (hlt : (queuedBytes s.client).length < 2 ^ 32) {reply : Option Seg} :
    InStep { s with
      server := s.server.handled ⟨s.server.tcb.append m.seg, reply, m.seg.payload⟩ } := by
  obtain ⟨i, hi, hq⟩ := hs.data m hm ht
  have hseq : s.server.tcb.expectSeqNum.toNat = offset Seg.payload s.client.queued i := by
    have hnum := hs.numbered.seqNum i _ hq
    rw [← htakes.1]
    exact hnum
  have hpay := Seg.length_payload hlen
  have hsucc := offset_succ Seg.payload hq
  rw [Seg.payload_clearChecksum, hpay] at hsucc
  have hbound := (offset_le Seg.payload s.client.queued (i + 1)).trans_lt hlt
  have hexpect : (s.server.tcb.append m.seg).expectSeqNum.toNat =
      offset Seg.payload s.client.queued (i + 1) := by
    simp only [Server.SvrTcb.append, UInt32.toNat_add, UInt16.toNat_toUInt32, hseq]
    omega
  have hle : s.server.tcb.expectSeqNum.toNat ≤ (s.server.tcb.append m.seg).expectSeqNum.toNat := by
    omega
  have hroom := htakes.room hs.room
  have hnowrap : s.server.tcb.buf.usedBufLen.toNat + m.seg.payload.length < 2 ^ 32 := by
    simp only [receiveBufSize] at hroom
    omega
  refine
    { hs with
      ack := fun m' hm' ht' => ?_
      wf := hs.wf.store hnowrap
      room := ?_
      expect := ⟨i + 1, hi, hexpect⟩
      freed := hs.freed.trans hle
      received := ?_ }
  · obtain ⟨hle', h⟩ := hs.ack m' hm' ht'
    exact ⟨hle'.trans hle, h⟩
  · simp only [Server.Socket.handled, Server.SvrTcb.append_buf]
    rw [Server.RecvBuf.usedBufLen_store hnowrap, hpay]
    exact hroom
  · have hrec := hs.received
    rw [hseq, queuedBytes, take_offset] at hrec
    simp only [Server.Socket.handled, hexpect, receivedBytes, Server.SvrTcb.append_buf,
      hs.wf.contents_store hnowrap, ← List.append_assoc]
    rw [queuedBytes, take_offset, List.take_add_one, List.flatMap_append, ← hrec, hq]
    simp [receivedBytes]

/-- A segment that changes nothing but is answered perhaps. -/
theorem InStep.unchanged {s : Sys} (hs : InStep s) (reply : Option Seg) :
    InStep { s with server := s.server.handled ⟨s.server.tcb, reply, []⟩ } :=
  { hs with }

/-- A segment reaches the server. -/
theorem InStep.serverTakes {s : Sys} (hs : InStep s) {i : ℕ} {dup : Bool} {m : Msg}
    (hm : m ∈ s.toServer) {r : Server.Socket × List Seg}
    (h : s.server.receive m.nodeID m.seg = some r)
    (hlt : (queuedBytes s.client).length < 2 ^ 32) : InStep (s.serverTakes i dup m r) := by
  obtain ⟨v, out⟩ := r
  obtain ⟨r, hr, rfl, rfl⟩ := Server.receive_handles h
  suffices hs' : InStep { s with
      server := s.server.handled r
      toClient := s.toClient ++
        r.reply.toList.map fun seg => ⟨(s.server.handled r).tcb.svrNodeID, seg, m.era⟩ } from
    hs'.fewer (fun _ => mem_of_mem_rest) (List.Subset.refl _)
  cases hr with
  | ignored =>
    rw [Option.toList_none, List.map_nil, List.append_nil]
    exact hs.unchanged none
  | listeningSyn hst _ ht =>
    apply (hs.connect hm hst ht).replies (fun _ => rfl)
    intro h
    exact absurd (show SegType.synack = SegType.dataack from h) (by decide)
  | connectedSyn hst _ _ =>
    apply (hs.unchanged _).replies (fun _ => hst)
    intro h
    exact absurd (show SegType.synack = SegType.dataack from h) (by decide)
  | connectedFin _ ht _ => exact absurd ht (hs.fin m hm)
  | dataTaken hst ht _ htakes hlen =>
    exact (hs.append hm ht htakes hlen hlt).replies (fun _ => hst) fun _ => rfl
  | dataRefused hst _ _ _ => exact (hs.unchanged _).replies (fun _ => hst) fun _ => rfl
  | closewaitFin _ ht => exact absurd ht (hs.fin m hm)

/-- The nodes that an acknowledgement frees begin before the number it names. -/
theorem Numbered.acked {c : Client.Socket} (hc : Numbered c) (hchain : Client.Chain c)
    {ack : UInt32} {i : ℕ} {b : Client.SegBuf} (hb : (c.tcb.acked ack)[i]? = some b) :
    b.addr = c.freed.length + i ∧ offset Seg.payload c.queued b.addr < ack.toNat := by
  have hlt : b.seg.header.seqNum < ack := by
    simpa using List.mem_takeWhile_imp (List.mem_of_getElem? hb)
  have hb' : c.tcb.sendBuf[i]? = some b := by
    obtain ⟨behind, hsplit⟩ : c.tcb.acked ack <+: c.tcb.sendBuf := List.takeWhile_prefix _
    rw [← hsplit, List.getElem?_append_left (List.getElem?_eq_some_iff.mp hb).1]
    exact hb
  obtain ⟨haddr, hq⟩ := hchain.node (.refl _) hb'
  have hnum := hc.seqNum _ _ hq
  exact ⟨haddr, hnum.symm.trans_lt (UInt32.lt_iff_toNat_lt.mp hlt)⟩

/-- The nodes that an acknowledgement frees lie before the boundary it names. -/
theorem InStep.acked {s : Sys} (hs : InStep s) {m : Msg} (hm : m ∈ s.toClient)
    (ht : m.seg.header.type = SegType.dataack) :
    (∀ b ∈ s.client.tcb.acked m.seg.header.seqNum, b.addr < s.client.sentCount) ∧
      offset Seg.payload s.client.queued
        (s.client.freed.length + (s.client.tcb.acked m.seg.header.seqNum).length) ≤
          s.server.tcb.expectSeqNum.toNat := by
  obtain ⟨hle, j, hj, hseq⟩ := hs.ack m hm ht
  obtain ⟨k, hk, he⟩ := hs.expect
  have hnode : ∀ i b, (s.client.tcb.acked m.seg.header.seqNum)[i]? = some b →
      b.addr = s.client.freed.length + i ∧
        offset Seg.payload s.client.queued b.addr < m.seg.header.seqNum.toNat :=
    fun i b hb => hs.numbered.acked hs.chain hb
  constructor
  · intro b hb
    obtain ⟨i, hi⟩ := List.mem_iff_getElem?.mp hb
    obtain ⟨_, hlt⟩ := hnode i b hi
    exact (lt_of_offset_lt Seg.payload (hlt.trans_le (hle.trans he.le))).trans_le hk
  · rcases List.eq_nil_or_concat' (s.client.tcb.acked m.seg.header.seqNum) with
      hnil | ⟨init, last, hlast⟩
    · rw [hnil]
      exact hs.freed
    · obtain ⟨haddr, hlt⟩ := hnode init.length last (by simp [hlast])
      rw [hlast, List.length_append, List.length_singleton, ← Nat.add_assoc, ← haddr]
      rw [hseq] at hlt
      exact (offset_succ_le_of_lt Seg.payload hlt).trans (hseq ▸ hle)

/-- A segment reaches the client. -/
theorem InStep.clientTakes {s : Sys} (hs : InStep s) {i : ℕ} {dup : Bool} {m : Msg}
    (hm : m ∈ s.toClient) {c : Client.Socket}
    (h : s.client.receive m.nodeID m.seg = some c) :
    InStep { s with client := c, toClient := rest s.toClient i dup } := by
  suffices hs' : InStep { s with client := c } from
    hs'.fewer (List.Subset.refl _) fun _ => mem_of_mem_rest
  obtain ⟨hchain, hcount⟩ := hs.chain.receive (fun ht => (hs.acked hm ht).1) h
  have hcall := hs.call.receive h
  obtain ⟨r, hr, rfl⟩ := Client.receive_handles h
  cases hr with
  | ignored => simpa using hs
  | synack hst ht _ =>
    exact { hs with
      chain := hchain
      call := hcall
      numbered := { hs.numbered with }
      finwait := by simp
      idle := fun h => absurd rfl h
      up := fun _ => hs.synack m hm ht
      freed := by simpa using hs.freed }
  | dataack hst ht _ =>
    exact { hs with
      chain := hchain
      call := hcall
      numbered := { hs.numbered with }
      freed := by simpa using (hs.acked hm ht).2 }
  | finack hst _ => exact absurd hst hs.finwait

/-- The application does not disconnect. -/
def staysConnected (_ : Sys) : Action → Prop
  | .client (.disconnect _) => False
  | _ => True

instance : ∀ s a, Decidable (staysConnected s a) := fun s a => by
  unfold staysConnected
  split <;> infer_instance

theorem InStep.step {s t : Sys} (hs : InStep s) {a : Action} (hok : staysConnected s a)
    (h : s.step a = some t) (hlt : (queuedBytes s.client).length < 2 ^ 32)
    (hlt' : (queuedBytes t.client).length < 2 ^ 32) : InStep t := by
  cases steps_of_step h with
  | client a r _ hr =>
    refine hs.client ?_ hr hlt'
    intro sendOk ha
    rw [ha] at hok
    exact hok
  | server _ _ hv => exact hs.server hv
  | toServer _ _ _ _ hm hr => exact hs.serverTakes (List.mem_of_getElem? hm) hr hlt
  | toClient _ _ _ _ hm hc => exact hs.clientTakes (List.mem_of_getElem? hm) hc
  | loseToServer i => exact hs.fewer (fun _ => List.mem_of_mem_eraseIdx) (List.Subset.refl _)
  | loseToClient i => exact hs.fewer (List.Subset.refl _) fun _ => List.mem_of_mem_eraseIdx

section Runs
variable {clientNodeID clientPort svrNodeID svrPort : UInt32} {s : Sys}

theorem inStep_of_reachable
    (h : (machine clientNodeID clientPort svrNodeID svrPort).Reachable staysConnected s)
    (hlt : (queuedBytes s.client).length < 2 ^ 32) : InStep s := by
  induction h with
  | init h => exact h ▸ fresh_inStep clientNodeID clientPort svrNodeID svrPort
  | @step s t a _ hok hstep ih =>
    have hle : (queuedBytes s.client).length ≤ (queuedBytes t.client).length :=
      (List.IsPrefix.flatMap (queued_grows hstep) Seg.payload).length_le
    exact (ih (hle.trans_lt hlt)).step hok hstep (hle.trans_lt hlt) hlt

/-- What `srt_server_recv` returned, and what it is about to return, is what
`srt_client_send` queued. -/
theorem received_prefix
    (h : (machine clientNodeID clientPort svrNodeID svrPort).Reachable staysConnected s)
    (hlt : (queuedBytes s.client).length < 2 ^ 32) :
    receivedBytes s.server <+: queuedBytes s.client := by
  rw [(inStep_of_reachable h hlt).received]
  exact List.take_prefix _ _

/-- Node 1 connects to port 80 of node 2 and sends two bytes, of which one is read; the segment
stays on the way. -/
def exchange : List Action :=
  [.server .accept, .client (.connect 2 80 true), .deliverToServer 0 false,
    .deliverToClient 0 false, .client .connectReturn, .server .acceptReturn,
    .client (.send [7, 8]), .client .queueSegment, .client (.sendReturn ⟨fun _ => 0, []⟩),
    .deliverToServer 0 true, .deliverToClient 0 false, .server (.recv 1), .server .recvReturn]

theorem received_prefix_run : ∃ s : Sys,
    (machine 1 4000 2 80).run staysConnected ⟨.fresh 1 4000, .fresh 2 80, [], []⟩ exchange =
      some s ∧ receivedBytes s.server = [7, 8] ∧
    receivedBytes s.server <+: queuedBytes s.client := by
  obtain ⟨s, hrun, hs, hlen, hrec⟩ := (machine 1 4000 2 80).exists_of_run staysConnected rfl
    exchange (P := fun s => (queuedBytes s.client).length = 2 ∧ receivedBytes s.server = [7, 8])
    (by decide +kernel)
  exact ⟨s, hrun, hrec, received_prefix hs (hlen.trans_lt (by decide))⟩

/-- Nothing leaves the send buffer before the server has it. -/
theorem freed_received
    (h : (machine clientNodeID clientPort svrNodeID svrPort).Reachable staysConnected s)
    (hlt : (queuedBytes s.client).length < 2 ^ 32) :
    s.client.freed.flatMap Seg.payload <+: receivedBytes s.server ∧
      (s.client.freed ++ s.client.tcb.sendBuf.map (·.seg)).map Seg.clearChecksum =
        s.client.queued ∧
      ((∃ b, s.client.tcb.sendBuf.head? = some b ∧
          b.seg.header.seqNum ≤ s.server.tcb.expectSeqNum) ∨
        (s.client.tcb.sendBuf = [] ∧
          s.server.tcb.expectSeqNum = s.client.tcb.nextSeqNum)) := by
  have hs := inStep_of_reachable h hlt
  have hpay : s.client.freed.flatMap Seg.payload =
      (queuedBytes s.client).take (offset Seg.payload s.client.queued s.client.freed.length) := by
    rw [queuedBytes, take_offset, ← hs.chain.freed, List.flatMap_map]
    rfl
  have hlen := hs.chain.length
  refine ⟨?_, ?_, ?_⟩
  · rw [hpay, hs.received]
    exact List.take_prefix_take_left hs.freed
  · rw [List.map_append, hs.chain.freed, List.map_map]
    have hseg : s.client.tcb.sendBuf.map (Seg.clearChecksum ∘ (·.seg)) =
        s.client.queued.drop s.client.freed.length := hs.chain.seg
    rw [hseg, List.take_append_drop]
  · cases hbuf : s.client.tcb.sendBuf with
    | nil =>
      right
      refine ⟨rfl, UInt32.toNat_inj.mp ?_⟩
      have hfreed := hs.freed
      obtain ⟨k, _, he⟩ := hs.expect
      have hle := offset_le Seg.payload s.client.queued k
      rw [hbuf, List.length_nil, Nat.add_zero] at hlen
      rw [hlen, offset_length] at hfreed
      rw [hs.numbered.next, queuedBytes]
      omega
    | cons b bs =>
      left
      have hget : s.client.tcb.sendBuf[0]? = some b := by simp [hbuf]
      obtain ⟨haddr, hq⟩ := hs.chain.node (.refl _) hget
      have hnum := hs.numbered.seqNum _ _ hq
      refine ⟨b, rfl, UInt32.le_iff_toNat_le.mpr ?_⟩
      rw [haddr, Nat.add_zero] at hnum
      exact hnum.trans_le hs.freed

theorem freed_received_run : ∃ s : Sys,
    (machine 1 4000 2 80).run staysConnected ⟨.fresh 1 4000, .fresh 2 80, [], []⟩ exchange =
      some s ∧ s.client.freed.length = 1 ∧
    s.client.freed.flatMap Seg.payload <+: receivedBytes s.server := by
  obtain ⟨s, hrun, hs, hlen, hfreed⟩ := (machine 1 4000 2 80).exists_of_run staysConnected rfl
    exchange (P := fun s => (queuedBytes s.client).length = 2 ∧ s.client.freed.length = 1)
    (by decide +kernel)
  exact ⟨s, hrun, hfreed, (freed_received hs (hlen.trans_lt (by decide))).1⟩

end Runs
end DartNet.Srt
