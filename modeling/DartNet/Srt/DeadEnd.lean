import DartNet.Srt.Stream

/-! Segments without data, which `srt_client_send` queues for each message that is a whole number
of segments. A `DATAACK` frees them only with data behind them, so enough of them in a row keep
what is behind them from being sent. -/
namespace DartNet.Srt
open Transition Chunks Machine

/-- The nodes that can be sent before one is freed: the window, the one more that
`sendMaxSegments` counts, and the one more that the timer sends. -/
def reach : ℕ := gbnWindow + 2

/-- What either section sends lies within reach, and the counter stays within the window. -/
theorem sends_within {c : Client.Socket} (hc : Client.Chain c)
    (hunAck : c.tcb.unAckSegNum.toNat < reach) {r : Client.ClientTcb × List Client.SegBuf}
    {env : Client.Env}
    (h : c.tcb.sendMaxSegments env = some r ∨ c.tcb.sendBufTimer env = some r) :
    r.1.unAckSegNum.toNat < reach ∧ ∀ b ∈ r.2, ∃ i < c.freed.length + reach,
      c.queued[i]? = some b.seg.clearChecksum := by
  rcases h with h | h
  · obtain ⟨hmutex, ⟨_, rfl⟩ | ⟨j, q, m, hptr, _, hm, rfl⟩⟩ := hc.sendMaxSegments_cases h
    · exact ⟨hunAck, by simp⟩
    · have hcount : c.sentCount = c.freed.length + j := by
        rw [Client.Socket.sentCount, hmutex, hptr]
        rfl
      have hwin := hc.window hmutex
      have hunAck' := hm.unAckSegNum
      have hm' := hm.window
      simp only [reach] at hunAck ⊢
      refine ⟨by omega, ?_⟩
      intro b hb
      rw [hm.sent] at hb
      obtain ⟨i, hi⟩ := List.mem_iff_getElem?.mp hb
      rw [List.getElem?_take] at hi
      split at hi
      next him =>
        obtain ⟨d, hd, _, hseg⟩ := hm.same.getElem? hi
        rw [List.getElem?_drop] at hd
        obtain ⟨_, hq⟩ := hc.getElem? hd
        exact ⟨_, by omega, hseg ▸ hq⟩
      next => contradiction
  · obtain ⟨hsent, hcount⟩ := hc.sendBufTimer h
    obtain ⟨_, q, _, rfl⟩ := Client.sendBufTimer_cases h
    refine ⟨hunAck, ?_⟩
    intro b hb
    obtain ⟨_, hlt, hq⟩ := hsent.nodes b hb
    exact ⟨b.addr, by simp only [reach] at hunAck ⊢; omega, hq⟩

theorem Seg.payload_of_length {q : Seg} (h : q.header.length = 0) : q.payload = [] := by
  rw [Seg.payload, h]
  rfl

/-- All nodes within reach are without data, and so is all the data on the way. -/
structure Blocked (s : Sys) : Prop where
  empty : ∀ j < reach, ∃ q, s.client.queued[s.client.freed.length + j]? = some q ∧
    q.header.length = 0
  unAck : s.client.tcb.unAckSegNum.toNat < reach
  data : ∀ m ∈ s.toServer, m.seg.header.type = SegType.data →
    ∃ i < s.client.freed.length + reach, s.client.queued[i]? = some m.seg.clearChecksum
  expect : s.server.tcb.expectSeqNum.toNat =
    offset Seg.payload s.client.queued s.client.freed.length

namespace Blocked
variable {s t : Sys}

theorem offset_reach (h : Blocked s) :
    offset Seg.payload s.client.queued (s.client.freed.length + reach) =
      offset Seg.payload s.client.queued s.client.freed.length := by
  apply offset_add_of_nil
  intro j hj
  obtain ⟨q, hq, hlen⟩ := h.empty j hj
  exact ⟨q, hq, Seg.payload_of_length hlen⟩

theorem connected (hs : InStep s) (h : Blocked s) : s.client.tcb.state = .connected := by
  by_contra hst
  obtain ⟨q, hq, _⟩ := h.empty 0 (by decide)
  simp [hs.idle hst] at hq

/-- What can be taken of the data on the way is no data. -/
theorem taken (hs : InStep s) (h : Blocked s) {m : Msg} (hm : m ∈ s.toServer)
    (ht : m.seg.header.type = SegType.data)
    (hseq : m.seg.header.seqNum = s.server.tcb.expectSeqNum)
    (hlen : m.seg.header.length.toNat ≤ maxSegLen) : m.seg.header.length = 0 := by
  obtain ⟨i, hi, hq⟩ := h.data m hm ht
  have hnum : s.server.tcb.expectSeqNum.toNat = offset Seg.payload s.client.queued i := by
    have hnum := hs.numbered.seqNum i _ hq
    rw [← hseq]
    exact hnum
  have hsucc := offset_succ Seg.payload hq
  rw [Seg.payload_clearChecksum, Seg.length_payload hlen] at hsucc
  have hbound : offset Seg.payload s.client.queued (i + 1) ≤ _ := offset_mono _ _ hi
  have hend := h.offset_reach
  have hexpect := h.expect
  apply UInt16.toNat_inj.mp
  show m.seg.header.length.toNat = 0
  omega

/-- Nothing is freed. -/
theorem acked (hs : InStep s) (h : Blocked s) {m : Msg} (hm : m ∈ s.toClient)
    (ht : m.seg.header.type = SegType.dataack) :
    s.client.tcb.acked m.seg.header.seqNum = [] := by
  obtain ⟨hle, _⟩ := hs.ack m hm ht
  cases hget : (s.client.tcb.acked m.seg.header.seqNum)[0]? with
  | none => exact List.eq_nil_of_length_eq_zero (Nat.le_zero.mp (List.getElem?_eq_none_iff.mp hget))
  | some b =>
    obtain ⟨haddr, hlt⟩ := hs.numbered.acked hs.chain hget
    have hexpect := h.expect
    rw [haddr, Nat.add_zero] at hlt
    omega

theorem client (hs : InStep s) (h : Blocked s) {a : Client.Action}
    (hd : ∀ sendOk, a ≠ .disconnect sendOk) {r : Client.Socket × List Seg}
    (hr : s.client.step a = some r) : Blocked (s.clientWrites r) := by
  have hconn := h.connected hs
  obtain ⟨_, _, hfreed⟩ := client_step hs.call hd hr
  obtain ⟨new, hnew, _⟩ := queued_append hs.call hd hr
  have hq : ∀ {i : ℕ} {q : Seg}, s.client.queued[i]? = some q → r.1.queued[i]? = some q := by
    intro i q hi
    rw [hnew, List.getElem?_append_left (List.getElem?_eq_some_iff.mp hi).1, hi]
  suffices hsends : r.1.tcb.unAckSegNum.toNat < reach ∧ ∀ seg ∈ r.2,
      seg.header.type = SegType.data → ∃ i < s.client.freed.length + reach,
        s.client.queued[i]? = some seg.clearChecksum by
    refine ⟨?_, hsends.1, ?_, ?_⟩
    · intro j hj
      obtain ⟨q, hqueued, hlen⟩ := h.empty j hj
      exact ⟨q, hfreed ▸ hq hqueued, hlen⟩
    · intro m hm ht
      simp only [Sys.clientWrites, hfreed]
      rcases mem_clientWrites hm with hm | hm
      · obtain ⟨i, hi, hqueued⟩ := h.data m hm ht
        exact ⟨i, hi, hq hqueued⟩
      · obtain ⟨i, hi, hqueued⟩ := hsends.2 m.seg hm ht
        exact ⟨i, hi, hq hqueued⟩
    · simp only [Sys.clientWrites, hfreed, hnew]
      rw [offset_append _ (hs.chain.freed_le.trans hs.chain.sentCount_le)]
      exact h.expect
  have hsent : ∀ {env : Client.Env} {p : Client.ClientTcb × List Client.SegBuf},
      s.client.tcb.sendMaxSegments env = some p ∨ s.client.tcb.sendBufTimer env = some p →
        p.1.unAckSegNum.toNat < reach ∧ ∀ seg ∈ p.2.map (·.seg),
          seg.header.type = SegType.data → ∃ i < s.client.freed.length + reach,
            s.client.queued[i]? = some seg.clearChecksum := by
    intro env p hp
    obtain ⟨hunAck, hnodes⟩ := sends_within hs.chain h.unAck hp
    refine ⟨hunAck, ?_⟩
    intro seg hseg _
    obtain ⟨b, hb, rfl⟩ := List.mem_map.mp hseg
    exact hnodes b hb
  cases Client.steps_of_step hr with
  | connect _ _ _ _ hst => simp [hst] at hconn
  | resendSyn _ _ _ _ hst => simp [hst] at hconn
  | connectGaveUp _ _ _ hst => exact absurd hconn hst
  | sendReturn env p hp => exact hsent (.inl hp)
  | sendMaxSegments env p hp => exact hsent (.inl hp)
  | sendBufTimer env p hp => exact hsent (.inr hp)
  | disconnect sendOk _ _ _ => exact absurd rfl (hd sendOk)
  | resendFin _ _ _ _ hst => simp [hst] at hconn
  | disconnected hst => simp [hst] at hconn
  | disconnectGaveUp fin tries hcall hst =>
    rcases (hs.call.disconnect fin tries hcall).2 with h | h <;> simp [h] at hconn
  | _ => exact ⟨h.unAck, by simp⟩

theorem fewer (h : Blocked s) {toServer toClient : List Msg} (h1 : toServer ⊆ s.toServer) :
    Blocked { s with toServer := toServer, toClient := toClient } :=
  { h with data := fun m hm => h.data m (h1 hm) }

/-- No segment moves the server on. -/
theorem handled (hs : InStep s) (h : Blocked s) {m : Msg} (hm : m ∈ s.toServer)
    {r : Server.Handled} (hr : Server.Handles s.server.tcb m.nodeID m.seg r) :
    (s.server.handled r).tcb.expectSeqNum = s.server.tcb.expectSeqNum ∧
      receivedBytes (s.server.handled r) = receivedBytes s.server := by
  have hup := hs.up (h.connected hs)
  cases hr with
  | ignored => exact ⟨rfl, rfl⟩
  | listeningSyn hst _ _ => simp [hst] at hup
  | connectedSyn _ _ _ => exact ⟨rfl, rfl⟩
  | connectedFin _ ht _ => exact absurd ht (hs.fin m hm)
  | dataTaken _ ht _ htakes hlen =>
    have hzero := taken hs h hm ht htakes.1 hlen
    have hsame : s.server.tcb.append m.seg = s.server.tcb := by
      simp [Server.SvrTcb.append, Seg.payload_of_length hzero, hzero]
    rw [hsame]
    exact ⟨rfl, rfl⟩
  | dataRefused _ _ _ _ => exact ⟨rfl, rfl⟩
  | closewaitFin _ ht => exact absurd ht (hs.fin m hm)

/-- No step sends, frees or delivers anything beyond the empty segments. -/
theorem step (hs : InStep s) (h : Blocked s) {a : Action} (hok : staysConnected s a)
    (hstep : s.step a = some t) : Blocked t ∧ receivedBytes t.server = receivedBytes s.server := by
  cases steps_of_step hstep with
  | client a r _ hr =>
    refine ⟨h.client hs ?_ hr, rfl⟩
    intro sendOk ha
    rw [ha] at hok
    exact hok
  | server a v hv =>
    cases Server.steps_of_step hv with
    | recvReturn length hcall hle =>
      have hle' : length.toNat ≤ s.server.tcb.buf.usedBufLen.toNat := hle
      refine ⟨{ h with }, ?_⟩
      simp only [receivedBytes, List.flatMap_append, List.flatMap_singleton,
        Server.RecvBuf.copyOut_fst hle', hs.wf.contents_copyOut hle', List.append_assoc,
        List.take_append_drop]
    | _ => exact ⟨{ h with }, rfl⟩
  | toServer i dup m r hm hr =>
    obtain ⟨v, out⟩ := r
    obtain ⟨r, hhandles, rfl, rfl⟩ := Server.receive_handles hr
    obtain ⟨hexpect, hreceived⟩ := handled hs h (List.mem_of_getElem? hm) hhandles
    exact ⟨{ h with
      data := fun m hm => h.data m (mem_of_mem_rest hm)
      expect := (congrArg UInt32.toNat hexpect).trans h.expect }, hreceived⟩
  | toClient i dup m c hm hc =>
    obtain ⟨r, hr, rfl⟩ := Client.receive_handles hc
    have hconn := h.connected hs
    refine ⟨?_, rfl⟩
    cases hr with
    | ignored =>
      simp only [List.map_nil, List.append_nil]
      exact { h with }
    | synack hst _ _ => simp [hst] at hconn
    | dataack _ ht _ =>
      have hnil := acked hs h (List.mem_of_getElem? hm) ht
      simp only [Client.ClientTcb.freeAcked, hnil, List.map_nil, List.append_nil, List.length_nil]
      exact { h with unAck := by simpa using h.unAck }
    | finack hst _ => exact absurd hst hs.finwait
  | loseToServer i => exact ⟨h.fewer fun _ => List.mem_of_mem_eraseIdx, rfl⟩
  | loseToClient i => exact ⟨{ h with }, rfl⟩

end Blocked

section Runs
variable {clientNodeID clientPort svrNodeID svrPort : UInt32} {s t : Sys}

theorem blocked_of_empty
    (h : (machine clientNodeID clientPort svrNodeID svrPort).Reachable staysConnected s)
    (hlt : (queuedBytes s.client).length < 2 ^ 32) (hmutex : s.client.tcb.bufMutex = false)
    (hempty : ∀ j < reach, ∃ b, s.client.tcb.sendBuf[j]? = some b ∧ b.seg.header.length = 0)
    (hunAck : s.client.tcb.unAckSegNum.toNat < reach) : Blocked s := by
  have hs := inStep_of_reachable h hlt
  have hsent : s.client.sentCount ≤ s.client.freed.length + reach := by
    have hwin := hs.chain.window hmutex
    omega
  have hqueued : ∀ j < reach, ∃ q, s.client.queued[s.client.freed.length + j]? = some q ∧
      q.header.length = 0 := by
    intro j hj
    obtain ⟨b, hb, hlen⟩ := hempty j hj
    exact ⟨_, (hs.chain.getElem? hb).2, hlen⟩
  have hreach : offset Seg.payload s.client.queued (s.client.freed.length + reach) =
      offset Seg.payload s.client.queued s.client.freed.length := by
    apply offset_add_of_nil
    intro j hj
    obtain ⟨q, hq, hlen⟩ := hqueued j hj
    exact ⟨q, hq, Seg.payload_of_length hlen⟩
  refine ⟨hqueued, hunAck, ?_, ?_⟩
  · intro m hm ht
    obtain ⟨i, hi, hq⟩ := hs.data m hm ht
    exact ⟨i, hi.trans_le hsent, hq⟩
  · obtain ⟨k, hk, he⟩ := hs.expect
    have hle := offset_mono Seg.payload s.client.queued (hk.trans hsent)
    have hfreed := hs.freed
    omega

/-- Once the first twelve segments of the send buffer hold no data and the counter has not gone
below zero, whatever stands behind them now or later never reaches the server. -/
theorem empty_segments_block
    (h : (machine clientNodeID clientPort svrNodeID svrPort).Reachable staysConnected s)
    (hmutex : s.client.tcb.bufMutex = false)
    (hempty : ∀ j < reach, ∃ b, s.client.tcb.sendBuf[j]? = some b ∧ b.seg.header.length = 0)
    (hunAck : s.client.tcb.unAckSegNum.toNat < reach) {as : List Action}
    (hrun : (machine clientNodeID clientPort svrNodeID svrPort).run staysConnected s as = some t)
    (hlt : (queuedBytes t.client).length < 2 ^ 32) :
    receivedBytes t.server = receivedBytes s.server := by
  have hbytes : ∀ {u v : Sys}, u.client.queued <+: v.client.queued →
      (queuedBytes v.client).length < 2 ^ 32 → (queuedBytes u.client).length < 2 ^ 32 :=
    fun hpre hv => (hpre.flatMap Seg.payload).length_le.trans_lt hv
  have hinv : (machine clientNodeID clientPort svrNodeID svrPort).Reachable staysConnected t ∧
      ((queuedBytes t.client).length < 2 ^ 32 →
        Blocked t ∧ receivedBytes t.server = receivedBytes s.server) := by
    apply run_invariant _ _ (I := fun u => (machine clientNodeID clientPort svrNodeID
      svrPort).Reachable staysConnected u ∧ ((queuedBytes u.client).length < 2 ^ 32 →
        Blocked u ∧ receivedBytes u.server = receivedBytes s.server)) ?_ ?_ hrun
    · rintro u a v ⟨hu, hblocked⟩ hok hstep
      refine ⟨.step hu hok hstep, fun hv => ?_⟩
      have hu' := hbytes (queued_grows hstep) hv
      obtain ⟨hblocked, hreceived⟩ := hblocked hu'
      obtain ⟨hblocked', hreceived'⟩ := hblocked.step (inStep_of_reachable hu hu') hok hstep
      exact ⟨hblocked', hreceived'.trans hreceived⟩
    · exact ⟨h, fun hs => ⟨blocked_of_empty h hs hmutex hempty hunAck, rfl⟩⟩
  exact (hinv.2 hlt).2

/-- A message of 200 bytes, for which a segment without data is queued. -/
def sendWhole : List Action :=
  [.client (.send (List.replicate maxSegLen 7)), .client .queueSegment,
    .client (.sendReturn ⟨fun _ => 0, []⟩)]

def establish : List Action :=
  [.server .accept, .client (.connect 2 80 true), .deliverToServer 0 false,
    .deliverToClient 0 false, .client .connectReturn, .server .acceptReturn]

/-- Of twelve messages of 200 bytes and one of a byte nothing arrives, however long the
connection lasts. -/
theorem empty_segments_block_twelve : ∃ s : Sys,
    (machine 1 4000 2 80).run staysConnected ⟨.fresh 1 4000, .fresh 2 80, [], []⟩
      (establish ++ (List.replicate reach sendWhole).flatten ++
        [.client (.send [7]), .client .queueSegment, .client (.sendReturn ⟨fun _ => 0, []⟩)]) =
      some s ∧ queuedBytes s.client = [7] ∧
    ∀ as t, (machine 1 4000 2 80).run staysConnected s as = some t →
      (queuedBytes t.client).length < 2 ^ 32 → receivedBytes t.server = [] := by
  obtain ⟨s, hrun, hs, hq, hmutex, hunAck, hnone, hempty⟩ := (machine 1 4000 2 80).exists_of_run
    staysConnected rfl (establish ++ (List.replicate reach sendWhole).flatten ++
      [.client (.send [7]), .client .queueSegment, .client (.sendReturn ⟨fun _ => 0, []⟩)])
    (P := fun s => queuedBytes s.client = [7] ∧ s.client.tcb.bufMutex = false ∧
      s.client.tcb.unAckSegNum.toNat < reach ∧ receivedBytes s.server = [] ∧
      ∀ j < reach, (s.client.tcb.sendBuf[j]?).any (·.seg.header.length = 0) = true)
    (by decide +kernel)
  refine ⟨s, hrun, hq, fun as t hrun' hlt => ?_⟩
  have hempty : ∀ j < reach, ∃ b, s.client.tcb.sendBuf[j]? = some b ∧ b.seg.header.length = 0 := by
    intro j hj
    obtain ⟨b, hb, hlen⟩ := (Option.any_eq_true ..).mp (hempty j hj)
    exact ⟨b, hb, of_decide_eq_true hlen⟩
  exact (empty_segments_block hs hmutex hempty hunAck hrun' hlt).trans hnone

end Runs
end DartNet.Srt
