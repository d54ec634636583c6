import DartNet.Srt.SendBuffer

/-! Which call a client socket can be in, and what its steps write to the network. -/
namespace DartNet.Client

/-- The sections that send nodes touch only the send buffer, and send from it. -/
structure SendsFrom (tcb tcb' : ClientTcb) (sent : List SegBuf) : Prop where
  same : ∃ mutex buf ptr unAck, tcb' = { tcb with
    bufMutex := mutex, sendBuf := buf, sendBufunSent := ptr, unAckSegNum := unAck }
  nodes : SameNodes tcb'.sendBuf tcb.sendBuf
  sent : ∀ b ∈ sent, b ∈ tcb'.sendBuf

theorem sendMaxSegments_sendsFrom {tcb : ClientTcb} {env : Env} {r : ClientTcb × List SegBuf}
    (h : tcb.sendMaxSegments env = some r) : SendsFrom tcb r.1 r.2 := by
  obtain ⟨_, ⟨_, rfl⟩ | ⟨a, q, _, _, hq, rfl⟩⟩ := sendMaxSegments_cases h
  · exact ⟨⟨_, _, _, _, rfl⟩, .refl _, by simp⟩
  · obtain ⟨m, hm⟩ := sendMaxLoop_sends env 0 tcb.unAckSegNum
      (tcb.sendBuf.dropWhile (·.addr ≠ a))
    rw [← hq] at hm
    have hnodes := hm.same.append_left (tcb.sendBuf.takeWhile (·.addr ≠ a))
    rw [List.takeWhile_append_dropWhile] at hnodes
    refine ⟨⟨_, _, _, _, rfl⟩, hnodes, ?_⟩
    intro b hb
    rw [hm.sent] at hb
    exact List.mem_append_right _ (List.mem_of_mem_take hb)

theorem sendBufTimer_sendsFrom {tcb : ClientTcb} {env : Env} {r : ClientTcb × List SegBuf}
    (h : tcb.sendBufTimer env = some r) : SendsFrom tcb r.1 r.2 := by
  obtain ⟨_, q, hq, rfl⟩ := sendBufTimer_cases h
  have hr := resendLoop_resends env tcb.unAckSegNum 0 tcb.sendBuf
  rw [← hq] at hr
  exact ⟨⟨_, _, _, _, rfl⟩, hr.same, fun b hb => List.mem_of_mem_take (hr.sent.subset hb)⟩

/-- The call in progress fits the state. -/
structure CallOk (s : Socket) : Prop where
  connect : ∀ syn tries, s.call = .connect syn tries →
    syn.header.type = SegType.syn ∧ syn.header.seqNum = s.tcb.nextSeqNum ∧
      syn.header.srcPort = s.tcb.clientPortNum ∧
      (s.tcb.state = .synsent ∨ s.tcb.state = .connected)
  send : ∀ data num dataRemainder, s.call = .send data num dataRemainder →
    s.tcb.state = .connected ∧ dataRemainder < maxSegLen
  disconnect : ∀ fin tries, s.call = .disconnect fin tries →
    fin.header.type = SegType.fin ∧ (s.tcb.state = .finwait ∨ s.tcb.state = .closed)
  sendBuf : s.tcb.state ≠ .connected → s.tcb.sendBuf = []
  data : ∀ b ∈ s.tcb.sendBuf, b.seg.header.type = SegType.data

namespace CallOk
variable {s : Socket}

theorem fresh (nodeID clientPort : UInt32) : CallOk (.fresh nodeID clientPort) := by
  constructor <;> simp [Socket.fresh, srtClientSock]

/-- Between calls only the conditions on the segments are left. -/
theorem of_idle {t : Socket} (hcall : t.call = .idle)
    (hbuf : t.tcb.state ≠ .connected → t.tcb.sendBuf = [])
    (hdata : ∀ b ∈ t.tcb.sendBuf, b.seg.header.type = SegType.data) : CallOk t where
  connect := by simp [hcall]
  send := by simp [hcall]
  disconnect := by simp [hcall]
  sendBuf := hbuf
  data := hdata

theorem sentNodes (hs : CallOk s) {r : ClientTcb × List SegBuf}
    (hr : SendsFrom s.tcb r.1 r.2) : CallOk (s.sentNodes r).1 := by
  have hnodes := hr.nodes
  obtain ⟨mutex, buf, ptr, unAck, heq⟩ := hr.same
  constructor
  · simpa [Socket.sentNodes, heq] using hs.connect
  · simpa [Socket.sentNodes, heq] using hs.send
  · simpa [Socket.sentNodes, heq] using hs.disconnect
  · intro hst
    have hst' : s.tcb.state ≠ .connected := by simpa [Socket.sentNodes, heq] using hst
    have hlen := hnodes.length
    rw [hs.sendBuf hst'] at hlen
    exact List.eq_nil_of_length_eq_zero hlen
  · intro b hb
    obtain ⟨i, hi⟩ := List.mem_iff_getElem?.mp hb
    obtain ⟨b', hb', _, hseg⟩ := hnodes.getElem? hi
    have htype := congrArg (·.header.type) hseg
    exact htype.symm.trans (hs.data b' (List.mem_of_getElem? hb'))

theorem step (hs : CallOk s) {a : Action} {r : Socket × List Seg}
    (h : s.step a = some r) : CallOk r.1 := by
  cases steps_of_step h with
  | connect nodeID serverPort sendOk hcall hst =>
    have hbuf := hs.sendBuf (by simp [hst])
    cases sendOk with
    | false => exact .of_idle rfl (fun _ => hbuf) hs.data
    | true => constructor <;> simp [Socket.syn, hbuf]
  | resendSyn sendOk syn tries hcall hst =>
    obtain ⟨ht, hseq, hport, _⟩ := hs.connect syn tries hcall
    cases sendOk with
    | false => exact .of_idle rfl hs.sendBuf hs.data
    | true =>
      constructor <;> simp_all [hs.sendBuf]
  | connected _ => exact .of_idle rfl hs.sendBuf hs.data
  | connectGaveUp _ _ _ hst => exact .of_idle rfl (fun _ => hs.sendBuf hst) hs.data
  | sendNothing _ => exact hs
  | send data _ hst =>
    constructor <;> simp [hst]
    · exact Nat.mod_lt _ (by decide)
    · exact hs.data
  | queueSegment data num dataRemainder hcall _ =>
    obtain ⟨hst, hrem⟩ := hs.send _ _ _ hcall
    constructor <;> simp [Socket.queue, ClientTcb.queueSegBuf, hst]
    · exact hrem
    · rintro b (hb | rfl)
      · exact hs.data b hb
      · rfl
  | sendReturn env r hr =>
    have hs' : CallOk { s with call := .idle } := .of_idle rfl hs.sendBuf hs.data
    exact hs'.sentNodes (sendMaxSegments_sendsFrom hr)
  | sendMaxSegments env r hr =>
    exact hs.sentNodes (sendMaxSegments_sendsFrom hr)
  | sendBufTimer env r hr =>
    exact hs.sentNodes (sendBufTimer_sendsFrom hr)
  | disconnect sendOk hcall hst _ =>
    cases sendOk with
    | false => exact .of_idle rfl (fun _ => rfl) (by simp)
    | true => constructor <;> simp [Socket.fin]
  | resendFin sendOk fin tries hcall hst =>
    obtain ⟨ht, _⟩ := hs.disconnect fin tries hcall
    cases sendOk with
    | false => exact .of_idle rfl hs.sendBuf hs.data
    | true =>
      constructor <;> simp_all [hs.sendBuf]
  | disconnected _ => exact .of_idle rfl hs.sendBuf hs.data
  | disconnectGaveUp fin tries hcall _ =>
    obtain ⟨_, hst⟩ := hs.disconnect fin tries hcall
    exact .of_idle rfl (fun _ => hs.sendBuf (by rcases hst with h | h <;> simp [h])) hs.data

theorem receive {t : Socket} (hs : CallOk s) {srcNodeID : UInt32} {seg : Seg}
    (h : s.receive srcNodeID seg = some t) : CallOk t := by
  obtain ⟨r, hr, rfl⟩ := receive_handles h
  cases hr with
  | ignored => exact { hs with }
  | synack hst _ _ =>
    refine ⟨?_, ?_, ?_, fun h => absurd rfl h, hs.data⟩
    · intro syn tries hcall
      obtain ⟨ht, hseq, hport, _⟩ := hs.connect syn tries hcall
      exact ⟨ht, hseq, hport, .inr rfl⟩
    · intro data num rem hcall
      exact absurd (hst.symm.trans (hs.send data num rem hcall).1) (by decide)
    · intro fin tries hcall
      rcases (hs.disconnect fin tries hcall).2 with h | h <;> simp [hst] at h
  | dataack hst _ _ =>
    exact { hs with
      sendBuf := fun h => absurd hst h
      data := fun b hb => hs.data b ((List.dropWhile_sublist _).subset hb) }
  | finack hst _ =>
    refine ⟨?_, ?_, ?_, fun _ => hs.sendBuf (by simp [hst]), hs.data⟩
    · intro syn tries hcall
      rcases (hs.connect syn tries hcall).2.2.2 with h | h <;> simp [hst] at h
    · intro data num rem hcall
      exact absurd (hst.symm.trans (hs.send data num rem hcall).1) (by decide)
    · intro fin tries hcall
      exact ⟨(hs.disconnect fin tries hcall).1, .inr rfl⟩

end CallOk

/-- What a step may write, told by the state it ends in. -/
inductive Emitted (t : Socket) (seg : Seg) : Prop
  | syn : t.tcb.state = .synsent → seg.header.type = SegType.syn →
      seg.header.seqNum = t.tcb.nextSeqNum → seg.header.srcPort = t.tcb.clientPortNum →
      Emitted t seg
  | fin : t.tcb.state = .finwait → seg.header.type = SegType.fin → Emitted t seg
  | data : t.tcb.state = .connected → seg.header.type = SegType.data → Emitted t seg

theorem emitted_sentNodes {s : Socket} (hs : CallOk s) {r : ClientTcb × List SegBuf}
    (hr : SendsFrom s.tcb r.1 r.2) {seg : Seg} (hseg : seg ∈ (s.sentNodes r).2) :
    Emitted (s.sentNodes r).1 seg := by
  obtain ⟨b, hb, rfl⟩ := List.mem_map.mp hseg
  have hb' := hr.sent b hb
  have hs' := hs.sentNodes hr
  have hst : (s.sentNodes r).1.tcb.state = .connected := by
    by_contra hst
    exact absurd (hs'.sendBuf hst ▸ hb') List.not_mem_nil
  exact .data hst (hs'.data b hb')

theorem emitted_of_step {s : Socket} (hs : CallOk s) {a : Action}
    {r : Socket × List Seg} (h : s.step a = some r) {seg : Seg} (hseg : seg ∈ r.2) :
    Emitted r.1 seg := by
  cases steps_of_step h with
  | connect nodeID serverPort sendOk _ _ =>
    cases sendOk with
    | false => simp at hseg
    | true =>
      obtain rfl : seg = s.syn serverPort := by simpa using hseg
      exact .syn rfl rfl rfl rfl
  | resendSyn sendOk syn tries hcall hst =>
    cases sendOk with
    | false => simp at hseg
    | true =>
      obtain rfl : seg = syn := by simpa using hseg
      obtain ⟨ht, hseq, hport, _⟩ := hs.connect seg tries hcall
      exact .syn hst ht hseq hport
  | connected _ => simp at hseg
  | connectGaveUp _ _ _ _ => simp at hseg
  | sendNothing _ => simp at hseg
  | send _ _ _ => simp at hseg
  | queueSegment _ _ _ _ _ => simp at hseg
  | sendReturn env r hr =>
    have hs' : CallOk { s with call := .idle } := .of_idle rfl hs.sendBuf hs.data
    exact emitted_sentNodes hs' (sendMaxSegments_sendsFrom hr) hseg
  | sendMaxSegments env r hr => exact emitted_sentNodes hs (sendMaxSegments_sendsFrom hr) hseg
  | sendBufTimer env r hr => exact emitted_sentNodes hs (sendBufTimer_sendsFrom hr) hseg
  | disconnect sendOk _ _ _ =>
    cases sendOk with
    | false => simp at hseg
    | true =>
      obtain rfl : seg = s.fin := by simpa using hseg
      exact .fin rfl rfl
  | resendFin sendOk fin tries hcall hst =>
    cases sendOk with
    | false => simp at hseg
    | true =>
      obtain rfl : seg = fin := by simpa using hseg
      exact .fin hst (hs.disconnect seg tries hcall).1
  | disconnected _ => simp at hseg
  | disconnectGaveUp _ _ _ _ => simp at hseg

/-- The `DATA` a step writes is queued. -/
theorem queued_of_step {s : Socket} (hs : CallOk s) (hc : Chain s) {a : Action}
    {r : Socket × List Seg} (h : s.step a = some r) {seg : Seg} (hseg : seg ∈ r.2)
    (ht : seg.header.type = SegType.data) :
    ∃ i < r.1.sentCount, r.1.queued[i]? = some seg.clearChecksum := by
  have hnodes : ∀ {s' : Socket} {r' : ClientTcb × List SegBuf}, Sent s' (s'.sentNodes r').1 r'.2 →
      seg ∈ (s'.sentNodes r').2 → ∃ i < (s'.sentNodes r').1.sentCount,
        (s'.sentNodes r').1.queued[i]? = some seg.clearChecksum := by
    intro s' r' hsent hseg
    obtain ⟨b, hb, rfl⟩ := List.mem_map.mp hseg
    obtain ⟨_, hlt, hq⟩ := hsent.nodes b hb
    exact ⟨b.addr, hlt, hq⟩
  have hst : r.1.tcb.state = .connected := by
    cases emitted_of_step hs h hseg with
    | syn _ ht' _ _ => exact absurd (ht'.symm.trans ht) (by decide)
    | fin _ ht' => exact absurd (ht'.symm.trans ht) (by decide)
    | data hst _ => exact hst
  cases steps_of_step h with
  | sendReturn env r hr =>
    have hc' : Chain { s with call := .idle } := { hc with }
    exact hnodes (hc'.sendMaxSegments hr).1 hseg
  | sendMaxSegments env r hr => exact hnodes (hc.sendMaxSegments hr).1 hseg
  | sendBufTimer env r hr => exact hnodes (hc.sendBufTimer hr).1 hseg
  | connect _ _ _ _ _ => simp at hst
  | resendSyn _ _ _ _ hst' => simp [hst'] at hst
  | disconnect _ _ _ _ => simp at hst
  | resendFin _ _ _ _ hst' => simp [hst'] at hst
  | _ => simp at hseg

end DartNet.Client
