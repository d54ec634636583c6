import DartNet.Srt.Transmitted

/-! The counter `unAck_segNum`. `sendMaxSegments` counts what it sends and a `DATAACK` what it
frees, but a timeout does not count the segment it sends beyond the counter, and a disconnect
does not clear the counter with the buffer. -/
namespace DartNet.Client
open Transition

/-- Acknowledgements are only for segments that were transmitted. -/
def AcksTransmitted (s : Socket) : Event → Prop
  | .api _ => True
  | .segment _ seg => seg.header.type = SegType.dataack →
      ∀ b ∈ s.tcb.acked seg.header.seqNum, b.addr ∈ s.transmitted

/-- A timeout comes when no segment in the buffer is still to be counted, and a disconnect when
none is counted. -/
def CounterKept (s : Socket) : Event → Prop
  | .api (.sendBufTimer _) => s.tcb.sendBuf.length ≤ s.tcb.unAckSegNum.toNat
  | .api (.disconnect _) => s.tcb.unAckSegNum = 0
  | _ => True

instance (s : Socket) (e : Event) : Decidable (AcksTransmitted s e) := by
  rcases e with _ | _ <;> dsimp only [AcksTransmitted] <;> infer_instance

instance (s : Socket) (e : Event) : Decidable (CounterKept s e) := by
  rcases e with (_ | _) | _ <;> dsimp only [CounterKept] <;> infer_instance

/-- The counter is the number of nodes before the pointer. -/
structure Counted (s : Socket) : Prop where
  marked : Marked s
  count : s.sentCount = s.freed.length + s.tcb.unAckSegNum.toNat

/-- The nodes in the buffer that have been transmitted -/
def Socket.transmittedNodes (s : Socket) : List ℕ :=
  (s.tcb.sendBuf.map (·.addr)).filter (· ∈ s.transmitted)

theorem length_transmittedNodes (s : Socket) : s.transmittedNodes.length = s.outstanding := by
  rw [Socket.transmittedNodes, ← List.countP_eq_length_filter, List.countP_map]
  rfl

theorem Marked.transmittedNodes {s : Socket} (hs : Marked s) :
    s.transmittedNodes = List.range' s.freed.length (s.sentCount - s.freed.length) := by
  have hlen := hs.chain.length
  have hle := hs.chain.sentCount_le
  have hfilter : (List.range' s.freed.length s.tcb.sendBuf.length).filter (· ∈ s.transmitted) =
      (List.range' s.freed.length s.tcb.sendBuf.length).filter (· < s.sentCount) := by
    apply List.filter_congr
    intro a ha
    rw [List.mem_range'_1] at ha
    simpa using ⟨hs.before a, hs.all a ha.1⟩
  rw [Socket.transmittedNodes, hs.chain.addr, hfilter, filter_range'_lt, Nat.min_eq_right]
  omega

namespace Counted
variable {s t : Socket}

theorem outstanding (hs : Counted s) : s.tcb.unAckSegNum.toNat = s.outstanding := by
  have hcount := hs.count
  rw [← length_transmittedNodes, hs.marked.transmittedNodes, List.length_range']
  omega

theorem sendMaxSegments (hs : Counted s) {env : Env} (hfailed : env.failed = [])
    {r : ClientTcb × List SegBuf} (h : s.tcb.sendMaxSegments env = some r) :
    Counted (s.sentNodes r).1 := by
  have hmono := (hs.marked.chain.sendMaxSegments h).1.mono
  have hunAck : (s.sentNodes r).1.tcb.unAckSegNum.toNat = _ :=
    (hs.marked.chain.sendMaxSegments_addr hfailed h).2
  have hfreed : (s.sentNodes r).1.freed = s.freed := rfl
  have hcount := hs.count
  refine ⟨hs.marked.sendMaxSegments hfailed h, ?_⟩
  rw [hunAck, hfreed]
  omega

theorem sendBufTimer (hs : Counted s) {env : Env} (hfailed : env.failed = [])
    (hok : s.tcb.sendBuf.length ≤ s.tcb.unAckSegNum.toNat)
    {r : ClientTcb × List SegBuf} (h : s.tcb.sendBufTimer env = some r) :
    Counted (s.sentNodes r).1 := by
  obtain ⟨hsent, hcount'⟩ := hs.marked.chain.sendBufTimer h
  have hcount := hs.count
  have hle := hs.marked.chain.sentCount_le
  have hlen := hs.marked.chain.length
  have hunAck : (s.sentNodes r).1.tcb.unAckSegNum = s.tcb.unAckSegNum := by
    obtain ⟨_, _, _, rfl⟩ := sendBufTimer_cases h
    rfl
  refine ⟨hs.marked.sendBufTimer hfailed h, ?_⟩
  rw [hcount', hsent.freed, hunAck]
  omega

theorem of_empty (hs : Marked s) (hbuf : s.tcb.sendBuf = []) (hunAck : s.tcb.unAckSegNum = 0) :
    Counted s := by
  have hlen := hs.chain.length
  have hle := hs.chain.sentCount_le
  have hge := hs.chain.freed_le
  refine ⟨hs, ?_⟩
  rw [hbuf, List.length_nil] at hlen
  rw [hunAck, UInt32.toNat_zero]
  omega

theorem step (hs : Counted s) {a : Action} (hfailed : NoneFails (.api a))
    (hok : CounterKept s (.api a)) {r : Socket × List Seg} (h : s.step a = some r) :
    Counted r.1 := by
  have hm := hs.marked.step hfailed h
  cases steps_of_step h with
  | connect _ _ _ _ _ => exact ⟨hm, hs.count⟩
  | resendSyn _ _ _ _ _ => exact ⟨hm, hs.count⟩
  | connected _ => exact ⟨hm, hs.count⟩
  | connectGaveUp _ _ _ _ => exact ⟨hm, hs.count⟩
  | sendNothing _ => exact hs
  | send _ _ _ => exact ⟨hm, hs.count⟩
  | queueSegment data num dataRemainder _ hmutex =>
    exact ⟨hm, (hs.marked.chain.queue hmutex data num dataRemainder).2.trans hs.count⟩
  | sendReturn env r hr =>
    have hs' : Counted { s with call := .idle } :=
      ⟨{ hs.marked with chain := { hs.marked.chain with } }, hs.count⟩
    exact hs'.sendMaxSegments hfailed hr
  | sendMaxSegments env r hr => exact hs.sendMaxSegments hfailed hr
  | sendBufTimer env r hr => exact hs.sendBufTimer hfailed hok hr
  | disconnect _ _ _ _ => exact of_empty hm rfl hok
  | resendFin _ _ _ _ _ => exact ⟨hm, hs.count⟩
  | disconnected _ => exact ⟨hm, hs.count⟩
  | disconnectGaveUp _ _ _ _ => exact ⟨hm, hs.count⟩

theorem receive (hs : Counted s) {srcNodeID : UInt32} {seg : Seg}
    (hack : AcksTransmitted s (.segment srcNodeID seg)) (h : s.receive srcNodeID seg = some t) :
    Counted t := by
  have hbefore : seg.header.type = SegType.dataack →
      ∀ b ∈ s.tcb.acked seg.header.seqNum, b.addr < s.sentCount :=
    fun ht b hb => hs.marked.before b.addr (hack ht b hb)
  have hm := hs.marked.receive hbefore h
  have hsent := (hs.marked.chain.receive hbefore h).2
  have hcount := hs.count
  have hle := hm.chain.freed_le
  refine ⟨hm, ?_⟩
  rw [hsent] at hle ⊢
  obtain ⟨r, hr, rfl⟩ := receive_handles h
  cases hr with
  | dataack _ _ _ =>
    simp only [List.length_append, List.length_map] at hle ⊢
    simp only [ClientTcb.freeAcked]
    rw [toNat_sub_ofNat (by omega)]
    omega
  | _ => simpa using hcount

theorem fresh (nodeID clientPort : UInt32) : Counted (.fresh nodeID clientPort) :=
  ⟨.fresh nodeID clientPort, rfl⟩

end Counted

theorem reachable_counted {nodeID clientPort : UInt32} {s : Socket}
    (h : (socketMachine nodeID clientPort).Reachable
      (fun s e => (NoneFails e ∧ AcksTransmitted s e) ∧ CounterKept s e) s) : Counted s := by
  apply h.invariant
  · rintro _ rfl
    exact .fresh nodeID clientPort
  · rintro s (a | ⟨srcNodeID, seg⟩) t hs ⟨⟨hfailed, hack⟩, hok⟩ hstep
    · obtain ⟨r, hr, rfl⟩ := Option.map_eq_some_iff.mp hstep
      exact hs.step hfailed hok hr
    · exact hs.receive hack hstep

/-- A timeout sends the transmitted nodes again, and no others, if there are no others. -/
theorem Counted.resends_iff {s : Socket} (hs : Counted s) {env : Env} (hfailed : env.failed = [])
    {r : ClientTcb × List SegBuf} (h : s.tcb.sendBufTimer env = some r) :
    r.2.map (·.addr) = s.transmittedNodes ↔
      s.tcb.sendBuf.length ≤ s.tcb.unAckSegNum.toNat := by
  obtain ⟨_, hcount'⟩ := hs.marked.chain.sendBufTimer h
  have hcount := hs.count
  have hlen := hs.marked.chain.length
  have hle := hs.marked.chain.sentCount_le
  rw [hs.marked.chain.sendBufTimer_addr hfailed h, hs.marked.transmittedNodes, List.range'_inj]
  omega

/-- In every run in which each timeout finds all segments of the buffer counted, and each
disconnect none, the counter is the number of transmitted segments in the buffer. -/
theorem unAck_counts (nodeID clientPort : UInt32) (s : Socket)
    (h : (socketMachine nodeID clientPort).Reachable
      (fun s e => (NoneFails e ∧ AcksTransmitted s e) ∧ CounterKept s e) s) :
    s.tcb.unAckSegNum.toNat = s.outstanding ∧
      ∀ env r, env.failed = [] → s.tcb.sendBufTimer env = some r →
        (r.2.map (·.addr) = s.transmittedNodes ↔
          s.tcb.sendBuf.length ≤ s.tcb.unAckSegNum.toNat) := by
  have hs := reachable_counted h
  exact ⟨hs.outstanding, fun env r hfailed hr => hs.resends_iff hfailed hr⟩

/-- Send two bytes, time out once and have the first one acknowledged. -/
def timeoutAndAck : List Event :=
  sendBytes 2 ++ [.api (.sendBufTimer ⟨fun _ => 0, []⟩),
    .segment 2 (controlSeg 80 4000 SegType.dataack 1)]

theorem unAck_counts_run : ∃ s : Socket,
    (socketMachine 1 4000).run (fun s e => (NoneFails e ∧ AcksTransmitted s e) ∧ CounterKept s e)
      (.fresh 1 4000) timeoutAndAck = some s ∧
    s.outstanding = 1 ∧ s.tcb.unAckSegNum.toNat = s.outstanding := by
  obtain ⟨s, hrun, hs, hout⟩ := (socketMachine 1 4000).exists_of_run
    (fun s e => (NoneFails e ∧ AcksTransmitted s e) ∧ CounterKept s e) rfl timeoutAndAck
    (P := fun s => s.outstanding = 1) (by decide +kernel)
  exact ⟨s, hrun, hout, (unAck_counts 1 4000 s hs).1⟩

/-- Of twelve segments eleven are sent; a timeout sends the twelfth and does not count it. -/
theorem twelfth_not_counted : ∃ s : Socket,
    (socketMachine 1 4000).run (fun s e => NoneFails e ∧ AcksTransmitted s e) (.fresh 1 4000)
      (sendBytes 12 ++ [.api (.sendBufTimer ⟨fun _ => 0, []⟩)]) = some s ∧
    (socketMachine 1 4000).Reachable (fun s e => NoneFails e ∧ AcksTransmitted s e) s ∧
    ¬ s.tcb.unAckSegNum.toNat = s.outstanding :=
  (socketMachine 1 4000).exists_of_run _ rfl _ (by decide +kernel)

end DartNet.Client
