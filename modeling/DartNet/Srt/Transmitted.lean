import DartNet.Srt.Calls
import DartNet.Srt.Window

/-! Which nodes have been transmitted. Without send failures these are the nodes before the
pointer `sendBufunSent`, however the timer, `sendMaxSegments`, acknowledgements and disconnects
come one after the other. -/
namespace DartNet.Client
open Transition

/-- No `snp_sendseg` of a data segment fails. -/
def NoneFails : Event → Prop
  | .api (.sendReturn env) => env.failed = []
  | .api (.sendMaxSegments env) => env.failed = []
  | .api (.sendBufTimer env) => env.failed = []
  | _ => True

instance : DecidablePred NoneFails := fun e => by
  rcases e with (_ | _) | _ <;> dsimp only [NoneFails] <;> infer_instance

theorem resendLoop_sent {env : Env} (hfailed : env.failed = []) (unAck : UInt32) (k : ℕ)
    (bs : List SegBuf) : (resendLoop env unAck k bs).sent =
      (resendLoop env unAck k bs).bufs.take (unAck.toNat + 1 - k) := by
  induction bs generalizing k with
  | nil => simp [resendLoop]
  | cons b bs ih =>
    simp only [resendLoop]
    split
    next hk =>
      have hsucc : unAck.toNat + 1 - k = unAck.toNat + 1 - (k + 1) + 1 := by omega
      simp [hfailed, hsucc, ih (k + 1)]
    next hk =>
      have hzero : unAck.toNat + 1 - k = 0 := by omega
      simp [hzero]

/-- The addresses of the nodes a timeout sends -/
theorem Chain.sendBufTimer_addr {s : Socket} (hs : Chain s) {env : Env}
    (hfailed : env.failed = []) {r : ClientTcb × List SegBuf}
    (h : s.tcb.sendBufTimer env = some r) :
    r.2.map (·.addr) =
      List.range' s.freed.length ((s.sentNodes r).1.sentCount - s.freed.length) := by
  obtain ⟨hsent, hcount⟩ := hs.sendBufTimer h
  have hlen := hs.length
  have hlen' := hsent.chain.length
  have haddr := hsent.chain.addr
  rw [hsent.freed] at haddr hlen'
  rw [hsent.queued] at hlen'
  have hsub : (s.sentNodes r).1.sentCount - s.freed.length =
      min (s.tcb.unAckSegNum.toNat + 1) s.tcb.sendBuf.length := by omega
  have hr : r.2 = r.1.sendBuf.take (s.tcb.unAckSegNum.toNat + 1) := by
    obtain ⟨_, q, rfl, rfl⟩ := sendBufTimer_cases h
    exact resendLoop_sent hfailed s.tcb.unAckSegNum 0 s.tcb.sendBuf
  have hbuf : (s.sentNodes r).1.tcb.sendBuf = r.1.sendBuf := rfl
  rw [hbuf] at haddr hlen'
  rw [hsub, hr, List.map_take, haddr]
  rcases Nat.le_total (s.tcb.unAckSegNum.toNat + 1) r.1.sendBuf.length with hle | hle
  · rw [List.take_range'_of_length_ge hle, Nat.min_eq_left (by omega)]
  · rw [List.take_range'_of_length_le hle, Nat.min_eq_right (by omega)]
    congr 1
    omega

/-- The addresses of the nodes `sendMaxSegments` sends, and what it adds to the counter -/
theorem Chain.sendMaxSegments_addr {s : Socket} (hs : Chain s) {env : Env}
    (hfailed : env.failed = []) {r : ClientTcb × List SegBuf}
    (h : s.tcb.sendMaxSegments env = some r) :
    r.2.map (·.addr) =
      List.range' s.sentCount ((s.sentNodes r).1.sentCount - s.sentCount) ∧
    r.1.unAckSegNum.toNat =
      s.tcb.unAckSegNum.toNat + ((s.sentNodes r).1.sentCount - s.sentCount) := by
  have hmutex' := sendMaxSegments_mutex hfailed h
  obtain ⟨hmutex, ⟨hptr, rfl⟩ | ⟨j, q, m, hptr, hj, hm, rfl⟩⟩ := hs.sendMaxSegments_cases h
  · simp [Socket.sentNodes, Socket.sentCount]
  · have hq : q.failed = false := hmutex'
    have hmle := hm.le
    rw [List.length_drop] at hmle
    have hcount : s.sentCount = s.freed.length + j := by
      rw [Socket.sentCount, hmutex, hptr]
      rfl
    obtain ⟨_, hget⟩ := hs.head?_drop (j := j + m) (by omega)
    have hcount' : (s.sentNodes ({ s.tcb with
        bufMutex := q.failed
        sendBuf := s.tcb.sendBuf.take j ++ q.bufs
        sendBufunSent := if q.failed then some (s.freed.length + j) else q.currentSegBuf
        unAckSegNum := q.unAckSegNum }, q.sent)).1.sentCount = s.freed.length + (j + m) := by
      simpa [Socket.sentCount, Socket.sentNodes, hq, hm.current hq, List.drop_drop] using hget
    have hsub : s.freed.length + (j + m) - (s.freed.length + j) = m := by omega
    rw [hcount', hcount, hsub]
    refine ⟨?_, hm.unAckSegNum⟩
    rw [hm.sent, List.map_take, hm.same.addr, List.map_drop, hs.addr, List.drop_range',
      Nat.mul_one, List.take_range'_of_length_ge hmle]

/-- The nodes before the pointer have been transmitted, and no others. -/
structure Marked (s : Socket) : Prop where
  chain : Chain s
  mutex : s.tcb.bufMutex = false
  before : ∀ a ∈ s.transmitted, a < s.sentCount
  all : ∀ a, s.freed.length ≤ a → a < s.sentCount → a ∈ s.transmitted

namespace Marked
variable {s t : Socket}

theorem fresh (nodeID clientPort : UInt32) : Marked (.fresh nodeID clientPort) where
  chain := .fresh nodeID clientPort
  mutex := rfl
  before a ha := by simp [Socket.fresh] at ha
  all a _ ha := by simp [Socket.fresh, Socket.sentCount, srtClientSock] at ha

/-- A section sends a stretch of nodes that begins at the pointer or before it. -/
theorem sent (hs : Marked s) {r : ClientTcb × List SegBuf}
    (hsent : Sent s (s.sentNodes r).1 r.2) (hmutex : r.1.bufMutex = false) {first : ℕ}
    (hfirst : first ≤ s.sentCount) (haddr : r.2.map (·.addr) =
      List.range' first ((s.sentNodes r).1.sentCount - first)) : Marked (s.sentNodes r).1 where
  chain := hsent.chain
  mutex := hmutex
  before := hsent.before hs.before
  all a hfreed ha := by
    rcases Nat.lt_or_ge a s.sentCount with hlt | hge
    · exact List.mem_append_left _ (hs.all a hfreed hlt)
    · apply List.mem_append_right
      rw [haddr, List.mem_range'_1]
      omega

theorem sendMaxSegments (hs : Marked s) {env : Env} (hfailed : env.failed = [])
    {r : ClientTcb × List SegBuf} (h : s.tcb.sendMaxSegments env = some r) :
    Marked (s.sentNodes r).1 :=
  hs.sent (hs.chain.sendMaxSegments h).1 (sendMaxSegments_mutex hfailed h) le_rfl
    (hs.chain.sendMaxSegments_addr hfailed h).1

theorem sendBufTimer (hs : Marked s) {env : Env} (hfailed : env.failed = [])
    {r : ClientTcb × List SegBuf} (h : s.tcb.sendBufTimer env = some r) :
    Marked (s.sentNodes r).1 :=
  hs.sent (hs.chain.sendBufTimer h).1 (sendBufTimer_mutex h) hs.chain.freed_le
    (hs.chain.sendBufTimer_addr hfailed h)

/-- Nothing is left before the pointer. -/
theorem disconnect (hs : Marked s) (hmutex : t.tcb.bufMutex = false) (hq : t.queued = s.queued)
    (hf : t.freed = s.freed ++ s.tcb.sendBuf.map (·.seg)) (hbuf : t.tcb.sendBuf = [])
    (hptr : t.tcb.sendBufunSent = none) (ht : t.transmitted = s.transmitted) : Marked t := by
  obtain ⟨hc, hle⟩ := hs.chain.disconnect hmutex hq hf hbuf hptr
  have hlen := hc.length
  have hcount := hc.sentCount_le
  rw [hbuf, List.length_nil] at hlen
  exact ⟨hc, hmutex, fun a ha => (hs.before a (ht ▸ ha)).trans_le hle, fun a _ _ => by omega⟩

theorem step (hs : Marked s) {a : Action} (hfailed : NoneFails (.api a)) {r : Socket × List Seg}
    (h : s.step a = some r) : Marked r.1 := by
  cases steps_of_step h with
  | connect _ _ _ _ _ => exact { hs with chain := { hs.chain with } }
  | resendSyn _ _ _ _ _ => exact { hs with chain := { hs.chain with } }
  | connected _ => exact { hs with chain := { hs.chain with } }
  | connectGaveUp _ _ _ _ => exact { hs with chain := { hs.chain with } }
  | sendNothing _ => exact hs
  | send _ _ _ => exact { hs with chain := { hs.chain with } }
  | queueSegment data num dataRemainder _ hmutex =>
    obtain ⟨hc, hcount⟩ := hs.chain.queue hmutex data num dataRemainder
    exact ⟨hc, hs.mutex, hcount ▸ hs.before, hcount ▸ hs.all⟩
  | sendReturn env r hr =>
    have hs' : Marked { s with call := .idle } := { hs with chain := { hs.chain with } }
    exact hs'.sendMaxSegments hfailed hr
  | sendMaxSegments env r hr => exact hs.sendMaxSegments hfailed hr
  | sendBufTimer env r hr => exact hs.sendBufTimer hfailed hr
  | disconnect sendOk _ _ hmutex =>
    exact hs.disconnect hmutex rfl rfl rfl rfl rfl
  | resendFin _ _ _ _ _ => exact { hs with chain := { hs.chain with } }
  | disconnected _ => exact { hs with chain := { hs.chain with } }
  | disconnectGaveUp _ _ _ _ => exact { hs with chain := { hs.chain with } }

theorem receive (hs : Marked s) {srcNodeID : UInt32} {seg : Seg}
    (hack : seg.header.type = SegType.dataack →
      ∀ b ∈ s.tcb.acked seg.header.seqNum, b.addr < s.sentCount)
    (h : s.receive srcNodeID seg = some t) : Marked t := by
  obtain ⟨hc, hcount⟩ := hs.chain.receive hack h
  obtain ⟨r, hr, rfl⟩ := receive_handles h
  refine ⟨hc, ?_, hcount ▸ hs.before, ?_⟩
  · cases hr <;> exact hs.mutex
  · intro a hfreed ha
    rw [List.length_append] at hfreed
    exact hs.all a (by omega) (hcount ▸ ha)

end Marked
end DartNet.Client
