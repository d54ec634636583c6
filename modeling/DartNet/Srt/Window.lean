import DartNet.Foundation.Transition
import DartNet.Srt.SendBuffer

/-! The window of one client socket. `sendMaxSegments` sends while `unAck_segNum <= GBN_WINDOW`
and the timer while `sentSegments <= unAck_segNum`, so both can send one segment too many. -/
namespace DartNet.Client
open Transition

inductive Event where
  | api (a : Action)
  | segment (srcNodeID : UInt32) (seg : Seg)

def socketMachine (nodeID clientPort : UInt32) : Machine Socket Event where
  Init s := s = .fresh nodeID clientPort
  step s
    | .api a => (s.step a).map Prod.fst
    | .segment srcNodeID seg => s.receive srcNodeID seg

/-- One connection without send failures, and acknowledgements only for what was transmitted. -/
def Acknowledged (s : Socket) : Event → Prop
  | .api (.disconnect _) => False
  | .api (.sendReturn env) => env.failed = []
  | .api (.sendMaxSegments env) => env.failed = []
  | .api (.sendBufTimer env) => env.failed = []
  | .api _ => True
  | .segment _ seg => seg.header.type = SegType.dataack →
      ∀ b ∈ s.tcb.acked seg.header.seqNum, b.addr ∈ s.transmitted

/-- A section that sends starts where its loop bound is harmless. -/
def WindowKept (s : Socket) : Event → Prop
  | .api (.sendReturn _) =>
    gbnWindow < s.tcb.unAckSegNum.toNat ∨ s.tcb.sendBuf.length ≤ gbnWindow
  | .api (.sendMaxSegments _) =>
    gbnWindow < s.tcb.unAckSegNum.toNat ∨ s.tcb.sendBuf.length ≤ gbnWindow
  | .api (.sendBufTimer _) =>
    s.tcb.unAckSegNum.toNat < gbnWindow ∨ s.tcb.sendBuf.length ≤ gbnWindow
  | _ => True

/-- The segments in the send buffer that were transmitted; acknowledged ones have left it. -/
def Socket.outstanding (s : Socket) : ℕ := s.tcb.sendBuf.countP (·.addr ∈ s.transmitted)

theorem filter_range'_lt (f n c : ℕ) :
    (List.range' f n).filter (· < c) = List.range' f (min n (c - f)) := by
  induction n generalizing f with
  | zero => simp
  | succ n ih =>
    rw [List.range'_succ]
    by_cases hlt : f < c
    · have hmin : min (n + 1) (c - f) = min n (c - (f + 1)) + 1 := by omega
      rw [List.filter_cons_of_pos (by simpa using hlt), ih (f + 1), hmin, List.range'_succ]
    · have hmin : min (n + 1) (c - f) = 0 := by omega
      have hmin' : min n (c - (f + 1)) = 0 := by omega
      rw [List.filter_cons_of_neg (by simpa using hlt), ih (f + 1), hmin, hmin']
      rfl

structure Bounded (s : Socket) : Prop where
  chain : Chain s
  mutex : s.tcb.bufMutex = false
  transmitted : ∀ a ∈ s.transmitted, a < s.sentCount
  bound : s.sentCount ≤ s.freed.length + gbnWindow

theorem Bounded.outstanding_le {s : Socket} (hs : Bounded s) : s.outstanding ≤ gbnWindow := by
  have hcount : s.outstanding ≤
      (s.tcb.sendBuf.map (·.addr)).countP (· < s.sentCount) := by
    rw [List.countP_map]
    apply List.countP_mono_left
    intro b _ hb
    simpa using hs.transmitted b.addr (by simpa using hb)
  rw [hs.chain.addr, List.countP_eq_length_filter, filter_range'_lt, List.length_range'] at hcount
  have hbound := hs.bound
  omega

theorem sendMaxLoop_failed {env : Env} (h : env.failed = []) (k : ℕ) (unAck : UInt32)
    (bs : List SegBuf) : (sendMaxLoop env k unAck bs).failed = false := by
  induction bs generalizing k unAck with
  | nil => rfl
  | cons b bs ih =>
    simp only [sendMaxLoop, h]
    split
    · simpa [h] using ih (k + 1) (unAck + 1)
    · rfl

theorem sendMaxSegments_mutex {tcb : ClientTcb} {env : Env} (h : env.failed = [])
    {r : ClientTcb × List SegBuf} (hr : tcb.sendMaxSegments env = some r) :
    r.1.bufMutex = false := by
  obtain ⟨hm, ⟨_, rfl⟩ | ⟨a, q, _, _, hq, rfl⟩⟩ := sendMaxSegments_cases hr
  · exact hm
  · rw [hq]
    exact sendMaxLoop_failed h ..

theorem sendBufTimer_mutex {tcb : ClientTcb} {env : Env} {r : ClientTcb × List SegBuf}
    (hr : tcb.sendBufTimer env = some r) : r.1.bufMutex = false := by
  obtain ⟨hm, _, _, rfl⟩ := sendBufTimer_cases hr
  exact hm

theorem Bounded.sent {s : Socket} (hs : Bounded s) {r : ClientTcb × List SegBuf}
    (hsent : Sent s (s.sentNodes r).1 r.2) (hmutex : r.1.bufMutex = false)
    (hbound : (s.sentNodes r).1.sentCount ≤ s.freed.length + gbnWindow) :
    Bounded (s.sentNodes r).1 where
  chain := hsent.chain
  mutex := hmutex
  bound := hbound
  transmitted := hsent.before hs.transmitted

theorem Bounded.sendMaxSegments {s : Socket} (hs : Bounded s) {env : Env}
    (hfailed : env.failed = [])
    (hok : gbnWindow < s.tcb.unAckSegNum.toNat ∨ s.tcb.sendBuf.length ≤ gbnWindow)
    {r : ClientTcb × List SegBuf} (hr : s.tcb.sendMaxSegments env = some r) :
    Bounded (s.sentNodes r).1 := by
  obtain ⟨hsent, hfull⟩ := hs.chain.sendMaxSegments hr
  have hmutex := sendMaxSegments_mutex hfailed hr
  apply hs.sent hsent hmutex
  rcases hok with hU | hlen
  · exact (hfull hmutex hU).trans_le hs.bound
  · have hle := hsent.chain.sentCount_le
    have hq := hs.chain.length
    rw [hsent.queued] at hle
    omega

theorem Bounded.step {s t : Socket} (hs : Bounded s) {a : Action} {out : List Seg}
    (hack : Acknowledged s (.api a)) (hok : WindowKept s (.api a))
    (h : s.step a = some (t, out)) : Bounded t := by
  cases steps_of_step h with
  | connect _ _ _ _ _ => exact { hs with chain := { hs.chain with } }
  | resendSyn _ _ _ _ _ => exact { hs with chain := { hs.chain with } }
  | connected _ => exact { hs with chain := { hs.chain with } }
  | connectGaveUp _ _ _ _ => exact { hs with chain := { hs.chain with } }
  | sendNothing _ => exact hs
  | send _ _ _ => exact { hs with chain := { hs.chain with } }
  | queueSegment data num dataRemainder _ hmutex =>
    obtain ⟨hc, hcount⟩ := hs.chain.queue hmutex data num dataRemainder
    exact ⟨hc, hs.mutex, hcount ▸ hs.transmitted, hcount ▸ hs.bound⟩
  | sendReturn env r hr =>
    have hs' : Bounded { s with call := .idle } := { hs with chain := { hs.chain with } }
    exact hs'.sendMaxSegments hack hok hr
  | sendMaxSegments env r hr => exact hs.sendMaxSegments hack hok hr
  | sendBufTimer env r hr =>
    obtain ⟨hsent, hcount⟩ := hs.chain.sendBufTimer hr
    apply hs.sent hsent (sendBufTimer_mutex hr)
    rw [hcount]
    rcases hok with hU | hlen <;> omega
  | disconnect _ _ _ _ => exact hack.elim
  | resendFin _ _ _ _ _ => exact { hs with chain := { hs.chain with } }
  | disconnected _ => exact { hs with chain := { hs.chain with } }
  | disconnectGaveUp _ _ _ _ => exact { hs with chain := { hs.chain with } }

theorem Bounded.receive {s t : Socket} (hs : Bounded s) {srcNodeID : UInt32} {seg : Seg}
    (hack : Acknowledged s (.segment srcNodeID seg)) (h : s.receive srcNodeID seg = some t) :
    Bounded t := by
  obtain ⟨hchain, hcount⟩ := hs.chain.receive
    (fun ht b hb => hs.transmitted b.addr (hack ht b hb)) h
  obtain ⟨r, hr, rfl⟩ := receive_handles h
  refine ⟨hchain, ?_, hcount ▸ hs.transmitted, ?_⟩
  · cases hr <;> exact hs.mutex
  · have hbound := hs.bound
    rw [hcount]
    simp only [List.length_append]
    omega

theorem fresh_bounded (nodeID clientPort : UInt32) : Bounded (.fresh nodeID clientPort) where
  chain := .fresh nodeID clientPort
  mutex := rfl
  transmitted a ha := by simp [Socket.fresh] at ha
  bound := Nat.zero_le _

theorem reachable_bounded {nodeID clientPort : UInt32} {s : Socket}
    (h : (socketMachine nodeID clientPort).Reachable
      (fun s e => Acknowledged s e ∧ WindowKept s e) s) : Bounded s := by
  apply h.invariant
  · rintro _ rfl
    exact fresh_bounded nodeID clientPort
  · rintro s (a | ⟨srcNodeID, seg⟩) t hs ⟨hack, hok⟩ hstep
    · obtain ⟨⟨t', out⟩, hr, rfl⟩ := Option.map_eq_some_iff.mp hstep
      exact hs.step hack hok hr
    · exact hs.receive hack hstep

/-- At most `GBN_WINDOW` segments are transmitted and not acknowledged. -/
theorem outstanding_le_window (nodeID clientPort : UInt32) (s : Socket)
    (h : (socketMachine nodeID clientPort).Reachable
      (fun s e => Acknowledged s e ∧ WindowKept s e) s) : s.outstanding ≤ gbnWindow :=
  (reachable_bounded h).outstanding_le

instance (s : Socket) (e : Event) : Decidable (Acknowledged s e) := by
  unfold Acknowledged
  split <;> infer_instance

instance (s : Socket) (e : Event) : Decidable (WindowKept s e) := by
  unfold WindowKept
  split <;> infer_instance

/-- Connect to port 80 of node 2 and send one byte each time. -/
def sendBytes (n : ℕ) : List Event :=
  [.api (.connect 2 80 true), .segment 2 (controlSeg 80 4000 SegType.synack 0),
    .api .connectReturn] ++
  (List.replicate n [.api (.send [7]), .api .queueSegment,
    .api (.sendReturn ⟨fun _ => 0, []⟩)]).flatten

/-- Ten bytes fill the window. -/
theorem outstanding_le_window_run : ∃ s : Socket,
    (socketMachine 1 4000).run (fun s e => Acknowledged s e ∧ WindowKept s e) (.fresh 1 4000)
      (sendBytes 10) = some s ∧ 10 ≤ s.outstanding ∧ s.outstanding ≤ gbnWindow := by
  obtain ⟨s, hrun, hs, hout⟩ := (socketMachine 1 4000).exists_of_run
    (fun s e => Acknowledged s e ∧ WindowKept s e) rfl (sendBytes 10)
    (P := fun s => 10 ≤ s.outstanding) (by decide +kernel)
  exact ⟨s, hrun, hout, outstanding_le_window 1 4000 s hs⟩

/-- The eleventh byte is sent as well, while `unAck_segNum` is `GBN_WINDOW`. -/
theorem eleven_outstanding : ∃ s : Socket,
    (socketMachine 1 4000).run Acknowledged (.fresh 1 4000) (sendBytes 11) = some s ∧
    (socketMachine 1 4000).Reachable Acknowledged s ∧ ¬ s.outstanding ≤ gbnWindow :=
  (socketMachine 1 4000).exists_of_run _ rfl _ (by decide +kernel)

end DartNet.Client
