import DartNet.Srt.DeadEnd
import DartNet.Srt.Segmentation

/-! From the arguments of `srt_client_send` to the results of `srt_server_recv`, and the file that
`app_stress_client` sends and `app_stress_server` stores. -/
namespace DartNet.Srt
open Transition Packed

/-- The two sockets, with the data of each `srt_client_send` that was called. -/
structure Session where
  sys : Sys
  sent : List (List UInt8)

namespace Session

def record (sent : List (List UInt8)) : Action → List (List UInt8)
  | .client (.send data) => sent ++ [data]
  | _ => sent

def step (e : Session) (a : Action) : Option Session :=
  (e.sys.step a).map fun t => ⟨t, record e.sent a⟩

end Session

def sessionMachine (clientNodeID clientPort svrNodeID svrPort : UInt32) :
    Machine Session Action where
  Init e := e = ⟨⟨.fresh clientNodeID clientPort, .fresh svrNodeID svrPort, [], []⟩, []⟩
  step := Session.step

/-- The bytes that are still to be queued: full segments, and the remainder in the last one. -/
def unqueued : Client.Call → List UInt8
  | .send data (num + 1) dataRemainder => data.take (maxSegLen * num + dataRemainder)
  | _ => []

/-- What `srt_client_send` queues of its data. The last segment gets the remainder, so a whole
number of segments loses the last one. -/
def carried (data : List UInt8) : List UInt8 :=
  if data.length % maxSegLen = 0 then data.take (data.length - maxSegLen) else data

/-- Everything sent is queued or about to be. -/
structure Recorded (c : Client.Socket) (sent : List (List UInt8)) : Prop where
  bytes : queuedBytes c ++ unqueued c.call = sent.flatMap carried
  enough : ∀ data num dataRemainder, c.call = .send data (num + 1) dataRemainder →
    maxSegLen * num + dataRemainder ≤ data.length

namespace Recorded
variable {c : Client.Socket} {sent : List (List UInt8)}

theorem fresh (nodeID port : UInt32) : Recorded (.fresh nodeID port) [] := by
  constructor <;> simp [Client.Socket.fresh, queuedBytes, unqueued]

/-- Between two calls of `srt_client_send` nothing is queued. -/
theorem idle {t : Client.Socket} (h : Recorded c sent) (hnone : unqueued c.call = [])
    (hq : t.queued = c.queued) (hcall : ∀ data num rem, t.call ≠ .send data num rem) :
    Recorded t sent := by
  have hnone' : unqueued t.call = [] := by
    cases hcall' : t.call with
    | send data num rem => exact absurd hcall' (hcall data num rem)
    | _ => rfl
  refine ⟨?_, fun data num rem hcall' => absurd hcall' (hcall data _ rem)⟩
  rw [hnone', queuedBytes, hq, ← h.bytes, hnone, queuedBytes]

theorem same {t : Client.Socket} (h : Recorded c sent) (hq : t.queued = c.queued)
    (hcall : t.call = c.call) : Recorded t sent :=
  ⟨by rw [hcall, queuedBytes, hq]; exact h.bytes, hcall ▸ h.enough⟩

theorem carried_eq {data : List UInt8} (h : Client.Socket.numOfSegments data.length ≠ 0) :
    ∃ num, Client.Socket.numOfSegments data.length = num + 1 ∧
      maxSegLen * num + data.length % maxSegLen ≤ data.length ∧
      data.take (maxSegLen * num + data.length % maxSegLen) = carried data := by
  have hne : data.length ≠ 0 := by
    intro hzero
    simp [Client.Socket.numOfSegments, hzero] at h
  obtain ⟨num, hnum, hlen⟩ := Client.length_eq_numOfSegments hne
  refine ⟨num, hnum, ?_, ?_⟩
  · unfold Client.lastLen at hlen
    split at hlen <;> omega
  · unfold carried Client.lastLen at *
    split at hlen
    next hrem => rw [if_pos hrem, hrem, show maxSegLen * num + 0 = data.length - maxSegLen by omega]
    next hrem => rw [if_neg hrem, ← hlen, List.take_length]

theorem carried_nil {data : List UInt8} (h : Client.Socket.numOfSegments data.length = 0) :
    carried data = [] := by
  have hdiv := Nat.div_add_mod data.length maxSegLen
  unfold Client.Socket.numOfSegments at h
  split at h
  next => exact absurd h (Nat.succ_ne_zero _)
  next hrem =>
    rw [Nat.add_zero] at h
    rw [h] at hdiv
    have hlen : data.length = 0 := by omega
    simp [List.eq_nil_of_length_eq_zero hlen, carried]

/-- Each turn of the loop queues the next piece. -/
theorem queue (h : Recorded c sent) {data : List UInt8} {num dataRemainder : ℕ}
    (hcall : c.call = .send data (num + 1) dataRemainder) (hrem : dataRemainder < maxSegLen) :
    Recorded (c.queue data num dataRemainder) sent := by
  have henough := h.enough _ _ _ hcall
  have hbytes := h.bytes
  rw [hcall, unqueued] at hbytes
  have hlen : (if 0 < num then maxSegLen else dataRemainder) ≤ maxSegLen := by split <;> omega
  cases num with
  | zero =>
    rw [Nat.mul_zero, Nat.zero_add] at henough hbytes
    refine ⟨?_, fun _ _ _ hcall' => by simp [Client.Socket.queue] at hcall'⟩
    rw [queuedBytes_queue, Client.dataSeg_payload c.tcb hlen henough]
    simpa [Client.Socket.queue, unqueued] using hbytes
  | succ num =>
    rw [Nat.mul_succ] at henough hbytes
    have hfull : maxSegLen ≤ data.length := by omega
    have hsplit : data.take (maxSegLen * num + maxSegLen + dataRemainder) =
        data.take maxSegLen ++ (data.drop maxSegLen).take (maxSegLen * num + dataRemainder) := by
      rw [← List.take_add, Nat.add_comm (maxSegLen * num), Nat.add_assoc]
    constructor
    · rw [queuedBytes_queue, Client.dataSeg_payload c.tcb hlen hfull, ← hbytes, hsplit]
      simp only [Client.Socket.queue, Nat.zero_lt_succ, if_true, unqueued, List.append_assoc]
    · intro data' num' rem' hcall'
      simp only [Client.Socket.queue, Nat.zero_lt_succ, if_true] at hcall'
      obtain ⟨rfl, hnum, rfl⟩ := Client.Call.send.inj hcall'
      obtain rfl := Nat.succ.inj hnum
      rw [List.length_drop]
      omega

theorem send (h : Recorded c sent) {data : List UInt8} {r : Client.Socket × List Seg}
    (hr : c.step (.send data) = some r) : Recorded r.1 (sent ++ [data]) := by
  have hsent : (sent ++ [data]).flatMap carried = sent.flatMap carried ++ carried data := by
    simp
  simp only [Client.Socket.step] at hr
  split at hr
  next hc =>
    have hnone : unqueued c.call = [] := by
      rw [hc.1]
      rfl
    have hbytes := h.bytes
    rw [hnone, List.append_nil] at hbytes
    split at hr
    next hzero =>
      obtain rfl := Option.some.inj hr
      refine ⟨?_, fun _ _ _ hcall => by simp [hc.1] at hcall⟩
      rw [hsent, carried_nil hzero, hnone, hbytes]
    next hne =>
      obtain ⟨num, hnum, hle, htake⟩ := carried_eq hne
      obtain rfl := Option.some.inj hr
      rw [hnum]
      refine ⟨?_, fun data' num' rem' hcall => ?_⟩
      · rw [hsent, ← hbytes, ← htake]
        rfl
      · obtain ⟨rfl, hnum', rfl⟩ := Client.Call.send.inj hcall
        obtain rfl := Nat.succ.inj hnum'
        exact hle
  next => contradiction

/-- A call is recorded, and its data queued piece by piece. -/
theorem step (h : Recorded c sent) (hcall : Client.CallOk c) {a : Client.Action}
    {r : Client.Socket × List Seg} (hr : c.step a = some r) :
    Recorded r.1 (Session.record sent (.client a)) := by
  cases a with
  | connect nodeID serverPort sendOk =>
    simp only [Client.Socket.step] at hr
    split at hr
    next hc =>
      obtain rfl := Option.some.inj hr
      exact h.idle (by rw [hc.1]; rfl) rfl (by cases sendOk <;> simp)
    next => contradiction
  | resendSyn sendOk =>
    simp only [Client.Socket.step] at hr
    split at hr
    next syn tries hc =>
      split at hr
      next =>
        obtain rfl := Option.some.inj hr
        exact h.idle (by rw [hc]; rfl) rfl (by cases sendOk <;> simp)
      next => contradiction
    next => contradiction
  | connectReturn =>
    simp only [Client.Socket.step] at hr
    split at hr
    next syn tries hc =>
      have hnone : unqueued c.call = [] := by
        rw [hc]
        rfl
      split at hr
      next => contradiction
      next =>
        split at hr <;> obtain rfl := Option.some.inj hr <;> exact h.idle hnone rfl (by simp)
    next => contradiction
  | send data => exact h.send hr
  | queueSegment =>
    cases Client.steps_of_step hr with
    | queueSegment data num dataRemainder hc _ =>
      exact h.queue hc (hcall.send _ _ _ hc).2
  | sendReturn env =>
    simp only [Client.Socket.step] at hr
    split at hr
    next data rem hc =>
      obtain ⟨p, hp, rfl⟩ := Option.map_eq_some_iff.mp hr
      exact h.idle (by rw [hc]; rfl) rfl (by simp [Client.Socket.sentNodes])
    next => contradiction
  | sendMaxSegments env =>
    obtain ⟨p, hp, rfl⟩ := Option.map_eq_some_iff.mp hr
    exact h.same rfl rfl
  | sendBufTimer env =>
    obtain ⟨p, hp, rfl⟩ := Option.map_eq_some_iff.mp hr
    exact h.same rfl rfl
  | disconnect sendOk =>
    simp only [Client.Socket.step] at hr
    split at hr
    next hc =>
      obtain rfl := Option.some.inj hr
      exact h.idle (by rw [hc.1]; rfl) rfl (by cases sendOk <;> simp)
    next => contradiction
  | resendFin sendOk =>
    simp only [Client.Socket.step] at hr
    split at hr
    next fin tries hc =>
      split at hr
      next =>
        obtain rfl := Option.some.inj hr
        exact h.idle (by rw [hc]; rfl) rfl (by cases sendOk <;> simp)
      next => contradiction
    next => contradiction
  | disconnectReturn =>
    simp only [Client.Socket.step] at hr
    split at hr
    next fin tries hc =>
      have hnone : unqueued c.call = [] := by
        rw [hc]
        rfl
      split at hr
      next => contradiction
      next =>
        split at hr <;> obtain rfl := Option.some.inj hr <;> exact h.idle hnone rfl (by simp)
    next => contradiction

end Recorded

section Runs
variable {clientNodeID clientPort svrNodeID svrPort : UInt32} {e : Session}

/-- Actions admitted by a rule on the session, among those that stay connected. -/
theorem session_invariant {ok : Session → Action → Prop}
    (hok : ∀ e a, ok e a → staysConnected e.sys a)
    (h : (sessionMachine clientNodeID clientPort svrNodeID svrPort).Reachable ok e) :
    (machine clientNodeID clientPort svrNodeID svrPort).Reachable staysConnected e.sys ∧
      Client.CallOk e.sys.client ∧ Recorded e.sys.client e.sent := by
  apply h.invariant
  · rintro _ rfl
    exact ⟨.init rfl, .fresh clientNodeID clientPort, .fresh clientNodeID clientPort⟩
  · rintro e a t ⟨hs, hcall, hrec⟩ ha hstep
    obtain ⟨u, hu, rfl⟩ := Option.map_eq_some_iff.mp hstep
    refine ⟨.step hs (hok e a ha) hu, ?_⟩
    cases steps_of_step hu with
    | client a r _ hr => exact ⟨hcall.step hr, hrec.step hcall hr⟩
    | toClient i dup m c _ hc =>
      obtain ⟨r, hr, rfl⟩ := Client.receive_handles hc
      exact ⟨hcall.receive hc, hrec.same rfl rfl⟩
    | server _ _ _ => exact ⟨hcall, hrec⟩
    | toServer _ _ _ _ _ _ => exact ⟨hcall, hrec⟩
    | loseToServer _ => exact ⟨hcall, hrec⟩
    | loseToClient _ => exact ⟨hcall, hrec⟩

theorem returned_of_session {s : Sys} {sent : List (List UInt8)}
    (h : (machine clientNodeID clientPort svrNodeID svrPort).Reachable staysConnected s)
    (hrec : Recorded s.client sent) (hlt : (queuedBytes s.client).length < 2 ^ 32) :
    s.server.returned.flatMap (·.bytes) <+: sent.flatMap carried := by
  have hpre : queuedBytes s.client <+: sent.flatMap carried := ⟨_, hrec.bytes⟩
  have hreturned : s.server.returned.flatMap (·.bytes) <+: receivedBytes s.server :=
    List.prefix_append _ _
  rw [(inStep_of_reachable h hlt).received] at hreturned
  exact (hreturned.trans (List.take_prefix _ _)).trans hpre

/-- What the calls of `srt_server_recv` return is, in order, what the calls of `srt_client_send`
were given, without the last segment of each message that is a whole number of segments. -/
theorem returned_of_sent
    (h : (sessionMachine clientNodeID clientPort svrNodeID svrPort).Reachable
      (fun e => staysConnected e.sys) e)
    (hlt : (e.sent.flatMap carried).length < 2 ^ 32) :
    e.sys.server.returned.flatMap (·.bytes) <+: e.sent.flatMap carried := by
  obtain ⟨hs, _, hrec⟩ := session_invariant (fun _ _ ha => ha) h
  have hpre : queuedBytes e.sys.client <+: e.sent.flatMap carried := ⟨_, hrec.bytes⟩
  exact returned_of_session hs hrec (hpre.length_le.trans_lt hlt)

/-- Two messages, of which the first is half read. -/
def halfRead : List Action :=
  establish ++ [.client (.send [7, 8]), .client .queueSegment,
    .client (.sendReturn ⟨fun _ => 0, []⟩), .client (.send [9]), .client .queueSegment,
    .client (.sendReturn ⟨fun _ => 0, []⟩), .deliverToServer 0 false, .server (.recv 1),
    .server .recvReturn]

theorem returned_of_sent_halfRead : ∃ e : Session,
    (sessionMachine 1 4000 2 80).run (fun e => staysConnected e.sys)
      ⟨⟨.fresh 1 4000, .fresh 2 80, [], []⟩, []⟩ halfRead = some e ∧ e.sent = [[7, 8], [9]] ∧
    e.sys.server.returned.flatMap (·.bytes) = [7] ∧
    e.sys.server.returned.flatMap (·.bytes) <+: e.sent.flatMap carried := by
  obtain ⟨e, hrun, he, hsent, hreturned⟩ := (sessionMachine 1 4000 2 80).exists_of_run
    (fun e => staysConnected e.sys) rfl halfRead
    (P := fun e => e.sent = [[7, 8], [9]] ∧ e.sys.server.returned.flatMap (·.bytes) = [7])
    (by decide +kernel)
  exact ⟨e, hrun, hsent, hreturned, returned_of_sent he (by rw [hsent]; decide)⟩

end Runs

/-! The client programs send what they have in turn, and the server programs ask for lengths that
depend on what they got before. -/
section Programs
variable {sends : List (List UInt8)} {asks : List Server.Returned → UInt32 → Prop}
  {P : List Server.Returned → Prop} {e t : Session}

/-- What the two programs call next, until the client disconnects. -/
def follows (sends : List (List UInt8)) (asks : List Server.Returned → UInt32 → Prop)
    (e : Session) : Action → Prop
  | .client (.send data) => sends[e.sent.length]? = some data
  | .client (.disconnect _) => False
  | .server (.recv length) => asks e.sys.server.returned length
  | _ => True

instance [∀ returned length, Decidable (asks returned length)] (e : Session) :
    ∀ a, Decidable (follows sends asks e a)
  | .client (.send _) => inferInstanceAs (Decidable (_ = _))
  | .client (.disconnect _) => inferInstanceAs (Decidable False)
  | .server (.recv length) => inferInstanceAs (Decidable (asks e.sys.server.returned length))
  | .client (.connect ..) | .client (.resendSyn _) | .client .connectReturn
  | .client .queueSegment | .client (.sendReturn _) | .client (.sendMaxSegments _)
  | .client (.sendBufTimer _) | .client (.resendFin _) | .client .disconnectReturn
  | .server .accept | .server .acceptReturn | .server .recvReturn | .server .closeWaitTimer
  | .deliverToServer .. | .deliverToClient .. | .loseToServer _ | .loseToClient _ =>
    inferInstanceAs (Decidable True)

theorem follows.staysConnected {a : Action} (h : follows sends asks e a) :
    staysConnected e.sys a := by
  unfold Srt.staysConnected
  split
  next => exact h
  next => trivial

structure InTurn (sends : List (List UInt8)) (asks : List Server.Returned → UInt32 → Prop)
    (P : List Server.Returned → Prop) (e : Session) : Prop where
  sent : e.sent <+: sends
  got : P e.sys.server.returned
  recv : ∀ length, e.sys.server.call = .recv length →
    asks e.sys.server.returned length ∧ length.toNat ≤ receiveBufSize

section Step
variable (hgot : ∀ returned length r, P returned → asks returned length →
  length.toNat ≤ receiveBufSize → r.bytes.length = length.toNat → P (returned ++ [r]))
include hgot

theorem InTurn.server (h : InTurn sends asks P e) {a : Server.Action}
    (hok : follows sends asks e (.server a)) {v : Server.Socket}
    (hv : e.sys.server.step a = some v) :
    InTurn sends asks P ⟨{ e.sys with server := v }, e.sent⟩ := by
  cases Server.steps_of_step hv with
  | accept _ _ => exact ⟨h.sent, h.got, by simp⟩
  | accepted _ => exact ⟨h.sent, h.got, by simp⟩
  | acceptFailed _ _ _ => exact ⟨h.sent, h.got, by simp⟩
  | recv length _ =>
    simp only [Server.Socket.step] at hv
    split at hv
    next hc =>
      refine ⟨h.sent, h.got, fun length' hcall => ?_⟩
      obtain rfl := Server.Call.recv.inj hcall
      exact ⟨hok, hc.2⟩
    next => contradiction
  | recvReturn length hcall _ =>
    obtain ⟨hasks, hle⟩ := h.recv length hcall
    exact ⟨h.sent, hgot _ length _ h.got hasks hle (Memory.length_read ..), by simp⟩
  | closeWaitTimer _ => exact ⟨h.sent, h.got, h.recv⟩

theorem InTurn.step (h : InTurn sends asks P e) {a : Action} (hok : follows sends asks e a)
    (hstep : e.step a = some t) : InTurn sends asks P t := by
  obtain ⟨u, hu, rfl⟩ := Option.map_eq_some_iff.mp hstep
  cases steps_of_step hu with
  | client a r _ _ =>
    refine ⟨?_, h.got, h.recv⟩
    cases a with
    | send data => exact Chunks.prefix_concat h.sent hok
    | _ => exact h.sent
  | server a v hv => exact h.server hgot hok hv
  | toServer i dup m r _ hr =>
    obtain ⟨v, out⟩ := r
    obtain ⟨r, _, rfl, _⟩ := Server.receive_handles hr
    exact ⟨h.sent, h.got, h.recv⟩
  | toClient _ _ _ _ _ _ => exact ⟨h.sent, h.got, h.recv⟩
  | loseToServer _ => exact ⟨h.sent, h.got, h.recv⟩
  | loseToClient _ => exact ⟨h.sent, h.got, h.recv⟩

theorem inTurn_of_reachable (hnil : P []) {clientNodeID clientPort svrNodeID svrPort : UInt32}
    (h : (sessionMachine clientNodeID clientPort svrNodeID svrPort).Reachable
      (follows sends asks) e) : InTurn sends asks P e := by
  apply h.invariant
  · rintro _ rfl
    exact ⟨List.nil_prefix, hnil, by simp [Server.Socket.fresh]⟩
  · exact fun _ _ _ hs hok hstep => hs.step hgot hok hstep

end Step
end Programs

section Messages
variable {msgs : List (List UInt8)} {e : Session}

/-- The length of the message whose turn it is. -/
def askLength (msgs : List (List UInt8)) (returned : List Server.Returned) (length : UInt32) :
    Prop :=
  (msgs.map List.length)[returned.length]? = some length.toNat

instance (returned : List Server.Returned) (length : UInt32) :
    Decidable (askLength msgs returned length) := inferInstanceAs (Decidable (_ = _))

/-- A client that sends some messages in turn, and a server that asks for the length of each, once
the call before has returned its data, as `app_simple_client` and `app_simple_server` do on each
connection, until the client disconnects. -/
def paired (msgs : List (List UInt8)) : Session → Action → Prop := follows msgs (askLength msgs)

instance (e : Session) (a : Action) : Decidable (paired msgs e a) :=
  inferInstanceAs (Decidable (follows msgs (askLength msgs) e a))

variable {clientNodeID clientPort svrNodeID svrPort : UInt32}

/-- Each call of `srt_server_recv` returns the message that it was meant for, if none is a whole
number of segments. -/
theorem messages_received (hmsgs : ∀ m ∈ msgs, m.length % maxSegLen ≠ 0)
    (hsize : msgs.flatten.length < 2 ^ 32)
    (h : (sessionMachine clientNodeID clientPort svrNodeID svrPort).Reachable (paired msgs) e) :
    e.sys.server.returned.map (·.bytes) <+: msgs := by
  have hturn := inTurn_of_reachable
    (P := fun returned => returned.map (·.bytes.length) <+: msgs.map List.length) (by
      intro returned length r hgot hasks _ hr
      rw [List.map_append]
      apply Chunks.prefix_concat hgot
      rw [List.length_map]
      dsimp only
      rw [hr]
      exact hasks) List.nil_prefix h
  obtain ⟨hs, _, hrec⟩ := session_invariant (fun _ _ => follows.staysConnected) h
  have hcarried : e.sent.flatMap carried <+: msgs.flatten := by
    have hsame : e.sent.flatMap carried = e.sent.flatten := by
      rw [← List.flatMap_id]
      apply List.flatMap_congr
      exact fun m hm => if_neg (hmsgs m (hturn.sent.subset hm))
    rw [hsame]
    exact hturn.sent.flatten
  have hqueued : queuedBytes e.sys.client <+: e.sent.flatMap carried := ⟨_, hrec.bytes⟩
  have hlt := ((hqueued.trans hcarried).length_le).trans_lt hsize
  apply Chunks.prefix_of_flatten
  · rw [List.map_map]
    exact hturn.got
  · rw [← List.flatMap_def]
    exact (returned_of_session hs hrec hlt).trans hcarried

/-- Two messages of `app_simple_client`, the second of which is still on its way. -/
def hello : List Action :=
  establish ++ [.server (.recv 6), .client (.send [104, 101, 108, 108, 111, 0]),
    .client .queueSegment, .client (.sendReturn ⟨fun _ => 0, []⟩), .deliverToServer 0 false,
    .server .recvReturn, .client (.send [104, 101, 108, 108, 111, 0]), .client .queueSegment,
    .client (.sendReturn ⟨fun _ => 0, []⟩), .server (.recv 6)]

theorem messages_received_hello : ∃ e : Session,
    (sessionMachine 1 4000 2 80).run (paired (List.replicate 5 [104, 101, 108, 108, 111, 0]))
      ⟨⟨.fresh 1 4000, .fresh 2 80, [], []⟩, []⟩ hello = some e ∧
    e.sys.server.returned.length = 1 ∧
    e.sys.server.returned.map (·.bytes) <+: List.replicate 5 [104, 101, 108, 108, 111, 0] := by
  obtain ⟨e, hrun, he, hlen⟩ := (sessionMachine 1 4000 2 80).exists_of_run
    (paired (List.replicate 5 [104, 101, 108, 108, 111, 0])) rfl hello
    (P := fun e => e.sys.server.returned.length = 1) (by decide +kernel)
  exact ⟨e, hrun, hlen, messages_received (by decide) (by decide) he⟩

end Messages

section Stress
variable {file : List UInt8} {e : Session}

/-- What `app_stress_client` sends: the length of the file, then the file. -/
def stressSends (file : List UInt8) : List (List UInt8) :=
  [Layout.u32.encode (UInt32.ofNat file.length), file]

/-- The length `app_stress_server` asks for: of an `int`, then what that says. -/
def stressRecv : List Server.Returned → Option UInt32
  | [] => some 4
  | [fileLen] => some (Layout.u32.decode fileLen.bytes)
  | _ => none

def askStress (returned : List Server.Returned) (length : UInt32) : Prop :=
  stressRecv returned = some length

instance (returned : List Server.Returned) (length : UInt32) :
    Decidable (askStress returned length) := inferInstanceAs (Decidable (_ = _))

/-- The two programs until the client disconnects. -/
def stress (file : List UInt8) : Session → Action → Prop := follows (stressSends file) askStress

instance (e : Session) (a : Action) : Decidable (stress file e a) :=
  inferInstanceAs (Decidable (follows (stressSends file) askStress e a))

/-- The calls that returned had the lengths asked for, which a call does not fail for. -/
def Asked : List Server.Returned → Prop
  | [] => True
  | [fileLen] => fileLen.bytes.length = 4
  | [fileLen, buf] => fileLen.bytes.length = 4 ∧
      buf.bytes.length = (Layout.u32.decode fileLen.bytes).toNat ∧
      buf.bytes.length ≤ receiveBufSize
  | _ => False

theorem Asked.append {returned : List Server.Returned} (h : Asked returned) {length : UInt32}
    (hlength : askStress returned length) (hle : length.toNat ≤ receiveBufSize)
    {r : Server.Returned} (hr : r.bytes.length = length.toNat) : Asked (returned ++ [r]) := by
  match returned, h, hlength with
  | [], _, hlength =>
    obtain rfl := Option.some.inj hlength
    exact hr
  | [fileLen], h, hlength =>
    obtain rfl := Option.some.inj hlength
    exact ⟨h, hr, hr.trans_le hle⟩

theorem length_carried_le (data : List UInt8) : (carried data).length ≤ data.length := by
  unfold carried
  split
  · rw [List.length_take]
    exact Nat.min_le_right ..
  · exact le_rfl

theorem carried_stressSends {sent : List (List UInt8)} (h : sent <+: stressSends file) :
    sent.flatMap carried <+: Layout.u32.encode (UInt32.ofNat file.length) ++ carried file := by
  have hpre := h.flatMap carried
  simpa [stressSends, carried, Layout.length_encode, Layout.u32, maxSegLen] using hpre

/-- The second call returned the file, so nothing of the file was left out. -/
theorem second_of_asked (hfile : file.length < 2 ^ 31) {fileLen buf : Server.Returned}
    (hasked : Asked [fileLen, buf]) {sent : List (List UInt8)} (hsent : sent <+: stressSends file)
    (hreturned : [fileLen, buf].flatMap (·.bytes) <+: sent.flatMap carried) :
    buf.bytes = file ∧ carried file = file := by
  obtain ⟨hlen, hbuflen, _⟩ := hasked
  obtain ⟨rest, hrest⟩ := hreturned.trans (carried_stressSends hsent)
  simp only [List.flatMap_cons, List.flatMap_nil, List.append_nil, List.append_assoc] at hrest
  obtain ⟨hfirst, hsecond⟩ := List.append_inj hrest
    (hlen.trans (Layout.u32.length_encode _).symm)
  have hsize : (UInt32.ofNat file.length).toNat = file.length :=
    UInt32.toNat_ofNat_of_lt' (show file.length < 2 ^ 32 by omega)
  rw [hfirst, Layout.decode_encode, hsize] at hbuflen
  have hcount := congrArg List.length hsecond
  have hle := length_carried_le file
  rw [List.length_append] at hcount
  have hnil : rest = [] := List.eq_nil_of_length_eq_zero (by omega)
  rw [hnil, List.append_nil] at hsecond
  have hcarried : carried file = file := by
    unfold carried at *
    split
    next hrem =>
      rw [if_pos hrem, List.length_take] at hcount
      exact List.take_of_length_le (by omega)
    next => rfl
  exact ⟨hsecond.trans hcarried, hcarried⟩

variable {clientNodeID clientPort svrNodeID svrPort : UInt32}

/-- If the second `srt_server_recv` of `app_stress_server` returns data, that is the file. It never
does for a file that is a whole number of segments or larger than the receive buffer. -/
theorem file_received (hfile : file.length < 2 ^ 31)
    (h : (sessionMachine clientNodeID clientPort svrNodeID svrPort).Reachable (stress file) e) :
    (∀ buf, e.sys.server.returned[1]? = some buf → buf.bytes = file) ∧
      (file ≠ [] → file.length % maxSegLen = 0 ∨ receiveBufSize < file.length →
        e.sys.server.returned.length ≤ 1) := by
  have hscript := inTurn_of_reachable (P := Asked)
    (fun _ _ _ hgot hasks hle hr => hgot.append hasks hle hr) trivial h
  obtain ⟨hs, _, hrec⟩ := session_invariant (fun _ _ => follows.staysConnected) h
  have hlt : (queuedBytes e.sys.client).length < 2 ^ 32 := by
    have hqueued := congrArg List.length hrec.bytes
    have hsent := (carried_stressSends hscript.sent).length_le
    have hle := length_carried_le file
    rw [List.length_append, Layout.length_encode] at hsent
    rw [List.length_append] at hqueued
    simp only [Layout.u32] at hsent
    omega
  have hreturned := returned_of_session hs hrec hlt
  have hasked := hscript.got
  match hcalls : e.sys.server.returned, hasked with
  | [], _ => simp
  | [fileLen], _ => simp
  | [fileLen, buf], hasked =>
    obtain ⟨hbuf, hcarried⟩ := second_of_asked hfile hasked hscript.sent (hcalls ▸ hreturned)
    refine ⟨by simp [hbuf], fun hne hlost => ?_⟩
    rcases hlost with hrem | hlarge
    · have hlen := congrArg List.length hcarried
      rw [carried, if_pos hrem, List.length_take] at hlen
      have hpos := List.length_pos_iff.mpr hne
      simp only [maxSegLen] at hlen
      omega
    · have hle := hasked.2.2
      rw [hbuf] at hle
      omega

/-- A file of three bytes. -/
def transfer : List Action :=
  establish ++ [.client (.send [3, 0, 0, 0]), .client .queueSegment,
    .client (.sendReturn ⟨fun _ => 0, []⟩), .server (.recv 4), .deliverToServer 0 false,
    .deliverToClient 0 false, .client (.send [7, 8, 9]), .client .queueSegment,
    .client (.sendReturn ⟨fun _ => 0, []⟩), .server .recvReturn, .server (.recv 3),
    .deliverToServer 0 false, .server .recvReturn]

theorem file_received_transfer : ∃ e : Session,
    (sessionMachine 1 4000 2 80).run (stress [7, 8, 9])
      ⟨⟨.fresh 1 4000, .fresh 2 80, [], []⟩, []⟩ transfer = some e ∧
    e.sys.server.returned.length = 2 ∧
    ∀ buf, e.sys.server.returned[1]? = some buf → buf.bytes = [7, 8, 9] := by
  obtain ⟨e, hrun, he, hlen⟩ := (sessionMachine 1 4000 2 80).exists_of_run (stress [7, 8, 9]) rfl
    transfer (P := fun e => e.sys.server.returned.length = 2) (by decide +kernel)
  exact ⟨e, hrun, hlen, (file_received (by decide) he).1⟩

end Stress
end DartNet.Srt
