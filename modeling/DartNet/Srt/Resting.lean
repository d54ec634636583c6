import DartNet.Srt.Calls
import DartNet.Srt.Window

/-! The states a client socket rests in between calls. `srt_client_connect` and
`srt_client_disconnect` put it back into `CLOSED` when their retries are used up, but not when
a `snp_sendseg` of theirs fails. -/
namespace DartNet.Client
open Transition

/-- `srt_client_connect` or `srt_client_disconnect` -/
def Call.ofConnection : Call → Bool
  | .connect _ _ => true
  | .disconnect _ _ => true
  | _ => false

/-- What `srt_client_connect` or `srt_client_disconnect` returns in this step, if it does. -/
def Socket.returns (s : Socket) : Action → Option ℤ
  | .connect _ _ sendOk => if sendOk then none else some (-1)
  | .resendSyn sendOk => if sendOk then none else some (-1)
  | .connectReturn => some (if s.tcb.state = .connected then 1 else -1)
  | .disconnect sendOk => if sendOk then none else some (-1)
  | .resendFin sendOk => if sendOk then none else some (-1)
  | .disconnectReturn => some (if s.tcb.state = .closed then 1 else -1)
  | _ => none

/-- With neither call in progress the socket can be closed or used. -/
def Resting (s : Socket) : Prop :=
  s.call.ofConnection = false → s.tcb.state = .closed ∨ s.tcb.state = .connected

instance (s : Socket) : Decidable (Resting s) := by unfold Resting; infer_instance

/-- No `snp_sendseg` of a `SYN` or a `FIN` fails. -/
def ControlSent (_ : Socket) : Event → Prop
  | .api (.connect _ _ sendOk) => sendOk = true
  | .api (.resendSyn sendOk) => sendOk = true
  | .api (.disconnect sendOk) => sendOk = true
  | .api (.resendFin sendOk) => sendOk = true
  | _ => True

instance (s : Socket) (e : Event) : Decidable (ControlSent s e) := by
  rcases e with (_ | _) | _ <;> dsimp only [ControlSent] <;> infer_instance

theorem call_of_sendReturn {s : Socket} {env : Env} {r : Socket × List Seg}
    (h : s.step (.sendReturn env) = some r) :
    ∃ data dataRemainder, s.call = .send data 0 dataRemainder := by
  simp only [Socket.step] at h
  split at h
  next data dataRemainder hcall => exact ⟨data, dataRemainder, hcall⟩
  next => contradiction

theorem Resting.sentNodes {s : Socket} (hs : Resting s) {r : ClientTcb × List SegBuf}
    (hr : SendsFrom s.tcb r.1 r.2) : Resting (s.sentNodes r).1 := by
  obtain ⟨mutex, buf, ptr, unAck, heq⟩ := hr.same
  unfold Resting Socket.sentNodes
  rw [heq]
  exact hs

theorem Resting.step {s : Socket} (hs : Resting s) {a : Action} {r : Socket × List Seg}
    (hok : ControlSent s (.api a)) (h : s.step a = some r) : Resting r.1 := by
  cases steps_of_step h with
  | connect nodeID serverPort sendOk _ _ =>
    obtain rfl : sendOk = true := hok
    exact fun hcall => by simp [Call.ofConnection] at hcall
  | resendSyn sendOk _ _ _ _ =>
    obtain rfl : sendOk = true := hok
    exact fun hcall => by simp [Call.ofConnection] at hcall
  | connected hst => exact fun _ => .inr hst
  | connectGaveUp _ _ _ _ => exact fun _ => .inl rfl
  | sendNothing _ => exact hs
  | send _ _ hst => exact fun _ => .inr hst
  | queueSegment data num dataRemainder hcall _ =>
    have hst := hs (by rw [hcall]; rfl)
    exact fun _ => hst
  | sendReturn env r hr =>
    obtain ⟨data, dataRemainder, hcall⟩ := call_of_sendReturn h
    have hs' : Resting { s with call := .idle } := fun _ => hs (by rw [hcall]; rfl)
    exact hs'.sentNodes (sendMaxSegments_sendsFrom hr)
  | sendMaxSegments env r hr => exact hs.sentNodes (sendMaxSegments_sendsFrom hr)
  | sendBufTimer env r hr => exact hs.sentNodes (sendBufTimer_sendsFrom hr)
  | disconnect sendOk _ _ _ =>
    obtain rfl : sendOk = true := hok
    exact fun hcall => by simp [Call.ofConnection] at hcall
  | resendFin sendOk _ _ _ _ =>
    obtain rfl : sendOk = true := hok
    exact fun hcall => by simp [Call.ofConnection] at hcall
  | disconnected hst => exact fun _ => .inl hst
  | disconnectGaveUp _ _ _ _ => exact fun _ => .inl rfl

theorem Resting.receive {s t : Socket} (hs : Resting s) {srcNodeID : UInt32} {seg : Seg}
    (h : s.receive srcNodeID seg = some t) : Resting t := by
  obtain ⟨r, hr, rfl⟩ := receive_handles h
  cases hr with
  | ignored => exact hs
  | synack _ _ _ => exact fun _ => .inr rfl
  | dataack _ _ _ => exact hs
  | finack _ _ => exact fun _ => .inl rfl

/-- A call whose segments are all sent and that still returns -1 ends in `CLOSED`. -/
theorem closed_of_returns {s : Socket} {a : Action} {r : Socket × List Seg}
    (hok : ControlSent s (.api a)) (h : s.step a = some r) (hret : s.returns a = some (-1)) :
    r.1.tcb.state = .closed := by
  cases steps_of_step h with
  | connectGaveUp _ _ _ _ => rfl
  | disconnectGaveUp _ _ _ _ => rfl
  | connected hst => simp [Socket.returns, hst] at hret
  | disconnected hst => exact hst
  | connect _ _ sendOk _ _ =>
    obtain rfl : sendOk = true := hok
    simp [Socket.returns] at hret
  | resendSyn sendOk _ _ _ _ =>
    obtain rfl : sendOk = true := hok
    simp [Socket.returns] at hret
  | disconnect sendOk _ _ _ =>
    obtain rfl : sendOk = true := hok
    simp [Socket.returns] at hret
  | resendFin sendOk _ _ _ _ =>
    obtain rfl : sendOk = true := hok
    simp [Socket.returns] at hret
  | _ => simp [Socket.returns] at hret

/-- A `SYN` or `FIN` that is not sent leaves `SYNSENT` or `FINWAIT` with no call in progress. -/
theorem not_resting_of_failed {s : Socket} {a : Action} {r : Socket × List Seg}
    (hfailed : ¬ ControlSent s (.api a)) (h : s.step a = some r) : ¬ Resting r.1 := by
  cases steps_of_step h with
  | connect nodeID serverPort sendOk _ _ =>
    obtain rfl : sendOk = false := by simpa [ControlSent] using hfailed
    simp [Resting, Call.ofConnection]
  | resendSyn sendOk _ _ _ hst =>
    obtain rfl : sendOk = false := by simpa [ControlSent] using hfailed
    simp [Resting, Call.ofConnection, hst]
  | disconnect sendOk _ _ _ =>
    obtain rfl : sendOk = false := by simpa [ControlSent] using hfailed
    simp [Resting, Call.ofConnection]
  | resendFin sendOk _ _ _ hst =>
    obtain rfl : sendOk = false := by simpa [ControlSent] using hfailed
    simp [Resting, Call.ofConnection, hst]
  | _ => exact absurd trivial hfailed

theorem reachable_resting {nodeID clientPort : UInt32} {s : Socket}
    (h : (socketMachine nodeID clientPort).Reachable ControlSent s) : Resting s := by
  apply h.invariant
  · rintro _ rfl
    exact fun _ => .inl rfl
  · rintro s (a | ⟨srcNodeID, seg⟩) t hs hok hstep
    · obtain ⟨r, hr, rfl⟩ := Option.map_eq_some_iff.mp hstep
      exact hs.step hok hr
    · exact hs.receive hstep

/-- In every run in which each `SYN` and `FIN` is sent, the socket rests in `CLOSED` or
`CONNECTED`, and a call that returns -1 leaves it in `CLOSED`. -/
theorem never_stuck (nodeID clientPort : UInt32) (s : Socket)
    (h : (socketMachine nodeID clientPort).Reachable ControlSent s) :
    Resting s ∧ ∀ a r, ControlSent s (.api a) → s.step a = some r →
      s.returns a = some (-1) → r.1.tcb.state = .closed := by
  constructor
  · exact reachable_resting h
  · exact fun a r hok hr hret => closed_of_returns hok hr hret

/-- Connect to port 80 of node 2, which never answers. -/
def connectUnanswered : List Event :=
  .api (.connect 2 80 true) :: List.replicate synMaxRetry (.api (.resendSyn true))

theorem never_stuck_run : ∃ s r,
    (socketMachine 1 4000).run ControlSent (.fresh 1 4000) connectUnanswered = some s ∧
      s.step .connectReturn = some r ∧ s.returns .connectReturn = some (-1) ∧
      r.1.call = .idle ∧ Resting r.1 ∧ r.1.tcb.state = .closed := by
  obtain ⟨s, hrun, hs, hret, hidle⟩ := (socketMachine 1 4000).exists_of_run ControlSent rfl
    connectUnanswered (P := fun s => s.returns .connectReturn = some (-1) ∧
      (s.step .connectReturn).any fun r => r.1.call = .idle) (by decide +kernel)
  obtain ⟨r, hr, hcall⟩ := (Option.any_eq_true ..).mp hidle
  have hreturned : (socketMachine 1 4000).step s (.api .connectReturn) = some r.1 :=
    Option.map_eq_some_iff.mpr ⟨r, hr, rfl⟩
  have hsent : ControlSent s (.api .connectReturn) := trivial
  have hclosed := (never_stuck 1 4000 s hs).2 .connectReturn r hsent hr hret
  have hrest := (never_stuck 1 4000 r.1 (hs.step hsent hreturned)).1
  exact ⟨s, r, hrun, hr, hret, of_decide_eq_true hcall, hrest, hclosed⟩

/-- The first `SYN` is not sent: `srt_client_connect` returns -1 in `SYNSENT`. -/
theorem unsent_syn_stuck : ∃ s : Socket,
    (socketMachine 1 4000).run (fun _ _ => True) (.fresh 1 4000)
      [.api (.connect 2 80 false)] = some s ∧
    (socketMachine 1 4000).Reachable (fun _ _ => True) s ∧ ¬ Resting s :=
  (socketMachine 1 4000).exists_of_run _ rfl _ (by decide +kernel)

end DartNet.Client
