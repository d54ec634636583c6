import DartNet.Srt.Calls
import DartNet.Srt.Clocked

/-! How long `srt_client_connect` and `srt_client_disconnect` wait before they give up. Their
loops end with the last retransmission: nothing waits for an answer to it. -/
namespace DartNet.Client
open Transition Clock

/-- The number of retransmissions stays within its bound. -/
def Call.TriesOk : Call → Prop
  | .connect _ tries => tries ≤ synMaxRetry
  | .disconnect _ tries => tries ≤ finMaxRetry
  | _ => True

/-- All retransmissions are made, and no answer was accepted. -/
def Exhausted (s : Socket) : Prop :=
  match s.call with
  | .connect _ tries => tries = synMaxRetry ∧ s.tcb.state = .synsent
  | .disconnect _ tries => tries = finMaxRetry ∧ s.tcb.state = .finwait
  | _ => False

instance (s : Socket) : Decidable (Exhausted s) := by
  unfold Exhausted
  rcases s.call with _ | _ | _ | _ <;> dsimp only <;> infer_instance

theorem lt_of_resendSyn {s : Socket} {sendOk : Bool} {syn : Seg} {tries : ℕ}
    (hcall : s.call = .connect syn tries) {r : Socket × List Seg}
    (h : s.step (.resendSyn sendOk) = some r) : tries < synMaxRetry := by
  simp only [Socket.step, hcall] at h
  split at h
  next hc => exact hc.1
  next => contradiction

theorem lt_of_resendFin {s : Socket} {sendOk : Bool} {fin : Seg} {tries : ℕ}
    (hcall : s.call = .disconnect fin tries) {r : Socket × List Seg}
    (h : s.step (.resendFin sendOk) = some r) : tries < finMaxRetry := by
  simp only [Socket.step, hcall] at h
  split at h
  next hc => exact hc.1
  next => contradiction

theorem Call.TriesOk.step {s : Socket} (hs : s.call.TriesOk) {a : Action}
    {r : Socket × List Seg} (h : s.step a = some r) : r.1.call.TriesOk := by
  cases steps_of_step h with
  | connect nodeID serverPort sendOk _ _ => cases sendOk <;> simp [TriesOk]
  | resendSyn sendOk syn tries hcall _ =>
    have hlt := lt_of_resendSyn hcall h
    cases sendOk with
    | false => trivial
    | true => exact hlt
  | disconnect sendOk _ _ _ => cases sendOk <;> simp [TriesOk]
  | resendFin sendOk fin tries hcall _ =>
    have hlt := lt_of_resendFin hcall h
    cases sendOk with
    | false => trivial
    | true => exact hlt
  | sendNothing _ => exact hs
  | sendMaxSegments _ _ _ => exact hs
  | sendBufTimer _ _ _ => exact hs
  | _ => trivial

theorem reachable_call {nodeID clientPort : UInt32} {s : Socket}
    (h : (socketMachine nodeID clientPort).Reachable (fun _ _ => True) s) :
    CallOk s ∧ s.call.TriesOk := by
  apply h.invariant (I := fun s => CallOk s ∧ s.call.TriesOk)
  · rintro _ rfl
    exact ⟨.fresh nodeID clientPort, trivial⟩
  · rintro s (a | ⟨srcNodeID, seg⟩) t ⟨hcall, htries⟩ _ hstep
    · obtain ⟨r, hr, rfl⟩ := Option.map_eq_some_iff.mp hstep
      exact ⟨hcall.step hr, htries.step hr⟩
    · obtain ⟨r, _, heq⟩ := receive_handles hstep
      refine ⟨hcall.receive hstep, ?_⟩
      rw [heq]
      exact htries

/-- `srt_client_connect` gives up only when all retransmissions are made. -/
theorem connect_exhausted {s : Socket} (hcall : CallOk s) (htries : s.call.TriesOk)
    {r : Socket × List Seg} (h : s.step .connectReturn = some r) :
    s.tcb.state ≠ .connected ↔ Exhausted s := by
  simp only [Socket.step] at h
  split at h
  next syn tries heq =>
    simp only [Exhausted, heq, Call.TriesOk] at htries ⊢
    split at h
    next => contradiction
    next hleft =>
      rcases (hcall.connect syn tries heq).2.2.2 with hst | hst
      · simp only [hst, and_true, Nat.not_lt] at hleft
        simp [hst, Nat.le_antisymm htries hleft]
      · simp [hst]
  next => contradiction

/-- `srt_client_disconnect` gives up only when all retransmissions are made. -/
theorem disconnect_exhausted {s : Socket} (hcall : CallOk s) (htries : s.call.TriesOk)
    {r : Socket × List Seg} (h : s.step .disconnectReturn = some r) :
    s.tcb.state ≠ .closed ↔ Exhausted s := by
  simp only [Socket.step] at h
  split at h
  next fin tries heq =>
    simp only [Exhausted, heq, Call.TriesOk] at htries ⊢
    split at h
    next => contradiction
    next hleft =>
      rcases (hcall.disconnect fin tries heq).2 with hst | hst
      · simp only [hst, and_true, Nat.not_lt] at hleft
        simp [hst, Nat.le_antisymm htries hleft]
      · simp [hst]
  next => contradiction

namespace Clocked

/-- If all retransmissions are made without an answer, the loop test behind the last one comes
only after another timeout. -/
def TestsLate (s : Clocked) : Event → Prop
  | .connectReturn => Exhausted s.timed.socket → s.sentAt + synTimeout < s.now
  | .disconnectReturn => Exhausted s.timed.socket → s.sentAt + finTimeout < s.now
  | _ => True

instance (s : Clocked) (e : Event) : Decidable (TestsLate s e) := by
  rcases e with _ | _ | _ | _ | _ | _ | _ | _ | _ | _ | _ | _ <;> dsimp only [TestsLate] <;>
    infer_instance

/-- A step keeps the waits before giving up full exactly if it tests late. -/
theorem step_testsLate {s t : Clocked} (hcall : CallOk s.timed.socket)
    (htries : s.timed.socket.call.TriesOk) (hfull : AllFull s.gaveUp) {e : Event}
    (h : s.step e = some t) : AllFull t.gaveUp ↔ TestsLate s e := by
  cases e with
  | connectReturn =>
    obtain ⟨u, hu, rfl⟩ := of_quiet h
    cases (Timed.steps_of_step hu).2 with
    | api _ r hr =>
      simp only [TestsLate, ← connect_exhausted hcall htries hr, allFull_append, hfull, true_and]
      split
      next hst => simp [hst]
      next hst => simp [hst]
  | disconnectReturn =>
    obtain ⟨u, hu, rfl⟩ := of_quiet h
    cases (Timed.steps_of_step hu).2 with
    | api _ r hr =>
      simp only [TestsLate, ← disconnect_exhausted hcall htries hr, allFull_append, hfull,
        true_and]
      split
      next hst => simp [hst]
      next hst => simp [hst]
  | _ =>
    have hgaveUp : t.gaveUp = s.gaveUp := by simpa using (effects_of_step h).gaveUp
    rw [hgaveUp]
    exact iff_of_true hfull trivial

theorem reachable_call {nodeID clientPort : UInt32} {ok : Clocked → Event → Prop} {s : Clocked}
    (h : (clockedMachine nodeID clientPort).Reachable ok s) :
    CallOk s.timed.socket ∧ s.timed.socket.call.TriesOk :=
  Client.reachable_call (Timed.reachable_socket (reachable_timed h))

/-- In every run in which the loop tests behind a last retransmission come late enough, each call
that gives up has waited for an answer to it, and another loop test is one that has not. -/
theorem retries_wait (nodeID clientPort : UInt32) :
    (∀ s, (clockedMachine nodeID clientPort).Reachable TestsLate s → AllFull s.gaveUp) ∧
    ∀ s e t, (clockedMachine nodeID clientPort).Reachable (fun _ _ => True) s →
      AllFull s.gaveUp → s.step e = some t → (AllFull t.gaveUp ↔ TestsLate s e) := by
  constructor
  · intro s h
    apply h.invariant_of (J := fun s => CallOk s.timed.socket ∧ s.timed.socket.call.TriesOk)
      (I := fun s => AllFull s.gaveUp)
    · exact fun s hs => reachable_call hs
    · rintro _ ⟨now, rfl⟩
      exact allFull_nil
    · exact fun s e t hcall hfull hok hstep =>
        (step_testsLate hcall.1 hcall.2 hfull hstep).mpr hok
  · intro s e t h hfull hstep
    obtain ⟨hcall, htries⟩ := reachable_call h
    exact step_testsLate hcall htries hfull hstep

/-- A call that is never answered: the timeout passes before each of the five retransmissions. -/
def unanswered (poll : Event) : List Event :=
  (List.replicate synMaxRetry [.wait 500000001, poll]).flatten

theorem retries_wait_run : ∃ s, (clockedMachine 1 4000).run TestsLate
      ⟨⟨.fresh 1 4000, [], false⟩, 0, 0, 0, [], fun _ => none, [], []⟩
      (.connect 2 80 true 0 :: unanswered (.pollSyn true 0 0) ++
        [.wait 500000001, .connectReturn]) = some s ∧ s.gaveUp ≠ [] ∧ AllFull s.gaveUp := by
  obtain ⟨s, hrun, hs, hgaveUp⟩ := (clockedMachine 1 4000).exists_of_run TestsLate ⟨0, rfl⟩
    (.connect 2 80 true 0 :: unanswered (.pollSyn true 0 0) ++ [.wait 500000001, .connectReturn])
    (P := fun s => s.gaveUp ≠ []) (by decide +kernel)
  exact ⟨s, hrun, hgaveUp, (retries_wait 1 4000).1 s hs⟩

/-- Both calls give up a microsecond after their last retransmission. -/
theorem gives_up_at_once :
    (∃ s, (clockedMachine 1 4000).run (fun _ _ => True)
        ⟨⟨.fresh 1 4000, [], false⟩, 0, 0, 0, [], fun _ => none, [], []⟩
        (.connect 2 80 true 0 :: unanswered (.pollSyn true 0 0) ++ [.wait 1000, .connectReturn]) =
          some s ∧
      (clockedMachine 1 4000).Reachable (fun _ _ => True) s ∧ ¬ AllFull s.gaveUp) ∧
    ∃ s, (clockedMachine 1 4000).run (fun _ _ => True)
        ⟨⟨.fresh 1 4000, [], false⟩, 0, 0, 0, [], fun _ => none, [], []⟩
        ([.connect 2 80 true 0,
          .silent (.socket (.segment 2
            ⟨⟨80, 4000, 0, 0, 0, SegType.synack, 0, 0⟩, .replicate _ 0⟩)),
          .connectReturn, .disconnect true 0] ++ unanswered (.pollFin true 0 0) ++
            [.wait 1000, .disconnectReturn]) = some s ∧
      (clockedMachine 1 4000).Reachable (fun _ _ => True) s ∧ ¬ AllFull s.gaveUp :=
  ⟨(clockedMachine 1 4000).exists_of_run _ ⟨_, rfl⟩ _ (by decide +kernel),
    (clockedMachine 1 4000).exists_of_run _ ⟨_, rfl⟩ _ (by decide +kernel)⟩

end Clocked
end DartNet.Client
