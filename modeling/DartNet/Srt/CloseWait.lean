import DartNet.Common.Time
import DartNet.Foundation.Transition
import DartNet.Srt.Server

/-! A server socket and its `closeWaitTimer` threads on a clock. A thread is started by the `FIN`
that ends a connection. It polls the clock and may still be running in the next connection. -/
namespace DartNet.Server
open Transition Clock

/-- A `closeWaitTimer` thread: created, polling since the instant it took `tstart` at, or at its
end. -/
inductive CloseWaitTimer where
  | created
  | polling (tstart : ℕ)
  | exited
  deriving DecidableEq, Repr

/-- The comparison of `closeWaitTimer`. -/
def closeWaitTimedOut (tend tstart : UInt64) : Bool :=
  nanosecondsPerSecond < (tend - tstart).toNat

/-- The threads of a socket at an instant, with the waits that a timeout ended. -/
structure Clocked where
  socket : Socket
  now : ℕ
  timers : List CloseWaitTimer
  fired : List Wait

namespace Clocked

inductive Event where
  | wait (gap : ℕ)
  | api (a : Action)
  | segment (srcNodeID : UInt32) (seg : Seg)
  | start (i : ℕ)
  | poll (i : ℕ)

/-- The thread that the `FIN` of a connection starts. -/
def started (s : Clocked) (t : Socket) : List CloseWaitTimer :=
  if s.socket.tcb.state = .connected ∧ t.tcb.state = .closewait then [.created] else []

def step (s : Clocked) : Event → Option Clocked
  | .wait gap => some { s with now := s.now + gap }
  | .api a =>
    if a = .closeWaitTimer then none
    else (s.socket.step a).map fun t => { s with socket := t }
  | .segment srcNodeID seg =>
    (s.socket.receive srcNodeID seg).map fun r =>
      { s with socket := r.1, timers := s.timers ++ s.started r.1 }
  | .start i =>
    if s.timers[i]? = some .created then
      some { s with timers := s.timers.set i (.polling s.now) }
    else none
  | .poll i =>
    match s.timers[i]? with
    | some (.polling tstart) =>
      if s.socket.tcb.state = .closewait then
        if closeWaitTimedOut (currentUtcTimeNs s.now) (currentUtcTimeNs tstart) then
          (s.socket.step .closeWaitTimer).map fun t =>
            { s with
              socket := t
              timers := s.timers.set i .exited
              fired := s.fired ++ [⟨some tstart, s.now, nanosecondsPerSecond⟩] }
        else some s
      else some { s with timers := s.timers.set i .exited }
    | _ => none

/-- A thread is shown no less than when it started, until its wait is over. -/
def PollInTime (now : ℕ) : CloseWaitTimer → Prop
  | .polling tstart => now ≤ tstart + nanosecondsPerSecond →
    currentUtcTimeNs tstart ≤ currentUtcTimeNs now
  | _ => True

/-- Every poll in `CLOSEWAIT` is in time. -/
def InTime (s : Clocked) : Event → Prop
  | .poll i => s.socket.tcb.state = .closewait → ∀ timer ∈ s.timers[i]?, PollInTime s.now timer
  | _ => True

instance (now : ℕ) (timer : CloseWaitTimer) : Decidable (PollInTime now timer) := by
  rcases timer with _ | _ | _ <;> dsimp only [PollInTime] <;> infer_instance

instance (s : Clocked) (e : Event) : Decidable (InTime s e) := by
  rcases e with _ | _ | _ | _ | _ <;> dsimp only [InTime] <;> infer_instance

end Clocked

def clockedMachine (nodeID port : UInt32) : Machine Clocked Clocked.Event where
  Init s := ∃ now, s = ⟨.fresh nodeID port, now, [], []⟩
  step := Clocked.step

namespace Clocked

/-- Every thread took `tstart` in the past. -/
def Started (s : Clocked) : Prop := ∀ tstart, .polling tstart ∈ s.timers → tstart ≤ s.now

variable {s t : Clocked}

theorem Started.set (hs : s.Started) {i : ℕ} {timer : CloseWaitTimer}
    (h : ∀ tstart, timer = .polling tstart → tstart ≤ s.now) :
    ∀ tstart, .polling tstart ∈ s.timers.set i timer → tstart ≤ s.now := by
  intro tstart hmem
  rcases List.mem_or_eq_of_mem_set hmem with hmem | heq
  · exact hs tstart hmem
  · exact h tstart heq.symm

theorem Started.step (hs : s.Started) {e : Event} (h : s.step e = some t) : t.Started := by
  cases e with
  | wait gap =>
    obtain rfl := Option.some.inj h
    exact fun tstart hmem => Nat.le_add_right_of_le (hs tstart hmem)
  | api a =>
    simp only [Clocked.step] at h
    split at h
    · contradiction
    · obtain ⟨u, _, rfl⟩ := Option.map_eq_some_iff.mp h
      exact hs
  | segment srcNodeID seg =>
    obtain ⟨r, _, rfl⟩ := Option.map_eq_some_iff.mp h
    intro tstart hmem
    rcases List.mem_append.mp hmem with hmem | hmem
    · exact hs tstart hmem
    · unfold started at hmem
      split at hmem <;> simp at hmem
  | start i =>
    simp only [Clocked.step] at h
    split at h
    · obtain rfl := Option.some.inj h
      exact hs.set fun tstart heq => Nat.le_of_eq (CloseWaitTimer.polling.inj heq).symm
    · contradiction
  | poll i =>
    simp only [Clocked.step] at h
    split at h
    next tstart _ =>
      split at h
      · split at h
        · obtain ⟨u, _, rfl⟩ := Option.map_eq_some_iff.mp h
          exact hs.set fun tstart heq => by simp at heq
        · exact Option.some.inj h ▸ hs
      · obtain rfl := Option.some.inj h
        exact hs.set fun tstart heq => by simp at heq
    next => contradiction

theorem poll_inTime (hs : s.Started) (hfull : AllFull s.fired) {i : ℕ}
    (h : s.step (.poll i) = some t) : AllFull t.fired ↔ InTime s (.poll i) := by
  simp only [step] at h
  split at h
  next tstart hi =>
    have hiff := elapsed_full_iff (Nat.le_refl nanosecondsPerSecond)
      (hs tstart (List.mem_of_getElem? hi))
    simp only [InTime, PollInTime, hi, Option.mem_some_iff, forall_eq', ← hiff]
    split at h
    next hstate =>
      split at h
      next hfires =>
        have hfires : nanosecondsPerSecond <
            (currentUtcTimeNs s.now - currentUtcTimeNs tstart).toNat := by
          simpa [closeWaitTimedOut] using hfires
        obtain ⟨u, _, rfl⟩ := Option.map_eq_some_iff.mp h
        simp [hfull, hfires, hstate]
      next hnot =>
        have hnot : ¬ nanosecondsPerSecond <
            (currentUtcTimeNs s.now - currentUtcTimeNs tstart).toNat := by
          simpa [closeWaitTimedOut] using hnot
        obtain rfl := Option.some.inj h
        simp [hfull, hnot]
    next hstate =>
      obtain rfl := Option.some.inj h
      simp [hfull, hstate]
  next => contradiction

/-- A step keeps all waits full exactly if it is in time. -/
theorem step_inTime (hs : s.Started) (hfull : AllFull s.fired) {e : Event}
    (h : s.step e = some t) : AllFull t.fired ↔ InTime s e := by
  cases e with
  | poll i => exact poll_inTime hs hfull h
  | wait gap =>
    obtain rfl := Option.some.inj h
    exact iff_of_true hfull trivial
  | api a =>
    simp only [step] at h
    split at h
    · contradiction
    · obtain ⟨u, _, rfl⟩ := Option.map_eq_some_iff.mp h
      exact iff_of_true hfull trivial
  | segment srcNodeID seg =>
    obtain ⟨r, _, rfl⟩ := Option.map_eq_some_iff.mp h
    exact iff_of_true hfull trivial
  | start i =>
    simp only [step] at h
    split at h
    · obtain rfl := Option.some.inj h
      exact iff_of_true hfull trivial
    · contradiction

theorem reachable_started {nodeID port : UInt32} {ok : Clocked → Event → Prop}
    (h : (clockedMachine nodeID port).Reachable ok s) : s.Started := by
  apply h.invariant
  · rintro _ ⟨now, rfl⟩ tstart hmem
    simp at hmem
  · intro s e t hs _ hstep
    exact hs.step hstep

end Clocked
end DartNet.Server
