import DartNet.Srt.Pointers

/-! The `sendBuf_timer` threads of one client socket. A thread is started by the append that
finds the send buffer empty, and ends when its loop test finds it empty again. Nothing waits
for it when the socket is closed. -/
namespace DartNet.Client
open Transition

/-- Where a `sendBuf_timer` thread stands: asleep in front of the loop test, behind a test that
found `sendBufHead` set, behind a timeout, behind the loop with its last line still to print, or
at its end. -/
inductive TimerPc where
  | sleeping | tested | timedOut | leftLoop | exited
  deriving DecidableEq, Repr

/-- The comparison of `sendBuf_timer`, for a reading of the clock. -/
def timedOut (now sentTime : UInt64) : Bool :=
  let currentTime := (now / UInt64.ofNat nsToMicroseconds).toUInt32.toUInt64
  currentTime < sentTime ∨ dataTimeout < (currentTime - sentTime).toNat

/-- A socket with the threads that were started for it, and whether `srt_client_close` freed
its control block. -/
structure Timed where
  socket : Socket
  timers : List TimerPc
  freed : Bool
  deriving DecidableEq

namespace Timed

/-- What the application, the segment handler and the threads can do: thread `i` tests
`sendBufHead`, reads the clock, resends and falls asleep, or prints its last line and exits. -/
inductive Event where
  | socket (e : Client.Event)
  | test (i : ℕ)
  | readClock (i : ℕ) (now : UInt64)
  | resend (i : ℕ) (env : Env)
  | exit (i : ℕ)
  | close

/-- The append in `srt_client_send` starts a thread if the buffer was empty. -/
def started (s : Timed) : Client.Event → List TimerPc
  | .api .queueSegment => if s.socket.tcb.sendBuf = [] then [.sleeping] else []
  | _ => []

/-- A freed control block is not touched any more in a way that is defined, and neither is the
first node of an empty list. -/
def step (s : Timed) (e : Event) : Option Timed :=
  if s.freed then none
  else match e with
    | .socket (.api (.sendBufTimer _)) => none
    | .socket (.api a) => (s.socket.step a).map fun r =>
      { s with socket := r.1, timers := s.timers ++ s.started (.api a) }
    | .socket (.segment srcNodeID seg) => (s.socket.receive srcNodeID seg).map fun t =>
      { s with socket := t }
    | .test i =>
      if s.timers[i]? = some .sleeping then
        some { s with
          timers := s.timers.set i (if s.socket.tcb.sendBuf = [] then .leftLoop else .tested) }
      else none
    | .readClock i now =>
      if s.timers[i]? = some .tested then
        s.socket.tcb.sendBuf.head?.map fun b =>
          { s with
            timers := s.timers.set i (if timedOut now b.sentTime then .timedOut else .sleeping) }
      else none
    | .resend i env =>
      if s.timers[i]? = some .timedOut then
        (s.socket.step (.sendBufTimer env)).map fun r =>
          { s with socket := r.1, timers := s.timers.set i .sleeping }
      else none
    | .exit i =>
      if s.timers[i]? = some .leftLoop then
        some { s with timers := s.timers.set i .exited }
      else none
    | .close =>
      if s.socket.call = .idle ∧ s.socket.tcb.state = .closed then some { s with freed := true }
      else none

end Timed

def timedMachine (nodeID clientPort : UInt32) : Machine Timed Timed.Event where
  Init s := s = ⟨.fresh nodeID clientPort, [], false⟩
  step := Timed.step

namespace Timed

/-- A thread that has not left its loop. -/
def InLoop (pc : TimerPc) : Prop := pc ≠ .leftLoop ∧ pc ≠ .exited

instance (pc : TimerPc) : Decidable (InLoop pc) := inferInstanceAs (Decidable (_ ∧ _))

/-- Data in the send buffer has a thread that will find it. -/
def Watched (s : Timed) : Prop := s.socket.tcb.sendBuf ≠ [] → ∃ pc ∈ s.timers, InLoop pc

/-- A thread that stays in the loop keeps the buffer watched. -/
theorem set_inLoop {timers : List TimerPc} {i : ℕ} {old pc : TimerPc}
    (hold : timers[i]? = some old) (hpc : InLoop pc) : ∃ p ∈ timers.set i pc, InLoop p := by
  obtain ⟨hlt, _⟩ := List.getElem?_eq_some_iff.mp hold
  exact ⟨pc, List.mem_set hlt pc, hpc⟩

/-- A thread outside the loop does not matter to those inside. -/
theorem inLoop_set {timers : List TimerPc} {i : ℕ} {old pc : TimerPc}
    (hold : timers[i]? = some old) (hout : ¬ InLoop old) (h : ∃ p ∈ timers, InLoop p) :
    ∃ p ∈ timers.set i pc, InLoop p := by
  obtain ⟨p, hp, hin⟩ := h
  obtain ⟨j, hj⟩ := List.mem_iff_getElem?.mp hp
  have hne : i ≠ j := by
    rintro rfl
    rw [hold] at hj
    exact hout (Option.some.inj hj ▸ hin)
  apply Exists.intro p
  exact ⟨List.mem_iff_getElem?.mpr ⟨j, by rw [List.getElem?_set_ne hne, hj]⟩, hin⟩

/-- Only the append makes an empty send buffer non-empty, and it starts a thread for it. -/
theorem Watched.api {s : Timed} (hs : s.Watched) {a : Action} {r : Socket × List Seg}
    (h : s.socket.step a = some r) :
    ({ s with socket := r.1, timers := s.timers ++ s.started (.api a) } : Timed).Watched := by
  intro hne
  by_cases hbuf : s.socket.tcb.sendBuf = []
  · by_cases ha : a = .queueSegment
    · subst ha
      refine ⟨.sleeping, ?_, by decide⟩
      simp [started, hbuf]
    · exact absurd ((Linked.step_appends_nothing ha h).2 hbuf) hne
  · obtain ⟨pc, hpc, hrun⟩ := hs hbuf
    exact ⟨pc, List.mem_append_left _ hpc, hrun⟩

theorem receive_appends_nothing {s t : Socket} {srcNodeID : UInt32} {seg : Seg}
    (h : s.receive srcNodeID seg = some t) (hbuf : s.tcb.sendBuf = []) : t.tcb.sendBuf = [] := by
  obtain ⟨r, hr, rfl⟩ := receive_handles h
  cases hr with
  | ignored => exact hbuf
  | synack _ _ _ => exact hbuf
  | dataack _ _ _ =>
    show s.tcb.sendBuf.dropWhile _ = []
    rw [hbuf, List.dropWhile_nil]
  | finack _ _ => exact hbuf

/-- All that a step can do. -/
inductive Steps (s : Timed) : Event → Timed → Prop
  | api (a : Action) (r : Socket × List Seg) : s.socket.step a = some r →
      Steps s (.socket (.api a))
        { s with socket := r.1, timers := s.timers ++ s.started (.api a) }
  | segment (srcNodeID : UInt32) (seg : Seg) (t : Socket) :
      s.socket.receive srcNodeID seg = some t →
      Steps s (.socket (.segment srcNodeID seg)) { s with socket := t }
  | left (i : ℕ) : s.timers[i]? = some .sleeping → s.socket.tcb.sendBuf = [] →
      Steps s (.test i) { s with timers := s.timers.set i .leftLoop }
  | passed (i : ℕ) : s.timers[i]? = some .sleeping → s.socket.tcb.sendBuf ≠ [] →
      Steps s (.test i) { s with timers := s.timers.set i .tested }
  | readClock (i : ℕ) (now : UInt64) (b : SegBuf) : s.timers[i]? = some .tested →
      s.socket.tcb.sendBuf.head? = some b →
      Steps s (.readClock i now) { s with
        timers := s.timers.set i (if timedOut now b.sentTime then .timedOut else .sleeping) }
  | resend (i : ℕ) (env : Env) (r : Socket × List Seg) : s.timers[i]? = some .timedOut →
      s.socket.step (.sendBufTimer env) = some r →
      Steps s (.resend i env) { s with socket := r.1, timers := s.timers.set i .sleeping }
  | exit (i : ℕ) : s.timers[i]? = some .leftLoop →
      Steps s (.exit i) { s with timers := s.timers.set i .exited }
  | close : s.socket.call = .idle → s.socket.tcb.state = .closed →
      Steps s .close { s with freed := true }

theorem steps_of_step {s t : Timed} {e : Event} (h : s.step e = some t) :
    s.freed = false ∧ Steps s e t := by
  unfold step at h
  split at h
  next => contradiction
  next hfreed =>
  refine ⟨by simpa using hfreed, ?_⟩
  cases e with
  | socket e =>
    cases e with
    | segment srcNodeID seg =>
      obtain ⟨t, ht, rfl⟩ := Option.map_eq_some_iff.mp h
      exact .segment srcNodeID seg t ht
    | api a =>
      cases a with
      | sendBufTimer env => contradiction
      | _ =>
        obtain ⟨r, hr, rfl⟩ := Option.map_eq_some_iff.mp h
        exact .api _ r hr
  | test i =>
    simp only at h
    split at h
    next hpc =>
      cases h
      by_cases hbuf : s.socket.tcb.sendBuf = []
      · rw [if_pos hbuf]
        exact .left i hpc hbuf
      · rw [if_neg hbuf]
        exact .passed i hpc hbuf
    next => contradiction
  | readClock i now =>
    simp only at h
    split at h
    next hpc =>
      obtain ⟨b, hb, rfl⟩ := Option.map_eq_some_iff.mp h
      exact .readClock i now b hpc hb
    next => contradiction
  | resend i env =>
    simp only at h
    split at h
    next hpc =>
      obtain ⟨r, hr, rfl⟩ := Option.map_eq_some_iff.mp h
      exact .resend i env r hpc hr
    next => contradiction
  | exit i =>
    simp only at h
    split at h
    next hpc => exact Option.some.inj h ▸ .exit i hpc
    next => contradiction
  | close =>
    simp only at h
    split at h
    next hc =>
      cases h
      exact .close hc.1 hc.2
    next => contradiction

/-- The threads do to the socket what its own steps do. -/
theorem reachable_socket {nodeID clientPort : UInt32} {ok : Timed → Event → Prop} {s : Timed}
    (h : (timedMachine nodeID clientPort).Reachable ok s) :
    (socketMachine nodeID clientPort).Reachable (fun _ _ => True) s.socket := by
  apply h.project
  · rintro _ rfl
    rfl
  · intro s e t hstep
    cases (steps_of_step hstep).2 with
    | api a r hr => exact .inr ⟨.api a, Option.map_eq_some_iff.mpr ⟨r, hr, rfl⟩⟩
    | segment srcNodeID seg u hu => exact .inr ⟨.segment srcNodeID seg, hu⟩
    | resend i env r _ hr =>
      exact .inr ⟨.api (.sendBufTimer env), Option.map_eq_some_iff.mpr ⟨r, hr, rfl⟩⟩
    | _ => exact .inl rfl

theorem Watched.step {s t : Timed} (hs : s.Watched) {e : Event} (h : s.step e = some t) :
    t.Watched := by
  obtain ⟨_, h⟩ := steps_of_step h
  cases h with
  | api a r hr => exact hs.api hr
  | segment srcNodeID seg u hu =>
    intro hne
    exact hs fun hbuf => hne (receive_appends_nothing hu hbuf)
  | left i _ hbuf => exact fun hne => absurd hbuf hne
  | passed i hpc _ => exact fun _ => set_inLoop hpc (by decide)
  | readClock i now b hpc _ => exact fun _ => set_inLoop hpc (by split <;> decide)
  | resend i env r hpc _ => exact fun _ => set_inLoop hpc (by decide)
  | exit i hpc => exact fun hne => inLoop_set hpc (by decide) (hs hne)
  | close _ _ => exact hs

/-- In every interleaving of calls, segments and threads, a send buffer that is not empty is
watched by a running thread. -/
theorem sendBuf_watched (nodeID clientPort : UInt32) (s : Timed)
    (h : (timedMachine nodeID clientPort).Reachable (fun _ _ => True) s) :
    s.socket.tcb.sendBuf ≠ [] → ∃ pc ∈ s.timers, InLoop pc := by
  apply h.invariant (I := Watched)
  · rintro _ rfl hne
    exact absurd rfl hne
  · intro s e t hs _ hstep
    exact hs.step hstep

/-- One byte is sent over a new connection. -/
def oneSent : List Event :=
  [.socket (.api (.connect 2 80 true)),
    .socket (.segment 2 ⟨⟨80, 4000, 0, 0, 0, SegType.synack, 0, 0⟩, .replicate _ 0⟩),
    .socket (.api .connectReturn), .socket (.api (.send [7])), .socket (.api .queueSegment),
    .socket (.api (.sendReturn ⟨fun _ => 0, []⟩))]

/-- The byte is acknowledged, and another one is sent before the first thread has woken up. -/
def refilled : List Event :=
  oneSent ++ [.socket (.segment 2 ⟨⟨80, 4000, 1, 0, 0, SegType.dataack, 0, 0⟩, .replicate _ 0⟩),
    .socket (.api (.send [8])), .socket (.api .queueSegment),
    .socket (.api (.sendReturn ⟨fun _ => 0, []⟩)), .test 0]

theorem sendBuf_watched_run : ∃ s : Timed,
    (timedMachine 1 4000).run (fun _ _ => True) ⟨.fresh 1 4000, [], false⟩ refilled = some s ∧
      s.socket.tcb.sendBuf.length = 1 ∧ s.timers = [.tested, .sleeping] ∧
      ∃ pc ∈ s.timers, InLoop pc := by
  obtain ⟨s, hrun, hs, hlen, htimers⟩ := (timedMachine 1 4000).exists_of_run (fun _ _ => True) rfl
    refilled (P := fun s => s.socket.tcb.sendBuf.length = 1 ∧ s.timers = [.tested, .sleeping])
    (by decide +kernel)
  have hne : s.socket.tcb.sendBuf ≠ [] := List.ne_nil_of_length_eq_add_one hlen
  exact ⟨s, hrun, hlen, htimers, sendBuf_watched 1 4000 s hs hne⟩

/-- The socket is closed after every thread has exited. -/
def ClosesLast (s : Timed) : Event → Prop
  | .close => ∀ pc ∈ s.timers, pc = .exited
  | _ => True

instance (s : Timed) (e : Event) : Decidable (ClosesLast s e) := by
  rcases e with _ | _ | _ | _ | _ | _ <;> dsimp only [ClosesLast] <;> infer_instance

/-- No thread will touch the control block again once it has been freed. -/
def Safe (s : Timed) : Prop := s.freed = true → ∀ pc ∈ s.timers, pc = .exited

instance (s : Timed) : Decidable s.Safe := by unfold Safe; infer_instance

theorem Safe.step {s t : Timed} {e : Event} (hok : ClosesLast s e) (h : s.step e = some t) :
    t.Safe := by
  obtain ⟨hfreed, h⟩ := steps_of_step h
  cases h with
  | close _ _ => exact fun _ => hok
  | _ => exact fun hf => absurd (hfreed.symm.trans hf) (by simp)

/-- A run that closes the socket after its threads have ended is safe, and closing it in any
other state is not. -/
theorem closed_safe (nodeID clientPort : UInt32) :
    (∀ s, (timedMachine nodeID clientPort).Reachable ClosesLast s → s.Safe) ∧
    (∀ s t : Timed, s.step .close = some t → (t.Safe ↔ ∀ pc ∈ s.timers, pc = .exited)) := by
  constructor
  · intro s h
    cases h with
    | init h =>
      rw [h]
      intro hf
      contradiction
    | step _ hok hstep => exact Safe.step hok hstep
  · intro s t hstep
    constructor
    · intro hsafe
      obtain ⟨_, h⟩ := steps_of_step hstep
      cases h with
      | close _ _ => exact hsafe rfl
    · intro hall
      exact Safe.step (e := .close) hall hstep

/-- The connection is ended by a `FINACK` while the thread is still asleep. -/
def sentAndDisconnected : List Event :=
  oneSent ++ [.socket (.api (.disconnect true)),
    .socket (.segment 2 ⟨⟨80, 4000, 0, 0, 0, SegType.finack, 0, 0⟩, .replicate _ 0⟩),
    .socket (.api .disconnectReturn)]

theorem closed_safe_run : ∃ s : Timed,
    (timedMachine 1 4000).run ClosesLast ⟨.fresh 1 4000, [], false⟩
      (sentAndDisconnected ++ [.test 0, .exit 0, .close]) = some s ∧ s.freed = true ∧ s.Safe := by
  obtain ⟨s, hrun, hs, hfreed⟩ := (timedMachine 1 4000).exists_of_run ClosesLast rfl
    (sentAndDisconnected ++ [.test 0, .exit 0, .close]) (P := fun s => s.freed = true)
    (by decide +kernel)
  exact ⟨s, hrun, hfreed, (closed_safe 1 4000).1 s hs⟩

/-- The thread wakes up after the control block was freed. -/
theorem closed_under_timer : ∃ s : Timed,
    (timedMachine 1 4000).Reachable (fun _ _ => True) s ∧ s.freed = true ∧
      ∃ pc ∈ s.timers, pc ≠ .exited := by
  obtain ⟨s, _, hs, hfreed, hrun⟩ := (timedMachine 1 4000).exists_of_run (fun _ _ => True) rfl
    (sentAndDisconnected ++ [.close])
    (P := fun s => s.freed = true ∧ ∃ pc ∈ s.timers, pc ≠ .exited) (by decide +kernel)
  exact ⟨s, hs, hfreed, hrun⟩

end Timed
end DartNet.Client
