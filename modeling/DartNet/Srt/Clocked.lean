import DartNet.Common.Time
import DartNet.Srt.FailedSend
import DartNet.Srt.Timers

/-! A client socket and its threads on a clock: when the retry loops and `sendBuf_timer` read it,
and which of their waits have ended. Instants are nanoseconds. -/
namespace DartNet.Client
open Transition Clock

/-- The comparison of `srt_client_connect`, which adds a second if the reading has wrapped. -/
def synTimedOut (tend tstart : UInt64) : Bool :=
  let tend := if tend < tstart then tend + 1000000000 else tend
  synTimeout < (tend - tstart).toInt64.toInt.natAbs

/-- The comparison of `srt_client_disconnect`. -/
def finTimedOut (tend tstart : UInt64) : Bool := finTimeout < (tend - tstart).toNat

/-- The instants of the readings in a section, by the time between two of them. -/
def instants (now : ℕ) (gaps : ℕ → ℕ) : ℕ → ℕ
  | 0 => now
  | k + 1 => instants now gaps k + gaps k

/-- What the `sentTime` field shows of the instant a node was last handed to `snp_sendseg`. -/
def shownTime : Option ℕ → UInt64
  | none => 0
  | some t => currentUtcTimeNs t / UInt64.ofNat nsToMicroseconds

/-- The first `n` nodes are handed to `snp_sendseg`, at the instants from number `k` on. -/
def handNodes (inst : ℕ → ℕ) : ℕ → ℕ → List (Option ℕ) → List (Option ℕ)
  | k, n + 1, _ :: handed => some (inst k) :: handNodes inst (k + 1) n handed
  | _, _, handed => handed

/-- The number of nodes that `sendMaxSegments` hands to `snp_sendseg`. -/
def ClientTcb.handedMax (tcb : ClientTcb) (env : Env) : ℕ :=
  let r := sendMaxLoop env 0 tcb.unAckSegNum tcb.unsent
  r.sent.length + if r.failed then 1 else 0

/-- The threads of a socket at an instant. The retry loop in progress took `tstart` at one
instant and sent its last segment at another. For every node of the send buffer there is the
instant it was last handed to `snp_sendseg` at, if it was, and for every thread that of the node
it found at its last test. The waits that a timeout ended, and those of calls that gave up, are
recorded. -/
structure Clocked where
  timed : Timed
  now : ℕ
  tstart : ℕ
  sentAt : ℕ
  handed : List (Option ℕ)
  tested : ℕ → Option ℕ
  fired : List Wait
  gaveUp : List Wait

/-- The retry loops of `srt_client_connect` and `srt_client_disconnect`. -/
def Action.retries : Action → Bool
  | .connect _ _ _ => true
  | .resendSyn _ => true
  | .connectReturn => true
  | .disconnect _ => true
  | .resendFin _ => true
  | .disconnectReturn => true
  | _ => false

/-- The sections that send nodes, each of which reads the clock. -/
def Action.sends : Action → Bool
  | .sendReturn _ => true
  | .sendMaxSegments _ => true
  | .sendBufTimer _ => true
  | _ => false

/-- The steps outside the retry loops that read no clock. -/
def Timed.Event.silent : Timed.Event → Bool
  | .socket (.api a) => !a.retries && !a.sends
  | .socket (.segment _ _) => true
  | .test _ => true
  | .readClock _ _ => false
  | .resend _ _ => false
  | .exit _ => true
  | .close => true

namespace Clocked

/-- Steps on the clock. A step that sends takes its own time: the gaps lie between its readings
of the clock, or between a reading and the sending next to it. -/
inductive Event where
  | wait (gap : ℕ)
  | silent (e : Timed.Event)
  | connect (nodeID serverPort : UInt32) (sendOk : Bool) (gap : ℕ)
  | pollSyn (sendOk : Bool) (gap gap' : ℕ)
  | connectReturn
  | disconnect (sendOk : Bool) (gap : ℕ)
  | pollFin (sendOk : Bool) (gap gap' : ℕ)
  | disconnectReturn
  | sendReturn (gaps : ℕ → ℕ) (failed : List ℕ)
  | sendMaxSegments (gaps : ℕ → ℕ) (failed : List ℕ)
  | readClock (i : ℕ)
  | resend (i : ℕ) (gaps : ℕ → ℕ) (failed : List ℕ)

abbrev tcb (s : Clocked) : ClientTcb := s.timed.socket.tcb

/-- The instants of the nodes after a step that sends none: nodes are freed at the front of the
buffer and appended at its end. -/
def kept (s : Clocked) (t : Timed) : List (Option ℕ) :=
  s.handed.drop (s.tcb.sendBuf.length - t.socket.tcb.sendBuf.length) ++
    List.replicate (t.socket.tcb.sendBuf.length - s.tcb.sendBuf.length) none

/-- A step that sends no nodes. -/
def quiet (s : Clocked) (e : Timed.Event) : Option Clocked :=
  (s.timed.step e).map fun t => { s with timed := t, handed := s.kept t }

def env (s : Clocked) (gaps : ℕ → ℕ) (failed : List ℕ) : Env where
  clock k := currentUtcTimeNs (instants s.now gaps k)
  failed := failed

/-- A section after whose first `front` nodes the next `n` are sent. -/
def sending (s : Clocked) (gaps : ℕ → ℕ) (front n : ℕ) (e : Timed.Event) : Option Clocked :=
  (s.timed.step e).map fun t =>
    { s with
      timed := t
      now := instants s.now gaps s.tcb.sendBuf.length
      handed := s.handed.take front ++
        handNodes (instants s.now gaps) 0 n (s.handed.drop front) }

/-- The wait since the first node of the buffer was handed to `snp_sendseg`. -/
def headWait (s : Clocked) : List Wait :=
  s.handed.head?.toList.map fun t => ⟨t, s.now, dataTimeout * nsToMicroseconds⟩

def step (s : Clocked) : Event → Option Clocked
  | .wait gap => some { s with now := s.now + gap }
  | .silent e => if e.silent then s.quiet e else none
  | .connect nodeID serverPort sendOk gap =>
    (s.quiet (.socket (.api (.connect nodeID serverPort sendOk)))).map fun t =>
      { t with now := s.now + gap, tstart := s.now + gap, sentAt := s.now }
  | .pollSyn sendOk gap gap' =>
    (s.quiet (.socket (.api (.resendSyn sendOk)))).map fun t =>
      if synTimedOut (currentUtcTimeNs s.now) (currentUtcTimeNs s.tstart) then
        { t with
          now := s.now + gap + gap', tstart := s.now + gap, sentAt := s.now + gap + gap' }
      else s
  | .connectReturn =>
    (s.quiet (.socket (.api .connectReturn))).map fun t =>
      { t with
        gaveUp := s.gaveUp ++
          if s.tcb.state = .connected then [] else [⟨some s.sentAt, s.now, synTimeout⟩] }
  | .disconnect sendOk gap =>
    (s.quiet (.socket (.api (.disconnect sendOk)))).map fun t =>
      { t with now := s.now + gap, tstart := s.now + gap, sentAt := s.now }
  | .pollFin sendOk gap gap' =>
    (s.quiet (.socket (.api (.resendFin sendOk)))).map fun t =>
      if finTimedOut (currentUtcTimeNs s.now) (currentUtcTimeNs s.tstart) then
        { t with
          now := s.now + gap + gap', tstart := s.now + gap, sentAt := s.now + gap + gap'
          fired := s.fired ++ [⟨some s.tstart, s.now, finTimeout⟩] }
      else s
  | .disconnectReturn =>
    (s.quiet (.socket (.api .disconnectReturn))).map fun t =>
      { t with
        gaveUp := s.gaveUp ++
          if s.tcb.state = .closed then [] else [⟨some s.sentAt, s.now, finTimeout⟩] }
  | .sendReturn gaps failed =>
    s.sending gaps s.tcb.before.length (s.tcb.handedMax (s.env gaps failed))
      (.socket (.api (.sendReturn (s.env gaps failed))))
  | .sendMaxSegments gaps failed =>
    s.sending gaps s.tcb.before.length (s.tcb.handedMax (s.env gaps failed))
      (.socket (.api (.sendMaxSegments (s.env gaps failed))))
  | .readClock i =>
    (s.timed.step (.readClock i (currentUtcTimeNs s.now))).map fun t =>
      { s with
        timed := t
        tested := fun j => if j = i then s.handed.head?.join else s.tested j
        fired := s.fired ++ if t.timers[i]? = some .timedOut then s.headWait else [] }
  | .resend i gaps failed =>
    (s.sending gaps 0 (s.tcb.unAckSegNum.toNat + 1) (.resend i (s.env gaps failed))).map fun t =>
      { t with fired := s.fired ++ s.headWait }

end Clocked

/-- The clock may show anything when the socket is created. -/
def clockedMachine (nodeID clientPort : UInt32) : Machine Clocked Clocked.Event where
  Init s := ∃ now, s = ⟨⟨.fresh nodeID clientPort, [], false⟩, now, now, now, [], fun _ => none,
    [], []⟩
  step := Clocked.step

section
variable {inst : ℕ → ℕ}

@[simp] theorem handNodes_zero (k : ℕ) (handed : List (Option ℕ)) :
    handNodes inst k 0 handed = handed := by
  cases handed <;> rfl

theorem mem_handNodes {k n : ℕ} {handed : List (Option ℕ)} {t : ℕ}
    (h : some t ∈ handNodes inst k n handed) :
    some t ∈ handed ∨ ∃ i < handed.length, t = inst (k + i) := by
  induction handed generalizing k n with
  | nil => simp [handNodes] at h
  | cons m handed ih =>
    cases n with
    | zero => exact .inl (by simpa using h)
    | succ n =>
      rcases List.mem_cons.mp h with h | h
      · exact .inr ⟨0, by simp, Option.some.inj h⟩
      · rcases ih h with h | ⟨i, hi, rfl⟩
        · exact .inl (List.mem_cons_of_mem _ h)
        · refine .inr ⟨i + 1, by simpa using hi, ?_⟩
          rw [Nat.add_assoc, Nat.add_comm 1 i]

theorem sendMaxLoop_shown (failed : List ℕ) (k : ℕ) (unAck : UInt32) (bs : List SegBuf)
    (handed : List (Option ℕ)) (h : handed.map shownTime = bs.map (·.sentTime)) :
    let r := sendMaxLoop ⟨fun k => currentUtcTimeNs (inst k), failed⟩ k unAck bs
    (handNodes inst k (r.sent.length + if r.failed then 1 else 0) handed).map shownTime =
      r.bufs.map (·.sentTime) := by
  induction bs generalizing k unAck handed with
  | nil => simpa [sendMaxLoop] using h
  | cons b bs ih =>
    obtain ⟨m, handed, rfl, hm, hrest⟩ := List.map_eq_cons_iff.mp h
    simp only [sendMaxLoop]
    split
    next =>
      split
      next =>
        have hr := ih (k + 1) (unAck + 1) handed hrest
        dsimp only at hr ⊢
        rw [List.length_cons, Nat.add_right_comm, handNodes, List.map_cons, List.map_cons, hr]
        rfl
      next =>
        simp only [List.length_nil, if_true, Nat.zero_add, handNodes,
          List.map_cons, hrest]
        rfl
    next => simpa [hm] using hrest

theorem resendLoop_shown (failed : List ℕ) (unAck : UInt32) (k : ℕ) (bs : List SegBuf)
    (handed : List (Option ℕ)) (h : handed.map shownTime = bs.map (·.sentTime)) :
    (handNodes inst k (unAck.toNat + 1 - k) handed).map shownTime =
      (resendLoop ⟨fun k => currentUtcTimeNs (inst k), failed⟩ unAck k bs).bufs.map
        (·.sentTime) := by
  induction bs generalizing k handed with
  | nil =>
    obtain rfl : handed = [] := by simpa using h
    cases unAck.toNat + 1 - k <;> rfl
  | cons b bs ih =>
    obtain ⟨m, handed, rfl, hm, hrest⟩ := List.map_eq_cons_iff.mp h
    simp only [resendLoop]
    split
    next hk =>
      have hcount : unAck.toNat + 1 - k = unAck.toNat + 1 - (k + 1) + 1 := by omega
      rw [hcount, handNodes, List.map_cons, List.map_cons, ih (k + 1) handed hrest]
      rfl
    next hk =>
      have hcount : unAck.toNat + 1 - k = 0 := by omega
      simp [hcount, hm, hrest]

end

/-- What a step changes that sends no nodes and starts no timeout. -/
structure Shifts (s t : Timed) : Prop where
  sendBuf : t.socket.tcb.sendBuf <:+ s.socket.tcb.sendBuf ∨
    ∃ b : SegBuf, b.sentTime = 0 ∧ t.socket.tcb.sendBuf = s.socket.tcb.sendBuf ++ [b]
  timers : ∀ i : ℕ, t.timers[i]? = some TimerPc.timedOut →
    s.timers[i]? = some TimerPc.timedOut

theorem Shifts.refl (s : Timed) : Shifts s s := ⟨.inl (List.suffix_refl _), fun _ h => h⟩

/-- A thread just started has not timed out. -/
theorem timedOut_of_started {s : Timed} {e : Client.Event} {i : ℕ}
    (h : (s.timers ++ s.started e)[i]? = some .timedOut) : s.timers[i]? = some .timedOut := by
  rcases Nat.lt_or_ge i s.timers.length with hlt | hge
  · rwa [List.getElem?_append_left hlt] at h
  · rw [List.getElem?_append_right hge] at h
    have hmem := List.mem_of_getElem? h
    unfold Timed.started at hmem
    split at hmem
    · split at hmem <;> simp at hmem
    · simp at hmem

theorem timedOut_of_set {timers : List TimerPc} {i j : ℕ} {pc : TimerPc} (hpc : pc ≠ .timedOut)
    (h : (timers.set i pc)[j]? = some .timedOut) : timers[j]? = some .timedOut := by
  rw [List.getElem?_set] at h
  split at h
  next =>
    split at h
    · exact absurd (Option.some.inj h) hpc
    · contradiction
  next => exact h

theorem Shifts.api {s t : Timed} {a : Action} (ha : a.sends = false)
    (h : s.step (.socket (.api a)) = some t) : Shifts s t := by
  obtain ⟨_, h⟩ := Timed.steps_of_step h
  cases h with
  | api a r hr =>
    constructor
    · cases steps_of_step hr with
      | queueSegment data num dataRemainder _ _ => exact .inr ⟨_, rfl, rfl⟩
      | disconnect _ _ _ _ => exact .inl (List.nil_suffix)
      | sendReturn _ _ _ => contradiction
      | sendMaxSegments _ _ _ => contradiction
      | sendBufTimer _ _ _ => contradiction
      | _ => exact .inl (List.suffix_refl _)
    · exact fun i hi => timedOut_of_started hi

theorem Shifts.silent {s t : Timed} {e : Timed.Event} (he : e.silent = true)
    (h : s.step e = some t) : Shifts s t := by
  cases (Timed.steps_of_step h).2 with
  | api a r hr =>
    simp only [Timed.Event.silent, Bool.and_eq_true, Bool.not_eq_true'] at he
    exact .api he.2 h
  | segment srcNodeID seg u hu =>
    constructor
    · obtain ⟨r, hr, rfl⟩ := receive_handles hu
      cases hr with
      | dataack _ _ _ => exact .inl (List.dropWhile_suffix _)
      | _ => exact .inl (List.suffix_refl _)
    · exact fun i hi => hi
  | left i _ _ => exact ⟨.inl (List.suffix_refl _), fun j hj => timedOut_of_set (by decide) hj⟩
  | passed i _ _ => exact ⟨.inl (List.suffix_refl _), fun j hj => timedOut_of_set (by decide) hj⟩
  | readClock i now pc _ _ => contradiction
  | resend i env r _ _ => contradiction
  | exit i _ => exact ⟨.inl (List.suffix_refl _), fun j hj => timedOut_of_set (by decide) hj⟩
  | close _ _ => exact ⟨.inl (List.suffix_refl _), fun j hj => hj⟩

theorem instants_mono {now : ℕ} {gaps : ℕ → ℕ} {j k : ℕ} (h : j ≤ k) :
    instants now gaps j ≤ instants now gaps k := by
  induction k, h using Nat.le_induction with
  | base => exact Nat.le_refl _
  | succ k _ ih => exact Nat.le_add_right_of_le ih

namespace ClientTcb

theorem before_append_unsent (tcb : ClientTcb) : tcb.before ++ tcb.unsent = tcb.sendBuf := by
  unfold before unsent
  split
  · exact List.append_nil _
  · exact List.takeWhile_append_dropWhile ..

theorem sendMaxSegments_sendBuf {tcb : ClientTcb} {env : Env} {r : ClientTcb × List SegBuf}
    (h : tcb.sendMaxSegments env = some r) :
    r.1.sendBuf = tcb.before ++ (sendMaxLoop env 0 tcb.unAckSegNum tcb.unsent).bufs := by
  obtain ⟨_, ⟨hptr, rfl⟩ | ⟨a, q, hptr, _, rfl, rfl⟩⟩ := sendMaxSegments_cases h
  · simp [before, unsent, hptr, sendMaxLoop]
  · simp [before, unsent, hptr]

end ClientTcb

theorem Clocked.of_quiet {s t : Clocked} {e : Timed.Event} {f : Clocked → Clocked}
    (h : (s.quiet e).map f = some t) :
    ∃ u, s.timed.step e = some u ∧ t = f { s with timed := u, handed := s.kept u } := by
  obtain ⟨_, hq, rfl⟩ := Option.map_eq_some_iff.mp h
  obtain ⟨u, hu, rfl⟩ := Option.map_eq_some_iff.mp hq
  exact ⟨u, hu, rfl⟩

/-- What is recorded belongs to the state: the times shown in the nodes, instants in the past,
and for every thread behind a timeout the wait that ended in it. -/
structure Recorded (s : Clocked) : Prop where
  shown : s.handed.map shownTime = s.tcb.sendBuf.map (·.sentTime)
  past : ∀ t, some t ∈ s.handed → t ≤ s.now
  tstart : s.tstart ≤ s.now
  tested : ∀ i : ℕ, s.timed.timers[i]? = some TimerPc.timedOut →
    ∃ till ≤ s.now, ⟨s.tested i, till, dataTimeout * nsToMicroseconds⟩ ∈ s.fired

namespace Recorded
variable {s t : Clocked}

theorem length (hs : Recorded s) : s.handed.length = s.tcb.sendBuf.length := by
  simpa using congrArg List.length hs.shown

theorem kept_shown (hs : Recorded s) {u : Timed} (h : Shifts s.timed u) :
    (s.kept u).map shownTime = u.socket.tcb.sendBuf.map (·.sentTime) := by
  unfold Clocked.kept
  rcases h.sendBuf with hsuffix | ⟨b, hb, happ⟩
  · have hle := hsuffix.length_le
    rw [Nat.sub_eq_zero_of_le hle, List.replicate_zero, List.append_nil, List.map_drop, hs.shown,
      ← List.map_drop, ← List.suffix_iff_eq_drop.mp hsuffix]
  · rw [happ, List.length_append, List.length_singleton, Nat.sub_eq_zero_of_le (Nat.le_succ _),
      List.drop_zero, Nat.add_sub_cancel_left, List.map_append, hs.shown, List.map_append]
    simp [shownTime, hb]

theorem keep (hs : Recorded s) (hshift : Shifts s.timed t.timed)
    (hhanded : t.handed = s.kept t.timed) (htested : t.tested = s.tested)
    (hfired : s.fired ⊆ t.fired) (hnow : s.now ≤ t.now) (htstart : t.tstart ≤ t.now) :
    Recorded t where
  shown := by rw [hhanded, hs.kept_shown hshift]
  past u hu := by
    rw [hhanded] at hu
    rcases List.mem_append.mp hu with hu | hu
    · exact Nat.le_trans (hs.past u (List.mem_of_mem_drop hu)) hnow
    · simp [List.mem_replicate] at hu
  tstart := htstart
  tested i hi := by
    obtain ⟨till, hle, hmem⟩ := hs.tested i (hshift.timers i hi)
    rw [htested]
    exact ⟨till, Nat.le_trans hle hnow, hfired hmem⟩

/-- A section that sends nodes, if the nodes it leaves show what was recorded for them. -/
theorem sending (hs : Recorded s) {gaps : ℕ → ℕ} {front n : ℕ} {e : Timed.Event}
    (h : s.sending gaps front n e = some t)
    (hfront : (t.tcb.sendBuf.take front).map (·.sentTime) =
      (s.tcb.sendBuf.take front).map (·.sentTime))
    (hback : (handNodes (instants s.now gaps) 0 n (s.handed.drop front)).map shownTime =
      (t.tcb.sendBuf.drop front).map (·.sentTime))
    (htimers : ∀ i : ℕ, t.timed.timers[i]? = some TimerPc.timedOut →
      s.timed.timers[i]? = some TimerPc.timedOut) : Recorded t := by
  obtain ⟨u, _, rfl⟩ := Option.map_eq_some_iff.mp h
  have hnow : s.now ≤ instants s.now gaps s.tcb.sendBuf.length := instants_mono (Nat.zero_le _)
  constructor
  · show (s.handed.take front ++ handNodes _ 0 n (s.handed.drop front)).map shownTime = _
    rw [List.map_append, hback, List.map_take, hs.shown, ← List.map_take, ← hfront,
      ← List.map_append, List.take_append_drop]
  · intro u hu
    rcases List.mem_append.mp hu with hu | hu
    · exact Nat.le_trans (hs.past u (List.mem_of_mem_take hu)) hnow
    · rcases mem_handNodes hu with hu | ⟨i, hi, rfl⟩
      · exact Nat.le_trans (hs.past u (List.mem_of_mem_drop hu)) hnow
      · apply instants_mono
        rw [List.length_drop, hs.length] at hi
        omega
  · exact Nat.le_trans hs.tstart hnow
  · intro i hi
    obtain ⟨till, hle, hmem⟩ := hs.tested i (htimers i hi)
    exact ⟨till, Nat.le_trans hle hnow, hmem⟩

theorem later (hs : Recorded s) (gap : ℕ) : Recorded { s with now := s.now + gap } := by
  apply hs.keep (t := { s with now := s.now + gap }) (.refl _)
  · simp [Clocked.kept]
  · rfl
  · exact List.Subset.refl _
  · exact Nat.le_add_right _ _
  · exact Nat.le_add_right_of_le hs.tstart

theorem sendMax (hs : Recorded s) {gaps : ℕ → ℕ} {failed : List ℕ} {a : Action}
    (h : s.sending gaps s.tcb.before.length (s.tcb.handedMax (s.env gaps failed))
      (.socket (.api a)) = some t)
    (hbuf : ∀ r, s.timed.socket.step a = some r →
      ∃ q, s.tcb.sendMaxSegments (s.env gaps failed) = some q ∧ r.1.tcb = q.1) :
    Recorded t := by
  obtain ⟨u, hu, rfl⟩ := Option.map_eq_some_iff.mp h
  have hsplit := s.tcb.before_append_unsent
  have hunsent : s.tcb.sendBuf.drop s.tcb.before.length = s.tcb.unsent := by
    rw [← hsplit, List.drop_left]
  have hsent : u.socket.tcb.sendBuf =
      s.tcb.before ++ (sendMaxLoop (s.env gaps failed) 0 s.tcb.unAckSegNum s.tcb.unsent).bufs := by
    cases (Timed.steps_of_step hu).2 with
    | api _ r hr =>
      obtain ⟨q, hq, htcb⟩ := hbuf r hr
      rw [← ClientTcb.sendMaxSegments_sendBuf hq, ← htcb]
  apply hs.sending h
  · show (u.socket.tcb.sendBuf.take _).map _ = _
    rw [hsent, List.take_left, ← hsplit, List.take_left]
  · show _ = (u.socket.tcb.sendBuf.drop _).map _
    rw [hsent, List.drop_left]
    apply sendMaxLoop_shown
    rw [List.map_drop, hs.shown, ← List.map_drop, hunsent]
  · intro i hi
    cases (Timed.steps_of_step hu).2 with
    | api _ r _ => exact timedOut_of_started hi

theorem resend (hs : Recorded s) {gaps : ℕ → ℕ} {failed : List ℕ} {i : ℕ}
    (h : s.sending gaps 0 (s.tcb.unAckSegNum.toNat + 1) (.resend i (s.env gaps failed)) =
      some t) : Recorded t := by
  obtain ⟨u, hu, rfl⟩ := Option.map_eq_some_iff.mp h
  cases (Timed.steps_of_step hu).2 with
  | resend _ _ r hi hr =>
    obtain ⟨q, hq, rfl⟩ := Option.map_eq_some_iff.mp hr
    obtain ⟨_, p, rfl, rfl⟩ := sendBufTimer_cases hq
    apply hs.sending h
    · rfl
    · exact resendLoop_shown failed s.tcb.unAckSegNum 0 s.tcb.sendBuf s.handed hs.shown
    · exact fun j hj => timedOut_of_set (by decide) hj

theorem fire (hs : Recorded s) (ws : List Wait) :
    Recorded { s with fired := s.fired ++ ws } where
  shown := hs.shown
  past := hs.past
  tstart := hs.tstart
  tested i hi := by
    obtain ⟨till, hle, hmem⟩ := hs.tested i hi
    exact ⟨till, hle, List.mem_append_left _ hmem⟩

/-- The first node of the buffer shows the instant recorded for it. -/
theorem head_shown (hs : Recorded s) {b : SegBuf} (hb : s.tcb.sendBuf.head? = some b) :
    ∃ m, s.handed.head? = some m ∧ shownTime m = b.sentTime ∧ ∀ t ∈ m, t ≤ s.now := by
  obtain ⟨bs, hbs⟩ := List.head?_eq_some_iff.mp hb
  have hshown := hs.shown
  rw [hbs] at hshown
  obtain ⟨m, handed, hhanded, hm, _⟩ := List.map_eq_cons_iff.mp hshown
  refine ⟨m, by rw [hhanded]; rfl, hm, ?_⟩
  rintro t rfl
  apply hs.past t
  rw [hhanded]
  exact List.mem_cons_self

theorem headWait_eq {m : Option ℕ} (h : s.handed.head? = some m) :
    s.headWait = [⟨m, s.now, dataTimeout * nsToMicroseconds⟩] := by
  simp [Clocked.headWait, h]

theorem readClock (hs : Recorded s) {i : ℕ} (h : s.step (.readClock i) = some t) :
    Recorded t := by
  obtain ⟨u, hu, rfl⟩ := Option.map_eq_some_iff.mp h
  cases (Timed.steps_of_step hu).2 with
  | readClock _ _ b hi hb =>
    constructor
    · exact hs.shown
    · exact hs.past
    · exact hs.tstart
    · intro j hj
      dsimp only at hj ⊢
      by_cases hij : j = i
      · subst hij
        obtain ⟨m, hm, _, _⟩ := hs.head_shown hb
        rw [if_pos rfl, if_pos hj, headWait_eq hm, hm]
        exact ⟨s.now, Nat.le_refl _, by simp⟩
      · rw [List.getElem?_set_ne (Ne.symm hij)] at hj
        obtain ⟨till, hle, hmem⟩ := hs.tested j hj
        rw [if_neg hij]
        exact ⟨till, hle, List.mem_append_left _ hmem⟩

theorem step (hs : Recorded s) {e : Clocked.Event} (h : s.step e = some t) : Recorded t := by
  cases e with
  | wait gap => exact Option.some.inj h ▸ hs.later gap
  | silent e =>
    simp only [Clocked.step] at h
    split at h
    next he =>
      obtain ⟨u, hu, rfl⟩ := Option.map_eq_some_iff.mp h
      exact hs.keep (.silent he hu) rfl rfl (List.Subset.refl _) (Nat.le_refl _) hs.tstart
    next => contradiction
  | connect nodeID serverPort sendOk gap =>
    obtain ⟨u, hu, rfl⟩ := Clocked.of_quiet h
    exact hs.keep (.api rfl hu) rfl rfl (List.Subset.refl _) (Nat.le_add_right _ _)
      (Nat.le_refl _)
  | pollSyn sendOk gap gap' =>
    obtain ⟨u, hu, rfl⟩ := Clocked.of_quiet h
    split
    next =>
      exact hs.keep (.api rfl hu) rfl rfl (List.Subset.refl _)
        (Nat.le_add_right_of_le (Nat.le_add_right _ _)) (Nat.le_add_right _ _)
    next => exact hs
  | connectReturn =>
    obtain ⟨u, hu, rfl⟩ := Clocked.of_quiet h
    exact hs.keep (.api rfl hu) rfl rfl (List.Subset.refl _) (Nat.le_refl _) hs.tstart
  | disconnect sendOk gap =>
    obtain ⟨u, hu, rfl⟩ := Clocked.of_quiet h
    exact hs.keep (.api rfl hu) rfl rfl (List.Subset.refl _) (Nat.le_add_right _ _)
      (Nat.le_refl _)
  | pollFin sendOk gap gap' =>
    obtain ⟨u, hu, rfl⟩ := Clocked.of_quiet h
    split
    next =>
      exact hs.keep (.api rfl hu) rfl rfl (List.subset_append_left _ _)
        (Nat.le_add_right_of_le (Nat.le_add_right _ _)) (Nat.le_add_right _ _)
    next => exact hs
  | disconnectReturn =>
    obtain ⟨u, hu, rfl⟩ := Clocked.of_quiet h
    exact hs.keep (.api rfl hu) rfl rfl (List.Subset.refl _) (Nat.le_refl _) hs.tstart
  | sendReturn gaps failed =>
    apply hs.sendMax h
    intro r hr
    simp only [Socket.step] at hr
    split at hr
    next =>
      obtain ⟨q, hq, rfl⟩ := Option.map_eq_some_iff.mp hr
      exact ⟨q, hq, rfl⟩
    next => contradiction
  | sendMaxSegments gaps failed =>
    apply hs.sendMax h
    intro r hr
    obtain ⟨q, hq, rfl⟩ := Option.map_eq_some_iff.mp hr
    exact ⟨q, hq, rfl⟩
  | readClock i => exact hs.readClock h
  | resend i gaps failed =>
    obtain ⟨u, hu, rfl⟩ := Option.map_eq_some_iff.mp h
    have hfire := (hs.resend hu).fire s.headWait
    obtain ⟨v, _, rfl⟩ := Option.map_eq_some_iff.mp hu
    exact hfire

end Recorded

/-- On the clock the threads take the steps they take without it. Three kinds of steps end a
wait by a timeout, and two give a call up. -/
structure Effects (s : Clocked) (e : Clocked.Event) (t : Clocked) : Prop where
  timed : t.timed = s.timed ∨ ∃ b, s.timed.step b = some t.timed
  fired : t.fired = s.fired ∨ (∃ sendOk gap gap', e = .pollFin sendOk gap gap') ∨
    (∃ i, e = .readClock i) ∨ ∃ i gaps failed, e = .resend i gaps failed
  gaveUp : t.gaveUp = s.gaveUp ∨ e = .connectReturn ∨ e = .disconnectReturn

theorem effects_of_step {s t : Clocked} {e : Clocked.Event} (h : s.step e = some t) :
    Effects s e t := by
  cases e with
  | wait gap =>
    obtain rfl := Option.some.inj h
    exact ⟨.inl rfl, .inl rfl, .inl rfl⟩
  | silent e =>
    simp only [Clocked.step] at h
    split at h
    · obtain ⟨u, hu, rfl⟩ := Option.map_eq_some_iff.mp h
      exact ⟨.inr ⟨_, hu⟩, .inl rfl, .inl rfl⟩
    · contradiction
  | connect nodeID serverPort sendOk gap =>
    obtain ⟨u, hu, rfl⟩ := Clocked.of_quiet h
    exact ⟨.inr ⟨_, hu⟩, .inl rfl, .inl rfl⟩
  | pollSyn sendOk gap gap' =>
    obtain ⟨u, hu, rfl⟩ := Clocked.of_quiet h
    split
    · exact ⟨.inr ⟨_, hu⟩, .inl rfl, .inl rfl⟩
    · exact ⟨.inl rfl, .inl rfl, .inl rfl⟩
  | connectReturn =>
    obtain ⟨u, hu, rfl⟩ := Clocked.of_quiet h
    exact ⟨.inr ⟨_, hu⟩, .inl rfl, .inr (.inl rfl)⟩
  | disconnect sendOk gap =>
    obtain ⟨u, hu, rfl⟩ := Clocked.of_quiet h
    exact ⟨.inr ⟨_, hu⟩, .inl rfl, .inl rfl⟩
  | pollFin sendOk gap gap' =>
    obtain ⟨u, hu, rfl⟩ := Clocked.of_quiet h
    split
    · exact ⟨.inr ⟨_, hu⟩, .inr (.inl ⟨_, _, _, rfl⟩), .inl rfl⟩
    · exact ⟨.inl rfl, .inl rfl, .inl rfl⟩
  | disconnectReturn =>
    obtain ⟨u, hu, rfl⟩ := Clocked.of_quiet h
    exact ⟨.inr ⟨_, hu⟩, .inl rfl, .inr (.inr rfl)⟩
  | sendReturn gaps failed =>
    obtain ⟨u, hu, rfl⟩ := Option.map_eq_some_iff.mp h
    exact ⟨.inr ⟨_, hu⟩, .inl rfl, .inl rfl⟩
  | sendMaxSegments gaps failed =>
    obtain ⟨u, hu, rfl⟩ := Option.map_eq_some_iff.mp h
    exact ⟨.inr ⟨_, hu⟩, .inl rfl, .inl rfl⟩
  | readClock i =>
    obtain ⟨u, hu, rfl⟩ := Option.map_eq_some_iff.mp h
    exact ⟨.inr ⟨_, hu⟩, .inr (.inr (.inl ⟨_, rfl⟩)), .inl rfl⟩
  | resend i gaps failed =>
    obtain ⟨v, hv, rfl⟩ := Option.map_eq_some_iff.mp h
    obtain ⟨u, hu, rfl⟩ := Option.map_eq_some_iff.mp hv
    exact ⟨.inr ⟨_, hu⟩, .inr (.inr (.inr ⟨_, _, _, rfl⟩)), .inl rfl⟩

theorem reachable_timed {nodeID clientPort : UInt32} {ok : Clocked → Clocked.Event → Prop}
    {s : Clocked} (h : (clockedMachine nodeID clientPort).Reachable ok s) :
    (timedMachine nodeID clientPort).Reachable (fun _ _ => True) s.timed := by
  apply h.project
  · rintro _ ⟨now, rfl⟩
    rfl
  · exact fun s e t hstep => (effects_of_step hstep).timed

theorem reachable_recorded {nodeID clientPort : UInt32} {ok : Clocked → Clocked.Event → Prop}
    {s : Clocked} (h : (clockedMachine nodeID clientPort).Reachable ok s) : Recorded s := by
  apply h.invariant
  · rintro _ ⟨now, rfl⟩
    constructor <;> simp [Socket.fresh, srtClientSock]
  · intro s e t hs _ hstep
    exact hs.step hstep

end DartNet.Client
