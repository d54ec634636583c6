import DartNet.Srt.Clocked
import DartNet.Srt.CloseWait

/-! When a timeout fires too early. `srt_client_disconnect`, `closeWaitTimer` and `sendBuf_timer`
subtract readings that start again with every second. -/
namespace DartNet
open Transition Clock

namespace Client

theorem shown_lt (t : ℕ) : (shownTime (some t)).toNat < nanosecondsPerSecond := by
  rw [shownTime, toNat_micros]
  exact reading_lt (by decide) t

/-- `currentTime` is what a node handed over now would show. -/
theorem timedOut_iff (t : ℕ) (sentTime : UInt64) :
    timedOut (currentUtcTimeNs t) sentTime = true ↔
      Fires dataTimeout sentTime.toNat (shownTime (some t)).toNat := by
  have hlt := shown_lt t
  have hcur : (currentUtcTimeNs t / UInt64.ofNat nsToMicroseconds).toUInt32.toUInt64 =
      shownTime (some t) := by
    apply UInt64.toNat_inj.mp
    rw [UInt32.toNat_toUInt64, UInt64.toNat_toUInt32]
    apply Nat.mod_eq_of_lt
    exact Nat.lt_trans hlt (by decide)
  simp only [timedOut, hcur, decide_eq_true_eq, UInt64.lt_iff_toNat_lt, Fires]
  constructor
  · rintro (h | h)
    · exact .inl h
    · rcases Nat.lt_or_ge (shownTime (some t)).toNat sentTime.toNat with hlt | hge
      · exact .inl hlt
      · rw [UInt64.toNat_sub_of_le _ _ (UInt64.le_iff_toNat_le.mpr hge)] at h
        exact .inr h
  · rintro (h | h)
    · exact .inl h
    · have hge : sentTime.toNat ≤ (shownTime (some t)).toNat := by omega
      rw [UInt64.toNat_sub_of_le _ _ (UInt64.le_iff_toNat_le.mpr hge)]
      exact .inr h

namespace Clocked

/-- A reading of the clock against the first node of the buffer: within the timeout it does not
show less than the node does, and if the node was never sent it shows no timeout. -/
def HeadInTime (now : ℕ) : Option ℕ → Prop
  | some t => now ≤ t + dataTimeout * nsToMicroseconds → shownTime (some t) ≤ shownTime (some now)
  | none => (shownTime (some now)).toNat ≤ dataTimeout

instance (now : ℕ) (m : Option ℕ) : Decidable (HeadInTime now m) := by
  rcases m with _ | _ <;> dsimp only [HeadInTime] <;> infer_instance

/-- The clock shows no less than when a wait began, until the wait is over. A thread that timed
out finds the node at the head that it tested, not sent again since, or another one whose own
wait is over. -/
def InTime (s : Clocked) : Event → Prop
  | .pollFin _ _ _ =>
    s.now ≤ s.tstart + finTimeout → currentUtcTimeNs s.tstart ≤ currentUtcTimeNs s.now
  | .readClock _ => ∀ m ∈ s.handed.head?, HeadInTime s.now m
  | .resend i _ _ => ∀ m ∈ s.handed.head?,
    m = s.tested i ∨ (⟨m, s.now, dataTimeout * nsToMicroseconds⟩ : Wait).Full
  | _ => True

instance (s : Clocked) (e : Event) : Decidable (InTime s e) := by
  rcases e with _ | _ | _ | _ | _ | _ | _ | _ | _ | _ | _ | _ <;> dsimp only [InTime] <;>
    infer_instance

theorem headInTime_iff {now : ℕ} {m : Option ℕ} (hm : ∀ t ∈ m, t ≤ now) :
    (timedOut (currentUtcTimeNs now) (shownTime m) = true →
      (⟨m, now, dataTimeout * nsToMicroseconds⟩ : Wait).Full) ↔ HeadInTime now m := by
  rw [timedOut_iff]
  cases m with
  | none =>
    simp only [Fires, shownTime, UInt64.toNat_zero, Nat.not_lt_zero, false_or, Nat.sub_zero,
      Wait.not_full_none, imp_false, Nat.not_lt]
    rfl
  | some t =>
    have hunit : 0 < nsToMicroseconds := by decide
    have h := fires_full_iff nanosecondsPerSecond dataTimeout hunit (hm t rfl)
    rw [Wait.full_some, HeadInTime, UInt64.le_iff_toNat_le]
    simp only [shownTime, toNat_micros]
    exact h

theorem pollFin_inTime {s t : Clocked} (hs : Recorded s) (hfull : AllFull s.fired)
    {sendOk : Bool} {gap gap' : ℕ} (h : s.step (.pollFin sendOk gap gap') = some t) :
    AllFull t.fired ↔ InTime s (.pollFin sendOk gap gap') := by
  have hlimit : finTimeout ≤ nanosecondsPerSecond := by decide
  have hiff := elapsed_full_iff hlimit hs.tstart
  obtain ⟨u, _, rfl⟩ := of_quiet h
  simp only [InTime, ← hiff]
  split
  next hfires =>
    have hfires : finTimeout < (currentUtcTimeNs s.now - currentUtcTimeNs s.tstart).toNat := by
      simpa [finTimedOut] using hfires
    simp [hfull, hfires]
  next hnot =>
    have hnot : ¬ finTimeout < (currentUtcTimeNs s.now - currentUtcTimeNs s.tstart).toNat := by
      simpa [finTimedOut] using hnot
    simp [hfull, hnot]

theorem readClock_inTime {s t : Clocked} (hs : Recorded s) (hfull : AllFull s.fired) {i : ℕ}
    (h : s.step (.readClock i) = some t) : AllFull t.fired ↔ InTime s (.readClock i) := by
  obtain ⟨u, hu, rfl⟩ := Option.map_eq_some_iff.mp h
  cases (Timed.steps_of_step hu).2 with
  | readClock _ _ b hi hb =>
    obtain ⟨m, hm, hshown, hpast⟩ := hs.head_shown hb
    obtain ⟨hlt, _⟩ := List.getElem?_eq_some_iff.mp hi
    simp only [InTime, hm, Option.mem_some_iff, forall_eq', ← headInTime_iff hpast, hshown,
      allFull_append, hfull, true_and, Recorded.headWait_eq hm, List.getElem?_set_self hlt]
    by_cases hfires : timedOut (currentUtcTimeNs s.now) b.sentTime = true
    · simp [hfires]
    · simp [hfires]

theorem resend_inTime {s t : Clocked} (hs : Recorded s) (hfull : AllFull s.fired) {i : ℕ}
    {gaps : ℕ → ℕ} {failed : List ℕ} (h : s.step (.resend i gaps failed) = some t) :
    AllFull t.fired ↔ InTime s (.resend i gaps failed) := by
  obtain ⟨u, hu, rfl⟩ := Option.map_eq_some_iff.mp h
  obtain ⟨v, hv, rfl⟩ := Option.map_eq_some_iff.mp hu
  cases (Timed.steps_of_step hv).2 with
  | resend _ _ r hi _ =>
    obtain ⟨till, hle, hmem⟩ := hs.tested i hi
    have htested := (hfull _ hmem).mono hle
    cases hm : s.handed.head? with
    | none => simp [InTime, headWait, hm, hfull]
    | some m =>
      simp only [InTime, hm, Option.mem_some_iff, forall_eq', allFull_append, hfull, true_and,
        Recorded.headWait_eq hm, allFull_singleton]
      constructor
      · exact fun hw => .inr hw
      · rintro (rfl | hw)
        · exact htested
        · exact hw

/-- A step keeps all waits full exactly if it is in time. -/
theorem step_inTime {s t : Clocked} (hs : Recorded s) (hfull : AllFull s.fired) {e : Event}
    (h : s.step e = some t) : AllFull t.fired ↔ InTime s e := by
  cases e with
  | pollFin sendOk gap gap' => exact pollFin_inTime hs hfull h
  | readClock i => exact readClock_inTime hs hfull h
  | resend i gaps failed => exact resend_inTime hs hfull h
  | _ =>
    have hfired : t.fired = s.fired := by simpa using (effects_of_step h).fired
    rw [hfired]
    exact iff_of_true hfull trivial

end Clocked
end Client

namespace Srt

/-- In every run whose steps are in time, no timeout of a client or a server fires early, and a
step that is not in time is the one at which a timeout does. -/
theorem timeouts_in_time (nodeID port : UInt32) :
    (∀ s, (Client.clockedMachine nodeID port).Reachable Client.Clocked.InTime s →
      AllFull s.fired) ∧
    (∀ s, (Server.clockedMachine nodeID port).Reachable Server.Clocked.InTime s →
      AllFull s.fired) ∧
    (∀ s e t, (Client.clockedMachine nodeID port).Reachable (fun _ _ => True) s →
      AllFull s.fired → s.step e = some t → (AllFull t.fired ↔ Client.Clocked.InTime s e)) ∧
    ∀ s e t, (Server.clockedMachine nodeID port).Reachable (fun _ _ => True) s →
      AllFull s.fired → s.step e = some t → (AllFull t.fired ↔ Server.Clocked.InTime s e) := by
  refine ⟨?_, ?_, ?_, ?_⟩
  · intro s h
    apply h.invariant_of (J := Client.Recorded) (I := fun s => AllFull s.fired)
    · exact fun s hs => Client.reachable_recorded hs
    · rintro _ ⟨now, rfl⟩
      exact allFull_nil
    · exact fun s e t hs hfull hok hstep => (Client.Clocked.step_inTime hs hfull hstep).mpr hok
  · intro s h
    apply h.invariant_of (J := Server.Clocked.Started) (I := fun s => AllFull s.fired)
    · exact fun s hs => Server.Clocked.reachable_started hs
    · rintro _ ⟨now, rfl⟩
      exact allFull_nil
    · exact fun s e t hs hfull hok hstep => (Server.Clocked.step_inTime hs hfull hstep).mpr hok
  · intro s e t hs hfull hstep
    exact Client.Clocked.step_inTime (Client.reachable_recorded hs) hfull hstep
  · intro s e t hs hfull hstep
    exact Server.Clocked.step_inTime (Server.Clocked.reachable_started hs) hfull hstep

/-- A connection to port 80 of node 2. -/
def connection : List Client.Clocked.Event :=
  [.connect 2 80 true 0,
    .silent (.socket (.segment 2 ⟨⟨80, 4000, 0, 0, 0, SegType.synack, 0, 0⟩, .replicate _ 0⟩)),
    .connectReturn]

/-- The `FIN` is sent again when half a second has passed. -/
def finInTime : List Client.Clocked.Event :=
  connection ++ [.disconnect true 0, .wait 500000001, .pollFin true 0 0]

/-- The thread wakes up more than half a second after the byte was sent, and sends it again. -/
def dataInTime : List Client.Clocked.Event :=
  connection ++ [.silent (.socket (.api (.send [7]))), .silent (.socket (.api .queueSegment)),
    .sendReturn (fun _ => 0) [], .wait 500001000, .silent (.test 0), .readClock 0,
    .resend 0 (fun _ => 0) []]

/-- The server closes a second after the thread was started, when the next one begins. -/
def closeInTime : List Server.Clocked.Event :=
  [.api .accept,
    .segment 1 ⟨⟨4000, 80, 0, 0, 0, SegType.syn, 0, 0⟩, .replicate _ 0⟩,
    .api .acceptReturn,
    .segment 1 ⟨⟨4000, 80, 0, 0, 0, SegType.fin, 0, 0⟩, .replicate _ 0⟩,
    .start 0, .wait 1000001000, .poll 0]

theorem timeouts_in_time_run :
    (∀ es ∈ [finInTime, dataInTime], ∃ s, (Client.clockedMachine 1 4000).run Client.Clocked.InTime
        ⟨⟨.fresh 1 4000, [], false⟩, 0, 0, 0, [], fun _ => none, [], []⟩ es = some s ∧
      s.fired ≠ [] ∧ AllFull s.fired) ∧
    ∃ s, (Server.clockedMachine 2 80).run Server.Clocked.InTime
        ⟨.fresh 2 80, 999999000, [], []⟩ closeInTime = some s ∧
      s.fired ≠ [] ∧ AllFull s.fired := by
  constructor
  · intro es hes
    have hdone : ((Client.clockedMachine 1 4000).run Client.Clocked.InTime
        ⟨⟨.fresh 1 4000, [], false⟩, 0, 0, 0, [], fun _ => none, [], []⟩ es).any
          (fun s => decide (s.fired ≠ [])) = true := by
      rcases List.mem_pair.mp hes with rfl | rfl <;> decide +kernel
    obtain ⟨s, hrun, hs, hfired⟩ := (Client.clockedMachine 1 4000).exists_of_run
      Client.Clocked.InTime ⟨0, rfl⟩ es hdone
    exact ⟨s, hrun, hfired, (timeouts_in_time 1 4000).1 s hs⟩
  · obtain ⟨s, hrun, hs, hfired⟩ := (Server.clockedMachine 2 80).exists_of_run
      Server.Clocked.InTime ⟨999999000, rfl⟩ closeInTime (P := fun s => s.fired ≠ [])
      (by decide +kernel)
    exact ⟨s, hrun, hfired, (timeouts_in_time 2 80).2.1 s hs⟩

/-- The `FIN` is sent again a microsecond after the first one. -/
def finAtSecond : List Client.Clocked.Event :=
  connection ++ [.disconnect true 0, .wait 1000, .pollFin true 0 0]

/-- The thread wakes up 50 milliseconds after the byte was sent, and sends it again. -/
def dataAtSecond : List Client.Clocked.Event :=
  connection ++ [.silent (.socket (.api (.send [7]))), .silent (.socket (.api .queueSegment)),
    .sendReturn (fun _ => 0) [], .wait 50000000, .silent (.test 0), .readClock 0,
    .resend 0 (fun _ => 0) []]

/-- The server closes a microsecond after the thread was started. -/
def closeAtSecond : List Server.Clocked.Event :=
  [.api .accept,
    .segment 1 ⟨⟨4000, 80, 0, 0, 0, SegType.syn, 0, 0⟩, .replicate _ 0⟩,
    .api .acceptReturn,
    .segment 1 ⟨⟨4000, 80, 0, 0, 0, SegType.fin, 0, 0⟩, .replicate _ 0⟩,
    .start 0, .wait 1000, .poll 0]

/-- All three timeouts fire early when a second ends. -/
theorem fires_at_second :
    (∃ s, (Client.clockedMachine 1 4000).run (fun _ _ => True)
        ⟨⟨.fresh 1 4000, [], false⟩, 999999000, 999999000, 999999000, [], fun _ => none, [], []⟩
        finAtSecond = some s ∧
      (Client.clockedMachine 1 4000).Reachable (fun _ _ => True) s ∧ ¬ AllFull s.fired) ∧
    (∃ s, (Client.clockedMachine 1 4000).run (fun _ _ => True)
        ⟨⟨.fresh 1 4000, [], false⟩, 960000000, 960000000, 960000000, [], fun _ => none, [], []⟩
        dataAtSecond = some s ∧
      (Client.clockedMachine 1 4000).Reachable (fun _ _ => True) s ∧ ¬ AllFull s.fired) ∧
    ∃ s, (Server.clockedMachine 2 80).run (fun _ _ => True) ⟨.fresh 2 80, 999999000, [], []⟩
        closeAtSecond = some s ∧
      (Server.clockedMachine 2 80).Reachable (fun _ _ => True) s ∧ ¬ AllFull s.fired :=
  ⟨(Client.clockedMachine 1 4000).exists_of_run _ ⟨_, rfl⟩ _ (by decide +kernel),
    (Client.clockedMachine 1 4000).exists_of_run _ ⟨_, rfl⟩ _ (by decide +kernel),
    (Server.clockedMachine 2 80).exists_of_run _ ⟨_, rfl⟩ _ (by decide +kernel)⟩

end Srt
end DartNet
