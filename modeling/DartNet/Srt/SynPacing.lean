import DartNet.Srt.Retries

/-! How many `SYN`s `srt_client_connect` sends, and how far apart. Its loop adds a second to a
reading that shows less than `tstart`, however many seconds have begun since. -/
namespace DartNet.Client
open Transition Clock

theorem natAbs_toInt64 {x : UInt64} (h : x.toNat < 9223372036854775808) :
    x.toInt64.toInt.natAbs = x.toNat := by
  show x.toBitVec.toInt.natAbs = x.toBitVec.toNat
  rw [BitVec.toInt_eq_toNat_of_lt (by show 2 * x.toNat < _; omega), Int.natAbs_natCast]

/-- The loop sees the time elapsed without its whole seconds. -/
theorem synTimedOut_iff {s t : ℕ} (hst : s ≤ t) :
    synTimedOut (currentUtcTimeNs t) (currentUtcTimeNs s) = true ↔
      synTimeout < (t - s) % nanosecondsPerSecond := by
  have helapsed := Nat.mod_lt (t - s) (y := nanosecondsPerSecond) (by decide)
  rw [← toNat_corrected hst] at helapsed ⊢
  rw [synTimedOut, decide_eq_true_eq, natAbs_toInt64]
  apply Nat.lt_trans helapsed
  decide

theorem synTimedOut_elapsed {s t : ℕ} (hst : s ≤ t)
    (h : synTimedOut (currentUtcTimeNs t) (currentUtcTimeNs s) = true) : s + synTimeout < t := by
  have hmod := Nat.mod_le (t - s) nanosecondsPerSecond
  have hlt := (synTimedOut_iff hst).mp h
  omega

/-- A socket on the clock with a history: the instants `tstart` was taken at for the `SYN`s of the
last `srt_client_connect`, the latest first, and for each `SYN` sent again, in any call, the
wait since the timestamp before it. -/
structure Paced where
  clocked : Clocked
  syns : List ℕ
  resends : List Wait

namespace Paced

def step (s : Paced) (e : Clocked.Event) : Option Paced :=
  (s.clocked.step e).map fun t =>
    match e with
    | .connect _ _ _ _ => { s with clocked := t, syns := [t.tstart] }
    | .pollSyn _ _ _ =>
      if synTimedOut (currentUtcTimeNs s.clocked.now) (currentUtcTimeNs s.clocked.tstart) then
        { clocked := t
          syns := t.tstart :: s.syns
          resends := s.resends ++ [⟨s.syns.head?, t.sentAt, synTimeout⟩] }
      else { s with clocked := t }
    | _ => { s with clocked := t }

end Paced

def pacedMachine (nodeID clientPort : UInt32) : Machine Paced Clocked.Event where
  Init s := (clockedMachine nodeID clientPort).Init s.clocked ∧ s.syns = [] ∧ s.resends = []
  step := Paced.step

/-- Only `srt_client_connect` begins or goes on with its own loop. -/
theorem connect_call {s : Socket} {a : Action} {r : Socket × List Seg} {syn : Seg} {tries : ℕ}
    (h : s.step a = some r) (hcall : r.1.call = .connect syn tries) :
    (∃ nodeID serverPort sendOk, a = .connect nodeID serverPort sendOk) ∨
      (∃ sendOk, a = .resendSyn sendOk) ∨ s.call = .connect syn tries := by
  cases steps_of_step h with
  | connect nodeID serverPort sendOk _ _ => exact .inl ⟨_, _, _, rfl⟩
  | resendSyn sendOk _ _ _ _ => exact .inr (.inl ⟨_, rfl⟩)
  | disconnect sendOk _ _ _ => cases sendOk <;> contradiction
  | resendFin sendOk _ _ _ _ => cases sendOk <;> contradiction
  | sendNothing _ => exact .inr (.inr hcall)
  | sendMaxSegments _ _ _ => exact .inr (.inr hcall)
  | sendBufTimer _ _ _ => exact .inr (.inr hcall)
  | _ => contradiction

/-- A thread step that is no step of `srt_client_connect` leaves its loop as it is. -/
theorem Timed.connect_call {s t : Timed} {e : Timed.Event} {syn : Seg} {tries : ℕ}
    (h : s.step e = some t) (hcall : t.socket.call = .connect syn tries) :
    (∃ nodeID serverPort sendOk, e = .socket (.api (.connect nodeID serverPort sendOk))) ∨
      (∃ sendOk, e = .socket (.api (.resendSyn sendOk))) ∨
        s.socket.call = .connect syn tries := by
  cases (Timed.steps_of_step h).2 with
  | api a r hr => simpa using Client.connect_call hr hcall
  | segment srcNodeID seg u hu =>
    obtain ⟨r, _, rfl⟩ := receive_handles hu
    exact .inr (.inr hcall)
  | resend i env r _ hr => simpa using Client.connect_call hr hcall
  | _ => exact .inr (.inr hcall)

/-- Nor does any other step on the clock. -/
theorem Clocked.connect_call {s t : Clocked} {e : Clocked.Event} {syn : Seg} {tries : ℕ}
    (h : s.step e = some t) (hcall : t.timed.socket.call = .connect syn tries) :
    (∃ nodeID serverPort sendOk gap, e = .connect nodeID serverPort sendOk gap) ∨
      (∃ sendOk gap gap', e = .pollSyn sendOk gap gap') ∨
        (s.timed.socket.call = .connect syn tries ∧ t.tstart = s.tstart) := by
  cases e with
  | wait gap =>
    obtain rfl := Option.some.inj h
    exact .inr (.inr ⟨hcall, rfl⟩)
  | silent e =>
    simp only [Clocked.step] at h
    split at h
    next he =>
      obtain ⟨u, hu, rfl⟩ := Option.map_eq_some_iff.mp h
      rcases Timed.connect_call hu hcall with ⟨_, _, _, rfl⟩ | ⟨_, rfl⟩ | hs
      · contradiction
      · contradiction
      · exact .inr (.inr ⟨hs, rfl⟩)
    next => contradiction
  | connect nodeID serverPort sendOk gap => exact .inl ⟨_, _, _, _, rfl⟩
  | pollSyn sendOk gap gap' => exact .inr (.inl ⟨_, _, _, rfl⟩)
  | connectReturn =>
    obtain ⟨u, hu, rfl⟩ := Clocked.of_quiet h
    exact .inr (.inr ⟨by simpa using Timed.connect_call hu hcall, rfl⟩)
  | disconnect sendOk gap =>
    obtain ⟨u, hu, rfl⟩ := Clocked.of_quiet h
    cases (Timed.steps_of_step hu).2 with
    | api _ r hr =>
      cases steps_of_step hr with
      | disconnect _ _ _ _ => cases sendOk <;> contradiction
  | pollFin sendOk gap gap' =>
    obtain ⟨u, hu, rfl⟩ := Clocked.of_quiet h
    split at hcall
    next =>
      cases (Timed.steps_of_step hu).2 with
      | api _ r hr =>
        cases steps_of_step hr with
        | resendFin _ _ _ _ _ => cases sendOk <;> contradiction
    next hnot =>
      rw [if_neg hnot]
      exact .inr (.inr ⟨hcall, rfl⟩)
  | disconnectReturn =>
    obtain ⟨u, hu, rfl⟩ := Clocked.of_quiet h
    exact .inr (.inr ⟨by simpa using Timed.connect_call hu hcall, rfl⟩)
  | sendReturn gaps failed =>
    obtain ⟨u, hu, rfl⟩ := Option.map_eq_some_iff.mp h
    exact .inr (.inr ⟨by simpa using Timed.connect_call hu hcall, rfl⟩)
  | sendMaxSegments gaps failed =>
    obtain ⟨u, hu, rfl⟩ := Option.map_eq_some_iff.mp h
    exact .inr (.inr ⟨by simpa using Timed.connect_call hu hcall, rfl⟩)
  | readClock i =>
    obtain ⟨u, hu, rfl⟩ := Option.map_eq_some_iff.mp h
    exact .inr (.inr ⟨by simpa using Timed.connect_call hu hcall, rfl⟩)
  | resend i gaps failed =>
    obtain ⟨v, hv, rfl⟩ := Option.map_eq_some_iff.mp h
    obtain ⟨u, hu, rfl⟩ := Option.map_eq_some_iff.mp hv
    exact .inr (.inr ⟨by simpa using Timed.connect_call hu hcall, rfl⟩)

namespace Paced

/-- The call in progress has sent one `SYN` and one for each retry, the last one at `tstart`. -/
structure Ok (s : Paced) : Prop where
  call : ∀ syn tries, s.clocked.timed.socket.call = .connect syn tries →
    s.syns.length = 1 + tries ∧ s.syns.head? = some s.clocked.tstart
  sent : s.syns.length ≤ 1 + synMaxRetry
  waited : AllFull s.resends

theorem Ok.connect {s t : Paced} (hs : s.Ok) {nodeID serverPort : UInt32} {sendOk : Bool}
    {gap : ℕ} (h : s.step (.connect nodeID serverPort sendOk gap) = some t) : t.Ok := by
  obtain ⟨c, hc, rfl⟩ := Option.map_eq_some_iff.mp h
  obtain ⟨u, hu, rfl⟩ := Clocked.of_quiet hc
  constructor
  · intro syn tries hcall
    cases (Timed.steps_of_step hu).2 with
    | api _ r hr =>
      cases steps_of_step hr with
      | connect _ _ _ _ _ =>
        cases sendOk with
        | false => contradiction
        | true =>
          cases hcall
          exact ⟨rfl, rfl⟩
  · show 1 ≤ 1 + synMaxRetry
    exact Nat.le_add_right _ _
  · exact hs.waited

/-- A `SYN` is sent again only behind a timeout, and only while there are retries left. -/
theorem Ok.pollSyn {s t : Paced} (hs : s.Ok) (hrec : Recorded s.clocked) {sendOk : Bool}
    {gap gap' : ℕ} (h : s.step (.pollSyn sendOk gap gap') = some t) : t.Ok := by
  obtain ⟨c, hc, rfl⟩ := Option.map_eq_some_iff.mp h
  obtain ⟨u, hu, rfl⟩ := Clocked.of_quiet hc
  cases (Timed.steps_of_step hu).2 with
  | api _ r hr =>
    cases steps_of_step hr with
    | resendSyn _ syn tries hcall _ =>
      have hlt := lt_of_resendSyn hcall hr
      obtain ⟨hlen, hhead⟩ := hs.call syn tries hcall
      dsimp only
      split
      next hfires =>
        constructor
        · intro syn' tries' hcall'
          cases sendOk with
          | false => contradiction
          | true =>
            cases hcall'
            exact ⟨by rw [List.length_cons, hlen, Nat.add_assoc], rfl⟩
        · rw [List.length_cons, hlen]
          omega
        · have helapsed := synTimedOut_elapsed hrec.tstart hfires
          rw [allFull_append, allFull_singleton, hhead, Wait.full_some]
          exact ⟨hs.waited, helapsed.trans_le (Nat.le_add_right_of_le (Nat.le_add_right _ _))⟩
      next => exact ⟨hs.call, hs.sent, hs.waited⟩

theorem Ok.step {s t : Paced} (hs : s.Ok) (hrec : Recorded s.clocked) {e : Clocked.Event}
    (h : s.step e = some t) : t.Ok := by
  cases e with
  | connect nodeID serverPort sendOk gap => exact hs.connect h
  | pollSyn sendOk gap gap' => exact hs.pollSyn hrec h
  | _ =>
    obtain ⟨c, hc, rfl⟩ := Option.map_eq_some_iff.mp h
    constructor
    · intro syn tries hcall
      obtain ⟨hcall, htstart⟩ : s.clocked.timed.socket.call = .connect syn tries ∧
          c.tstart = s.clocked.tstart := by simpa using Clocked.connect_call hc hcall
      obtain ⟨hlen, hhead⟩ := hs.call syn tries hcall
      exact ⟨hlen, hhead.trans (congrArg some htstart.symm)⟩
    · exact hs.sent
    · exact hs.waited

theorem reachable_clocked {nodeID clientPort : UInt32} {ok : Paced → Clocked.Event → Prop}
    {s : Paced} (h : (pacedMachine nodeID clientPort).Reachable ok s) :
    (clockedMachine nodeID clientPort).Reachable (fun _ _ => True) s.clocked := by
  apply h.project
  · exact fun _ hs => hs.1
  · intro s e t hstep
    obtain ⟨c, hc, rfl⟩ := Option.map_eq_some_iff.mp hstep
    refine .inr ⟨e, hc.trans (congrArg some ?_)⟩
    cases e with
    | pollSyn sendOk gap gap' => dsimp only; split <;> rfl
    | _ => rfl

/-- Whatever instants the clock shows and whenever a `SYNACK` comes, no call sends more than one
`SYN` and `SYN_MAX_RETRY` more, and each of these is sent more than `SYN_TIMEOUT` after the
timestamp of the one before it. -/
theorem syns_paced (nodeID clientPort : UInt32) {s : Paced}
    (h : (pacedMachine nodeID clientPort).Reachable (fun _ _ => True) s) :
    s.syns.length ≤ 1 + synMaxRetry ∧ AllFull s.resends := by
  suffices hok : s.Ok from ⟨hok.sent, hok.waited⟩
  apply h.invariant_of (J := fun s => Recorded s.clocked) (I := Paced.Ok)
  · exact fun s hs => reachable_recorded (reachable_clocked hs)
  · rintro s ⟨⟨now, hclocked⟩, hsyns, hresends⟩
    constructor
    · intro syn tries hcall
      rw [hclocked] at hcall
      contradiction
    · rw [hsyns]
      exact Nat.zero_le _
    · rw [hresends]
      exact allFull_nil
  · exact fun s e t hrec hok _ hstep => hok.step hrec hstep

/-- Several seconds begin between the `SYN`s. The poll 3.1 seconds after a timestamp sees only the
tenth of a second, and the next one, half a second later, sends again. -/
def overSeconds : List Clocked.Event :=
  [.connect 2 80 true 0, .wait 1700000000, .pollSyn true 5 5, .wait 3100000000,
    .pollSyn true 5 5, .wait 450000000, .pollSyn true 5 5]

theorem syns_paced_run : ∃ s, (pacedMachine 1 4000).run (fun _ _ => True)
      ⟨⟨⟨.fresh 1 4000, [], false⟩, 0, 0, 0, [], fun _ => none, [], []⟩, [], []⟩ overSeconds =
        some s ∧
    s.resends.length = 2 ∧ s.syns.length ≤ 1 + synMaxRetry ∧ AllFull s.resends := by
  obtain ⟨s, hrun, hs, hresends⟩ := (pacedMachine 1 4000).exists_of_run (fun _ _ => True)
    (s := ⟨⟨⟨.fresh 1 4000, [], false⟩, 0, 0, 0, [], fun _ => none, [], []⟩, [], []⟩)
    ⟨⟨0, rfl⟩, rfl, rfl⟩ overSeconds (P := fun s => s.resends.length = 2) (by decide +kernel)
  exact ⟨s, hrun, hresends, syns_paced 1 4000 hs⟩

end Paced
end DartNet.Client
