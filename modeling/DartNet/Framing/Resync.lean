import DartNet.Framing.RoundTrip

/-! The receive loop called again after every return. Whatever a frame holds, its damage
ends with the frame. -/
namespace DartNet.Framing
open Packed

theorem Rx.step_cases (s : Rx) (c : UInt8) :
    (s.storing = false ∧ ∃ state, s.step c = .more { s with state := state }) ∨
      (s.storing = true ∧ s.step c = .more (s.keep c)) ∨
        (s.storing = true ∧ s.step c = .done (s.store c).buf) := by
  rcases s with ⟨state, idx, buf⟩
  cases state with
  | start1 => left; by_cases hc : c = bang <;> simp [storing, step, hc]
  | start2 => left; simp [storing, step]
  | recv => right; left; exact ⟨rfl, rfl⟩
  | stop1 => right; by_cases hc : c = hash <;> simp [storing, step, hc]

variable {n : ℕ} (junk : Junk n)

/-- The buffer keeps its size, and nothing is counted before the start marker. -/
structure Calls.Sound (s : Calls) : Prop where
  length : s.rx.buf.length = n
  idle : s.rx.storing = false → s.rx.idx = 0

/-- Where a frame may begin. -/
structure Calls.AtStart (s : Calls) : Prop where
  length : s.rx.buf.length = n
  state : s.rx.state = .start1
  idx : s.rx.idx = 0

theorem Calls.begin_atStart (k peak : ℕ) : (Calls.begin junk k peak).AtStart (n := n) :=
  ⟨(junk k).property, rfl, rfl⟩

variable {junk} {s : Calls}

theorem Calls.AtStart.sound (hs : s.AtStart (n := n)) : s.Sound (n := n) :=
  ⟨hs.length, fun _ => hs.idx⟩

theorem Calls.AtStart.rx (hs : s.AtStart (n := n)) : s.rx = Rx.entry s.rx.buf := by
  rw [Rx.entry, ← hs.state, ← hs.idx]

theorem Calls.Sound.next (hs : s.Sound (n := n)) (c : UInt8) :
    (s.next junk c).Sound (n := n) := by
  rcases s.rx.step_cases c with ⟨hf, state, h⟩ | ⟨ht, h⟩ | ⟨_, h⟩
  · simp only [Calls.next, h]
    exact ⟨hs.length, fun _ => hs.idle hf⟩
  · simp only [Calls.next, h]
    refine ⟨by simp [Rx.keep, Rx.store, hs.length], ?_⟩
    intro hf
    simp [Rx.keep_storing] at hf
  · simp only [Calls.next, h]
    exact (Calls.begin_atStart junk _ _).sound

theorem Calls.Sound.feed (hs : s.Sound (n := n)) (bytes : List UInt8) :
    (s.feed junk bytes).Sound (n := n) := by
  induction bytes generalizing s with
  | nil => exact hs
  | cons c cs ih => exact ih (hs.next c)

/-- Whatever came before, an end marker takes the receiver back to the start of a frame. -/
theorem Calls.Sound.feed_bufend (hs : s.Sound (n := n)) :
    (s.feed junk bufend).AtStart (n := n) := by
  have hsound : (s.feed junk bufend).Sound (n := n) := hs.feed bufend
  have hstate : (s.feed junk bufend).rx.state = .start1 := by
    rcases s with ⟨call, ⟨state, idx, buf⟩, peak⟩
    cases state <;>
      simp [bufend, Calls.next, Rx.step, Rx.keep, Calls.begin, Rx.entry, bang, amp, hash]
  exact ⟨hsound.length, hstate, hsound.idle (by simp [Rx.storing, hstate])⟩

theorem Calls.Sound.feed_frame (hs : s.Sound (n := n)) (raw : List UInt8) :
    (s.feed junk (frame raw)).AtStart (n := n) := by
  rw [frame, Calls.feed_append]
  exact (hs.feed _).feed_bufend

/-- The index grows by at most one a byte. -/
theorem Calls.Sound.peak_feed (hs : s.Sound (n := n)) {bytes : List UInt8} {bound : ℕ}
    (hpeak : s.peak ≤ bound) (hidx : s.rx.idx + bytes.length ≤ bound) :
    (s.feed junk bytes).peak ≤ bound := by
  induction bytes generalizing s with
  | nil => exact hpeak
  | cons c cs ih =>
    have hlen : s.rx.idx + (cs.length + 1) ≤ bound := hidx
    apply ih (hs.next c)
    · rcases s.rx.step_cases c with ⟨hf, state, h⟩ | ⟨ht, h⟩ | ⟨ht, h⟩
      · simp only [Calls.next, h, hf]
        simp; omega
      · simp only [Calls.next, h, ht]
        simp; omega
      · simp only [Calls.next, h, ht, Calls.begin]
        simp; omega
    · rcases s.rx.step_cases c with ⟨_, state, h⟩ | ⟨_, h⟩ | ⟨_, h⟩
      · simp only [Calls.next, h]
        omega
      · simp only [Calls.next, h, Rx.keep, Rx.store]
        omega
      · simp only [Calls.next, h, Calls.begin, Rx.entry]
        omega

theorem Calls.AtStart.feed_bufstart (hs : s.AtStart (n := n)) :
    s.feed junk bufstart = ⟨s.call, ⟨.recv, 0, s.rx.buf⟩, s.peak⟩ := by
  rcases s with ⟨call, ⟨state, idx, buf⟩, peak⟩
  obtain ⟨_, rfl : state = .start1, rfl : idx = 0⟩ := hs
  simp [bufstart, Calls.next, Rx.step, Rx.storing]

theorem Calls.AtStart.peak_frame (hs : s.AtStart (n := n)) {raw : List UInt8}
    (hraw : raw.length + 2 ≤ n) (hpeak : s.peak ≤ n) :
    (s.feed junk (frame raw)).peak ≤ n := by
  rw [frame, List.append_assoc, Calls.feed_append]
  apply (hs.sound.feed bufstart).peak_feed
  · simpa [hs.feed_bufstart] using hpeak
  · simp [hs.feed_bufstart, bufend]
    omega

/-- The outputs of the calls that return during each frame. -/
def frameOuts (junk : Junk n) : Calls → List (List UInt8) → List (List (List UInt8))
  | _, [] => []
  | s, raw :: raws => s.outs junk (frame raw) :: frameOuts junk (s.feed junk (frame raw)) raws

theorem outs_frames (s : Calls) (raws : List (List UInt8)) (k : ℕ) :
    s.outs junk ((raws.take k).flatMap frame) = ((frameOuts junk s raws).take k).flatten := by
  induction raws generalizing s k with
  | nil => simp [frameOuts, Calls.outs]
  | cons raw raws ih =>
    cases k with
    | zero => rfl
    | succ k => simp [frameOuts, Calls.outs_append, ih]

theorem feed_frames (junk : Junk n) (hs : s.AtStart (n := n)) (raws : List (List UInt8)) :
    (s.feed junk (raws.flatMap frame)).AtStart (n := n) := by
  induction raws generalizing s with
  | nil => exact hs
  | cons raw raws ih =>
    rw [List.flatMap_cons, Calls.feed_append]
    exact ih (hs.sound.feed_frame raw)

theorem peak_frames (hs : s.AtStart (n := n)) (hpeak : s.peak ≤ n) {raws : List (List UInt8)}
    (hraws : ∀ raw ∈ raws, raw.length + 2 ≤ n) :
    (s.feed junk (raws.flatMap frame)).peak ≤ n := by
  induction raws generalizing s with
  | nil => exact hpeak
  | cons raw raws ih =>
    rw [List.forall_mem_cons] at hraws
    rw [List.flatMap_cons, Calls.feed_append]
    exact ih (hs.sound.feed_frame raw) (hs.peak_frame hraws.1 hpeak) hraws.2

/-- A marker-free structure is the only output of its frame. -/
theorem outs_frame_markFree (hs : s.AtStart (n := n)) {raw : List UInt8}
    (hraw : n = raw.length + 2) (hfree : MarkFree raw) :
    ∃ tail, s.outs junk (frame raw) = [raw ++ tail] := by
  obtain ⟨tail, hr⟩ := receive_frame (hs.length.trans hraw) hfree []
  have ho := Rx.receive_outs junk s (frame raw)
  rw [List.append_nil, ← hs.rx] at hr
  simp only [hr, Calls.outs] at ho
  exact ⟨tail, ho.2.choose_spec⟩

theorem outs_frame_ne_nil (hs : s.AtStart (n := n)) {raw : List UInt8} (hmark : ¬ MarkFree raw) :
    s.outs junk (frame raw) ≠ [] := by
  have hq : ¬ (Rx.mk .recv 0 s.rx.buf).Quiet raw := by simpa [Rx.Quiet] using hmark
  obtain ⟨buf, left, hr, _⟩ := Rx.receive_marked rfl hq bufend
  have ho := Rx.receive_outs junk s (frame raw)
  have hs' : s.rx.receive (frame raw) = some (buf, left) := by
    rw [hs.rx, frame, List.append_assoc, Rx.receive_bufstart, hr]
  simp only [hs'] at ho
  obtain ⟨_, peak, ho⟩ := ho
  simp [ho]

/-- Frames of structures of size `L.size`, read by the same function over and over: each
frame begins in the start state, its returns depend on nothing outside it, a structure
without an end marker is returned once and intact, and every frame returns something. -/
def Resyncs {α : Type} (L : Layout α)
    (recv : List UInt8 → List UInt8 → Option (α × List UInt8)) : Prop :=
  ∀ (junk : Junk (L.size + 2)) (payloads : List (List.Vector UInt8 L.size)),
    let stream k := (payloads.take k).flatMap fun P => frame P.val
    let calls k := (Calls.begin junk 0 0).feed junk (stream k)
    ∃ returned : List (List α),
      List.Forall₂ (fun P rs => (MarkFree P.val → rs = [L.decode P.val]) ∧ rs ≠ [])
        payloads returned ∧
      ∀ k, receiveAll junk recv (stream k).length 0 (stream k) = (returned.take k).flatten ∧
        (calls k).rx.state = .start1 ∧ (calls k).rx.idx = 0 ∧ (calls k).peak ≤ L.size + 2

theorem frameOuts_returns {α : Type} (L : Layout α) (junk : Junk (L.size + 2)) {s : Calls}
    (hs : s.AtStart (n := L.size + 2)) (payloads : List (List.Vector UInt8 L.size)) :
    List.Forall₂ (fun P rs => (MarkFree P.val → rs = [L.decode P.val]) ∧ rs ≠ []) payloads
      ((frameOuts junk s (payloads.map (·.val))).map (List.map (copyOut L))) := by
  induction payloads generalizing s with
  | nil => exact .nil
  | cons P payloads ih =>
    simp only [List.map_cons, frameOuts]
    refine .cons ?_ (ih (hs.sound.feed_frame P.val))
    by_cases hfree : MarkFree P.val
    · obtain ⟨tail, ho⟩ : ∃ tail, s.outs junk (frame P.val) = [P.val ++ tail] :=
        outs_frame_markFree hs (by rw [P.property]) hfree
      simp [ho, copyOut, List.take_left' P.property]
    · exact ⟨fun h => absurd h hfree, by simpa using outs_frame_ne_nil hs hfree⟩

theorem receive_resyncs {α : Type} (L : Layout α) : Resyncs L (receive L) := by
  intro junk payloads
  have hbegin := Calls.begin_atStart junk 0 0
  have hstream : ∀ k, ((payloads.take k).flatMap fun P => frame P.val) =
      (((payloads.map (·.val)).take k).flatMap frame) := fun k => by
    rw [← List.map_take, List.flatMap_map]
  refine ⟨_, frameOuts_returns L junk hbegin payloads, ?_⟩
  intro k
  have hend := feed_frames junk hbegin ((payloads.map (·.val)).take k)
  simp only [hstream]
  refine ⟨?_, hend.state, hend.idx, peak_frames hbegin (Nat.zero_le _) ?_⟩
  · rw [receiveAll_eq_outs junk L _ 0 0 _ le_rfl, outs_frames, List.map_flatten, List.map_take]
  · intro raw hraw
    obtain ⟨P, _, rfl⟩ := List.mem_map.mp (List.mem_of_mem_take hraw)
    exact (congrArg (· + 2) P.property).le

/-- The four receive loops without a filter. -/
theorem receivers_resync : Resyncs snpPktLayout recvpkt ∧ Resyncs snpPktLayout overlayRecvpkt ∧
    Resyncs sendpktArgLayout getpktToSend ∧ Resyncs sendsegArgLayout getsegToSend :=
  ⟨receive_resyncs _, receive_resyncs _, receive_resyncs _, receive_resyncs _⟩

end DartNet.Framing
