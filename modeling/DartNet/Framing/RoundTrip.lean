import DartNet.Framing.Receiver

/-! A frame comes back intact exactly when no end marker occurs before its last two bytes. -/
namespace DartNet.Framing
open Packed

/-- The buffer holds `stored` in front of `idx` and untouched stack bytes from there on. -/
def Rx.Holds (s : Rx) (stored rest : List UInt8) : Prop :=
  s.buf = stored ++ rest ∧ s.idx = stored.length

theorem Rx.Holds.store {s : Rx} {stored rest : List UInt8} {j : UInt8}
    (h : s.Holds stored (j :: rest)) (c : UInt8) : (s.store c).Holds (stored ++ [c]) rest := by
  obtain ⟨hb, hi⟩ := h
  constructor
  · simp [Rx.store, hb, hi, List.set_append_right]
  · simp [Rx.store, hi]

/-- Store the bytes one after the other. -/
def Rx.keepAll (s : Rx) (bytes : List UInt8) : Rx := bytes.foldl Rx.keep s

theorem Rx.Holds.keepAll {s : Rx} {stored rest : List UInt8} (h : s.Holds stored rest)
    (bytes : List UInt8) (hle : bytes.length ≤ rest.length) :
    (s.keepAll bytes).Holds (stored ++ bytes) (rest.drop bytes.length) := by
  induction bytes generalizing s stored rest with
  | nil => simpa [Rx.keepAll] using h
  | cons c cs ih =>
    cases rest with
    | nil => simp at hle
    | cons j rest =>
      have hk : (s.keep c).Holds (stored ++ [c]) rest := h.store c
      simpa [Rx.keepAll] using ih hk (by simpa using hle)

/-- In a storing state, reading these bytes meets no end marker. -/
def Rx.Quiet (s : Rx) (bytes : List UInt8) : Prop :=
  MarkFree (if s.state = .stop1 then bang :: bytes else bytes)

theorem Rx.keep_storing (s : Rx) (c : UInt8) : (s.keep c).storing = true := by
  by_cases hc : c = bang <;> simp [Rx.keep, Rx.storing, hc]

theorem Rx.quiet_keep (s : Rx) (c : UInt8) (cs : List UInt8) :
    (s.keep c).Quiet cs ↔ MarkFree (c :: cs) := by
  by_cases hc : c = bang
  · simp [Rx.Quiet, Rx.keep, hc]
  · cases cs with
    | nil => simp [Rx.Quiet, Rx.keep, hc, MarkFree]
    | cons d ds => simp [Rx.Quiet, Rx.keep, hc, MarkFree, List.isChain_cons_cons]

/-- A storing state ends the frame at this byte or keeps it. -/
theorem Rx.step_storing {s : Rx} (hs : s.storing = true) (c : UInt8) (cs : List UInt8) :
    (s.step c = .done (s.store c).buf ∧ s.state = .stop1 ∧ c = hash ∧ ¬ s.Quiet (c :: cs)) ∨
      (s.step c = .more (s.keep c) ∧ (s.Quiet (c :: cs) ↔ (s.keep c).Quiet cs)) := by
  rw [Rx.quiet_keep]
  rcases s with ⟨state, idx, buf⟩
  cases state with
  | start1 => simp [Rx.storing] at hs
  | start2 => simp [Rx.storing] at hs
  | recv => right; simp [Rx.step, Rx.Quiet]
  | stop1 =>
    by_cases hc : c = hash
    · left; simp [Rx.step, Rx.Quiet, MarkFree, hc]
    · right; simp [Rx.step, Rx.Quiet, MarkFree, hc, List.isChain_cons_cons]

/-- A byte of a stretch without an end marker is kept. -/
theorem Rx.step_quiet {s : Rx} (hs : s.storing = true) {c : UInt8} {cs : List UInt8}
    (hq : s.Quiet (c :: cs)) : s.step c = .more (s.keep c) ∧ (s.keep c).Quiet cs := by
  rcases Rx.step_storing hs c cs with ⟨_, _, _, hn⟩ | ⟨hk, hiff⟩
  · exact absurd hq hn
  · exact ⟨hk, hiff.mp hq⟩

theorem Rx.keepAll_idx (s : Rx) (bytes : List UInt8) :
    (s.keepAll bytes).idx = s.idx + bytes.length := by
  induction bytes generalizing s with
  | nil => rfl
  | cons c cs ih =>
    rw [Rx.keepAll, List.foldl_cons]
    apply (ih (s.keep c)).trans
    simp only [Rx.keep, Rx.store, List.length_cons]
    omega

theorem Rx.quiet_append {s : Rx} (hs : s.storing = true) {bytes : List UInt8}
    (hq : s.Quiet bytes) (tail : List UInt8) :
    s.Quiet (bytes ++ tail) ↔ (s.keepAll bytes).Quiet tail := by
  induction bytes generalizing s with
  | nil => rfl
  | cons c cs ih =>
    obtain ⟨hk, hrest⟩ := Rx.step_quiet hs hq
    rcases Rx.step_storing hs c (cs ++ tail) with ⟨hd, _⟩ | ⟨_, hiff⟩
    · rw [hk] at hd
      contradiction
    · exact hiff.trans (ih (Rx.keep_storing s c) hrest)

/-- Bytes without an end marker are stored and the loop goes on. -/
theorem Rx.receive_quiet {s : Rx} (hs : s.storing = true) {bytes : List UInt8}
    (hq : s.Quiet bytes) (rest : List UInt8) :
    s.receive (bytes ++ rest) = (s.keepAll bytes).receive rest := by
  induction bytes generalizing s with
  | nil => rfl
  | cons c cs ih =>
    obtain ⟨hk, hrest⟩ := Rx.step_quiet hs hq
    simp only [List.cons_append, Rx.receive, hk]
    exact ih (Rx.keep_storing s c) hrest

/-- Otherwise the call returns early, and the buffer behind the bytes is untouched. -/
theorem Rx.receive_marked {s : Rx} (hs : s.storing = true) {bytes : List UInt8}
    (hq : ¬ s.Quiet bytes) (rest : List UInt8) :
    ∃ buf left, s.receive (bytes ++ rest) = some (buf, left) ∧
      buf.drop (s.idx + bytes.length) = s.buf.drop (s.idx + bytes.length) := by
  induction bytes generalizing s with
  | nil => exact absurd (by unfold Rx.Quiet; split <;> simp [MarkFree]) hq
  | cons c cs ih =>
    rcases Rx.step_storing hs c cs with ⟨hd, _⟩ | ⟨hk, hiff⟩
    · refine ⟨(s.store c).buf, cs ++ rest, by simp only [List.cons_append, Rx.receive, hd], ?_⟩
      simp only [Rx.store, List.length_cons]
      exact List.drop_set_of_lt (by omega)
    · obtain ⟨buf, left, hr, hb⟩ := ih (Rx.keep_storing s c) (fun h => hq (hiff.mpr h))
      refine ⟨buf, left, by simpa only [List.cons_append, Rx.receive, hk] using hr, ?_⟩
      have hidx : (s.keep c).idx + cs.length = s.idx + (c :: cs).length := by
        simp only [Rx.keep, Rx.store, List.length_cons]
        omega
      rw [hidx] at hb
      rw [hb]
      simp only [Rx.keep, Rx.store, List.length_cons]
      exact List.drop_set_of_lt (by omega)

/-- A storing state keeps the `'!'` of an end marker and returns at its `'#'`. -/
theorem Rx.receive_bufend {s : Rx} (hs : s.storing = true) (rest : List UInt8) :
    s.receive (bufend ++ rest) = some (((s.keep bang).store hash).buf, rest) := by
  have hk : s.step bang = .more (s.keep bang) := by
    rcases s with ⟨state, idx, buf⟩
    cases state with
    | start1 => simp [Rx.storing] at hs
    | start2 => simp [Rx.storing] at hs
    | recv => rfl
    | stop1 => simp [Rx.step, bang, hash]
  have hd : (s.keep bang).step hash = .done ((s.keep bang).store hash).buf := by
    simp [Rx.step, Rx.keep]
  simp only [bufend, List.cons_append, List.nil_append, Rx.receive, hk, hd]

theorem Rx.receive_bufstart (junk rest : List UInt8) :
    (Rx.entry junk).receive (bufstart ++ rest) = (Rx.mk .recv 0 junk).receive rest := by
  simp [bufstart, Rx.receive, Rx.step, Rx.entry]

theorem holds_recv (junk : List UInt8) : (Rx.mk .recv 0 junk).Holds [] junk := by
  simp [Rx.Holds]

theorem Rx.keepAll_storing {s : Rx} (hs : s.storing = true) (bytes : List UInt8) :
    (s.keepAll bytes).storing = true := by
  induction bytes generalizing s with
  | nil => exact hs
  | cons c cs ih => exact ih (Rx.keep_storing s c)

/-- Storing the bytes one by one leaves them in front of what the stack held behind them. -/
theorem keepAll_recv (junk bytes : List UInt8) (hle : bytes.length ≤ junk.length) :
    ((Rx.mk .recv 0 junk).keepAll bytes).Holds bytes (junk.drop bytes.length) := by
  simpa using (holds_recv junk).keepAll bytes hle

/-- A marker-free structure is returned at the end of its frame. -/
theorem receive_frame {raw junk : List UInt8} (hjunk : junk.length = raw.length + 2)
    (hfree : MarkFree raw) (rest : List UInt8) :
    ∃ tail, (Rx.entry junk).receive (frame raw ++ rest) = some (raw ++ tail, rest) := by
  have hq : (Rx.mk .recv 0 junk).Quiet raw := by simpa [Rx.Quiet] using hfree
  have hk := keepAll_recv junk raw (by omega)
  obtain ⟨j, k, hjk⟩ : ∃ j k, junk.drop raw.length = [j, k] :=
    List.length_eq_two.mp (by simp; omega)
  rw [hjk] at hk
  have hbang : (((Rx.mk .recv 0 junk).keepAll raw).keep bang).Holds (raw ++ [bang]) [k] :=
    hk.store bang
  have hhash := (hbang.store hash).1
  refine ⟨[bang, hash], ?_⟩
  rw [frame, List.append_assoc, List.append_assoc, Rx.receive_bufstart,
    Rx.receive_quiet rfl hq, Rx.receive_bufend (Rx.keepAll_storing rfl raw), hhash]
  simp

/-- Bytes that end in the first end marker are stored, and the call returns behind them. -/
theorem receive_stop {raw junk : List UInt8} (hjunk : raw.length ≤ junk.length)
    (hfree : MarkFree raw.dropLast) (hmark : ¬ MarkFree raw) (rest : List UInt8) :
    ∃ tail, (Rx.entry junk).receive (bufstart ++ (raw ++ rest)) = some (raw ++ tail, rest) := by
  have hne : raw ≠ [] := fun h => hmark (by simp [h, MarkFree])
  obtain ⟨init, last, rfl⟩ : ∃ init last, raw = init ++ [last] :=
    ⟨_, _, (List.dropLast_append_getLast hne).symm⟩
  simp only [List.dropLast_concat] at hfree
  have hq : (Rx.mk .recv 0 junk).Quiet init := by simpa [Rx.Quiet] using hfree
  have hk := keepAll_recv junk init (by simp at hjunk; omega)
  have hn : ¬ ((Rx.mk .recv 0 junk).keepAll init).Quiet [last] := by
    rw [← Rx.quiet_append rfl hq]
    simpa [Rx.Quiet] using hmark
  have hst : ((Rx.mk .recv 0 junk).keepAll init).storing = true := Rx.keepAll_storing rfl init
  rcases Rx.step_storing hst last [] with ⟨hd, _⟩ | ⟨_, hiff⟩
  · obtain ⟨j, tail, hj⟩ : ∃ j tail, junk.drop init.length = j :: tail :=
      List.exists_cons_of_length_pos (by simp at hjunk ⊢; omega)
    rw [hj] at hk
    refine ⟨tail, ?_⟩
    rw [Rx.receive_bufstart, List.append_assoc, Rx.receive_quiet rfl hq]
    simp only [List.cons_append, List.nil_append, Rx.receive, hd, (hk.store last).1]
  · have hquiet : ((((Rx.mk .recv 0 junk).keepAll init).keep last).Quiet []) := by
      unfold Rx.Quiet
      split <;> simp [MarkFree]
    exact absurd (hiff.mpr hquiet) hn

/-- An earlier end marker cuts the structure: its last byte is left as the stack had it. -/
theorem receive_frame_cut {raw : List UInt8} (hmark : ¬ MarkFree raw.dropLast)
    (junk rest : List UInt8) :
    ∃ buf left, (Rx.entry junk).receive (frame raw ++ rest) = some (buf, left) ∧
      buf.drop (raw.length - 1) = junk.drop (raw.length - 1) := by
  have hne : raw ≠ [] := fun h => hmark (by simp [h, MarkFree])
  have hq : ¬ (Rx.mk .recv 0 junk).Quiet raw.dropLast := by simpa [Rx.Quiet] using hmark
  obtain ⟨buf, left, hr, hb⟩ :=
    Rx.receive_marked rfl hq ([raw.getLast hne] ++ (bufend ++ rest))
  refine ⟨buf, left, ?_, by simpa using hb⟩
  rw [← List.append_assoc, List.dropLast_append_getLast] at hr
  rw [frame, List.append_assoc, List.append_assoc, Rx.receive_bufstart, hr]

theorem Rx.step_length (s : Rx) (c : UInt8) :
    match s.step c with
    | .more t => t.buf.length = s.buf.length
    | .done buf => buf.length = s.buf.length := by
  rcases s with ⟨state, idx, buf⟩
  cases state with
  | start1 => by_cases hc : c = bang <;> simp [Rx.step, hc]
  | start2 => simp [Rx.step]
  | recv => simp [Rx.step, Rx.keep, Rx.store]
  | stop1 => by_cases hc : c = hash <;> simp [Rx.step, Rx.keep, Rx.store, hc]

/-- A return leaves the buffer as long as it was. -/
theorem Rx.receive_length {s : Rx} {bytes buf rest : List UInt8}
    (h : s.receive bytes = some (buf, rest)) : buf.length = s.buf.length := by
  induction bytes generalizing s with
  | nil => contradiction
  | cons b bs ih =>
    have hstep := Rx.step_length s b
    cases hs : s.step b with
    | more t =>
      simp only [Rx.receive, hs] at h hstep
      exact (ih h).trans hstep
    | done buf' =>
      simp only [Rx.receive, hs, Option.some.injEq, Prod.mk.injEq] at h hstep
      exact h.1 ▸ hstep

/-- What a return leaves in a cell that held `c`, and to which nothing else is written. -/
theorem Rx.receive_cell {s : Rx} (hs : s.storing = true) {bytes : List UInt8} {i : ℕ} {c : UInt8}
    (hjunk : s.buf[i]? = some c) (hbyte : s.idx ≤ i → ∀ d, bytes[i - s.idx]? = some d → d = c)
    {buf rest : List UInt8} (h : s.receive bytes = some (buf, rest)) : buf[i]? = some c := by
  induction bytes generalizing s with
  | nil => contradiction
  | cons b bs ih =>
    have hstore : (s.store b).buf[i]? = some c := by
      simp only [Rx.store, List.getElem?_set]
      split
      next hi =>
        subst hi
        obtain ⟨hlt, _⟩ := List.getElem?_eq_some_iff.mp hjunk
        simpa [hlt] using hbyte le_rfl
      next => exact hjunk
    rcases Rx.step_storing hs b bs with ⟨hd, _⟩ | ⟨hk, _⟩
    · simp only [Rx.receive, hd, Option.some.injEq, Prod.mk.injEq] at h
      exact h.1 ▸ hstore
    · simp only [Rx.receive, hk] at h
      apply ih (Rx.keep_storing s b) hstore _ h
      intro hi d hd
      have hi : s.idx + 1 ≤ i := hi
      apply hbyte (by omega)
      rwa [show i - s.idx = (i - (s.idx + 1)) + 1 by omega, List.getElem?_cons_succ]

section Layouts
variable {α : Type} (L : Layout α) {v w : α}

/-- The image of what was received is the front of the buffer. -/
theorem encode_of_receive {junk bytes rest : List UInt8} (hjunk : junk.length = L.size + 2)
    (h : receive L junk bytes = some (w, rest)) :
    ∃ buf, (Rx.entry junk).receive bytes = some (buf, rest) ∧ L.encode w = buf.take L.size := by
  obtain ⟨⟨buf, left⟩, hr, heq⟩ := Option.map_eq_some_iff.mp h
  obtain ⟨rfl, rfl⟩ := Prod.mk.inj heq
  have hlen : buf.length = L.size + 2 := (Rx.receive_length hr).trans hjunk
  exact ⟨buf, hr, L.encode_decode _ (by simp [hlen])⟩

/-- The first `k` bytes of the image come back if the frame has no end marker, or its first one
at their end. -/
theorem receive_take {k : ℕ} (hk : k ≤ L.size) (hfree : MarkFree ((L.encode v).take k).dropLast)
    (hall : MarkFree ((L.encode v).take k) → MarkFree (L.encode v)) {junk : List UInt8}
    (hjunk : junk.length = L.size + 2) :
    ∃ w rest, receive L junk (frameSends (L.encode v)).flatten = some (w, rest) ∧
      (L.encode w).take k = (L.encode v).take k ∧
      (MarkFree ((L.encode v).take k) → w = v) := by
  have hlen := L.length_encode v
  rw [frameSends_flatten]
  by_cases hmark : MarkFree ((L.encode v).take k)
  · obtain ⟨tail, hr⟩ := receive_frame (hlen ▸ hjunk) (hall hmark) []
    rw [List.append_nil] at hr
    have hw : copyOut L (L.encode v ++ tail) = v := by
      rw [copyOut, List.take_left' hlen, L.decode_encode]
    exact ⟨v, [], by rw [receive, hr, Option.map_some, hw], rfl, fun _ => rfl⟩
  · have hlenk : ((L.encode v).take k).length = k := by simp [hlen, hk]
    have hle : ((L.encode v).take k).length ≤ junk.length := by omega
    obtain ⟨tail, hr⟩ := receive_stop hle hfree hmark ((L.encode v).drop k ++ bufend)
    have hframe : bufstart ++ ((L.encode v).take k ++ ((L.encode v).drop k ++ bufend)) =
        frame (L.encode v) := by
      rw [← List.append_assoc ((L.encode v).take k), List.take_append_drop, frame,
        List.append_assoc]
    rw [hframe] at hr
    have hrecv : receive L junk (frame (L.encode v)) =
        some (copyOut L ((L.encode v).take k ++ tail), (L.encode v).drop k ++ bufend) := by
      rw [receive, hr, Option.map_some]
    obtain ⟨buf, hbuf, hw⟩ := encode_of_receive L hjunk hrecv
    obtain rfl : buf = (L.encode v).take k ++ tail := by
      rw [hr] at hbuf
      exact (Prod.mk.inj (Option.some.inj hbuf)).1.symm
    refine ⟨_, _, hrecv, ?_, fun h => absurd h hmark⟩
    rw [hw, List.take_take, Nat.min_eq_left hk, List.take_left' hlenk]

section Filled
variable {c : UInt8} {rest : List UInt8}
  (h : receive L (List.replicate (L.size + 2) c) (frameSends (L.encode v)).flatten = some (w, rest))
include h

/-- Into a buffer filled with `c`, an early end marker brings a last byte `c`. -/
theorem receive_cut (hmark : ¬ MarkFree (L.encode v).dropLast) :
    (L.encode w)[L.size - 1]? = some c := by
  have hne : L.encode v ≠ [] := fun h => hmark (by simp [h, MarkFree])
  have hpos : 0 < (L.encode v).length := List.length_pos_iff.mpr hne
  rw [L.length_encode] at hpos
  obtain ⟨buf, hr, hw⟩ := encode_of_receive L (by simp) h
  obtain ⟨buf', left, hr', hdrop⟩ :=
    receive_frame_cut hmark (List.replicate (L.size + 2) c) []
  rw [List.append_nil, ← frameSends_flatten, hr] at hr'
  obtain ⟨rfl, rfl⟩ := Prod.mk.inj (Option.some.inj hr')
  have hcell := congrArg (fun l : List UInt8 => l[0]?) hdrop
  simp only [List.getElem?_drop, Nat.add_zero, L.length_encode, List.getElem?_replicate] at hcell
  rw [hw, List.getElem?_take_of_lt (by omega), hcell, if_pos (by omega)]

/-- Into a buffer filled with `c`, a byte `c` comes back as it is. -/
theorem receive_keeps {i : ℕ} (hc : (L.encode v)[i]? = some c) : (L.encode w)[i]? = some c := by
  obtain ⟨hi, _⟩ := List.getElem?_eq_some_iff.mp hc
  rw [L.length_encode] at hi
  obtain ⟨buf, hr, hw⟩ := encode_of_receive L (by simp) h
  rw [frameSends_flatten, frame, List.append_assoc, Rx.receive_bufstart] at hr
  rw [hw, List.getElem?_take_of_lt hi]
  apply Rx.receive_cell (by rfl) _ _ hr
  · simp only [List.getElem?_replicate]
    exact if_pos (by omega)
  · intro _ d hd
    rw [Nat.sub_zero, List.getElem?_append_left (by rw [L.length_encode]; exact hi), hc] at hd
    exact (Option.some.inj hd).symm

end Filled
end Layouts

/-- The receiver returns the value whatever its stack held before. -/
def RoundTrip {α : Type} (L : Layout α)
    (recv : List UInt8 → List UInt8 → Option (α × List UInt8))
    (sends : List (List UInt8)) (v : α) : Prop :=
  ∀ junk, junk.length = L.size + 2 → ∃ rest, recv junk sends.flatten = some (v, rest)


/-- For any layout: exactly the values whose image has no end marker before its last two
bytes come back. -/
theorem roundTrip_iff {α : Type} (L : Layout α) (v : α) :
    RoundTrip L (receive L) (frameSends (L.encode v)) v ↔ MarkFree (L.encode v).dropLast := by
  have hlen := L.length_encode v
  constructor
  · intro h
    by_contra hmark
    -- a stack whose byte behind the cut differs from the structure's last byte
    have hne : L.encode v ≠ [] := fun h => hmark (by simp [h, MarkFree])
    obtain ⟨rest, hr⟩ := h (List.replicate (L.size + 2) ((L.encode v).getLast hne + 1)) (by simp)
    have hcut := receive_cut L hr hmark
    rw [← hlen, ← List.getLast?_eq_getElem?, List.getLast?_eq_some_getLast hne] at hcut
    simpa using Option.some.inj hcut
  · intro hfree junk hjunk
    have htake : (L.encode v).take L.size = L.encode v := List.take_of_length_le hlen.le
    obtain ⟨w, rest, hr, hw, _⟩ := receive_take L le_rfl (by rwa [htake])
      (fun h => htake ▸ h) hjunk
    rw [htake, List.take_of_length_le (L.length_encode w).le] at hw
    have hvw : w = v := by rw [← L.decode_encode w, hw, L.decode_encode]
    exact ⟨rest, hvw ▸ hr⟩

/-- The five pairs of the transport, network and overlay processes. -/
theorem senders_roundTrip_iff (nodeID : Int32) (segPtr : Seg) (pkt : SnpPkt) (conn : ℕ) :
    (RoundTrip sendsegArgLayout getsegToSend (snpSendseg nodeID segPtr) ⟨nodeID, segPtr.stamp⟩ ↔
      MarkFree (sendsegArgLayout.encode ⟨nodeID, segPtr.stamp⟩).dropLast) ∧
    (RoundTrip sendsegArgLayout (snpRecvseg some) (forwardsegToSRT nodeID segPtr)
        ⟨nodeID, segPtr⟩ ↔
      MarkFree (sendsegArgLayout.encode ⟨nodeID, segPtr⟩).dropLast) ∧
    (RoundTrip sendpktArgLayout getpktToSend (overlaySendpkt nodeID pkt) ⟨nodeID, pkt⟩ ↔
      MarkFree (sendpktArgLayout.encode ⟨nodeID, pkt⟩).dropLast) ∧
    (RoundTrip snpPktLayout overlayRecvpkt (forwardpktToSNP pkt) pkt ↔
      MarkFree (snpPktLayout.encode pkt).dropLast) ∧
    (RoundTrip snpPktLayout recvpkt (sendpkt pkt conn) pkt ↔
      MarkFree (snpPktLayout.encode pkt).dropLast) := by
  refine ⟨roundTrip_iff .., ?_, roundTrip_iff .., roundTrip_iff .., ?_⟩
  · rw [funext₂ snpRecvseg_unfiltered]
    exact roundTrip_iff ..
  · rw [sendpkt, if_neg (by omega)]
    exact roundTrip_iff ..

/-- A segment from port 8993, whose two low bytes are an end marker, is cut after two bytes. -/
theorem port_8993_not_roundTrip : ¬ RoundTrip sendsegArgLayout getsegToSend
    (snpSendseg 1 ⟨⟨8993, 80, 0, 0, 0, SegType.syn, 0, 0⟩, List.Vector.replicate _ 0⟩)
    ⟨1, Seg.stamp ⟨⟨8993, 80, 0, 0, 0, SegType.syn, 0, 0⟩, List.Vector.replicate _ 0⟩⟩ := by
  intro h
  have := (roundTrip_iff ..).mp h
  revert this
  decide

end DartNet.Framing
