import DartNet.Foundation.Marks
import DartNet.Framing.RoundTrip

/-! Arbitrary byte streams at a receive function, against the grammar of a frame: the bytes
between the first `!&` and the `!#` that follows it, as many as the structure has. -/
namespace DartNet.Framing
open Packed Marks

/-- The bytes between the marks, if they are `n`. -/
def grammar (n : ℕ) (bytes : List UInt8) : Option (List UInt8) :=
  ((after bang amp bytes).bind (upTo bang hash)).filter (·.length = n)

/-- The number of bytes a call has stored when it returns, all of them behind one another. -/
def Rx.stores : Rx → List UInt8 → ℕ
  | s, [] => s.idx
  | s, c :: cs =>
    match s.step c with
    | .more t => t.stores cs
    | .done _ => s.idx + 1

/-- The receive function stays in its buffer and returns 1 for a frame of the grammar only,
with the bytes of it as the structure. -/
def Parses {α : Type} (L : Layout α)
    (recv : List UInt8 → List UInt8 → Option (α × List UInt8)) (bytes : List UInt8) : Prop :=
  ∀ junk : List UInt8, junk.length = L.size + 2 →
    (Rx.entry junk).stores bytes ≤ L.size + 2 ∧
      (recv junk bytes).map (fun r => L.encode r.1) = grammar L.size bytes

/-- The streams on which code and grammar agree. The code starts behind the first `!&` with an
even number of `!` right in front of it; from there it must find the bytes of the grammar, or
these without a last `!`, or no `!#` in the rest of the buffer. -/
def Regular (n : ℕ) (bytes : List UInt8) : Prop :=
  match afterOdd bang amp 0 bytes with
  | none => grammar n bytes = none
  | some rest =>
    match upTo bang hash rest with
    | none => rest.length ≤ n + 2 ∧ grammar n bytes = none
    | some raw => grammar n bytes = some raw ∨ grammar n bytes = some (raw ++ [bang])

/-- The two states in front of the start mark, after `run` bytes `!`. -/
def startState (run : ℕ) : RxState := if run % 2 = 1 then .start2 else .start1

theorem step_start (run idx : ℕ) (buf : List UInt8) (c : UInt8) :
    (Rx.mk (startState run) idx buf).step c = .more
      (if c = amp ∧ run % 2 = 1 then ⟨.recv, idx, buf⟩
      else ⟨startState (if c = bang then run + 1 else 0), idx, buf⟩) := by
  have hne : bang ≠ amp := by decide
  rcases Nat.mod_two_eq_zero_or_one run with hrun | hrun
  · by_cases hc : c = bang <;> simp [startState, Rx.step, hrun, hc, Nat.add_mod]
  · by_cases hc : c = bang
    · simp [startState, Rx.step, hrun, hc, hne, Nat.add_mod]
    · by_cases ha : c = amp <;> simp [startState, Rx.step, hrun, hc, ha]

/-- Up to the start mark nothing is stored. -/
theorem receive_start (run : ℕ) (junk bytes : List UInt8) :
    (Rx.mk (startState run) 0 junk).receive bytes =
        (afterOdd bang amp run bytes).bind (Rx.mk .recv 0 junk).receive ∧
      (Rx.mk (startState run) 0 junk).stores bytes =
        ((afterOdd bang amp run bytes).map (Rx.mk .recv 0 junk).stores).getD 0 := by
  induction bytes generalizing run with
  | nil => exact ⟨rfl, rfl⟩
  | cons c cs ih =>
    simp only [Rx.receive, Rx.stores, step_start, afterOdd]
    split
    next => exact ⟨rfl, rfl⟩
    next => exact ih _

/-- Bytes without an end marker are all stored. -/
theorem stores_quiet {s : Rx} (hs : s.storing = true) {bytes : List UInt8} (hq : s.Quiet bytes)
    (rest : List UInt8) : s.stores (bytes ++ rest) = (s.keepAll bytes).stores rest := by
  induction bytes generalizing s with
  | nil => rfl
  | cons c cs ih =>
    obtain ⟨hk, hrest⟩ := Rx.step_quiet hs hq
    simp only [List.cons_append, Rx.stores, hk]
    exact ih (Rx.keep_storing s c) hrest

theorem stores_bufend {s : Rx} (hs : s.storing = true) (rest : List UInt8) :
    s.stores (bufend ++ rest) = s.idx + 2 := by
  rcases s with ⟨state, idx, buf⟩
  cases state with
  | start1 => simp [Rx.storing] at hs
  | start2 => simp [Rx.storing] at hs
  | recv => rfl
  | stop1 => rfl

/-- Behind the start mark, without an end mark: everything is stored and nothing returned. -/
theorem receive_open {rest : List UInt8} (h : upTo bang hash rest = none) (junk : List UInt8) :
    (Rx.mk .recv 0 junk).receive rest = none ∧
      (Rx.mk .recv 0 junk).stores rest = rest.length := by
  have hq : (Rx.mk .recv 0 junk).Quiet rest := by
    simpa [Rx.Quiet, MarkFree, Free] using upTo_none h
  have hreceive := Rx.receive_quiet rfl hq []
  have hstores := stores_quiet rfl hq []
  rw [List.append_nil] at hreceive hstores
  constructor
  · rw [hreceive]
    rfl
  · rw [hstores]
    show ((Rx.mk .recv 0 junk).keepAll rest).idx = rest.length
    rw [Rx.keepAll_idx, Nat.zero_add]

/-- Behind the start mark, up to an end mark: the bytes and the mark are stored, and if they
fit they are the front of the buffer that is returned. -/
theorem receive_closed {rest raw : List UInt8} (h : upTo bang hash rest = some raw)
    (junk : List UInt8) :
    (Rx.mk .recv 0 junk).stores rest = raw.length + 2 ∧
      (raw.length + 2 ≤ junk.length → ∃ left, (Rx.mk .recv 0 junk).receive rest =
        some (raw ++ bang :: hash :: junk.drop (raw.length + 2), left)) := by
  obtain ⟨left, rfl, hfree⟩ := upTo_some h
  have hq : (Rx.mk .recv 0 junk).Quiet raw := by simpa [Rx.Quiet, MarkFree, Free] using hfree
  have hst : ((Rx.mk .recv 0 junk).keepAll raw).storing = true := Rx.keepAll_storing rfl raw
  have hend : raw ++ bang :: hash :: left = raw ++ (bufend ++ left) := rfl
  rw [hend]
  constructor
  · rw [stores_quiet rfl hq, stores_bufend hst, Rx.keepAll_idx, Nat.zero_add]
  · intro hle
    have hk := keepAll_recv junk raw (by omega)
    obtain ⟨i, j, tail, hdrop⟩ : ∃ i j tail, junk.drop raw.length = i :: j :: tail := by
      obtain ⟨i, rest', hi⟩ : ∃ i rest', junk.drop raw.length = i :: rest' :=
        List.exists_cons_of_length_pos (by rw [List.length_drop]; omega)
      have hlen := congrArg List.length hi
      rw [List.length_drop, List.length_cons] at hlen
      obtain ⟨j, tail, hj⟩ : ∃ j tail, rest' = j :: tail :=
        List.exists_cons_of_length_pos (by omega)
      exact ⟨i, j, tail, by rw [hi, hj]⟩
    have htail : junk.drop (raw.length + 2) = tail := by
      rw [← List.drop_drop, hdrop]
      rfl
    rw [hdrop] at hk
    have hbang : (((Rx.mk .recv 0 junk).keepAll raw).keep bang).Holds (raw ++ [bang]) (j :: tail) :=
      hk.store bang
    have hbuf := (hbang.store hash).1
    refine ⟨left, ?_⟩
    rw [Rx.receive_quiet rfl hq, Rx.receive_bufend hst, hbuf, htail]
    simp

theorem grammar_some {n : ℕ} {bytes raw : List UInt8} (h : grammar n bytes = some raw) :
    raw.length = n ∧ Free bang hash raw := by
  obtain ⟨hup, hlen⟩ := Option.filter_eq_some_iff.mp h
  obtain ⟨rest, _, hraw⟩ := Option.bind_eq_some_iff.mp hup
  obtain ⟨_, _, hfree⟩ := upTo_some hraw
  exact ⟨of_decide_eq_true hlen, hfree⟩

section Layouts
variable {α : Type} (L : Layout α)

/-- The image of what a call returns for the bytes `raw` between the marks. -/
theorem receive_image {bytes rest raw junk : List UInt8} (hjunk : junk.length = L.size + 2)
    (hstart : afterOdd bang amp 0 bytes = some rest) (hraw : upTo bang hash rest = some raw)
    (hle : raw.length ≤ L.size) :
    (receive L junk bytes).map (fun r => L.encode r.1) =
      some ((raw ++ bang :: hash :: junk.drop (raw.length + 2)).take L.size) := by
  obtain ⟨left, hreceive⟩ := (receive_closed hraw junk).2 (by omega)
  have hentry : (Rx.entry junk).receive bytes =
      some (raw ++ bang :: hash :: junk.drop (raw.length + 2), left) := by
    rw [← hreceive]
    have h := (receive_start 0 junk bytes).1
    rw [hstart] at h
    exact h
  have hlen : L.size ≤ (raw ++ bang :: hash :: junk.drop (raw.length + 2)).length := by
    simp only [List.length_append, List.length_cons, List.length_drop]
    omega
  simp only [receive, hentry, Option.map_some, copyOut]
  rw [L.encode_decode _ (List.length_take_of_le hlen)]

/-- A call that has found both marks stores no byte behind the buffer and returns what the
grammar reads exactly if the grammar ends the frame at this end mark, or one byte behind it. -/
theorem parses_closed_iff {bytes rest raw : List UInt8}
    (hstart : afterOdd bang amp 0 bytes = some rest) (hraw : upTo bang hash rest = some raw) :
    Parses L (receive L) bytes ↔
      grammar L.size bytes = some raw ∨ grammar L.size bytes = some (raw ++ [bang]) := by
  have hcount (junk : List UInt8) : (Rx.entry junk).stores bytes = raw.length + 2 := by
    have hstores := (receive_start 0 junk bytes).2
    rw [hstart] at hstores
    exact hstores.trans (receive_closed hraw junk).1
  constructor
  · intro h
    obtain ⟨hfit, heq⟩ := h (List.replicate (L.size + 2) 0) List.length_replicate
    rw [hcount] at hfit
    rw [receive_image L List.length_replicate hstart hraw (by omega)] at heq
    obtain ⟨_, hfree⟩ := grammar_some heq.symm
    rw [← heq]
    rcases Nat.lt_trichotomy (raw.length + 1) L.size with hlt | hone | hgt
    · -- the end mark would be part of the structure
      obtain ⟨k, hk⟩ := Nat.exists_eq_add_of_le (show raw.length + 2 ≤ L.size by omega)
      rw [hk, Nat.add_assoc, List.take_length_add_append, Nat.add_comm 2 k,
        List.take_succ_cons, List.take_succ_cons] at hfree
      exact absurd hfree (not_free_append bang hash raw _)
    · right
      rw [← hone, List.take_length_add_append]
      rfl
    · left
      rw [List.take_left' (by omega)]
  · intro h junk hjunk
    have hle : raw.length ≤ L.size := by
      rcases h with h | h
      · exact (grammar_some h).1.le
      · have hlen := (grammar_some h).1
        rw [List.length_append, List.length_singleton] at hlen
        omega
    rw [hcount, receive_image L hjunk hstart hraw hle]
    constructor
    · omega
    · rcases h with h | h
      · rw [h, List.take_left' (grammar_some h).1]
      · have hlen := (grammar_some h).1
        rw [List.length_append, List.length_singleton] at hlen
        rw [h, ← hlen, List.take_length_add_append]
        rfl

theorem receive_parses_iff (bytes : List UInt8) :
    Parses L (receive L) bytes ↔ Regular L.size bytes := by
  have hsome : ∃ junk : List UInt8, junk.length = L.size + 2 :=
    ⟨List.replicate (L.size + 2) 0, List.length_replicate⟩
  have hentry (junk : List UInt8) : (Rx.entry junk).receive bytes =
      (afterOdd bang amp 0 bytes).bind (Rx.mk .recv 0 junk).receive :=
    (receive_start 0 junk bytes).1
  have hstores (junk : List UInt8) : (Rx.entry junk).stores bytes =
      ((afterOdd bang amp 0 bytes).map (Rx.mk .recv 0 junk).stores).getD 0 :=
    (receive_start 0 junk bytes).2
  unfold Regular
  cases hstart : afterOdd bang amp 0 bytes with
  | none =>
    simp only [Parses, receive, hentry, hstores, hstart, Option.bind_none, Option.map_none,
      Option.getD_none, Nat.zero_le, true_and]
    constructor
    · intro h
      obtain ⟨junk, hjunk⟩ := hsome
      exact (h junk hjunk).symm
    · intro h junk _
      exact h.symm
  | some rest =>
    cases hraw : upTo bang hash rest with
    | none =>
      simp only [Parses, receive, hentry, hstores, hstart, Option.bind_some, Option.map_some,
        Option.getD_some, receive_open hraw, Option.map_none, hraw]
      constructor
      · intro h
        obtain ⟨junk, hjunk⟩ := hsome
        exact ⟨(h junk hjunk).1, (h junk hjunk).2.symm⟩
      · intro h junk _
        exact ⟨h.1, h.2.symm⟩
    | some raw =>
      simp only [hraw]
      exact parses_closed_iff L hstart hraw

end Layouts

/-- If the start mark that the code takes is the first one, the end mark must come after
exactly the bytes of the structure, or not at all in the rest of the buffer. -/
theorem regular_first {n : ℕ} {bytes : List UInt8}
    (h : afterOdd bang amp 0 bytes = after bang amp bytes) :
    Regular n bytes ↔ match after bang amp bytes with
      | none => True
      | some rest =>
        match upTo bang hash rest with
        | none => rest.length ≤ n + 2
        | some raw => raw.length = n := by
  unfold Regular
  rw [h]
  cases hafter : after bang amp bytes with
  | none => simp [grammar, hafter]
  | some rest =>
    cases hraw : upTo bang hash rest with
    | none => simp [grammar, hafter, hraw]
    | some raw => simp [grammar, hafter, hraw, Option.filter]

/-- Exactly these streams are parsed by the grammar, without a byte stored behind the buffer. -/
theorem receivers_parse_iff (bytes : List UInt8) :
    (Parses sendpktArgLayout getpktToSend bytes ↔ Regular sendpktArgLayout.size bytes) ∧
    (Parses snpPktLayout recvpkt bytes ↔ Regular snpPktLayout.size bytes) ∧
    (Parses snpPktLayout overlayRecvpkt bytes ↔ Regular snpPktLayout.size bytes) ∧
    (Parses sendsegArgLayout getsegToSend bytes ↔ Regular sendsegArgLayout.size bytes) :=
  ⟨receive_parses_iff _ _, receive_parses_iff _ _, receive_parses_iff _ _,
    receive_parses_iff _ _⟩

/-- An empty frame is returned as a structure made of stack bytes, and a frame behind an odd
number of `!` is not seen at all. -/
theorem misparsed_frames :
    ¬ Parses snpPktLayout recvpkt (bufstart ++ bufend) ∧
    ¬ Parses sendsegArgLayout getsegToSend (bang :: frame (List.replicate 228 0)) := by
  unfold recvpkt getsegToSend
  rw [receive_parses_iff, receive_parses_iff]
  constructor
  · rw [regular_first (by decide)]
    show ¬ ([] : List UInt8).length = snpPktLayout.size
    decide
  · have hstart : afterOdd bang amp 0 (bang :: frame (List.replicate 228 0)) = none := by
      decide +kernel
    have hgrammar : grammar sendsegArgLayout.size (bang :: frame (List.replicate 228 0)) ≠
        none := by
      decide +kernel
    unfold Regular
    rw [hstart]
    exact hgrammar

end DartNet.Framing
