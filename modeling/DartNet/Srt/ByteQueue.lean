import DartNet.Foundation.Fifo
import DartNet.Srt.Connections

/-! The receive buffer of one server socket as a queue of bytes. Here `srt_server_recv` is
taken apart into its polling loop, which reads `usedBufLen` without the mutex, and the
section under the mutex, and the socket can be closed. -/
namespace DartNet.Server
open Transition Memory

/-- A socket whose caller of `srt_server_recv` may have left the polling loop, with the history
of its buffer: the bytes stored, the lengths of the calls that returned, the ranges that were
copied, and the address passed to `free`. -/
structure Queue where
  socket : Socket
  polled : Bool
  accepted : List UInt8
  lengths : List ℕ
  spans : List (ℕ × ℕ)
  freed : Option ℕ

namespace Queue

/-- `srt_server_sock`, whose buffer was allocated at `base`. -/
def fresh (nodeID port : UInt32) (mem : ℕ → UInt8) (base : ℕ) : Queue where
  socket := { Socket.fresh nodeID port with
    tcb := { srtServerSock nodeID port with buf := ⟨mem, base, 0⟩ } }
  polled := false
  accepted := []
  lengths := []
  spans := []
  freed := none

inductive Event where
  | api (a : Action)
  | segment (srcNodeID : UInt32) (seg : Seg)
  | poll
  | copyOut
  | close

/-- The section of `srt_server_recv` under the mutex, which no longer tests `usedBufLen`. -/
def copyOut (s : Socket) (length : UInt32) : Socket :=
  { s with
    tcb := { s.tcb with buf := (s.tcb.buf.copyOut 0 length).2 }
    call := .idle
    owners := (s.owners.copyOut none length).2
    returned := s.returned ++
      [⟨s.accepted, (s.tcb.buf.copyOut 0 length).1, (s.owners.copyOut none length).1⟩] }

/-- `srt_server_close` in `CLOSED`: the pointer is moved back before it is freed. -/
def srtServerClose (q : Queue) : Queue :=
  let buf := q.socket.tcb.buf
  let buf := { buf with recvBuf := buf.recvBuf - buf.usedBufLen.toNat, usedBufLen := 0 }
  { q with
    socket := { q.socket with tcb := { q.socket.tcb with buf := buf } }
    freed := some buf.recvBuf }

/-- The bytes a segment brought, and where they were copied to. -/
def stored (q : Queue) (h : Handled) : Queue :=
  { q with
    socket := q.socket.handled h
    accepted := q.accepted ++ h.stored
    spans := if h.stored = [] then q.spans
      else q.spans ++ [q.socket.tcb.buf.storeSpan h.stored.length] }

/-- The calls of `srt_server_recv` return by `copyOut` only. A socket that was closed takes no
step. -/
def step (q : Queue) (e : Event) : Option Queue :=
  if q.freed.isSome then none
  else match e with
    | .api .recvReturn => none
    | .api a => (q.socket.step a).map fun s => { q with socket := s }
    | .segment srcNodeID seg => (seghandler q.socket.tcb srcNodeID seg).map q.stored
    | .poll =>
      match q.socket.call with
      | .recv length =>
        if q.socket.tcb.buf.usedBufLen < length then some q else some { q with polled := true }
      | _ => none
    | .copyOut =>
      match q.socket.call with
      | .recv length =>
        if q.polled then
          some { q with
            socket := copyOut q.socket length
            polled := false
            lengths := q.lengths ++ [length.toNat]
            spans := q.spans ++ q.socket.tcb.buf.copyOutSpans length }
        else none
      | _ => none
    | .close =>
      if q.socket.call = .idle ∧ q.socket.tcb.state = .closed then some q.srtServerClose
      else none

/-- All that a step can do. -/
inductive Steps (q : Queue) : Event → Queue → Prop
  | api (a : Action) (s : Socket) : a ≠ .recvReturn → q.socket.step a = some s →
      Steps q (.api a) { q with socket := s }
  | segment (srcNodeID : UInt32) (seg : Seg) (h : Handled) :
      seghandler q.socket.tcb srcNodeID seg = some h → Steps q (.segment srcNodeID seg) (q.stored h)
  | waits : Steps q .poll q
  | leaves (length : UInt32) : q.socket.call = .recv length →
      length ≤ q.socket.tcb.buf.usedBufLen → Steps q .poll { q with polled := true }
  | copyOut (length : UInt32) : q.socket.call = .recv length → q.polled = true →
      Steps q .copyOut { q with
        socket := Queue.copyOut q.socket length
        polled := false
        lengths := q.lengths ++ [length.toNat]
        spans := q.spans ++ q.socket.tcb.buf.copyOutSpans length }
  | close : q.socket.call = .idle → Steps q .close q.srtServerClose

theorem steps_of_step {q r : Queue} {e : Event} (h : q.step e = some r) :
    q.freed = none ∧ Steps q e r := by
  unfold Queue.step at h
  split at h
  next => contradiction
  next hsome =>
  refine ⟨by simpa using hsome, ?_⟩
  cases e with
  | api a =>
    cases a with
    | recvReturn => contradiction
    | _ =>
      obtain ⟨s, hs, rfl⟩ := Option.map_eq_some_iff.mp h
      exact .api _ s (by simp) hs
  | segment srcNodeID seg =>
    obtain ⟨r, hr, rfl⟩ := Option.map_eq_some_iff.mp h
    exact .segment srcNodeID seg r hr
  | poll =>
    simp only at h
    split at h
    next length hcall =>
      split at h
      next => exact Option.some.inj h ▸ .waits
      next hge => exact Option.some.inj h ▸ .leaves length hcall (UInt32.not_lt.mp hge)
    next => contradiction
  | copyOut =>
    simp only at h
    split at h
    next length hcall =>
      split at h
      next hp => exact Option.some.inj h ▸ .copyOut length hcall hp
      next => contradiction
    next => contradiction
  | close =>
    simp only at h
    split at h
    next hc => exact Option.some.inj h ▸ .close hc.1
    next => contradiction

end Queue

def queueMachine (nodeID port : UInt32) (base : ℕ) : Machine Queue Queue.Event where
  Init q := ∃ mem : ℕ → UInt8, (∀ i < receiveBufSize, mem (base + i) = 0) ∧
    q = .fresh nodeID port mem base
  step := Queue.step

namespace Queue

/-- The bytes that the calls returned, call by call. -/
def taken (q : Queue) : List (List UInt8) := q.socket.returned.map (·.bytes)

/-- What holds after every step. -/
structure Inv (base : ℕ) (q : Queue) : Prop where
  history : ∃ held, Fifo.History q.accepted q.taken held ∧
    (q.freed = none → q.socket.tcb.buf.Holds 0 base held)
  lengths : q.taken.map List.length = q.lengths
  spans : ∀ span ∈ q.spans, RecvBuf.Inside base span
  polled : q.polled = true →
    ∃ length, q.socket.call = .recv length ∧ length ≤ q.socket.tcb.buf.usedBufLen
  freed : ∀ p, q.freed = some p → p = base

theorem fresh_inv {nodeID port : UInt32} {mem : ℕ → UInt8} {base : ℕ}
    (h : ∀ i < receiveBufSize, mem (base + i) = 0) : (fresh nodeID port mem base).Inv base where
  history := ⟨[], .empty, fun _ => .allocated h⟩
  lengths := rfl
  spans := by simp [fresh]
  polled h := by simp [fresh] at h
  freed p h := by simp [fresh] at h

theorem acceptReturn_call {s t : Socket} (h : s.step .acceptReturn = some t) :
    s.call = .accept := by
  simp only [Socket.step] at h
  split at h
  next hc => exact hc.1
  next => contradiction

theorem Inv.not_polled {base : ℕ} {q : Queue} (hq : q.Inv base)
    (hcall : ∀ length, q.socket.call ≠ .recv length) : ¬ q.polled = true := by
  intro hp
  obtain ⟨length, hrecv, _⟩ := hq.polled hp
  exact hcall length hrecv

/-- No step of the application but the locked section of `srt_server_recv` touches the buffer. -/
theorem Inv.api {base : ℕ} {q : Queue} (hq : q.Inv base) {a : Action} {s : Socket}
    (ha : a ≠ .recvReturn) (h : q.socket.step a = some s) :
    ({ q with socket := s } : Queue).Inv base := by
  cases Server.steps_of_step h with
  | accept hc _ =>
    exact { hq with polled := fun hp => absurd hp (hq.not_polled (by simp [hc])) }
  | accepted _ =>
    exact { hq with
      polled := fun hp => absurd hp (hq.not_polled (by simp [acceptReturn_call h])) }
  | acceptFailed hc _ _ =>
    exact { hq with polled := fun hp => absurd hp (hq.not_polled (by simp [hc])) }
  | recv length hc =>
    exact { hq with polled := fun hp => absurd hp (hq.not_polled (by simp [hc])) }
  | recvReturn => exact absurd rfl ha
  | closeWaitTimer _ => exact { hq with }

/-- The bytes of a segment go behind those held, and a caller that has left its polling loop
still finds enough of them. -/
theorem Inv.segment {base : ℕ} {q : Queue} (hq : q.Inv base) (hf : q.freed = none)
    {srcNodeID : UInt32} {seg : Seg} {h : Handled}
    (hs : seghandler q.socket.tcb srcNodeID seg = some h) : (q.stored h).Inv base := by
  obtain ⟨held, hhist, hheld⟩ := hq.history
  have hheld := hheld hf
  obtain ⟨hbuf, hfit⟩ := (handles_of_seghandler hs).stores hheld.room
  constructor
  · refine ⟨held ++ h.stored, hhist.append _, ?_⟩
    intro _
    show h.tcb.buf.Holds 0 base (held ++ h.stored)
    rw [hbuf]
    exact hheld.store hfit
  · exact hq.lengths
  · show ∀ span ∈ (if h.stored = [] then q.spans else q.spans ++ [_]), RecvBuf.Inside base span
    split
    next => exact hq.spans
    next =>
      intro span hspan
      rcases List.mem_append.mp hspan with hspan | hspan
      · exact hq.spans span hspan
      · obtain rfl := List.mem_singleton.mp hspan
        exact hheld.storeSpan_inside hfit
  · intro hp
    obtain ⟨length, hcall, hle⟩ := hq.polled hp
    refine ⟨length, hcall, ?_⟩
    have hsize : receiveBufSize < 2 ^ 32 := by decide
    have hused : (q.socket.tcb.buf.store h.stored).usedBufLen.toNat =
        q.socket.tcb.buf.usedBufLen.toNat + h.stored.length :=
      RecvBuf.usedBufLen_store (by omega)
    have hle' : length.toNat ≤ q.socket.tcb.buf.usedBufLen.toNat := hle
    show length.toNat ≤ h.tcb.buf.usedBufLen.toNat
    rw [hbuf]
    omega
  · exact hq.freed

theorem Inv.copyOut {base : ℕ} {q : Queue} (hq : q.Inv base) (hf : q.freed = none)
    (hp : q.polled = true) {length : UInt32} (hcall : q.socket.call = .recv length) :
    ({ q with
      socket := Queue.copyOut q.socket length
      polled := false
      lengths := q.lengths ++ [length.toNat]
      spans := q.spans ++ q.socket.tcb.buf.copyOutSpans length } : Queue).Inv base := by
  obtain ⟨held, hhist, hheld⟩ := hq.history
  have hheld := hheld hf
  have hle : length.toNat ≤ q.socket.tcb.buf.usedBufLen.toNat := by
    obtain ⟨length', hcall', hle⟩ := hq.polled hp
    rw [hcall] at hcall'
    cases hcall'
    exact hle
  obtain ⟨hout, hrest⟩ := hheld.copyOut hle
  have htaken : (Queue.copyOut q.socket length).returned.map (·.bytes) =
      q.taken ++ [held.take length.toNat] := by
    simp only [Queue.copyOut, List.map_append, List.map_cons, List.map_nil, hout]
    rfl
  constructor
  · refine ⟨held.drop length.toNat, ?_, fun _ => hrest⟩
    show Fifo.History q.accepted ((Queue.copyOut q.socket length).returned.map _) _
    rw [htaken]
    exact hhist.take _
  · show ((Queue.copyOut q.socket length).returned.map _).map List.length = _
    rw [htaken, List.map_append, hq.lengths]
    simp [hheld.length, hle]
  · intro span hspan
    rcases List.mem_append.mp hspan with hspan | hspan
    · exact hq.spans span hspan
    · exact hheld.copyOutSpans_inside hle span hspan
  · intro h
    simp at h
  · exact hq.freed

theorem Inv.close {base : ℕ} {q : Queue} (hq : q.Inv base) (hf : q.freed = none)
    (hcall : q.socket.call = .idle) : q.srtServerClose.Inv base := by
  obtain ⟨held, hhist, hheld⟩ := hq.history
  constructor
  · refine ⟨held, hhist, ?_⟩
    intro hnone
    simp [srtServerClose] at hnone
  · exact hq.lengths
  · exact hq.spans
  · intro hp
    obtain ⟨length, hcall', _⟩ := hq.polled hp
    exact absurd (hcall.symm.trans hcall') (by simp)
  · intro p hp
    rw [← Option.some.inj hp]
    exact (hheld hf).start

theorem Inv.step {base : ℕ} {q r : Queue} (hq : q.Inv base) {e : Event}
    (h : q.step e = some r) : r.Inv base := by
  obtain ⟨hf, hsteps⟩ := steps_of_step h
  cases hsteps with
  | api a s ha hs => exact hq.api ha hs
  | segment srcNodeID seg h hh => exact hq.segment hf hh
  | waits => exact hq
  | leaves length hcall hle => exact { hq with polled := fun _ => ⟨length, hcall, hle⟩ }
  | copyOut length hcall hp => exact hq.copyOut hf hp hcall
  | close hcall => exact hq.close hf hcall

theorem reachable_inv {nodeID port : UInt32} {base : ℕ} {q : Queue}
    (h : (queueMachine nodeID port base).Reachable (fun _ _ => True) q) : q.Inv base := by
  apply h.invariant
  · rintro _ ⟨mem, hmem, rfl⟩
    exact fresh_inv hmem
  · intro q e r hq _ hstep
    exact hq.step hstep

/-- Cells outside the recorded ranges are as they were allocated. -/
def Framed (mem : ℕ → UInt8) (q : Queue) : Prop :=
  ∀ a, (∀ span ∈ q.spans, ¬ RecvBuf.Covers span a) → q.socket.tcb.buf.mem a = mem a

/-- What a step changes lies in the ranges it records. -/
theorem Framed.step {mem : ℕ → UInt8} {base : ℕ} {q r : Queue} (hframed : q.Framed mem)
    (hq : q.Inv base) {e : Event} (h : q.step e = some r) : r.Framed mem := by
  obtain ⟨hf, hsteps⟩ := steps_of_step h
  cases hsteps with
  | api a s ha hs =>
    have hbuf : s.tcb.buf = q.socket.tcb.buf := by
      cases Server.steps_of_step hs with
      | recvReturn => exact absurd rfl ha
      | _ => rfl
    intro a hspans
    rw [hbuf]
    exact hframed a hspans
  | segment srcNodeID seg handled hh =>
    obtain ⟨held, _, hheld⟩ := hq.history
    obtain ⟨hbuf, _⟩ := (handles_of_seghandler hh).stores (hheld hf).room
    intro a hspans
    show handled.tcb.buf.mem a = mem a
    rw [hbuf]
    by_cases hnil : handled.stored = []
    · rw [hnil, RecvBuf.store_nil]
      exact hframed a (by simpa [stored, hnil] using hspans)
    · have hspans : ∀ span ∈ q.spans ++ [q.socket.tcb.buf.storeSpan handled.stored.length],
          ¬ RecvBuf.Covers span a := by simpa only [stored, if_neg hnil] using hspans
      rw [RecvBuf.store_frame _ _ (hspans _ (by simp))]
      exact hframed a fun span hspan => hspans span (List.mem_append_left _ hspan)
  | waits => exact hframed
  | leaves length hcall hle => exact hframed
  | copyOut length hcall hp =>
    intro a hspans
    show (q.socket.tcb.buf.copyOut 0 length).2.mem a = mem a
    rw [RecvBuf.copyOut_frame _ _ _ fun span hspan => hspans span (List.mem_append_right _ hspan)]
    exact hframed a fun span hspan => hspans span (List.mem_append_left _ hspan)
  | close hcall => exact hframed

/-- No run changes a cell outside the block. -/
theorem mem_outside_block {nodeID port : UInt32} {base : ℕ} {mem : ℕ → UInt8}
    (hmem : ∀ i < receiveBufSize, mem (base + i) = 0) {es : List Event} {q : Queue}
    (h : (queueMachine nodeID port base).run (fun _ _ => True) (.fresh nodeID port mem base) es =
      some q) {a : ℕ} (ha : a < base ∨ base + receiveBufSize ≤ a) :
    q.socket.tcb.buf.mem a = mem a := by
  obtain ⟨hq, hframed⟩ := (queueMachine nodeID port base).run_invariant _
    (I := fun q => q.Inv base ∧ q.Framed mem)
    (fun _ _ _ hs _ hstep => ⟨hs.1.step hstep, hs.2.step hs.1 hstep⟩)
    ⟨fresh_inv hmem, fun _ _ => rfl⟩ h
  apply hframed a
  intro span hspan hcovers
  have hinside := hq.spans span hspan
  unfold RecvBuf.Inside at hinside
  unfold RecvBuf.Covers at hcovers
  omega

/-- The locked section finds what the test in `Socket.step` asks for, so it does the same as
the call in one step. -/
theorem copyOut_recvReturn {nodeID port : UInt32} {base : ℕ} {q r : Queue}
    (hq : (queueMachine nodeID port base).Reachable (fun _ _ => True) q)
    (h : q.step .copyOut = some r) : q.socket.step .recvReturn = some r.socket := by
  have hinv := reachable_inv hq
  unfold Queue.step at h
  split at h
  next => contradiction
  next =>
    simp only at h
    split at h
    next length hcall =>
      split at h
      next hp =>
        cases h
        obtain ⟨length', hcall', hle⟩ := hinv.polled hp
        rw [hcall] at hcall'
        cases hcall'
        simp only [Socket.step, hcall, if_pos hle, Queue.copyOut]
      next => contradiction
    next => contradiction

/-- A queue of bytes in the block at `base`: pointer, length, contents and the cleared rest
fit each other, every call returned the next bytes of the stream, nothing outside the block
was touched, a caller past its polling loop finds enough bytes, and the block itself is freed. -/
structure IsFifo (base : ℕ) (q : Queue) : Prop where
  ptr : q.freed = none →
    q.socket.tcb.buf.recvBuf = base + q.socket.tcb.buf.usedBufLen.toNat
  room : q.freed = none → q.socket.tcb.buf.usedBufLen.toNat < receiveBufSize
  contents : q.freed = none → q.accepted =
    q.taken.flatten ++ read q.socket.tcb.buf.mem base q.socket.tcb.buf.usedBufLen.toNat
  cleared : q.freed = none → ∀ i, q.socket.tcb.buf.usedBufLen.toNat ≤ i → i < receiveBufSize →
    q.socket.tcb.buf.mem (base + i) = 0
  next : ∀ (k : ℕ) (bytes : List UInt8), q.taken[k]? = some bytes →
    q.lengths[k]? = some bytes.length ∧
      bytes = (q.accepted.drop (q.taken.take k).flatten.length).take bytes.length
  inside : ∀ span ∈ q.spans, RecvBuf.Inside base span
  enough : q.polled = true →
    ∃ length, q.socket.call = .recv length ∧ length ≤ q.socket.tcb.buf.usedBufLen
  freed : ∀ p, q.freed = some p → p = base

/-- In every run of segments and calls the receive buffer is a queue of bytes. -/
theorem recvBuf_isFifo (nodeID port : UInt32) (base : ℕ) (q : Queue)
    (h : (queueMachine nodeID port base).Reachable (fun _ _ => True) q) : q.IsFifo base := by
  have hq := reachable_inv h
  obtain ⟨held, hhist, hheld⟩ := hq.history
  constructor
  · intro hf
    exact (hheld hf).ptr
  · intro hf
    exact (hheld hf).room
  · intro hf
    rw [(hheld hf).held]
    exact hhist
  · intro hf
    exact (hheld hf).cleared
  · intro k bytes hk
    constructor
    · rw [← hq.lengths, List.getElem?_map, hk]
      rfl
    · exact hhist.next hk
  · exact hq.spans
  · exact hq.polled
  · exact hq.freed

end Queue

/-- A connection that brings two bytes, of which one is read, up to the end of the socket. -/
def Queue.readAndClosed : List Queue.Event :=
  [.api .accept, .segment 1 ⟨⟨4000, 80, 0, 0, 0, SegType.syn, 0, 0⟩, .replicate _ 7⟩,
    .api .acceptReturn, .segment 1 ⟨⟨4000, 80, 0, 0, 2, SegType.data, 0, 0⟩, .replicate _ 7⟩,
    .api (.recv 1), .poll, .copyOut,
    .segment 1 ⟨⟨4000, 80, 0, 0, 0, SegType.fin, 0, 0⟩, .replicate _ 7⟩,
    .api .closeWaitTimer, .close]

theorem recvBuf_isFifo_run : ∃ q : Queue,
    (queueMachine 2 80 4096).run (fun _ _ => True) (.fresh 2 80 (fun _ => 0) 4096)
      Queue.readAndClosed = some q ∧ q.freed = some 4096 ∧ q.IsFifo 4096 := by
  obtain ⟨q, hrun, hq, hfreed⟩ := (queueMachine 2 80 4096).exists_of_run (fun _ _ => True)
    ⟨fun _ => 0, fun _ _ => rfl, rfl⟩ Queue.readAndClosed
    (P := fun q => q.freed = some 4096) (by decide +kernel)
  exact ⟨q, hrun, hfreed, Queue.recvBuf_isFifo 2 80 4096 q hq⟩

end DartNet.Server
