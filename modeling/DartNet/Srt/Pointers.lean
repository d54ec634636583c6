import DartNet.Srt.Stream
import DartNet.Srt.Transmitted

/-! The pointers into the send buffer. A new node is linked behind the one `sendBufTail` points
to, and `sendBufunSent` divides the nodes that were transmitted from those that were not. -/
namespace DartNet.Client
open Transition Chunks

/-- A socket with its `sendBufTail` -/
structure Linked where
  socket : Socket
  sendBufTail : Option ℕ

/-- `sendBufTail->next = currentSegBuf`, for a node in the list: there the list goes on with the
new node. For any other pointer the effect is not defined. -/
def linkAfter (bufs : List SegBuf) (currentSegBuf : SegBuf) : Option ℕ → Option (List SegBuf)
  | none => none
  | some a =>
    match bufs.dropWhile (·.addr ≠ a) with
    | [] => none
    | tail :: _ => some (bufs.takeWhile (·.addr ≠ a) ++ [tail, currentSegBuf])

namespace Linked

/-- One turn of the queueing loop of `srt_client_send` -/
def queue (l : Linked) (data : List UInt8) (num dataRemainder : ℕ) : Option Linked :=
  let s := l.socket.queue data num dataRemainder
  let addr := l.socket.queued.length
  if l.socket.tcb.sendBuf = [] then some ⟨s, some addr⟩
  else
    let length := if 0 < num then maxSegLen else dataRemainder
    let currentSegBuf := ⟨addr, l.socket.tcb.dataSeg length data, 0⟩
    (linkAfter l.socket.tcb.sendBuf currentSegBuf l.sendBufTail).map fun bufs =>
      ⟨{ s with tcb := { s.tcb with sendBuf := bufs } }, some addr⟩

def step (l : Linked) : Event → Option Linked
  | .api .queueSegment =>
    match l.socket.call with
    | .send data (num + 1) dataRemainder =>
      if l.socket.tcb.bufMutex then none else l.queue data num dataRemainder
    | _ => none
  | .api (.disconnect sendOk) =>
    (l.socket.step (.disconnect sendOk)).map fun r => ⟨r.1, none⟩
  | .api a => (l.socket.step a).map fun r => ⟨r.1, l.sendBufTail⟩
  | .segment srcNodeID seg => (l.socket.receive srcNodeID seg).map fun s => ⟨s, l.sendBufTail⟩

/-- The tail of a list that is not empty is the node queued last. -/
def TailOk (l : Linked) : Prop :=
  l.socket.tcb.sendBuf ≠ [] → l.sendBufTail = some (l.socket.queued.length - 1)

end Linked

def linkedMachine (nodeID clientPort : UInt32) : Machine Linked Event where
  Init l := l = ⟨.fresh nodeID clientPort, none⟩
  step := Linked.step

theorem linkAfter_last {bufs : List SegBuf} {f : ℕ}
    (haddr : bufs.map (·.addr) = List.range' f bufs.length) (hne : bufs ≠ []) (b : SegBuf) :
    linkAfter bufs b (some (f + bufs.length - 1)) = some (bufs ++ [b]) := by
  have hpos := List.length_pos_iff.mpr hne
  obtain ⟨htake, hdrop⟩ := takeWhile_addr_ne (a := f + bufs.length - 1) haddr (by omega) (by omega)
  have hsub : f + bufs.length - 1 - f = bufs.length - 1 := by omega
  have hlast : bufs.drop (bufs.length - 1) = [bufs.getLast hne] := List.drop_length_sub_one hne
  rw [hsub] at htake hdrop
  simp only [linkAfter]
  rw [hdrop, htake, hlast]
  simp only [Option.some.injEq]
  rw [← List.dropLast_eq_take]
  conv_rhs => rw [← List.dropLast_append_getLast hne]
  simp

namespace Linked
variable {l l' : Linked}

/-- Linking behind the tail appends to the list. -/
theorem queue_eq (hc : Chain l.socket) (ht : l.TailOk) (data : List UInt8)
    (num dataRemainder : ℕ) : l.queue data num dataRemainder =
      some ⟨l.socket.queue data num dataRemainder, some l.socket.queued.length⟩ := by
  unfold Linked.queue
  split
  next => rfl
  next hne =>
    have hlink := linkAfter_last hc.addr hne ⟨l.socket.queued.length,
      l.socket.tcb.dataSeg (if 0 < num then maxSegLen else dataRemainder) data, 0⟩
    rw [hc.length, ← ht hne] at hlink
    dsimp only
    rw [hlink]
    rfl

theorem queued_of_queue {data : List UInt8} {num dataRemainder : ℕ}
    (h : l.queue data num dataRemainder = some l') :
    l'.socket.queued = (l.socket.queue data num dataRemainder).queued := by
  unfold Linked.queue at h
  split at h
  next => exact Option.some.inj h ▸ rfl
  next =>
    obtain ⟨_, _, rfl⟩ := Option.map_eq_some_iff.mp h
    rfl

theorem queued_grows {e : Event} (h : l.step e = some l') :
    l.socket.queued <+: l'.socket.queued := by
  cases e with
  | segment srcNodeID seg =>
    obtain ⟨s, hs, rfl⟩ := Option.map_eq_some_iff.mp h
    obtain ⟨_, _, rfl⟩ := receive_handles hs
    exact List.prefix_rfl
  | api a =>
    cases a with
    | queueSegment =>
      simp only [Linked.step] at h
      split at h
      next =>
        split at h
        next => contradiction
        next =>
          rw [queued_of_queue h]
          exact List.prefix_append _ _
      next => contradiction
    | _ =>
      obtain ⟨r, hr, rfl⟩ := Option.map_eq_some_iff.mp h
      exact Srt.client_queued_grows hr

/-- Other steps append nothing to the list. -/
theorem step_appends_nothing {s : Socket} {a : Action} (ha : a ≠ .queueSegment)
    {r : Socket × List Seg} (h : s.step a = some r) :
    r.1.queued = s.queued ∧ (s.tcb.sendBuf = [] → r.1.tcb.sendBuf = []) := by
  have hsent : ∀ {t : Socket} {q : ClientTcb × List SegBuf}, SendsFrom t.tcb q.1 q.2 →
      t.tcb.sendBuf = [] → (t.sentNodes q).1.tcb.sendBuf = [] := by
    intro t q hr hnil
    have hlen := hr.nodes.length
    rw [hnil, List.length_nil] at hlen
    exact List.eq_nil_of_length_eq_zero hlen
  cases steps_of_step h with
  | queueSegment _ _ _ _ _ => exact absurd rfl ha
  | sendReturn env r hr =>
    exact ⟨rfl, hsent (t := { s with call := .idle }) (sendMaxSegments_sendsFrom hr)⟩
  | sendMaxSegments env r hr => exact ⟨rfl, hsent (sendMaxSegments_sendsFrom hr)⟩
  | sendBufTimer env r hr => exact ⟨rfl, hsent (sendBufTimer_sendsFrom hr)⟩
  | disconnect _ _ _ _ => exact ⟨rfl, fun _ => rfl⟩
  | _ => exact ⟨rfl, id⟩

/-- A step is one of the socket, and `sendBufTail` stays, or is set to the new node, or the list
is empty. -/
theorem step_cases (hc : Chain l.socket) (ht : l.TailOk) {e : Event} (h : l.step e = some l')
    (nodeID clientPort : UInt32) :
    (socketMachine nodeID clientPort).step l.socket e = some l'.socket ∧
      ((l'.sendBufTail = some l.socket.queued.length ∧
          l'.socket.queued.length = l.socket.queued.length + 1) ∨
        l'.socket.tcb.sendBuf = [] ∨
        (l'.sendBufTail = l.sendBufTail ∧ l'.socket.queued = l.socket.queued ∧
          (l.socket.tcb.sendBuf = [] → l'.socket.tcb.sendBuf = []))) := by
  cases e with
  | api a =>
    by_cases hqueue : a = .queueSegment
    · subst hqueue
      simp only [Linked.step] at h
      split at h
      next data num dataRemainder hcall =>
        split at h
        next => contradiction
        next hmutex =>
          rw [queue_eq hc ht] at h
          obtain rfl := Option.some.inj h
          refine ⟨?_, .inl ⟨rfl, by simp [Socket.queue]⟩⟩
          simp [socketMachine, Socket.step, hcall, hmutex]
      next => contradiction
    by_cases hdisconnect : ∃ sendOk, a = .disconnect sendOk
    · obtain ⟨sendOk, rfl⟩ := hdisconnect
      obtain ⟨r, hr, rfl⟩ := Option.map_eq_some_iff.mp h
      refine ⟨by simp [socketMachine, hr], .inr (.inl ?_)⟩
      cases steps_of_step hr
      rfl
    · have hstep : l.step (.api a) = (l.socket.step a).map fun r => ⟨r.1, l.sendBufTail⟩ := by
        cases a with
        | queueSegment => exact absurd rfl hqueue
        | disconnect sendOk => exact absurd ⟨sendOk, rfl⟩ hdisconnect
        | _ => rfl
      rw [hstep] at h
      obtain ⟨r, hr, rfl⟩ := Option.map_eq_some_iff.mp h
      obtain ⟨hq, hnil⟩ := step_appends_nothing hqueue hr
      exact ⟨by simp [socketMachine, hr], .inr (.inr ⟨rfl, hq, hnil⟩)⟩
  | segment srcNodeID seg =>
    obtain ⟨s, hs, rfl⟩ := Option.map_eq_some_iff.mp h
    refine ⟨hs, .inr (.inr ⟨rfl, ?_⟩)⟩
    obtain ⟨r, hr, rfl⟩ := receive_handles hs
    cases hr with
    | dataack _ _ _ => exact ⟨rfl, fun hnil => by simp [ClientTcb.freeAcked, hnil]⟩
    | _ => exact ⟨rfl, id⟩

theorem TailOk.step (ht : l.TailOk) (hc : Chain l.socket) {e : Event}
    (h : l.step e = some l') : l'.TailOk := by
  obtain ⟨_, ⟨htail, hq⟩ | hnil | ⟨htail, hq, hnil⟩⟩ := step_cases hc ht h 0 0
  · intro _
    rw [htail, hq, Nat.add_sub_cancel]
  · exact fun hne => absurd hnil hne
  · intro hne
    rw [htail, hq]
    exact ht fun h => hne (hnil h)

end Linked

/-- The number is not beyond the end of a transmitted segment. -/
def Socket.WithinTransmitted (s : Socket) (n : ℕ) : Prop :=
  n = 0 ∨ ∃ a ∈ s.transmitted, ∃ q ∈ s.queued[a]?,
    n ≤ q.header.seqNum.toNat + q.header.length.toNat

/-- No acknowledgement is beyond the end of the last transmitted segment. -/
def AcksWithin (s : Socket) : Event → Prop
  | .api _ => True
  | .segment _ seg => seg.header.type = SegType.dataack →
      s.WithinTransmitted seg.header.seqNum.toNat

instance (s : Socket) (n : ℕ) : Decidable (s.WithinTransmitted n) :=
  inferInstanceAs (Decidable (_ ∨ _))

instance (s : Socket) (e : Event) : Decidable (AcksWithin s e) := by
  rcases e with _ | _ <;> dsimp only [AcksWithin] <;> infer_instance

/-- The pointers agree with what was transmitted, and sequence numbers with the stream. -/
structure LinkedOk (l : Linked) : Prop where
  marked : Marked l.socket
  call : CallOk l.socket
  numbered : Srt.Numbered l.socket
  fits : ∀ q ∈ l.socket.queued, q.header.length.toNat ≤ maxSegLen
  tail : l.TailOk

namespace LinkedOk
variable {l l' : Linked}

theorem fresh (nodeID clientPort : UInt32) : LinkedOk ⟨.fresh nodeID clientPort, none⟩ where
  marked := .fresh nodeID clientPort
  call := .fresh nodeID clientPort
  numbered := by
    constructor <;> simp [Socket.fresh, srtClientSock, Srt.queuedBytes]
  fits := by simp [Socket.fresh]
  tail h := absurd rfl h

/-- An acknowledgement within what was transmitted frees only nodes before the pointer. -/
theorem acked (hl : LinkedOk l) {ack : UInt32}
    (hack : l.socket.WithinTransmitted ack.toNat) :
    ∀ b ∈ l.socket.tcb.acked ack, b.addr < l.socket.sentCount := by
  intro b hb
  obtain ⟨i, hi⟩ := List.mem_iff_getElem?.mp hb
  obtain ⟨_, hlt⟩ := hl.numbered.acked hl.marked.chain hi
  obtain hzero | ⟨a, ha, q, hq, hle⟩ := hack
  · omega
  · have hq' : l.socket.queued[a]? = some q := hq
    have hend := offset_succ Seg.payload hq'
    rw [Seg.length_payload (hl.fits q (List.mem_of_getElem? hq')),
      ← hl.numbered.seqNum a q hq'] at hend
    have hba := lt_of_offset_lt Seg.payload (hlt.trans_le (hle.trans hend.ge))
    have := hl.marked.before a ha
    omega

theorem step (hl : LinkedOk l) {e : Event} (hfailed : NoneFails e)
    (hack : AcksWithin l.socket e) (h : l.step e = some l')
    (hlt : (Srt.queuedBytes l'.socket).length < 2 ^ 32) : LinkedOk l' := by
  have htail := hl.tail.step hl.marked.chain h
  obtain ⟨hstep, _⟩ := Linked.step_cases hl.marked.chain hl.tail h 0 0
  cases e with
  | api a =>
    obtain ⟨r, hr, hrl⟩ := Option.map_eq_some_iff.mp hstep
    rw [← hrl] at hlt
    refine ⟨hrl ▸ hl.marked.step hfailed hr, hrl ▸ hl.call.step hr,
      hrl ▸ hl.numbered.step hl.call hr hlt, ?_, htail⟩
    rw [← hrl]
    obtain ⟨hq, _⟩ | ⟨_, data, num, dataRemainder, hrem, hr'⟩ := Srt.queue_or_same hl.call hr
    · rw [hq]
      exact hl.fits
    · intro q hq
      rw [hr'] at hq
      rcases List.mem_append.mp hq with hq | hq
      · exact hl.fits q hq
      · have hle : (if 0 < num then maxSegLen else dataRemainder) ≤ maxSegLen := by
          split <;> omega
        rw [List.mem_singleton.mp hq, Srt.dataSeg_length _ hle]
        exact hle
  | segment srcNodeID seg =>
    have hm := hl.marked.receive (fun ht => hl.acked (hack ht)) hstep
    have hcall := hl.call.receive hstep
    obtain ⟨r, hr, hl'⟩ := receive_handles hstep
    refine ⟨hm, hcall, ?_, ?_, htail⟩
    · rw [hl']
      cases hr <;> exact { hl.numbered with }
    · rw [hl']
      exact hl.fits

end LinkedOk

theorem reachable_linkedOk {nodeID clientPort : UInt32} {l : Linked}
    (h : (linkedMachine nodeID clientPort).Reachable
      (fun l e => NoneFails e ∧ AcksWithin l.socket e) l)
    (hlt : (Srt.queuedBytes l.socket).length < 2 ^ 32) : LinkedOk l := by
  induction h with
  | init h => exact h ▸ .fresh nodeID clientPort
  | @step l l' e _ hok hstep ih =>
    have hle : (Srt.queuedBytes l.socket).length ≤ (Srt.queuedBytes l'.socket).length :=
      (List.IsPrefix.flatMap (Linked.queued_grows hstep) Seg.payload).length_le
    exact (ih (hle.trans_lt hlt)).step hok.1 hok.2 hstep hlt

/-- What `sendBufunSent` and `sendBufTail` point to -/
structure PointersOk (l : Linked) : Prop where
  split : ∃ before behind, l.socket.tcb.sendBuf = before ++ behind ∧
    l.socket.tcb.sendBufunSent = behind.head?.map (·.addr) ∧
    (∀ b ∈ before, b.addr ∈ l.socket.transmitted) ∧
    ∀ b ∈ behind, b.addr ∉ l.socket.transmitted
  null_iff : l.socket.tcb.sendBufunSent = none ↔
    ∀ b ∈ l.socket.tcb.sendBuf, b.addr ∈ l.socket.transmitted
  tail : l.socket.tcb.sendBuf ≠ [] →
    l.sendBufTail = l.socket.tcb.sendBuf.getLast?.map (·.addr)
  notFreed : ∀ ack : UInt32, l.socket.WithinTransmitted ack.toNat →
    ∀ b ∈ l.socket.tcb.acked ack,
      b.addr ∈ l.socket.transmitted ∧ l.socket.tcb.sendBufunSent ≠ some b.addr
  notSkipped : ∀ env r, env.failed = [] → l.socket.tcb.sendMaxSegments env = some r →
    r.2.map (·.addr) <+:
      (l.socket.tcb.sendBuf.map (·.addr)).filter (· ∉ l.socket.transmitted)

/-- The pointer divides the transmitted nodes from the others. -/
theorem Marked.split {s : Socket} (hs : Marked s) : ∃ before behind,
    s.tcb.sendBuf = before ++ behind ∧ s.tcb.sendBufunSent = behind.head?.map (·.addr) ∧
      (∀ b ∈ before, b.addr ∈ s.transmitted) ∧ (∀ b ∈ behind, b.addr ∉ s.transmitted) ∧
      behind.map (·.addr) = List.range' s.sentCount (s.queued.length - s.sentCount) := by
  obtain ⟨n, hn⟩ := Nat.exists_eq_add_of_le hs.chain.freed_le
  have hlen := hs.chain.length
  have hle := hs.chain.sentCount_le
  refine ⟨s.tcb.sendBuf.take n, s.tcb.sendBuf.drop n, (List.take_append_drop n _).symm,
    ?_, ?_, ?_, ?_⟩
  · have hcount : s.sentCount = s.tcb.sendBufunSent.getD s.queued.length := by
      rw [Socket.sentCount, hs.mutex]
      rfl
    rw [List.head?_drop]
    cases hptr : s.tcb.sendBufunSent with
    | none =>
      rw [hptr, Option.getD_none] at hcount
      rw [List.getElem?_eq_none (by omega), Option.map_none]
    | some a =>
      have ha := hs.chain.unSent a hptr
      rw [hptr, Option.getD_some] at hcount
      have hb := List.getElem?_eq_getElem (l := s.tcb.sendBuf) (i := n) (by omega)
      rw [hb, Option.map_some, (hs.chain.getElem? hb).1, ← hn, hcount]
  · intro b hb
    obtain ⟨i, hi⟩ := List.mem_iff_getElem?.mp hb
    rw [List.getElem?_take] at hi
    split at hi
    next hin =>
      obtain ⟨haddr, _⟩ := hs.chain.getElem? hi
      exact hs.all b.addr (by omega) (by omega)
    next => contradiction
  · intro b hb ht
    obtain ⟨i, hi⟩ := List.mem_iff_getElem?.mp hb
    rw [List.getElem?_drop] at hi
    obtain ⟨haddr, _⟩ := hs.chain.getElem? hi
    have := hs.before b.addr ht
    omega
  · have hsub : s.tcb.sendBuf.length - n = s.queued.length - s.sentCount := by omega
    rw [List.map_drop, hs.chain.addr, List.drop_range', Nat.mul_one, ← hn, hsub]

namespace LinkedOk
variable {l : Linked}

theorem notSkipped (hl : LinkedOk l) {env : Env} (hfailed : env.failed = [])
    {r : ClientTcb × List SegBuf} (h : l.socket.tcb.sendMaxSegments env = some r) :
    r.2.map (·.addr) <+:
      (l.socket.tcb.sendBuf.map (·.addr)).filter (· ∉ l.socket.transmitted) := by
  obtain ⟨before, behind, hbuf, _, hbefore, hbehind, haddr⟩ := hl.marked.split
  have hkept : (l.socket.tcb.sendBuf.map (·.addr)).filter (· ∉ l.socket.transmitted) =
      List.range' l.socket.sentCount (l.socket.queued.length - l.socket.sentCount) := by
    rw [hbuf, List.map_append, List.filter_append, List.filter_eq_nil_iff.mpr,
      List.filter_eq_self.mpr, List.nil_append, haddr]
    · simpa using hbehind
    · simpa using hbefore
  have hle : (l.socket.sentNodes r).1.sentCount ≤ l.socket.queued.length :=
    (hl.marked.chain.sendMaxSegments h).1.chain.sentCount_le
  rw [hkept, (hl.marked.chain.sendMaxSegments_addr hfailed h).1,
    ← List.take_range'_of_length_ge (Nat.sub_le_sub_right hle _)]
  exact List.take_prefix _ _

theorem notFreed (hl : LinkedOk l) {ack : UInt32}
    (hack : l.socket.WithinTransmitted ack.toNat) {b : SegBuf}
    (hb : b ∈ l.socket.tcb.acked ack) :
    b.addr ∈ l.socket.transmitted ∧ l.socket.tcb.sendBufunSent ≠ some b.addr := by
  obtain ⟨i, hi⟩ := List.mem_iff_getElem?.mp hb
  obtain ⟨haddr, _⟩ := hl.numbered.acked hl.marked.chain hi
  have hlt := hl.acked hack b hb
  refine ⟨hl.marked.all b.addr (by omega) hlt, ?_⟩
  intro hptr
  rw [Socket.sentCount, hl.marked.mutex, hptr] at hlt
  exact lt_irrefl b.addr hlt

theorem pointersOk (hl : LinkedOk l) : PointersOk l := by
  obtain ⟨before, behind, hbuf, hptr, hbefore, hbehind, _⟩ := hl.marked.split
  refine ⟨⟨before, behind, hbuf, hptr, hbefore, hbehind⟩, ?_, ?_,
    fun ack hack b hb => hl.notFreed hack hb, fun env r hfailed hr => hl.notSkipped hfailed hr⟩
  · rw [hptr, hbuf]
    cases behind with
    | nil => simpa using hbefore
    | cons b behind =>
      refine ⟨fun h => by simp at h, ?_⟩
      exact fun h => absurd (h b (by simp)) (hbehind b (by simp))
  · intro hne
    have hlen := hl.marked.chain.length
    have hpos := List.length_pos_iff.mpr hne
    have hlast := List.getElem?_eq_getElem (l := l.socket.tcb.sendBuf)
      (i := l.socket.tcb.sendBuf.length - 1) (by omega)
    rw [List.getLast?_eq_getElem?, hlast, Option.map_some,
      (hl.marked.chain.getElem? hlast).1, hl.tail hne]
    congr 1
    omega

end LinkedOk

/-- In every run `sendBufunSent` divides the segments that were transmitted from those that were
not, and the list ends at `sendBufTail`. -/
theorem unsent_divides (nodeID clientPort : UInt32) (l : Linked)
    (h : (linkedMachine nodeID clientPort).Reachable
      (fun l e => NoneFails e ∧ AcksWithin l.socket e) l)
    (hlt : (Srt.queuedBytes l.socket).length < 2 ^ 32) : PointersOk l :=
  (reachable_linkedOk h hlt).pointersOk

/-- Send twelve bytes, eleven of them before the window is full, have two acknowledged, time
out and send a last one. -/
def sendPastWindow : List Event :=
  sendBytes 12 ++ [.segment 2 (controlSeg 80 4000 SegType.dataack 2),
    .api (.sendBufTimer ⟨fun _ => 0, []⟩), .api (.send [7]), .api .queueSegment]

theorem unsent_divides_run : ∃ l : Linked,
    (linkedMachine 1 4000).run (fun l e => NoneFails e ∧ AcksWithin l.socket e)
      ⟨.fresh 1 4000, none⟩ sendPastWindow = some l ∧
    l.socket.tcb.sendBufunSent = some 12 ∧ PointersOk l := by
  obtain ⟨l, hrun, hl, hlen, hptr⟩ := (linkedMachine 1 4000).exists_of_run
    (fun l e => NoneFails e ∧ AcksWithin l.socket e) rfl sendPastWindow
    (P := fun l => (Srt.queuedBytes l.socket).length = 13 ∧
      l.socket.tcb.sendBufunSent = some 12) (by decide +kernel)
  exact ⟨l, hrun, hptr, unsent_divides 1 4000 l hl (hlen.trans_lt (by decide))⟩

end DartNet.Client
