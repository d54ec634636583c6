import DartNet.Srt.Client
import Mathlib.Data.List.Basic

/-! The send buffer over a run. The node of the `i`-th queued segment has address `i`; the
buffer is the queue without the segments freed, and `sendBufunSent` never dangles. -/
namespace DartNet.Client

/-- Sending changes neither addresses nor segments, apart from the checksum field. -/
structure SameNodes (bs cs : List SegBuf) : Prop where
  addr : bs.map (·.addr) = cs.map (·.addr)
  seg : bs.map (·.seg.clearChecksum) = cs.map (·.seg.clearChecksum)

theorem SameNodes.refl (bs : List SegBuf) : SameNodes bs bs := ⟨rfl, rfl⟩

theorem SameNodes.cons_touch {bs cs : List SegBuf} (h : SameNodes bs cs) (b : SegBuf)
    (now : UInt64) : SameNodes (b.touch now :: bs) (b :: cs) :=
  ⟨congrArg (b.addr :: ·) h.addr, congrArg (b.seg.clearChecksum :: ·) h.seg⟩

theorem SameNodes.length {bs cs : List SegBuf} (h : SameNodes bs cs) : bs.length = cs.length := by
  simpa using congrArg List.length h.addr

theorem SameNodes.append_left {bs cs : List SegBuf} (h : SameNodes bs cs) (before : List SegBuf) :
    SameNodes (before ++ bs) (before ++ cs) :=
  ⟨by simp [h.addr], by simp [h.seg]⟩

theorem SameNodes.getElem? {bs cs : List SegBuf} (h : SameNodes bs cs) {j : ℕ} {b : SegBuf}
    (hb : bs[j]? = some b) :
    ∃ c, cs[j]? = some c ∧ c.addr = b.addr ∧ c.seg.clearChecksum = b.seg.clearChecksum := by
  have ha := congrArg (·[j]?) h.addr
  have hs := congrArg (·[j]?) h.seg
  simp only [List.getElem?_map, hb, Option.map_some] at ha hs
  obtain ⟨c, hc, hca⟩ := Option.map_eq_some_iff.mp ha.symm
  rw [hc, Option.map_some] at hs
  exact ⟨c, hc, hca, (Option.some.inj hs).symm⟩

theorem takeWhile_addr_ne {bs : List SegBuf} {f a : ℕ}
    (h : bs.map (·.addr) = List.range' f bs.length) (hf : f ≤ a) (ha : a < f + bs.length) :
    bs.takeWhile (·.addr ≠ a) = bs.take (a - f) ∧ bs.dropWhile (·.addr ≠ a) = bs.drop (a - f) := by
  induction bs generalizing f with
  | nil => simp at ha; omega
  | cons b bs ih =>
    simp only [List.map_cons, List.length_cons, List.range'_succ, List.cons.injEq] at h
    by_cases hb : b.addr = a
    · have hfa : a - f = 0 := by omega
      simp [hb, hfa]
    · have hlt : f + 1 ≤ a := by omega
      have hsucc : a - f = (a - (f + 1)) + 1 := by omega
      obtain ⟨htake, hdrop⟩ := ih h.2 hlt (by simp only [List.length_cons] at ha; omega)
      rw [hsucc, List.take_succ_cons, List.drop_succ_cons, ← htake, ← hdrop]
      simp [hb]

/-- All that `sendMaxSegments` can do. -/
theorem sendMaxSegments_cases {tcb : ClientTcb} {env : Env} {r : ClientTcb × List SegBuf}
    (h : tcb.sendMaxSegments env = some r) : tcb.bufMutex = false ∧
      ((tcb.sendBufunSent = none ∧ r = (tcb, [])) ∨ ∃ a q, tcb.sendBufunSent = some a ∧
        tcb.sendBuf.dropWhile (·.addr ≠ a) ≠ [] ∧
        q = sendMaxLoop env 0 tcb.unAckSegNum (tcb.sendBuf.dropWhile (·.addr ≠ a)) ∧
        r = ({ tcb with
          bufMutex := q.failed
          sendBuf := tcb.sendBuf.takeWhile (·.addr ≠ a) ++ q.bufs
          sendBufunSent := if q.failed then some a else q.currentSegBuf
          unAckSegNum := q.unAckSegNum }, q.sent)) := by
  unfold ClientTcb.sendMaxSegments at h
  split at h
  next => contradiction
  next hmutex =>
    refine ⟨by simpa using hmutex, ?_⟩
    split at h
    next hptr => exact .inl ⟨hptr, (Option.some.inj h).symm⟩
    next a hptr =>
      dsimp only at h
      split at h
      next => contradiction
      next hunsent => exact .inr ⟨a, _, hptr, hunsent, rfl, (Option.some.inj h).symm⟩

/-- All that the locked section of `sendBuf_timer` can do. -/
theorem sendBufTimer_cases {tcb : ClientTcb} {env : Env} {r : ClientTcb × List SegBuf}
    (h : tcb.sendBufTimer env = some r) : tcb.bufMutex = false ∧
      ∃ q, q = resendLoop env tcb.unAckSegNum 0 tcb.sendBuf ∧
        r = ({ tcb with sendBuf := q.bufs, sendBufunSent := q.currentSegBuf }, q.sent) := by
  unfold ClientTcb.sendBufTimer at h
  split at h
  next => contradiction
  next hmutex => exact ⟨by simpa using hmutex, _, rfl, (Option.some.inj h).symm⟩

/-- `sendMaxSegments` sends the first `m` of the nodes `bs`. -/
structure SendsMax (bs : List SegBuf) (unAck : UInt32) (r : SendRun) (m : ℕ) : Prop where
  le : m ≤ bs.length
  same : SameNodes r.bufs bs
  sent : r.sent = r.bufs.take m
  unAckSegNum : r.unAckSegNum.toNat = unAck.toNat + m
  window : m = 0 ∨ unAck.toNat + m ≤ gbnWindow + 1
  current : r.failed = false → r.currentSegBuf = (bs.drop m).head?.map (·.addr)

theorem toNat_unAck_succ {unAck : UInt32} (hw : unAck.toNat ≤ gbnWindow) :
    (unAck + 1).toNat = unAck.toNat + 1 := by
  simp only [UInt32.toNat_add, gbnWindow] at *
  simp
  omega

theorem sendMaxLoop_sends (env : Env) (k : ℕ) (unAck : UInt32) (bs : List SegBuf) :
    ∃ m, SendsMax bs unAck (sendMaxLoop env k unAck bs) m := by
  induction bs generalizing k unAck with
  | nil => exact ⟨0, le_rfl, .refl _, rfl, rfl, .inl rfl, fun _ => rfl⟩
  | cons b bs ih =>
    simp only [sendMaxLoop]
    split
    next hw =>
      split
      next =>
        obtain ⟨m, h⟩ := ih (k + 1) (unAck + 1)
        have hu := toNat_unAck_succ hw
        refine ⟨m + 1, ?_⟩
        exact
          { le := Nat.succ_le_succ h.le
            same := h.same.cons_touch b _
            sent := by simp [h.sent]
            unAckSegNum := by simp only [h.unAckSegNum, hu]; omega
            window := .inr (by rcases h.window with rfl | h <;> omega)
            current := h.current }
      next =>
        exact ⟨0, Nat.zero_le _, SameNodes.cons_touch (.refl bs) b _, rfl, rfl, .inl rfl,
          fun h => by simp at h⟩
    next => exact ⟨0, Nat.zero_le _, .refl _, rfl, rfl, .inl rfl, fun _ => rfl⟩

/-- The timer passes the first `m` of the nodes, sending those it can. -/
structure Resends (bs : List SegBuf) (r : SendRun) (m : ℕ) : Prop where
  le : m ≤ bs.length
  same : SameNodes r.bufs bs
  sent : r.sent.Sublist (r.bufs.take m)
  current : r.currentSegBuf = (bs.drop m).head?.map (·.addr)

theorem resendLoop_resends (env : Env) (unAck : UInt32) (k : ℕ) (bs : List SegBuf) :
    Resends bs (resendLoop env unAck k bs) (min (unAck.toNat + 1 - k) bs.length) := by
  induction bs generalizing k with
  | nil => exact ⟨by simp, .refl _, by simp [resendLoop], by simp [resendLoop]⟩
  | cons b bs ih =>
    simp only [resendLoop]
    split
    next hk =>
      have h := ih (k + 1)
      have hm : min (unAck.toNat + 1 - k) (b :: bs).length =
          min (unAck.toNat + 1 - (k + 1)) bs.length + 1 := by
        simp only [List.length_cons]
        omega
      rw [hm]
      refine ⟨Nat.succ_le_succ h.le, h.same.cons_touch b _, ?_, h.current⟩
      simp only [List.take_succ_cons]
      split
      next => exact h.sent.cons_cons _
      next => exact h.sent.cons _
    next hk =>
      have hm : min (unAck.toNat + 1 - k) (b :: bs).length = 0 := by omega
      rw [hm]
      exact ⟨Nat.zero_le _, .refl _, List.nil_sublist _, rfl⟩

/-- Every node below this one may have been sent, no node from it on has been. -/
def Socket.sentCount (s : Socket) : ℕ :=
  if s.tcb.bufMutex then s.queued.length else s.tcb.sendBufunSent.getD s.queued.length

structure Chain (s : Socket) : Prop where
  addr : s.tcb.sendBuf.map (·.addr) = List.range' s.freed.length s.tcb.sendBuf.length
  seg : s.tcb.sendBuf.map (·.seg.clearChecksum) = s.queued.drop s.freed.length
  freed : s.freed.map Seg.clearChecksum = s.queued.take s.freed.length
  unSent : ∀ a, s.tcb.sendBufunSent = some a → a < s.queued.length
  freed_le : s.freed.length ≤ s.sentCount
  window : s.tcb.bufMutex = false →
    s.sentCount ≤ s.freed.length + s.tcb.unAckSegNum.toNat + 1

namespace Chain
variable {s : Socket}

theorem fresh (nodeID clientPort : UInt32) : Chain (.fresh nodeID clientPort) where
  addr := rfl
  seg := rfl
  freed := rfl
  unSent _ h := by simp [Socket.fresh, srtClientSock] at h
  freed_le := Nat.zero_le _
  window _ := Nat.zero_le _

theorem sentCount_le (hs : Chain s) : s.sentCount ≤ s.queued.length := by
  unfold Socket.sentCount
  split
  next => exact le_rfl
  next =>
    cases h : s.tcb.sendBufunSent with
    | none => exact le_rfl
    | some a => exact (hs.unSent a h).le

theorem length (hs : Chain s) :
    s.freed.length + s.tcb.sendBuf.length = s.queued.length := by
  have h := congrArg List.length hs.seg
  have hle := hs.freed_le.trans hs.sentCount_le
  simp only [List.length_map, List.length_drop] at h
  omega

theorem getElem? (hs : Chain s) {i : ℕ} {b : SegBuf} (h : s.tcb.sendBuf[i]? = some b) :
    b.addr = s.freed.length + i ∧ s.queued[s.freed.length + i]? = some b.seg.clearChecksum := by
  have ha := congrArg (·[i]?) hs.addr
  have hseg := congrArg (·[i]?) hs.seg
  have hi := (List.getElem?_eq_some_iff.mp h).choose
  simp only [List.getElem?_map, h, Option.map_some, List.getElem?_range' hi, Nat.one_mul] at ha
  simp only [List.getElem?_map, h, Option.map_some, List.getElem?_drop] at hseg
  exact ⟨Option.some.inj ha, hseg.symm⟩

theorem node (hs : Chain s) {bs : List SegBuf} (hsame : SameNodes bs s.tcb.sendBuf) {i : ℕ}
    {b : SegBuf} (h : bs[i]? = some b) :
    b.addr = s.freed.length + i ∧ s.queued[b.addr]? = some b.seg.clearChecksum := by
  obtain ⟨c, hc, haddr, hseg⟩ := hsame.getElem? h
  obtain ⟨hca, hcq⟩ := hs.getElem? hc
  rw [← haddr, ← hseg, hca]
  exact ⟨rfl, hcq⟩

/-- Where the pointer stands after `j` nodes. -/
theorem head?_drop (hs : Chain s) {j : ℕ} (hj : j ≤ s.tcb.sendBuf.length) :
    (∀ a, ((s.tcb.sendBuf.drop j).head?.map (·.addr)) = some a → a < s.queued.length) ∧
      ((s.tcb.sendBuf.drop j).head?.map (·.addr)).getD s.queued.length = s.freed.length + j := by
  have hlen := hs.length
  rw [List.head?_drop]
  cases h : s.tcb.sendBuf[j]? with
  | none =>
    have := List.getElem?_eq_none_iff.mp h
    simp only [Option.map_none, Option.getD_none, reduceCtorEq, false_imp_iff, implies_true,
      true_and]
    omega
  | some b =>
    obtain ⟨hlt, _⟩ := List.getElem?_eq_some_iff.mp h
    simp only [Option.map_some, Option.some.injEq, forall_eq', Option.getD_some,
      (hs.getElem? h).1, and_true]
    omega

end Chain

/-- What a section that sends nodes does to the buffer. -/
structure Sent (s t : Socket) (sent : List SegBuf) : Prop where
  chain : Chain t
  queued : t.queued = s.queued
  freed : t.freed = s.freed
  mono : s.sentCount ≤ t.sentCount
  nodes : ∀ b ∈ sent, s.freed.length ≤ b.addr ∧ b.addr < t.sentCount ∧
    s.queued[b.addr]? = some b.seg.clearChecksum

/-- Sending the nodes between `j` and `j + m`, and moving the pointer behind them. -/
theorem Chain.sends {s t : Socket} (hs : Chain s) (sent : List SegBuf)
    (hq : t.queued = s.queued) (hf : t.freed = s.freed)
    (hsame : SameNodes t.tcb.sendBuf s.tcb.sendBuf) {j m : ℕ}
    (hjm : j + m ≤ s.tcb.sendBuf.length) (hmutex : t.tcb.bufMutex = false)
    (hptr : t.tcb.sendBufunSent = (s.tcb.sendBuf.drop (j + m)).head?.map (·.addr))
    (hle : s.sentCount ≤ s.freed.length + (j + m))
    (hw : j + m ≤ t.tcb.unAckSegNum.toNat + 1)
    (hsent : sent.Sublist ((t.tcb.sendBuf.drop j).take m)) :
    Sent s t sent ∧ t.sentCount = s.freed.length + (j + m) := by
  obtain ⟨hun, hget⟩ := hs.head?_drop hjm
  have hcount : t.sentCount = s.freed.length + (j + m) := by
    rw [Socket.sentCount, hmutex, hptr, hq]
    exact hget
  refine ⟨⟨⟨?_, ?_, ?_, ?_, ?_, ?_⟩, hq, hf, hcount ▸ hle, ?_⟩, hcount⟩
  · rw [hsame.addr, hf, hsame.length, hs.addr]
  · rw [hsame.seg, hq, hf, hs.seg]
  · rw [hf, hq, hs.freed]
  · rw [hptr, hq]
    exact hun
  · rw [hf, hcount]
    omega
  · intro _
    rw [hcount, hf]
    omega
  · intro b hb
    obtain ⟨i, hi⟩ := List.mem_iff_getElem?.mp (hsent.subset hb)
    rw [List.getElem?_take, List.getElem?_drop] at hi
    obtain ⟨him, hi⟩ : i < m ∧ t.tcb.sendBuf[j + i]? = some b := by
      split at hi
      next him => exact ⟨him, hi⟩
      next => contradiction
    obtain ⟨haddr, hseg⟩ := hs.node hsame hi
    exact ⟨by omega, by omega, hseg⟩

/-- A section that returns early keeps the mutex, so nothing more is said of the pointer. -/
theorem Chain.fails {s t : Socket} (hs : Chain s) (hq : t.queued = s.queued)
    (hf : t.freed = s.freed) (hsame : SameNodes t.tcb.sendBuf s.tcb.sendBuf)
    (hmutex : t.tcb.bufMutex = true)
    (hun : ∀ a, t.tcb.sendBufunSent = some a → a < s.queued.length) {sent : List SegBuf}
    (hsent : sent ⊆ t.tcb.sendBuf) : Sent s t sent := by
  have hcount : t.sentCount = s.queued.length := by rw [Socket.sentCount, hmutex, hq]; rfl
  refine ⟨⟨?_, ?_, ?_, ?_, ?_, ?_⟩, hq, hf, hcount ▸ hs.sentCount_le, ?_⟩
  · rw [hsame.addr, hf, hsame.length, hs.addr]
  · rw [hsame.seg, hq, hf, hs.seg]
  · rw [hf, hq, hs.freed]
  · rwa [hq]
  · rw [hf, hcount]
    exact hs.freed_le.trans hs.sentCount_le
  · exact fun h => absurd (hmutex.symm.trans h) (by decide)
  · intro b hb
    obtain ⟨i, hi⟩ := List.mem_iff_getElem?.mp (hsent hb)
    obtain ⟨haddr, hseg⟩ := hs.node hsame hi
    obtain ⟨hlt, _⟩ := List.getElem?_eq_some_iff.mp hseg
    exact ⟨by omega, hcount ▸ hlt, hseg⟩

/-- What was transmitted stays before the pointer. -/
theorem Sent.before {s : Socket} {r : ClientTcb × List SegBuf}
    (h : Sent s (s.sentNodes r).1 r.2) (hs : ∀ a ∈ s.transmitted, a < s.sentCount) :
    ∀ a ∈ (s.sentNodes r).1.transmitted, a < (s.sentNodes r).1.sentCount := by
  intro a ha
  rcases List.mem_append.mp ha with ha | ha
  · exact (hs a ha).trans_le h.mono
  · obtain ⟨b, hb, rfl⟩ := List.mem_map.mp ha
    exact (h.nodes b hb).2.1

theorem Sent.none {s t : Socket} (ht : Chain t) (hq : t.queued = s.queued)
    (hf : t.freed = s.freed) (hle : s.sentCount ≤ t.sentCount) : Sent s t [] :=
  ⟨ht, hq, hf, hle, by simp⟩

/-- All that `sendMaxSegments` can do: it sends from the node that the pointer is at. -/
theorem Chain.sendMaxSegments_cases {s : Socket} (hs : Chain s) {env : Env}
    {r : ClientTcb × List SegBuf} (h : s.tcb.sendMaxSegments env = some r) :
    s.tcb.bufMutex = false ∧ ((s.tcb.sendBufunSent = none ∧ r = (s.tcb, [])) ∨
      ∃ j q m, s.tcb.sendBufunSent = some (s.freed.length + j) ∧ j < s.tcb.sendBuf.length ∧
        SendsMax (s.tcb.sendBuf.drop j) s.tcb.unAckSegNum q m ∧
        r = ({ s.tcb with
          bufMutex := q.failed
          sendBuf := s.tcb.sendBuf.take j ++ q.bufs
          sendBufunSent := if q.failed then some (s.freed.length + j) else q.currentSegBuf
          unAckSegNum := q.unAckSegNum }, q.sent)) := by
  obtain ⟨hmutex, ⟨hptr, hr⟩ | ⟨a, q, hptr, _, hq, hr⟩⟩ := Client.sendMaxSegments_cases h
  · exact ⟨hmutex, .inl ⟨hptr, hr⟩⟩
  · have hcount : s.sentCount = a := by rw [Socket.sentCount, hmutex, hptr]; rfl
    have hfa := hcount ▸ hs.freed_le
    have hlen := hs.length
    have ha := hs.unSent a hptr
    obtain ⟨hbefore, hunsent⟩ := takeWhile_addr_ne hs.addr hfa (by omega)
    obtain ⟨j, rfl⟩ := Nat.exists_eq_add_of_le hfa
    rw [Nat.add_sub_cancel_left] at hbefore hunsent
    rw [hunsent] at hq
    rw [hbefore] at hr
    obtain ⟨m, hm⟩ := sendMaxLoop_sends env 0 s.tcb.unAckSegNum (s.tcb.sendBuf.drop j)
    exact ⟨hmutex, .inr ⟨j, q, m, hptr, by omega, hq ▸ hm, hr⟩⟩

/-- `sendMaxSegments` leaves the pointer alone when the window is full. -/
theorem Chain.sendMaxSegments {s : Socket} (hs : Chain s) {env : Env}
    {r : ClientTcb × List SegBuf} (h : s.tcb.sendMaxSegments env = some r) :
    Sent s (s.sentNodes r).1 r.2 ∧ (r.1.bufMutex = false →
      gbnWindow < s.tcb.unAckSegNum.toNat → (s.sentNodes r).1.sentCount = s.sentCount) := by
  obtain ⟨hmutex, ⟨hptr, rfl⟩ | ⟨j, q, m, hptr, hj, hm, rfl⟩⟩ := hs.sendMaxSegments_cases h
  · exact ⟨.none { hs with } rfl rfl le_rfl, fun _ _ => rfl⟩
  · have hcount : s.sentCount = s.freed.length + j := by
      rw [Socket.sentCount, hmutex, hptr]
      rfl
    have hsame : SameNodes (s.tcb.sendBuf.take j ++ q.bufs) s.tcb.sendBuf := by
      simpa using hm.same.append_left (s.tcb.sendBuf.take j)
    cases hfailed : q.failed with
    | true =>
      refine ⟨?_, fun h => by simp at h⟩
      apply hs.fails (by rfl) (by rfl) hsame (by rfl)
      · intro b hb
        exact hs.unSent b (hptr.trans (by simpa [Socket.sentNodes] using hb))
      · rw [hm.sent]
        exact fun b hb => List.mem_append_right _ (List.mem_of_mem_take hb)
    | false =>
      have hjm : j + m ≤ s.tcb.sendBuf.length := by
        have := hm.le
        simp only [List.length_drop] at this
        omega
      have hlen : (s.tcb.sendBuf.take j).length = j := by
        rw [List.length_take]
        omega
      have hwin := hs.window hmutex
      have hunAck := hm.unAckSegNum
      obtain ⟨hsent, hcount'⟩ := hs.sends (t := (s.sentNodes ({ s.tcb with
        bufMutex := false
        sendBuf := s.tcb.sendBuf.take j ++ q.bufs
        sendBufunSent := q.currentSegBuf
        unAckSegNum := q.unAckSegNum }, q.sent)).1) (j := j) (m := m) q.sent rfl rfl hsame hjm rfl
        (by simpa [Socket.sentNodes, List.drop_drop] using hm.current hfailed) (by omega)
        (by simp only [Socket.sentNodes]; omega)
        (by simp [Socket.sentNodes, List.drop_left' hlen, hm.sent])
      refine ⟨hsent, ?_⟩
      intro _ hfull
      apply hcount'.trans
      rcases hm.window with rfl | hw
      · omega
      · omega

/-- The timer passes `unAckSegNum + 1` nodes. -/
theorem Chain.sendBufTimer {s : Socket} (hs : Chain s) {env : Env}
    {r : ClientTcb × List SegBuf} (h : s.tcb.sendBufTimer env = some r) :
    Sent s (s.sentNodes r).1 r.2 ∧ (s.sentNodes r).1.sentCount =
      s.freed.length + min (s.tcb.unAckSegNum.toNat + 1) s.tcb.sendBuf.length := by
  obtain ⟨hmutex, q, hq, rfl⟩ := sendBufTimer_cases h
  have hr := resendLoop_resends env s.tcb.unAckSegNum 0 s.tcb.sendBuf
  rw [Nat.sub_zero, ← hq] at hr
  have hwin := hs.window hmutex
  have hle := hs.sentCount_le
  have hlen := hs.length
  have hmin : s.sentCount ≤
      s.freed.length + min (s.tcb.unAckSegNum.toNat + 1) s.tcb.sendBuf.length := by omega
  generalize hm : min (s.tcb.unAckSegNum.toNat + 1) s.tcb.sendBuf.length = m at *
  have hsends := hs.sends (t := (s.sentNodes
    ({ s.tcb with sendBuf := q.bufs, sendBufunSent := q.currentSegBuf }, q.sent)).1)
    (j := 0) (m := m) q.sent rfl rfl hr.same (by rw [Nat.zero_add]; exact hr.le) hmutex
    (by rw [Nat.zero_add]; exact hr.current) (by rw [Nat.zero_add]; exact hmin)
    (by simp only [Socket.sentNodes]; omega) hr.sent
  rwa [Nat.zero_add] at hsends

/-- A queued segment comes behind the nodes that may have been sent. -/
theorem Chain.queue {s : Socket} (hs : Chain s) (hmutex : s.tcb.bufMutex = false)
    (data : List UInt8) (num dataRemainder : ℕ) :
    Chain (s.queue data num dataRemainder) ∧
      (s.queue data num dataRemainder).sentCount = s.sentCount := by
  have hlen := hs.length
  have hle := hs.freed_le
  have hcount : (s.queue data num dataRemainder).sentCount = s.sentCount := by
    simp only [Socket.sentCount, Socket.queue, ClientTcb.queueSegBuf, hmutex] at hle ⊢
    cases hptr : s.tcb.sendBufunSent with
    | none => simp
    | some a =>
      have ha := hs.unSent a hptr
      have hne : s.tcb.sendBuf ≠ [] := fun h => by
        simp only [hptr, Option.getD_some, h, List.length_nil] at hle hlen
        simp at hle
        omega
      simp [hne]
  refine ⟨⟨?_, ?_, ?_, ?_, ?_, ?_⟩, hcount⟩
  · simp only [Socket.queue, ClientTcb.queueSegBuf, List.map_append, List.length_append, hs.addr,
      List.map_cons, List.map_nil, List.length_singleton, List.range'_concat, hlen, Nat.one_mul]
  · simp only [Socket.queue, ClientTcb.queueSegBuf, List.map_append, hs.seg]
    rw [List.drop_append_of_le_length (by omega)]
    rfl
  · simp only [Socket.queue]
    rw [hs.freed, List.take_append_of_le_length (by omega)]
  · intro a ha
    have hlast : (s.queue data num dataRemainder).queued.length = s.queued.length + 1 := by
      simp [Socket.queue]
    rw [hlast]
    simp only [Socket.queue, ClientTcb.queueSegBuf] at ha
    split_ifs at ha with hnil hnone
    · simp only [Option.some.injEq] at ha
      omega
    · simp only [Option.some.injEq] at ha
      omega
    · exact (hs.unSent a ha).trans (Nat.lt_succ_self _)
  · rw [hcount]
    exact hle
  · intro _
    rw [hcount]
    exact hs.window hmutex

theorem toNat_sub_ofNat {u : UInt32} {n : ℕ} (h : n ≤ u.toNat) :
    (u - UInt32.ofNat n).toNat = u.toNat - n := by
  have hlt := u.toNat_lt
  have hofNat : (UInt32.ofNat n).toNat = n := UInt32.toNat_ofNat_of_lt' (show n < 2 ^ 32 by omega)
  rw [UInt32.toNat_sub_of_le _ _ (by rwa [UInt32.le_iff_toNat_le, hofNat]), hofNat]

/-- Freeing nodes that may have been sent. -/
theorem Chain.freeAcked {s t : Socket} (hs : Chain s) (hmutex : s.tcb.bufMutex = false)
    {ack : UInt32} (hack : ∀ b ∈ s.tcb.acked ack, b.addr < s.sentCount)
    (ht : t = { s with
      tcb := s.tcb.freeAcked ack, freed := s.freed ++ (s.tcb.acked ack).map (·.seg) }) :
    Chain t ∧ t.sentCount = s.sentCount := by
  subst ht
  have hsplit : s.tcb.acked ack ++ (s.tcb.freeAcked ack).sendBuf = s.tcb.sendBuf :=
    List.takeWhile_append_dropWhile
  generalize hA : s.tcb.acked ack = A at *
  generalize hD : (s.tcb.freeAcked ack).sendBuf = D at *
  have haddr := hs.addr
  have hseg := hs.seg
  rw [← hsplit, List.map_append, List.length_append, ← List.range'_append_1] at haddr
  rw [← hsplit, List.map_append] at hseg
  obtain ⟨haddrA, haddrD⟩ := List.append_inj haddr (by simp)
  have hlenA : s.freed.length + A.length ≤ s.sentCount := by
    rcases List.eq_nil_or_concat' A with rfl | ⟨init, last, rfl⟩
    · exact hs.freed_le
    · have hlast := hack last (by simp)
      rw [List.length_append, List.length_singleton, List.range'_1_concat,
        List.map_append] at haddrA
      have haddr : last.addr = s.freed.length + init.length := by
        simpa using (List.append_inj' haddrA rfl).2
      rw [List.length_append, List.length_singleton]
      omega
  have hfreed : (s.freed ++ A.map (·.seg)).length = s.freed.length + A.length := by simp
  have hcount : ({ s with tcb := s.tcb.freeAcked ack, freed := s.freed ++ A.map (·.seg) } :
      Socket).sentCount = s.sentCount := rfl
  have hsegA : A.map (·.seg.clearChecksum) = (s.queued.drop s.freed.length).take A.length := by
    rw [← hseg, List.take_left' (by simp)]
  have hsegD : D.map (·.seg.clearChecksum) = (s.queued.drop s.freed.length).drop A.length := by
    rw [← hseg, List.drop_left' (by simp)]
  refine ⟨⟨?_, ?_, ?_, hs.unSent, ?_, ?_⟩, hcount⟩
  · simp only [hfreed, hD]
    exact haddrD
  · simp only [hfreed, hD, hsegD, List.drop_drop]
  · simp only [hfreed, List.map_append, hs.freed, List.take_add, ← hsegA, List.map_map]
    rfl
  · rw [hcount]
    simpa only [hfreed] using hlenA
  · intro _
    rw [hcount]
    simp only [hfreed, ClientTcb.freeAcked, hA]
    have hwin := hs.window hmutex
    have hU := s.tcb.unAckSegNum.toNat_lt
    -- either the counter goes below zero and everything sent is freed, or it does not wrap
    rcases Nat.lt_or_ge s.tcb.unAckSegNum.toNat A.length with hlt | hge
    · omega
    · rw [toNat_sub_ofNat hge]
      omega

/-- A disconnect frees what is left. -/
theorem Chain.disconnect {s t : Socket} (hs : Chain s) (hmutex : t.tcb.bufMutex = false)
    (hq : t.queued = s.queued) (hf : t.freed = s.freed ++ s.tcb.sendBuf.map (·.seg))
    (hbuf : t.tcb.sendBuf = []) (hptr : t.tcb.sendBufunSent = none) :
    Chain t ∧ s.sentCount ≤ t.sentCount := by
  have hcount : t.sentCount = s.queued.length := by simp [Socket.sentCount, hmutex, hptr, hq]
  have hlen : t.freed.length = s.queued.length := by simp [hf, hs.length]
  refine ⟨⟨?_, ?_, ?_, ?_, ?_, ?_⟩, hcount ▸ hs.sentCount_le⟩
  · simp [hbuf]
  · simp [hbuf, hlen, hq]
  · have hseg := hs.seg
    rw [hlen, hq, List.take_length, hf, List.map_append, hs.freed, List.map_map]
    conv_rhs => rw [← List.take_append_drop s.freed.length s.queued, ← hseg]
    rfl
  · simp [hptr]
  · rw [hcount, hlen]
  · intro _
    omega

/-- No step breaks the chain or takes back the count. -/
theorem Chain.step {s : Socket} (hs : Chain s) {a : Action} {r : Socket × List Seg}
    (h : s.step a = some r) :
    Chain r.1 ∧ s.sentCount ≤ r.1.sentCount := by
  cases steps_of_step h with
  | connect _ _ _ _ _ => exact ⟨{ hs with }, le_rfl⟩
  | resendSyn _ _ _ _ _ => exact ⟨{ hs with }, le_rfl⟩
  | connected _ => exact ⟨{ hs with }, le_rfl⟩
  | connectGaveUp _ _ _ _ => exact ⟨{ hs with }, le_rfl⟩
  | sendNothing _ => exact ⟨hs, le_rfl⟩
  | send _ _ _ => exact ⟨{ hs with }, le_rfl⟩
  | queueSegment data num dataRemainder _ hmutex =>
    obtain ⟨hc, hcount⟩ := hs.queue hmutex data num dataRemainder
    exact ⟨hc, hcount.ge⟩
  | sendReturn env r hr =>
    have hs' : Chain { s with call := .idle } := { hs with }
    obtain ⟨hsent, _⟩ := hs'.sendMaxSegments hr
    exact ⟨hsent.chain, hsent.mono⟩
  | sendMaxSegments env r hr =>
    obtain ⟨hsent, _⟩ := hs.sendMaxSegments hr
    exact ⟨hsent.chain, hsent.mono⟩
  | sendBufTimer env r hr =>
    obtain ⟨hsent, _⟩ := hs.sendBufTimer hr
    exact ⟨hsent.chain, hsent.mono⟩
  | disconnect sendOk _ _ hmutex =>
    exact hs.disconnect (by exact hmutex) (by rfl) (by rfl) (by rfl) (by rfl)
  | resendFin _ _ _ _ _ => exact ⟨{ hs with }, le_rfl⟩
  | disconnected _ => exact ⟨{ hs with }, le_rfl⟩
  | disconnectGaveUp _ _ _ _ => exact ⟨{ hs with }, le_rfl⟩

/-- Nor does a segment that only frees nodes that may have been sent. -/
theorem Chain.receive {s t : Socket} (hs : Chain s) {srcNodeID : UInt32} {seg : Seg}
    (hack : seg.header.type = SegType.dataack →
      ∀ b ∈ s.tcb.acked seg.header.seqNum, b.addr < s.sentCount)
    (h : s.receive srcNodeID seg = some t) : Chain t ∧ t.sentCount = s.sentCount := by
  obtain ⟨r, hr, rfl⟩ := receive_handles h
  cases hr with
  | ignored =>
    simp only [List.map_nil, List.append_nil]
    exact ⟨hs, trivial⟩
  | synack _ _ _ =>
    simp only [List.map_nil, List.append_nil]
    exact ⟨{ hs with }, rfl⟩
  | dataack _ ht hmutex => exact hs.freeAcked hmutex (hack ht) rfl
  | finack _ _ =>
    simp only [List.map_nil, List.append_nil]
    exact ⟨{ hs with }, rfl⟩

end DartNet.Client
