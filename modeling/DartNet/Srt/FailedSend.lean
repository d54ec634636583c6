import DartNet.Srt.SendBuffer

/-! A `snp_sendseg` that fails inside `sendMaxSegments`. The function then returns from the
middle of its loop, with the mutex locked and the pointer not yet moved. -/
namespace DartNet.Client
namespace ClientTcb

/-- The nodes from `sendBufunSent` on. -/
def unsent (tcb : ClientTcb) : List SegBuf :=
  match tcb.sendBufunSent with
  | none => []
  | some a => tcb.sendBuf.dropWhile (·.addr ≠ a)

/-- The nodes in front of `sendBufunSent`. -/
def before (tcb : ClientTcb) : List SegBuf :=
  match tcb.sendBufunSent with
  | none => tcb.sendBuf
  | some a => tcb.sendBuf.takeWhile (·.addr ≠ a)

/-- The value that `sendMaxSegments` returns. -/
def sendMaxReturn (tcb : ClientTcb) (env : Env) : ℤ :=
  if (sendMaxLoop env 0 tcb.unAckSegNum tcb.unsent).failed then -1 else 1

/-- `sendBufunSent` is the first node that was not transmitted, and `unAck_segNum` the number of
transmitted nodes in front of it. -/
structure Consistent (tcb : ClientTcb) (transmitted : List ℕ) : Prop where
  unSent : tcb.sendBufunSent =
    (tcb.sendBuf.find? (·.addr ∉ transmitted)).map (·.addr)
  count : tcb.unAckSegNum.toNat = tcb.before.countP (·.addr ∈ transmitted)

/-- If `sendMaxSegments` returns -1, the mutex is free and the send buffer consistent. -/
def FailsConsistently (tcb : ClientTcb) (transmitted : List ℕ) (env : Env) : Prop :=
  ∀ r, tcb.sendMaxSegments env = some r → tcb.sendMaxReturn env = -1 →
    r.1.bufMutex = false ∧ r.1.Consistent (transmitted ++ r.2.map (·.addr))

/-- The number of segments that the window and the buffer let `sendMaxSegments` send. -/
def sendable (tcb : ClientTcb) : ℕ :=
  min (gbnWindow + 1 - tcb.unAckSegNum.toNat) tcb.unsent.length

end ClientTcb

/-- The loop returns early exactly if one of the calls it comes to fails. -/
theorem sendMaxLoop_failed_iff (env : Env) (k : ℕ) (unAck : UInt32) (bs : List SegBuf) :
    (sendMaxLoop env k unAck bs).failed = true ↔
      ∃ i ∈ env.failed, k ≤ i ∧ i < k + min (gbnWindow + 1 - unAck.toNat) bs.length := by
  induction bs generalizing k unAck with
  | nil => simp [sendMaxLoop]
  | cons b bs ih =>
    simp only [sendMaxLoop, List.length_cons]
    split
    next hw =>
      have hu := toNat_unAck_succ hw
      split
      next hk =>
        rw [ih (k + 1) (unAck + 1), hu]
        constructor
        · rintro ⟨i, hi, hle, hlt⟩
          exact ⟨i, hi, by omega, by omega⟩
        · rintro ⟨i, hi, hle, hlt⟩
          have hne : i ≠ k := fun h => hk (h ▸ hi)
          exact ⟨i, hi, by omega, by omega⟩
      next hk =>
        have hk : k ∈ env.failed := by simpa using hk
        simp only [true_iff]
        exact ⟨k, hk, le_rfl, by omega⟩
    next hw =>
      have hzero : gbnWindow + 1 - unAck.toNat = 0 := by omega
      simp [hzero]

namespace ClientTcb

theorem sendMaxReturn_iff (tcb : ClientTcb) (env : Env) :
    tcb.sendMaxReturn env = -1 ↔ ∃ i ∈ env.failed, i < tcb.sendable := by
  have h := sendMaxLoop_failed_iff env 0 tcb.unAckSegNum tcb.unsent
  simp only [Nat.zero_le, true_and, Nat.zero_add] at h
  unfold sendMaxReturn sendable
  rw [← h]
  split
  next hf => simp [hf]
  next hf => simp [hf]

theorem failed_of_return {tcb : ClientTcb} {env : Env} (h : tcb.sendMaxReturn env = -1) :
    (sendMaxLoop env 0 tcb.unAckSegNum tcb.unsent).failed = true := by
  unfold sendMaxReturn at h
  split at h
  next hf => exact hf
  next => contradiction

/-- With the mutex free a failing call comes to its return. -/
theorem sendMaxSegments_returns {tcb : ClientTcb} {env : Env} (hmutex : tcb.bufMutex ≠ true)
    (h : tcb.sendMaxReturn env = -1) : ∃ r, tcb.sendMaxSegments env = some r := by
  have hf := failed_of_return h
  unfold sendMaxSegments
  rw [if_neg hmutex]
  cases hptr : tcb.sendBufunSent with
  | none => exact ⟨_, rfl⟩
  | some a =>
    simp only [unsent, hptr] at hf
    have hne : tcb.sendBuf.dropWhile (·.addr ≠ a) ≠ [] := by
      intro hnil
      rw [hnil] at hf
      simp [sendMaxLoop] at hf
    dsimp only
    rw [if_neg hne]
    exact ⟨_, rfl⟩

/-- What the early return leaves: the mutex locked, the pointer where it was, and the counter
ahead of it by the segments that were sent. -/
theorem failed_state {tcb : ClientTcb} {env : Env} {r : ClientTcb × List SegBuf}
    (h : tcb.sendMaxSegments env = some r) (hret : tcb.sendMaxReturn env = -1) :
    r.1.bufMutex = true ∧ r.1.sendBufunSent = tcb.sendBufunSent ∧
      r.1.unAckSegNum.toNat = tcb.unAckSegNum.toNat + r.2.length := by
  have hf := failed_of_return hret
  obtain ⟨_, ⟨hptr, _⟩ | ⟨a, q, hptr, _, hq, rfl⟩⟩ := sendMaxSegments_cases h
  · simp [unsent, hptr, sendMaxLoop] at hf
  · have hq' : q = sendMaxLoop env 0 tcb.unAckSegNum tcb.unsent := by
      rw [hq, unsent, hptr]
    obtain ⟨m, hm⟩ := sendMaxLoop_sends env 0 tcb.unAckSegNum tcb.unsent
    rw [← hq'] at hf hm
    refine ⟨hf, ?_, ?_⟩
    · simp only [hf, if_true, hptr]
    · simp only [hm.unAckSegNum, hm.sent, List.length_take, hm.same.length]
      rw [Nat.min_eq_left hm.le]

/-- A return of -1 is consistent only if it does not happen: the mutex is held for good before,
or none of the calls that the loop comes to fails. -/
theorem failsConsistently_iff (tcb : ClientTcb) (transmitted : List ℕ) (env : Env) :
    tcb.FailsConsistently transmitted env ↔
      tcb.bufMutex = true ∨ ∀ i ∈ env.failed, tcb.sendable ≤ i := by
  have hret := sendMaxReturn_iff tcb env
  constructor
  · intro h
    by_contra hnot
    obtain ⟨hmutex, hfails⟩ := not_or.mp hnot
    have hfail : tcb.sendMaxReturn env = -1 := by
      rw [hret]
      by_contra hno
      apply hfails
      intro i hi
      exact Nat.le_of_not_lt fun hlt => hno ⟨i, hi, hlt⟩
    obtain ⟨r, hr⟩ := sendMaxSegments_returns hmutex hfail
    have hlocked := (failed_state hr hfail).1
    rw [(h r hr hfail).1] at hlocked
    contradiction
  · rintro (hmutex | hnone) r hr hfail
    · exact absurd (sendMaxSegments_cases hr).1 (by simp [hmutex])
    · obtain ⟨i, hi, hlt⟩ := hret.mp hfail
      exact absurd (hnone i hi) (by omega)

/-- A connection with one segment in its buffer, not yet sent. -/
def oneQueued : ClientTcb :=
  ⟨2, 80, 1, 4000, .connected, 1, false,
    [⟨0, ⟨⟨4000, 80, 0, 0, 1, SegType.data, 0, 0⟩, List.Vector.replicate _ 7⟩, 0⟩], some 0, 0⟩

theorem first_send_fails :
    oneQueued.Consistent [] ∧ ¬ oneQueued.FailsConsistently [] ⟨fun _ => 0, [0]⟩ := by
  have hret : oneQueued.sendMaxReturn ⟨fun _ => 0, [0]⟩ = -1 := by
    rw [sendMaxReturn_iff]
    decide
  obtain ⟨r, hr⟩ := sendMaxSegments_returns (by decide) hret
  constructor
  · exact ⟨rfl, rfl⟩
  · intro h
    have hlocked := (failed_state hr hret).1
    rw [(h r hr hret).1] at hlocked
    contradiction

end ClientTcb
end DartNet.Client
