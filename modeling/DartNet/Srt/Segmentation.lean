import DartNet.Srt.Stream
import DartNet.Srt.Window

/-! How `srt_client_send` cuts its data into segments. The last segment gets `dataRemainder`
bytes, which is none at all when the data is a whole number of segments. -/
namespace DartNet.Client
open Transition

/-- Each segment begins where the one before it ends. -/
def Consecutive : UInt32 → List Seg → Prop
  | _, [] => True
  | start, seg :: segs =>
    seg.header.seqNum = start ∧ Consecutive (start + seg.header.length.toUInt32) segs

instance decidableConsecutive : ∀ start segs, Decidable (Consecutive start segs)
  | _, [] => .isTrue trivial
  | start, seg :: segs =>
    have := decidableConsecutive (start + seg.header.length.toUInt32) segs
    inferInstanceAs (Decidable (_ ∧ Consecutive (start + seg.header.length.toUInt32) segs))

/-- The number of bytes of some segments by their headers. -/
def byteCount : List Seg → ℕ
  | [] => 0
  | seg :: segs => seg.header.length.toNat + byteCount segs

@[simp] theorem byteCount_nil : byteCount [] = 0 := rfl

@[simp] theorem byteCount_cons (seg : Seg) (segs : List Seg) :
    byteCount (seg :: segs) = seg.header.length.toNat + byteCount segs := rfl

@[simp] theorem byteCount_append (segs segs' : List Seg) :
    byteCount (segs ++ segs') = byteCount segs + byteCount segs' := by
  induction segs with
  | nil => simp
  | cons seg segs ih => simp [ih, Nat.add_assoc]

theorem add_ofNat_byteCount_cons (start : UInt32) (seg : Seg) (segs : List Seg) :
    start + UInt32.ofNat (byteCount (seg :: segs)) =
      start + seg.header.length.toUInt32 + UInt32.ofNat (byteCount segs) := by
  have hlen : UInt32.ofNat seg.header.length.toNat = seg.header.length.toUInt32 := by simp
  rw [byteCount_cons, UInt32.ofNat_add, hlen, UInt32.add_assoc]

theorem consecutive_append {start : UInt32} {segs segs' : List Seg} :
    Consecutive start (segs ++ segs') ↔
      Consecutive start segs ∧ Consecutive (start + UInt32.ofNat (byteCount segs)) segs' := by
  induction segs generalizing start with
  | nil => simp [Consecutive]
  | cons seg segs ih =>
    rw [List.cons_append, Consecutive, Consecutive, ih, add_ofNat_byteCount_cons, and_assoc]

theorem length_flatMap_payload {segs : List Seg}
    (h : ∀ seg ∈ segs, seg.header.length.toNat ≤ maxSegLen) :
    (segs.flatMap Seg.payload).length = byteCount segs := by
  induction segs with
  | nil => rfl
  | cons seg segs ih =>
    obtain ⟨hseg, hsegs⟩ := List.forall_mem_cons.mp h
    rw [List.flatMap_cons, List.length_append, Seg.length_payload hseg, ih hsegs, byteCount_cons]

/-- The data of a segment comes from the data pointer, which must have that much. -/
theorem dataSeg_payload (tcb : ClientTcb) {n : ℕ} (hn : n ≤ maxSegLen) {data : List UInt8}
    (hdata : n ≤ data.length) : (tcb.dataSeg n data).payload = data.take n := by
  rw [Seg.payload, Srt.dataSeg_length tcb hn]
  simp only [ClientTcb.dataSeg, List.take_take, Nat.min_eq_left hn]
  rw [List.take_append_of_le_length (by rw [List.length_take]; omega), List.take_take, Nat.min_self]

/-- While the application is in `srt_client_send`, the other threads go on. -/
def DuringSend (_ : Socket) : Event → Prop
  | .api .queueSegment => True
  | .api (.sendMaxSegments _) => True
  | .api (.sendBufTimer _) => True
  | .api _ => False
  | .segment _ _ => True

/-- A socket in one `srt_client_send` of this data -/
def sendMachine (s : Socket) (data : List UInt8) : Machine Socket Event where
  Init t := s.step (.send data) = some (t, [])
  step := (socketMachine s.tcb.clientNodeID s.tcb.clientPortNum).step

/-- The call returned at once or has put its last segment into the send buffer. -/
def AllQueued (t : Socket) : Prop :=
  t.call = .idle ∨ ∃ rest dataRemainder, t.call = .send rest 0 dataRemainder

/-- The segments hold the data, piece by piece. -/
structure Segmented (start : UInt32) (data : List UInt8) (next : UInt32) (segs : List Seg) :
    Prop where
  length : ∀ seg ∈ segs, 1 ≤ seg.header.length.toNat ∧ seg.header.length.toNat ≤ maxSegLen
  payload : segs.flatMap Seg.payload = data
  seqNum : Consecutive start segs
  next : next = start + UInt32.ofNat data.length

/-- Full segments have been made of the data before `rest`. -/
structure Full (start : UInt32) (data rest : List UInt8) (segs : List Seg) : Prop where
  length : ∀ seg ∈ segs, seg.header.length.toNat = maxSegLen
  payload : segs.flatMap Seg.payload ++ rest = data
  seqNum : Consecutive start segs

/-- What the last of the segments is for. -/
def lastLen (length : ℕ) : ℕ := if length % maxSegLen = 0 then maxSegLen else length % maxSegLen

/-- How far the call is, with the segments `segs` behind those queued before. -/
inductive Queuing (s : Socket) (data : List UInt8) (t : Socket) : List Seg → Prop
  | nothing : data = [] → t.call = .idle → t.tcb.nextSeqNum = s.tcb.nextSeqNum →
      t.queued = s.queued → Queuing s data t []
  | more (rest : List UInt8) (num : ℕ) (segs : List Seg) :
      Full s.tcb.nextSeqNum data rest segs → rest.length = maxSegLen * num + lastLen data.length →
      t.call = .send rest (num + 1) (data.length % maxSegLen) →
      t.tcb.nextSeqNum = s.tcb.nextSeqNum + UInt32.ofNat (byteCount segs) →
      t.queued = s.queued ++ segs → Queuing s data t segs
  | done (rest : List UInt8) (last : Seg) (segs : List Seg) :
      Full s.tcb.nextSeqNum data rest segs → rest.length = lastLen data.length →
      (∃ rest', t.call = .send rest' 0 (data.length % maxSegLen)) →
      last.header.length.toNat = data.length % maxSegLen →
      last.payload = rest.take (data.length % maxSegLen) →
      last.header.seqNum = s.tcb.nextSeqNum + UInt32.ofNat (byteCount segs) →
      t.tcb.nextSeqNum = s.tcb.nextSeqNum + UInt32.ofNat (byteCount (segs ++ [last])) →
      t.queued = s.queued ++ (segs ++ [last]) → Queuing s data t (segs ++ [last])

/-- The number of segments, and what is left for the last one. -/
theorem length_eq_numOfSegments {length : ℕ} (h : length ≠ 0) :
    ∃ num, Socket.numOfSegments length = num + 1 ∧ length = maxSegLen * num + lastLen length := by
  have hdiv := Nat.div_add_mod length maxSegLen
  unfold Socket.numOfSegments lastLen
  rcases Nat.eq_zero_or_pos (length % maxSegLen) with hrem | hrem
  · obtain ⟨num, hnum⟩ : ∃ num, length / maxSegLen = num + 1 :=
      Nat.exists_eq_succ_of_ne_zero fun h0 => h (by rw [← hdiv, h0, hrem, Nat.mul_zero])
    rw [if_neg (by omega), if_pos hrem]
    refine ⟨num, by omega, ?_⟩
    rw [hnum, Nat.mul_add] at hdiv
    omega
  · rw [if_pos hrem, if_neg (by omega)]
    exact ⟨length / maxSegLen, rfl, hdiv.symm⟩

/-- The other threads neither queue segments nor move the sequence number. -/
theorem same_of_duringSend {s t u : Socket} {data : List UInt8} {e : Event}
    (hok : DuringSend t e) (hqueue : e ≠ .api .queueSegment)
    (h : (sendMachine s data).step t e = some u) :
    u.call = t.call ∧ u.tcb.nextSeqNum = t.tcb.nextSeqNum ∧ u.queued = t.queued := by
  have hsent : ∀ {r : ClientTcb × List SegBuf}, SendsFrom t.tcb r.1 r.2 →
      (t.sentNodes r).1.call = t.call ∧ (t.sentNodes r).1.tcb.nextSeqNum = t.tcb.nextSeqNum ∧
        (t.sentNodes r).1.queued = t.queued := by
    intro r hr
    obtain ⟨mutex, buf, ptr, unAck, heq⟩ := hr.same
    simp [Socket.sentNodes, heq]
  cases e with
  | segment srcNodeID seg =>
    obtain ⟨r, hr, rfl⟩ := receive_handles h
    cases hr <;> exact ⟨rfl, rfl, rfl⟩
  | api a =>
    obtain ⟨q, hq, rfl⟩ := Option.map_eq_some_iff.mp h
    cases steps_of_step hq with
    | sendMaxSegments env r hr => exact hsent (sendMaxSegments_sendsFrom hr)
    | sendBufTimer env r hr => exact hsent (sendBufTimer_sendsFrom hr)
    | queueSegment _ _ _ _ _ => exact absurd rfl hqueue
    | _ => exact hok.elim

namespace Queuing
variable {s t u : Socket} {data : List UInt8} {segs : List Seg}

theorem same (h : Queuing s data t segs) (hcall : u.call = t.call)
    (hnext : u.tcb.nextSeqNum = t.tcb.nextSeqNum) (hqueued : u.queued = t.queued) :
    Queuing s data u segs := by
  cases h with
  | nothing hdata hc hn hq =>
    exact .nothing hdata (hcall.trans hc) (hnext.trans hn) (hqueued.trans hq)
  | more rest num _ hfull hrest hc hn hq =>
    exact .more rest num segs hfull hrest (hcall.trans hc) (hnext.trans hn) (hqueued.trans hq)
  | done rest last init hfull hrest hc hlen hpay hseq hn hq =>
    exact .done rest last init hfull hrest (hcall ▸ hc) hlen hpay hseq (hnext.trans hn)
      (hqueued.trans hq)

theorem start (h : s.step (.send data) = some (t, [])) : Queuing s data t [] := by
  simp only [Socket.step] at h
  split at h
  next hc =>
    split at h
    next hnum =>
      obtain rfl := (Prod.mk.inj (Option.some.inj h)).1
      have hdata : data = [] := by
        by_contra hne
        obtain ⟨num, hsucc, _⟩ := length_eq_numOfSegments (List.length_pos_iff.mpr hne).ne'
        omega
      exact .nothing hdata hc.1 rfl rfl
    next hnum =>
      obtain rfl := (Prod.mk.inj (Option.some.inj h)).1
      have hne : data.length ≠ 0 := fun h0 => hnum (by rw [h0]; rfl)
      obtain ⟨num, hsucc, hlen⟩ := length_eq_numOfSegments hne
      have hfull : Full s.tcb.nextSeqNum data data [] := ⟨by simp, rfl, trivial⟩
      exact .more data num [] hfull hlen (by simp [hsucc]) (by simp) (by simp)
  next => contradiction

/-- A turn of the loop with `dataRemainder` bytes or with a full segment. -/
theorem queue {rest : List UInt8} {num : ℕ}
    (hfull : Full s.tcb.nextSeqNum data rest segs)
    (hrest : rest.length = maxSegLen * num + lastLen data.length)
    (hnext : t.tcb.nextSeqNum = s.tcb.nextSeqNum + UInt32.ofNat (byteCount segs))
    (hqueued : t.queued = s.queued ++ segs) :
    ∃ seg, Queuing s data (t.queue rest num (data.length % maxSegLen)) (segs ++ [seg]) := by
  have hrem : data.length % maxSegLen ≤ maxSegLen := (Nat.mod_lt _ (by decide)).le
  have hlast : data.length % maxSegLen ≤ lastLen data.length := by
    unfold lastLen
    split <;> omega
  generalize hseg :
    t.tcb.dataSeg (if 0 < num then maxSegLen else data.length % maxSegLen) rest = seg
  have hseq : seg.header.seqNum = s.tcb.nextSeqNum + UInt32.ofNat (byteCount segs) := by
    rw [← hnext, ← hseg]
    rfl
  have hnext' : (t.queue rest num (data.length % maxSegLen)).tcb.nextSeqNum =
      s.tcb.nextSeqNum + UInt32.ofNat (byteCount (segs ++ [seg])) := by
    simp only [Socket.queue, ClientTcb.queueSegBuf, hseg, hnext]
    simp [UInt32.ofNat_add, UInt32.add_assoc]
  have hqueued' : (t.queue rest num (data.length % maxSegLen)).queued =
      s.queued ++ (segs ++ [seg]) := by
    simp [Socket.queue, hseg, hqueued]
  refine ⟨seg, ?_⟩
  cases num with
  | zero =>
    rw [if_neg (by simp)] at hseg
    have hle : data.length % maxSegLen ≤ rest.length := by omega
    apply Queuing.done rest seg segs hfull (by omega) ⟨_, rfl⟩ _ _ hseq hnext' hqueued'
    · rw [← hseg]
      exact Srt.dataSeg_length t.tcb hrem rest
    · rw [← hseg]
      exact dataSeg_payload t.tcb hrem hle
  | succ num =>
    rw [if_pos (by omega)] at hseg
    have hle : maxSegLen ≤ rest.length := by rw [hrest, Nat.mul_succ]; omega
    have hpay := dataSeg_payload t.tcb le_rfl hle
    apply Queuing.more (rest.drop maxSegLen) num (segs ++ [seg]) _ _ rfl hnext' hqueued'
    · refine ⟨?_, ?_, ?_⟩
      · intro q hq
        rcases List.mem_append.mp hq with hq | hq
        · exact hfull.length q hq
        · rw [List.mem_singleton.mp hq, ← hseg]
          exact Srt.dataSeg_length t.tcb le_rfl rest
      · rw [← hfull.payload, List.flatMap_append, List.flatMap_singleton, ← hseg, hpay,
          List.append_assoc, List.take_append_drop]
      · exact consecutive_append.mpr ⟨hfull.seqNum, hseq, trivial⟩
    · rw [List.length_drop, hrest, Nat.mul_succ]
      omega

/-- One step of the run: a turn of the loop, or another thread. -/
theorem step {e : Event} (h : Queuing s data t segs) (hok : DuringSend t e)
    (hstep : (sendMachine s data).step t e = some u) : ∃ segs', Queuing s data u segs' := by
  by_cases he : e = .api .queueSegment
  · subst he
    obtain ⟨r, hr, rfl⟩ := Option.map_eq_some_iff.mp hstep
    cases steps_of_step hr with
    | queueSegment rest' num' dataRemainder hcall _ =>
      cases h with
      | nothing _ hc _ _ => simp [hc] at hcall
      | more rest num _ hfull hrest hc hn hq =>
        rw [hc, Call.send.injEq, Nat.add_right_cancel_iff] at hcall
        obtain ⟨rfl, rfl, rfl⟩ := hcall
        obtain ⟨seg, hseg⟩ := queue hfull hrest hn hq
        exact ⟨_, hseg⟩
      | done _ _ _ _ _ hc _ _ _ _ _ =>
        obtain ⟨rest'', hc⟩ := hc
        simp [hc] at hcall
  · obtain ⟨hcall, hnext, hqueued⟩ := same_of_duringSend hok he hstep
    exact ⟨segs, h.same hcall hnext hqueued⟩

theorem of_reachable (h : (sendMachine s data).Reachable DuringSend t) :
    ∃ segs, Queuing s data t segs := by
  apply h.invariant
  · exact fun t ht => ⟨[], start ht⟩
  · rintro t e u ⟨segs, hsegs⟩ hok hstep
    exact hsegs.step hok hstep

theorem queued (h : Queuing s data t segs) : t.queued = s.queued ++ segs := by
  cases h with
  | nothing _ _ _ hq => simpa using hq
  | more _ _ _ _ _ _ _ hq => exact hq
  | done _ _ _ _ _ _ _ _ _ _ hq => exact hq

/-- In the end the segments hold the data unless there was nothing left for the last one. -/
theorem segmented_iff (h : Queuing s data t segs) (hall : AllQueued t) :
    Segmented s.tcb.nextSeqNum data t.tcb.nextSeqNum segs ↔
      data.length = 0 ∨ data.length % maxSegLen ≠ 0 := by
  cases h with
  | nothing hdata _ hn _ =>
    subst hdata
    exact iff_of_true ⟨by simp, rfl, trivial, by simp [hn]⟩ (.inl rfl)
  | more _ _ _ _ _ hc _ _ => simp [AllQueued, hc] at hall
  | done rest last segs hfull hrest _ hlen hpay hseq hn _ =>
    have hmod := Nat.mod_lt data.length (show 0 < maxSegLen by decide)
    constructor
    · intro hsegmented
      have hpos := (hsegmented.length last (by simp)).1
      right
      omega
    · intro hne
      have hrem : data.length % maxSegLen ≠ 0 := by
        rcases hne with h0 | hrem
        · have hlast : rest.length = maxSegLen := by rw [hrest, h0]; rfl
          have hdata := congrArg List.length hfull.payload
          rw [List.length_append, hlast, h0] at hdata
          simp [maxSegLen] at hdata
        · exact hrem
      have hrest' : rest.length = data.length % maxSegLen := by
        rw [hrest, lastLen, if_neg hrem]
      have hlength : ∀ seg ∈ segs ++ [last],
          1 ≤ seg.header.length.toNat ∧ seg.header.length.toNat ≤ maxSegLen := by
        intro seg hseg
        rcases List.mem_append.mp hseg with hseg | hseg
        · rw [hfull.length seg hseg]
          decide
        · rw [List.mem_singleton.mp hseg, hlen]
          omega
      have hpayload : (segs ++ [last]).flatMap Seg.payload = data := by
        rw [List.flatMap_append, List.flatMap_singleton, hpay, ← hrest', List.take_length,
          hfull.payload]
      have hbytes := length_flatMap_payload fun seg hseg => (hlength seg hseg).2
      rw [hpayload] at hbytes
      exact ⟨hlength, hpayload, consecutive_append.mpr ⟨hfull.seqNum, hseq, trivial⟩,
        by rw [hn, hbytes]⟩

end Queuing

theorem sendMachine_init {s : Socket} {data : List UInt8} {length : ℕ}
    (hdata : data.length = length) (hcall : s.call = .idle) (hst : s.tcb.state = .connected)
    (hlt : length < 2 ^ 32) (hnum : Socket.numOfSegments length ≠ 0) :
    (sendMachine s data).Init { s with
      call := .send data (Socket.numOfSegments length) (length % maxSegLen) } := by
  subst hdata
  show s.step (.send data) = _
  rw [Socket.step, if_pos ⟨hcall, hst, hlt⟩, if_neg hnum]

/-- With the mutex free the loop comes to its end, each turn with one node more in the send
buffer. -/
theorem queue_all {s t : Socket} {data rest : List UInt8} {num dataRemainder : ℕ}
    (ht : (sendMachine s data).Reachable DuringSend t)
    (hcall : t.call = .send rest num dataRemainder) (hmutex : t.tcb.bufMutex = false) :
    ∃ u segs, (sendMachine s data).Reachable DuringSend u ∧ AllQueued u ∧
      u.queued = t.queued ++ segs ∧
      u.tcb.sendBuf.map (·.seg) = t.tcb.sendBuf.map (·.seg) ++ segs := by
  induction num generalizing t rest with
  | zero => exact ⟨t, [], ht, .inr ⟨rest, dataRemainder, hcall⟩, by simp, by simp⟩
  | succ num ih =>
    have hstep : (sendMachine s data).step t (.api .queueSegment) =
        some (t.queue rest num dataRemainder) := by
      simp [sendMachine, socketMachine, Socket.step, hcall, hmutex]
    obtain ⟨u, segs, hu, hall, hqueued, hbuf⟩ := ih (ht.step (by trivial) hstep) rfl hmutex
    refine ⟨u, t.tcb.dataSeg (if 0 < num then maxSegLen else dataRemainder) rest :: segs, hu,
      hall, ?_, ?_⟩
    · rw [hqueued]
      simp [Socket.queue]
    · rw [hbuf]
      simp [Socket.queue, ClientTcb.queueSegBuf]

/-- What `srt_client_send` appends holds the data exactly when the data is not a whole number of
segments, whatever the other threads do meanwhile. -/
theorem segments_keep_data (s : Socket) (data : List UInt8) (hcall : s.call = .idle)
    (hst : s.tcb.state = .connected) (hlen : data.length < 2 ^ 32) :
    (s.tcb.bufMutex = false → ∃ t segs, (sendMachine s data).Reachable DuringSend t ∧
      AllQueued t ∧ t.queued = s.queued ++ segs ∧
      t.tcb.sendBuf.map (·.seg) = s.tcb.sendBuf.map (·.seg) ++ segs) ∧
    ∀ t, (sendMachine s data).Reachable DuringSend t → AllQueued t →
      ∃ segs, t.queued = s.queued ++ segs ∧
        (Segmented s.tcb.nextSeqNum data t.tcb.nextSeqNum segs ↔
          data.length = 0 ∨ data.length % maxSegLen ≠ 0) := by
  constructor
  · intro hmutex
    by_cases hnum : Socket.numOfSegments data.length = 0
    · have hinit : s.step (.send data) = some (s, []) := by
        rw [Socket.step, if_pos ⟨hcall, hst, hlen⟩, if_pos hnum]
      exact ⟨s, [], .init hinit, .inl hcall, by simp, by simp⟩
    · have hqueue := queue_all (.init (sendMachine_init rfl hcall hst hlen hnum)) rfl hmutex
      exact hqueue
  · intro t ht hall
    obtain ⟨segs, hsegs⟩ := Queuing.of_reachable ht
    exact ⟨segs, hsegs.queued, hsegs.segmented_iff hall⟩

/-- A socket of node 1 connected to port 80 of node 2 -/
def connectedSocket : Socket :=
  ⟨⟨2, 80, 1, 4000, .connected, 0, false, [], none, 0⟩, .idle, [], [], [], 0⟩

/-- 201 bytes make two segments, the last with one byte. -/
theorem segments_keep_data_201 : ∃ t segs,
    (sendMachine connectedSocket (List.replicate 201 7)).Reachable DuringSend t ∧
      t.queued = segs ∧ Segmented 0 (List.replicate 201 7) t.tcb.nextSeqNum segs := by
  obtain ⟨hexists, hall⟩ := segments_keep_data connectedSocket (List.replicate 201 7) rfl rfl
    (by rw [List.length_replicate]; decide)
  obtain ⟨t, _, ht, hdone, _⟩ := hexists rfl
  obtain ⟨segs, hqueued, hiff⟩ := hall t ht hdone
  exact ⟨t, segs, ht, hqueued, hiff.mpr (.inr (by rw [List.length_replicate]; decide))⟩

instance (s : Socket) (e : Event) : Decidable (DuringSend s e) := by
  rcases e with (_ | _) | _ <;> dsimp only [DuringSend] <;> infer_instance

/-- 200 bytes make one empty segment. -/
theorem whole_segment_lost : ∃ t : Socket,
    (sendMachine connectedSocket (List.replicate 200 7)).Reachable DuringSend t ∧ AllQueued t ∧
      ¬ Segmented 0 (List.replicate 200 7) t.tcb.nextSeqNum t.queued := by
  have hinit : (sendMachine connectedSocket (List.replicate 200 7)).Init
      { connectedSocket with call := .send (List.replicate 200 7) 1 0 } :=
    sendMachine_init List.length_replicate rfl rfl (by decide) (by decide)
  obtain ⟨t, _, ht, hcall, seg, hseg, hlen⟩ :=
    (sendMachine connectedSocket (List.replicate 200 7)).exists_of_run DuringSend hinit
      [.api .queueSegment] (P := fun t => t.call = .send (List.replicate 200 7) 0 0 ∧
        ∃ seg ∈ t.queued, seg.header.length = 0) (by decide +kernel)
  refine ⟨t, ht, .inr ⟨_, _, hcall⟩, ?_⟩
  intro h
  have hpos := (h.length seg hseg).1
  simp [hlen] at hpos

end DartNet.Client
