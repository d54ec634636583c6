import DartNet.Srt.Segmentation

/-! The ack loop near the end of the sequence numbers. It compares with `<`, while the numbers
go on at 0 after `2^32 - 1`, so it frees nothing once the acknowledged bytes reach that end. -/
namespace DartNet.Client

/-- The bytes of the first `k` segments of the send buffer -/
def ackedBytes (tcb : ClientTcb) (k : ℕ) : ℕ := byteCount ((tcb.sendBuf.take k).map (·.seg))

/-- A `DATAACK` from the server for the first `k` segments of a send buffer that begins at
`start` and holds fewer than `2^31` bytes -/
structure AcksFirst (tcb : ClientTcb) (start : UInt32) (k : ℕ) (srcNodeID : UInt32) (seg : Seg) :
    Prop where
  state : tcb.state = .connected
  mutex : tcb.bufMutex = false
  consecutive : Consecutive start (tcb.sendBuf.map (·.seg))
  length : ∀ b ∈ tcb.sendBuf, b.seg.header.length ≠ 0
  total : byteCount (tcb.sendBuf.map (·.seg)) < 2 ^ 31
  le : k ≤ tcb.sendBuf.length
  port : tcb.clientPortNum = seg.header.destPort
  server : tcb.fromServer srcNodeID seg
  type : seg.header.type = SegType.dataack
  seqNum : seg.header.seqNum = start + UInt32.ofNat (ackedBytes tcb k)

instance (tcb : ClientTcb) (start : UInt32) (k : ℕ) (srcNodeID : UInt32) (seg : Seg) :
    Decidable (AcksFirst tcb start k srcNodeID seg) :=
  decidable_of_iff (_ ∧ _ ∧ _ ∧ _ ∧ _ ∧ _ ∧ _ ∧ _ ∧ _ ∧ _)
    ⟨fun ⟨a, b, c, d, e, f, g, h, i, j⟩ => ⟨a, b, c, d, e, f, g, h, i, j⟩,
      fun h => ⟨h.1, h.2, h.3, h.4, h.5, h.6, h.7, h.8, h.9, h.10⟩⟩

/-- Below `2^32` the sequence numbers before the acknowledged one are those of the first `k`
segments. -/
theorem takeWhile_seqNum_lt {bs : List SegBuf} {start : UInt32} {k : ℕ}
    (hseq : Consecutive start (bs.map (·.seg))) (hlen : ∀ b ∈ bs, b.seg.header.length ≠ 0)
    (hlt : start.toNat + byteCount ((bs.take k).map (·.seg)) < 2 ^ 32) :
    bs.takeWhile (·.seg.header.seqNum <
      start + UInt32.ofNat (byteCount ((bs.take k).map (·.seg)))) = bs.take k := by
  induction bs generalizing start k with
  | nil => simp
  | cons b bs ih =>
    simp only [List.map_cons, Consecutive] at hseq
    obtain ⟨hb, hbs⟩ := hseq
    cases k with
    | zero => simp [hb]
    | succ k =>
      have hpos : b.seg.header.length.toNat ≠ 0 :=
        fun h0 => hlen b (List.mem_cons_self ..) (UInt16.toNat_inj.mp h0)
      simp only [List.take_succ_cons, List.map_cons, byteCount_cons] at hlt
      simp only [List.take_succ_cons, List.map_cons, add_ofNat_byteCount_cons]
      have hstart : (start + b.seg.header.length.toUInt32).toNat =
          start.toNat + b.seg.header.length.toNat := by
        rw [UInt32.toNat_add, UInt16.toNat_toUInt32]
        omega
      have hrest := ih (k := k) hbs (fun c hc => hlen c (List.mem_cons_of_mem _ hc)) (by omega)
      have hfreed : b.seg.header.seqNum < start + b.seg.header.length.toUInt32 +
          UInt32.ofNat (byteCount ((bs.take k).map (·.seg))) := by
        rw [hb, UInt32.lt_iff_toNat_lt, UInt32.toNat_add, hstart, UInt32.toNat_ofNat']
        omega
      rw [List.takeWhile_cons_of_pos (by simpa using hfreed), hrest]

/-- Once the acknowledged number has wrapped, it is not above the first sequence number. -/
theorem takeWhile_seqNum_wrapped {bs : List SegBuf} {start : UInt32} {n : ℕ}
    (hseq : Consecutive start (bs.map (·.seg))) (hn : n < 2 ^ 31)
    (hwrap : 2 ^ 32 ≤ start.toNat + n) :
    bs.takeWhile (·.seg.header.seqNum < start + UInt32.ofNat n) = [] := by
  cases bs with
  | nil => rfl
  | cons b bs =>
    have hkept : ¬ b.seg.header.seqNum < start + UInt32.ofNat n := by
      have hstart := start.toNat_lt
      rw [hseq.1, UInt32.lt_iff_toNat_lt, UInt32.toNat_add, UInt32.toNat_ofNat']
      omega
    rw [List.takeWhile_cons_of_neg (by simpa using hkept)]

theorem byteCount_take_le (segs : List Seg) (k : ℕ) : byteCount (segs.take k) ≤ byteCount segs := by
  induction segs generalizing k with
  | nil => simp
  | cons seg segs ih =>
    cases k with
    | zero => simp
    | succ k =>
      have h := ih k
      simp only [List.take_succ_cons, byteCount_cons]
      omega

theorem seghandler_acksFirst {tcb : ClientTcb} {start : UInt32} {k : ℕ} {srcNodeID : UInt32}
    {seg : Seg} (h : AcksFirst tcb start k srcNodeID seg) :
    seghandler tcb srcNodeID seg =
      some (tcb.freeAcked seg.header.seqNum, tcb.acked seg.header.seqNum) := by
  simp [seghandler, h.port, h.state, h.type, h.server, h.mutex]

/-- The ack loop frees exactly the acknowledged segments as long as their bytes end before
`2^32`. -/
theorem frees_acked_iff (tcb : ClientTcb) (start : UInt32) (k : ℕ) (srcNodeID : UInt32) (seg : Seg)
    (h : AcksFirst tcb start k srcNodeID seg) :
    (∃ t, seghandler tcb srcNodeID seg = some (t, tcb.sendBuf.take k) ∧
        t.sendBuf = tcb.sendBuf.drop k) ↔
      k = 0 ∨ start.toNat + ackedBytes tcb k < 2 ^ 32 := by
  rw [seghandler_acksFirst h]
  have hsplit : tcb.acked seg.header.seqNum ++ (tcb.freeAcked seg.header.seqNum).sendBuf =
      tcb.sendBuf := List.takeWhile_append_dropWhile
  constructor
  · rintro ⟨t, heq, _⟩
    have hacked : tcb.acked seg.header.seqNum = tcb.sendBuf.take k := (Prod.mk.inj
      (Option.some.inj heq)).2
    by_contra hnot
    obtain ⟨hk, hwrap⟩ := not_or.mp hnot
    have hle := byteCount_take_le (tcb.sendBuf.map (·.seg)) k
    rw [← List.map_take] at hle
    have hnone := takeWhile_seqNum_wrapped h.consecutive (hle.trans_lt h.total) (by
      simpa [ackedBytes] using hwrap)
    rw [ClientTcb.acked, h.seqNum, ackedBytes, hnone] at hacked
    have hlen := congrArg List.length hacked
    have hle := h.le
    rw [List.length_nil, List.length_take] at hlen
    omega
  · intro hcond
    have hacked : tcb.acked seg.header.seqNum = tcb.sendBuf.take k := by
      rw [ClientTcb.acked, h.seqNum, ackedBytes]
      apply takeWhile_seqNum_lt h.consecutive h.length
      rcases hcond with rfl | hlt
      · simpa using start.toNat_lt
      · exact hlt
    rw [hacked] at hsplit ⊢
    refine ⟨_, rfl, ?_⟩
    rw [← List.append_right_inj (tcb.sendBuf.take k), hsplit, List.take_append_drop]

/-- Two segments of one byte in the send buffer, the first numbered `start` -/
def twoQueued (start : UInt32) : ClientTcb :=
  let seg := fun seqNum => ⟨⟨4000, 80, seqNum, 0, 1, SegType.data, 0, 0⟩, .replicate _ 7⟩
  ⟨2, 80, 1, 4000, .connected, start + 2, false, [⟨0, seg start, 0⟩, ⟨1, seg (start + 1), 0⟩],
    none, 2⟩

theorem frees_acked_first : ∃ t,
    seghandler (twoQueued 0) 2 (controlSeg 80 4000 SegType.dataack 1) =
      some (t, (twoQueued 0).sendBuf.take 1) ∧ t.sendBuf = (twoQueued 0).sendBuf.drop 1 :=
  (frees_acked_iff (twoQueued 0) 0 1 2 _ (by decide +kernel)).mpr (.inr (by decide +kernel))

/-- The first segment is the byte before `2^32`, and its acknowledgement has number 0. -/
theorem wrapped_ack_frees_nothing :
    AcksFirst (twoQueued 4294967295) 4294967295 1 2 (controlSeg 80 4000 SegType.dataack 0) ∧
    ¬ ∃ t, seghandler (twoQueued 4294967295) 2 (controlSeg 80 4000 SegType.dataack 0) =
        some (t, (twoQueued 4294967295).sendBuf.take 1) ∧
      t.sendBuf = (twoQueued 4294967295).sendBuf.drop 1 := by
  constructor
  · decide +kernel
  · rintro ⟨t, h, _⟩
    have hfreed : (seghandler (twoQueued 4294967295) 2
        (controlSeg 80 4000 SegType.dataack 0)).map Prod.snd =
          some ((twoQueued 4294967295).sendBuf.take 1) := congrArg (Option.map Prod.snd) h
    exact absurd hfreed (by decide +kernel)

end DartNet.Client
