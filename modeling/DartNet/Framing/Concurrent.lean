import DartNet.Foundation.Interleave
import DartNet.Framing.Resync

/-! Several threads writing frames to one connection. The three `send()` calls of a frame
are not made under a lock, so their chunks may be separated. -/
namespace DartNet.Framing
open Packed Interleave

section Bytes

theorem markFree_bufstart (bytes : List UInt8) :
    MarkFree (bufstart ++ bytes) ↔ MarkFree bytes := by
  cases bytes with
  | nil => simp [MarkFree, bufstart, amp, hash]
  | cons b bytes => simp [MarkFree, bufstart, List.isChain_cons_cons, bang, amp, hash]

theorem MarkFree.append_bufstart {bytes : List UInt8} (h : MarkFree bytes) :
    MarkFree (bytes ++ bufstart) := by
  apply List.IsChain.append h (by decide)
  intro x _ y hy
  simp only [bufstart, List.head?_cons, Option.mem_some_iff] at hy
  simp [← hy, bang, hash]

theorem markFree_replicate_bufstart {bytes : List UInt8} (h : MarkFree bytes) (k : ℕ) :
    MarkFree ((List.replicate k bufstart).flatten ++ bytes) := by
  induction k with
  | zero => exact h
  | succ k ih =>
    rw [List.replicate_succ, List.flatten_cons, List.append_assoc, markFree_bufstart]
    exact ih

end Bytes

variable {n : ℕ} {junk : Junk n} {s : Calls}

theorem Calls.peak_le_next (junk : Junk n) (s : Calls) (c : UInt8) :
    s.peak ≤ (s.next junk c).peak := by
  rcases s.rx.step_cases c with ⟨_, _, h⟩ | ⟨_, h⟩ | ⟨_, h⟩ <;>
    simp [Calls.next, h, Calls.begin]

theorem Calls.peak_le_feed (junk : Junk n) (s : Calls) (bytes : List UInt8) :
    s.peak ≤ (s.feed junk bytes).peak := by
  induction bytes generalizing s with
  | nil => exact le_rfl
  | cons c cs ih => exact (Calls.peak_le_next junk s c).trans (ih _)

/-- Bytes without an end marker all go into the buffer of the call. -/
theorem Calls.feed_quiet (hs : s.rx.storing = true) {bytes : List UInt8}
    (hq : s.rx.Quiet bytes) : (s.feed junk bytes).rx = s.rx.keepAll bytes := by
  induction bytes generalizing s with
  | nil => rfl
  | cons c cs ih =>
    obtain ⟨hk, hrest⟩ := Rx.step_quiet hs hq
    have hnext : (s.next junk c).rx = s.rx.keep c := by simp only [Calls.next, hk]
    rw [Calls.feed_cons, ih (by rw [hnext]; exact Rx.keep_storing ..)
      (by rw [hnext]; exact hrest), hnext]
    rfl

/-- A byte behind `n` bytes without an end marker is stored past the buffer. -/
theorem Calls.AtStart.overflow (hs : s.AtStart (n := n)) {bytes : List UInt8}
    (hfree : MarkFree bytes) (hlen : n ≤ bytes.length) (junk : Junk n) (c : UInt8)
    (rest : List UInt8) : n < (s.feed junk (bufstart ++ (bytes ++ c :: rest))).peak := by
  rw [Calls.feed_append, hs.feed_bufstart, Calls.feed_append, Calls.feed_cons]
  generalize ht : Calls.feed junk _ bytes = t
  have hrx : t.rx = (Rx.mk .recv 0 s.rx.buf).keepAll bytes := by
    rw [← ht]
    exact Calls.feed_quiet rfl (by simpa [Rx.Quiet] using hfree)
  have hst : t.rx.storing = true := hrx ▸ Rx.keepAll_storing rfl bytes
  have hidx : t.rx.idx = bytes.length := by simp [hrx, Rx.keepAll_idx]
  have hnext : t.rx.idx + 1 ≤ (t.next junk c).peak := by
    rcases t.rx.step_cases c with ⟨h, _⟩ | ⟨_, h⟩ | ⟨_, h⟩
    · simp [hst] at h
    · simp [Calls.next, h, hst]
    · simp [Calls.next, h, hst, Calls.begin]
  have hfeed := Calls.peak_le_feed junk (t.next junk c) rest
  omega

section Threads
variable {α : Type} (L : Layout α)

/-- The chunks of one thread: three for every structure it sends. -/
def chunks (vs : List α) : List (List UInt8) := vs.flatMap fun v => frameSends (L.encode v)

variable {L}

theorem chunks_cons (v : α) (vs : List α) :
    chunks L (v :: vs) = bufstart :: L.encode v :: bufend :: chunks L vs := rfl

theorem chunks_eq_cons {vs : List α} {c : List UInt8} {l : List (List UInt8)}
    (h : chunks L vs = c :: l) :
    ∃ w ws, vs = w :: ws ∧ c = bufstart ∧ l = L.encode w :: bufend :: chunks L ws := by
  cases vs with
  | nil => simp [chunks] at h
  | cons w ws =>
    rw [chunks_cons, List.cons.injEq] at h
    exact ⟨w, ws, rfl, h.1.symm, h.2.symm⟩

variable (L) in
/-- What a thread still has to write, between two structures or after a start marker. -/
inductive Rest : List (List UInt8) → Prop
  | between {vs : List α} : (∀ v ∈ vs, MarkFree (L.encode v)) → Rest (chunks L vs)
  | announced {v : α} {vs : List α} : (∀ u ∈ v :: vs, MarkFree (L.encode u)) →
      Rest (L.encode v :: bufend :: chunks L vs)

theorem Rest.head_cases {c : List UInt8} {l : List (List UInt8)} (h : Rest L (c :: l)) :
    (∃ v vs, c = bufstart ∧ l = L.encode v :: bufend :: chunks L vs ∧
        ∀ u ∈ v :: vs, MarkFree (L.encode u)) ∨
      ∃ v vs, c = L.encode v ∧ l = bufend :: chunks L vs ∧
        ∀ u ∈ v :: vs, MarkFree (L.encode u) := by
  generalize hr : c :: l = r at h
  cases h with
  | between hfree =>
    obtain ⟨v, vs, rfl, hc, hl⟩ := chunks_eq_cons hr.symm
    exact .inl ⟨v, vs, hc, hl, hfree⟩
  | announced hfree =>
    obtain ⟨hc, hl⟩ := List.cons.inj hr
    exact .inr ⟨_, _, hc, hl, hfree⟩

/-- While a structure is announced and not written, more start markers may follow, but the
next structure is not the last chunk. -/
theorem exists_payload {ls : List (List (List UInt8))}
    {out : List (List UInt8)} (h : Merge ls out) (hls : ∀ l ∈ ls, Rest L l)
    (hopen : ∃ v vs, L.encode v :: bufend :: chunks L vs ∈ ls) :
    ∃ k v c out', MarkFree (L.encode v) ∧
      out = List.replicate k bufstart ++ L.encode v :: c :: out' := by
  induction h with
  | nil hnil =>
    obtain ⟨v, vs, hv⟩ := hopen
    exact absurd (hnil _ hv) (by simp)
  | @cons ls i a l out hi hrest ih =>
    have hmem := List.mem_of_getElem? hi
    have hset : l ∈ ls.set i l :=
      List.mem_set (List.getElem?_eq_some_iff.mp hi).choose _
    rcases (hls _ hmem).head_cases with ⟨v, vs, rfl, rfl, hfree⟩ | ⟨v, vs, rfl, rfl, hfree⟩
    · obtain ⟨k, w, c, out', hw, rfl⟩ := ih
        (fun l hl => (List.mem_or_eq_of_mem_set hl).elim (hls l) fun h => h ▸ .announced hfree)
        ⟨v, vs, hset⟩
      exact ⟨k + 1, w, c, out', hw, rfl⟩
    · obtain ⟨_, c, _, out', rfl, _⟩ := hrest.exists_cons hset (by simp)
      exact ⟨0, v, c, out', hfree v (by simp), rfl⟩

theorem mem_chunks_ne_nil (hpos : 0 < L.size) {vs : List α} {c : List UInt8}
    (hc : c ∈ chunks L vs) : c ≠ [] := by
  obtain ⟨v, _, hc⟩ := List.mem_flatMap.mp hc
  simp only [frameSends, List.mem_cons, List.not_mem_nil, or_false] at hc
  rcases hc with rfl | rfl | rfl
  · simp [bufstart]
  · exact List.ne_nil_of_length_pos (by rw [L.length_encode]; exact hpos)
  · simp [bufend]

theorem getElem?_map_chunks {threads : List (List α)} {i : ℕ} {c : List UInt8}
    {l : List (List UInt8)} (h : (threads.map (chunks L))[i]? = some (c :: l)) :
    ∃ v vs, threads[i]? = some (v :: vs) ∧ c = bufstart ∧
      l = L.encode v :: bufend :: chunks L vs := by
  obtain ⟨t, ht, hc⟩ := Option.map_eq_some_iff.mp (List.getElem?_map .. ▸ h)
  obtain ⟨v, vs, rfl, hc, hl⟩ := chunks_eq_cons hc
  exact ⟨v, vs, ht, hc, hl⟩

variable {junk : Junk (L.size + 2)}

/-- A start marker in front of the end marker of a frame. -/
theorem overflow_of_interrupted {s : Calls} (hs : s.AtStart (n := L.size + 2)) {v : α}
    (hv : MarkFree (L.encode v)) {b : List UInt8} (hb : b ≠ []) (rest : List (List UInt8)) :
    L.size + 2 <
      (s.feed junk (bufstart :: L.encode v :: bufstart :: b :: rest).flatten).peak := by
  obtain ⟨x, b, rfl⟩ := List.exists_cons_of_ne_nil hb
  have hover := hs.overflow hv.append_bufstart (by simp [L.length_encode, bufstart]) junk x
    (b ++ rest.flatten)
  simpa only [List.flatten_cons, List.append_assoc, List.cons_append] using hover

/-- Further start markers in front of the structure of a frame. -/
theorem overflow_of_announced {s : Calls} (hs : s.AtStart (n := L.size + 2)) {v : α}
    (hv : MarkFree (L.encode v)) (k : ℕ) {b : List UInt8} (hb : b ≠ [])
    (rest : List (List UInt8)) :
    L.size + 2 < (s.feed junk (bufstart ::
      (List.replicate (k + 1) bufstart ++ L.encode v :: b :: rest)).flatten).peak := by
  obtain ⟨x, b, rfl⟩ := List.exists_cons_of_ne_nil hb
  have hlen : L.size + 2 ≤
      ((List.replicate (k + 1) bufstart).flatten ++ L.encode v).length := by
    simp [L.length_encode, bufstart]
    omega
  have hover := hs.overflow (markFree_replicate_bufstart hv (k + 1)) hlen junk x
    (b ++ rest.flatten)
  simpa only [List.flatten_cons, List.flatten_append, List.append_assoc, List.cons_append]
    using hover

theorem rest_of_announced {threads : List (List α)}
    (hfree : ∀ t ∈ threads, ∀ v ∈ t, MarkFree (L.encode v)) {i j : ℕ} {v w : α} {vs ws : List α}
    (hv : ∀ u ∈ v :: vs, MarkFree (L.encode u)) (hw : ∀ u ∈ w :: ws, MarkFree (L.encode u)) :
    ∀ l ∈ ((threads.map (chunks L)).set i (L.encode v :: bufend :: chunks L vs)).set j
      (L.encode w :: bufend :: chunks L ws), Rest L l := by
  intro l hl
  rcases List.mem_or_eq_of_mem_set hl with hl | rfl
  · rcases List.mem_or_eq_of_mem_set hl with hl | rfl
    · obtain ⟨t, ht, rfl⟩ := List.mem_map.mp hl
      exact .between (hfree t ht)
    · exact .announced hv
  · exact .announced hw

theorem flatten_eq_nil_of_chunks {threads : List (List α)}
    (h : ∀ l ∈ threads.map (chunks L), l = []) : threads.flatten = [] := by
  apply List.flatten_eq_nil_iff.mpr
  intro t ht
  have ht := h _ (List.mem_map_of_mem ht)
  cases t with
  | nil => rfl
  | cons v vs => simp [chunks_cons] at ht

/-- Without whole frames, some frame is announced twice or interrupted by a start marker,
and its bytes run over the end of the buffer. -/
theorem frames_of_peak_le (hpos : 0 < L.size) {threads : List (List α)}
    (hfree : ∀ t ∈ threads, ∀ v ∈ t, MarkFree (L.encode v)) {out : List (List UInt8)}
    (h : Merge (threads.map (chunks L)) out) {s : Calls} (hs : s.AtStart (n := L.size + 2))
    (hpeak : (s.feed junk out.flatten).peak ≤ L.size + 2) :
    ∃ order : List α, order.Perm threads.flatten ∧ out = chunks L order := by
  induction hlen : out.length using Nat.strong_induction_on generalizing out threads s with
  | _ len ih =>
  have hne : ∀ c ∈ out, c ≠ [] := fun c hc => by
    obtain ⟨l, hl, hcl⟩ := h.exists_mem hc
    obtain ⟨t, _, rfl⟩ := List.mem_map.mp hl
    exact mem_chunks_ne_nil hpos hcl
  cases h with
  | nil hnil => exact ⟨[], by simp [flatten_eq_nil_of_chunks hnil], rfl⟩
  | @cons _ i _ l out1 hi hrest =>
    obtain ⟨v, vs, hti, rfl, rfl⟩ := getElem?_map_chunks hi
    have hfv : ∀ u ∈ v :: vs, MarkFree (L.encode u) := hfree _ (List.mem_of_getElem? hti)
    have hlt : i < (threads.map (chunks L)).length := (List.getElem?_eq_some_iff.mp hi).choose
    obtain ⟨out2, ⟨rfl, hwritten⟩ | ⟨j, c, l', hji, hj, rfl, hother⟩⟩ := hrest.next_cases hlt
    · obtain ⟨out3, ⟨rfl, hclosed⟩ | ⟨j, c, l', hji, hj, rfl, hother⟩⟩ :=
        hwritten.next_cases hlt
      · -- a whole frame
        rw [← List.map_set] at hclosed
        have hbytes : (bufstart :: L.encode v :: bufend :: out3).flatten =
            frame (L.encode v) ++ out3.flatten := by simp [frame]
        rw [hbytes, Calls.feed_append] at hpeak
        have hfree' : ∀ t ∈ threads.set i vs, ∀ u ∈ t, MarkFree (L.encode u) := by
          intro t ht u hu
          rcases List.mem_or_eq_of_mem_set ht with ht | rfl
          · exact hfree t ht u hu
          · exact hfv u (List.mem_cons_of_mem _ hu)
        obtain ⟨order, hperm, rfl⟩ := ih out3.length (by simp [← hlen]; omega) hfree' hclosed
          (hs.sound.feed_frame _) hpeak rfl
        exact ⟨v :: order, (hperm.cons v).trans (flatten_set_perm hti).symm, rfl⟩
      · -- a start marker between the structure and its end marker
        obtain ⟨w, ws, _, rfl, rfl⟩ := getElem?_map_chunks hj
        have hpending : (((threads.map (chunks L)).set i (bufend :: chunks L vs)).set j
            (L.encode w :: bufend :: chunks L ws))[i]? = some (bufend :: chunks L vs) := by
          rw [List.getElem?_set_ne hji, List.getElem?_set_self hlt]
        obtain ⟨_, b, _, out4, rfl, _⟩ :=
          hother.exists_cons (List.mem_of_getElem? hpending) (by simp)
        exact absurd hpeak (Nat.not_le.mpr
          (overflow_of_interrupted hs (hfv v (by simp)) (hne b (by simp)) out4))
    · -- a second start marker before the structure
      obtain ⟨w, ws, htj, rfl, rfl⟩ := getElem?_map_chunks hj
      have hfw : ∀ u ∈ w :: ws, MarkFree (L.encode u) := hfree _ (List.mem_of_getElem? htj)
      have hlt' : j < ((threads.map (chunks L)).set i
          (L.encode v :: bufend :: chunks L vs)).length := by
        simpa using (List.getElem?_eq_some_iff.mp hj).choose
      obtain ⟨k, u, b, out3, hfu, rfl⟩ := exists_payload hother
        (rest_of_announced hfree hfv hfw) ⟨w, ws, List.mem_set hlt' _⟩
      exact absurd hpeak (Nat.not_le.mpr
        (overflow_of_announced hs hfu k (hne b (by simp)) out3))

theorem chunks_flatten (vs : List α) :
    (chunks L vs).flatten = vs.flatMap fun v => frame (L.encode v) := by
  induction vs with
  | nil => rfl
  | cons v vs ih => simp [chunks_cons, ih, frame]

theorem flatten_of_returns {payloads : List (List.Vector UInt8 L.size)} {returned : List (List α)}
    (h : List.Forall₂ (fun P rs => (MarkFree P.val → rs = [L.decode P.val]) ∧ rs ≠ [])
      payloads returned) (hfree : ∀ P ∈ payloads, MarkFree P.val) :
    returned.flatten = payloads.map fun P => L.decode P.val := by
  induction h with
  | nil => rfl
  | cons hP _ ih =>
    rw [List.forall_mem_cons] at hfree
    simp [hP.1 hfree.1, ih hfree.2]

/-- Whole frames come back in the order in which they were written. -/
theorem receiveAll_chunks (junk : Junk (L.size + 2)) {vs : List α}
    (hfree : ∀ v ∈ vs, MarkFree (L.encode v)) :
    receiveAll junk (receive L) (chunks L vs).flatten.length 0 (chunks L vs).flatten = vs ∧
      ((Calls.begin junk 0 0).feed junk (chunks L vs).flatten).peak ≤ L.size + 2 := by
  obtain ⟨returned, hreturned, hk⟩ := receive_resyncs L junk (vs.map L.image)
  have hstream : ((vs.map L.image).take vs.length).flatMap (fun P => frame P.val) =
      (chunks L vs).flatten := by
    rw [chunks_flatten, List.take_of_length_le (by simp), List.flatMap_map]
    rfl
  have hlast := hk vs.length
  simp only [hstream] at hlast
  refine ⟨?_, hlast.2.2.2⟩
  rw [hlast.1, List.take_of_length_le (by simp [← hreturned.length_eq]),
    flatten_of_returns hreturned (by simpa using hfree)]
  simp [Function.comp_def, L.decode_encode]

/-- The receiver returns what the threads sent, each structure once and intact, and does not
write behind its buffer. -/
def Delivers (recv : List UInt8 → List UInt8 → Option (α × List UInt8))
    (junk : Junk (L.size + 2)) (threads : List (List α)) (out : List (List UInt8)) : Prop :=
  (receiveAll junk recv out.flatten.length 0 out.flatten).Perm threads.flatten ∧
    ((Calls.begin junk 0 0).feed junk out.flatten).peak ≤ L.size + 2

theorem delivers_iff (junk : Junk (L.size + 2)) (hpos : 0 < L.size) {threads : List (List α)}
    (hfree : ∀ t ∈ threads, ∀ v ∈ t, MarkFree (L.encode v)) {out : List (List UInt8)}
    (h : Merge (threads.map (chunks L)) out) :
    Delivers (receive L) junk threads out ↔ ∃ order, out = chunks L order := by
  constructor
  · rintro ⟨_, hpeak⟩
    obtain ⟨order, _, hout⟩ := frames_of_peak_le hpos hfree h
      (Calls.begin_atStart junk 0 0) hpeak
    exact ⟨order, hout⟩
  · rintro ⟨order, rfl⟩
    have hpeak : ((Calls.begin junk 0 0).feed junk (chunks L order).flatten).peak ≤
        L.size + 2 := by
      rw [chunks_flatten, ← List.flatMap_map]
      exact peak_frames (Calls.begin_atStart junk 0 0) (Nat.zero_le _)
        (by simp [L.length_encode])
    obtain ⟨order', hperm, hout⟩ := frames_of_peak_le hpos hfree h
      (Calls.begin_atStart junk 0 0) hpeak
    have horder : ∀ v ∈ order', MarkFree (L.encode v) := fun v hv => by
      obtain ⟨t, ht, hvt⟩ := List.mem_flatten.mp (hperm.mem_iff.mp hv)
      exact hfree t ht v hvt
    have hall := receiveAll_chunks junk horder
    rw [hout]
    exact ⟨by rw [hall.1]; exact hperm, hall.2⟩

end Threads

/-- Threads of the network process calling `overlay_sendpkt`, and threads of the overlay
process calling `forwardpktToSNP`: everything arrives intact exactly when no two calls
overlap. -/
theorem threads_deliver_iff
    (junk : Junk (sendpktArgLayout.size + 2)) (args : List (List SendpktArg))
    (hargs : ∀ t ∈ args, ∀ a ∈ t, MarkFree (sendpktArgLayout.encode a))
    (out : List (List UInt8))
    (hout : Merge (args.map (·.flatMap fun a => overlaySendpkt a.nextNodeID a.pkt)) out)
    (junk' : Junk (snpPktLayout.size + 2)) (pkts : List (List SnpPkt))
    (hpkts : ∀ t ∈ pkts, ∀ pkt ∈ t, MarkFree (snpPktLayout.encode pkt))
    (out' : List (List UInt8)) (hout' : Merge (pkts.map (·.flatMap forwardpktToSNP)) out') :
    (Delivers getpktToSend junk args out ↔
      ∃ order : List SendpktArg, out = order.flatMap fun a => overlaySendpkt a.nextNodeID a.pkt) ∧
    (Delivers overlayRecvpkt junk' pkts out' ↔
      ∃ order : List SnpPkt, out' = order.flatMap forwardpktToSNP) :=
  ⟨delivers_iff junk (by decide) hargs hout, delivers_iff junk' (by decide) hpkts hout'⟩

/-- A packet without `'!'`. -/
def plainPkt : SnpPkt := ⟨⟨1, 2, 0, 0⟩, List.Vector.replicate _ 0⟩

def zeroJunk (n : ℕ) : Junk n := fun _ => ⟨List.replicate n 0, List.length_replicate⟩

def otherPkt : SnpPkt := ⟨⟨1, 3, 0, 0⟩, List.Vector.replicate _ 0⟩

theorem plainPkt_markFree : MarkFree (sendpktArgLayout.encode ⟨2, plainPkt⟩) := by decide +kernel

theorem chunks_not_frames {α : Type} {L : Layout α} (h2 : L.size ≠ 2)
    (rest : List (List UInt8)) :
    ¬ ∃ order, bufstart :: bufstart :: rest = chunks L order := by
  rintro ⟨order, h⟩
  obtain ⟨v, vs, _, _, hrest⟩ := chunks_eq_cons h.symm
  have hlen := congrArg List.length (List.cons.inj hrest).1
  rw [L.length_encode] at hlen
  exact h2 hlen.symm

/-- Two threads whose first `send()` calls come before either structure. -/
theorem two_threads_not_delivered :
    let args : List (List SendpktArg) := [[⟨2, plainPkt⟩], [⟨2, plainPkt⟩]]
    let raw := sendpktArgLayout.encode ⟨2, plainPkt⟩
    let out := [bufstart, bufstart, raw, raw, bufend, bufend]
    (∀ t ∈ args, ∀ a ∈ t, MarkFree (sendpktArgLayout.encode a)) ∧
      Merge (args.map (·.flatMap fun a => overlaySendpkt a.nextNodeID a.pkt)) out ∧
      ¬ Delivers (L := sendpktArgLayout) getpktToSend (zeroJunk _) args out := by
  intro args raw out
  have hfree : ∀ t ∈ args, ∀ a ∈ t, MarkFree (sendpktArgLayout.encode a) := by
    simpa [args] using plainPkt_markFree
  have hmerge : Merge (args.map (chunks sendpktArgLayout)) out := by
    refine .cons (i := 0) rfl (.cons (i := 1) rfl (.cons (i := 0) rfl (.cons (i := 1) rfl
      (.cons (i := 0) rfl (.cons (i := 1) rfl (.nil ?_))))))
    simp [args, chunks]
  refine ⟨hfree, hmerge, ?_⟩
  have hiff := delivers_iff (L := sendpktArgLayout) (zeroJunk _) (by decide) hfree hmerge
  exact fun h => chunks_not_frames (by decide) _ (hiff.mp h)

/-- In each process the second thread sends between the two calls of the first. -/
theorem threads_deliver_alternating :
    Delivers (L := sendpktArgLayout) getpktToSend (zeroJunk _)
      [[⟨2, plainPkt⟩, ⟨3, otherPkt⟩], [⟨2, otherPkt⟩]]
      (overlaySendpkt 2 plainPkt ++ (overlaySendpkt 2 otherPkt ++ overlaySendpkt 3 otherPkt)) ∧
    Delivers (L := snpPktLayout) overlayRecvpkt (zeroJunk _)
      [[plainPkt, otherPkt], [otherPkt]]
      (forwardpktToSNP plainPkt ++ (forwardpktToSNP otherPkt ++ forwardpktToSNP otherPkt)) := by
  have hmerge : ∀ {α : Type} (f : α → List (List UInt8)) (a b c : α),
      Merge ([[a, c], [b]].map (·.flatMap f)) (f a ++ (f b ++ f c)) := by
    intro α f a b c
    have hlast : Merge [f c, []] (f c ++ []) :=
      .append (i := 0) (l := []) (f c) (by simp) (.nil (by simp))
    refine .append (i := 0) (l := f c) _ (by simp) (.append (i := 1) (l := []) _ (by simp) ?_)
    simpa using hlast
  have h := threads_deliver_iff (zeroJunk _) [[⟨2, plainPkt⟩, ⟨3, otherPkt⟩], [⟨2, otherPkt⟩]]
    (by decide +kernel) _ (hmerge (fun a : SendpktArg => overlaySendpkt a.nextNodeID a.pkt)
      ⟨2, plainPkt⟩ ⟨2, otherPkt⟩ ⟨3, otherPkt⟩) (zeroJunk _)
    [[plainPkt, otherPkt], [otherPkt]] (by decide +kernel) _
    (hmerge _ plainPkt otherPkt otherPkt)
  exact ⟨h.1.mpr ⟨[⟨2, plainPkt⟩, ⟨2, otherPkt⟩, ⟨3, otherPkt⟩], by simp⟩,
    h.2.mpr ⟨[plainPkt, otherPkt, otherPkt], by simp⟩⟩

end DartNet.Framing
