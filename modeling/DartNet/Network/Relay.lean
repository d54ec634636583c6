import DartNet.Framing.RoundTrip
import DartNet.Network.WaitTransport

/-! A segment on its way from `snp_sendseg` at one node to `snp_recvseg` at another. At each hop
its packet is framed three times: between the SNP and the ON process, between two ON
processes, and back. -/
namespace DartNet.Relay
open Packed Framing
open Network (Routingtable)

/-- The routing table of each SNP process, and the connection that each ON process has to a
neighbour, -1 if it has none. -/
structure Overlay where
  routingtable : ℤ → Routingtable
  conn : ℤ → ℤ → ℤ

/-- What the stack holds where the receive functions of one hop put their buffers. -/
structure HopStack where
  getpktToSend : List.Vector UInt8 (sendpktArgLayout.size + 2)
  recvpkt : List.Vector UInt8 (snpPktLayout.size + 2)
  overlayRecvpkt : List.Vector UInt8 (snpPktLayout.size + 2)

/-- From `overlay_sendpkt` at `x` to `overlay_recvpkt` at the next hop: the node reached, and
the packet that its `pkthandler` gets. -/
def hop (net : Overlay) (stack : HopStack) (x : ℤ) (packet : SnpPkt) : Option (ℤ × SnpPkt) :=
  ((net.routingtable x).getnextnode packet.header.destNodeID.toInt).bind fun nextNode =>
    (getpktToSend stack.getpktToSend.val
      (overlaySendpkt (Int32.ofInt nextNode) packet).flatten).bind fun toSend =>
        let y := toSend.1.nextNodeID.toInt
        (recvpkt stack.recvpkt.val (sendpkt toSend.1.pkt (net.conn x y)).flatten).bind fun r =>
          (overlayRecvpkt stack.overlayRecvpkt.val (forwardpktToSNP r.1).flatten).map fun r =>
            (y, r.1)

/-- The SNP branch of `pkthandler` at each node on the way: the source and the segment that
are passed to `forwardsegToSRT`. The packet makes one hop for each element of the list. -/
def relay (net : Overlay) : List HopStack → ℤ → SnpPkt → Option SendsegArg
  | [], _, _ => none
  | stack :: rest, x, packet =>
    (hop net stack x packet).bind fun r =>
      if r.2.header.type = PktType.snp then
        if r.2.header.destNodeID.toInt = r.1 then
          some ⟨r.2.header.srcNodeID, segLayout.decode r.2.data.val⟩
        else relay net rest r.1 r.2
      else none

/-- The stack contents for a whole way. -/
structure WayStack where
  getsegToSend : List.Vector UInt8 (sendsegArgLayout.size + 2)
  hops : List HopStack
  snpRecvseg : List.Vector UInt8 (sendsegArgLayout.size + 2)

/-- What `snp_recvseg` hands over, before its filter, of a segment sent by `snp_sendseg`. -/
def deliver (net : Overlay) (stack : WayStack) (src dest : ℤ) (seg : Seg) : Option SendsegArg :=
  (getsegToSend stack.getsegToSend.val (snpSendseg (Int32.ofInt dest) seg).flatten).bind fun r =>
    (relay net stack.hops src (encapsulate (Int32.ofInt src) r.1)).bind fun arg =>
      (snpRecvseg some stack.snpRecvseg.val (forwardsegToSRT arg.nodeID arg.seg).flatten).map
        Prod.fst

/-- A node ID of the topology, the last byte of an IP address. -/
def IsNodeID (x : ℤ) : Prop := 0 ≤ x ∧ x ≤ 255

/-- The routing tables lead from a node to `dest` over `n` open connections. -/
inductive Route (net : Overlay) (dest : ℤ) : ℕ → ℤ → Prop
  | last {x : ℤ} : (net.routingtable x).getnextnode dest = some dest → 0 ≤ net.conn x dest →
      Route net dest 1 x
  | hop {n : ℕ} {x y : ℤ} : (net.routingtable x).getnextnode dest = some y → y ≠ dest →
      IsNodeID y → 0 ≤ net.conn x y → Route net dest n y → Route net dest (n + 1) x

section MarkFree
variable {l : List UInt8}

theorem markFree_zero_cons : MarkFree (0 :: l) ↔ MarkFree l := by
  cases l with
  | nil => simp [MarkFree]
  | cons b l => simp [MarkFree, List.isChain_cons_cons, bang]

theorem markFree_cons_zeros (b : UInt8) : MarkFree (b :: 0 :: 0 :: 0 :: l) ↔ MarkFree l := by
  rw [← markFree_zero_cons (l := l)]
  simp [MarkFree, List.isChain_cons_cons, bang, Framing.hash]

theorem markFree_append_zeros (h : MarkFree l) (k : ℕ) : MarkFree (l ++ List.replicate k 0) := by
  induction l with
  | nil =>
    induction k with
    | zero => exact h
    | succ k ih => exact markFree_zero_cons.mpr ih
  | cons b l ih =>
    cases l with
    | nil =>
      cases k with
      | zero => exact h
      | succ k =>
        have hzeros : MarkFree ((0 : UInt8) :: List.replicate k 0) := ih (by simp [MarkFree])
        exact List.isChain_cons_cons.mpr ⟨by simp [Framing.hash], hzeros⟩
    | cons b' l =>
      obtain ⟨hb, hl⟩ := List.isChain_cons_cons.mp h
      exact List.isChain_cons_cons.mpr ⟨hb, ih hl⟩

end MarkFree

section NodeID
variable {x : ℤ}

theorem IsNodeID.toInt (h : IsNodeID x) : (Int32.ofInt x).toInt = x := by
  obtain ⟨h0, h1⟩ := h
  exact Int32.toInt_ofInt_of_le (by omega) (by omega)

/-- A node ID is its low byte and three zero bytes. -/
theorem IsNodeID.encode (h : IsNodeID x) : ∃ b, i32.encode (Int32.ofInt x) = [b, 0, 0, 0] := by
  obtain ⟨h0, h1⟩ := h
  have hn : (Int32.ofInt x).toUInt32.toNat = x.toNat := by
    show (BitVec.ofInt 32 x).toNat = x.toNat
    rw [BitVec.toNat_ofInt]
    omega
  have hdiv : x.toNat / 256 = 0 := by omega
  refine ⟨UInt8.ofNat x.toNat, ?_⟩
  show Layout.digits 4 (Int32.ofInt x).toUInt32.toNat = _
  rw [hn]
  simp [Layout.digits, hdiv]

end NodeID

/-- The bytes in front of the zeros in a packet with a segment. -/
def frontSize : ℕ := snpHdrLayout.size + segLayout.size

def snpHdr (src dest : ℤ) : SnpHdr :=
  ⟨Int32.ofInt src, Int32.ofInt dest, UInt16.ofNat segLayout.size, PktType.snp⟩

/-- The packet has the header and the segment, and no end marker that is not the segment's. -/
structure Carries (src dest : ℤ) (seg : Seg) (packet : SnpPkt) : Prop where
  front : (snpPktLayout.encode packet).take frontSize =
    snpHdrLayout.encode (snpHdr src dest) ++ segLayout.encode seg
  free : MarkFree (segLayout.encode seg) → MarkFree (snpPktLayout.encode packet)

section Packet
variable {src dest : ℤ} {seg : Seg} {packet : SnpPkt}

/-- The header adds no end marker in front of what follows it. -/
theorem exists_snpHdr_encode (hsrc : IsNodeID src) (hdest : IsNodeID dest) :
    ∃ a b, snpHdrLayout.encode (snpHdr src dest) =
      [a, 0, 0, 0] ++ ([b, 0, 0, 0] ++ [224, 0, 2, 0]) := by
  obtain ⟨a, ha⟩ := hsrc.encode
  obtain ⟨b, hb⟩ := hdest.encode
  have htail : Layout.u16.encode (UInt16.ofNat segLayout.size) ++
      Layout.u16.encode PktType.snp = [224, 0, 2, 0] := by decide
  exact ⟨a, b, by rw [← ha, ← hb, ← htail]; rfl⟩

theorem markFree_snpHdr (hsrc : IsNodeID src) (hdest : IsNodeID dest) (l : List UInt8) :
    MarkFree (snpHdrLayout.encode (snpHdr src dest) ++ l) ↔ MarkFree l := by
  obtain ⟨a, b, h⟩ := exists_snpHdr_encode hsrc hdest
  rw [h]
  simp only [List.cons_append, List.nil_append, markFree_cons_zeros]
  rw [← markFree_zero_cons (l := l)]
  simp [MarkFree, List.isChain_cons_cons, bang]

theorem packetData_val (seg : Seg) : (packetData seg).val =
    segLayout.encode seg ++ List.replicate (maxPktLen - segLayout.size) 0 := by
  have hlen := segLayout.length_encode seg
  have hle : segLayout.size ≤ maxPktLen := by decide
  show (segLayout.encode seg ++ List.replicate maxPktLen 0).take maxPktLen = _
  rw [List.take_append, hlen, List.take_of_length_le (by omega), List.take_replicate,
    Nat.min_eq_left (by omega)]

theorem encapsulate_carries (hsrc : IsNodeID src) (hdest : IsNodeID dest) (seg : Seg) :
    Carries src dest seg (encapsulate (Int32.ofInt src) ⟨Int32.ofInt dest, seg⟩) := by
  have himage : snpPktLayout.encode (encapsulate (Int32.ofInt src) ⟨Int32.ofInt dest, seg⟩) =
      (snpHdrLayout.encode (snpHdr src dest) ++ segLayout.encode seg) ++
        List.replicate (maxPktLen - segLayout.size) 0 := by
    rw [List.append_assoc, ← packetData_val]
    rfl
  constructor
  · rw [himage, List.take_left']
    rw [List.length_append, snpHdrLayout.length_encode, segLayout.length_encode, frontSize]
  · intro hfree
    rw [himage]
    exact markFree_append_zeros ((markFree_snpHdr hsrc hdest _).mpr hfree) _

/-- What `pkthandler` reads of a packet that carries a segment. -/
theorem Carries.read (h : Carries src dest seg packet) :
    packet.header = snpHdr src dest ∧ segLayout.decode packet.data.val = seg := by
  have hsplit : (snpPktLayout.encode packet).take frontSize =
      snpHdrLayout.encode packet.header ++ packet.data.val.take segLayout.size := by
    show (snpHdrLayout.encode packet.header ++ packet.data.val).take _ = _
    rw [List.take_append, snpHdrLayout.length_encode, frontSize, Nat.add_sub_cancel_left,
      List.take_of_length_le (by rw [snpHdrLayout.length_encode]; omega)]
  obtain ⟨hhdr, hseg⟩ := List.append_inj (hsplit.symm.trans h.front)
    (by rw [snpHdrLayout.length_encode, snpHdrLayout.length_encode])
  refine ⟨snpHdrLayout.encode_injective hhdr, ?_⟩
  rw [← List.take_append_drop segLayout.size packet.data.val, hseg, segLayout.decode_append]

theorem encode_ne_nil (seg : Seg) : segLayout.encode seg ≠ [] := by
  intro h
  have hlen := segLayout.length_encode seg
  rw [h] at hlen
  exact absurd hlen (by decide)

/-- The front of a packet has an end marker where its segment has one. -/
theorem Carries.markFree_front (hsrc : IsNodeID src) (hdest : IsNodeID dest)
    (h : Carries src dest seg packet) :
    (MarkFree ((snpPktLayout.encode packet).take frontSize).dropLast ↔
      MarkFree (segLayout.encode seg).dropLast) ∧
    (MarkFree ((snpPktLayout.encode packet).take frontSize) ↔
      MarkFree (segLayout.encode seg)) := by
  rw [h.front, List.dropLast_append_of_ne_nil (encode_ne_nil seg)]
  exact ⟨markFree_snpHdr hsrc hdest _, markFree_snpHdr hsrc hdest _⟩

/-- `recvpkt` and `overlay_recvpkt` return a packet that still carries the segment. -/
theorem Carries.receive (hsrc : IsNodeID src) (hdest : IsNodeID dest)
    (hseg : MarkFree (segLayout.encode seg).dropLast) (h : Carries src dest seg packet)
    (junk : List.Vector UInt8 (snpPktLayout.size + 2)) :
    ∃ p rest, Framing.receive snpPktLayout junk.val
      (frameSends (snpPktLayout.encode packet)).flatten = some (p, rest) ∧
        Carries src dest seg p := by
  obtain ⟨hlast, hfront⟩ := h.markFree_front hsrc hdest
  obtain ⟨p, rest, hr, htake, heq⟩ := receive_take snpPktLayout (v := packet)
    (show frontSize ≤ snpPktLayout.size by decide) (hlast.mpr hseg)
    (fun hf => h.free (hfront.mp hf)) junk.property
  refine ⟨p, rest, hr, htake.trans h.front, ?_⟩
  intro hf
  rw [heq (hfront.mpr hf)]
  exact h.free hf

/-- So does `getpktToSend`, with the next hop. -/
theorem Carries.getpktToSend (hsrc : IsNodeID src) (hdest : IsNodeID dest)
    (hseg : MarkFree (segLayout.encode seg).dropLast) (h : Carries src dest seg packet) {y : ℤ}
    (hy : IsNodeID y) (junk : List.Vector UInt8 (sendpktArgLayout.size + 2)) :
    ∃ p rest, Framing.getpktToSend junk.val (overlaySendpkt (Int32.ofInt y) packet).flatten =
      some (⟨Int32.ofInt y, p⟩, rest) ∧ Carries src dest seg p := by
  obtain ⟨hlast, hfront⟩ := h.markFree_front hsrc hdest
  obtain ⟨b, hb⟩ := hy.encode
  have hsplit : ∀ arg : SendpktArg, (sendpktArgLayout.encode arg).take (i32.size + frontSize) =
      i32.encode arg.nextNodeID ++ (snpPktLayout.encode arg.pkt).take frontSize := by
    intro arg
    show (i32.encode arg.nextNodeID ++ snpPktLayout.encode arg.pkt).take _ = _
    rw [List.take_append, i32.length_encode, Nat.add_sub_cancel_left,
      List.take_of_length_le (by rw [i32.length_encode]; omega)]
  have htake : (sendpktArgLayout.encode ⟨Int32.ofInt y, packet⟩).take (i32.size + frontSize) =
      [b, 0, 0, 0] ++ (snpPktLayout.encode packet).take frontSize := by rw [hsplit, hb]
  have hne : (snpPktLayout.encode packet).take frontSize ≠ [] := by
    rw [h.front]
    exact List.append_ne_nil_of_right_ne_nil _ (encode_ne_nil seg)
  have himage : sendpktArgLayout.encode ⟨Int32.ofInt y, packet⟩ =
      [b, 0, 0, 0] ++ snpPktLayout.encode packet := by
    rw [← hb]
    rfl
  obtain ⟨⟨next, p⟩, rest, hr, hw, heq⟩ := receive_take sendpktArgLayout
    (v := ⟨Int32.ofInt y, packet⟩) (show i32.size + frontSize ≤ sendpktArgLayout.size by decide)
    (by
      rw [htake, List.dropLast_append_of_ne_nil hne]
      exact (markFree_cons_zeros b).mpr (hlast.mpr hseg))
    (by
      rw [htake, himage]
      exact fun hf => (markFree_cons_zeros b).mpr
        (h.free (hfront.mp ((markFree_cons_zeros b).mp hf))))
    junk.property
  rw [hsplit, hsplit] at hw
  obtain ⟨hnext, hp⟩ := List.append_inj hw (by rw [i32.length_encode, i32.length_encode])
  obtain rfl : next = Int32.ofInt y := i32.encode_injective hnext
  refine ⟨p, rest, hr, hp.trans h.front, ?_⟩
  intro hf
  have hpkt := heq (by rw [htake]; exact (markFree_cons_zeros b).mpr (hfront.mpr hf))
  obtain rfl : p = packet := congrArg (·.pkt) hpkt
  exact h.free hf

/-- A hop to a neighbour keeps the segment. -/
theorem Carries.hop (hsrc : IsNodeID src) (hdest : IsNodeID dest)
    (hseg : MarkFree (segLayout.encode seg).dropLast) (h : Carries src dest seg packet)
    {net : Overlay} {x y : ℤ} (hnext : (net.routingtable x).getnextnode dest = some y)
    (hy : IsNodeID y) (hconn : 0 ≤ net.conn x y) (stack : HopStack) :
    ∃ p, Relay.hop net stack x packet = some (y, p) ∧ Carries src dest seg p := by
  obtain ⟨hhdr, _⟩ := h.read
  obtain ⟨p, _, hp, hcarries⟩ := h.getpktToSend hsrc hdest hseg hy stack.getpktToSend
  obtain ⟨q, _, hq, hcarries⟩ := hcarries.receive hsrc hdest hseg stack.recvpkt
  obtain ⟨r, _, hr, hcarries⟩ := hcarries.receive hsrc hdest hseg stack.overlayRecvpkt
  have hdestID : packet.header.destNodeID.toInt = dest := by rw [hhdr]; exact hdest.toInt
  have hsend : sendpkt p (net.conn x y) = frameSends (snpPktLayout.encode p) :=
    if_neg (by omega)
  refine ⟨r, ?_, hcarries⟩
  simp only [Relay.hop, hdestID, hnext, Option.bind_some, hp, hy.toInt, hsend, recvpkt, hq,
    overlayRecvpkt, forwardpktToSNP, hr, Option.map_some]

/-- A packet that carries a segment comes to its destination with it. -/
theorem Carries.relay (hsrc : IsNodeID src) (hdest : IsNodeID dest)
    (hseg : MarkFree (segLayout.encode seg).dropLast) {net : Overlay} {n : ℕ} {x : ℤ}
    (hroute : Route net dest n x) (h : Carries src dest seg packet) {hops : List HopStack}
    (hlen : hops.length = n) :
    Relay.relay net hops x packet = some ⟨Int32.ofInt src, seg⟩ := by
  induction hroute generalizing packet hops with
  | last hnext hconn =>
    obtain ⟨stack, rfl⟩ := List.length_eq_one_iff.mp hlen
    obtain ⟨p, hp, hcarries⟩ := h.hop hsrc hdest hseg hnext hdest hconn stack
    obtain ⟨hhdr, hread⟩ := hcarries.read
    simp [Relay.relay, hp, hhdr, hread, snpHdr, hdest.toInt]
  | hop hnext hne hy hconn _ ih =>
    obtain ⟨stack, rest, rfl⟩ := List.exists_cons_of_length_eq_add_one hlen
    obtain ⟨p, hp, hcarries⟩ := h.hop hsrc hdest hseg hnext hy hconn stack
    obtain ⟨hhdr, _⟩ := hcarries.read
    simp only [List.length_cons, Nat.add_right_cancel_iff] at hlen
    rw [← ih hcarries hlen]
    simp [Relay.relay, hp, hhdr, snpHdr, hdest.toInt, Ne.symm hne]

end Packet

/-- Buffers that held `c` everywhere. -/
def HopStack.filled (c : UInt8) : HopStack where
  getpktToSend := List.Vector.replicate _ c
  recvpkt := List.Vector.replicate _ c
  overlayRecvpkt := List.Vector.replicate _ c

section Filled
variable {c : UInt8} {net : Overlay} {i : ℕ}

/-- Where a structure laid out behind a node ID has its bytes. -/
theorem getElem?_nodeID {nodeID : Int32} {l : List UInt8} :
    (i32.encode nodeID ++ l)[i32.size + i]? = l[i]? := by
  rw [List.getElem?_append_right (by rw [i32.length_encode]; omega), i32.length_encode,
    Nat.add_sub_cancel_left]

/-- No receive function on the way takes a `c` out of a cell again. -/
theorem hop_filled {x y : ℤ} {packet p : SnpPkt} (hc : (snpPktLayout.encode packet)[i]? = some c)
    (h : hop net (.filled c) x packet = some (y, p)) :
    (snpPktLayout.encode p)[i]? = some c := by
  obtain ⟨nextNode, _, h⟩ := Option.bind_eq_some_iff.mp h
  obtain ⟨⟨toSend, _⟩, hsend, h⟩ := Option.bind_eq_some_iff.mp h
  obtain ⟨⟨q, _⟩, hq, h⟩ := Option.bind_eq_some_iff.mp h
  obtain ⟨⟨r, _⟩, hr, h⟩ := Option.map_eq_some_iff.mp h
  obtain ⟨_, rfl⟩ := Prod.mk.inj h
  have hsend := receive_keeps sendpktArgLayout hsend (getElem?_nodeID.trans hc)
  have hpkt : (snpPktLayout.encode toSend.pkt)[i]? = some c := getElem?_nodeID.symm.trans hsend
  unfold sendpkt at hq
  split at hq
  next => simp [recvpkt, receive, Rx.receive] at hq
  next => exact receive_keeps snpPktLayout hr (receive_keeps snpPktLayout hq hpkt)

theorem relay_filled {n : ℕ} {x : ℤ} {packet : SnpPkt} {arg : SendsegArg}
    (hi : i < segLayout.size) (hc : packet.data.val[i]? = some c)
    (h : relay net (List.replicate n (.filled c)) x packet = some arg) :
    (segLayout.encode arg.seg)[i]? = some c := by
  have hdata : ∀ q : SnpPkt,
      (snpPktLayout.encode q)[snpHdrLayout.size + i]? = q.data.val[i]? := by
    intro q
    show (snpHdrLayout.encode q.header ++ q.data.val)[_]? = _
    rw [List.getElem?_append_right (by rw [snpHdrLayout.length_encode]; omega),
      snpHdrLayout.length_encode, Nat.add_sub_cancel_left]
  induction n generalizing x packet with
  | zero => simp [relay] at h
  | succ n ih =>
    rw [List.replicate_succ] at h
    obtain ⟨⟨y, p⟩, hp, h⟩ := Option.bind_eq_some_iff.mp h
    have hcell := (hdata p).symm.trans (hop_filled ((hdata packet).trans hc) hp)
    split at h
    next =>
      split at h
      next =>
        obtain rfl := Option.some.inj h
        have hle : segLayout.size ≤ p.data.val.length := by
          rw [p.data.property]
          decide
        rw [segLayout.encode_decode_take hle, List.getElem?_take_of_lt hi]
        exact hcell
      next => exact ih hcell h
    next => contradiction

end Filled

theorem markFree_sendsegArg {id : ℤ} (hid : IsNodeID id) (seg : Seg) :
    MarkFree (sendsegArgLayout.encode ⟨Int32.ofInt id, seg⟩).dropLast ↔
      MarkFree (segLayout.encode seg).dropLast := by
  obtain ⟨b, hb⟩ := hid.encode
  have himage : sendsegArgLayout.encode ⟨Int32.ofInt id, seg⟩ =
      [b, 0, 0, 0] ++ segLayout.encode seg := by
    rw [← hb]
    rfl
  rw [himage, List.dropLast_append_of_ne_nil (encode_ne_nil seg)]
  exact markFree_cons_zeros b

section Deliver
variable {net : Overlay} {src dest : ℤ} {n : ℕ} {seg : Seg}

/-- A segment that is stamped without an early end marker is delivered. -/
theorem deliver_of_markFree (hsrc : IsNodeID src) (hdest : IsNodeID dest)
    (hroute : Route net dest n src) (hfree : MarkFree (segLayout.encode seg.stamp).dropLast)
    {stack : WayStack} (hlen : stack.hops.length = n) :
    deliver net stack src dest seg = some ⟨Int32.ofInt src, seg.stamp⟩ := by
  obtain ⟨_, hget⟩ := (roundTrip_iff sendsegArgLayout _).mpr
    ((markFree_sendsegArg hdest seg.stamp).mpr hfree) _ stack.getsegToSend.property
  obtain ⟨_, hrecv⟩ := (roundTrip_iff sendsegArgLayout _).mpr
    ((markFree_sendsegArg hsrc seg.stamp).mpr hfree) _ stack.snpRecvseg.property
  have hrelay := (encapsulate_carries hsrc hdest seg.stamp).relay hsrc hdest hfree hroute hlen
  simp only [deliver, getsegToSend, snpSendseg, hget, Option.bind_some, hrelay,
    snpRecvseg_unfiltered, forwardsegToSRT, hrecv, Option.map_some]

/-- Any other segment may come with another last byte. -/
theorem exists_not_delivered (hdest : IsNodeID dest)
    (hmark : ¬ MarkFree (segLayout.encode seg.stamp).dropLast) (n : ℕ) :
    ∃ stack : WayStack, stack.hops.length = n ∧
      deliver net stack src dest seg ≠ some ⟨Int32.ofInt src, seg.stamp⟩ := by
  have hne := encode_ne_nil seg.stamp
  have hlen := segLayout.length_encode
  have hpos : segLayout.size - 1 < segLayout.size := by decide
  generalize hlast : (segLayout.encode seg.stamp).getLast hne = last
  refine ⟨⟨List.Vector.replicate _ (last + 1), List.replicate n (.filled (last + 1)),
    List.Vector.replicate _ (last + 1)⟩, by simp, ?_⟩
  intro h
  obtain ⟨⟨arg, _⟩, hget, h⟩ := Option.bind_eq_some_iff.mp h
  obtain ⟨arg', hrelay, h⟩ := Option.bind_eq_some_iff.mp h
  obtain ⟨⟨w, _⟩, hrecv, rfl⟩ := Option.map_eq_some_iff.mp h
  -- the first receiver puts the byte of its stack in the last place, and it stays there
  have hcut := receive_cut sendsegArgLayout hget
    ((markFree_sendsegArg hdest seg.stamp).not.mpr hmark)
  have harg : (segLayout.encode arg.seg)[segLayout.size - 1]? = some (last + 1) :=
    getElem?_nodeID.symm.trans hcut
  have hdata : (packetData arg.seg).val[segLayout.size - 1]? = some (last + 1) := by
    rw [packetData_val, List.getElem?_append_left (by rw [hlen]; exact hpos)]
    exact harg
  have harg' := relay_filled hpos hdata hrelay
  rw [snpRecvseg_unfiltered] at hrecv
  have hend := receive_keeps sendsegArgLayout hrecv (getElem?_nodeID.trans harg')
  have hstamp : (segLayout.encode seg.stamp)[segLayout.size - 1]? = some (last + 1) :=
    getElem?_nodeID.symm.trans hend
  rw [← hlen seg.stamp, ← List.getLast?_eq_getElem?, List.getLast?_eq_some_getLast hne,
    hlast] at hstamp
  simpa using Option.some.inj hstamp

end Deliver

/-- Over any number of hops, whatever the stacks hold, the segment and its source come through
exactly if the stamped segment has no end marker before its last two bytes. -/
theorem relayed_iff {net : Overlay} {src dest : ℤ} {n : ℕ} (hsrc : IsNodeID src)
    (hdest : IsNodeID dest) (hroute : Route net dest n src) (seg : Seg) :
    (∀ stack : WayStack, stack.hops.length = n →
      deliver net stack src dest seg = some ⟨Int32.ofInt src, seg.stamp⟩) ↔
        MarkFree (segLayout.encode seg.stamp).dropLast := by
  constructor
  · intro h
    by_contra hmark
    obtain ⟨stack, hlen, hne⟩ : ∃ stack : WayStack, stack.hops.length = n ∧
        deliver net stack src dest seg ≠ some ⟨Int32.ofInt src, seg.stamp⟩ :=
      exists_not_delivered hdest hmark n
    exact hne (h stack hlen)
  · exact fun hfree stack hlen => deliver_of_markFree hsrc hdest hroute hfree hlen

/-- Node 1 reaches node 3 over node 2. -/
def line : Overlay where
  routingtable x := ⟨fun _ => [⟨3, x + 1⟩]⟩
  conn _ _ := 5

theorem line_route : Route line 3 2 1 :=
  .hop (y := 2) rfl (by decide) (by constructor <;> decide) (by decide)
    (.last rfl (by decide))

def synFrom (port : UInt32) : Seg :=
  ⟨⟨port, 80, 0, 0, 0, SegType.syn, 0, 0⟩, List.Vector.replicate _ 0⟩

theorem relayed_line : MarkFree (segLayout.encode (synFrom 4000).stamp).dropLast ∧
    ∀ stack : WayStack, stack.hops.length = 2 →
      deliver line stack 1 3 (synFrom 4000) = some ⟨1, (synFrom 4000).stamp⟩ := by
  have hfree : MarkFree (segLayout.encode (synFrom 4000).stamp).dropLast := by decide +kernel
  exact ⟨hfree, (relayed_iff (by constructor <;> decide) (by constructor <;> decide) line_route
    (synFrom 4000)).mpr hfree⟩

/-- A `SYN` from port 56462 has no end marker, but its checksum is one. -/
theorem checksum_marker : MarkFree (segLayout.encode (synFrom 56462)) ∧
    ¬ ∀ stack : WayStack, stack.hops.length = 2 →
      deliver line stack 1 3 (synFrom 56462) = some ⟨1, (synFrom 56462).stamp⟩ := by
  refine ⟨by decide +kernel, ?_⟩
  intro h
  obtain ⟨stack, hlen, hne⟩ : ∃ stack : WayStack, stack.hops.length = 2 ∧
      deliver line stack 1 3 (synFrom 56462) ≠ some ⟨Int32.ofInt 1, (synFrom 56462).stamp⟩ :=
    exists_not_delivered (by constructor <;> decide) (by decide +kernel) 2
  exact hne (h stack hlen)

end DartNet.Relay
