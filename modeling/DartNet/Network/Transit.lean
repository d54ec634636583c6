import DartNet.Common.Checksum
import DartNet.Network.EndToEnd

/-! A segment on its way between two SRT processes, one step of a process at a time, while the
tables and the connections of the nodes change. -/
open DartNet.Overlay
namespace DartNet.Relay
open Packed Framing Network Transition
variable {Host : Type} {t : Topology Host}

inductive Transit
  /-- Written by `snp_sendseg` to the SNP process of the node. -/
  | written (destNodeID : Int32) (seg : Seg)
  /-- With the SNP process of `x`, which is about to look up the next hop. -/
  | routed (x : ℤ) (packet : SnpPkt)
  /-- Written by `forwardsegToSRT`. -/
  | forwarded (arg : SendsegArg)
  deriving DecidableEq

/-- What the stacks of the receivers hold in one step. -/
structure TransitStack where
  getsegToSend : List.Vector UInt8 (sendsegArgLayout.size + 2)
  hop : HopStack

/-- Stacks that hold zeros. -/
def TransitStack.zero : TransitStack := ⟨.replicate _ 0, .filled 0⟩

/-- `waitTransport` of the node `src` takes a segment, or the packet makes a hop and `pkthandler`
of the next node takes it. -/
def Transit.advance (net : Relay.Overlay) (src : ℤ) (stack : TransitStack) :
    Transit → Option Transit
  | .written destNodeID seg =>
    (getsegToSend stack.getsegToSend.val (snpSendseg destNodeID seg).flatten).map fun r =>
      .routed src (encapsulate (Int32.ofInt src) r.1)
  | .routed x packet =>
    (hop net stack.hop x packet).bind fun r =>
      if r.2.header.type = PktType.snp then
        if r.2.header.destNodeID.toInt = r.1 then
          some (.forwarded ⟨r.2.header.srcNodeID, segLayout.decode r.2.data.val⟩)
        else some (.routed r.1 r.2)
      else none
  | .forwarded _ => none

/-- The numbers that `rand` returns to `seglost`. -/
structure Rand where
  random : ℕ
  coin : ℕ
  place : ℕ

/-- The filter of `snp_recvseg`. -/
def Rand.heard (r : Rand) (seg : Seg) : Option Seg :=
  let lost := seglost seg r.random r.coin r.place
  if 0 < lost.1 then none else if checkchecksum lost.2 < 0 then none else some lost.2

/-- What `snp_recvseg` makes of a segment that was forwarded to it. -/
def Transit.receive (r : Rand) (junk : List.Vector UInt8 (sendsegArgLayout.size + 2)) :
    Transit → Option (Option SendsegArg)
  | .forwarded arg =>
    some ((snpRecvseg some junk.val (forwardsegToSRT arg.nodeID arg.seg).flatten).bind fun a =>
      (r.heard a.1.seg).map fun seg => ⟨a.1.nodeID, seg⟩)
  | _ => none

/-- A segment that is about to be stamped has no end marker inside then. -/
def Transit.Unmarked : Transit → Prop
  | .written _ seg => MarkFree (segLayout.encode seg.stamp).dropLast
  | _ => True

/-- No bit error of `seglost` gets past the check. -/
def Transit.Caught (r : Rand) : Transit → Prop
  | .forwarded arg => ∀ seg ∈ r.heard arg.seg, seg = arg.seg
  | _ => True

instance : DecidablePred Transit.Unmarked
  | .written _ seg => inferInstanceAs (Decidable (MarkFree (segLayout.encode seg.stamp).dropLast))
  | .routed _ _ => .isTrue trivial
  | .forwarded _ => .isTrue trivial

instance (r : Rand) : DecidablePred (Transit.Caught r)
  | .forwarded arg => inferInstanceAs (Decidable (∀ seg ∈ r.heard arg.seg, seg = arg.seg))
  | .written _ _ => .isTrue trivial
  | .routed _ _ => .isTrue trivial

/-- The stamped segment is on its way from `src` to `dest`. -/
inductive Transit.Holds (t : Topology Host) (src dest : ℤ) (seg : Seg) : Transit → Prop
  | written : Holds t src dest seg (.written (Int32.ofInt dest) seg)
  | routed {x : ℤ} {packet : SnpPkt} : x ∈ t.nodeIDs → x ≠ dest →
      MarkFree (segLayout.encode seg).dropLast → Carries src dest seg packet →
      Holds t src dest seg (.routed x packet)
  | forwarded : MarkFree (segLayout.encode seg).dropLast →
      Holds t src dest seg (.forwarded ⟨Int32.ofInt src, seg⟩)

section Hop
variable {src dest x y : ℤ} {seg : Seg} {packet : SnpPkt} {net : Relay.Overlay}

theorem markFree_cons {b : UInt8} (hb : b ≠ bang) {l : List UInt8} :
    MarkFree (b :: l) ↔ MarkFree l := by
  cases l with
  | nil => simp [MarkFree]
  | cons c l => simp [MarkFree, List.isChain_cons_cons, hb]

/-- `getpktToSend` returns a next hop of -1 too. -/
theorem Carries.getpktToSend_none (hsrc : IsNodeID src) (hdest : IsNodeID dest)
    (hseg : MarkFree (segLayout.encode seg).dropLast) (h : Carries src dest seg packet)
    (junk : List.Vector UInt8 (sendpktArgLayout.size + 2)) :
    ∃ p rest, Framing.getpktToSend junk.val (Framing.overlaySendpkt (-1) packet).flatten =
      some (⟨-1, p⟩, rest) := by
  obtain ⟨hlast, hfront⟩ := h.markFree_front hsrc hdest
  have hnone : i32.encode (-1) = [255, 255, 255, 255] := by decide
  have hfree : ∀ l, MarkFree (i32.encode (-1) ++ l) ↔ MarkFree l := by
    intro l
    simp only [hnone, List.cons_append, List.nil_append]
    rw [markFree_cons (by decide), markFree_cons (by decide), markFree_cons (by decide),
      markFree_cons (by decide)]
  have hsplit : ∀ arg : SendpktArg, (sendpktArgLayout.encode arg).take (i32.size + frontSize) =
      i32.encode arg.nextNodeID ++ (snpPktLayout.encode arg.pkt).take frontSize := by
    intro arg
    show (i32.encode arg.nextNodeID ++ snpPktLayout.encode arg.pkt).take _ = _
    rw [List.take_append, i32.length_encode, Nat.add_sub_cancel_left,
      List.take_of_length_le (by rw [i32.length_encode]; omega)]
  have hne : (snpPktLayout.encode packet).take frontSize ≠ [] := by
    rw [h.front]
    exact List.append_ne_nil_of_right_ne_nil _ (encode_ne_nil seg)
  obtain ⟨⟨next, p⟩, rest, hr, hw, _⟩ := receive_take sendpktArgLayout (v := ⟨-1, packet⟩)
    (show i32.size + frontSize ≤ sendpktArgLayout.size by decide)
    (by
      rw [hsplit, List.dropLast_append_of_ne_nil hne]
      exact (hfree _).mpr (hlast.mpr hseg))
    (by
      rw [hsplit]
      exact fun hf => (hfree _).mpr (h.free (hfront.mp ((hfree _).mp hf))))
    junk.property
  rw [hsplit, hsplit] at hw
  obtain ⟨hnext, _⟩ := List.append_inj hw (by rw [i32.length_encode, i32.length_encode])
  obtain rfl : next = -1 := i32.encode_injective hnext
  exact ⟨p, rest, hr⟩

/-- The ON process sends nothing where it has no connection to the next hop. -/
theorem Carries.hop_closed (hsrc : IsNodeID src) (hdest : IsNodeID dest)
    (hseg : MarkFree (segLayout.encode seg).dropLast) (h : Carries src dest seg packet)
    (hnext : (net.routingtable x).getnextnode dest = some y) (hy : IsNodeID y ∨ y = -1)
    (hconn : net.conn x y < 0) (stack : HopStack) : Relay.hop net stack x packet = none := by
  obtain ⟨hhdr, _⟩ := h.read
  have hdestID : packet.header.destNodeID.toInt = dest := by rw [hhdr]; exact hdest.toInt
  obtain ⟨p, rest, hp, hID⟩ : ∃ p rest, Framing.getpktToSend stack.getpktToSend.val
      (Framing.overlaySendpkt (Int32.ofInt y) packet).flatten = some (⟨Int32.ofInt y, p⟩, rest) ∧
        (Int32.ofInt y).toInt = y := by
    rcases hy with hy | rfl
    · obtain ⟨p, rest, hp, _⟩ := h.getpktToSend hsrc hdest hseg hy stack.getpktToSend
      exact ⟨p, rest, hp, hy.toInt⟩
    · obtain ⟨p, rest, hp⟩ := h.getpktToSend_none hsrc hdest hseg stack.getpktToSend
      exact ⟨p, rest, hp, by decide⟩
  have hnil : Framing.receive snpPktLayout stack.recvpkt.val [] = none := rfl
  simp [Relay.hop, hdestID, hnext, hp, hID, sendpkt, hconn, recvpkt, hnil]

end Hop

section Network
variable {ip : ℤ → UInt32} {room : ℕ} {s : Sys} {u : Startup} {src dest x : ℤ} {seg : Seg}
  {packet : SnpPkt}

/-- A lookup finds a neighbour or nothing. -/
theorem getnextnode_cases (ht : t.WellFormed) (hs : (machine t).Reachable (fun _ _ => True) s)
    (hx : x ∈ t.nodeIDs) (hdest : dest ∈ t.nodeIDs) (hne : x ≠ dest) :
    ∃ y, (s.node x).routingtable.getnextnode dest = some y ∧ (y = -1 ∨ ∃ c, t.link x y c) := by
  obtain ⟨T, hT⟩ := exists_represents ht hs
  by_cases hinf : s.entry x dest = infiniteCost
  · exact ⟨-1, noHop_of_reachable ht hs x hx dest hdest hinf, .inl rfl⟩
  · have hcap : (s.entry x dest).toNat ≤ infiniteCost.toNat := by
      rw [hT.own x hx dest hdest]
      exact hT.inv.own_le_cap x dest
    have hlt := lt_of_le_of_ne hcap fun heq => hinf (UInt32.toNat_inj.mp heq)
    obtain ⟨w, c, hlink, hnext, _⟩ := hT.next_hop hx hne (UInt32.lt_iff_toNat_lt.mpr hlt)
    exact ⟨w, hnext, .inr ⟨c, hlink⟩⟩

theorem connfd_none (hlinks : LinksInv t ip u) (ht : t.WellFormed) (hx : x ∈ t.nodeIDs) :
    connfd (-1) (u.nt x) = -1 := by
  obtain hnone | ⟨e, he, hid, _⟩ := connfd_mem (-1) (u.nt x)
  · exact hnone
  · obtain ⟨c, hlink⟩ := (hlinks.table x hx).link_of_mem he
    have hnonneg := Topology.nodeID_nonneg ht.resolved
      (Topology.link_mem (Topology.link_symm hlink))
    omega

/-- A hop that is made leads to a neighbour, and the packet still carries the segment. -/
theorem Carries.hop_some (ht : t.WellFormed) (hip : Addressed t ip)
    (hu : (startupMachine room t ip).Reachable (fun _ _ => True) u)
    (hs : (machine t).Reachable (fun _ _ => True) s) (hsrc : src ∈ t.nodeIDs)
    (hdest : dest ∈ t.nodeIDs) (hseg : MarkFree (segLayout.encode seg).dropLast)
    (h : Carries src dest seg packet) (hx : x ∈ t.nodeIDs) (hne : x ≠ dest) {stack : HopStack}
    {r : ℤ × SnpPkt} (hr : Relay.hop (overlayOf s u) stack x packet = some r) :
    (∃ c, t.link x r.1 c) ∧ Carries src dest seg r.2 := by
  have hsrcID := isNodeID_of_mem ht hsrc
  have hdestID := isNodeID_of_mem ht hdest
  have hlinks := linksInv_of_reachable ht hip hu
  obtain ⟨y, hnext, hy⟩ := getnextnode_cases ht hs hx hdest hne
  have hyID : IsNodeID y ∨ y = -1 := by
    rcases hy with rfl | ⟨c, hlink⟩
    · exact .inr rfl
    · exact .inl (isNodeID_of_mem ht (Topology.link_mem (Topology.link_symm hlink)))
  by_cases hconn : (overlayOf s u).conn x y < 0
  · rw [h.hop_closed hsrcID hdestID hseg hnext hyID hconn] at hr
    contradiction
  · rcases hy with rfl | ⟨c, hlink⟩
    · exact absurd (show connfd (-1) (u.nt x) < 0 by rw [connfd_none hlinks ht hx]; decide) hconn
    · obtain ⟨p, hp, hcarries⟩ := h.hop hsrcID hdestID hseg hnext
        (isNodeID_of_mem ht (Topology.link_mem (Topology.link_symm hlink))) (not_lt.mp hconn) stack
      obtain rfl := Option.some.inj (hp.symm.trans hr)
      exact ⟨⟨c, hlink⟩, hcarries⟩

/-- Whatever step is taken with it, a segment stays the segment that was sent. -/
theorem Transit.Holds.advance (ht : t.WellFormed) (hip : Addressed t ip)
    (hu : (startupMachine room t ip).Reachable (fun _ _ => True) u)
    (hs : (machine t).Reachable (fun _ _ => True) s) (hsrc : src ∈ t.nodeIDs)
    (hdest : dest ∈ t.nodeIDs) (hne : src ≠ dest) (hstamp : seg.stamp = seg) {m m' : Transit}
    (h : m.Holds t src dest seg) (hfree : m.Unmarked) {stack : TransitStack}
    (hm : m.advance (overlayOf s u) src stack = some m') : m'.Holds t src dest seg := by
  have hsrcID := isNodeID_of_mem ht hsrc
  have hdestID := isNodeID_of_mem ht hdest
  cases h with
  | written =>
    have hmark : MarkFree (segLayout.encode seg.stamp).dropLast := hfree
    obtain ⟨_, hget⟩ := (roundTrip_iff sendsegArgLayout _).mpr
      ((markFree_sendsegArg hdestID seg.stamp).mpr hmark) _ stack.getsegToSend.property
    simp only [Transit.advance, getsegToSend, snpSendseg, hget, Option.map_some,
      Option.some.injEq] at hm
    rw [← hm, hstamp]
    exact .routed hsrc hne (hstamp ▸ hmark) (encapsulate_carries hsrcID hdestID seg)
  | @routed x packet hx hxdest hmark hcarries =>
    obtain ⟨r, hr, hm⟩ := Option.bind_eq_some_iff.mp hm
    obtain ⟨⟨c, hlink⟩, hkept⟩ :=
      hcarries.hop_some ht hip hu hs hsrc hdest hmark hx hxdest hr
    obtain ⟨hhdr, hread⟩ := hkept.read
    simp only [hhdr, hread, snpHdr, if_true, hdestID.toInt] at hm
    split at hm
    next => exact Option.some.inj hm ▸ .forwarded hmark
    next hother =>
      exact Option.some.inj hm ▸ .routed (Topology.link_mem (Topology.link_symm hlink))
        (Ne.symm hother) hmark hkept
  | forwarded _ => simp [Transit.advance] at hm

/-- A segment that was forwarded is received, if no bit error gets past the check, or lost. -/
theorem Transit.Holds.receive (ht : t.WellFormed) (hsrc : src ∈ t.nodeIDs) {m : Transit}
    (h : m.Holds t src dest seg) {r : Rand} (hcaught : m.Caught r)
    {junk : List.Vector UInt8 (sendsegArgLayout.size + 2)} {got : Option SendsegArg}
    (hgot : m.receive r junk = some got) : got = none ∨ got = some ⟨Int32.ofInt src, seg⟩ := by
  cases h with
  | written => simp [Transit.receive] at hgot
  | routed _ _ _ _ => simp [Transit.receive] at hgot
  | forwarded hmark =>
    obtain ⟨_, hrecv⟩ := (roundTrip_iff sendsegArgLayout _).mpr
      ((markFree_sendsegArg (isNodeID_of_mem ht hsrc) seg).mpr hmark) _ junk.property
    simp only [Transit.receive, snpRecvseg_unfiltered, getsegToSend, forwardsegToSRT, hrecv,
      Option.bind_some, Option.some.injEq] at hgot
    cases hheard : r.heard seg with
    | none =>
      rw [hheard] at hgot
      exact .inl hgot.symm
    | some seg' =>
      obtain rfl := hcaught seg' hheard
      rw [hheard] at hgot
      exact .inr hgot.symm

end Network
end DartNet.Relay
