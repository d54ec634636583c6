import DartNet.Framing.Front
import DartNet.Network.AnyPacket
import DartNet.Network.Relay
import DartNet.Network.System

/-! The bytes of route updates. `routeupdate_daemon` and `pkthandler` fill a `pkt_routeupdate_t`
on their stack, whose entries behind the nodes of the topology are never written. -/
namespace DartNet.Network
open Framing Packed Relay

abbrev routeUpdateType : UInt16 := 1

def entryBytes (e : DvEntry) : List UInt8 :=
  routeupdateEntryLayout.encode (Int32.ofInt e.nodeID, e.cost)

def pktRouteupdateSize : ℕ := Layout.u32.size + maxNodeNum * routeupdateEntryLayout.size

/-- The entries of a `pkt_routeupdate_t` before they are written. -/
abbrev EntryStack : Type := List.Vector UInt8 (maxNodeNum * routeupdateEntryLayout.size)

/-- `pkt_routeupdate_t` -/
def pktRouteupdate (es : List DvEntry) (stack : EntryStack) : List UInt8 :=
  Layout.u32.encode (UInt32.ofNat es.length) ++
    (es.flatMap entryBytes ++ stack.val.drop (es.length * routeupdateEntryLayout.size))

def updateHdr (x : ℤ) : SnpHdr :=
  ⟨Int32.ofInt x, Int32.ofInt broadcastNodeID, UInt16.ofNat pktRouteupdateSize, routeUpdateType⟩

/-- The packet that is broadcast: the rest of its data is zero. -/
def routeUpdatePacket (x : ℤ) (es : List DvEntry) (stack : EntryStack) : SnpPkt where
  header := updateHdr x
  data := ⟨(pktRouteupdate es stack ++ List.replicate maxPktLen 0).take maxPktLen, by simp⟩

/-- From `overlay_sendpkt` with the broadcast address to `overlay_recvpkt` at a neighbour, for
the connection to it. -/
def passUpdate (stack : HopStack) (conn : ℤ) (packet : SnpPkt) : Option SnpPkt :=
  (getpktToSend stack.getpktToSend.val
    (Framing.overlaySendpkt (Int32.ofInt broadcastNodeID) packet).flatten).bind fun toSend =>
      if toSend.1.nextNodeID.toInt = broadcastNodeID then
        (recvpkt stack.recvpkt.val (sendpkt toSend.1.pkt conn).flatten).bind fun r =>
          (overlayRecvpkt stack.overlayRecvpkt.val (forwardpktToSNP r.1).flatten).map Prod.fst
      else none

/-- The entries that the daemon can have copied: node IDs of the topology, with costs of at most
`INFINITE_COST`. -/
structure Sendable (x : ℤ) (es : List DvEntry) : Prop where
  source : IsNodeID x
  length : es.length ≤ maxNodeNum
  nodeID : ∀ e ∈ es, IsNodeID e.nodeID
  cost : ∀ e ∈ es, e.cost ≤ infiniteCost

def updateBytes (es : List DvEntry) : List UInt8 :=
  Layout.u32.encode (UInt32.ofNat es.length) ++ es.flatMap entryBytes

def updateFront (x : ℤ) (es : List DvEntry) : List UInt8 :=
  snpHdrLayout.encode (updateHdr x) ++ updateBytes es

/-- The packet has the header and the entries of the update in front. -/
def Tells (x : ℤ) (es : List DvEntry) (packet : SnpPkt) : Prop :=
  (snpPktLayout.encode packet).take (updateFront x es).length = updateFront x es

theorem isNodeID_of_mem {Host : Type} {t : Topology Host} (ht : t.WellFormed) {x : ℤ}
    (hx : x ∈ t.nodeIDs) : IsNodeID x := by
  have hnonneg := Topology.nodeID_nonneg ht.resolved hx
  have hlt := Topology.nodeID_lt hx
  constructor <;> omega

section Bytes
variable {x : ℤ} {es : List DvEntry} {packet : SnpPkt}

theorem length_entryBytes (e : DvEntry) : (entryBytes e).length = routeupdateEntryLayout.size :=
  routeupdateEntryLayout.length_encode _

theorem length_flatMap_entryBytes (es : List DvEntry) :
    (es.flatMap entryBytes).length = es.length * routeupdateEntryLayout.size := by
  induction es with
  | nil => simp
  | cons e es ih =>
    rw [List.flatMap_cons, List.length_append, length_entryBytes, ih, List.length_cons,
      Nat.succ_mul, Nat.add_comm]

theorem length_updateBytes (es : List DvEntry) : (updateBytes es).length =
    Layout.u32.size + es.length * routeupdateEntryLayout.size := by
  rw [updateBytes, List.length_append, length_flatMap_entryBytes, Layout.u32.length_encode]

theorem length_updateFront (x : ℤ) (es : List DvEntry) : (updateFront x es).length =
    snpHdrLayout.size + (Layout.u32.size + es.length * routeupdateEntryLayout.size) := by
  rw [updateFront, List.length_append, snpHdrLayout.length_encode, length_updateBytes]

/-- A cost of at most 999 has no `'#'` behind its low byte. -/
theorem exists_cost_encode {cost : UInt32} (h : cost ≤ infiniteCost) :
    ∃ a b, b ≠ Framing.hash ∧ Layout.u32.encode cost = [a, b, 0, 0] := by
  have hle : cost.toNat ≤ 999 := UInt32.le_iff_toNat_le.mp h
  refine ⟨UInt8.ofNat cost.toNat, UInt8.ofNat (cost.toNat / 256), ?_, ?_⟩
  · intro heq
    have hmod := congrArg UInt8.toNat heq
    rw [UInt8.toNat_ofNat', show Framing.hash.toNat = 35 from rfl] at hmod
    omega
  · have h2 : cost.toNat / 256 / 256 = 0 := by omega
    show Layout.digits 4 cost.toNat = _
    simp [Layout.digits, h2]

theorem markFree_cost {a b : UInt8} (hb : b ≠ Framing.hash) {l : List UInt8} :
    MarkFree (a :: b :: 0 :: 0 :: l) ↔ MarkFree l := by
  rw [← markFree_zero_cons (l := l)]
  simp [MarkFree, List.isChain_cons_cons, hb, bang, Framing.hash]

theorem markFree_entryBytes {e : DvEntry} (hid : IsNodeID e.nodeID) (hcost : e.cost ≤ infiniteCost)
    {l : List UInt8} : MarkFree (entryBytes e ++ l) ↔ MarkFree l := by
  obtain ⟨c, hc⟩ := hid.encode
  obtain ⟨a, b, hb, hab⟩ := exists_cost_encode hcost
  have himage : entryBytes e = [c, 0, 0, 0] ++ [a, b, 0, 0] := by
    rw [← hc, ← hab]
    rfl
  rw [himage]
  exact (markFree_cons_zeros c).trans (markFree_cost hb)

/-- Nothing in the header or in the entries is an end marker. -/
theorem Sendable.markFree (h : Sendable x es) : MarkFree (updateFront x es) := by
  have hentries : MarkFree (es.flatMap entryBytes) := by
    have hid := h.nodeID
    have hcost := h.cost
    clear h
    induction es with
    | nil => simp [MarkFree]
    | cons e es ih =>
      obtain ⟨hid, hids⟩ := List.forall_mem_cons.mp hid
      obtain ⟨hcost, hcosts⟩ := List.forall_mem_cons.mp hcost
      rw [List.flatMap_cons]
      exact (markFree_entryBytes hid hcost).mpr (ih hids hcosts)
  obtain ⟨a, ha⟩ := h.source.encode
  obtain ⟨b, hb⟩ : ∃ b, Layout.u32.encode (UInt32.ofNat es.length) = [b, 0, 0, 0] := by
    have hlen : es.length ≤ 10 := h.length
    have hmod : (UInt32.ofNat es.length).toNat = es.length := by
      rw [UInt32.toNat_ofNat']
      exact Nat.mod_eq_of_lt (by omega)
    have hdiv : es.length / 256 = 0 := by omega
    refine ⟨UInt8.ofNat es.length, ?_⟩
    show Layout.digits 4 (UInt32.ofNat es.length).toNat = _
    rw [hmod]
    simp [Layout.digits, hdiv]
  have hdest : i32.encode (Int32.ofInt broadcastNodeID) = [15, 39, 0, 0] := by decide
  have htail : Layout.u16.encode (UInt16.ofNat pktRouteupdateSize) ++
      Layout.u16.encode routeUpdateType = [84, 0, 1, 0] := by decide
  have himage : updateFront x es = [a, 0, 0, 0] ++ ([15, 39, 0, 0] ++ ([84, 0, 1, 0] ++
      ([b, 0, 0, 0] ++ es.flatMap entryBytes))) := by
    rw [← ha, ← hdest, ← htail, ← hb]
    rfl
  have hlength : ∀ l : List UInt8, MarkFree (84 :: 0 :: 1 :: 0 :: l) ↔ MarkFree l := by
    intro l
    rw [← markFree_zero_cons (l := l)]
    simp [MarkFree, List.isChain_cons_cons, bang]
  rw [himage]
  exact (markFree_cons_zeros a).mpr ((markFree_cost (by decide)).mpr
    ((hlength _).mpr ((markFree_cons_zeros b).mpr hentries)))

theorem routeUpdatePacket_tells (h : es.length ≤ maxNodeNum) (x : ℤ) (stack : EntryStack) :
    Tells x es (routeUpdatePacket x es stack) := by
  have hlen := length_updateBytes es
  have hle : (updateBytes es).length ≤ maxPktLen := by
    rw [hlen]
    have hmul : es.length * routeupdateEntryLayout.size ≤
        maxNodeNum * routeupdateEntryLayout.size := Nat.mul_le_mul_right _ h
    have hmax : Layout.u32.size + maxNodeNum * routeupdateEntryLayout.size ≤ maxPktLen := by
      decide
    omega
  have hdata : (routeUpdatePacket x es stack).data.val.take (updateBytes es).length =
      updateBytes es := by
    show ((pktRouteupdate es stack ++ _).take maxPktLen).take _ = _
    rw [List.take_take, Nat.min_eq_left hle, pktRouteupdate, ← List.append_assoc,
      List.append_assoc]
    exact List.take_left' rfl
  show (snpHdrLayout.encode (updateHdr x) ++ (routeUpdatePacket x es stack).data.val).take _ = _
  rw [updateFront, List.length_append, List.take_length_add_append, hdata]

end Bytes
section Pass
variable {x : ℤ} {es : List DvEntry} {packet : SnpPkt}

theorem length_updateFront_le (h : es.length ≤ maxNodeNum) (x : ℤ) :
    (updateFront x es).length ≤ snpPktLayout.size := by
  have hmul : es.length * routeupdateEntryLayout.size ≤
      maxNodeNum * routeupdateEntryLayout.size := Nat.mul_le_mul_right _ h
  have hmax : snpHdrLayout.size + (Layout.u32.size + maxNodeNum * routeupdateEntryLayout.size) ≤
    snpPktLayout.size := by decide
  rw [length_updateFront]
  omega

/-- `recvpkt` and `overlay_recvpkt` return a packet that still has the update. -/
theorem Tells.receive (hs : Sendable x es) (h : Tells x es packet)
    (junk : List.Vector UInt8 (snpPktLayout.size + 2)) :
    ∃ p rest, Framing.receive snpPktLayout junk.val
      (frameSends (snpPktLayout.encode packet)).flatten = some (p, rest) ∧ Tells x es p := by
  obtain ⟨p, rest, hr, hfront⟩ := receive_front snpPktLayout (v := packet)
    (length_updateFront_le hs.length x)
    (by rw [h]; exact hs.markFree.of_prefix (List.dropLast_prefix _)) junk.property
  exact ⟨p, rest, hr, hfront.trans h⟩

/-- So does `getpktToSend`, with the broadcast address. -/
theorem Tells.getpktToSend (hs : Sendable x es) (h : Tells x es packet)
    (junk : List.Vector UInt8 (sendpktArgLayout.size + 2)) :
    ∃ p rest, Framing.getpktToSend junk.val
      (Framing.overlaySendpkt (Int32.ofInt broadcastNodeID) packet).flatten =
        some (⟨Int32.ofInt broadcastNodeID, p⟩, rest) ∧ Tells x es p := by
  have hdest : i32.encode (Int32.ofInt broadcastNodeID) = [15, 39, 0, 0] := by decide
  have hsplit : ∀ arg : SendpktArg,
      (sendpktArgLayout.encode arg).take (i32.size + (updateFront x es).length) =
        i32.encode arg.nextNodeID ++ (snpPktLayout.encode arg.pkt).take
          (updateFront x es).length := by
    intro arg
    show (i32.encode arg.nextNodeID ++ snpPktLayout.encode arg.pkt).take _ = _
    rw [List.take_append, i32.length_encode, Nat.add_sub_cancel_left,
      List.take_of_length_le (by rw [i32.length_encode]; omega)]
  have hle := length_updateFront_le hs.length x
  obtain ⟨⟨next, p⟩, rest, hr, hfront⟩ := receive_front sendpktArgLayout
    (v := ⟨Int32.ofInt broadcastNodeID, packet⟩)
    (k := i32.size + (updateFront x es).length) (Nat.add_le_add_left hle _)
    (by
      apply MarkFree.of_prefix _ (List.dropLast_prefix _)
      rw [hsplit, hdest, h]
      exact (markFree_cost (by decide)).mpr hs.markFree) junk.property
  rw [hsplit, hsplit] at hfront
  obtain ⟨hnext, hp⟩ := List.append_inj hfront (by rw [i32.length_encode, i32.length_encode])
  obtain rfl : next = Int32.ofInt broadcastNodeID := i32.encode_injective hnext
  exact ⟨p, rest, hr, hp.trans h⟩

/-- An update comes through to each neighbour, whatever the three receivers held. -/
theorem Tells.pass (hs : Sendable x es) (h : Tells x es packet) (stack : HopStack) {conn : ℤ}
    (hconn : 0 ≤ conn) : ∃ p, passUpdate stack conn packet = some p ∧ Tells x es p := by
  obtain ⟨p, _, hp, htells⟩ := h.getpktToSend hs stack.getpktToSend
  obtain ⟨q, _, hq, htells⟩ := htells.receive hs stack.recvpkt
  obtain ⟨r, _, hr, htells⟩ := htells.receive hs stack.overlayRecvpkt
  have hsend : sendpkt p conn = frameSends (snpPktLayout.encode p) := if_neg (by omega)
  have hdest : (Int32.ofInt broadcastNodeID).toInt = broadcastNodeID := by decide
  refine ⟨r, ?_, htells⟩
  simp only [passUpdate, hp, Option.bind_some, hdest, if_true, hsend, recvpkt, hq, overlayRecvpkt,
    forwardpktToSNP, hr, Option.map_some]

/-- Where an entry stands in the bytes of an update. -/
theorem exists_drop_updateBytes {i : ℕ} {e : DvEntry} (he : es[i]? = some e) :
    ∃ rest, ∀ l, (updateBytes es ++ l).drop
      (Layout.u32.size + i * routeupdateEntryLayout.size) = entryBytes e ++ rest ++ l := by
  obtain ⟨hi, rfl⟩ := List.getElem?_eq_some_iff.mp he
  refine ⟨(es.drop (i + 1)).flatMap entryBytes, fun l => ?_⟩
  have hbytes : es.flatMap entryBytes = (es.take i).flatMap entryBytes ++
      (entryBytes es[i] ++ (es.drop (i + 1)).flatMap entryBytes) := by
    rw [← List.flatMap_cons, ← List.flatMap_append, ← List.drop_eq_getElem_cons hi,
      List.take_append_drop]
  rw [updateBytes, hbytes, List.append_assoc, List.append_assoc, ← List.append_assoc
    (Layout.u32.encode _)]
  apply List.drop_left'
  rw [List.length_append, length_flatMap_entryBytes, Layout.u32.length_encode,
    List.length_take_of_le hi.le]

/-- What `pkthandler` reads of the packet: the update, and more entries behind it. -/
theorem Tells.read (hs : Sendable x es) (h : Tells x es packet) :
    packet.header = updateHdr x ∧ ∃ more, routeUpdateOf packet = ⟨x, es ++ more⟩ := by
  have hsplit : (snpPktLayout.encode packet).take (updateFront x es).length =
      snpHdrLayout.encode packet.header ++ packet.data.val.take (updateBytes es).length := by
    show (snpHdrLayout.encode packet.header ++ packet.data.val).take _ = _
    rw [updateFront, List.length_append, snpHdrLayout.length_encode,
      ← snpHdrLayout.length_encode packet.header, List.take_length_add_append]
  obtain ⟨hhdr, hdata⟩ := List.append_inj (hsplit.symm.trans h)
    (by rw [snpHdrLayout.length_encode, snpHdrLayout.length_encode])
  have hheader := snpHdrLayout.encode_injective hhdr
  refine ⟨hheader, ?_⟩
  have hdata : packet.data.val = updateBytes es ++
      packet.data.val.drop (updateBytes es).length := by
    conv_lhs => rw [← List.take_append_drop (updateBytes es).length packet.data.val, hdata]
  have hentry : ∀ (i : ℕ) e, es[i]? = some e → (routeUpdateOf packet).entry[i]? = some e := by
    intro i e he
    have hi := (List.getElem?_eq_some_iff.mp he).1
    have hlen := hs.length
    have hat : routeupdateEntryLayout.decode
        (packet.data.val.drop (Layout.u32.size + i * routeupdateEntryLayout.size)) =
          (Int32.ofInt e.nodeID, e.cost) := by
      obtain ⟨rest, hrest⟩ := exists_drop_updateBytes he
      rw [hdata, hrest, entryBytes, List.append_assoc]
      exact routeupdateEntryLayout.decode_append _ _
    have hid := hs.nodeID e (List.mem_of_getElem? he)
    simp only [routeUpdateOf, List.getElem?_map,
      List.getElem?_range (show i < maxNodeNum by omega), Option.map_some, hat, hid.toInt]
  have htake : (routeUpdateOf packet).entry.take es.length = es := by
    apply List.ext_getElem?
    intro i
    rcases Nat.lt_or_ge i es.length with hi | hi
    · rw [List.getElem?_take_of_lt hi, List.getElem?_eq_getElem hi]
      exact hentry i _ (List.getElem?_eq_getElem hi)
    · rw [List.getElem?_eq_none hi, List.getElem?_eq_none (by simp; omega)]
  have hsrc : (routeUpdateOf packet).srcNodeID = x := by
    show packet.header.srcNodeID.toInt = x
    rw [hheader]
    exact hs.source.toInt
  refine ⟨(routeUpdateOf packet).entry.drop es.length, ?_⟩
  calc routeUpdateOf packet
      = ⟨(routeUpdateOf packet).srcNodeID, (routeUpdateOf packet).entry⟩ := rfl
    _ = ⟨x, (routeUpdateOf packet).entry.take es.length ++
          (routeUpdateOf packet).entry.drop es.length⟩ := by rw [hsrc, List.take_append_drop]
    _ = ⟨x, es ++ (routeUpdateOf packet).entry.drop es.length⟩ := by rw [htake]

end Pass

section Turn

/-- Entries behind those of the row are not looked at. -/
theorem updateRow_append {es more ds : List DvEntry} (h : ds.length ≤ es.length) :
    updateRow (es ++ more) ds = updateRow es ds := by
  induction es generalizing ds with
  | nil =>
    obtain rfl := List.eq_nil_of_length_eq_zero (Nat.le_zero.mp h)
    cases more <;> rfl
  | cons e es ih =>
    cases ds with
    | nil => rfl
    | cons d ds =>
      simp only [List.cons_append, updateRow, ih (Nat.le_of_succ_le_succ h)]

theorem pkthandler_append {nodes : List ℤ} {node : Node} (hdv : Complete nodes node.dv) {x : ℤ}
    {es : List DvEntry} (hlen : es.length = nodes.length) (more : List DvEntry) :
    node.pkthandler ⟨x, es ++ more⟩ = node.pkthandler ⟨x, es⟩ := by
  unfold Node.pkthandler
  cases hrow : getRouteUpdateData node.dv x with
  | none => simp
  | some row =>
    have hrowlen : row.dvEntry.length ≤ es.length := by
      rw [hlen, ← hdv.row hrow, List.length_map]
    simp only [Option.bind_some, updateRow_append hrowlen]

/-- A received update is handled as the one that was sent. -/
theorem Tells.turn {x : ℤ} {es : List DvEntry} {packet : SnpPkt} (hs : Sendable x es)
    (h : Tells x es packet) {nodes : List ℤ} {node : Node} (hdv : Complete nodes node.dv)
    (hlen : es.length = nodes.length) :
    node.turn packet = (node.pkthandler ⟨x, es⟩).map fun r => (r.1, r.2.map .toNbrs) := by
  obtain ⟨hhdr, more, hmore⟩ := h.read hs
  have htext : packetTypes[routeUpdateType.toNat]? = some "ROUTE_UPDATE" := by decide
  have hsnp : ¬ routeUpdateType = PktType.snp := by decide
  have htype : packet.header.type = routeUpdateType := by
    rw [hhdr]
    rfl
  rw [Node.turn, htype, htext, Option.bind_some, if_neg hsnp, hmore, pkthandler_append hdv hlen]

end Turn
end DartNet.Network
