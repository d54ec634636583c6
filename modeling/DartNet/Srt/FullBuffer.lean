import DartNet.Srt.Connections

/-! A caller of `srt_server_recv` that waits for more bytes than the segment handler can still
store. The call admits any length up to the size of the buffer, the handler only stores a
segment if a free byte is left behind it. -/
namespace DartNet.Server
open Transition

/-- The next segment of the stream, from the client of the connection. -/
structure NextData (tcb : SvrTcb) (srcNodeID : UInt32) (seg : Seg) : Prop where
  port : tcb.svrPortNum = seg.header.destPort
  type : seg.header.type = SegType.data
  client : tcb.fromClient srcNodeID seg
  expected : seg.header.seqNum = tcb.expectSeqNum
  length_pos : 1 ≤ seg.header.length.toNat
  length_le : seg.header.length.toNat ≤ maxSegLen

/-- The data of the segment was appended and the next byte is expected. -/
def Appended (s t : Socket) (seg : Seg) : Prop :=
  t.tcb.buf.contents = s.tcb.buf.contents ++ seg.payload ∧
    t.tcb.expectSeqNum = s.tcb.expectSeqNum + seg.header.length.toUInt32

/-- The caller waits for more bytes than there are. -/
def Waiting (s : Socket) (length : UInt32) : Prop :=
  s.tcb.state = .connected ∧ s.call = .recv length ∧ s.tcb.buf.usedBufLen < length

/-- Whenever a call for `length` bytes waits, the next segment of the stream is appended. -/
def NeverStarved (nodeID port length : UInt32) : Prop :=
  ∀ s, (socketMachine nodeID port).Reachable (fun _ _ => True) s → Waiting s length →
    ∀ srcNodeID seg, NextData s.tcb srcNodeID seg →
      ∃ t out, s.receive srcNodeID seg = some (t, out) ∧ Appended s t seg

theorem step_holds {s t : Socket} {a : Action} {held : List UInt8}
    (hs : s.tcb.buf.Holds 0 0 held) (h : s.step a = some t) :
    ∃ held, t.tcb.buf.Holds 0 0 held := by
  cases steps_of_step h with
  | recvReturn length _ hle => exact ⟨_, (hs.copyOut hle).2⟩
  | _ => exact ⟨held, hs⟩

/-- In every run the buffer is filled from its start and never to its end. -/
theorem reachable_holds {nodeID port : UInt32} {s : Socket}
    (h : (socketMachine nodeID port).Reachable (fun _ _ => True) s) :
    ∃ held, s.tcb.buf.Holds 0 0 held := by
  apply h.invariant
  · rintro _ rfl
    exact ⟨[], .allocated fun _ _ => rfl⟩
  · rintro s (a | ⟨srcNodeID, seg⟩) t ⟨held, hs⟩ _ hstep
    · exact step_holds hs hstep
    · obtain ⟨⟨t, out⟩, hr, rfl⟩ := Option.map_eq_some_iff.mp hstep
      obtain ⟨r, hhandles, rfl, _⟩ := receive_handles hr
      obtain ⟨hbuf, hfit⟩ := hhandles.stores hs.room
      refine ⟨held ++ r.stored, ?_⟩
      show r.tcb.buf.Holds 0 0 (held ++ r.stored)
      rw [hbuf]
      exact hs.store hfit

theorem receive_data {s : Socket} {srcNodeID : UInt32} {seg : Seg}
    (hst : s.tcb.state = .connected) (hd : NextData s.tcb srcNodeID seg) :
    s.receive srcNodeID seg = (handleData s.tcb seg).map
      fun h => (s.handled h, h.reply.toList) := by
  have hsyn : ¬ (seg.header.type = SegType.syn ∧ s.tcb.fromClient srcNodeID seg) := by
    rw [hd.type]
    exact fun h => absurd h.1 (by decide)
  have hfin : ¬ (seg.header.type = SegType.fin ∧ s.tcb.fromClient srcNodeID seg) := by
    rw [hd.type]
    exact fun h => absurd h.1 (by decide)
  unfold Socket.receive seghandler
  rw [if_pos hd.port]
  simp only [hst, if_neg hsyn, if_neg hfin, if_pos (And.intro hd.type hd.client)]

/-- The next segment is stored if a byte of the buffer stays free behind it. -/
theorem takes_iff {tcb : SvrTcb} {srcNodeID : UInt32} {seg : Seg}
    (hd : NextData tcb srcNodeID seg) (hroom : tcb.buf.usedBufLen.toNat < receiveBufSize) :
    tcb.takes seg ↔
      tcb.buf.usedBufLen.toNat + seg.header.length.toNat < receiveBufSize := by
  constructor
  · intro h
    exact h.room hroom
  · intro h
    refine ⟨hd.expected, ?_⟩
    have hsize : receiveBufSize < 2 ^ 32 := by decide
    rw [UInt32.toNat_add, UInt16.toNat_toUInt32, Nat.mod_eq_of_lt (by omega)]
    omega

theorem receive_appended {s : Socket} {srcNodeID : UInt32} {seg : Seg}
    (hst : s.tcb.state = .connected) (hd : NextData s.tcb srcNodeID seg)
    (hroom : s.tcb.buf.usedBufLen.toNat < receiveBufSize)
    (hfit : s.tcb.buf.usedBufLen.toNat + seg.header.length.toNat < receiveBufSize) :
    ∃ t out, s.receive srcNodeID seg = some (t, out) ∧ t.tcb = s.tcb.append seg ∧
      t.call = s.call := by
  rw [receive_data hst hd, handleData, if_pos ((takes_iff hd hroom).mpr hfit),
    if_pos hd.length_le]
  exact ⟨_, _, rfl, rfl, rfl⟩

/-- The next segment from the client, of a given length. -/
def nextData (tcb : SvrTcb) (length : UInt16) : Seg :=
  ⟨⟨tcb.clientPortNum, tcb.svrPortNum, tcb.expectSeqNum, 0, length, SegType.data, 0, 0⟩,
    List.Vector.replicate _ 7⟩

theorem nextData_next (tcb : SvrTcb) (length : UInt16) (hpos : 1 ≤ length.toNat)
    (hle : length.toNat ≤ maxSegLen) :
    NextData tcb tcb.clientNodeID (nextData tcb length) :=
  ⟨rfl, rfl, ⟨rfl, rfl⟩, rfl, hpos, hle⟩

/-- A connection whose application is in no call. -/
def Idle (s : Socket) : Prop := s.tcb.state = .connected ∧ s.call = .idle

theorem reachable_connected (nodeID port : UInt32) : ∃ s,
    (socketMachine nodeID port).Reachable (fun _ _ => True) s ∧ Idle s ∧
      s.tcb.buf.usedBufLen = 0 := by
  let listening : Socket := { Socket.fresh nodeID port with
    tcb := { srtServerSock nodeID port with state := .listening }, call := .accept }
  let syn : Seg := ⟨⟨4000, port, 0, 0, 0, SegType.syn, 0, 0⟩, List.Vector.replicate _ 0⟩
  let connected := listening.handled ⟨listening.tcb.connect 1 syn,
    some ((listening.tcb.connect 1 syn).reply SegType.synack 0), []⟩
  have haccept : (socketMachine nodeID port).step (.fresh nodeID port) (.api .accept) =
      some listening := rfl
  have hsyn : (socketMachine nodeID port).step listening (.segment 1 syn) = some connected := by
    simp [socketMachine, Socket.receive, seghandler, listening, connected, syn, srtServerSock]
  have hreturn : (socketMachine nodeID port).step connected (.api .acceptReturn) =
      some { connected with call := .idle, accepted := some connected.conn } := rfl
  have h : (socketMachine nodeID port).Reachable (fun _ _ => True) (.fresh nodeID port) :=
    .init rfl
  exact ⟨_, ((h.step trivial haccept).step trivial hsyn).step trivial hreturn, ⟨rfl, rfl⟩, rfl⟩

/-- Segments of one byte fill the buffer up to its last but one byte. -/
theorem reachable_filled (nodeID port : UInt32) {k : ℕ} (hk : k < receiveBufSize) : ∃ s,
    (socketMachine nodeID port).Reachable (fun _ _ => True) s ∧ Idle s ∧
      s.tcb.buf.usedBufLen.toNat = k := by
  induction k with
  | zero =>
    obtain ⟨s, hs, hidle, hused⟩ := reachable_connected nodeID port
    exact ⟨s, hs, hidle, by rw [hused]; rfl⟩
  | succ k ih =>
    obtain ⟨s, hs, ⟨hst, hcall⟩, hused⟩ := ih (by omega)
    have hlen : (nextData s.tcb 1).header.length.toNat = 1 := rfl
    obtain ⟨t, out, hreceive, htcb, htcall⟩ := receive_appended hst
      (nextData_next s.tcb 1 (by decide) (by decide)) (by omega) (by omega)
    have hsize : receiveBufSize < 2 ^ 32 := by decide
    have hpay := Seg.length_payload (s := nextData s.tcb 1) (by rw [hlen]; decide)
    have hstep : (socketMachine nodeID port).step s
        (.segment s.tcb.clientNodeID (nextData s.tcb 1)) = some t := by
      show (s.receive _ _).map Prod.fst = some t
      rw [hreceive]
      rfl
    refine ⟨t, hs.step trivial hstep, ⟨?_, ?_⟩, ?_⟩
    · rw [htcb]
      exact hst
    · rw [htcall, hcall]
    · rw [htcb, SvrTcb.append_buf, RecvBuf.usedBufLen_store (by omega), hpay, hlen, hused]

/-- A call that waits for the last bytes of the buffer sees a full segment refused. -/
theorem starved (nodeID port length : UInt32) (hle : length.toNat ≤ receiveBufSize)
    (hgt : receiveBufSize < length.toNat + maxSegLen) : ¬ NeverStarved nodeID port length := by
  have hmax : maxSegLen < receiveBufSize := by decide
  obtain ⟨s, hs, ⟨hst, hcall⟩, hused⟩ :=
    reachable_filled nodeID port (k := length.toNat - 1) (by omega)
  let waiting : Socket := { s with call := .recv length }
  have hrecv : (socketMachine nodeID port).step s (.api (.recv length)) = some waiting :=
    if_pos ⟨hcall, hle⟩
  have hwaiting : Waiting waiting length := by
    refine ⟨hst, rfl, ?_⟩
    rw [UInt32.lt_iff_toNat_lt]
    show s.tcb.buf.usedBufLen.toNat < length.toNat
    omega
  have hd := nextData_next s.tcb 200 (by decide) (by decide)
  have hlen : (nextData s.tcb 200).header.length.toNat = 200 := rfl
  have hmax' : maxSegLen = 200 := rfl
  have hfull : ¬ s.tcb.takes (nextData s.tcb 200) := by
    rw [takes_iff hd (by omega), hlen]
    omega
  intro hnever
  obtain ⟨t, out, hreceive, _, hseq⟩ :=
    hnever waiting (hs.step trivial hrecv) hwaiting _ _ hd
  rw [receive_data (s := waiting) hst hd] at hreceive
  change (handleData s.tcb (nextData s.tcb 200)).map _ = some (t, out) at hreceive
  rw [handleData, if_neg hfull] at hreceive
  obtain ⟨rfl, _⟩ := Prod.mk.inj (Option.some.inj hreceive)
  have hsame : s.tcb.expectSeqNum = s.tcb.expectSeqNum + 200 := hseq
  have hzero : s.tcb.expectSeqNum.toNat = (s.tcb.expectSeqNum.toNat + 200) % 2 ^ 32 := by
    conv_lhs => rw [hsame]
    rw [UInt32.toNat_add]
    rfl
  have hlt := s.tcb.expectSeqNum.toNat_lt
  omega

/-- A waiting reader is always served exactly for the lengths that leave a full segment free. -/
theorem never_starved_iff (nodeID port length : UInt32) (h : length.toNat ≤ receiveBufSize) :
    NeverStarved nodeID port length ↔ length.toNat + maxSegLen ≤ receiveBufSize := by
  constructor
  · intro hnever
    by_contra hgt
    exact starved nodeID port length h (by omega) hnever
  · rintro hle s hs ⟨hst, _, hwait⟩ srcNodeID seg hd
    obtain ⟨held, hheld⟩ := reachable_holds hs
    have hused : s.tcb.buf.usedBufLen.toNat < length.toNat := hwait
    have hlen := hd.length_le
    have hfit : s.tcb.buf.usedBufLen.toNat + seg.header.length.toNat < receiveBufSize := by omega
    obtain ⟨t, out, hreceive, htcb, _⟩ := receive_appended hst hd hheld.room hfit
    have hpay := Seg.length_payload hd.length_le
    have hsize : receiveBufSize < 2 ^ 32 := by decide
    have hwf : s.tcb.buf.Wf := by
      rw [RecvBuf.Wf, hheld.ptr, Nat.zero_add]
    refine ⟨t, out, hreceive, ?_, ?_⟩
    · rw [htcb, SvrTcb.append_buf, hwf.contents_store (by omega)]
    · rw [htcb, SvrTcb.append]

/-- The largest length that is always served, and the next one. -/
theorem never_starved_boundary : NeverStarved 2 80 999800 ∧ ¬ NeverStarved 2 80 999801 := by
  constructor
  · exact (never_starved_iff 2 80 999800 (by decide)).mpr (by decide)
  · exact mt (never_starved_iff 2 80 999801 (by decide)).mp (by decide)

/-- A call for the whole buffer is admitted and starved. -/
theorem whole_buffer_starved : ¬ ∀ length : UInt32, length.toNat ≤ receiveBufSize →
    NeverStarved 2 80 length := by
  intro hall
  exact starved 2 80 1000000 (by decide) (by decide) (hall 1000000 (by decide))

end DartNet.Server
