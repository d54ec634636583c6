import DartNet.Foundation.Transition
import DartNet.Srt.Server

/-! One server socket through any number of connections. Nothing clears the receive buffer
between them, so its bytes stay with their connection only if it is empty at each `SYN`. -/
namespace DartNet.Server
open Transition

/-- What can happen at a socket; segments are whatever the network delivers. -/
inductive Event where
  | api (a : Action)
  | segment (srcNodeID : UInt32) (seg : Seg)

def socketMachine (nodeID port : UInt32) : Machine Socket Event where
  Init s := s = .fresh nodeID port
  step s
    | .api a => s.step a
    | .segment srcNodeID seg => (s.receive srcNodeID seg).map Prod.fst

/-- A connection is only taken up with an empty receive buffer. -/
def EmptyAtSyn (s : Socket) : Event → Prop
  | .api _ => True
  | .segment _ seg => s.tcb.state = .listening → seg.header.destPort = s.tcb.svrPortNum →
      seg.header.type = SegType.syn → s.tcb.buf.usedBufLen = 0

/-- Each byte returned after an accept was stored in the connection that was accepted. -/
def NoLeak (s : Socket) : Prop :=
  ∀ r ∈ s.returned, r.owners.length = r.bytes.length ∧
    (r.conn ≠ none → ∀ o ∈ r.owners, o = r.conn)

instance (s : Socket) : Decidable (NoLeak s) := by unfold NoLeak; infer_instance

structure Owned (s : Socket) : Prop where
  wf : s.tcb.buf.Wf
  owners_wf : s.owners.Wf
  used : s.owners.usedBufLen = s.tcb.buf.usedBufLen
  room : s.tcb.buf.usedBufLen.toNat < receiveBufSize
  owner : ∀ o ∈ s.owners.contents, o = some s.conn
  listening : s.tcb.state = .listening → s.accepted = none
  accepted : s.accepted ≠ none → s.accepted = some s.conn
  returned : NoLeak s

theorem fresh_owned (nodeID port : UInt32) : Owned (.fresh nodeID port) where
  wf := .fresh 0
  owners_wf := .fresh none
  used := rfl
  room := by simp [Socket.fresh, srtServerSock, RecvBuf.fresh, receiveBufSize]
  owner := by simp [Socket.fresh]
  listening _ := rfl
  accepted h := absurd rfl h
  returned := by simp [NoLeak, Socket.fresh]

theorem Owned.step {s t : Socket} (hs : Owned s) {a : Action} (h : s.step a = some t) :
    Owned t := by
  cases steps_of_step h with
  | accept _ _ => exact { hs with listening := fun _ => rfl, accepted := fun h => absurd rfl h }
  | accepted hst =>
    exact { hs with
      listening := fun h => absurd (hst.symm.trans h) (by decide)
      accepted := fun _ => rfl }
  | acceptFailed _ _ _ => exact { hs with listening := fun h => absurd h (by simp) }
  | recv length _ => exact { hs with }
  | recvReturn length _ hle =>
    have hle' : length.toNat ≤ s.tcb.buf.usedBufLen.toNat := hle
    have hown : length.toNat ≤ s.owners.usedBufLen.toNat := hs.used ▸ hle'
    have hleft := RecvBuf.usedBufLen_copyOut 0 hle'
    have hleft' := RecvBuf.usedBufLen_copyOut none hown
    refine
      { wf := hs.wf.copyOut length
        owners_wf := hs.owners_wf.copyOut length
        used := UInt32.toNat_inj.mp (by rw [hleft, hleft', hs.used])
        room := (hleft.trans_le (Nat.sub_le _ _)).trans_lt hs.room
        owner := ?_
        listening := hs.listening
        accepted := hs.accepted
        returned := ?_ }
    · intro o ho
      rw [hs.owners_wf.contents_copyOut hown] at ho
      exact hs.owner o (List.mem_of_mem_drop ho)
    · intro r hr
      rcases List.mem_append.mp hr with hr | hr
      · exact hs.returned r hr
      · obtain rfl := List.mem_singleton.mp hr
        simp only [RecvBuf.copyOut_fst hle', RecvBuf.copyOut_fst hown]
        refine ⟨by simp [RecvBuf.length_contents, hs.used], ?_⟩
        intro hc o ho
        rw [hs.accepted hc]
        exact hs.owner o (List.mem_of_mem_take ho)
  | closeWaitTimer hst => exact { hs with listening := fun h => absurd h (by simp) }

/-- A handled segment that opens no connection and stores nothing. -/
theorem Owned.handled_idle {s : Socket} (hs : Owned s) {tcb : SvrTcb} (reply : Option Seg)
    (hbuf : tcb.buf = s.tcb.buf) (hlisten : tcb.state = .listening → s.tcb.state = .listening)
    (hconn : ¬ (s.tcb.state = .listening ∧ tcb.state = .connected)) :
    Owned (s.handled ⟨tcb, reply, []⟩) := by
  have hc : (s.handled ⟨tcb, reply, []⟩).conn = s.conn := if_neg hconn
  have ho : (s.handled ⟨tcb, reply, []⟩).owners = s.owners := by simp [Socket.handled]
  exact
    { wf := by simpa [Socket.handled, hbuf] using hs.wf
      owners_wf := by rw [ho]; exact hs.owners_wf
      used := by rw [ho, hs.used, Socket.handled, hbuf]
      room := by rw [Socket.handled, hbuf]; exact hs.room
      owner := by rw [ho, hc]; exact hs.owner
      listening := fun h => hs.listening (hlisten h)
      accepted := by rw [hc]; exact hs.accepted
      returned := hs.returned }

theorem Owned.receive {s t : Socket} (hs : Owned s) {srcNodeID : UInt32} {seg : Seg}
    {out : List Seg} (hok : EmptyAtSyn s (.segment srcNodeID seg))
    (h : s.receive srcNodeID seg = some (t, out)) : Owned t := by
  obtain ⟨r, hr, rfl, _⟩ := receive_handles h
  cases hr with
  | ignored => exact hs.handled_idle _ rfl id (by simp_all)
  | listeningSyn hst hport ht =>
    have hempty : s.owners.contents = [] :=
      List.eq_nil_of_length_eq_zero (by
        rw [RecvBuf.length_contents, hs.used, hok hst hport.symm ht]
        rfl)
    have ho : s.owners.store [] = s.owners := RecvBuf.store_nil _
    have haccepted := hs.listening hst
    exact
      { wf := hs.wf
        owners_wf := by simpa [Socket.handled] using hs.owners_wf
        used := by simpa [Socket.handled] using hs.used
        room := hs.room
        owner := by simp [Socket.handled, hempty]
        listening := fun h => absurd h (by simp [Socket.handled, SvrTcb.connect])
        accepted := fun h => absurd haccepted h
        returned := hs.returned }
  | connectedSyn hst _ _ => exact hs.handled_idle _ rfl id (by simp_all)
  | connectedFin hst _ _ => exact hs.handled_idle _ rfl (by simp) (by simp)
  | dataTaken hst _ _ htakes hlen =>
    have hpay := Seg.length_payload hlen
    have hroom := htakes.room hs.room
    have hlt : s.tcb.buf.usedBufLen.toNat + seg.payload.length < 2 ^ 32 := by
      simp only [receiveBufSize] at hroom
      omega
    have hlt' : s.owners.usedBufLen.toNat +
        (seg.payload.map fun _ => some s.conn).length < 2 ^ 32 := by
      rwa [hs.used, List.length_map]
    have hc : (s.handled ⟨s.tcb.append seg, some ((s.tcb.append seg).reply SegType.dataack
        (s.tcb.append seg).expectSeqNum), seg.payload⟩).conn = s.conn := if_neg (by simp [hst])
    have hused := RecvBuf.usedBufLen_store hlt
    refine
      { wf := hs.wf.store hlt
        owners_wf := hs.owners_wf.store hlt'
        used := ?_
        room := by simp only [Socket.handled, SvrTcb.append_buf, hused, hpay, hroom]
        owner := ?_
        listening := fun h => absurd (hst.symm.trans h) (by decide)
        accepted := by rw [hc]; exact hs.accepted
        returned := hs.returned }
    · apply UInt32.toNat_inj.mp
      simp only [Socket.handled, SvrTcb.append_buf]
      rw [hused, RecvBuf.usedBufLen_store hlt', hs.used, List.length_map]
    · intro o ho
      rw [hc]
      simp only [Socket.handled] at ho
      rw [hs.owners_wf.contents_store hlt', List.mem_append] at ho
      rcases ho with ho | ho
      · exact hs.owner o ho
      · obtain ⟨_, _, rfl⟩ := List.mem_map.mp ho
        rfl
  | dataRefused hst _ _ _ => exact hs.handled_idle _ rfl id (by simp_all)
  | closewaitFin hst _ => exact hs.handled_idle _ rfl id (by simp_all)

theorem reachable_owned {nodeID port : UInt32} {s : Socket}
    (h : (socketMachine nodeID port).Reachable EmptyAtSyn s) : Owned s := by
  apply h.invariant
  · rintro _ rfl
    exact fresh_owned nodeID port
  · rintro s (a | ⟨srcNodeID, seg⟩) t hs hok hstep
    · exact hs.step hstep
    · obtain ⟨⟨t', out⟩, hr, rfl⟩ := Option.map_eq_some_iff.mp hstep
      exact hs.receive hok hr

/-- In every run that only takes up connections with an empty receive buffer, what is
returned after an accept was brought by that connection. -/
theorem returned_of_connection (nodeID port : UInt32) (s : Socket)
    (h : (socketMachine nodeID port).Reachable EmptyAtSyn s) : NoLeak s :=
  (reachable_owned h).returned

/-- A segment from port 4000 of node 1 to port 80. -/
def segmentTo80 (type : UInt16) (seqNum : UInt32) (length : UInt16) : Event :=
  .segment 1 ⟨⟨4000, 80, seqNum, 0, length, type, 0, 0⟩, List.Vector.replicate _ 7⟩

def openConnection : List Event :=
  [.api .accept, segmentTo80 SegType.syn 0 0, .api .acceptReturn]

def dataOne : List Event := [segmentTo80 SegType.data 0 1]

def recvOne : List Event := [.api (.recv 1), .api .recvReturn]

def closeConnection : List Event := [segmentTo80 SegType.fin 0 0, .api .closeWaitTimer]

instance (s : Socket) (e : Event) : Decidable (EmptyAtSyn s e) := by
  cases e <;> unfold EmptyAtSyn <;> infer_instance

/-- Two connections, with one byte received and read in each. -/
def twoConnections : List Event :=
  openConnection ++ dataOne ++ recvOne ++ closeConnection ++ openConnection ++ dataOne ++ recvOne

theorem returned_of_connection_run : ∃ s : Socket,
    (socketMachine 2 80).run EmptyAtSyn (.fresh 2 80) twoConnections = some s ∧
      s.returned.length = 2 ∧ NoLeak s := by
  obtain ⟨s, hrun, hs, hlen⟩ := (socketMachine 2 80).exists_of_run EmptyAtSyn rfl
    twoConnections (P := fun s => s.returned.length = 2) (by decide +kernel)
  exact ⟨s, hrun, hlen, returned_of_connection 2 80 s hs⟩

/-- One byte is left unread, and the next connection returns it. -/
theorem unread_byte_leaks : ∃ s : Socket,
    (socketMachine 2 80).run (fun _ _ => True) (.fresh 2 80)
      (openConnection ++ dataOne ++ closeConnection ++ openConnection ++ recvOne) = some s ∧
    (socketMachine 2 80).Reachable (fun _ _ => True) s ∧ ¬ NoLeak s :=
  (socketMachine 2 80).exists_of_run _ rfl _ (by decide +kernel)

end DartNet.Server
