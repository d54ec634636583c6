import DartNet.Srt.RecvBuf

/-! One server socket of `server/srt_server.c`: the segment handler and the API calls. -/
namespace DartNet.Server

/-- `CLOSED`, `LISTENING`, `CONNECTED`, `CLOSEWAIT` -/
inductive State where
  | closed | listening | connected | closewait
  deriving DecidableEq, Repr

/-- `svr_tcb_t`. The sections under `bufMutex` always release it, so they are atomic here. -/
structure SvrTcb where
  svrNodeID : UInt32
  svrPortNum : UInt32
  clientNodeID : UInt32
  clientPortNum : UInt32
  state : State
  expectSeqNum : UInt32
  buf : RecvBuf UInt8

def srtServerSock (nodeID port : UInt32) : SvrTcb := ⟨nodeID, port, 0, 0, .closed, 0, .fresh 0⟩

namespace SvrTcb

/-- The segment comes from the client the connection is with. -/
def fromClient (tcb : SvrTcb) (srcNodeID : UInt32) (seg : Seg) : Prop :=
  tcb.clientPortNum = seg.header.srcPort ∧ tcb.clientNodeID = srcNodeID

instance (tcb : SvrTcb) (srcNodeID : UInt32) (seg : Seg) :
    Decidable (tcb.fromClient srcNodeID seg) := inferInstanceAs (Decidable (_ ∧ _))

def reply (tcb : SvrTcb) (type : UInt16) (seqNum : UInt32) : Seg :=
  controlSeg tcb.svrPortNum tcb.clientPortNum type seqNum

/-- `SYN` in `LISTENING` -/
def connect (tcb : SvrTcb) (srcNodeID : UInt32) (seg : Seg) : SvrTcb :=
  { tcb with
    state := .connected
    clientPortNum := seg.header.srcPort
    expectSeqNum := seg.header.seqNum
    clientNodeID := srcNodeID }

/-- The data of an expected segment goes into the buffer. -/
def append (tcb : SvrTcb) (seg : Seg) : SvrTcb :=
  { tcb with
    buf := tcb.buf.store seg.payload
    expectSeqNum := tcb.expectSeqNum + seg.header.length.toUInt32 }

@[simp] theorem connect_buf (tcb : SvrTcb) (srcNodeID : UInt32) (seg : Seg) :
    (tcb.connect srcNodeID seg).buf = tcb.buf := rfl

@[simp] theorem append_buf (tcb : SvrTcb) (seg : Seg) :
    (tcb.append seg).buf = tcb.buf.store seg.payload := rfl

/-- The segment is the expected one and there is room for it. -/
def takes (tcb : SvrTcb) (seg : Seg) : Prop :=
  seg.header.seqNum = tcb.expectSeqNum ∧
    (seg.header.length.toUInt32 + tcb.buf.usedBufLen).toNat < receiveBufSize

instance (tcb : SvrTcb) (seg : Seg) : Decidable (tcb.takes seg) :=
  inferInstanceAs (Decidable (_ ∧ _))

end SvrTcb

/-- The bound of the buffer leaves no carry in the check that the data fits. -/
theorem SvrTcb.takes.room {tcb : SvrTcb} {seg : Seg} (h : tcb.takes seg)
    (hused : tcb.buf.usedBufLen.toNat < receiveBufSize) :
    tcb.buf.usedBufLen.toNat + seg.header.length.toNat < receiveBufSize := by
  have hroom := h.2
  have hlen := seg.header.length.toNat_lt
  simp only [UInt32.toNat_add, UInt16.toNat_toUInt32, receiveBufSize] at *
  omega

/-- What handling a segment does: the new control block, the reply, and the bytes stored. -/
structure Handled where
  tcb : SvrTcb
  reply : Option Seg
  stored : List UInt8

/-- `DATA` in `CONNECTED`. A `memcpy` from behind the end of `data` is undefined. -/
def handleData (tcb : SvrTcb) (seg : Seg) : Option Handled :=
  if tcb.takes seg then
    if seg.header.length.toNat ≤ maxSegLen then
      let tcb := tcb.append seg
      some ⟨tcb, some (tcb.reply SegType.dataack tcb.expectSeqNum), seg.payload⟩
    else none
  else some ⟨tcb, some (tcb.reply SegType.dataack tcb.expectSeqNum), []⟩

/-- One round of the `seghandler` loop, for a table with one control block. -/
def seghandler (tcb : SvrTcb) (srcNodeID : UInt32) (seg : Seg) : Option Handled :=
  if tcb.svrPortNum = seg.header.destPort then
    match tcb.state with
    | .closed => some ⟨tcb, none, []⟩
    | .listening =>
      if seg.header.type = SegType.syn then
        let tcb := tcb.connect srcNodeID seg
        some ⟨tcb, some (tcb.reply SegType.synack 0), []⟩
      else some ⟨tcb, none, []⟩
    | .connected =>
      if seg.header.type = SegType.syn ∧ tcb.fromClient srcNodeID seg then
        some ⟨tcb, some (tcb.reply SegType.synack 0), []⟩
      else if seg.header.type = SegType.fin ∧ tcb.fromClient srcNodeID seg then
        some ⟨{ tcb with state := .closewait }, some (tcb.reply SegType.finack 0), []⟩
      else if seg.header.type = SegType.data ∧ tcb.fromClient srcNodeID seg then
        handleData tcb seg
      else some ⟨tcb, none, []⟩
    | .closewait =>
      if seg.header.type = SegType.fin ∧ tcb.fromClient srcNodeID seg then
        some ⟨tcb, some (tcb.reply SegType.finack 0), []⟩
      else some ⟨tcb, none, []⟩
  else some ⟨tcb, none, []⟩

/-- All that handling a segment can do. -/
inductive Handles (tcb : SvrTcb) (srcNodeID : UInt32) (seg : Seg) : Handled → Prop
  | ignored : Handles tcb srcNodeID seg ⟨tcb, none, []⟩
  | listeningSyn : tcb.state = .listening → tcb.svrPortNum = seg.header.destPort →
      seg.header.type = SegType.syn →
      Handles tcb srcNodeID seg ⟨tcb.connect srcNodeID seg,
        some ((tcb.connect srcNodeID seg).reply SegType.synack 0), []⟩
  | connectedSyn : tcb.state = .connected → seg.header.type = SegType.syn →
      tcb.fromClient srcNodeID seg →
      Handles tcb srcNodeID seg ⟨tcb, some (tcb.reply SegType.synack 0), []⟩
  | connectedFin : tcb.state = .connected → seg.header.type = SegType.fin →
      tcb.fromClient srcNodeID seg →
      Handles tcb srcNodeID seg
        ⟨{ tcb with state := .closewait }, some (tcb.reply SegType.finack 0), []⟩
  | dataTaken : tcb.state = .connected → seg.header.type = SegType.data →
      tcb.fromClient srcNodeID seg → tcb.takes seg → seg.header.length.toNat ≤ maxSegLen →
      Handles tcb srcNodeID seg ⟨tcb.append seg,
        some ((tcb.append seg).reply SegType.dataack (tcb.append seg).expectSeqNum), seg.payload⟩
  | dataRefused : tcb.state = .connected → seg.header.type = SegType.data →
      tcb.fromClient srcNodeID seg → ¬ tcb.takes seg →
      Handles tcb srcNodeID seg
        ⟨tcb, some (tcb.reply SegType.dataack tcb.expectSeqNum), []⟩
  | closewaitFin : tcb.state = .closewait → seg.header.type = SegType.fin →
      Handles tcb srcNodeID seg ⟨tcb, some (tcb.reply SegType.finack 0), []⟩

theorem handles_of_seghandler {tcb : SvrTcb} {srcNodeID : UInt32} {seg : Seg} {h : Handled}
    (hs : seghandler tcb srcNodeID seg = some h) : Handles tcb srcNodeID seg h := by
  unfold seghandler at hs
  split at hs
  next hport =>
    split at hs
    next => exact Option.some.inj hs ▸ .ignored
    next hst =>
      split at hs
      next ht => exact Option.some.inj hs ▸ .listeningSyn hst hport ht
      next => exact Option.some.inj hs ▸ .ignored
    next hst =>
      split at hs
      next ht => exact Option.some.inj hs ▸ .connectedSyn hst ht.1 ht.2
      next =>
        split at hs
        next ht => exact Option.some.inj hs ▸ .connectedFin hst ht.1 ht.2
        next =>
          split at hs
          next ht =>
            unfold handleData at hs
            split at hs
            next htakes =>
              split at hs
              next hlen => exact Option.some.inj hs ▸ .dataTaken hst ht.1 ht.2 htakes hlen
              next => contradiction
            next htakes => exact Option.some.inj hs ▸ .dataRefused hst ht.1 ht.2 htakes
          next => exact Option.some.inj hs ▸ .ignored
    next hst =>
      split at hs
      next ht => exact Option.some.inj hs ▸ .closewaitFin hst ht.1
      next => exact Option.some.inj hs ▸ .ignored
  next => exact Option.some.inj hs ▸ .ignored

/-- Whatever is handled, the bytes stored are those the buffer is given, and they fit. -/
theorem Handles.stores {tcb : SvrTcb} {srcNodeID : UInt32} {seg : Seg} {h : Handled}
    (hs : Handles tcb srcNodeID seg h) (hused : tcb.buf.usedBufLen.toNat < receiveBufSize) :
    h.tcb.buf = tcb.buf.store h.stored ∧
      tcb.buf.usedBufLen.toNat + h.stored.length < receiveBufSize := by
  cases hs with
  | dataTaken _ _ _ htakes hlen =>
    constructor
    · rfl
    · rw [Seg.length_payload hlen]
      exact htakes.room hused
  | _ =>
    constructor
    · simp
    · simpa using hused

/-- The API call the application is in. -/
inductive Call where
  | idle
  | accept
  | recv (length : UInt32)
  deriving DecidableEq

/-- What one `srt_server_recv` returned: the connection of the last `srt_server_accept` that
returned 1, if none was called since, the bytes, and which connection brought each byte. -/
structure Returned where
  conn : Option ℕ
  bytes : List UInt8
  owners : List (Option ℕ)

/-- A control block and the call in progress, with the history of the socket: the number of
connections so far, the one the last `srt_server_accept` returned 1 for, the connection each
cell of the receive buffer was written in, and what was returned. -/
structure Socket where
  tcb : SvrTcb
  call : Call
  conn : ℕ
  accepted : Option ℕ
  owners : RecvBuf (Option ℕ)
  returned : List Returned

def Socket.fresh (nodeID port : UInt32) : Socket :=
  ⟨srtServerSock nodeID port, .idle, 0, none, .fresh none, []⟩

/-- Steps of the application and of the `closeWaitTimer` thread. A call that returns -1 at once
changes nothing and is not a step. -/
inductive Action where
  | accept
  | acceptReturn
  | recv (length : UInt32)
  | recvReturn
  | closeWaitTimer
  deriving DecidableEq

def Socket.step (s : Socket) : Action → Option Socket
  | .accept =>
    if s.call = .idle ∧ s.tcb.state = .closed then
      some { s with
        tcb := { s.tcb with state := .listening }
        call := .accept
        accepted := none }
    else none
  | .acceptReturn =>
    if s.call = .accept ∧ s.tcb.state ≠ .listening then
      if s.tcb.state = .connected then
        some { s with call := .idle, accepted := some s.conn }
      else some { s with tcb := { s.tcb with state := .closed }, call := .idle }
    else none
  | .recv length =>
    if s.call = .idle ∧ length.toNat ≤ receiveBufSize then some { s with call := .recv length }
    else none
  | .recvReturn =>
    match s.call with
    | .recv length =>
      if length ≤ s.tcb.buf.usedBufLen then
        let out := s.tcb.buf.copyOut 0 length
        let owners := s.owners.copyOut none length
        some { s with
          tcb := { s.tcb with buf := out.2 }
          call := .idle
          owners := owners.2
          returned := s.returned ++ [⟨s.accepted, out.1, owners.1⟩] }
      else none
    | _ => none
  | .closeWaitTimer =>
    if s.tcb.state = .closewait then some { s with tcb := { s.tcb with state := .closed } }
    else none

/-- The socket after a segment was handled. -/
def Socket.handled (s : Socket) (h : Handled) : Socket :=
  { s with
    tcb := h.tcb
    conn := if s.tcb.state = .listening ∧ h.tcb.state = .connected then s.conn + 1 else s.conn
    owners := s.owners.store (h.stored.map fun _ => some s.conn) }

/-- The `seghandler` thread receives a segment and sends a reply. -/
def Socket.receive (s : Socket) (srcNodeID : UInt32) (seg : Seg) : Option (Socket × List Seg) :=
  (seghandler s.tcb srcNodeID seg).map fun h => (s.handled h, h.reply.toList)

/-- All that a step of the application or the timer can do. -/
inductive Steps (s : Socket) : Action → Socket → Prop
  | accept : s.call = .idle → s.tcb.state = .closed →
      Steps s .accept { s with
        tcb := { s.tcb with state := .listening }, call := .accept, accepted := none }
  | accepted : s.tcb.state = .connected →
      Steps s .acceptReturn { s with call := .idle, accepted := some s.conn }
  | acceptFailed : s.call = .accept → s.tcb.state ≠ .listening → s.tcb.state ≠ .connected →
      Steps s .acceptReturn
        { s with tcb := { s.tcb with state := .closed }, call := .idle }
  | recv (length : UInt32) : s.call = .idle →
      Steps s (.recv length) { s with call := .recv length }
  | recvReturn (length : UInt32) : s.call = .recv length → length ≤ s.tcb.buf.usedBufLen →
      Steps s .recvReturn { s with
        tcb := { s.tcb with buf := (s.tcb.buf.copyOut 0 length).2 }
        call := .idle
        owners := (s.owners.copyOut none length).2
        returned := s.returned ++
          [⟨s.accepted, (s.tcb.buf.copyOut 0 length).1, (s.owners.copyOut none length).1⟩] }
  | closeWaitTimer : s.tcb.state = .closewait →
      Steps s .closeWaitTimer { s with tcb := { s.tcb with state := .closed } }

theorem steps_of_step {s t : Socket} {a : Action} (h : s.step a = some t) : Steps s a t := by
  cases a with
  | accept =>
    simp only [Socket.step] at h
    split at h
    next hc => exact Option.some.inj h ▸ .accept hc.1 hc.2
    next => contradiction
  | acceptReturn =>
    simp only [Socket.step] at h
    split at h
    next hc =>
      split at h
      next hst => exact Option.some.inj h ▸ .accepted hst
      next hst => exact Option.some.inj h ▸ .acceptFailed hc.1 hc.2 hst
    next => contradiction
  | recv length =>
    simp only [Socket.step] at h
    split at h
    next hc => exact Option.some.inj h ▸ .recv length hc.1
    next => contradiction
  | recvReturn =>
    simp only [Socket.step] at h
    split at h
    next length hc =>
      split at h
      next hle => exact Option.some.inj h ▸ .recvReturn length hc hle
      next => contradiction
    next => contradiction
  | closeWaitTimer =>
    simp only [Socket.step] at h
    split at h
    next hst => exact Option.some.inj h ▸ .closeWaitTimer hst
    next => contradiction

theorem receive_handles {s t : Socket} {srcNodeID : UInt32} {seg : Seg} {out : List Seg}
    (h : s.receive srcNodeID seg = some (t, out)) :
    ∃ r, Handles s.tcb srcNodeID seg r ∧ t = s.handled r ∧ out = r.reply.toList := by
  obtain ⟨r, hr, heq⟩ := Option.map_eq_some_iff.mp h
  obtain ⟨rfl, rfl⟩ := Prod.mk.inj heq
  exact ⟨r, handles_of_seghandler hr, rfl, rfl⟩

end DartNet.Server
