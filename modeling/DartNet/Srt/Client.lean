import DartNet.Common.Seg

/-! One client socket of `client/srt_client.c`: the send buffer, the segment handler and the
API calls. -/
namespace DartNet.Client

/-- `CLOSED`, `SYNSENT`, `CONNECTED`, `FINWAIT` -/
inductive State where
  | closed | synsent | connected | finwait
  deriving DecidableEq, Repr

/-- `segBuf_t`, with the address of the node. -/
structure SegBuf where
  addr : ℕ
  seg : Seg
  sentTime : UInt64
  deriving DecidableEq

/-- `client_tcb_t`. The list is the chain from `sendBufHead`, its last node `sendBufTail`.
`bufMutex` is set while a thread that returned early holds the mutex for good; the sections
that release it are atomic here. -/
structure ClientTcb where
  svrNodeID : UInt32
  svrPortNum : UInt32
  clientNodeID : UInt32
  clientPortNum : UInt32
  state : State
  nextSeqNum : UInt32
  bufMutex : Bool
  sendBuf : List SegBuf
  sendBufunSent : Option ℕ
  unAckSegNum : UInt32
  deriving DecidableEq

def srtClientSock (nodeID clientPort : UInt32) : ClientTcb :=
  ⟨0, 0, nodeID, clientPort, .closed, 0, false, [], none, 0⟩

/-- What a section meets outside: the readings of the clock, and which of its `snp_sendseg`
calls fail. -/
structure Env where
  clock : ℕ → UInt64
  failed : List ℕ

/-- The changes that sending makes to a node. -/
def SegBuf.touch (b : SegBuf) (now : UInt64) : SegBuf :=
  { b with seg := b.seg.stamp, sentTime := now / UInt64.ofNat nsToMicroseconds }

/-- The nodes after a sending loop, those it sent, the counter, `currentSegBuf`, and whether
it returned early. -/
structure SendRun where
  bufs : List SegBuf
  sent : List SegBuf
  unAckSegNum : UInt32
  currentSegBuf : Option ℕ
  failed : Bool

/-- The loop of `sendMaxSegments`. -/
def sendMaxLoop (env : Env) : ℕ → UInt32 → List SegBuf → SendRun
  | _, unAck, [] => ⟨[], [], unAck, none, false⟩
  | k, unAck, b :: bs =>
    if unAck.toNat ≤ gbnWindow then
      let b := b.touch (env.clock k)
      if k ∉ env.failed then
        let r := sendMaxLoop env (k + 1) (unAck + 1) bs
        { r with bufs := b :: r.bufs, sent := b :: r.sent }
      else ⟨b :: bs, [], unAck, some b.addr, true⟩
    else ⟨b :: bs, [], unAck, some b.addr, false⟩

/-- The resend loop of `sendBuf_timer`, from `sentSegments = k` on. -/
def resendLoop (env : Env) (unAck : UInt32) : ℕ → List SegBuf → SendRun
  | _, [] => ⟨[], [], unAck, none, false⟩
  | k, b :: bs =>
    if k ≤ unAck.toNat then
      let b := b.touch (env.clock k)
      let r := resendLoop env unAck (k + 1) bs
      { r with bufs := b :: r.bufs, sent := if k ∉ env.failed then b :: r.sent else r.sent }
    else ⟨b :: bs, [], unAck, some b.addr, false⟩

namespace ClientTcb

/-- `sendMaxSegments`, with the nodes it sent. A pointer to a freed node has no effect that
is defined. -/
def sendMaxSegments (tcb : ClientTcb) (env : Env) : Option (ClientTcb × List SegBuf) :=
  if tcb.bufMutex then none
  else
    match tcb.sendBufunSent with
    | none => some (tcb, [])
    | some a =>
      let before := tcb.sendBuf.takeWhile (·.addr ≠ a)
      let unsent := tcb.sendBuf.dropWhile (·.addr ≠ a)
      if unsent = [] then none
      else
        let r := sendMaxLoop env 0 tcb.unAckSegNum unsent
        some ({ tcb with
          bufMutex := r.failed
          sendBuf := before ++ r.bufs
          sendBufunSent := if r.failed then some a else r.currentSegBuf
          unAckSegNum := r.unAckSegNum }, r.sent)

/-- The locked section of `sendBuf_timer`. The poll before it reads the clock without the
mutex, so the section may start at any time. -/
def sendBufTimer (tcb : ClientTcb) (env : Env) : Option (ClientTcb × List SegBuf) :=
  if tcb.bufMutex then none
  else
    let r := resendLoop env tcb.unAckSegNum 0 tcb.sendBuf
    some ({ tcb with sendBuf := r.bufs, sendBufunSent := r.currentSegBuf }, r.sent)

/-- A new segment of `srt_client_send` with the first `length` bytes of `data`. -/
def dataSeg (tcb : ClientTcb) (length : ℕ) (data : List UInt8) : Seg where
  header := ⟨tcb.clientPortNum, tcb.svrPortNum, tcb.nextSeqNum, 0, UInt16.ofNat length,
    SegType.data, 0, 0⟩
  data := ⟨(data.take length ++ List.replicate maxSegLen 0).take maxSegLen, by simp⟩

/-- Append a node with a new segment. -/
def queueSegBuf (tcb : ClientTcb) (addr : ℕ) (seg : Seg) : ClientTcb :=
  { tcb with
    nextSeqNum := tcb.nextSeqNum + seg.header.length.toUInt32
    sendBuf := tcb.sendBuf ++ [⟨addr, seg, 0⟩]
    sendBufunSent :=
      if tcb.sendBuf = [] then some addr
      else if tcb.sendBufunSent = none then some addr else tcb.sendBufunSent }

/-- The nodes that a `DATAACK` frees. -/
def acked (tcb : ClientTcb) (ack : UInt32) : List SegBuf :=
  tcb.sendBuf.takeWhile (·.seg.header.seqNum < ack)

/-- The first locked section of the `DATAACK` branch. -/
def freeAcked (tcb : ClientTcb) (ack : UInt32) : ClientTcb :=
  { tcb with
    sendBuf := tcb.sendBuf.dropWhile (·.seg.header.seqNum < ack)
    unAckSegNum := tcb.unAckSegNum - UInt32.ofNat (tcb.acked ack).length }

/-- The segment comes from the server the socket is connected to. -/
def fromServer (tcb : ClientTcb) (srcNodeID : UInt32) (seg : Seg) : Prop :=
  tcb.svrPortNum = seg.header.srcPort ∧ tcb.svrNodeID = srcNodeID

instance (tcb : ClientTcb) (srcNodeID : UInt32) (seg : Seg) :
    Decidable (tcb.fromServer srcNodeID seg) := inferInstanceAs (Decidable (_ ∧ _))

end ClientTcb

/-- One round of the `seghandler` loop, for a table with one control block, with the nodes it
freed. The `sendMaxSegments` after a `DATAACK` takes the mutex anew and is a step of its own. -/
def seghandler (tcb : ClientTcb) (srcNodeID : UInt32) (seg : Seg) :
    Option (ClientTcb × List SegBuf) :=
  if tcb.clientPortNum = seg.header.destPort then
    match tcb.state with
    | .closed => some (tcb, [])
    | .synsent =>
      if seg.header.type = SegType.synack ∧ tcb.fromServer srcNodeID seg then
        some ({ tcb with state := .connected }, [])
      else some (tcb, [])
    | .connected =>
      if seg.header.type = SegType.dataack ∧ tcb.fromServer srcNodeID seg then
        if tcb.bufMutex then none
        else some (tcb.freeAcked seg.header.seqNum, tcb.acked seg.header.seqNum)
      else some (tcb, [])
    | .finwait =>
      if seg.header.type = SegType.finack ∧ tcb.fromServer srcNodeID seg then
        some ({ tcb with state := .closed }, [])
      else some (tcb, [])
  else some (tcb, [])

/-- All that handling a segment can do. -/
inductive Handles (tcb : ClientTcb) (srcNodeID : UInt32) (seg : Seg) :
    ClientTcb × List SegBuf → Prop
  | ignored : Handles tcb srcNodeID seg (tcb, [])
  | synack : tcb.state = .synsent → seg.header.type = SegType.synack →
      tcb.fromServer srcNodeID seg →
        Handles tcb srcNodeID seg ({ tcb with state := .connected }, [])
  | dataack : tcb.state = .connected → seg.header.type = SegType.dataack →
      tcb.bufMutex = false →
      Handles tcb srcNodeID seg (tcb.freeAcked seg.header.seqNum, tcb.acked seg.header.seqNum)
  | finack : tcb.state = .finwait → seg.header.type = SegType.finack →
      Handles tcb srcNodeID seg ({ tcb with state := .closed }, [])

theorem handles_of_seghandler {tcb : ClientTcb} {srcNodeID : UInt32} {seg : Seg}
    {r : ClientTcb × List SegBuf} (h : seghandler tcb srcNodeID seg = some r) :
    Handles tcb srcNodeID seg r := by
  unfold seghandler at h
  split at h
  next =>
    split at h
    next => exact Option.some.inj h ▸ .ignored
    next hst =>
      split at h
      next ht => exact Option.some.inj h ▸ .synack hst ht.1 ht.2
      next => exact Option.some.inj h ▸ .ignored
    next hst =>
      split at h
      next ht =>
        split at h
        next => contradiction
        next hm => exact Option.some.inj h ▸ .dataack hst ht.1 (by simpa using hm)
      next => exact Option.some.inj h ▸ .ignored
    next hst =>
      split at h
      next ht => exact Option.some.inj h ▸ .finack hst ht.1
      next => exact Option.some.inj h ▸ .ignored
  next => exact Option.some.inj h ▸ .ignored

/-- The API call the application is in: the `SYN` or `FIN` sent with the number of retries, or
the data, `numOfSegments` and `dataRemainder` of `srt_client_send`. -/
inductive Call where
  | idle
  | connect (syn : Seg) (tries : ℕ)
  | send (data : List UInt8) (numOfSegments dataRemainder : ℕ)
  | disconnect (fin : Seg) (tries : ℕ)
  deriving DecidableEq

/-- A control block and the call in progress, with the history of the socket: the segments put
into the send buffer, those freed by a `DATAACK` or a disconnect, the nodes sent at least once,
and how often `srt_client_disconnect` gave a connection up by returning -1. -/
structure Socket where
  tcb : ClientTcb
  call : Call
  queued : List Seg
  freed : List Seg
  transmitted : List ℕ
  era : ℕ
  deriving DecidableEq

def Socket.fresh (nodeID clientPort : UInt32) : Socket :=
  ⟨srtClientSock nodeID clientPort, .idle, [], [], [], 0⟩

/-- Steps of the application, the timer threads and of `sendMaxSegments` in either thread. A
flag says whether `snp_sendseg` succeeds. A call that returns at once and changes nothing is
not a step. -/
inductive Action where
  | connect (nodeID serverPort : UInt32) (sendOk : Bool)
  | resendSyn (sendOk : Bool)
  | connectReturn
  | send (data : List UInt8)
  | queueSegment
  | sendReturn (env : Env)
  | sendMaxSegments (env : Env)
  | sendBufTimer (env : Env)
  | disconnect (sendOk : Bool)
  | resendFin (sendOk : Bool)
  | disconnectReturn

namespace Socket

/-- The socket and the segments written after a section that sent nodes. -/
def sentNodes (s : Socket) (r : ClientTcb × List SegBuf) : Socket × List Seg :=
  ({ s with tcb := r.1, transmitted := s.transmitted ++ r.2.map (·.addr) }, r.2.map (·.seg))

/-- The `SYN` of a connect to a server. -/
def syn (s : Socket) (serverPort : UInt32) : Seg :=
  controlSeg s.tcb.clientPortNum serverPort SegType.syn s.tcb.nextSeqNum

def fin (s : Socket) : Seg :=
  controlSeg s.tcb.clientPortNum s.tcb.svrPortNum SegType.fin 0

/-- The number of segments of `length` bytes, rounded up. -/
def numOfSegments (length : ℕ) : ℕ :=
  length / maxSegLen + if 0 < length % maxSegLen then 1 else 0

/-- One turn of the queueing loop with `num` segments still to come after it. -/
def queue (s : Socket) (data : List UInt8) (num dataRemainder : ℕ) : Socket :=
  let length := if 0 < num then maxSegLen else dataRemainder
  let seg := s.tcb.dataSeg length data
  { s with
    tcb := s.tcb.queueSegBuf s.queued.length seg
    call := .send (data.drop length) num dataRemainder
    queued := s.queued ++ [seg] }

def step (s : Socket) : Action → Option (Socket × List Seg)
  | .connect nodeID serverPort sendOk =>
    if s.call = .idle ∧ s.tcb.state = .closed then
      some ({ s with
        tcb := { s.tcb with svrPortNum := serverPort, svrNodeID := nodeID, state := .synsent }
        call := if sendOk then .connect (s.syn serverPort) 0 else .idle },
          if sendOk then [s.syn serverPort] else [])
    else none
  | .resendSyn sendOk =>
    match s.call with
    | .connect syn tries =>
      if tries < synMaxRetry ∧ s.tcb.state = .synsent then
        some ({ s with call := if sendOk then .connect syn (tries + 1) else .idle },
          if sendOk then [syn] else [])
      else none
    | _ => none
  | .connectReturn =>
    match s.call with
    | .connect _ tries =>
      if tries < synMaxRetry ∧ s.tcb.state = .synsent then none
      else if s.tcb.state = .connected then some ({ s with call := .idle }, [])
      else some ({ s with tcb := { s.tcb with state := .closed }, call := .idle }, [])
    | _ => none
  | .send data =>
    if s.call = .idle ∧ s.tcb.state = .connected ∧ data.length < 2 ^ 32 then
      if numOfSegments data.length = 0 then some (s, [])
      else some ({ s with
        call := .send data (numOfSegments data.length) (data.length % maxSegLen) }, [])
    else none
  | .queueSegment =>
    match s.call with
    | .send data (num + 1) dataRemainder =>
      if s.tcb.bufMutex then none else some (s.queue data num dataRemainder, [])
    | _ => none
  | .sendReturn env =>
    match s.call with
    | .send _ 0 _ => (s.tcb.sendMaxSegments env).map ({ s with call := .idle } : Socket).sentNodes
    | _ => none
  | .sendMaxSegments env => (s.tcb.sendMaxSegments env).map s.sentNodes
  | .sendBufTimer env => (s.tcb.sendBufTimer env).map s.sentNodes
  | .disconnect sendOk =>
    if s.call = .idle ∧ s.tcb.state = .connected ∧ s.tcb.bufMutex = false then
      some ({ s with
        tcb := { s.tcb with sendBuf := [], sendBufunSent := none, state := .finwait }
        call := if sendOk then .disconnect s.fin 0 else .idle
        freed := s.freed ++ s.tcb.sendBuf.map (·.seg)
        era := if sendOk then s.era else s.era + 1 }, if sendOk then [s.fin] else [])
    else none
  | .resendFin sendOk =>
    match s.call with
    | .disconnect fin tries =>
      if tries < finMaxRetry ∧ s.tcb.state = .finwait then
        some ({ s with
          call := if sendOk then .disconnect fin (tries + 1) else .idle
          era := if sendOk then s.era else s.era + 1 }, if sendOk then [fin] else [])
      else none
    | _ => none
  | .disconnectReturn =>
    match s.call with
    | .disconnect _ tries =>
      if tries < finMaxRetry ∧ s.tcb.state = .finwait then none
      else if s.tcb.state = .closed then some ({ s with call := .idle }, [])
      else some ({ s with
        tcb := { s.tcb with state := .closed }, call := .idle, era := s.era + 1 }, [])
    | _ => none

/-- The `seghandler` thread receives a segment. -/
def receive (s : Socket) (srcNodeID : UInt32) (seg : Seg) : Option Socket :=
  (seghandler s.tcb srcNodeID seg).map fun r =>
    { s with tcb := r.1, freed := s.freed ++ r.2.map (·.seg) }

end Socket

/-- All that a step of the application, a timer or `sendMaxSegments` can do. -/
inductive Steps (s : Socket) : Action → Socket × List Seg → Prop
  | connect (nodeID serverPort : UInt32) (sendOk : Bool) :
      s.call = .idle → s.tcb.state = .closed →
      Steps s (.connect nodeID serverPort sendOk) ({ s with
        tcb := { s.tcb with svrPortNum := serverPort, svrNodeID := nodeID, state := .synsent }
        call := if sendOk then .connect (s.syn serverPort) 0 else .idle },
          if sendOk then [s.syn serverPort] else [])
  | resendSyn (sendOk : Bool) (syn : Seg) (tries : ℕ) :
      s.call = .connect syn tries → s.tcb.state = .synsent →
      Steps s (.resendSyn sendOk)
        ({ s with call := if sendOk then .connect syn (tries + 1) else .idle },
          if sendOk then [syn] else [])
  | connected : s.tcb.state = .connected → Steps s .connectReturn ({ s with call := .idle }, [])
  | connectGaveUp (syn : Seg) (tries : ℕ) : s.call = .connect syn tries →
      s.tcb.state ≠ .connected →
      Steps s .connectReturn
        ({ s with tcb := { s.tcb with state := .closed }, call := .idle }, [])
  | sendNothing (data : List UInt8) : Steps s (.send data) (s, [])
  | send (data : List UInt8) : s.call = .idle → s.tcb.state = .connected →
      Steps s (.send data) ({ s with
        call := .send data (Socket.numOfSegments data.length) (data.length % maxSegLen) }, [])
  | queueSegment (data : List UInt8) (num dataRemainder : ℕ) :
      s.call = .send data (num + 1) dataRemainder → s.tcb.bufMutex = false →
      Steps s .queueSegment (s.queue data num dataRemainder, [])
  | sendReturn (env : Env) (r : ClientTcb × List SegBuf) :
      s.tcb.sendMaxSegments env = some r →
      Steps s (.sendReturn env) (({ s with call := .idle } : Socket).sentNodes r)
  | sendMaxSegments (env : Env) (r : ClientTcb × List SegBuf) :
      s.tcb.sendMaxSegments env = some r → Steps s (.sendMaxSegments env) (s.sentNodes r)
  | sendBufTimer (env : Env) (r : ClientTcb × List SegBuf) :
      s.tcb.sendBufTimer env = some r → Steps s (.sendBufTimer env) (s.sentNodes r)
  | disconnect (sendOk : Bool) : s.call = .idle → s.tcb.state = .connected →
      s.tcb.bufMutex = false →
      Steps s (.disconnect sendOk) ({ s with
        tcb := { s.tcb with sendBuf := [], sendBufunSent := none, state := .finwait }
        call := if sendOk then .disconnect s.fin 0 else .idle
        freed := s.freed ++ s.tcb.sendBuf.map (·.seg)
        era := if sendOk then s.era else s.era + 1 }, if sendOk then [s.fin] else [])
  | resendFin (sendOk : Bool) (fin : Seg) (tries : ℕ) :
      s.call = .disconnect fin tries → s.tcb.state = .finwait →
      Steps s (.resendFin sendOk) ({ s with
        call := if sendOk then .disconnect fin (tries + 1) else .idle
        era := if sendOk then s.era else s.era + 1 }, if sendOk then [fin] else [])
  | disconnected : s.tcb.state = .closed →
      Steps s .disconnectReturn ({ s with call := .idle }, [])
  | disconnectGaveUp (fin : Seg) (tries : ℕ) : s.call = .disconnect fin tries →
      s.tcb.state ≠ .closed →
      Steps s .disconnectReturn ({ s with
        tcb := { s.tcb with state := .closed }, call := .idle, era := s.era + 1 }, [])

theorem steps_of_step {s : Socket} {a : Action} {r : Socket × List Seg} (h : s.step a = some r) :
    Steps s a r := by
  cases a with
  | connect nodeID serverPort sendOk =>
    simp only [Socket.step] at h
    split at h
    next hc => exact Option.some.inj h ▸ .connect nodeID serverPort sendOk hc.1 hc.2
    next => contradiction
  | resendSyn sendOk =>
    simp only [Socket.step] at h
    split at h
    next syn tries hcall =>
      split at h
      next hc => exact Option.some.inj h ▸ .resendSyn sendOk syn tries hcall hc.2
      next => contradiction
    next => contradiction
  | connectReturn =>
    simp only [Socket.step] at h
    split at h
    next syn tries hcall =>
      split at h
      next => contradiction
      next =>
        split at h
        next hst => exact Option.some.inj h ▸ .connected hst
        next hst => exact Option.some.inj h ▸ .connectGaveUp syn tries hcall hst
    next => contradiction
  | send data =>
    simp only [Socket.step] at h
    split at h
    next hc =>
      split at h
      next => exact Option.some.inj h ▸ .sendNothing data
      next => exact Option.some.inj h ▸ .send data hc.1 hc.2.1
    next => contradiction
  | queueSegment =>
    simp only [Socket.step] at h
    split at h
    next data num dataRemainder hcall =>
      split at h
      next => contradiction
      next hm =>
        exact Option.some.inj h ▸ .queueSegment data num dataRemainder hcall (by simpa using hm)
    next => contradiction
  | sendReturn env =>
    simp only [Socket.step] at h
    split at h
    next =>
      obtain ⟨r, hr, rfl⟩ := Option.map_eq_some_iff.mp h
      exact .sendReturn env r hr
    next => contradiction
  | sendMaxSegments env =>
    obtain ⟨r, hr, rfl⟩ := Option.map_eq_some_iff.mp h
    exact .sendMaxSegments env r hr
  | sendBufTimer env =>
    obtain ⟨r, hr, rfl⟩ := Option.map_eq_some_iff.mp h
    exact .sendBufTimer env r hr
  | disconnect sendOk =>
    simp only [Socket.step] at h
    split at h
    next hc => exact Option.some.inj h ▸ .disconnect sendOk hc.1 hc.2.1 hc.2.2
    next => contradiction
  | resendFin sendOk =>
    simp only [Socket.step] at h
    split at h
    next fin tries hcall =>
      split at h
      next hc => exact Option.some.inj h ▸ .resendFin sendOk fin tries hcall hc.2
      next => contradiction
    next => contradiction
  | disconnectReturn =>
    simp only [Socket.step] at h
    split at h
    next fin tries hcall =>
      split at h
      next => contradiction
      next =>
        split at h
        next hst => exact Option.some.inj h ▸ .disconnected hst
        next hst => exact Option.some.inj h ▸ .disconnectGaveUp fin tries hcall hst
    next => contradiction

theorem receive_handles {s t : Socket} {srcNodeID : UInt32} {seg : Seg}
    (h : s.receive srcNodeID seg = some t) :
    ∃ r, Handles s.tcb srcNodeID seg r ∧
      t = { s with tcb := r.1, freed := s.freed ++ r.2.map (·.seg) } := by
  obtain ⟨r, hr, rfl⟩ := Option.map_eq_some_iff.mp h
  exact ⟨r, handles_of_seghandler hr, rfl⟩

end DartNet.Client
