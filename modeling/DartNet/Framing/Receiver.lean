import DartNet.Common.Pkt
import Mathlib.Data.List.Chain

/-! The delimiter framing shared by `common/seg.c` and `common/pkt.c`: three `send()`
calls per structure, and the four-state receive loop. -/
namespace DartNet.Framing
open Packed

/-- `'!'` -/
abbrev bang : UInt8 := 33
/-- `'&'` -/
abbrev amp : UInt8 := 38
/-- `'#'` -/
abbrev hash : UInt8 := 35

def bufstart : List UInt8 := [bang, amp]
def bufend : List UInt8 := [bang, hash]

/-- What the three `send()` calls of a sender write, in order. -/
def frameSends (raw : List UInt8) : List (List UInt8) := [bufstart, raw, bufend]

def frame (raw : List UInt8) : List UInt8 := bufstart ++ raw ++ bufend

theorem frameSends_flatten (raw : List UInt8) : (frameSends raw).flatten = frame raw := by
  simp [frameSends, frame]

def snpSendseg (destNodeID : Int32) (segPtr : Seg) : List (List UInt8) :=
  frameSends (sendsegArgLayout.encode ⟨destNodeID, segPtr.stamp⟩)

def forwardsegToSRT (srcNodeID : Int32) (segPtr : Seg) : List (List UInt8) :=
  frameSends (sendsegArgLayout.encode ⟨srcNodeID, segPtr⟩)

def overlaySendpkt (nextNodeID : Int32) (pkt : SnpPkt) : List (List UInt8) :=
  frameSends (sendpktArgLayout.encode ⟨nextNodeID, pkt⟩)

def forwardpktToSNP (pkt : SnpPkt) : List (List UInt8) := frameSends (snpPktLayout.encode pkt)

/-- Nothing is written to a connection that is not open. -/
def sendpkt (pkt : SnpPkt) (conn : ℤ) : List (List UInt8) :=
  if conn < 0 then [] else frameSends (snpPktLayout.encode pkt)

/-- `PKTSTART1`, `PKTSTART2`, `PKTRECV`, `PKTSTOP1`, which `seg.c` numbers 0 to 3. -/
inductive RxState where
  | start1 | start2 | recv | stop1
  deriving DecidableEq, Repr

/-- The local variables of a receive function. -/
structure Rx where
  state : RxState
  idx : ℕ
  buf : List UInt8
  deriving DecidableEq

/-- The variables on entry. The contents of `buf` are whatever the stack held. -/
def Rx.entry (junk : List UInt8) : Rx := ⟨.start1, 0, junk⟩

/-- `buf[idx]=c; idx++;` -/
def Rx.store (s : Rx) (c : UInt8) : Rx := { s with idx := s.idx + 1, buf := s.buf.set s.idx c }

/-- Store a byte that does not end the frame. -/
def Rx.keep (s : Rx) (c : UInt8) : Rx :=
  { s.store c with state := if c = bang then .stop1 else .recv }

inductive RxOutcome where
  | more (s : Rx)
  | done (buf : List UInt8)

/-- One iteration of the receive loop. -/
def Rx.step (s : Rx) (c : UInt8) : RxOutcome :=
  match s.state with
  | .start1 => .more (if c = bang then { s with state := .start2 } else s)
  | .start2 => .more { s with state := if c = amp then .recv else .start1 }
  | .recv => .more (s.keep c)
  | .stop1 => if c = hash then .done (s.store c).buf else .more (s.keep c)

/-- The loop: the buffer at the first end marker and the bytes not yet read. It gives
`none` when the connection has no further byte, where the functions return -1. -/
def Rx.receive : Rx → List UInt8 → Option (List UInt8 × List UInt8)
  | _, [] => none
  | s, c :: cs =>
    match s.step c with
    | .more t => t.receive cs
    | .done buf => some (buf, cs)

/-- `memcpy` of the structure out of the front of the buffer. -/
def copyOut {α : Type} (L : Layout α) (buf : List UInt8) : α := L.decode (buf.take L.size)

/-- A receive function for structures laid out by `L`: its result on returning 1. -/
def receive {α : Type} (L : Layout α) (junk bytes : List UInt8) : Option (α × List UInt8) :=
  ((Rx.entry junk).receive bytes).map fun r => (copyOut L r.1, r.2)

def getsegToSend : List UInt8 → List UInt8 → Option (SendsegArg × List UInt8) :=
  receive sendsegArgLayout

def getpktToSend : List UInt8 → List UInt8 → Option (SendpktArg × List UInt8) :=
  receive sendpktArgLayout

def overlayRecvpkt : List UInt8 → List UInt8 → Option (SnpPkt × List UInt8) :=
  receive snpPktLayout

def recvpkt : List UInt8 → List UInt8 → Option (SnpPkt × List UInt8) := receive snpPktLayout

/-- The loop of `snp_recvseg`. The filter stands for `seglost` and `checkchecksum`: on
`none` the loop goes on in the same call, with the same buffer. -/
def snpRecvsegLoop (filter : Seg → Option Seg) : Rx → List UInt8 →
    Option (SendsegArg × List UInt8)
  | _, [] => none
  | s, c :: cs =>
    match s.step c with
    | .more t => snpRecvsegLoop filter t cs
    | .done buf =>
      let arg := copyOut sendsegArgLayout buf
      match filter arg.seg with
      | none => snpRecvsegLoop filter ⟨.start1, 0, buf⟩ cs
      | some seg => some (⟨arg.nodeID, seg⟩, cs)

def snpRecvseg (filter : Seg → Option Seg) (junk bytes : List UInt8) :
    Option (SendsegArg × List UInt8) :=
  snpRecvsegLoop filter (Rx.entry junk) bytes

/-- Before its filter `snp_recvseg` is the same machine as `getsegToSend`. -/
theorem snpRecvseg_unfiltered (junk bytes : List UInt8) :
    snpRecvseg some junk bytes = getsegToSend junk bytes := by
  suffices h : ∀ s : Rx, snpRecvsegLoop some s bytes =
      (s.receive bytes).map fun r => (copyOut sendsegArgLayout r.1, r.2) from h _
  induction bytes with
  | nil => intro s; rfl
  | cons c cs ih =>
    intro s
    simp only [snpRecvsegLoop, Rx.receive]
    cases s.step c with
    | more t => exact ih t
    | done buf => rfl

/-- No end marker inside: no `'!'` immediately followed by `'#'`. -/
def MarkFree (raw : List UInt8) : Prop := raw.IsChain fun x y => ¬ (x = bang ∧ y = hash)

instance (raw : List UInt8) : Decidable (MarkFree raw) := by unfold MarkFree; infer_instance

/-! The function called again after every return, as `waitNetwork`, `listen_to_neighbor`,
`pkthandler` and `waitTransport` do. -/

/-- `peak` is the largest value `idx` has had in any call. -/
structure Calls where
  call : ℕ
  rx : Rx
  peak : ℕ

/-- The stack contents that each call finds in its buffer, which has `n` bytes. -/
def Junk (n : ℕ) : Type := ℕ → {junk : List UInt8 // junk.length = n}

variable {n : ℕ} (junk : Junk n)

def Calls.begin (k peak : ℕ) : Calls := ⟨k, Rx.entry (junk k).val, peak⟩

/-- Whether the next byte is stored. -/
def Rx.storing (s : Rx) : Bool := s.state = .recv || s.state = .stop1

def Calls.next (s : Calls) (c : UInt8) : Calls :=
  let peak := max s.peak (if s.rx.storing then s.rx.idx + 1 else s.rx.idx)
  match s.rx.step c with
  | .more t => ⟨s.call, t, peak⟩
  | .done _ => Calls.begin junk (s.call + 1) peak

def Calls.out (s : Calls) (c : UInt8) : List (List UInt8) :=
  match s.rx.step c with
  | .more _ => []
  | .done buf => [buf]

def Calls.feed (s : Calls) (bytes : List UInt8) : Calls := bytes.foldl (Calls.next junk) s

/-- The buffers of the calls that return 1 while the bytes are read. -/
def Calls.outs : Calls → List UInt8 → List (List UInt8)
  | _, [] => []
  | s, c :: cs => s.out c ++ (s.next junk c).outs cs

@[simp] theorem Calls.feed_nil (s : Calls) : s.feed junk [] = s := rfl

@[simp] theorem Calls.feed_cons (s : Calls) (c : UInt8) (cs : List UInt8) :
    s.feed junk (c :: cs) = (s.next junk c).feed junk cs := rfl

theorem Calls.feed_append (s : Calls) (a b : List UInt8) :
    s.feed junk (a ++ b) = (s.feed junk a).feed junk b := List.foldl_append ..

theorem Calls.outs_append (s : Calls) (a b : List UInt8) :
    s.outs junk (a ++ b) = s.outs junk a ++ (s.feed junk a).outs junk b := by
  induction a generalizing s with
  | nil => rfl
  | cons c cs ih => simp [outs, ih]

/-- Call `recv` until it fails; call `k` finds `junk k` in its buffer. -/
def receiveAll {α : Type} (recv : List UInt8 → List UInt8 → Option (α × List UInt8)) :
    ℕ → ℕ → List UInt8 → List α
  | 0, _, _ => []
  | fuel + 1, k, bytes =>
    match recv (junk k).val bytes with
    | none => []
    | some (v, rest) => v :: receiveAll recv fuel (k + 1) rest

/-- A call that returns leaves fewer bytes, and what it returns is the next output. -/
theorem Rx.receive_outs (s : Calls) (bytes : List UInt8) :
    match s.rx.receive bytes with
    | none => s.outs junk bytes = []
    | some (buf, rest) => rest.length < bytes.length ∧ ∃ peak,
        s.outs junk bytes = buf :: (Calls.begin junk (s.call + 1) peak).outs junk rest := by
  induction bytes generalizing s with
  | nil => rfl
  | cons c cs ih =>
    simp only [Rx.receive, Calls.outs, Calls.out, Calls.next]
    cases hs : s.rx.step c with
    | more t =>
      simp only [List.nil_append]
      have h := ih ⟨s.call, t, max s.peak (if s.rx.storing then s.rx.idx + 1 else s.rx.idx)⟩
      cases hr : t.receive cs with
      | none => simpa only [hr] using h
      | some r =>
        simp only [hr] at h
        exact ⟨h.1.trans (Nat.lt_succ_self _), h.2⟩
    | done buf => exact ⟨Nat.lt_succ_self _, _, rfl⟩

/-- Calling a receive function over and over gives the outputs of the continuous machine. -/
theorem receiveAll_eq_outs {α : Type} (L : Layout α) (fuel k peak : ℕ) (bytes : List UInt8)
    (hfuel : bytes.length ≤ fuel) :
    receiveAll junk (receive L) fuel k bytes =
      ((Calls.begin junk k peak).outs junk bytes).map (copyOut L) := by
  induction fuel generalizing k peak bytes with
  | zero => simp [receiveAll, List.eq_nil_of_length_eq_zero (Nat.le_zero.mp hfuel), Calls.outs]
  | succ fuel ih =>
    have h := Rx.receive_outs junk (Calls.begin junk k peak) bytes
    simp only [Calls.begin] at h
    simp only [receiveAll, receive, Calls.begin]
    cases hr : (Rx.entry (junk k).val).receive bytes with
    | none =>
      simp only [hr] at h
      simp [h]
    | some r =>
      simp only [hr] at h
      obtain ⟨hlt, peak', ho⟩ := h
      simp only [Option.map_some, ho, List.map_cons, List.cons.injEq, true_and]
      exact ih _ _ _ (by omega)

end DartNet.Framing
