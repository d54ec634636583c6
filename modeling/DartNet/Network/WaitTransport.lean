import DartNet.Common.Pkt
import DartNet.Network.Routingtable
import Mathlib.Data.List.TakeWhile

/-! The loop of `waitTransport` in `network/network.c`. A receive that fails waits for the next SRT
process, and then goes on to the sending part with the segment of the turn before. -/
namespace DartNet.Relay
open Network (Routingtable)

/-- The data of a packet: cleared memory with the segment at its front. -/
def packetData (segment : Seg) : List.Vector UInt8 maxPktLen :=
  ⟨(segLayout.encode segment ++ List.replicate maxPktLen 0).take maxPktLen, by simp⟩

/-- One segment in one packet. -/
def encapsulate (myNodeID : Int32) (arg : SendsegArg) : SnpPkt where
  header := ⟨myNodeID, arg.nodeID, UInt16.ofNat segLayout.size, PktType.snp⟩
  data := packetData arg.seg

/-- How a turn of the loop gets to its sending part, if it does. -/
inductive Outcome
  /-- `getsegToSend` returns 1. -/
  | received (arg : SendsegArg)
  /-- It returns -1, and the `accept` after it returns, with a connection or without one. -/
  | accepted
  /-- It returns -1, and the loop waits in `accept` from then on. -/
  | waiting
  deriving DecidableEq

/-- What a turn meets. -/
structure Turn where
  outcome : Outcome
  routingtable : Routingtable

def Turn.received (turn : Turn) : Option SendsegArg :=
  match turn.outcome with
  | .received arg => some arg
  | _ => none

/-- The packets passed to `overlay_sendpkt`, each with its next hop. The variables `dest_nodeID`
and `segment` outlive a turn; at the start they are whatever the stack held. A lookup before
the first slot of the routing table finds `wild`. -/
def waitTransport (wild : ℤ → ℤ) (myNodeID : Int32) :
    SendsegArg → List Turn → List (ℤ × SnpPkt)
  | _, [] => []
  | vars, turn :: turns =>
    if turn.outcome = .waiting then []
    else
      let vars := turn.received.getD vars
      let dest := vars.nodeID.toInt
      ((turn.routingtable.getnextnode dest).getD (wild dest), encapsulate myNodeID vars) ::
        waitTransport wild myNodeID vars turns

/-- The turns that come to the sending part. -/
def reached (turns : List Turn) : List Turn := turns.takeWhile (·.outcome ≠ .waiting)

theorem Turn.isSome_received_iff {turn : Turn} :
    turn.received.isSome ↔ turn.outcome ≠ .accepted ∧ turn.outcome ≠ .waiting := by
  unfold Turn.received
  cases turn.outcome <;> simp

section
variable {wild : ℤ → ℤ} {myNodeID : Int32} {vars : SendsegArg} {turns : List Turn}

/-- Every turn that comes to the sending part sends a packet. -/
theorem length_waitTransport :
    (waitTransport wild myNodeID vars turns).length = (reached turns).length := by
  induction turns generalizing vars with
  | nil => rfl
  | cons turn turns ih =>
    by_cases hturn : turn.outcome = .waiting
    · simp [waitTransport, reached, hturn]
    · simpa [waitTransport, reached, hturn] using ih

/-- Turns that all receive send each segment in its turn. -/
theorem waitTransport_received (h : ∀ turn ∈ reached turns, turn.received.isSome) :
    (waitTransport wild myNodeID vars turns).map Prod.snd =
      ((reached turns).filterMap Turn.received).map (encapsulate myNodeID) := by
  induction turns generalizing vars with
  | nil => rfl
  | cons turn turns ih =>
    by_cases hturn : turn.outcome = .waiting
    · simp [waitTransport, reached, hturn]
    · have hreached : reached (turn :: turns) = turn :: reached turns := by
        simp [reached, hturn]
      rw [hreached] at h ⊢
      obtain ⟨hfirst, hturns⟩ := List.forall_mem_cons.mp h
      obtain ⟨arg, harg⟩ := Option.isSome_iff_exists.mp hfirst
      rw [List.filterMap_cons_some harg, List.map_cons, ← @ih arg hturns]
      simp [waitTransport, hturn, harg]

end

/-- A segment for node 2, after which another SRT process takes the place of the first. -/
def lastSegment : List Turn :=
  [⟨.received ⟨2, controlSeg 4000 80 SegType.syn 0⟩, ⟨fun _ => []⟩⟩, ⟨.accepted, ⟨fun _ => []⟩⟩]

end DartNet.Relay
