import DartNet.Foundation.Transition
import DartNet.Srt.Calls
import DartNet.Srt.Server

/-! One client socket and one server socket with the network between them. -/
namespace DartNet.Srt
open Transition

/-- A segment on its way, with the node it comes from, and with the `era` of the client when it,
or the segment it answers, was written. -/
structure Msg where
  nodeID : UInt32
  seg : Seg
  era : ℕ
  deriving DecidableEq

structure Sys where
  client : Client.Socket
  server : Server.Socket
  toServer : List Msg
  toClient : List Msg

/-- A segment at any position may be delivered, and delivered again when `dup` is set. -/
inductive Action where
  | client (a : Client.Action)
  | server (a : Server.Action)
  | deliverToServer (i : ℕ) (dup : Bool)
  | deliverToClient (i : ℕ) (dup : Bool)
  | loseToServer (i : ℕ)
  | loseToClient (i : ℕ)

/-- There is no other server to connect to. -/
def connectsTo (tcb : Server.SvrTcb) : Client.Action → Prop
  | .connect nodeID serverPort _ => nodeID = tcb.svrNodeID ∧ serverPort = tcb.svrPortNum
  | _ => True

instance (tcb : Server.SvrTcb) (a : Client.Action) : Decidable (connectsTo tcb a) := by
  unfold connectsTo
  split <;> infer_instance

/-- What is left on the way after position `i` was delivered. -/
def rest (ms : List Msg) (i : ℕ) (dup : Bool) : List Msg := if dup then ms else ms.eraseIdx i

namespace Sys

/-- The client took a step and wrote `out`. -/
def clientWrites (s : Sys) (r : Client.Socket × List Seg) : Sys :=
  { s with
    client := r.1
    toServer := s.toServer ++ r.2.map fun seg => ⟨r.1.tcb.clientNodeID, seg, r.1.era⟩ }

/-- The server took the segment `m` at position `i` and wrote `out`. -/
def serverTakes (s : Sys) (i : ℕ) (dup : Bool) (m : Msg) (r : Server.Socket × List Seg) : Sys :=
  { s with
    server := r.1
    toServer := rest s.toServer i dup
    toClient := s.toClient ++ r.2.map fun seg => ⟨r.1.tcb.svrNodeID, seg, m.era⟩ }

def step (s : Sys) : Action → Option Sys
  | .client a => if connectsTo s.server.tcb a then (s.client.step a).map s.clientWrites else none
  | .server a => (s.server.step a).map fun v => { s with server := v }
  | .deliverToServer i dup =>
    match s.toServer[i]? with
    | none => none
    | some m => (s.server.receive m.nodeID m.seg).map (s.serverTakes i dup m)
  | .deliverToClient i dup =>
    match s.toClient[i]? with
    | none => none
    | some m => (s.client.receive m.nodeID m.seg).map fun c =>
      { s with client := c, toClient := rest s.toClient i dup }
  | .loseToServer i => some { s with toServer := s.toServer.eraseIdx i }
  | .loseToClient i => some { s with toClient := s.toClient.eraseIdx i }

end Sys

/-- Two fresh sockets and an empty network. -/
def machine (clientNodeID clientPort svrNodeID svrPort : UInt32) : Machine Sys Action where
  Init s := s = ⟨.fresh clientNodeID clientPort, .fresh svrNodeID svrPort, [], []⟩
  step := Sys.step

theorem mem_of_mem_rest {ms : List Msg} {i : ℕ} {dup : Bool} {m : Msg} (h : m ∈ rest ms i dup) :
    m ∈ ms := by
  unfold rest at h
  split at h
  · exact h
  · exact List.mem_of_mem_eraseIdx h

/-- All that a step of the system can do. -/
inductive Steps (s : Sys) : Action → Sys → Prop
  | client (a : Client.Action) (r : Client.Socket × List Seg) : connectsTo s.server.tcb a →
      s.client.step a = some r → Steps s (.client a) (s.clientWrites r)
  | server (a : Server.Action) (v : Server.Socket) : s.server.step a = some v →
      Steps s (.server a) { s with server := v }
  | toServer (i : ℕ) (dup : Bool) (m : Msg) (r : Server.Socket × List Seg) :
      s.toServer[i]? = some m → s.server.receive m.nodeID m.seg = some r →
      Steps s (.deliverToServer i dup) (s.serverTakes i dup m r)
  | toClient (i : ℕ) (dup : Bool) (m : Msg) (c : Client.Socket) :
      s.toClient[i]? = some m → s.client.receive m.nodeID m.seg = some c →
      Steps s (.deliverToClient i dup)
        { s with client := c, toClient := rest s.toClient i dup }
  | loseToServer (i : ℕ) : Steps s (.loseToServer i) { s with toServer := s.toServer.eraseIdx i }
  | loseToClient (i : ℕ) : Steps s (.loseToClient i) { s with toClient := s.toClient.eraseIdx i }

theorem steps_of_step {s t : Sys} {a : Action} (h : s.step a = some t) : Steps s a t := by
  cases a with
  | client a =>
    simp only [Sys.step] at h
    split at h
    next hc =>
      obtain ⟨r, hr, rfl⟩ := Option.map_eq_some_iff.mp h
      exact .client a r hc hr
    next => contradiction
  | server a =>
    obtain ⟨v, hv, rfl⟩ := Option.map_eq_some_iff.mp h
    exact .server a v hv
  | deliverToServer i dup =>
    simp only [Sys.step] at h
    split at h
    next => contradiction
    next m hm =>
      obtain ⟨r, hr, rfl⟩ := Option.map_eq_some_iff.mp h
      exact .toServer i dup m r hm hr
  | deliverToClient i dup =>
    simp only [Sys.step] at h
    split at h
    next => contradiction
    next m hm =>
      obtain ⟨c, hc, rfl⟩ := Option.map_eq_some_iff.mp h
      exact .toClient i dup m c hm hc
  | loseToServer i => exact Option.some.inj h ▸ .loseToServer i
  | loseToClient i => exact Option.some.inj h ▸ .loseToClient i

end DartNet.Srt
