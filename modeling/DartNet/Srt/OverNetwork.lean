import DartNet.Network.Transit
import DartNet.Srt.Peers

/-! A client and a server on two nodes, with the SNP and ON processes of all nodes below them. Seen
from the two sockets, this is the network that loses segments and delivers them in any order. -/
open DartNet.Overlay
namespace DartNet.Srt
open Packed Framing Relay Transition
open Network (Topology isNodeID_of_mem triangle triangle_wellFormed settle)
variable {Host : Type}

/-- The nodes and the ports of a connection. -/
structure Endpoints where
  clientNode : ℤ
  svrNode : ℤ
  clientPort : UInt32
  svrPort : UInt32

inductive Side
  | toServer
  | toClient
  deriving DecidableEq

namespace Endpoints
variable (e : Endpoints)

def source : Side → ℤ
  | .toServer => e.clientNode
  | .toClient => e.svrNode

def dest : Side → ℤ
  | .toServer => e.svrNode
  | .toClient => e.clientNode

/-- The ends are two nodes of the topology. -/
structure Apart (t : Topology Host) : Prop where
  client : e.clientNode ∈ t.nodeIDs
  server : e.svrNode ∈ t.nodeIDs
  ne : e.clientNode ≠ e.svrNode

variable {e} {t : Topology Host}

theorem Apart.side (h : e.Apart t) (side : Side) :
    e.source side ∈ t.nodeIDs ∧ e.dest side ∈ t.nodeIDs ∧ e.source side ≠ e.dest side := by
  cases side with
  | toServer => exact ⟨h.client, h.server, h.ne⟩
  | toClient => exact ⟨h.server, h.client, h.ne.symm⟩

end Endpoints

/-- A node ID as the `unsigned int` of a control block. -/
def unsignedID (x : ℤ) : UInt32 := (Int32.ofInt x).toUInt32

structure Whole where
  client : Client.Socket
  server : Server.Socket
  net : Network.Sys
  links : Startup
  transit : Side → List Transit

/-- Steps of the SRT processes, of the SNP and the ON processes, and what becomes of a segment. A
packet is lost where the ON process is not connected to the next hop, and where `seglost` says so
or finds a wrong checksum. -/
inductive WholeAction
  | client (a : Client.Action)
  | server (a : Server.Action)
  | net (a : Network.Action)
  | links (a : StartupAction)
  | advance (side : Side) (i : ℕ) (stack : TransitStack)
  | take (side : Side) (i : ℕ) (r : Rand)
    (junk : List.Vector UInt8 (sendsegArgLayout.size + 2))
  | lose (side : Side) (i : ℕ)

namespace Whole

/-- `snp_sendseg` for each of the segments. -/
def writes (w : Whole) (side : Side) (destNodeID : UInt32) (out : List Seg) : Whole :=
  { w with
    transit := Function.update w.transit side
      (w.transit side ++ out.map (.written destNodeID.toInt32)) }

def remove (w : Whole) (side : Side) (i : ℕ) : Whole :=
  { w with transit := Function.update w.transit side ((w.transit side).eraseIdx i) }

/-- The `seghandler` of the receiving side gets what `snp_recvseg` returned. -/
def handles (w : Whole) (arg : SendsegArg) : Side → Option Whole
  | .toServer => (w.server.receive arg.nodeID.toUInt32 arg.seg).map fun r =>
      ({ w with server := r.1 } : Whole).writes .toClient r.1.tcb.clientNodeID r.2
  | .toClient => (w.client.receive arg.nodeID.toUInt32 arg.seg).map fun c =>
      { w with client := c }

def step (room : ℕ) (t : Topology Host) (ip : ℤ → UInt32) (e : Endpoints) (w : Whole) :
    WholeAction → Option Whole
  | .client a =>
    if connectsTo w.server.tcb a then
      (w.client.step a).map fun r =>
        ({ w with client := r.1 } : Whole).writes .toServer r.1.tcb.svrNodeID r.2
    else none
  | .server a => (w.server.step a).map fun v => { w with server := v }
  | .net a => ((Network.machine t).step w.net a).map fun net => { w with net := net }
  | .links a =>
    ((startupMachine room t ip).step w.links a).map fun links => { w with links := links }
  | .advance side i stack =>
    ((w.transit side)[i]?).bind fun m =>
      (m.advance (overlayOf w.net w.links) (e.source side) stack).map fun m' =>
        { w with transit := Function.update w.transit side ((w.transit side).set i m') }
  | .take side i r junk =>
    ((w.transit side)[i]?).bind fun m =>
      (m.receive r junk).bind fun got =>
        match got with
        | none => some (w.remove side i)
        | some arg => (w.remove side i).handles arg side
  | .lose side i => some (w.remove side i)

/-- Fresh sockets over the processes of all nodes as they start. -/
structure Init (room : ℕ) (t : Topology Host) (ip : ℤ → UInt32) (e : Endpoints) (w : Whole) :
    Prop where
  client : w.client = .fresh (unsignedID e.clientNode) e.clientPort
  server : w.server = .fresh (unsignedID e.svrNode) e.svrPort
  net : (Network.machine t).Init w.net
  links : (startupMachine room t ip).Init w.links
  transit : w.transit = fun _ => []

end Whole

def wholeMachine (room : ℕ) (t : Topology Host) (ip : ℤ → UInt32) (e : Endpoints) :
    Machine Whole WholeAction := ⟨Whole.Init room t ip e, Whole.step room t ip e⟩

/-- The client does not disconnect. -/
def keepsUp : Client.Action → Prop
  | .disconnect _ => False
  | _ => True

instance : DecidablePred keepsUp := fun a => by
  unfold keepsUp
  split <;> infer_instance

/-- The client makes only some of its calls, a segment has no end marker inside when it is stamped,
and no bit error gets past the check. -/
def Undisturbed (calls : Client.Action → Prop) (w : Whole) : WholeAction → Prop
  | .client a => calls a
  | .advance side i _ => ∀ m ∈ (w.transit side)[i]?, m.Unmarked
  | .take side i r _ => ∀ m ∈ (w.transit side)[i]?, m.Caught r
  | _ => True

instance (calls : Client.Action → Prop) [DecidablePred calls] (w : Whole) :
    DecidablePred (Undisturbed calls w)
  | .client a => inferInstanceAs (Decidable (calls a))
  | .advance side i _ => inferInstanceAs (Decidable (∀ m ∈ (w.transit side)[i]?, m.Unmarked))
  | .take side i r _ => inferInstanceAs (Decidable (∀ m ∈ (w.transit side)[i]?, m.Caught r))
  | .server _ => .isTrue trivial
  | .net _ => .isTrue trivial
  | .links _ => .isTrue trivial
  | .lose _ _ => .isTrue trivial

/-- The segments on the way to a side. -/
def Sys.onWay (s : Sys) : Side → List Msg
  | .toServer => s.toServer
  | .toClient => s.toClient

/-- The system of two sockets that the whole is, seen from them. -/
structure Carried (room : ℕ) (t : Topology Host) (ip : ℤ → UInt32) (e : Endpoints) (w : Whole)
    (s : Sys) : Prop where
  net : (Network.machine t).Reachable (fun _ _ => True) w.net
  links : (startupMachine room t ip).Reachable (fun _ _ => True) w.links
  client : s.client = w.client
  server : s.server = w.server
  transit : ∀ side, List.Forall₂
    (fun (m : Transit) (msg : Msg) => m.Holds t (e.source side) (e.dest side) msg.seg)
    (w.transit side) (s.onWay side)

section Carried
variable {t : Topology Host} {room : ℕ} {ip : ℤ → UInt32} {e : Endpoints} {w : Whole} {s : Sys}

theorem toInt32_unsignedID (x : ℤ) : (unsignedID x).toInt32 = Int32.ofInt x := rfl

theorem Holds.written_unsignedID {src dest : ℤ} {destNodeID : UInt32} {seg : Seg}
    (h : destNodeID = unsignedID dest) :
    (Transit.written destNodeID.toInt32 seg).Holds t src dest seg := by
  rw [h, toInt32_unsignedID]
  exact .written

/-- Segments are written to the node they should come to. -/
theorem holds_written {src dest : ℤ} {destNodeID nodeID : UInt32} {era : ℕ} {out : List Seg}
    (h : ∀ seg ∈ out, destNodeID = unsignedID dest) :
    List.Forall₂ (fun (m : Transit) (msg : Msg) => m.Holds t src dest msg.seg)
      (out.map (.written destNodeID.toInt32)) (out.map fun seg => ⟨nodeID, seg, era⟩) := by
  rw [List.forall₂_map_left_iff, List.forall₂_map_right_iff]
  exact List.forall₂_same.mpr fun seg hseg => Holds.written_unsignedID (h seg hseg)

/-- A segment that is removed was lost. -/
theorem Carried.remove (h : Carried room t ip e w s) (side : Side) (i : ℕ) :
    ∃ b s', (∀ c, b ≠ .client c) ∧ s.step b = some s' ∧
      Carried room t ip e (w.remove side i) s' := by
  have herase := forall₂_eraseIdx (h.transit side) i
  cases side with
  | toServer =>
    refine ⟨.loseToServer i, _, by simp, rfl, h.net, h.links, h.client, h.server, fun side => ?_⟩
    cases side with
    | toServer => simpa [Whole.remove, Sys.onWay] using herase
    | toClient => simpa [Whole.remove, Sys.onWay] using h.transit .toClient
  | toClient =>
    refine ⟨.loseToClient i, _, by simp, rfl, h.net, h.links, h.client, h.server, fun side => ?_⟩
    cases side with
    | toServer => simpa [Whole.remove, Sys.onWay] using h.transit .toServer
    | toClient => simpa [Whole.remove, Sys.onWay] using herase

/-- The client takes a step. -/
theorem Carried.clientStep
    (hreach : (machine (unsignedID e.clientNode) e.clientPort (unsignedID e.svrNode)
      e.svrPort).Reachable (fun _ _ => True) s) (h : Carried room t ip e w s)
    {a : Client.Action} {w' : Whole} (hw : w.step room t ip e (.client a) = some w') :
    ∃ s', s.step (.client a) = some s' ∧ Carried room t ip e w' s' := by
  obtain ⟨hto, hw⟩ := Option.ite_none_right_eq_some.mp hw
  obtain ⟨r, hr, rfl⟩ := Option.map_eq_some_iff.mp hw
  rw [← h.server] at hto
  rw [← h.client] at hr
  have hcall := callOk_of_reachable hreach
  have hpeers := (peers_of_reachable hreach).clientStep hcall hto hr
  refine ⟨s.clientWrites r, ?_, h.net, h.links, rfl, h.server, fun side => ?_⟩
  · rw [Sys.step, if_pos hto, hr, Option.map_some]
  · cases side with
    | toServer =>
      simp only [Whole.writes, Function.update_self]
      apply List.rel_append (h.transit .toServer)
      apply holds_written
      intro seg hseg
      have hst : r.1.tcb.state ≠ .closed := by
        cases Client.emitted_of_step hcall hr hseg with
        | syn hst _ _ _ => simp [hst]
        | fin hst _ => simp [hst]
        | data hst _ => simp [hst]
      exact (hpeers.client hst).1
    | toClient => simpa [Whole.writes, Sys.onWay, Sys.clientWrites] using h.transit .toClient

/-- The `seghandler` of a side takes a segment that came through. -/
theorem Carried.handles
    (hreach : (machine (unsignedID e.clientNode) e.clientPort (unsignedID e.svrNode)
      e.svrPort).Reachable (fun _ _ => True) s) (h : Carried room t ip e w s) {side : Side} {i : ℕ}
    {msg : Msg} (hmsg : (s.onWay side)[i]? = some msg) {w' : Whole}
    (hw : (w.remove side i).handles ⟨Int32.ofInt (e.source side), msg.seg⟩ side = some w') :
    ∃ b s', (∀ c, b ≠ .client c) ∧ s.step b = some s' ∧ Carried room t ip e w' s' := by
  have horigins := origins_of_reachable hreach
  have herase := forall₂_eraseIdx (h.transit side) i
  cases side with
  | toServer =>
    replace hmsg : s.toServer[i]? = some msg := hmsg
    have hmem := List.mem_of_getElem? hmsg
    obtain ⟨r, hr, rfl⟩ := Option.map_eq_some_iff.mp hw
    obtain ⟨v, out⟩ := r
    replace hr : s.server.receive msg.nodeID msg.seg = some (v, out) := by
      rw [h.server, (horigins.toServer msg hmem).1]
      exact hr
    refine ⟨.deliverToServer i false, s.serverTakes i false msg (v, out), by simp, ?_, h.net,
      h.links, h.client, rfl, fun side => ?_⟩
    · rw [Sys.step, hmsg]
      dsimp only
      rw [hr, Option.map_some]
    · cases side with
      | toServer =>
        simpa [Whole.writes, Whole.remove, Sys.onWay, Sys.serverTakes, rest] using herase
      | toClient =>
        obtain ⟨r, hhandles, rfl, rfl⟩ := Server.receive_handles hr
        have hreply := (horigins.replies hmem hhandles).2
        have hout : List.Forall₂ (fun (m : Transit) (msg : Msg) =>
            m.Holds t e.svrNode e.clientNode msg.seg)
            (r.reply.toList.map (.written r.tcb.clientNodeID.toInt32))
            (r.reply.toList.map fun seg => ⟨r.tcb.svrNodeID, seg, msg.era⟩) :=
          holds_written fun seg hseg => (hreply seg (Option.mem_toList.mp hseg)).2
        exact List.rel_append (h.transit .toClient) hout
  | toClient =>
    replace hmsg : s.toClient[i]? = some msg := hmsg
    have hmem := List.mem_of_getElem? hmsg
    obtain ⟨c, hc, rfl⟩ := Option.map_eq_some_iff.mp hw
    replace hc : s.client.receive msg.nodeID msg.seg = some c := by
      rw [h.client, (horigins.toClient msg hmem).1]
      exact hc
    refine ⟨.deliverToClient i false,
      { s with client := c, toClient := rest s.toClient i false }, by simp, ?_, h.net, h.links,
      rfl, h.server, fun side => ?_⟩
    · rw [Sys.step, hmsg]
      dsimp only
      rw [hc, Option.map_some]
    · cases side with
      | toServer => simpa [Whole.remove, Sys.onWay] using h.transit .toServer
      | toClient => simpa [Whole.remove, Sys.onWay, rest] using herase

theorem Carried.stamped
    (hreach : (machine (unsignedID e.clientNode) e.clientPort (unsignedID e.svrNode)
      e.svrPort).Reachable (fun _ _ => True) s) {side : Side} {i : ℕ} {msg : Msg}
    (hmsg : (s.onWay side)[i]? = some msg) : msg.seg.stamp = msg.seg := by
  have horigins := origins_of_reachable hreach
  cases side with
  | toServer => exact (horigins.toServer msg (List.mem_of_getElem? hmsg)).2
  | toClient => exact (horigins.toClient msg (List.mem_of_getElem? hmsg)).2

section Step
variable (ht : t.WellFormed) (hends : e.Apart t) {calls : Client.Action → Prop} {w' : Whole}
include ht hends

/-- The SNP and ON processes change nothing that the sockets see. -/
theorem Carried.advanceStep (hip : Addressed t ip)
    (hreach : (machine (unsignedID e.clientNode) e.clientPort (unsignedID e.svrNode)
      e.svrPort).Reachable (fun _ _ => True) s) (h : Carried room t ip e w s) {side : Side} {i : ℕ}
    {stack : TransitStack} (hok : Undisturbed calls w (.advance side i stack))
    (hw : w.step room t ip e (.advance side i stack) = some w') : Carried room t ip e w' s := by
  obtain ⟨m, hm, hw⟩ := Option.bind_eq_some_iff.mp hw
  obtain ⟨m', hm', rfl⟩ := Option.map_eq_some_iff.mp hw
  obtain ⟨msg, hmsg, hholds⟩ := forall₂_getElem? (h.transit side) hm
  obtain ⟨hsrc, hdest, hne⟩ := hends.side side
  have hafter := hholds.advance ht hip h.links h.net hsrc hdest hne (Carried.stamped hreach hmsg)
    (hok m hm) hm'
  refine { h with transit := fun other => ?_ }
  by_cases hother : other = side
  · subst hother
    simp only [Function.update_self]
    exact forall₂_set (h.transit other) hmsg hafter
  · simp only [Function.update_of_ne hother]
    exact h.transit other

/-- A segment that came through is taken or lost. -/
theorem Carried.takeStep
    (hreach : (machine (unsignedID e.clientNode) e.clientPort (unsignedID e.svrNode)
      e.svrPort).Reachable (fun _ _ => True) s) (h : Carried room t ip e w s) {side : Side} {i : ℕ}
    {r : Rand} {junk : List.Vector UInt8 (sendsegArgLayout.size + 2)}
    (hok : Undisturbed calls w (.take side i r junk))
    (hw : w.step room t ip e (.take side i r junk) = some w') :
    ∃ b s', (∀ c, b ≠ .client c) ∧ s.step b = some s' ∧ Carried room t ip e w' s' := by
  obtain ⟨m, hm, hw⟩ := Option.bind_eq_some_iff.mp hw
  obtain ⟨got, hgot, hw⟩ := Option.bind_eq_some_iff.mp hw
  obtain ⟨msg, hmsg, hholds⟩ := forall₂_getElem? (h.transit side) hm
  obtain rfl | rfl := hholds.receive ht (hends.side side).1 (hok m hm) hgot
  · obtain rfl := Option.some.inj hw
    exact h.remove side i
  · exact h.handles hreach hmsg hw

/-- A step of the whole is one of the two sockets and the network between them, or none. -/
theorem Carried.step (hip : Addressed t ip)
    (hreach : (machine (unsignedID e.clientNode) e.clientPort (unsignedID e.svrNode)
      e.svrPort).Reachable (fun _ _ => True) s) (h : Carried room t ip e w s) {a : WholeAction}
    (hok : Undisturbed calls w a) (hw : w.step room t ip e a = some w') :
    Carried room t ip e w' s ∨ ∃ b s', (∀ c, b = .client c → calls c) ∧ s.step b = some s' ∧
      Carried room t ip e w' s' := by
  have hnone : (∃ b s', (∀ c, b ≠ .client c) ∧ s.step b = some s' ∧ Carried room t ip e w' s') →
      ∃ b s', (∀ c, b = .client c → calls c) ∧ s.step b = some s' ∧
        Carried room t ip e w' s' := by
    rintro ⟨b, s', hb, hs', hcarried⟩
    exact ⟨b, s', fun c hc => absurd hc (hb c), hs', hcarried⟩
  cases a with
  | client a =>
    obtain ⟨s', hs', hcarried⟩ := h.clientStep hreach hw
    refine .inr ⟨.client a, s', ?_, hs', hcarried⟩
    rintro _ ⟨⟩
    exact hok
  | server a =>
    obtain ⟨v, hv, rfl⟩ := Option.map_eq_some_iff.mp hw
    refine .inr (hnone ⟨.server a, { s with server := v }, by simp, ?_, h.net, h.links, h.client,
      rfl, fun side => ?_⟩)
    · rw [Sys.step, h.server, hv, Option.map_some]
    · cases side <;> exact h.transit _
  | net a =>
    obtain ⟨net, hnet, rfl⟩ := Option.map_eq_some_iff.mp hw
    exact .inl { h with net := .step h.net trivial hnet }
  | links a =>
    obtain ⟨links, hlinks, rfl⟩ := Option.map_eq_some_iff.mp hw
    exact .inl { h with links := .step h.links trivial hlinks }
  | advance side i stack => exact .inl (h.advanceStep ht hends hip hreach hok hw)
  | take side i r junk => exact .inr (hnone (h.takeStep ht hends hreach hok hw))
  | lose side i =>
    obtain rfl := Option.some.inj hw
    exact .inr (hnone (h.remove side i))

theorem exists_carried (hip : Addressed t ip) {ok : Sys → Action → Prop}
    (hok : ∀ s b, (∀ c, b = .client c → calls c) → ok s b)
    (h : (wholeMachine room t ip e).Reachable (Undisturbed calls) w) :
    ∃ s, (machine (unsignedID e.clientNode) e.clientPort (unsignedID e.svrNode)
      e.svrPort).Reachable ok s ∧ Carried room t ip e w s := by
  apply h.simulate
  · intro w hw
    refine ⟨_, rfl, .init hw.net, .init hw.links, hw.client.symm, hw.server.symm, fun side => ?_⟩
    rw [hw.transit]
    cases side <;> exact .nil
  · intro w a w' s hs hcarried ha hstep
    obtain hsame | ⟨b, s', hb, hs', hcarried'⟩ :=
      hcarried.step ht hends hip (hs.mono fun _ _ _ => trivial) ha hstep
    · exact .inl hsame
    · exact .inr ⟨b, s', hok s b hb, hs', hcarried'⟩

end Step
end Carried

section Runs
variable {t : Topology Host} {room : ℕ} {ip : ℤ → UInt32} {e : Endpoints} {w : Whole}
  {calls : Client.Action → Prop}

section Arrives
variable {side : Side} {i : ℕ} {seg : Seg}

/-- The whole with another stage of a segment. -/
def Whole.put (w : Whole) (side : Side) (i : ℕ) (m : Transit) : Whole :=
  { w with transit := Function.update w.transit side ((w.transit side).set i m) }

theorem Whole.put_put (w : Whole) (side : Side) (i : ℕ) (m m' : Transit) :
    (w.put side i m).put side i m' = w.put side i m' := by
  simp [Whole.put]

theorem Whole.getElem?_put (hi : i < (w.transit side).length) (m : Transit) :
    ((w.put side i m).transit side)[i]? = some m := by
  simp [Whole.put, List.getElem?_set_self hi]

theorem Whole.remove_put (w : Whole) (side : Side) (i : ℕ) (m : Transit) :
    (w.put side i m).remove side i = w.remove side i := by
  simp [Whole.put, Whole.remove, List.eraseIdx_set_eq]

theorem reachable_advance (h : (wholeMachine room t ip e).Reachable (Undisturbed calls) w)
    {m m' : Transit} (hm : (w.transit side)[i]? = some m) (hfree : m.Unmarked)
    {stack : TransitStack}
    (hm' : m.advance (overlayOf w.net w.links) (e.source side) stack = some m') :
    (wholeMachine room t ip e).Reachable (Undisturbed calls) (w.put side i m') := by
  refine .step h (a := .advance side i stack) ?_ ?_
  · rintro _ hmem
    exact Option.some.inj (hm.symm.trans hmem) ▸ hfree
  · simp [wholeMachine, Whole.step, hm, hm', Whole.put]

/-- A packet goes all the way along the next hops. -/
theorem reachable_forwarded (hsrc : IsNodeID (e.source side)) (hdest : IsNodeID (e.dest side))
    (hmark : MarkFree (segLayout.encode seg).dropLast) {n : ℕ} {x : ℤ}
    {net : Relay.Overlay} (hroute : Route net (e.dest side) n x)
    (hnet : overlayOf w.net w.links = net)
    (h : (wholeMachine room t ip e).Reachable (Undisturbed calls) w) {packet : SnpPkt}
    (hcarries : Carries (e.source side) (e.dest side) seg packet)
    (hi : (w.transit side)[i]? = some (.routed x packet)) :
    (wholeMachine room t ip e).Reachable (Undisturbed calls)
      (w.put side i (.forwarded ⟨Int32.ofInt (e.source side), seg⟩)) := by
  induction hroute generalizing w packet with
  | @last x hnext hconn =>
    obtain ⟨p, hp, hkept⟩ := hcarries.hop hsrc hdest hmark hnext hdest hconn TransitStack.zero.hop
    obtain ⟨hhdr, hread⟩ := hkept.read
    have hstep : (Transit.routed x packet).advance (overlayOf w.net w.links) (e.source side)
        TransitStack.zero = some (.forwarded ⟨Int32.ofInt (e.source side), seg⟩) := by
      simp [Transit.advance, hnet, hp, hhdr, hread, snpHdr, hdest.toInt]
    exact reachable_advance h hi trivial hstep
  | @hop n x y hnext hne hy hconn _ ih =>
    obtain ⟨p, hp, hkept⟩ := hcarries.hop hsrc hdest hmark hnext hy hconn TransitStack.zero.hop
    obtain ⟨hhdr, _⟩ := hkept.read
    have hstep : (Transit.routed x packet).advance (overlayOf w.net w.links) (e.source side)
        TransitStack.zero = some (.routed y p) := by
      simp [Transit.advance, hnet, hp, hhdr, snpHdr, hdest.toInt, Ne.symm hne]
    have hlt := (List.getElem?_eq_some_iff.mp hi).1
    rw [← Whole.put_put w side i (.routed y p)]
    exact ih hnet (reachable_advance h hi trivial hstep) hkept (Whole.getElem?_put hlt _)

/-- Once every ON process has joined `waitNbrs`, and as soon as the entry of a node for the other
one is finite, a segment that was written there can come to the other socket, if it has no end
marker inside. -/
theorem segment_arrives (ht : t.WellFormed) (hip : Addressed t ip) (hends : e.Apart t)
    (h : (wholeMachine room t ip e).Reachable (Undisturbed calls) w)
    (hup : ∀ x ∈ t.nodeIDs, w.links.waitThread x = .exited)
    (hlt : w.net.entry (e.source side) (e.dest side) < Network.infiniteCost)
    (hi : (w.transit side)[i]? = some (.written (Int32.ofInt (e.dest side)) seg))
    (hmark : MarkFree (segLayout.encode seg.stamp).dropLast) {r : Rand}
    (hr : r.heard seg.stamp = some seg.stamp) {w' : Whole}
    (hw : (w.remove side i).handles ⟨Int32.ofInt (e.source side), seg.stamp⟩ side = some w') :
    (wholeMachine room t ip e).Reachable (Undisturbed calls) w' := by
  obtain ⟨s, _, hcarried⟩ := exists_carried ht hends hip (fun _ _ _ => trivial) h
  obtain ⟨hsrc, hdest, hne⟩ := hends.side side
  have hsrcID := isNodeID_of_mem ht hsrc
  have hdestID := isNodeID_of_mem ht hdest
  have hlinks := linksInv_of_reachable ht hip hcarried.links
  obtain ⟨n, v, hway, _⟩ := Network.exists_route ht hcarried.net hsrc hlt
  have hconn : ∀ x y c, t.link x y c → 0 ≤ (overlayOf w.net w.links).conn x y :=
    fun x y c hlink => connfd_nonneg hlinks hup hlink (Topology.link_ne ht hlink)
  have hroute := route_of_way ht hconn hway hne
  have hlength := (List.getElem?_eq_some_iff.mp hi).1
  -- `waitTransport` takes the segment
  obtain ⟨_, hget⟩ := (roundTrip_iff sendsegArgLayout _).mpr
    ((markFree_sendsegArg hdestID seg.stamp).mpr hmark) _ TransitStack.zero.getsegToSend.property
  have hrouted : (Transit.written (Int32.ofInt (e.dest side)) seg).advance
      (overlayOf w.net w.links) (e.source side) TransitStack.zero = some (.routed (e.source side)
        (encapsulate (Int32.ofInt (e.source side)) ⟨Int32.ofInt (e.dest side), seg.stamp⟩)) := by
    simp only [Transit.advance, getsegToSend, snpSendseg, hget, Option.map_some]
  have hleaves := reachable_advance h hi hmark hrouted
  have hforwarded := reachable_forwarded (w := w.put side i _) hsrcID hdestID hmark hroute rfl
    hleaves (encapsulate_carries hsrcID hdestID seg.stamp) (Whole.getElem?_put hlength _)
  rw [Whole.put_put] at hforwarded
  -- `snp_recvseg` takes it
  have hready := Whole.getElem?_put hlength
    (.forwarded ⟨Int32.ofInt (e.source side), seg.stamp⟩)
  obtain ⟨_, hrecv⟩ := (roundTrip_iff sendsegArgLayout _).mpr
    ((markFree_sendsegArg hsrcID seg.stamp).mpr hmark) _ TransitStack.zero.getsegToSend.property
  refine .step hforwarded (a := .take side i r TransitStack.zero.getsegToSend) ?_ ?_
  · intro m hm
    obtain rfl := Option.some.inj (hready.symm.trans hm)
    intro seg' hseg'
    exact Option.some.inj (hseg'.symm.trans hr)
  · simp only [wholeMachine, Whole.step, hready, Option.bind_some, Transit.receive,
      snpRecvseg_unfiltered, getsegToSend, forwardsegToSRT, hrecv, hr, Option.map_some,
      Whole.remove_put]
    exact hw

end Arrives

end Runs

/-- Node 2 and port 80 of node 4. -/
def triangleEnds : Endpoints := ⟨2, 4, 4000, 80⟩

/-- The links come up, the routes settle, and the client connects. -/
def connecting : List WholeAction :=
  triangleUp.map .links ++ settle.map .net ++ [.server .accept, .client (.connect 4 80 true)]

def Whole.start : Whole where
  client := .fresh 2 4000
  server := .fresh 4 80
  net := .start triangle
  links := .start triangle
  transit _ := []

theorem whole_start_init : (wholeMachine 2 triangle ringAddress triangleEnds).Init .start where
  client := rfl
  server := rfl
  net := Network.start_init (by decide)
  links := startup_start_init (by decide)
  transit := rfl

theorem triangle_addressed : Addressed triangle ringAddress := by
  unfold Addressed
  decide

theorem triangleEnds_apart : triangleEnds.Apart triangle := by
  constructor <;> decide

/-- The `SYN` reaches the server over node 3. -/
theorem exists_connected :
    ∃ w, (wholeMachine 2 triangle ringAddress triangleEnds).Reachable (Undisturbed keepsUp) w ∧
      w.server.tcb.state = .connected ∧ (queuedBytes w.client).length = 0 := by
  obtain ⟨w, _, hw, hup, hentry, hwritten, htaken⟩ := Machine.exists_of_run
    (wholeMachine 2 triangle ringAddress triangleEnds) (Undisturbed keepsUp) whole_start_init
    connecting
    (P := fun w => (∀ x ∈ triangle.nodeIDs, w.links.waitThread x = .exited) ∧ w.net.entry 2 4 = 2 ∧
      (w.transit .toServer)[0]? = some (.written 4 (controlSeg 4000 80 SegType.syn 0)) ∧
      ((w.remove .toServer 0).handles ⟨2, (controlSeg 4000 80 SegType.syn 0).stamp⟩ .toServer).any
        fun w' => w'.server.tcb.state = .connected ∧ (queuedBytes w'.client).length = 0)
    (by decide +kernel)
  obtain ⟨w', hw', hstate⟩ := (Option.any_eq_true ..).mp htaken
  have hlt : w.net.entry (triangleEnds.source .toServer) (triangleEnds.dest .toServer) <
      Network.infiniteCost := by
    show w.net.entry 2 4 < _
    rw [hentry]
    decide
  have hheard : Rand.heard ⟨50, 0, 0⟩ (controlSeg 4000 80 SegType.syn 0).stamp =
      some (controlSeg 4000 80 SegType.syn 0).stamp := by decide +kernel
  exact ⟨w', segment_arrives triangle_wellFormed triangle_addressed triangleEnds_apart hw hup hlt
    hwritten (by decide +kernel) hheard hw', of_decide_eq_true hstate⟩

end DartNet.Srt
