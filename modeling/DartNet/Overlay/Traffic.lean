import DartNet.Network.System
import DartNet.Overlay.Links

/-! The packets that the ON processes of a topology pass on, with `main`, `waitNetwork` and
`listen_to_neighbor` of `overlay/overlay.c` at all nodes, some of which may still be starting. A
round of a thread is one step, and so are the sends and the receives of one frame. -/
namespace DartNet.Overlay
open Function Network Sockets Transition
variable {Host Pkt : Type}

/-- The loop of `waitNetwork` that looks for the connection to the next hop. -/
def connfd (nextNode : ℤ) (nt : List NbrEntry) : ℤ :=
  nt.foldl (fun connfd e => if e.nodeID = nextNode then e.conn else connfd) (-1)

theorem connfd_eq {nextNode : ℤ} {nt : List NbrEntry} (hnodup : (nt.map (·.nodeID)).Nodup)
    {e : NbrEntry} (he : e ∈ nt) (hid : e.nodeID = nextNode) : connfd nextNode nt = e.conn := by
  have hnone : ∀ (nt : List NbrEntry) (fd : ℤ), (∀ e ∈ nt, e.nodeID ≠ nextNode) →
      nt.foldl (fun connfd e => if e.nodeID = nextNode then e.conn else connfd) fd = fd := by
    intro nt
    induction nt with
    | nil => exact fun _ _ => rfl
    | cons a nt ih =>
      intro fd h
      obtain ⟨ha, h⟩ := List.forall_mem_cons.mp h
      rw [List.foldl_cons, if_neg ha, ih fd h]
  obtain ⟨front, back, rfl⟩ := List.append_of_mem he
  rw [List.map_append, List.map_cons, List.nodup_append, List.nodup_cons] at hnodup
  obtain ⟨_, ⟨hback, _⟩, _⟩ := hnodup
  rw [connfd, List.foldl_append, List.foldl_cons, if_pos hid]
  apply hnone
  intro a ha heq
  exact hback (List.mem_map.mpr ⟨a, ha, heq.trans hid.symm⟩)

/-- What the loop finds is the connection of an entry, or none. -/
theorem connfd_mem (nextNode : ℤ) (nt : List NbrEntry) :
    connfd nextNode nt = -1 ∨ ∃ e ∈ nt, e.nodeID = nextNode ∧ e.conn = connfd nextNode nt := by
  suffices h : ∀ (nt : List NbrEntry) (fd : ℤ),
      let r := nt.foldl (fun connfd e => if e.nodeID = nextNode then e.conn else connfd) fd
      r = fd ∨ ∃ e ∈ nt, e.nodeID = nextNode ∧ e.conn = r from h nt (-1)
  intro nt
  induction nt with
  | nil => exact fun _ => .inl rfl
  | cons a nt ih =>
    intro fd
    rw [List.foldl_cons]
    rcases ih (if a.nodeID = nextNode then a.conn else fd) with hfd | ⟨e, he, hid, hconn⟩
    · dsimp only
      rw [hfd]
      split
      next hid => exact .inr ⟨a, List.mem_cons_self .., hid, rfl⟩
      next => exact .inl rfl
    · exact .inr ⟨e, List.mem_cons_of_mem _ he, hid, hconn⟩

/-- The descriptors that `waitNetwork` sends a packet to. -/
def sendConns (nextNode : ℤ) (nt : List NbrEntry) : List ℤ :=
  if nextNode = broadcastNodeID then nt.map (·.conn) else [connfd nextNode nt]

/-- `network_conn` with `initialConnectToSNP`. -/
inductive NetworkConn
  | initial
  | connected
  | closed
  deriving DecidableEq

/-- A packet that a thread `listen_to_neighbor` has received. -/
structure Received (Pkt : Type) where
  nodeID : ℤ
  packet : Pkt
  forwarded : Bool
  deriving DecidableEq

structure Traffic (Pkt : Type) where
  startup : Startup
  networkConn : ℤ → NetworkConn
  /-- What the SNP process of a node has asked for and `waitNetwork` has not taken. -/
  toSend : ℤ → List (ℤ × Pkt)
  arriving : End → List Pkt
  /-- The threads `listen_to_neighbor` that have not ended. -/
  listening : ℤ → ℕ → Bool
  received : ℤ → List (Received Pkt)
  /-- All that the SNP process of a node has asked for. -/
  sent : ℤ → List (ℤ × Pkt)

inductive TrafficAction (Pkt : Type)
  | startup (a : StartupAction)
  | acceptNetwork (x : ℤ)
  | overlaySendpkt (x nextNodeID : ℤ) (pkt : Pkt)
  | waitNetwork (x : ℤ)
  /-- The SNP process of a node closes its connection, and `waitNetwork` finds it at the end. -/
  | closeNetwork (x : ℤ)
  | listenToNeighbor (x : ℤ) (idx : ℕ)

def MainThread.isReturned : MainThread → Bool
  | .returned _ => true
  | _ => false

/-- `main` creates its other threads when `connectNbrs` has returned and `waitNbrs` is joined. -/
def Startup.Up (s : Startup) (x : ℤ) : Prop :=
  s.waitThread x = .exited ∧ (s.mainThread x).isReturned = true

instance (s : Startup) (x : ℤ) : Decidable (s.Up x) :=
  inferInstanceAs (Decidable (_ ∧ _))

namespace Traffic

def waitNetwork (ip : ℤ → UInt32) (s : Traffic Pkt) (x : ℤ) : Option (Traffic Pkt) :=
  match s.networkConn x, s.toSend x with
  | .connected, (nextNode, packet) :: rest =>
    some { s with
      toSend := update s.toSend x rest
      arriving := (sendConns nextNode (s.startup.nt x)).foldl
        (s.startup.net.write (ip x) packet) s.arriving }
  | _, _ => none

/-- Without a connection `recvpkt` fails at once. Otherwise the packet is dropped if the SNP
process has not connected yet, and the thread ends if it has gone. -/
def listenToNeighbor (ip : ℤ → UInt32) (s : Traffic Pkt) (x : ℤ) (idx : ℕ) :
    Option (Traffic Pkt) :=
  ((s.startup.nt x)[idx]?).bind fun e =>
    match s.startup.net.fd (ip x) e.conn with
    | none =>
      some { s with
        startup := { s.startup with
          nt := update s.startup.nt x ((s.startup.nt x).set idx { e with conn := -1 }) }
        listening := update s.listening x (update (s.listening x) idx false) }
    | some en =>
      match s.arriving en with
      | [] => none
      | packet :: rest =>
        some { s with
          arriving := update s.arriving en rest
          listening := if s.networkConn x = .closed then
            update s.listening x (update (s.listening x) idx false) else s.listening
          received := update s.received x
            (s.received x ++ [⟨e.nodeID, packet, s.networkConn x = .connected⟩]) }

def step (room : ℕ) (t : Topology Host) (ip : ℤ → UInt32) (s : Traffic Pkt) :
    TrafficAction Pkt → Option (Traffic Pkt)
  | .startup a => (s.startup.step room t ip a).map fun startup => { s with startup }
  | .acceptNetwork x =>
    if x ∈ t.nodeIDs ∧ s.startup.Up x ∧ s.networkConn x = .initial then
      some { s with networkConn := update s.networkConn x .connected }
    else none
  | .overlaySendpkt x nextNodeID pkt =>
    if x ∈ t.nodeIDs ∧ s.startup.Up x ∧ s.networkConn x ≠ .closed then
      some { s with
        toSend := update s.toSend x (s.toSend x ++ [(nextNodeID, pkt)])
        sent := update s.sent x (s.sent x ++ [(nextNodeID, pkt)]) }
    else none
  | .waitNetwork x => if x ∈ t.nodeIDs then s.waitNetwork ip x else none
  | .closeNetwork x =>
    if x ∈ t.nodeIDs ∧ s.networkConn x = .connected ∧ s.toSend x = [] then
      some { s with networkConn := update s.networkConn x .closed }
    else none
  | .listenToNeighbor x idx =>
    if x ∈ t.nodeIDs ∧ s.startup.Up x ∧ s.listening x idx = true then
      s.listenToNeighbor ip x idx
    else none

structure Init (t : Topology Host) (s : Traffic Pkt) : Prop where
  startup : s.startup.Init t
  networkConn : s.networkConn = fun _ => .initial
  toSend : s.toSend = fun _ => []
  arriving : s.arriving = fun _ => []
  listening : s.listening = fun _ _ => true
  received : s.received = fun _ => []
  sent : s.sent = fun _ => []

/-- An initial state, if the tables of all nodes can be made. -/
def start (Pkt : Type) (t : Topology Host) : Traffic Pkt :=
  ⟨.start t, fun _ => .initial, fun _ => [], fun _ => [], fun _ _ => true, fun _ => [],
    fun _ => []⟩

end Traffic

def trafficMachine (Pkt : Type) (room : ℕ) (t : Topology Host) (ip : ℤ → UInt32) :
    Machine (Traffic Pkt) (TrafficAction Pkt) := ⟨Traffic.Init t, Traffic.step room t ip⟩

/-- What a round can do. -/
inductive TrafficSteps (room : ℕ) (t : Topology Host) (ip : ℤ → UInt32) (s : Traffic Pkt) :
    TrafficAction Pkt → Traffic Pkt → Prop
  | startup {a : StartupAction} {startup : Startup} :
      (startupMachine room t ip).step s.startup a = some startup →
      TrafficSteps room t ip s (.startup a) { s with startup }
  | acceptNetwork {x : ℤ} : x ∈ t.nodeIDs → s.startup.Up x → s.networkConn x = .initial →
      TrafficSteps room t ip s (.acceptNetwork x)
        { s with networkConn := update s.networkConn x .connected }
  | overlaySendpkt {x nextNodeID : ℤ} {pkt : Pkt} : x ∈ t.nodeIDs → s.startup.Up x →
      TrafficSteps room t ip s (.overlaySendpkt x nextNodeID pkt) { s with
        toSend := update s.toSend x (s.toSend x ++ [(nextNodeID, pkt)])
        sent := update s.sent x (s.sent x ++ [(nextNodeID, pkt)]) }
  | waitNetwork {x nextNode : ℤ} {packet : Pkt} {rest : List (ℤ × Pkt)} : x ∈ t.nodeIDs →
      s.toSend x = (nextNode, packet) :: rest →
      TrafficSteps room t ip s (.waitNetwork x) { s with
        toSend := update s.toSend x rest
        arriving := (sendConns nextNode (s.startup.nt x)).foldl
          (s.startup.net.write (ip x) packet) s.arriving }
  | closeNetwork {x : ℤ} : x ∈ t.nodeIDs → s.networkConn x = .connected →
      TrafficSteps room t ip s (.closeNetwork x)
        { s with networkConn := update s.networkConn x .closed }
  | notConnected {x : ℤ} {idx : ℕ} {e : NbrEntry} : x ∈ t.nodeIDs →
      (s.startup.nt x)[idx]? = some e → s.startup.net.fd (ip x) e.conn = none →
      TrafficSteps room t ip s (.listenToNeighbor x idx) { s with
        startup := { s.startup with
          nt := update s.startup.nt x ((s.startup.nt x).set idx { e with conn := -1 }) }
        listening := update s.listening x (update (s.listening x) idx false) }
  | listenToNeighbor {x : ℤ} {idx : ℕ} {e : NbrEntry} {en : End} {packet : Pkt}
      {rest : List Pkt} : x ∈ t.nodeIDs → s.startup.Up x → s.listening x idx = true →
      (s.startup.nt x)[idx]? = some e → s.startup.net.fd (ip x) e.conn = some en →
      s.arriving en = packet :: rest →
      TrafficSteps room t ip s (.listenToNeighbor x idx) { s with
        arriving := update s.arriving en rest
        listening := if s.networkConn x = .closed then
          update s.listening x (update (s.listening x) idx false) else s.listening
        received := update s.received x
          (s.received x ++ [⟨e.nodeID, packet, s.networkConn x = .connected⟩]) }

section Steps
variable {t : Topology Host} {ip : ℤ → UInt32} {room : ℕ}

theorem trafficSteps_of_step {s s' : Traffic Pkt} {a : TrafficAction Pkt}
    (h : (trafficMachine Pkt room t ip).step s a = some s') : TrafficSteps room t ip s a s' := by
  cases a with
  | startup a =>
    obtain ⟨startup, hstep, rfl⟩ := Option.map_eq_some_iff.mp h
    exact .startup hstep
  | acceptNetwork x =>
    obtain ⟨⟨hx, hup, hconn⟩, h⟩ := Option.ite_none_right_eq_some.mp h
    exact Option.some.inj h ▸ .acceptNetwork hx hup hconn
  | overlaySendpkt x nextNodeID pkt =>
    obtain ⟨⟨hx, hup, _⟩, h⟩ := Option.ite_none_right_eq_some.mp h
    exact Option.some.inj h ▸ .overlaySendpkt hx hup
  | waitNetwork x =>
    obtain ⟨hx, h⟩ := Option.ite_none_right_eq_some.mp h
    unfold Traffic.waitNetwork at h
    split at h
    next hsend => exact Option.some.inj h ▸ .waitNetwork hx hsend
    next => contradiction
  | closeNetwork x =>
    obtain ⟨⟨hx, hconn, _⟩, h⟩ := Option.ite_none_right_eq_some.mp h
    exact Option.some.inj h ▸ .closeNetwork hx hconn
  | listenToNeighbor x idx =>
    obtain ⟨⟨hx, hup, hlisten⟩, h⟩ := Option.ite_none_right_eq_some.mp h
    obtain ⟨e, he, h⟩ := Option.bind_eq_some_iff.mp h
    dsimp only at h
    split at h
    next hfd => exact Option.some.inj h ▸ .notConnected hx he hfd
    next en hfd =>
      split at h
      next => contradiction
      next packet rest harrive =>
        exact Option.some.inj h ▸ .listenToNeighbor hx hup hlisten he hfd harrive

end Steps

section Ends
variable {t : Topology Host} {ip : ℤ → UInt32} {room : ℕ} {s : Startup}

/-- The ends in the entries of two nodes are those of one connection if and only if the entries
are for each other. -/
theorem LinksInv.peer_iff (ht : t.WellFormed) (hip : Addressed t ip) (h : LinksInv t ip s)
    {x y : ℤ} (hx : x ∈ t.nodeIDs) (hy : y ∈ t.nodeIDs) {ex ey : NbrEntry} (hex : ex ∈ s.nt x)
    (hey : ey ∈ s.nt y) {en en' : End} (hen : s.net.fd (ip x) ex.conn = some en)
    (hen' : s.net.fd (ip y) ey.conn = some en') :
    en.peer = en' ↔ ex.nodeID = y ∧ ey.nodeID = x := by
  have hconn : ∀ {x : ℤ} {e : NbrEntry} {en : End}, s.net.fd (ip x) e.conn = some en →
      e.conn ≠ -1 := by
    intro x e en hfd heq
    have hnonneg := (h.good.held _ _ _ hfd).1
    omega
  have hnode : ∀ {x : ℤ} {e : NbrEntry}, x ∈ t.nodeIDs → e ∈ s.nt x → e.nodeID ∈ t.nodeIDs := by
    intro x e hx he
    obtain ⟨c, hlink⟩ := (h.table x hx).link_of_mem he
    exact Topology.link_mem (Topology.link_symm hlink)
  obtain ⟨en₁, k, c, hfd, hk, hc⟩ := h.exists_end ht hx hex (hconn hen)
  obtain ⟨en₂, k', c', hfd', hk', hc'⟩ := h.exists_end ht hy hey (hconn hen')
  obtain rfl := Option.some.inj (hfd.symm.trans hen)
  obtain rfl := Option.some.inj (hfd'.symm.trans hen')
  constructor
  · intro hpeer
    have hids : ip ex.nodeID = ip y ∧ ip ey.nodeID = ip x := by
      rcases hc with ⟨_, rfl, rfl⟩ | ⟨_, rfl, rfl⟩ <;>
        rcases hc' with ⟨_, rfl, rfl⟩ | ⟨_, rfl, rfl⟩ <;> simp_all [End.peer]
    exact ⟨hip.inj (hnode hx hex) hy hids.1, hip.inj (hnode hy hey) hx hids.2⟩
  · rintro ⟨rfl, rfl⟩
    have hsame : c = c' → k = k' := by
      rintro rfl
      exact (List.getElem?_inj (List.getElem?_eq_some_iff.mp hk).1 h.nodup).mp (hk.trans hk'.symm)
    rcases hc with ⟨hlt, rfl, rfl⟩ | ⟨hlt, rfl, rfl⟩ <;>
      rcases hc' with ⟨hlt', rfl, rfl⟩ | ⟨hlt', rfl, rfl⟩
    · omega
    · rw [hsame rfl, End.peer]
    · rw [hsame rfl, End.peer]
    · omega

/-- The other end of a connection that has an entry in one table only has no descriptor. -/
theorem LinksInv.not_held (ht : t.WellFormed) (h : LinksInv t ip s) {x : ℤ}
    (hx : x ∈ t.nodeIDs) {ex ey : NbrEntry} (hex : ex ∈ s.nt x) (hconn : ex.conn = -1)
    (hey : ey ∈ s.nt ex.nodeID) (hid : ey.nodeID = x) {en : End}
    (hen : s.net.fd (ip ex.nodeID) ey.conn = some en) (z : UInt32) (d : ℤ) :
    s.net.fd z d ≠ some en.peer := by
  obtain ⟨c, hlink⟩ := (h.table x hx).link_of_mem hex
  have hy := Topology.link_mem (Topology.link_symm hlink)
  have hopen : ey.conn ≠ -1 := by
    have hnonneg := (h.good.held _ _ _ hen).1
    omega
  obtain ⟨en₁, k, c', hfd, hk, hc⟩ := h.exists_end ht hy hey hopen
  obtain rfl := Option.some.inj (hfd.symm.trans hen)
  rw [hid] at hc
  rcases hc with ⟨hlt, rfl, rfl⟩ | ⟨hlt, rfl, rfl⟩
  · have hwaits := h.good.waiting _ _ ((h.server x hx ex hex hlt).1 hconn k hk)
    intro hheld
    have hhost := (h.good.held _ _ _ hheld).2
    rw [End.peer, hwaits.1] at hhost
    obtain rfl := Option.some.inj hhost
    exact hwaits.2 d hheld
  · exact absurd (List.mem_of_getElem? hk) ((h.client x hx ex hex hlt).1 hconn)

/-- A packet goes once through the connection to each neighbour it is for, and through no
other. -/
theorem LinksInv.countP_sendConns (ht : t.WellFormed) (hip : Addressed t ip)
    (h : LinksInv t ip s) {x z : ℤ} (hx : x ∈ t.nodeIDs) (hz : z ∈ t.nodeIDs) {e : NbrEntry}
    (he : e ∈ s.nt x) {en : End} (hen : s.net.fd (ip x) e.conn = some en) (nextNode : ℤ) :
    (sendConns nextNode (s.nt z)).countP (fun d => s.net.fd (ip z) d = some en) =
      if z = x ∧ (nextNode = broadcastNodeID ∨ nextNode = e.nodeID) then 1 else 0 := by
  have hnonneg := (h.good.held _ _ _ hen).1
  by_cases hzx : z = x
  · subst hzx
    have hiff : ∀ e' ∈ s.nt z, s.net.fd (ip z) e'.conn = some en ↔ e' = e := by
      intro e' he'
      refine ⟨fun hfd => ?_, fun heq => heq ▸ hen⟩
      exact (h.conn_inj ht hip hz he he' (h.good.once _ _ _ _ hen hfd) (by omega)).symm
    have hnodup := (h.table z hz).nodup
    unfold sendConns
    by_cases hall : nextNode = broadcastNodeID
    · rw [if_pos hall, if_pos ⟨rfl, .inl hall⟩, List.countP_map]
      calc (s.nt z).countP _ = (s.nt z).countP (· == e) := by
            apply List.countP_congr
            intro e' he'
            simpa using hiff e' he'
        _ = 1 := List.count_eq_one_of_mem hnodup.of_map he
    · rw [if_neg hall, List.countP_singleton]
      by_cases hid : nextNode = e.nodeID
      · rw [connfd_eq hnodup he hid.symm, hen]
        simp [hid]
      · have hother : s.net.fd (ip z) (connfd nextNode (s.nt z)) ≠ some en := by
          intro hfd
          rcases connfd_mem nextNode (s.nt z) with hnone | ⟨e', he', hid', hconn⟩
          · have hneg := (h.good.held _ _ _ hfd).1
            omega
          · rw [← hconn] at hfd
            exact hid (hid'.symm.trans (congrArg _ ((hiff e' he').mp hfd)))
        simp [hother, hall, hid]
  · rw [if_neg fun h => hzx h.1, List.countP_eq_zero]
    intro d _ hfd
    have hhost := (h.good.held _ _ _ hen).2
    rw [(h.good.held _ _ _ (of_decide_eq_true hfd)).2] at hhost
    exact hzx (hip.inj hz hx (Option.some.inj hhost))

/-- What a round of the start at node `z` leaves as it is, and the entry that it may open. -/
structure StartupFrame (ip : ℤ → UInt32) (s s' : Startup) (z : ℤ) : Prop where
  notUp : ¬ s.Up z
  other : ∀ x, x ≠ z → s'.nt x = s.nt x ∧ (s'.Up x ↔ s.Up x)
  fd : ∀ h d e, s.net.fd h d = some e → s'.net.fd h d = some e
  entry : ∀ e' ∈ s'.nt z, e' ∈ s.nt z ∨ ∃ e ∈ s.nt z, e.nodeID = e'.nodeID ∧ e.conn = -1 ∧
    e'.conn ≠ -1 ∧ ∀ en, s'.net.fd (ip z) e'.conn = some en → ∀ h d, s.net.fd h d ≠ some en

/-- The table with a connection that no process had a descriptor for. -/
theorem LinksInv.entry_withConn (h : LinksInv t ip s) {x : ℤ} (hx : x ∈ t.nodeIDs) {e : NbrEntry}
    (he : e ∈ s.nt x) (hconn : e.conn = -1) {d : ℤ} (hd : 0 ≤ d) {net : Net UInt32} {en : End}
    (hfd : net.fd (ip x) d = some en) (hnew : ∀ z d, s.net.fd z d ≠ some en) :
    ∀ e' ∈ withConn e.nodeID d (s.nt x), e' ∈ s.nt x ∨ ∃ e ∈ s.nt x, e.nodeID = e'.nodeID ∧
      e.conn = -1 ∧ e'.conn ≠ -1 ∧
        ∀ en, net.fd (ip x) e'.conn = some en → ∀ h d, s.net.fd h d ≠ some en := by
  intro e' he'
  rcases mem_withConn.mp he' with ⟨_, he'⟩ | ⟨e'', he'', hid, rfl⟩
  · exact .inl he'
  · obtain rfl := (h.table x hx).eq_of_nodeID he'' he hid
    refine .inr ⟨e'', he, rfl, hconn, ?_, ?_⟩
    · dsimp only
      omega
    · intro en' hen'
      obtain rfl := Option.some.inj (hfd.symm.trans hen')
      exact hnew

theorem startupFrame_of_thread {s' : Startup} {z : ℤ} (hup : ¬ s.Up z) (hnt : s'.nt = s.nt)
    (hfd : s'.net.fd = s.net.fd) (hwait : ∀ x, x ≠ z → s'.waitThread x = s.waitThread x)
    (hmain : ∀ x, x ≠ z → s'.mainThread x = s.mainThread x) : StartupFrame ip s s' z where
  notUp := hup
  other x hx := ⟨congrFun hnt x, by rw [Startup.Up, Startup.Up, hwait x hx, hmain x hx]⟩
  fd _ _ _ h := hfd ▸ h
  entry _ he := .inl (hnt ▸ he)

theorem startupFrame_of_step (hip : Addressed t ip) (h : LinksInv t ip s) {a : StartupAction}
    {s' : Startup} (hs : (startupMachine room t ip).step s a = some s') :
    ∃ z ∈ t.nodeIDs, StartupFrame ip s s' z := by
  have hwait : ∀ {x : ℤ}, s.waitThread x ≠ .exited → ¬ s.Up x := fun h hup => h hup.1
  have hmain : ∀ {x : ℤ}, (s.mainThread x).isReturned = false → ¬ s.Up x := by
    intro x h hup
    rw [hup.2] at h
    contradiction
  cases startupSteps_of_step hs with
  | @noneLarger x _ hx hth _ | @listen x _ hx hth | @allAccepted x _ n k hx hth _ =>
    exact ⟨x, hx, startupFrame_of_thread (hwait (by simp [hth])) rfl rfl
      (fun z hz => update_of_ne hz _ _) fun _ _ => rfl⟩
  | @wake x _ hx hth | @refused x _ n i k e hx hth _ _ _ | @skip x _ n i k e hx hth _ _
  | @allConnected x _ n i k hx hth _ =>
    exact ⟨x, hx, startupFrame_of_thread (hmain (by rw [hth]; rfl)) rfl rfl (fun _ _ => rfl)
      fun z hz => update_of_ne hz _ _⟩
  | @accept x d n k client net hx hth _ hnet =>
    obtain ⟨j, ks, server, hback, hc, hd, hfree, hneteq⟩ := Net.accept_eq_some hnet
    have hj : j ∈ s.net.backlog (ip x) := hback ▸ List.mem_cons_self ..
    obtain ⟨e, he, _, hy, hconn, hcj⟩ := h.waiting hip hx hj
    obtain ⟨rfl, _⟩ := Prod.mk.inj (Option.some.inj (hc.symm.trans hcj))
    have hfd : net.fd (ip x) d = some (.server j) := by simp [hneteq]
    refine ⟨x, hx, hwait (by simp [hth]), fun z hz => by simp [Startup.Up, hz],
      fun _ _ _ => Net.accept_fd hnet, ?_⟩
    dsimp only
    rw [update_self, (h.table x hx).acceptOne hip hy hd]
    refine h.entry_withConn hx he hconn hd hfd fun z d' hheld => ?_
    obtain ⟨hhost, hnone⟩ := h.good.waiting _ _ hj
    have hhost' := (h.good.held _ _ _ hheld).2
    rw [hhost] at hhost'
    exact hnone d' (Option.some.inj hhost' ▸ hheld)
  | @connect x d n i k e net hx hth hi hlt _ hnet =>
    obtain ⟨hd, hfree, hneteq⟩ := Net.connect_eq_some hnet
    have hback := h.main x hx
    rw [hth] at hback
    have hconn : e.conn = -1 := by
      apply hback.2.2.2 e (mem_smaller.mpr ⟨?_, hlt⟩)
      rw [(take_succ_of_getElem? hi).2]
      exact List.mem_cons_self ..
    have hfd : net.fd (ip x) d = some (.client s.net.conns.length) := by simp [hneteq]
    refine ⟨x, hx, hmain (by rw [hth]; rfl), fun z hz => by simp [Startup.Up, hz],
      fun _ _ _ => Net.connect_fd hnet, ?_⟩
    dsimp only
    rw [update_self, (h.table x hx).set hi]
    refine h.entry_withConn hx (List.mem_of_getElem? hi) hconn hd hfd fun z d' hheld => ?_
    exact absurd (End.lt_length (.inr (h.good.held _ _ _ hheld).2)) (Nat.lt_irrefl _)

end Ends

/-- What the SNP process of `x` has asked for, as far as it is for `y`. -/
def toward (t : Topology Host) (x y : ℤ) (l : List (ℤ × Pkt)) : List Pkt :=
  (l.filter fun r => y ∈ overlaySendpkt t x r.1).map Prod.snd

def takenFrom (x : ℤ) (l : List (Received Pkt)) : List (Received Pkt) :=
  l.filter fun r => r.nodeID = x

/-- What a thread has taken from `x`: the packets that came before the SNP process connected,
those that it forwarded, and the one with which it found that the SNP process had gone. -/
structure Split (networkConn : NetworkConn) (listening : Bool) (x : ℤ)
    (taken : List (Received Pkt)) (missed forwarded late : List Pkt) : Prop where
  taken : taken = missed.map (⟨x, ·, false⟩) ++ forwarded.map (⟨x, ·, true⟩) ++
    late.map (⟨x, ·, false⟩)
  early : networkConn = .initial → forwarded = []
  notClosed : networkConn ≠ .closed → late = []
  running : listening = true → late = []
  once : late.length ≤ 1

section Split
variable {networkConn : NetworkConn} {listening : Bool} {x : ℤ} {taken : List (Received Pkt)}
  {missed forwarded late : List Pkt}

theorem Split.packets (h : Split networkConn listening x taken missed forwarded late) :
    taken.map (·.packet) = missed ++ forwarded ++ late := by
  simp [h.taken, Function.comp_def]

theorem Split.setConn (h : Split networkConn listening x taken missed forwarded late)
    {networkConn' : NetworkConn} (hinit : networkConn' ≠ .initial)
    (hclosed : networkConn = .closed → networkConn' = .closed) :
    Split networkConn' listening x taken missed forwarded late :=
  { h with
    early := fun heq => absurd heq hinit
    notClosed := fun hne => h.notClosed fun heq => hne (hclosed heq) }

/-- The next packet. -/
theorem Split.take (h : Split networkConn true x taken missed forwarded late) (packet : Pkt) :
    ∃ missed forwarded late, Split networkConn (networkConn ≠ .closed) x
      (taken ++ [⟨x, packet, networkConn = .connected⟩]) missed forwarded late := by
  obtain rfl := h.running rfl
  cases networkConn with
  | initial =>
    obtain rfl := h.early rfl
    exact ⟨missed ++ [packet], [], [], by simp [h.taken], by simp, by simp, by simp, by simp⟩
  | connected =>
    exact ⟨missed, forwarded ++ [packet], [], by simp [h.taken], by simp, by simp, by simp,
      by simp⟩
  | closed =>
    exact ⟨missed, forwarded, [packet], by simp [h.taken], by simp, by simp, by simp, by simp⟩

/-- One of the threads ends. -/
theorem Split.ended {listening : ℤ → ℕ → Bool} {z : ℤ} {j : ℕ}
    (h : Split networkConn (listening z j) x taken missed forwarded late) (y : ℤ) (idx : ℕ) :
    Split networkConn (update listening y (update (listening y) idx false) z j) x taken missed
      forwarded late := by
  have hle : update listening y (update (listening y) idx false) z j = true →
      listening z j = true := by
    by_cases hz : z = y
    · subst hz
      by_cases hj : j = idx
      · simp [hj]
      · simp [hj]
    · simp [hz]
  exact { h with running := fun hrun => h.running (hle hrun) }

end Split

structure TrafficInv (t : Topology Host) (ip : ℤ → UInt32) (s : Traffic Pkt) : Prop where
  links : LinksInv t ip s.startup
  idle : ∀ x ∈ t.nodeIDs, ¬ s.startup.Up x → s.sent x = [] ∧ s.toSend x = [] ∧ s.received x = []
  /-- Nothing arrives from an end without a descriptor. -/
  quiet : ∀ e : End, (∀ h d, s.startup.net.fd h d ≠ some e.peer) → s.arriving e = []
  closed : ∀ x ∈ t.nodeIDs, ∀ e ∈ s.startup.nt x, e.conn = -1 →
    takenFrom x (s.received e.nodeID) = []
  /-- Nothing is lost, repeated or overtaken on an open connection. -/
  carried : ∀ x ∈ t.nodeIDs, ∀ e ∈ s.startup.nt x, ∀ en,
    s.startup.net.fd (ip x) e.conn = some en →
      (takenFrom x (s.received e.nodeID)).map (·.packet) ++ s.arriving en.peer ++
        toward t x e.nodeID (s.toSend x) = toward t x e.nodeID (s.sent x)
  split : ∀ x ∈ t.nodeIDs, ∀ idx e, (s.startup.nt x)[idx]? = some e →
    ∃ missed forwarded late, Split (s.networkConn x) (s.listening x idx) e.nodeID
      (takenFrom e.nodeID (s.received x)) missed forwarded late

section Invariant
variable {t : Topology Host} {ip : ℤ → UInt32} {room : ℕ} {s : Traffic Pkt}

theorem toward_append (x y : ℤ) (l l' : List (ℤ × Pkt)) :
    toward t x y (l ++ l') = toward t x y l ++ toward t x y l' := by
  simp [toward]

theorem toward_cons (x y : ℤ) (r : ℤ × Pkt) (l : List (ℤ × Pkt)) :
    toward t x y (r :: l) = (if y ∈ overlaySendpkt t x r.1 then [r.2] else []) ++
      toward t x y l := by
  by_cases h : y ∈ overlaySendpkt t x r.1 <;> simp [toward, h]

theorem mem_overlaySendpkt_iff (ht : t.WellFormed) {x y : ℤ} {c : ℕ} (hlink : t.link x y c)
    {nextNode : ℤ} :
    y ∈ overlaySendpkt t x nextNode ↔ nextNode = broadcastNodeID ∨ nextNode = y := by
  obtain ⟨nbrs, hnbrs⟩ := Topology.exists_getNbrArray ht hlink
  have hmem : y ∈ nbrs := (Topology.mem_getNbrArray ht hnbrs).mpr ⟨c, hlink⟩
  rw [overlaySendpkt, hnbrs]
  dsimp only [Option.getD]
  split_ifs with hall hnext
  · simp [hall, hmem]
  · simp [hall, eq_comm]
  · simp only [List.not_mem_nil, hall, false_or, false_iff]
    exact fun heq => hnext (heq ▸ hmem)

theorem TrafficInv.startup (ht : t.WellFormed) (hip : Addressed t ip) (h : TrafficInv t ip s)
    {a : StartupAction} {u : Startup}
    (hs : (startupMachine room t ip).step s.startup a = some u) :
    TrafficInv t ip { s with startup := u } := by
  obtain ⟨z, hz, hframe⟩ := startupFrame_of_step hip h.links hs
  obtain ⟨hsent, hsend, hreceived⟩ := h.idle z hz hframe.notUp
  -- An entry is an old one or the one that was opened, for which nothing was taken.
  have hentry : ∀ x ∈ t.nodeIDs, ∀ e' ∈ u.nt x, e' ∈ s.startup.nt x ∨ x = z ∧
      takenFrom x (s.received e'.nodeID) = [] ∧ e'.conn ≠ -1 ∧
        ∀ en, u.net.fd (ip x) e'.conn = some en → ∀ h d, s.startup.net.fd h d ≠ some en := by
    intro x hx e' he'
    by_cases hxz : x = z
    · subst hxz
      rcases hframe.entry e' he' with he' | ⟨e, he, hid, hconn, hopen, hnew⟩
      · exact .inl he'
      · exact .inr ⟨rfl, hid ▸ h.closed x hx e he hconn, hopen, hnew⟩
    · exact .inl ((hframe.other x hxz).1 ▸ he')
  constructor
  case links => exact step_linksInv hip h.links hs
  case idle =>
    intro x hx hup
    by_cases hxz : x = z
    · exact hxz ▸ ⟨hsent, hsend, hreceived⟩
    · exact h.idle x hx ((hframe.other x hxz).2.not.mp hup)
  case quiet =>
    intro e he
    exact h.quiet e fun z d hfd => he z d (hframe.fd z d _ hfd)
  case closed =>
    intro x hx e he hconn
    rcases hentry x hx e he with he | ⟨_, _, hopen, _⟩
    · exact h.closed x hx e he hconn
    · exact absurd hconn hopen
  case carried =>
    intro x hx e he en hen
    rcases hentry x hx e he with he | ⟨rfl, htaken, _, hnew⟩
    · have hopen : e.conn ≠ -1 := by
        have hnonneg := ((step_linksInv hip h.links hs).good.held _ _ _ hen).1
        omega
      obtain ⟨en', _, _, hen', _⟩ := h.links.exists_end ht hx he hopen
      obtain rfl := Option.some.inj ((hframe.fd _ _ _ hen').symm.trans hen)
      exact h.carried x hx e he en' hen'
    · have harrive : s.arriving en.peer = [] :=
        h.quiet en.peer fun z d hfd => hnew en hen z d (by simpa using hfd)
      simp [htaken, harrive, hsent, hsend, toward]
  case split =>
    intro x hx idx e he
    by_cases hxz : x = z
    · subst hxz
      exact ⟨[], [], [], by simp [hreceived, takenFrom], by simp, by simp, by simp, by simp⟩
    · exact h.split x hx idx e ((hframe.other x hxz).1 ▸ he)

theorem TrafficInv.overlaySendpkt (h : TrafficInv t ip s) {x nextNodeID : ℤ} {pkt : Pkt}
    (hup : s.startup.Up x) :
    TrafficInv t ip { s with
      toSend := update s.toSend x (s.toSend x ++ [(nextNodeID, pkt)])
      sent := update s.sent x (s.sent x ++ [(nextNodeID, pkt)]) } :=
  { h with
    idle := by
      intro z hz hidle
      have hzx : z ≠ x := fun heq => hidle (heq ▸ hup)
      simpa only [update_of_ne hzx] using h.idle z hz hidle
    carried := by
      intro z hz e he en hen
      have hold := h.carried z hz e he en hen
      dsimp only
      by_cases hzx : z = x
      · subst hzx
        rw [update_self, update_self, toward_append, toward_append, ← List.append_assoc, hold]
      · rw [update_of_ne hzx, update_of_ne hzx, hold] }

theorem TrafficInv.waitNetwork (ht : t.WellFormed) (hip : Addressed t ip)
    (h : TrafficInv t ip s) {x nextNode : ℤ} {packet : Pkt} {rest : List (ℤ × Pkt)}
    (hx : x ∈ t.nodeIDs) (hsend : s.toSend x = (nextNode, packet) :: rest) :
    TrafficInv t ip { s with
      toSend := update s.toSend x rest
      arriving := (sendConns nextNode (s.startup.nt x)).foldl
        (s.startup.net.write (ip x) packet) s.arriving } :=
  { h with
    idle := by
      intro z hz hidle
      have hzx : z ≠ x := by
        rintro rfl
        have hnone := (h.idle z hz hidle).2.1
        rw [hsend] at hnone
        contradiction
      simpa only [update_of_ne hzx] using h.idle z hz hidle
    quiet := by
      intro e he
      have hcount : (sendConns nextNode (s.startup.nt x)).countP
          (fun d => s.startup.net.fd (ip x) d = some e.peer) = 0 :=
        List.countP_eq_zero.mpr fun d _ hfd => he (ip x) d (of_decide_eq_true hfd)
      dsimp only
      rw [← e.peer_peer, Net.foldl_write, hcount, List.replicate_zero, List.append_nil,
        e.peer_peer, h.quiet e he]
    carried := by
      intro z hz e he en hen
      have hold := h.carried z hz e he en hen
      obtain ⟨c, hlink⟩ := (h.links.table z hz).link_of_mem he
      dsimp only
      rw [Net.foldl_write, h.links.countP_sendConns ht hip hz hx he hen]
      by_cases hxz : x = z
      · subst hxz
        rw [hsend, toward_cons] at hold
        rw [update_self, ← hold]
        by_cases hto : nextNode = broadcastNodeID ∨ nextNode = e.nodeID
        · rw [if_pos ⟨rfl, hto⟩, if_pos ((mem_overlaySendpkt_iff ht hlink).mpr hto)]
          simp
        · rw [if_neg fun h => hto h.2, if_neg fun h => hto ((mem_overlaySendpkt_iff ht hlink).mp h)]
          simp
      · rw [if_neg fun h => hxz h.1, update_of_ne (Ne.symm hxz), List.replicate_zero,
          List.append_nil, hold] }

/-- The table of the node stays, since the entry has no connection. -/
theorem TrafficInv.notConnected (ht : t.WellFormed) (h : TrafficInv t ip s) {x : ℤ} {idx : ℕ}
    {e : NbrEntry} (hx : x ∈ t.nodeIDs) (he : (s.startup.nt x)[idx]? = some e)
    (hfd : s.startup.net.fd (ip x) e.conn = none) :
    TrafficInv t ip { s with
      startup := { s.startup with
        nt := update s.startup.nt x ((s.startup.nt x).set idx { e with conn := -1 }) }
      listening := update s.listening x (update (s.listening x) idx false) } := by
  have hconn : e.conn = -1 := by
    by_contra hopen
    obtain ⟨en, _, _, hen, _⟩ := h.links.exists_end ht hx (List.mem_of_getElem? he) hopen
    rw [hfd] at hen
    contradiction
  have hsame : update s.startup.nt x ((s.startup.nt x).set idx { e with conn := -1 }) =
      s.startup.nt := by
    obtain ⟨hlt, rfl⟩ := List.getElem?_eq_some_iff.mp he
    rw [← hconn, List.set_getElem_self, update_eq_self]
  rw [hsame]
  exact { h with
    split := by
      intro z hz j e' he'
      obtain ⟨missed, forwarded, late, hsplit⟩ := h.split z hz j e' he'
      exact ⟨missed, forwarded, late, hsplit.ended x idx⟩ }

theorem TrafficInv.networkConn (h : TrafficInv t ip s) {x : ℤ} {networkConn : NetworkConn}
    (hinit : networkConn ≠ .initial)
    (hclosed : s.networkConn x = .closed → networkConn = .closed) :
    TrafficInv t ip { s with networkConn := update s.networkConn x networkConn } :=
  { h with
    split := by
      intro z hz idx e he
      obtain ⟨missed, forwarded, late, hsplit⟩ := h.split z hz idx e he
      refine ⟨missed, forwarded, late, ?_⟩
      dsimp only
      by_cases hzx : z = x
      · subst hzx
        rw [update_self]
        exact hsplit.setConn hinit hclosed
      · rwa [update_of_ne hzx] }

theorem takenFrom_append (x : ℤ) (l : List (Received Pkt)) (r : Received Pkt) :
    takenFrom x (l ++ [r]) = takenFrom x l ++ if r.nodeID = x then [r] else [] := by
  by_cases h : r.nodeID = x <;> simp [takenFrom, h]

theorem TrafficInv.listenToNeighbor (ht : t.WellFormed) (hip : Addressed t ip)
    (h : TrafficInv t ip s) {x : ℤ} {idx : ℕ} {e : NbrEntry} {en : End} {packet : Pkt}
    {rest : List Pkt} (hx : x ∈ t.nodeIDs) (hup : s.startup.Up x)
    (hlisten : s.listening x idx = true) (he : (s.startup.nt x)[idx]? = some e)
    (hen : s.startup.net.fd (ip x) e.conn = some en) (harrive : s.arriving en = packet :: rest) :
    TrafficInv t ip { s with
      arriving := update s.arriving en rest
      listening := if s.networkConn x = .closed then
        update s.listening x (update (s.listening x) idx false) else s.listening
      received := update s.received x
        (s.received x ++ [⟨e.nodeID, packet, s.networkConn x = .connected⟩]) } := by
  have hmem := List.mem_of_getElem? he
  -- Only `e` of the entries of all nodes has packets of its neighbour taken by `x`.
  have hother : ∀ z w : ℤ, ¬ (w = x ∧ e.nodeID = z) → takenFrom z (update s.received x
      (s.received x ++ [⟨e.nodeID, packet, s.networkConn x = .connected⟩]) w) =
        takenFrom z (s.received w) := by
    intro z w hne
    by_cases hwx : w = x
    · subst hwx
      rw [update_self, takenFrom_append, if_neg fun heq => hne ⟨rfl, heq⟩, List.append_nil]
    · rw [update_of_ne hwx]
  have hown : takenFrom e.nodeID (update s.received x
      (s.received x ++ [⟨e.nodeID, packet, s.networkConn x = .connected⟩]) x) =
        takenFrom e.nodeID (s.received x) ++
          [⟨e.nodeID, packet, s.networkConn x = .connected⟩] := by
    rw [update_self, takenFrom_append, if_pos rfl]
  constructor
  case links => exact h.links
  case idle =>
    intro z hz hidle
    have hzx : z ≠ x := fun heq => hidle (heq ▸ hup)
    simpa only [update_of_ne hzx] using h.idle z hz hidle
  case quiet =>
    intro e' he'
    have hold := h.quiet e' he'
    have hne : e' ≠ en := by
      rintro rfl
      rw [harrive] at hold
      contradiction
    dsimp only
    rw [update_of_ne hne, hold]
  case closed =>
    intro z hz e' he' hconn
    dsimp only
    rw [hother, h.closed z hz e' he' hconn]
    rintro ⟨rfl, hid⟩
    have hnone := h.quiet en (h.links.not_held ht hz he' hconn hmem hid hen)
    rw [harrive] at hnone
    contradiction
  case carried =>
    intro z hz e' he' en' hen'
    have hold := h.carried z hz e' he' en' hen'
    have hpeer := h.links.peer_iff ht hip hz hx he' hmem hen' hen
    dsimp only
    by_cases hsame : e'.nodeID = x ∧ e.nodeID = z
    · obtain ⟨rfl, rfl⟩ := hsame
      rw [hpeer.mpr ⟨rfl, rfl⟩, harrive] at hold
      rw [hown, hpeer.mpr ⟨rfl, rfl⟩, update_self, ← hold]
      simp
    · rw [hother z e'.nodeID hsame, update_of_ne fun heq => hsame (hpeer.mp heq), hold]
  case split =>
    intro z hz j e' he'
    obtain ⟨missed, forwarded, late, hsplit⟩ := h.split z hz j e' he'
    by_cases hsame : z = x ∧ e.nodeID = e'.nodeID
    · obtain ⟨rfl, hid⟩ := hsame
      have hnodup := (h.links.table z hz).nodup
      obtain rfl := (h.links.table z hz).eq_of_nodeID hmem (List.mem_of_getElem? he') hid
      obtain rfl : j = idx :=
        (List.getElem?_inj (List.getElem?_eq_some_iff.mp he').1 hnodup.of_map).mp
          (he'.trans he.symm)
      rw [hlisten] at hsplit
      obtain ⟨missed, forwarded, late, hsplit⟩ := hsplit.take packet
      refine ⟨missed, forwarded, late, ?_⟩
      dsimp only
      rw [hown]
      by_cases hconn : s.networkConn z = .closed
      · simpa [hconn] using hsplit
      · simpa [hconn, hlisten] using hsplit
    · refine ⟨missed, forwarded, late, ?_⟩
      dsimp only
      rw [hother _ _ fun heq => hsame heq]
      split
      next => exact hsplit.ended x idx
      next => exact hsplit

theorem step_trafficInv (ht : t.WellFormed) (hip : Addressed t ip) (h : TrafficInv t ip s)
    {a : TrafficAction Pkt} {s' : Traffic Pkt}
    (hs : (trafficMachine Pkt room t ip).step s a = some s') : TrafficInv t ip s' := by
  cases trafficSteps_of_step hs with
  | startup hstep => exact h.startup ht hip hstep
  | acceptNetwork hx hup hconn => exact h.networkConn (by simp) (by simp [hconn])
  | overlaySendpkt hx hup => exact h.overlaySendpkt hup
  | waitNetwork hx hsend => exact h.waitNetwork ht hip hx hsend
  | closeNetwork hx hconn => exact h.networkConn (by simp) (by simp)
  | notConnected hx he hfd => exact h.notConnected ht hx he hfd
  | listenToNeighbor hx hup hlisten he hen harrive =>
    exact h.listenToNeighbor ht hip hx hup hlisten he hen harrive

theorem init_trafficInv (ht : t.WellFormed) (hip : Addressed t ip)
    (hs : (trafficMachine Pkt room t ip).Init s) : TrafficInv t ip s := by
  obtain ⟨hstartup, _, hsend, harrive, _, hreceived, hsent⟩ := hs
  constructor
  case links =>
    exact init_linksInv ht hip (show (startupMachine room t ip).Init s.startup from hstartup)
  case idle => simp [hsend, hreceived, hsent]
  case quiet => simp [harrive]
  case closed => simp [hreceived, takenFrom]
  case carried => simp [hsend, hsent, harrive, hreceived, takenFrom, toward]
  case split =>
    intro x hx idx e he
    exact ⟨[], [], [], by simp [hreceived, takenFrom], by simp, by simp, by simp, by simp⟩

end Invariant

section Results
variable {t : Topology Host} {ip : ℤ → UInt32} {room : ℕ} {s : Traffic Pkt}

theorem trafficInv_of_reachable (ht : t.WellFormed) (hip : Addressed t ip)
    (h : (trafficMachine Pkt room t ip).Reachable (fun _ _ => True) s) : TrafficInv t ip s :=
  h.invariant (fun _ hs => init_trafficInv ht hip hs)
    fun _ _ _ h _ hs => step_trafficInv ht hip h hs

/-- Node 1 takes a packet of node 3 before its SNP process connects, and a broadcast after it. -/
def ringTraffic : List (TrafficAction ℕ) :=
  (ringUp ++ [StartupAction.connectNbrs 1 0, .connectNbrs 1 0, .connectNbrs 3 0]).map .startup ++
    [.acceptNetwork 3, .overlaySendpkt 3 1 10, .waitNetwork 3, .listenToNeighbor 1 1,
      .acceptNetwork 1, .overlaySendpkt 3 broadcastNodeID 11, .waitNetwork 3,
      .listenToNeighbor 1 1, .overlaySendpkt 3 1 12, .waitNetwork 3, .overlaySendpkt 3 1 13]

end Results
end DartNet.Overlay
