import DartNet.Foundation.DistanceVector
import DartNet.Network.System
import DartNet.Network.Update

/-! The tables of all nodes, whatever becomes of the route updates, are those of the distance
vector algorithm. -/
namespace DartNet.Network
open DistanceVector ShortestPath Transition
variable {Host : Type} {t : Topology Host} {s : Sys}

/-- A packet with an entry for each node, made of costs that `x` has had. -/
def FromPast (t : Topology Host) (past : ℤ → Set ℕ) (es : List DvEntry) : Prop :=
  es.map (·.nodeID) = t.nodeIDs ∧ ∀ e ∈ es, e.cost.toNat ∈ past e.nodeID

/-- The state represents the tables `T` of the distance vector algorithm. -/
structure Represents (t : Topology Host) (s : Sys) (T : Tables ℤ) : Prop where
  inv : Inv t.link infiniteCost.toNat T
  ok : ∀ x ∈ t.nodeIDs, (s.node x).Ok t x
  own : ∀ x ∈ t.nodeIDs, ∀ y ∈ t.nodeIDs, (s.entry x y).toNat = T.own x y
  stored : ∀ x ∈ t.nodeIDs, ∀ w c, t.link x w c → ∀ y ∈ t.nodeIDs,
    (dvtableGetcost w y (s.node x).dv).toNat = T.stored x w y
  next : ∀ x ∈ t.nodeIDs, ∀ y ∈ t.nodeIDs,
    (s.node x).routingtable.getnextnode y = T.next x y
  self : ∀ x ∈ t.nodeIDs, (s.node x).routingtable.getnextnode x = some (-1)
  copied : ∀ x ∈ t.nodeIDs, ∀ i e, s.copied x i = some e →
    t.nodeIDs[i]? = some e.nodeID ∧ e.cost.toNat ∈ T.past x e.nodeID
  updates : ∀ u ∈ s.updates, (∃ c, t.link u.1 u.2.srcNodeID c) ∧
    FromPast t (T.past u.2.srcNodeID) u.2.entry

theorem mem_overlaySendpkt {x n w : ℤ} (ht : t.WellFormed) (h : w ∈ overlaySendpkt t x n) :
    ∃ c, t.link x w c := by
  unfold overlaySendpkt at h
  cases hnbrs : t.getNbrArray x with
  | none => simp [hnbrs] at h
  | some nbrs =>
    rw [hnbrs] at h
    apply (Topology.mem_getNbrArray ht hnbrs).mp
    simp only [Option.getD_some] at h
    split at h
    next => exact h
    next =>
      split at h
      next hn => exact List.mem_singleton.mp h ▸ hn
      next => simp at h

/-- A gathered packet has, at each position, the entry that was copied there. -/
theorem gather_eq_some {copied : ℕ → Option DvEntry} {n : ℕ} {es : List DvEntry}
    (h : Sys.gather copied n = some es) :
    es.length = n ∧ ∀ i e, es[i]? = some e → copied i = some e := by
  induction n generalizing es with
  | zero =>
    obtain rfl := Option.some.inj h
    simp
  | succ n ih =>
    obtain ⟨es', hes', h⟩ := Option.bind_eq_some_iff.mp h
    obtain ⟨e', he', rfl⟩ := Option.map_eq_some_iff.mp h
    obtain ⟨hlen, hget⟩ := ih hes'
    refine ⟨by simp [hlen], ?_⟩
    intro i e he
    rcases Nat.lt_trichotomy i n with hi | rfl | hi
    · rw [List.getElem?_append_left (hlen ▸ hi)] at he
      exact hget i e he
    · rw [List.getElem?_append_right hlen.le, hlen, Nat.sub_self] at he
      exact he' ▸ congrArg some (Option.some.inj he)
    · rw [List.getElem?_eq_none (by simp [hlen]; omega)] at he
      contradiction

section Steps
variable {T : Tables ℤ}

theorem Represents.fromPast_gather (h : Represents t s T) {x : ℤ} (hx : x ∈ t.nodeIDs)
    {es : List DvEntry} (hes : Sys.gather (s.copied x) t.nodeIDs.length = some es) :
    FromPast t (T.past x) es := by
  obtain ⟨hlen, hget⟩ := gather_eq_some hes
  refine ⟨List.ext_getElem? ?_, ?_⟩
  · intro i
    rw [List.getElem?_map]
    cases hi : es[i]? with
    | none =>
      have hle := List.getElem?_eq_none_iff.mp hi
      exact (List.getElem?_eq_none (hlen ▸ hle)).symm
    | some e => exact (h.copied x hx i e (hget i e hi)).1.symm
  · intro e he
    obtain ⟨i, hi⟩ := List.mem_iff_getElem?.mp he
    exact (h.copied x hx i e (hget i e hi)).2

theorem Represents.copyEntry (h : Represents t s T) {x : ℤ} (hx : x ∈ t.nodeIDs) {i : ℕ} {s' : Sys}
    (hs : s.copyEntry x i = some s') : Represents t s' T := by
  obtain ⟨row, hrow, hs⟩ := Option.bind_eq_some_iff.mp hs
  obtain ⟨e, he, rfl⟩ := Option.map_eq_some_iff.mp hs
  have hids := (h.ok x hx).complete.row hrow
  have hpos : t.nodeIDs[i]? = some e.nodeID := by
    rw [← hids, List.getElem?_map, he, Option.map_some]
  have hmem : e ∈ row.dvEntry := List.mem_of_getElem? he
  have hy : e.nodeID ∈ t.nodeIDs := hids ▸ List.mem_map_of_mem hmem
  have hpast : e.cost.toNat ∈ T.past x e.nodeID := by
    rw [← costIn_of_mem (hids ▸ Topology.nodup_nodeIDs) hmem,
      ← dvtableGetcost_eq (h.ok x hx).complete hy hrow]
    exact (h.own x hx e.nodeID hy).symm ▸ h.inv.own_mem x e.nodeID
  refine { h with copied := ?_ }
  intro z hz j d hd
  by_cases hzx : z = x
  · subst hzx
    by_cases hji : j = i
    · subst hji
      simp only [Function.update_self] at hd
      obtain rfl := Option.some.inj hd
      exact ⟨hpos, hpast⟩
    · simp only [Function.update_self, Function.update_of_ne hji] at hd
      exact h.copied z hz j d hd
  · simp only [Function.update_of_ne hzx] at hd
    exact h.copied z hz j d hd

theorem Represents.broadcast (ht : t.WellFormed) (h : Represents t s T) {x : ℤ}
    (hx : x ∈ t.nodeIDs) {s' : Sys} (hs : s.broadcast t x = some s') : Represents t s' T := by
  obtain ⟨row, hrow, hs⟩ := Option.bind_eq_some_iff.mp hs
  obtain ⟨es, hes, rfl⟩ := Option.map_eq_some_iff.mp hs
  have hlen : row.dvEntry.length = t.nodeIDs.length := by
    rw [← (h.ok x hx).complete.row hrow, List.length_map]
  rw [hlen] at hes
  refine { h with copied := ?_, updates := ?_ }
  · intro z hz j d hd
    by_cases hzx : z = x
    · simp [hzx] at hd
    · simp only [Function.update_of_ne hzx] at hd
      exact h.copied z hz j d hd
  · intro u hu
    rcases List.mem_append.mp hu with hu | hu
    · exact h.updates u hu
    · obtain ⟨w, hw, rfl⟩ := List.mem_map.mp hu
      obtain ⟨c, hc⟩ := mem_overlaySendpkt ht hw
      exact ⟨⟨c, Topology.link_symm hc⟩, h.fromPast_gather hx hes⟩

open Classical in
/-- The vector that a packet carries; nodes it does not name keep the cost the sender has. -/
noncomputable def heard (t : Topology Host) (T : Tables ℤ) (packet : RouteUpdate) (y : ℤ) : ℕ :=
  if y ∈ t.nodeIDs then (costIn packet.entry y).toNat else T.own packet.srcNodeID y

theorem heard_eq {packet : RouteUpdate} {y : ℤ} (hy : y ∈ t.nodeIDs) :
    heard t T packet y = (costIn packet.entry y).toNat := if_pos hy

theorem FromPast.costIn_mem {past : ℤ → Set ℕ} {es : List DvEntry} (h : FromPast t past es) {y : ℤ}
    (hy : y ∈ t.nodeIDs) : (costIn es y).toNat ∈ past y := by
  obtain ⟨e, he, rfl, hcost⟩ := exists_mem_costIn (h.1 ▸ hy)
  exact hcost ▸ h.2 e he

theorem Represents.heard_mem (h : Represents t s T) {packet : RouteUpdate}
    (hpast : FromPast t (T.past packet.srcNodeID) packet.entry) (y : ℤ) :
    heard t T packet y ∈ T.past packet.srcNodeID y := by
  unfold heard
  split
  next hy => exact hpast.costIn_mem hy
  next => exact h.inv.own_mem _ _

theorem FromPast.mono {past past' : ℤ → Set ℕ} {es : List DvEntry} (h : FromPast t past es)
    (hle : ∀ y, past y ⊆ past' y) : FromPast t past' es :=
  ⟨h.1, fun e he => hle _ (h.2 e he)⟩

/-- Taking a route update is hearing the vector it carries. -/
theorem Represents.hears (ht : t.WellFormed) (h : Represents t s T) {x : ℤ} {packet : RouteUpdate}
    {c : ℕ} (hlink : t.link x packet.srcNodeID c)
    (hpast : FromPast t (T.past packet.srcNodeID) packet.entry) {r : Node × List RouteUpdate}
    (hr : (s.node x).pkthandler packet = some r) :
    Hears t x packet.srcNodeID c (s.node x) packet.entry r.1 r.2 := by
  have hx := Topology.link_mem hlink
  refine (h.ok x hx).hears ht hlink rfl hpast.1 ?_ ?_ hr
  · intro y hy
    exact h.inv.le_cap _ y _ (hpast.costIn_mem hy)
  · intro y hy
    rw [h.stored x hx _ c hlink y hy]
    exact (h.own x hx y hy).trans_le (h.inv.relaxed x _ c y hlink)

/-- Each cost of a row broadcast at a change is one the node has had or has now. -/
theorem Represents.told (h : Represents t s T) {x : ℤ} (hx : x ∈ t.nodeIDs)
    {packet : RouteUpdate} {c : ℕ} {r : Node × List RouteUpdate}
    (hears : Hears t x packet.srcNodeID c (s.node x) packet.entry r.1 r.2)
    (hinv : Inv t.link infiniteCost.toNat (T.hear x packet.srcNodeID c (heard t T packet)))
    {u : RouteUpdate} (hu : u ∈ r.2) :
    u.srcNodeID = x ∧
      FromPast t ((T.hear x packet.srcNodeID c (heard t T packet)).past x) u.entry := by
  obtain ⟨hsrc, hids, hcosts⟩ := hears.out u hu
  refine ⟨hsrc, hids, ?_⟩
  intro e he
  have hy : e.nodeID ∈ t.nodeIDs := hids ▸ List.mem_map_of_mem he
  have hown : (dvtableGetcost x e.nodeID (s.node x).dv).toNat = T.own x e.nodeID :=
    h.own x hx e.nodeID hy
  rcases hcosts e he with hold | hnew
  · rw [hold, hown]
    exact mem_past_hear.mpr (.inr (h.inv.own_mem x e.nodeID))
  · rw [hnew, hears.own _ hy, ← heard_eq (T := T) hy, hown, ← hear_own_self]
    exact hinv.own_mem x e.nodeID

theorem Represents.routeUpdate (ht : t.WellFormed) (h : Represents t s T) {i : ℕ} {s' : Sys}
    (hs : s.routeUpdate t i = some s') : ∃ T', Represents t s' T' := by
  obtain ⟨⟨x, packet⟩, hu, hs⟩ := Option.bind_eq_some_iff.mp hs
  obtain ⟨r, hr, rfl⟩ := Option.map_eq_some_iff.mp hs
  obtain ⟨⟨c, hlink⟩, hpast⟩ := h.updates _ (List.mem_of_getElem? hu)
  dsimp only at hlink hpast hr
  have hx := Topology.link_mem hlink
  have hears := h.hears ht hlink hpast hr
  have hinv := h.inv.hear (fun x w c k hc hk => Topology.link_unique ht hc hk) hlink
    (h.heard_mem hpast)
  refine ⟨T.hear x packet.srcNodeID c (heard t T packet), ?_⟩
  have hmono : ∀ z y, T.past z y ⊆ (T.hear x packet.srcNodeID c (heard t T packet)).past z y :=
    fun z y v hv => mem_past_hear.mpr (.inr hv)
  have hnode : ∀ z, z ≠ x → Function.update s.node x r.1 z = s.node z :=
    fun z hz => Function.update_of_ne hz ..
  constructor
  case inv => exact hinv
  case ok =>
    intro z hz
    by_cases hzx : z = x
    · subst hzx
      simpa using hears.ok
    · simpa only [hnode z hzx] using h.ok z hz
  case own =>
    intro z hz y hy
    by_cases hzx : z = x
    · subst hzx
      simp only [Sys.entry, Function.update_self, hears.own y hy, hear_own_self, heard_eq hy]
      rw [← h.own z hz y hy]
      rfl
    · simp only [Sys.entry, hnode z hzx, hear_own_ne hzx]
      exact h.own z hz y hy
  case stored =>
    intro z hz w k hk y hy
    by_cases hzx : z = x
    · subst hzx
      simp only [Function.update_self, hears.stored w k hk y hy, Tables.hear, true_and]
      split
      next => exact (heard_eq hy).symm
      next => exact h.stored z hz w k hk y hy
    · simp only [hnode z hzx, Tables.hear, hzx, false_and, if_false]
      exact h.stored z hz w k hk y hy
  case next =>
    intro z hz y hy
    by_cases hzx : z = x
    · subst hzx
      simp only [Function.update_self, hears.next y hy, Tables.hear, true_and, heard_eq hy]
      rw [← h.own z hz y hy, ← h.next z hz y hy]
      rfl
    · simp only [hnode z hzx, Tables.hear, hzx, false_and, if_false]
      exact h.next z hz y hy
  case self =>
    intro z hz
    by_cases hzx : z = x
    · subst hzx
      have hzero : (dvtableGetcost z z (s.node z).dv).toNat = 0 :=
        (h.own z hz z hz).trans (h.inv.self z)
      simp only [Function.update_self, hears.next z hz, hzero, Nat.not_lt_zero, if_false]
      exact h.self z hz
    · simpa only [hnode z hzx] using h.self z hz
  case copied =>
    intro z hz j e he
    obtain ⟨hpos, hmem⟩ := h.copied z hz j e he
    exact ⟨hpos, hmono z _ hmem⟩
  case updates =>
    intro u hu
    rcases List.mem_append.mp hu with hu | hu
    · obtain ⟨hex, hpast⟩ := h.updates u hu
      exact ⟨hex, hpast.mono (hmono _)⟩
    · obtain ⟨u', hu', hu⟩ := List.mem_flatMap.mp hu
      obtain ⟨w, hw, rfl⟩ := List.mem_map.mp hu
      obtain ⟨k, hk⟩ := mem_overlaySendpkt ht hw
      obtain ⟨hsrc, hpast⟩ := h.told hx hears hinv hu'
      rw [hsrc]
      exact ⟨⟨k, Topology.link_symm hk⟩, hpast⟩

theorem Represents.of_node_eq (h : Represents t s T) {s' : Sys} (hnode : s'.node = s.node)
    (hcopied : s'.copied = s.copied) (hupdates : s'.updates = s.updates) : Represents t s' T where
  inv := h.inv
  ok := hnode ▸ h.ok
  own := by
    simp only [Sys.entry, hnode]
    exact h.own
  stored := hnode ▸ h.stored
  next := hnode ▸ h.next
  self := hnode ▸ h.self
  copied := hcopied ▸ h.copied
  updates := hupdates ▸ h.updates

end Steps

/-- An SNP packet leaves the tables and the route updates alone. -/
theorem sendOn_frame {p : Packet} {s' : Sys} (h : s.sendOn t p = some s') :
    s'.node = s.node ∧ s'.copied = s.copied ∧ s'.updates = s.updates := by
  obtain ⟨n, _, rfl⟩ := Option.map_eq_some_iff.mp h
  split <;> exact ⟨rfl, rfl, rfl⟩

theorem forward_frame {i : ℕ} {s' : Sys} (h : s.forward t i = some s') :
    s'.node = s.node ∧ s'.copied = s.copied ∧ s'.updates = s.updates := by
  obtain ⟨p, _, h⟩ := Option.bind_eq_some_iff.mp h
  dsimp only at h
  split at h
  next =>
    obtain rfl := Option.some.inj h
    exact ⟨rfl, rfl, rfl⟩
  next =>
    obtain ⟨hnode, hcopied, hupdates⟩ := sendOn_frame h
    exact ⟨hnode, hcopied, hupdates⟩

theorem step_represents (ht : t.WellFormed) {T : Tables ℤ} (h : Represents t s T) {a : Action}
    {s' : Sys} (hs : (machine t).step s a = some s') : ∃ T', Represents t s' T' := by
  cases a with
  | copyEntry x i =>
    obtain ⟨hx, hs⟩ := Option.ite_none_right_eq_some.mp hs
    exact ⟨T, h.copyEntry hx hs⟩
  | broadcast x =>
    obtain ⟨hx, hs⟩ := Option.ite_none_right_eq_some.mp hs
    exact ⟨T, h.broadcast ht hx hs⟩
  | routeUpdate i => exact h.routeUpdate ht hs
  | send x y =>
    obtain ⟨hnode, hcopied, hupdates⟩ := sendOn_frame (Option.ite_none_right_eq_some.mp hs).2
    exact ⟨T, h.of_node_eq hnode hcopied hupdates⟩
  | forward i =>
    obtain ⟨hnode, hcopied, hupdates⟩ := forward_frame hs
    exact ⟨T, h.of_node_eq hnode hcopied hupdates⟩

theorem init_represents (ht : t.WellFormed) (hs : (machine t).Init s) :
    ∃ T, Represents t s T := by
  have hstart : ∀ x ∈ t.nodeIDs, Starts t x (s.node x) := fun x hx =>
    Node.create_starts ht hx (hs.node x hx)
  refine ⟨⟨fun x y => (t.getCost x y).toNat, fun _ _ _ => infiniteCost.toNat,
    fun x y => (s.node x).routingtable.getnextnode y, fun x y => {(t.getCost x y).toNat}⟩, ?_⟩
  constructor
  case inv =>
    apply start_inv (fun x => by simp [Topology.getCost])
    · intro x y
      exact UInt32.le_iff_toNat_le.mp (Topology.getCost_le ht x y)
    · intro x y hxy hlt
      exact Topology.link_of_getCost ht hxy (UInt32.lt_iff_toNat_lt.mpr hlt)
    · intro x y c hc
      exact (hstart x (Topology.link_mem hc)).next y c hc
  case ok => exact fun x hx => (hstart x hx).ok
  case own => exact fun x hx y hy => congrArg UInt32.toNat ((hstart x hx).own y hy)
  case stored =>
    exact fun x hx w c hc y hy => congrArg UInt32.toNat ((hstart x hx).stored w c hc y hy)
  case next => exact fun x _ y _ => rfl
  case self => exact fun x hx => (hstart x hx).self
  case copied =>
    intro x _ i e he
    rw [hs.copied] at he
    contradiction
  case updates =>
    intro u hu
    rw [hs.updates] at hu
    contradiction

theorem exists_represents (ht : t.WellFormed) (h : (machine t).Reachable (fun _ _ => True) s) :
    ∃ T, Represents t s T :=
  h.invariant (fun _ hs => init_represents ht hs) fun _ _ _ ⟨_, hT⟩ _ hs =>
    step_represents ht hT hs

/-- Each stored row of a neighbour is the neighbour's current own row. -/
def Settled (t : Topology Host) (s : Sys) : Prop :=
  ∀ x ∈ t.nodeIDs, ∀ w c, t.link x w c →
    (getRouteUpdateData (s.node x).dv w).map (·.dvEntry) =
      (getRouteUpdateData (s.node w).dv w).map (·.dvEntry)

theorem entry_converges (ht : t.WellFormed)
    (h : (machine t).Reachable (fun _ _ => True) s) {x y : ℤ} (hx : x ∈ t.nodeIDs)
    (hy : y ∈ t.nodeIDs) :
    min (pathCost t.link x y) infiniteCost.toNat ≤ ((s.entry x y).toNat : ℕ∞) ∧
      (Settled t s →
        ((s.entry x y).toNat : ℕ∞) = min (pathCost t.link x y) infiniteCost.toNat) := by
  obtain ⟨T, hT⟩ := exists_represents ht h
  rw [hT.own x hx y hy]
  refine ⟨hT.inv.sound x y _ (hT.inv.own_mem x y), ?_⟩
  intro hsettled
  refine hT.inv.own_eq ?_ x
  intro x w c hc
  have hx := Topology.link_mem hc
  have hw := Topology.link_mem (Topology.link_symm hc)
  obtain ⟨stored, hstored⟩ := (hT.ok x hx).nbr w c hc
  obtain ⟨own, hown⟩ := (hT.ok w hw).own
  have hrow : stored.dvEntry = own.dvEntry := by simpa [hstored, hown] using hsettled x hx w c hc
  rw [← hT.stored x hx w c hc y hy, ← hT.own w hw y hy, Sys.entry,
    dvtableGetcost_eq (hT.ok x hx).complete hy hstored,
    dvtableGetcost_eq (hT.ok w hw).complete hy hown, hrow]

/-- The tables of all nodes are set up inside their arrays, and own entries are never below the
shortest paths, capped at `INFINITE_COST`, and equal to them once the stored rows are current. -/
structure Converges (t : Topology Host) : Prop where
  starts : ∃ s, (machine t).Init s
  entries : ∀ s, (machine t).Reachable (fun _ _ => True) s → ∀ x ∈ t.nodeIDs, ∀ y ∈ t.nodeIDs,
    min (pathCost t.link x y) infiniteCost.toNat ≤ ((s.entry x y).toNat : ℕ∞) ∧
      (Settled t s →
        ((s.entry x y).toNat : ℕ∞) = min (pathCost t.link x y) infiniteCost.toNat)

theorem Converges.room (h : Converges t) {x : ℤ} (hx : x ∈ t.nodeIDs) :
    t.nodeIDs.length < maxNodeNum ∨
      t.nodeIDs.length = maxNodeNum ∧ t.behindNodeIDs = -1 := by
  obtain ⟨s, hs⟩ := h.starts
  have hcreate : (Node.create t x).isSome := Option.isSome_of_eq_some (hs.node x hx)
  exact (Node.isSome_create_iff.mp hcreate).2.2.2

/-- Whatever stands behind the array of `topology_getNodeNum`, the distance vectors converge
exactly if its count stops inside the array. -/
theorem own_entry_converges (ht : t.Linked) :
    (∀ word, Converges (t.behind word)) ↔ t.nodeIDs.length < maxNodeNum := by
  constructor
  · intro h
    cases hnodes : t.nodeIDs with
    | nil => decide
    | cons x xs =>
      have hroom := (h 0).room (x := x) (hnodes ▸ List.mem_cons_self .. : x ∈ t.nodeIDs)
      have hword : (t.behind 0).behindNodeIDs ≠ -1 := show (0 : ℤ) ≠ -1 by decide
      exact hnodes ▸ hroom.resolve_right fun h => hword h.2
  · intro hnodes word
    have hwf : (t.behind word).WellFormed := ⟨ht.behind word, hnodes⟩
    refine ⟨⟨Sys.start _, start_init ?_⟩, fun s hs x hx y hy => entry_converges hwf hs hx hy⟩
    intro x hx
    exact Node.create_behind_iff.mpr (Topology.WellFormed.startsAt ⟨ht, hnodes⟩ hx) word

/-- Three nodes, of which 2 and 4 are closer through 3. -/
def triangle : Topology ℕ where
  lines := [⟨2, 3, 1⟩, ⟨3, 4, 1⟩, ⟨2, 4, 5⟩]
  gethostbyname n := some (UInt32.ofNat n)
  behindNodeIDs := 0

theorem triangle_wellFormed : triangle.WellFormed where
  resolved := by decide
  noSelfLink := by decide
  onePerPair := by decide
  cost := by decide
  nodes := by decide

/-- Node 3 broadcasts its row, and all that follows from it is delivered. -/
def settle : List Action :=
  [.copyEntry 3 0, .copyEntry 3 1, .copyEntry 3 2, .broadcast 3] ++ (List.range 6).map .routeUpdate

theorem own_entry_converges_settle : ∃ s : Sys,
    (machine triangle).run (fun _ _ => True) (Sys.start triangle) settle = some s ∧
      Settled triangle s ∧ s.entry 2 4 = 2 ∧
      ((s.entry 2 4).toNat : ℕ∞) = min (pathCost triangle.link 2 4) infiniteCost.toNat := by
  have hconverges : Converges triangle :=
    (own_entry_converges triangle_wellFormed.toLinked).mpr triangle_wellFormed.nodes 0
  obtain ⟨s, hrun, hs, hrows, hentry⟩ := (machine triangle).exists_of_run (fun _ _ => True)
    (start_init (by decide)) settle
    (P := fun s => (∀ x ∈ triangle.nodeIDs, ∀ w ∈ triangle.nodeIDs,
      triangle.getCost x w < infiniteCost →
        (getRouteUpdateData (s.node x).dv w).map (·.dvEntry) =
          (getRouteUpdateData (s.node w).dv w).map (·.dvEntry)) ∧ s.entry 2 4 = 2)
    (by decide +kernel)
  have hsettled : Settled triangle s := by
    intro x hx w c hc
    apply hrows x hx w (Topology.link_mem (Topology.link_symm hc))
    rw [UInt32.lt_iff_toNat_lt, Topology.getCost_of_link triangle_wellFormed hc]
    exact Topology.link_lt triangle_wellFormed hc
  have hentries := hconverges.entries s hs 2 (by decide) 4 (by decide)
  exact ⟨s, hrun, hsettled, hentry, hentries.2 hsettled⟩

/-- Ten nodes leave no -1 in the array of `topology_getNodeNum`, and its count leaves the array. -/
theorem full_file_leaves_array :
    let full := Topology.numbered [⟨1, 2, 1⟩, ⟨3, 4, 1⟩, ⟨5, 6, 1⟩, ⟨7, 8, 1⟩, ⟨9, 10, 1⟩]
    full.Linked ∧ full.nodeIDs.length = maxNodeNum ∧ full.getNodeNum = none ∧
      ¬ Converges full := by
  intro full
  have hfull : full.Linked := ⟨by decide, by decide, by decide, by decide⟩
  refine ⟨hfull, by decide, by decide, ?_⟩
  intro h
  exact absurd (h.room (x := 1) (by decide)) (by decide)

end DartNet.Network
