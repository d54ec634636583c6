import DartNet.Network.Convergence

/-! The next hops while the tables change, and the packets that follow them. -/
namespace DartNet.Network
open DistanceVector Transition
variable {Host : Type} {t : Topology Host} {s : Sys}

section NextHop
variable {T : Tables ℤ} {x y : ℤ}

/-- A destination that the file does not mention. -/
theorem Represents.entry_infinite (h : Represents t s T) (hx : x ∈ t.nodeIDs) (hy : y ∉ t.nodeIDs) :
    s.entry x y = infiniteCost := by
  have hget : ∀ dv : List Dv, Complete t.nodeIDs dv → dvtableGetcost x y dv = infiniteCost := by
    intro dv hdv
    induction dv with
    | nil => rfl
    | cons row rows ih =>
      obtain ⟨hrow, hrows⟩ := List.forall_mem_cons.mp hdv
      have hfind : row.dvEntry.find? (·.nodeID = y) = none := by
        refine List.find?_eq_none.mpr fun e he => ?_
        have hne : e.nodeID ≠ y := fun hey => hy (hey ▸ hrow ▸ List.mem_map_of_mem he)
        simpa using hne
      rw [dvtableGetcost, hfind]
      split <;> exact ih hrows
  exact hget _ (h.ok x hx).complete

theorem Represents.next_hop (h : Represents t s T) (hx : x ∈ t.nodeIDs) (hxy : x ≠ y)
    (hlt : s.entry x y < infiniteCost) : ∃ w c, t.link x w c ∧
      (s.node x).routingtable.getnextnode y = some w ∧
      (s.entry w y).toNat + c ≤ (s.entry x y).toNat := by
  have hy : y ∈ t.nodeIDs := by
    by_contra hy
    rw [h.entry_infinite hx hy] at hlt
    exact UInt32.lt_irrefl _ hlt
  have hown := h.own x hx y hy
  obtain ⟨w, c, hnext, hlink, hle⟩ := h.inv.next x y hxy (hown ▸ UInt32.lt_iff_toNat_lt.mp hlt)
  have hw := Topology.link_mem (Topology.link_symm hlink)
  refine ⟨w, c, hlink, (h.next x hx y hy).trans hnext, ?_⟩
  rw [hown, h.own w hw y hy]
  exact hle

/-- Entries never grow. -/
theorem Represents.entry_le (ht : t.WellFormed) (h : Represents t s T) {a : Action} {s' : Sys}
    (hs : (machine t).step s a = some s') (hx : x ∈ t.nodeIDs) (y : ℤ) :
    s'.entry x y ≤ s.entry x y := by
  obtain ⟨T', hT'⟩ := step_represents ht h hs
  by_cases hy : y ∈ t.nodeIDs
  case neg =>
    rw [h.entry_infinite hx hy, hT'.entry_infinite hx hy]
    exact UInt32.le_refl _
  have hsame : s'.node = s.node → s'.entry x y ≤ s.entry x y := by
    intro hnode
    rw [Sys.entry, hnode]
    exact UInt32.le_refl _
  cases a with
  | copyEntry z i =>
    obtain ⟨row, _, hs⟩ := Option.bind_eq_some_iff.mp (Option.ite_none_right_eq_some.mp hs).2
    obtain ⟨e, _, rfl⟩ := Option.map_eq_some_iff.mp hs
    exact hsame rfl
  | broadcast z =>
    obtain ⟨row, _, hs⟩ := Option.bind_eq_some_iff.mp (Option.ite_none_right_eq_some.mp hs).2
    obtain ⟨es, _, rfl⟩ := Option.map_eq_some_iff.mp hs
    exact hsame rfl
  | send z y => exact hsame (sendOn_frame (Option.ite_none_right_eq_some.mp hs).2).1
  | forward i => exact hsame (forward_frame hs).1
  | routeUpdate i =>
    obtain ⟨⟨z, packet⟩, hu, hs⟩ := Option.bind_eq_some_iff.mp hs
    obtain ⟨r, hr, rfl⟩ := Option.map_eq_some_iff.mp hs
    obtain ⟨⟨c, hlink⟩, hpast⟩ := h.updates _ (List.mem_of_getElem? hu)
    by_cases hxz : x = z
    · subst hxz
      have hears := h.hears ht hlink hpast hr
      rw [UInt32.le_iff_toNat_le]
      simp only [Sys.entry, Function.update_self, hears.own y hy]
      exact Nat.min_le_left _ _
    · simp only [Sys.entry, Function.update_of_ne hxz]
      exact UInt32.le_refl _

theorem overlaySendpkt_nbr (ht : t.WellFormed) {w : ℤ} {c : ℕ} (h : t.link x w c) :
    overlaySendpkt t x w = [w] := by
  obtain ⟨nbrs, hnbrs⟩ := Topology.exists_getNbrArray ht h
  have hmem := (Topology.mem_getNbrArray ht hnbrs).mpr ⟨c, h⟩
  have hw : w ≠ broadcastNodeID := by
    have hlt := Topology.nodeID_lt (Topology.link_mem (Topology.link_symm h))
    simp only [broadcastNodeID]
    omega
  simp [overlaySendpkt, hnbrs, hw, hmem]

theorem overlaySendpkt_none (ht : t.WellFormed) (x : ℤ) : overlaySendpkt t x (-1) = [] := by
  apply List.eq_nil_iff_forall_not_mem.mpr
  intro w hw
  obtain ⟨c, hc⟩ := mem_overlaySendpkt ht hw
  have hpos := Topology.nodeID_nonneg ht.resolved (Topology.link_mem (Topology.link_symm hc))
  have heq : w = -1 := by
    simp only [overlaySendpkt, broadcastNodeID, Int.reduceNeg, Int.reduceEq, if_false] at hw
    split at hw
    next => exact List.mem_singleton.mp hw
    next => simp at hw
  omega

/-- The overlay process passes a packet on to one node, or to none at the destination. -/
theorem Represents.overlaySendpkt_eq (ht : t.WellFormed) (h : Represents t s T)
    (hx : x ∈ t.nodeIDs) {n : ℤ} (hn : (s.node x).routingtable.getnextnode y = some n)
    (hlt : s.entry x y < infiniteCost) :
    (x = y ∧ overlaySendpkt t x n = []) ∨
      overlaySendpkt t x n = [n] ∧ n ∈ t.nodeIDs ∧ s.entry n y < s.entry x y := by
  by_cases hxy : x = y
  · subst hxy
    obtain rfl : n = -1 := Option.some.inj (hn.symm.trans (h.self x hx))
    exact .inl ⟨rfl, overlaySendpkt_none ht x⟩
  · obtain ⟨w, c, hlink, hw, hle⟩ := h.next_hop hx hxy hlt
    obtain rfl := Option.some.inj (hw.symm.trans hn)
    have hpos := Topology.link_pos ht hlink
    refine .inr ⟨overlaySendpkt_nbr ht hlink, Topology.link_mem (Topology.link_symm hlink), ?_⟩
    rw [UInt32.lt_iff_toNat_lt]
    omega

end NextHop

/-- The entries for the destination, at the nodes that a packet has left and then at the node it
has come to, decrease from the first finite one on. -/
structure Packet.Descends (entry : ℤ → ℤ → UInt32) (p : Packet) : Prop where
  here : ∀ h ∈ p.hops, h.2 < infiniteCost → entry p.node p.destNodeID < h.2
  hops : p.hops.Pairwise fun later earlier => earlier.2 < infiniteCost → later.2 < earlier.2

/-- What holds of all packets. -/
structure Forwards (t : Topology Host) (s : Sys) : Prop where
  node : ∀ p ∈ s.packets ++ s.ended, p.node ∈ t.nodeIDs
  descends : ∀ p ∈ s.packets ++ s.ended, p.Descends s.entry
  ended : ∀ p ∈ s.ended, (∃ h ∈ p.hops, h.2 < infiniteCost) → p.node = p.destNodeID

section Packets
variable {T : Tables ℤ}

theorem Packet.Descends.mono {p : Packet} (h : p.Descends s.entry) {s' : Sys}
    (hle : s'.entry p.node p.destNodeID ≤ s.entry p.node p.destNodeID) : p.Descends s'.entry :=
  ⟨fun e he hlt => UInt32.lt_of_le_of_lt hle (h.here e he hlt), h.hops⟩

theorem Packet.Descends.next {p : Packet} (h : p.Descends s.entry) {w : ℤ}
    (hw : s.entry p.node p.destNodeID < infiniteCost →
      s.entry w p.destNodeID < s.entry p.node p.destNodeID) :
    Packet.Descends s.entry { p with
      node := w
      hops := (p.node, s.entry p.node p.destNodeID) :: p.hops } where
  here e he hlt := by
    rcases List.mem_cons.mp he with rfl | he
    · exact hw hlt
    · have hhere := h.here e he hlt
      exact UInt32.lt_trans (hw (UInt32.lt_trans hhere hlt)) hhere
  hops := List.pairwise_cons.mpr ⟨h.here, h.hops⟩

theorem Forwards.add_ended (h : Forwards t s) {p : Packet} (hp : p.node ∈ t.nodeIDs)
    (hdesc : p.Descends s.entry)
    (hend : (∃ e ∈ p.hops, e.2 < infiniteCost) → p.node = p.destNodeID) :
    Forwards t { s with ended := s.ended ++ [p] } := by
  have hmem : ∀ {q}, q ∈ s.packets ++ (s.ended ++ [p]) → q ∈ s.packets ++ s.ended ∨ q = p := by
    simp [or_assoc]
  constructor
  · intro q hq
    rcases hmem hq with hq | rfl
    · exact h.node q hq
    · exact hp
  · intro q hq
    rcases hmem hq with hq | rfl
    · exact h.descends q hq
    · exact hdesc
  · intro q hq
    rcases List.mem_append.mp hq with hq | hq
    · exact h.ended q hq
    · exact List.mem_singleton.mp hq ▸ hend

theorem Forwards.add_packets (h : Forwards t s) {ps : List Packet}
    (hps : ∀ p ∈ ps, p.node ∈ t.nodeIDs ∧ p.Descends s.entry) :
    Forwards t { s with packets := s.packets ++ ps } := by
  have hmem : ∀ {q}, q ∈ s.packets ++ ps ++ s.ended → q ∈ s.packets ++ s.ended ∨ q ∈ ps := by
    simp only [List.mem_append]
    tauto
  refine ⟨?_, ?_, h.ended⟩
  · intro q hq
    exact (hmem hq).elim (h.node q) fun hq => (hps q hq).1
  · intro q hq
    exact (hmem hq).elim (h.descends q) fun hq => (hps q hq).2

theorem Forwards.sendOn (ht : t.WellFormed) (hT : Represents t s T) (h : Forwards t s) {p : Packet}
    (hp : p.node ∈ t.nodeIDs) (hdesc : p.Descends s.entry) {s' : Sys}
    (hs : s.sendOn t p = some s') : Forwards t s' := by
  obtain ⟨n, hn, rfl⟩ := Option.map_eq_some_iff.mp hs
  have hsend := fun hlt => hT.overlaySendpkt_eq ht hp hn hlt
  split
  next hnone =>
    refine h.add_ended hp hdesc fun ⟨e, he, hfin⟩ => ?_
    rcases hsend (UInt32.lt_trans (hdesc.here e he hfin) hfin) with ⟨heq, _⟩ | ⟨hone, _⟩
    · exact heq
    · simp [hone] at hnone
  next nbrs hsome =>
    apply h.add_packets
    intro q hq
    obtain ⟨w, hw, rfl⟩ := List.mem_map.mp hq
    obtain ⟨c, hc⟩ := mem_overlaySendpkt ht hw
    refine ⟨Topology.link_mem (Topology.link_symm hc), hdesc.next ?_⟩
    intro hlt
    rcases hsend hlt with ⟨_, hnone⟩ | ⟨hone, _, hlt⟩
    · simp [hnone] at hw
    · rw [hone] at hw
      exact List.mem_singleton.mp hw ▸ hlt

theorem Forwards.forward (ht : t.WellFormed) (hT : Represents t s T) (h : Forwards t s) {i : ℕ}
    {s' : Sys} (hs : s.forward t i = some s') : Forwards t s' := by
  obtain ⟨p, hp, hs⟩ := Option.bind_eq_some_iff.mp hs
  have hmem : p ∈ s.packets ++ s.ended := List.mem_append_left _ (List.mem_of_getElem? hp)
  have herase : Forwards t { s with packets := s.packets.eraseIdx i } := by
    have hsub : ∀ q ∈ s.packets.eraseIdx i ++ s.ended, q ∈ s.packets ++ s.ended := fun q hq =>
      ((List.eraseIdx_sublist ..).append_right _).subset hq
    exact ⟨fun q hq => h.node q (hsub q hq), fun q hq => h.descends q (hsub q hq), h.ended⟩
  dsimp only at hs
  split at hs
  next hdest =>
    obtain rfl := Option.some.inj hs
    exact herase.add_ended (h.node p hmem) (h.descends p hmem) fun _ => hdest.symm
  next =>
    have hT' : Represents t { s with packets := s.packets.eraseIdx i } T :=
      hT.of_node_eq rfl rfl rfl
    exact herase.sendOn ht hT' (h.node p hmem) (h.descends p hmem) hs

theorem step_forwards (ht : t.WellFormed) (hT : Represents t s T) (h : Forwards t s) {a : Action}
    {s' : Sys} (hs : (machine t).step s a = some s') : Forwards t s' := by
  have hkeep : s'.packets = s.packets → s'.ended = s.ended → Forwards t s' := by
    intro hpackets hended
    constructor
    · rw [hpackets, hended]
      exact h.node
    · intro p hp
      rw [hpackets, hended] at hp
      exact (h.descends p hp).mono (hT.entry_le ht hs (h.node p hp) p.destNodeID)
    · rw [hended]
      exact h.ended
  cases a with
  | copyEntry z i =>
    obtain ⟨row, _, hs⟩ := Option.bind_eq_some_iff.mp (Option.ite_none_right_eq_some.mp hs).2
    obtain ⟨e, _, rfl⟩ := Option.map_eq_some_iff.mp hs
    exact hkeep rfl rfl
  | broadcast z =>
    obtain ⟨row, _, hs⟩ := Option.bind_eq_some_iff.mp (Option.ite_none_right_eq_some.mp hs).2
    obtain ⟨es, _, rfl⟩ := Option.map_eq_some_iff.mp hs
    exact hkeep rfl rfl
  | routeUpdate i =>
    obtain ⟨u, hu, hs⟩ := Option.bind_eq_some_iff.mp hs
    obtain ⟨r, hr, rfl⟩ := Option.map_eq_some_iff.mp hs
    exact hkeep rfl rfl
  | send x y =>
    obtain ⟨hx, hs⟩ := Option.ite_none_right_eq_some.mp hs
    exact h.sendOn ht hT hx ⟨by simp, .nil⟩ hs
  | forward i => exact h.forward ht hT hs

end Packets

theorem exists_represents_forwards (ht : t.WellFormed)
    (h : (machine t).Reachable (fun _ _ => True) s) : (∃ T, Represents t s T) ∧ Forwards t s := by
  refine ⟨exists_represents ht h, h.invariant_of (J := fun s => ∃ T, Represents t s T)
    (fun s hs => exists_represents ht hs) ?_ fun s a s' ⟨T, hT⟩ hf _ hs =>
      step_forwards ht hT hf hs⟩
  intro s hs
  constructor <;> simp [hs.packets, hs.ended]

section Hops
variable {p : Packet}

/-- The entries bound the number of hops. -/
theorem Packet.Descends.hops_lt (h : p.Descends s.entry) {i : ℕ} {e : ℤ × UInt32}
    (he : p.hops[i]? = some e) (hfin : e.2 < infiniteCost) : i < e.2.toNat := by
  have hlist : ∀ (hops : List (ℤ × UInt32)) (b i : ℕ),
      hops.Pairwise (fun later earlier => earlier.2 < infiniteCost → later.2 < earlier.2) →
      (∀ e ∈ hops, e.2 < infiniteCost → b < e.2.toNat) → hops[i]? = some e →
      b + i < e.2.toNat := by
    intro hops
    induction hops with
    | nil => simp
    | cons e₀ hops ih =>
      intro b i hpair hb hi
      obtain ⟨hhead, htail⟩ := List.pairwise_cons.mp hpair
      cases i with
      | zero =>
        obtain rfl := Option.some.inj hi
        exact hb _ (List.mem_cons_self ..) hfin
      | succ i =>
        have he₀ : e₀.2 < e.2 := hhead e (List.mem_of_getElem? hi) hfin
        have hb₀ := hb e₀ (List.mem_cons_self ..) (UInt32.lt_trans he₀ hfin)
        have hlt := ih (b + 1) i htail (fun e' he' hfin' => ?_) hi
        · omega
        · have hlt := UInt32.lt_iff_toNat_lt.mp (hhead e' he' hfin')
          omega
  have hlt := hlist p.hops 0 i h.hops
    (fun e he hfin => Nat.zero_lt_of_lt (UInt32.lt_iff_toNat_lt.mp (h.here e he hfin))) he
  omega

/-- A packet comes back to a node only if the entry of the node was lowered since. -/
theorem Packet.Descends.nodup (h : p.Descends s.entry)
    (hsame : ∀ e ∈ p.hops, e.2 < infiniteCost ∧ s.entry e.1 p.destNodeID = e.2) :
    (p.node :: p.hops.map (·.1)).Nodup := by
  rw [List.nodup_cons, List.Nodup, List.pairwise_map]
  refine ⟨?_, h.hops.imp_of_mem fun {e e'} he he' hlt heq => ?_⟩
  · intro hmem
    obtain ⟨e, he, hnode⟩ := List.mem_map.mp hmem
    obtain ⟨hfin, hentry⟩ := hsame e he
    have hlt := h.here e he hfin
    rw [← hnode, hentry] at hlt
    exact UInt32.lt_irrefl _ hlt
  · obtain ⟨_, hentry⟩ := hsame e he
    obtain ⟨hfin', hentry'⟩ := hsame e' he'
    have hlt := hlt hfin'
    rw [← hentry, ← hentry', heq] at hlt
    exact UInt32.lt_irrefl _ hlt

end Hops

/-- Next hops lead to nodes with lower entries in every state, so a packet that has left a node
with a finite entry finds its way to the destination. -/
theorem packets_descend (ht : t.WellFormed) (h : (machine t).Reachable (fun _ _ => True) s) :
    (∀ x ∈ t.nodeIDs, ∀ y, x ≠ y → s.entry x y < infiniteCost → ∃ w c, t.link x w c ∧
      (s.node x).routingtable.getnextnode y = some w ∧
      (s.entry w y).toNat + c ≤ (s.entry x y).toNat) ∧
    (∀ p ∈ s.ended, (∃ e ∈ p.hops, e.2 < infiniteCost) → p.node = p.destNodeID) ∧
    ∀ p ∈ s.packets ++ s.ended, p.Descends s.entry ∧
      (∀ (i : ℕ) (e : ℤ × UInt32), p.hops[i]? = some e → e.2 < infiniteCost → i < e.2.toNat) ∧
      ((∀ e ∈ p.hops, e.2 < infiniteCost ∧ s.entry e.1 p.destNodeID = e.2) →
        (p.node :: p.hops.map (·.1)).Nodup) := by
  obtain ⟨⟨T, hT⟩, hf⟩ := exists_represents_forwards ht h
  refine ⟨fun x hx y hxy hlt => hT.next_hop hx hxy hlt, hf.ended, ?_⟩
  intro p hp
  have hdesc := hf.descends p hp
  exact ⟨hdesc, fun i e he hfin => hdesc.hops_lt he hfin, hdesc.nodup⟩

/-- A packet from 2 to 4 takes the way through 3. -/
theorem packets_descend_triangle : ∃ s : Sys,
    (machine triangle).run (fun _ _ => True) (Sys.start triangle)
      (settle ++ [.send 2 4, .forward 0, .forward 0]) = some s ∧
    ∃ p ∈ s.ended, p.hops = [(3, 1), (2, 2)] ∧ p.node = p.destNodeID := by
  obtain ⟨s, hrun, hs, p, hp, hhops⟩ := (machine triangle).exists_of_run (fun _ _ => True)
    (start_init (by decide)) (settle ++ [.send 2 4, .forward 0, .forward 0])
    (P := fun s => ∃ p ∈ s.ended, p.hops = [(3, 1), (2, 2)]) (by decide +kernel)
  refine ⟨s, hrun, p, hp, hhops, (packets_descend triangle_wellFormed hs).2.1 p hp ?_⟩
  exact ⟨(3, 1), by simp [hhops], by decide⟩

/-- Node 2 finds a way to 4 through 3, then one through 5; node 3 then finds one through 6 and 2. -/
def detour : Topology ℕ where
  lines := [⟨3, 4, 8⟩, ⟨2, 3, 1⟩, ⟨2, 5, 1⟩, ⟨5, 4, 1⟩, ⟨6, 2, 1⟩, ⟨6, 3, 1⟩]
  gethostbyname n := some (UInt32.ofNat n)
  behindNodeIDs := 0

theorem detour_wellFormed : detour.WellFormed where
  resolved := by decide
  noSelfLink := by decide
  onePerPair := by decide
  cost := by decide
  nodes := by decide

def broadcastRow (x : ℤ) : List Action := (List.range 5).map (.copyEntry x) ++ [.broadcast x]

/-- A packet that left 2 with a finite entry is back at 2, since the tables have changed. -/
theorem packet_visits_twice : detour.WellFormed ∧ ∃ s : Sys,
    (machine detour).run (fun _ _ => True) (Sys.start detour)
      (broadcastRow 3 ++ [.routeUpdate 1, .send 2 4] ++ broadcastRow 5 ++
        [.routeUpdate 6, .routeUpdate 10, .routeUpdate 3, .routeUpdate 12, .forward 0,
          .forward 0]) = some s ∧
    (machine detour).Reachable (fun _ _ => True) s ∧
    ∃ p ∈ s.packets, (∀ e ∈ p.hops, e.2 < infiniteCost) ∧
      ¬ (p.node :: p.hops.map (·.1)).Nodup :=
  ⟨detour_wellFormed, (machine detour).exists_of_run _ (start_init (by decide)) _
    (by decide +kernel)⟩

end DartNet.Network
