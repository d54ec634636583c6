import DartNet.Network.Pkthandler

/-! What the relax loop of `pkthandler` does to the costs of the own row, for any costs in the
tables and in the packet. The sum of two costs is an `unsigned int`. -/
namespace DartNet.Network

/-- Entry `i` in the row of a node. -/
def Node.rowEntry (node : Node) (nodeID : ℤ) (i : ℕ) : Option DvEntry :=
  (getRouteUpdateData node.dv nodeID).bind (·.dvEntry[i]?)

/-- The cost of the direct link to the sender of a packet. -/
def Node.linkCost (node : Node) (packet : RouteUpdate) : UInt32 :=
  nbrcosttableGetcost node.nct packet.srcNodeID

/-- The cost in an entry of the packet, if it names the destination that the stored entry is for,
else the one advertised before. -/
def advertisedCost (e : Option DvEntry) (d : DvEntry) : UInt32 :=
  match e with
  | some e => if e.nodeID = d.nodeID then e.cost else d.cost
  | none => d.cost

/-- What the sender of a packet advertises for the destination of entry `i`. -/
def Node.advertised (node : Node) (packet : RouteUpdate) (i : ℕ) : Option UInt32 :=
  (node.rowEntry packet.srcNodeID i).map (advertisedCost packet.entry[i]?)

/-- Every entry of the own row that changed was lowered to the integer sum of the link cost and the
advertised cost, and so does not undercut the link. -/
def Node.LoweredToSum (node : Node) (packet : RouteUpdate) (node' : Node) : Prop :=
  ∀ i d d', node.rowEntry node.myNodeID i = some d → node'.rowEntry node.myNodeID i = some d' →
    d' ≠ d → ∃ a, node.advertised packet i = some a ∧ d'.nodeID = d.nodeID ∧ d'.cost < d.cost ∧
      d'.cost.toNat = (node.linkCost packet).toNat + a.toNat ∧ node.linkCost packet ≤ d'.cost

/-- The packet has a cost that the row of its sender does not have. -/
def Node.Changes (node : Node) (packet : RouteUpdate) : Prop :=
  ∃ (i : ℕ) (e r : DvEntry), packet.entry[i]? = some e ∧
    node.rowEntry packet.srcNodeID i = some r ∧ e.nodeID = r.nodeID ∧ e.cost ≠ r.cost

/-- No sum of the link cost and an advertised cost wraps around to below the own cost. -/
def Node.NoWrap (node : Node) (packet : RouteUpdate) : Prop :=
  ∀ i d a, node.rowEntry node.myNodeID i = some d → node.advertised packet i = some a →
    (node.linkCost packet).toNat + a.toNat < UInt32.size ∨
      d.cost.toNat + UInt32.size ≤ (node.linkCost packet).toNat + a.toNat

section Loops
variable {es ds own row : List DvEntry} {linkCost : UInt32}

/-- The first loop stores what is advertised. -/
theorem getElem?_updateRow (es ds : List DvEntry) (i : ℕ) : (updateRow es ds).1[i]? =
    (ds[i]?).map fun d => { d with cost := advertisedCost es[i]? d } := by
  induction es generalizing ds i with
  | nil => cases h : ds[i]? <;> simp [updateRow, advertisedCost, h]
  | cons e es ih =>
    cases ds with
    | nil => simp [updateRow]
    | cons d ds =>
      cases i with
      | zero =>
        simp only [updateRow]
        split
        next h => simp [advertisedCost, h.1]
        next h =>
          by_cases hid : e.nodeID = d.nodeID
          · have hcost : e.cost = d.cost := by
              by_contra hne
              exact h ⟨hid, hne⟩
            simp [advertisedCost, hid, hcost]
          · simp [advertisedCost, hid]
      | succ i =>
        have hi := ih ds i
        simp only [updateRow]
        split <;> simpa using hi

theorem updateRow_changes (es ds : List DvEntry) : (updateRow es ds).2 = true ↔
    ∃ (i : ℕ) (e d : DvEntry), es[i]? = some e ∧ ds[i]? = some d ∧ e.nodeID = d.nodeID ∧
      e.cost ≠ d.cost := by
  induction es generalizing ds with
  | nil => simp [updateRow]
  | cons e es ih =>
    cases ds with
    | nil => simp [updateRow]
    | cons d ds =>
      simp only [updateRow]
      split
      next h => exact iff_of_true rfl ⟨0, e, d, rfl, rfl, h⟩
      next h =>
        rw [ih]
        constructor
        · rintro ⟨i, e', d', hi⟩
          exact ⟨i + 1, e', d', by simpa using hi⟩
        · rintro ⟨i, e', d', he, hd, hne⟩
          cases i with
          | zero =>
            obtain rfl : e = e' := by simpa using he
            obtain rfl : d = d' := by simpa using hd
            exact absurd hne h
          | succ i => exact ⟨i, e', d', by simpa using he, by simpa using hd, hne⟩

/-- The own row that the second loop leaves. -/
def relaxRow (linkCost : UInt32) : List DvEntry → List DvEntry → List DvEntry
  | d :: own, r :: row => relaxEntry linkCost d r :: relaxRow linkCost own row
  | own, _ => own

theorem relaxLoop_own {srcNodeID : ℤ} {done : List DvEntry} {rt : Routingtable} {r : Relaxed}
    (h : relaxLoop srcNodeID linkCost done own row rt = some r) :
    r.own = done ++ relaxRow linkCost own row := by
  induction own generalizing row done rt r with
  | nil =>
    obtain rfl := Option.some.inj h
    rfl
  | cons d own ih =>
    cases row with
    | nil =>
      obtain rfl := Option.some.inj h
      rfl
    | cons e row =>
      simp only [relaxLoop] at h
      split at h
      next hlt =>
        obtain ⟨hmin, hlt⟩ := minCost_lt hlt
        obtain ⟨rt', _, h⟩ := Option.bind_eq_some_iff.mp h
        obtain ⟨relaxed, hrelaxed, rfl⟩ := Option.map_eq_some_iff.mp h
        show relaxed.own = _
        rw [ih hrelaxed, relaxRow, relaxEntry, if_pos hlt, hmin, List.append_assoc,
          List.singleton_append]
      next hge =>
        rw [ih h, relaxRow, relaxEntry, if_neg (minCost_not_lt hge), List.append_assoc,
          List.singleton_append]

theorem getElem?_relaxRow (own row : List DvEntry) (i : ℕ) : (relaxRow linkCost own row)[i]? =
    (own[i]?).map fun d => (row[i]?).elim d (relaxEntry linkCost d) := by
  induction own generalizing row i with
  | nil => rfl
  | cons d own ih =>
    cases row with
    | nil => cases h : (d :: own)[i]? <;> simp [relaxRow, h]
    | cons r row =>
      cases i with
      | zero => rfl
      | succ i => simpa [relaxRow] using ih row i

end Loops

namespace Node
variable {node : Node} {packet : RouteUpdate} {r : Node × List RouteUpdate}

theorem changes_iff {row : Dv} (hrow : getRouteUpdateData node.dv packet.srcNodeID = some row) :
    node.Changes packet ↔ (updateRow packet.entry row.dvEntry).2 = true := by
  simp only [Changes, rowEntry, hrow, Option.bind_some, updateRow_changes]

/-- A packet without a new cost leaves the own row as it is. -/
theorem rowEntry_same (hsrc : packet.srcNodeID ≠ node.myNodeID) (hsame : ¬ node.Changes packet)
    (h : node.pkthandler packet = some r) (i : ℕ) :
    r.1.rowEntry node.myNodeID i = node.rowEntry node.myNodeID i := by
  obtain ⟨row, hrow, h⟩ := Option.bind_eq_some_iff.mp h
  rw [changes_iff hrow] at hsame
  simp only [if_neg hsame] at h
  obtain rfl := Option.some.inj h
  simp only [rowEntry, getRouteUpdateData_setRow, if_neg hsrc.symm]

/-- Any other packet relaxes each entry with the cost advertised for it. -/
theorem rowEntry_relaxed (hsrc : packet.srcNodeID ≠ node.myNodeID) (hnew : node.Changes packet)
    (h : node.pkthandler packet = some r) (i : ℕ) :
    r.1.rowEntry node.myNodeID i = (node.rowEntry node.myNodeID i).map fun d =>
      (node.advertised packet i).elim d fun a =>
        relaxEntry (node.linkCost packet) d ⟨d.nodeID, a⟩ := by
  obtain ⟨row, hrow, h⟩ := Option.bind_eq_some_iff.mp h
  rw [changes_iff hrow] at hnew
  simp only [if_pos hnew] at h
  obtain ⟨myDV, hmyDV, h⟩ := Option.bind_eq_some_iff.mp h
  obtain ⟨relaxed, hrelaxed, rfl⟩ := Option.map_eq_some_iff.mp h
  have hown : getRouteUpdateData node.dv node.myNodeID = some myDV := by
    rwa [getRouteUpdateData_setRow, if_neg hsrc.symm] at hmyDV
  simp only [rowEntry, advertised, linkCost, getRouteUpdateData_setRow, if_neg hsrc.symm, if_true,
    hown, hrow, Option.map_some, Option.bind_some, relaxLoop_own hrelaxed, List.nil_append,
    getElem?_relaxRow, getElem?_updateRow]
  congr 1
  funext d
  cases row.dvEntry[i]? <;> rfl

/-- The entries that such a packet changes, and to what. -/
theorem changed_iff (hsrc : packet.srcNodeID ≠ node.myNodeID) (hnew : node.Changes packet)
    (h : node.pkthandler packet = some r) {i : ℕ} {d d' : DvEntry}
    (hd : node.rowEntry node.myNodeID i = some d) :
    r.1.rowEntry node.myNodeID i = some d' ∧ d' ≠ d ↔ ∃ a, node.advertised packet i = some a ∧
      node.linkCost packet + a < d.cost ∧ d' = { d with cost := node.linkCost packet + a } := by
  rw [rowEntry_relaxed hsrc hnew h, hd, Option.map_some, Option.some_inj]
  cases ha : node.advertised packet i with
  | none => simp [eq_comm]
  | some a =>
    simp only [Option.elim_some, relaxEntry, Option.some_inj, exists_eq_left']
    split
    next hlt =>
      have hne : { d with cost := node.linkCost packet + a } ≠ d := by
        intro heq
        rw [show node.linkCost packet + a = d.cost from congrArg (·.cost) heq] at hlt
        exact UInt32.lt_irrefl _ hlt
      constructor
      · rintro ⟨rfl, _⟩
        exact ⟨hlt, rfl⟩
      · rintro ⟨_, rfl⟩
        exact ⟨rfl, hne⟩
    next hge => simp [hge, eq_comm]

/-- An `unsigned int` sum that is below a cost is the integer sum exactly if this does not wrap
around, or wraps around to the cost at least. -/
theorem toNat_add_of_lt_iff (a b c : UInt32) :
    (a + b < c → (a + b).toNat = a.toNat + b.toNat) ↔
      a.toNat + b.toNat < UInt32.size ∨ c.toNat + UInt32.size ≤ a.toNat + b.toNat := by
  have ha := a.toNat_lt_size
  have hb := b.toNat_lt_size
  rw [UInt32.lt_iff_toNat_lt, UInt32.toNat_add]
  simp only [UInt32.size] at *
  omega

/-- After a packet from another node, every changed entry of the own row is the integer sum exactly
if the packet has nothing new or no sum wraps around to below the own cost. -/
theorem lowered_to_sum_iff (hsrc : packet.srcNodeID ≠ node.myNodeID)
    (h : node.pkthandler packet = some r) :
    node.LoweredToSum packet r.1 ↔ (node.Changes packet → node.NoWrap packet) := by
  constructor
  · intro hlowered hnew i d a hd ha
    rw [← toNat_add_of_lt_iff]
    intro hlt
    obtain ⟨hd', hne⟩ := (changed_iff hsrc hnew h hd).mpr ⟨a, ha, hlt, rfl⟩
    obtain ⟨a', ha', _, _, hcost, _⟩ := hlowered i d _ hd hd' hne
    obtain rfl : a = a' := Option.some.inj (ha.symm.trans ha')
    exact hcost
  · intro hnowrap i d d' hd hd' hne
    by_cases hnew : node.Changes packet
    · obtain ⟨a, ha, hlt, rfl⟩ := (changed_iff hsrc hnew h hd).mp ⟨hd', hne⟩
      have hcost := (toNat_add_of_lt_iff _ a _).mpr (hnowrap hnew i d a hd ha) hlt
      refine ⟨a, ha, rfl, hlt, hcost, ?_⟩
      rw [UInt32.le_iff_toNat_le, hcost]
      exact Nat.le_add_right _ _
    · rw [rowEntry_same hsrc hnew h, hd] at hd'
      exact absurd (Option.some.inj hd').symm hne

/-- Node 1 in front of node 2, over a link of cost 1. -/
def beforeTwo : Node where
  myNodeID := 1
  dv := [⟨1, [⟨1, 0⟩, ⟨2, 1⟩, ⟨3, 999⟩]⟩, ⟨2, [⟨1, 999⟩, ⟨2, 999⟩, ⟨3, 999⟩]⟩]
  nct := [⟨2, 1⟩]
  routingtable := ⟨fun _ => []⟩

/-- A route update from node 2 with a cost for node 3. -/
def fromTwo (cost : UInt32) : RouteUpdate := ⟨2, [⟨1, 1⟩, ⟨2, 0⟩, ⟨3, cost⟩]⟩

theorem lowered_to_sum_seven : (fromTwo 7).srcNodeID ≠ beforeTwo.myNodeID ∧
    ∃ r, beforeTwo.pkthandler (fromTwo 7) = some r ∧ r.1.rowEntry 1 2 = some ⟨3, 8⟩ ∧
      beforeTwo.LoweredToSum (fromTwo 7) r.1 := by
  refine ⟨by decide, _, rfl, rfl, ?_⟩
  apply (lowered_to_sum_iff (by decide) rfl).mpr
  intro _ i d a hd ha
  rcases i with _ | _ | _ | i
  · obtain rfl := Option.some.inj ha
    exact .inl (by decide)
  · obtain rfl := Option.some.inj ha
    exact .inl (by decide)
  · obtain rfl := Option.some.inj ha
    exact .inl (by decide)
  · contradiction

/-- The cost -1 that `topology_getCost` returns on error gives a route of cost 0. -/
theorem error_cost_wraps : 1 ≤ beforeTwo.linkCost (fromTwo 4294967295) ∧
    ∃ r, beforeTwo.pkthandler (fromTwo 4294967295) = some r ∧
      r.1.rowEntry 1 2 = some ⟨3, 0⟩ ∧ r.1.routingtable.getnextnode 3 = some 2 ∧
      ¬ beforeTwo.LoweredToSum (fromTwo 4294967295) r.1 := by
  refine ⟨by decide, _, rfl, rfl, rfl, ?_⟩
  intro h
  obtain ⟨a, _, _, _, _, hle⟩ := h 2 ⟨3, 999⟩ ⟨3, 0⟩ rfl rfl (by decide)
  exact absurd hle (by decide)

end Node
end DartNet.Network
