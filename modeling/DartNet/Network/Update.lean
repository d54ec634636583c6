import DartNet.Network.Pkthandler

/-! The tables of a node, as `main` sets them up and as a route update from a neighbour leaves
them. -/
namespace DartNet.Network
variable {Host : Type} {t : Topology Host}

/-- The tables of node `x` have the rows and the link costs they need. -/
structure Node.Ok (t : Topology Host) (x : ℤ) (node : Node) : Prop where
  myNodeID : node.myNodeID = x
  complete : Complete t.nodeIDs node.dv
  own : ∃ row, getRouteUpdateData node.dv x = some row
  nbr : ∀ w c, t.link x w c → ∃ row, getRouteUpdateData node.dv w = some row
  nct : ∀ w c, t.link x w c → (nbrcosttableGetcost node.nct w).toNat = c

/-- The tables before the first route update. -/
structure Starts (t : Topology Host) (x : ℤ) (node : Node) : Prop where
  ok : node.Ok t x
  own : ∀ y ∈ t.nodeIDs, dvtableGetcost x y node.dv = t.getCost x y
  stored : ∀ w c, t.link x w c → ∀ y ∈ t.nodeIDs, dvtableGetcost w y node.dv = infiniteCost
  next : ∀ w c, t.link x w c → node.routingtable.getnextnode w = some w
  self : node.routingtable.getnextnode x = some (-1)

/-- The row of a neighbour in a fresh table. -/
theorem find?_infinite_row {nbrs nodes : List ℤ} {w : ℤ} (hw : w ∈ nbrs) :
    (nbrs.map fun w => (⟨w, nodes.map fun y => ⟨y, infiniteCost⟩⟩ : Dv)).find? (·.nodeID = w) =
      some ⟨w, nodes.map fun y => ⟨y, infiniteCost⟩⟩ := by
  induction nbrs with
  | nil => simp at hw
  | cons v vs ih =>
    by_cases hv : v = w
    · simp [hv]
    · have hw : w ∈ vs := by simpa [Ne.symm hv] using hw
      simpa [hv] using ih hw

/-- The rows that `dvtable_create` sets up. -/
def freshDv (t : Topology Host) (x : ℤ) (nbrs : List ℤ) : List Dv :=
  ⟨x, t.nodeIDs.map fun y => ⟨y, t.getCost x y⟩⟩ ::
    nbrs.map fun w => ⟨w, t.nodeIDs.map fun y => ⟨y, infiniteCost⟩⟩

theorem freshDv_complete (x : ℤ) (nbrs : List ℤ) : Complete t.nodeIDs (freshDv t x nbrs) := by
  have hids : ∀ f : ℤ → UInt32, (t.nodeIDs.map fun y => (⟨y, f y⟩ : DvEntry)).map (·.nodeID) =
      t.nodeIDs := fun f => by simp [Function.comp_def]
  refine List.forall_mem_cons.mpr ⟨hids _, ?_⟩
  intro row hrow
  obtain ⟨w, _, rfl⟩ := List.mem_map.mp hrow
  exact hids _

theorem freshDv_own (x : ℤ) (nbrs : List ℤ) : getRouteUpdateData (freshDv t x nbrs) x =
    some ⟨x, t.nodeIDs.map fun y => ⟨y, t.getCost x y⟩⟩ := by
  simp [freshDv, getRouteUpdateData]

theorem freshDv_nbr {x w : ℤ} {nbrs : List ℤ} (hw : w ∈ nbrs) (hxw : x ≠ w) :
    getRouteUpdateData (freshDv t x nbrs) w =
      some ⟨w, t.nodeIDs.map fun y => ⟨y, infiniteCost⟩⟩ := by
  rw [freshDv, getRouteUpdateData, List.find?_cons]
  simpa [hxw] using find?_infinite_row hw

/-- What `main` has set up, where that is defined. -/
theorem Node.create_cases {x : ℤ} {node : Node} (h : Node.create t x = some node) :
    (∀ l ∈ t.lines, t.resolves l) ∧ ∃ nct rt, nbrcosttableCreate t x = some nct ∧
      Routingtable.create (t.lines.flatMap (t.nbrsOfLine x)) = some rt ∧
      node = ⟨x, freshDv t x (t.lines.flatMap (t.nbrsOfLine x)), nct, rt⟩ := by
  obtain ⟨dv, hdv, h⟩ := Option.bind_eq_some_iff.mp h
  obtain ⟨nct, hnct, h⟩ := Option.bind_eq_some_iff.mp h
  obtain ⟨rt, hrt, rfl⟩ := Option.map_eq_some_iff.mp h
  obtain ⟨nbrs, hnbrs, hrt⟩ := Option.bind_eq_some_iff.mp hrt
  rw [dvtableCreate, hnbrs, Option.bind_some] at hdv
  obtain ⟨nodes, hnodes, rfl⟩ := Option.map_eq_some_iff.mp hdv
  obtain ⟨_, hres, _, rfl⟩ := Topology.nbrsRead_eq_some_iff.mp hnbrs
  obtain ⟨_, _, rfl⟩ := Topology.nodesRead_eq_some_iff.mp hnodes
  exact ⟨hres, nct, rt, hnct, hrt, rfl⟩

/-- The tables can be set up where the loops stay inside the arrays. -/
theorem Node.isSome_create_iff {x : ℤ} : (Node.create t x).isSome ↔
    0 ≤ x ∧ (∀ l ∈ t.lines, t.resolves l) ∧ (∀ l ∈ t.lines,
      ¬ (t.getNodeIDfromname l.host1 = x ∧ t.getNodeIDfromname l.host2 = x)) ∧
        (t.nodeIDs.length < maxNodeNum ∨
          t.nodeIDs.length = maxNodeNum ∧ t.behindNodeIDs = -1) := by
  constructor
  · intro h
    obtain ⟨node, h⟩ := Option.isSome_iff_exists.mp h
    obtain ⟨dv, hdv, _⟩ := Option.bind_eq_some_iff.mp h
    obtain ⟨nbrs, hnbrs, hdv⟩ := Option.bind_eq_some_iff.mp hdv
    obtain ⟨nodes, hnodes, _⟩ := Option.map_eq_some_iff.mp hdv
    obtain ⟨hx, hres, hboth, _⟩ := Topology.nbrsRead_eq_some_iff.mp hnbrs
    exact ⟨hx, hres, hboth, (Topology.nodesRead_eq_some_iff.mp hnodes).2.1⟩
  · rintro ⟨hx, hres, hboth, hroom⟩
    have hnbrs := Topology.nbrsRead_eq_some_iff.mpr ⟨hx, hres, hboth, rfl⟩
    have hnodes := Topology.nodesRead_eq_some_iff.mpr ⟨hres, hroom, rfl⟩
    obtain ⟨nct, hnct⟩ := exists_nbrcosttableCreate hres hboth
    have hpos : ∀ w ∈ t.lines.flatMap (t.nbrsOfLine x), 0 ≤ w := by
      intro w hw
      obtain ⟨c, hlink⟩ := Topology.mem_flatMap_nbrsOfLine.mp hw
      exact Topology.nodeID_nonneg hres (Topology.link_mem (Topology.link_symm hlink))
    obtain ⟨rt, hrt⟩ := Routingtable.exists_create hpos
    simp [Node.create, dvtableCreate, hnbrs, hnodes, hnct, hrt]

/-- Whatever the word behind the array of the nodes, the tables can be set up. -/
theorem Node.create_behind_iff {x : ℤ} :
    (∀ word, (Node.create (t.behind word) x).isSome) ↔ t.StartsAt x := by
  constructor
  · intro h
    obtain ⟨hx, hres, hboth, hroom⟩ := Node.isSome_create_iff.mp (h 0)
    have hword : (t.behind 0).behindNodeIDs ≠ -1 := show (0 : ℤ) ≠ -1 by decide
    exact ⟨hx, hres, hboth, hroom.resolve_right fun h => hword h.2⟩
  · rintro ⟨hx, hres, hboth, hroom⟩ word
    exact Node.isSome_create_iff.mpr ⟨hx, hres, hboth, .inl hroom⟩

theorem Node.create_starts (ht : t.WellFormed) {x : ℤ} (hx : x ∈ t.nodeIDs) {node : Node}
    (h : Node.create t x = some node) : Starts t x node := by
  obtain ⟨hres, nct, rt, hnct, hrt, rfl⟩ := Node.create_cases h
  set nbrs := t.lines.flatMap (t.nbrsOfLine x) with hnbrs
  have hmem : ∀ {w c}, t.link x w c → w ∈ nbrs := fun hw =>
    Topology.mem_flatMap_nbrsOfLine.mpr ⟨_, hw⟩
  have hcomplete := freshDv_complete (t := t) x nbrs
  have hown := freshDv_own (t := t) x nbrs
  have hnbr : ∀ w c, t.link x w c → getRouteUpdateData (freshDv t x nbrs) w =
      some ⟨w, t.nodeIDs.map fun y => ⟨y, infiniteCost⟩⟩ :=
    fun w c hw => freshDv_nbr (hmem hw) (Topology.link_ne ht hw)
  refine ⟨⟨rfl, hcomplete, ⟨_, hown⟩, fun w c hw => ⟨_, hnbr w c hw⟩, ?_⟩, ?_, ?_, ?_, ?_⟩
  · intro w c hw
    rw [nbrcosttableGetcost_create hnct hw, Topology.getCost_of_link ht hw]
  · intro y hy
    rw [dvtableGetcost_eq hcomplete hy hown, costIn_map _ _ hy]
  · intro w c hw y hy
    rw [dvtableGetcost_eq hcomplete hy (hnbr w c hw), costIn_map _ (fun _ => infiniteCost) hy]
  · intro w c hw
    have hw₀ := Topology.nodeID_nonneg hres (Topology.link_mem (Topology.link_symm hw))
    rw [Routingtable.getnextnode_create hrt hw₀, if_pos (hmem hw)]
  · have hself : x ∉ nbrs := by
      intro hmem
      obtain ⟨c, hc⟩ := Topology.mem_flatMap_nbrsOfLine.mp hmem
      exact Topology.link_ne ht hc rfl
    rw [Routingtable.getnextnode_create hrt (Topology.nodeID_nonneg hres hx), if_neg hself]

theorem getcost_setRow_self {nodes : List ℤ} {dv : List Dv} (hdv : Complete nodes dv) {w : ℤ}
    {row : Dv} (hrow : getRouteUpdateData dv w = some row) {es : List DvEntry}
    (hes : es.map (·.nodeID) = nodes) {y : ℤ} (hy : y ∈ nodes) :
    dvtableGetcost w y (setRow w es dv) = costIn es y := by
  have h : getRouteUpdateData (setRow w es dv) w = some { row with dvEntry := es } := by
    rw [getRouteUpdateData_setRow, if_pos rfl, hrow, Option.map_some]
  exact dvtableGetcost_eq (hdv.setRow hes) hy h

theorem getcost_setRow_ne {nodes : List ℤ} {dv : List Dv} (hdv : Complete nodes dv) {v w : ℤ}
    (hvw : v ≠ w) {row : Dv} (hrow : getRouteUpdateData dv v = some row) {es : List DvEntry}
    (hes : es.map (·.nodeID) = nodes) {y : ℤ} (hy : y ∈ nodes) :
    dvtableGetcost v y (setRow w es dv) = dvtableGetcost v y dv := by
  have h : getRouteUpdateData (setRow w es dv) v = some row := by
    rw [getRouteUpdateData_setRow, if_neg hvw, hrow]
  rw [dvtableGetcost_eq (hdv.setRow hes) hy h, dvtableGetcost_eq hdv hy hrow]

/-- The rows of a table, whatever the topology: each with an entry for each of the nodes. -/
structure Node.Tables (nodes : List ℤ) (node : Node) : Prop where
  nodup : nodes.Nodup
  nonneg : ∀ y ∈ nodes, 0 ≤ y
  complete : Complete nodes node.dv
  own : ∃ row, getRouteUpdateData node.dv node.myNodeID = some row

/-- What a route update from `w` does to the tables. -/
structure Heard (nodes : List ℤ) (w : ℤ) (node : Node) (entry : List DvEntry) (node' : Node)
    (out : List RouteUpdate) : Prop where
  myNodeID : node'.myNodeID = node.myNodeID
  nct : node'.nct = node.nct
  tables : node'.Tables nodes
  row : ∀ v row, getRouteUpdateData node.dv v = some row →
    ∃ row', getRouteUpdateData node'.dv v = some row'
  own : ∀ y ∈ nodes, dvtableGetcost node.myNodeID y node'.dv =
    if nbrcosttableGetcost node.nct w + costIn entry y < dvtableGetcost node.myNodeID y node.dv
    then nbrcosttableGetcost node.nct w + costIn entry y
    else dvtableGetcost node.myNodeID y node.dv
  stored : ∀ v row, getRouteUpdateData node.dv v = some row → v ≠ node.myNodeID →
    ∀ y ∈ nodes, dvtableGetcost v y node'.dv =
      if v = w then costIn entry y else dvtableGetcost v y node.dv
  next : ∀ y ∈ nodes, node'.routingtable.getnextnode y =
    if nbrcosttableGetcost node.nct w + costIn entry y < dvtableGetcost node.myNodeID y node.dv
    then some w else node.routingtable.getnextnode y
  out : ∀ u ∈ out, u.srcNodeID = node.myNodeID ∧ u.entry.map (·.nodeID) = nodes ∧
    ∀ e ∈ u.entry, e.cost = dvtableGetcost node.myNodeID e.nodeID node.dv ∨
      e.cost = dvtableGetcost node.myNodeID e.nodeID node'.dv

section Heard
variable {nodes : List ℤ} {w : ℤ} {node : Node} {packet : RouteUpdate}

theorem getRouteUpdateData_setRow_of_some {dv : List Dv} {v w : ℤ} {row : Dv}
    (h : getRouteUpdateData dv v = some row) (es : List DvEntry) :
    ∃ row', getRouteUpdateData (setRow w es dv) v = some row' := by
  rw [getRouteUpdateData_setRow]
  split
  next hv => exact ⟨_, by rw [← hv, h, Option.map_some]⟩
  next => exact ⟨row, h⟩

theorem Node.Tables.setRow (h : node.Tables nodes) {v : ℤ} {es : List DvEntry}
    (hes : es.map (·.nodeID) = nodes) (rt : Routingtable) :
    Node.Tables nodes { node with dv := setRow v es node.dv, routingtable := rt } where
  nodup := h.nodup
  nonneg := h.nonneg
  complete := h.complete.setRow hes
  own := by
    obtain ⟨row, hrow⟩ := h.own
    exact getRouteUpdateData_setRow_of_some hrow es

/-- The row of the neighbour is replaced, the rows of the others stay. -/
theorem Node.Tables.getcost_setRow (h : node.Tables nodes)
    (hids : packet.entry.map (·.nodeID) = nodes) {v : ℤ} {row : Dv}
    (hrow : getRouteUpdateData node.dv v = some row) {y : ℤ} (hy : y ∈ nodes) :
    dvtableGetcost v y (Network.setRow w packet.entry node.dv) =
      if v = w then costIn packet.entry y else dvtableGetcost v y node.dv := by
  split
  next hv =>
    subst hv
    exact getcost_setRow_self h.complete hrow hids hy
  next hv => exact getcost_setRow_ne h.complete hv hrow hids hy

/-- A packet that repeats the stored row changes nothing. -/
theorem Node.Tables.pkthandler_same (h : node.Tables nodes) (hsrc : packet.srcNodeID = w)
    (hids : packet.entry.map (·.nodeID) = nodes) {row : Dv}
    (hrow : getRouteUpdateData node.dv w = some row)
    (hflag : (updateRow packet.entry row.dvEntry).2 = false) :
    packet.entry = row.dvEntry ∧ node.pkthandler packet = some (node, []) := by
  obtain ⟨hupdated, hsame⟩ := updateRow_eq (hids.trans (h.complete.row hrow).symm)
  refine ⟨hsame hflag, ?_⟩
  simp only [Node.pkthandler, hsrc, hrow, Option.bind_some, hupdated, hflag, Bool.false_eq_true,
    if_false]
  rw [hsame hflag, setRow_dvEntry hrow]

/-- Such a packet is heard if no entry could be lowered. -/
theorem Node.Tables.heard_same (h : node.Tables nodes) {row : Dv}
    (hrow : getRouteUpdateData node.dv w = some row) (hsame : packet.entry = row.dvEntry)
    (hrelaxed : ∀ y ∈ nodes, dvtableGetcost w y node.dv = costIn packet.entry y →
      ¬ nbrcosttableGetcost node.nct w + costIn packet.entry y <
        dvtableGetcost node.myNodeID y node.dv) :
    Heard nodes w node packet.entry node [] := by
  have hstored : ∀ y ∈ nodes, dvtableGetcost w y node.dv = costIn packet.entry y := by
    intro y hy
    rw [dvtableGetcost_eq h.complete hy hrow, hsame]
  have hge := fun y hy => hrelaxed y hy (hstored y hy)
  exact
    { myNodeID := rfl
      nct := rfl
      tables := h
      row := fun v row hv => ⟨row, hv⟩
      own := fun y hy => by rw [if_neg (hge y hy)]
      stored := by
        intro v row hv _ y hy
        split
        next hvw => rw [hvw, hstored y hy]
        next => rfl
      next := fun y hy => by rw [if_neg (hge y hy)]
      out := by simp }

/-- A packet that changes the stored row is followed by the second loop. -/
theorem Node.Tables.heard_relaxed (h : node.Tables nodes)
    (hids : packet.entry.map (·.nodeID) = nodes) {own : Dv}
    (hown : getRouteUpdateData node.dv node.myNodeID = some own) (hxw : node.myNodeID ≠ w)
    {r : Relaxed}
    (hr : Relaxes w (nbrcosttableGetcost node.nct w) [] own.dvEntry packet.entry
      node.routingtable r) :
    Heard nodes w node packet.entry
      { node with
        dv := Network.setRow node.myNodeID r.own (Network.setRow w packet.entry node.dv)
        routingtable := r.routingtable }
      (r.broadcasts.map fun es => ⟨node.myNodeID, es⟩) := by
  have hownids := h.complete.row hown
  have haligned : own.dvEntry.map (·.nodeID) = packet.entry.map (·.nodeID) := by
    rw [hownids, hids]
  have hresult : r.own = List.zipWith (relaxEntry (nbrcosttableGetcost node.nct w)) own.dvEntry
      packet.entry := hr.result
  have hresultids : r.own.map (·.nodeID) = nodes := by
    rw [hresult, map_nodeID_zipWith haligned, hownids]
  have hnodup : (own.dvEntry.map (·.nodeID)).Nodup := hownids ▸ h.nodup
  have hheard := h.setRow (v := w) hids node.routingtable
  have hownrow : getRouteUpdateData (Network.setRow w packet.entry node.dv) node.myNodeID =
      some own := by
    rw [getRouteUpdateData_setRow, if_neg hxw, hown]
  have hold : ∀ y ∈ nodes, dvtableGetcost node.myNodeID y node.dv = costIn own.dvEntry y :=
    fun y hy => dvtableGetcost_eq h.complete hy hown
  have hnew : ∀ y ∈ nodes, dvtableGetcost node.myNodeID y
      (Network.setRow node.myNodeID r.own (Network.setRow w packet.entry node.dv)) =
        costIn r.own y :=
    fun y hy => getcost_setRow_self hheard.complete hownrow hresultids hy
  refine ⟨rfl, rfl, hheard.setRow hresultids r.routingtable, ?_, ?_, ?_, ?_, ?_⟩
  · intro v row hv
    obtain ⟨row', hv'⟩ := getRouteUpdateData_setRow_of_some hv packet.entry
    exact getRouteUpdateData_setRow_of_some hv' r.own
  · intro y hy
    rw [hnew y hy, hold y hy, hresult, costIn_zipWith haligned (hownids ▸ hy)]
  · intro v row hv hvx y hy
    obtain ⟨row', hv'⟩ := getRouteUpdateData_setRow_of_some (w := w) hv packet.entry
    rw [getcost_setRow_ne hheard.complete hvx hv' hresultids hy, h.getcost_setRow hids hv hy]
  · intro y hy
    have hiff := lowers_iff (nbrcosttableGetcost node.nct w) haligned hnodup y
    rw [hownids, and_iff_right hy, ← hold y hy] at hiff
    split
    next hlt => exact hr.lowered y (hiff.mpr hlt)
    next hge => exact hr.kept y fun h' => hge (hiff.mp h')
  · intro u hu
    obtain ⟨es, hes, rfl⟩ := List.mem_map.mp hu
    obtain ⟨k, rfl⟩ := hr.broadcasts es hes
    rw [← hresult, List.nil_append]
    obtain ⟨hmap, hmem⟩ := costIn_between (hresultids.trans hownids.symm) k
    refine ⟨rfl, hmap.trans hownids, ?_⟩
    intro e he
    have hy : e.nodeID ∈ nodes := by
      rw [← hownids, ← hmap]
      exact List.mem_map_of_mem he
    rcases hmem e he with he | he
    · exact .inl (by rw [hold _ hy, costIn_of_mem hnodup he])
    · exact .inr (by rw [hnew _ hy, costIn_of_mem (hresultids ▸ h.nodup) he])

/-- A packet that changes the stored row is heard. -/
theorem Node.Tables.heard_changed (h : node.Tables nodes) (hsrc : packet.srcNodeID = w)
    (hids : packet.entry.map (·.nodeID) = nodes) {row : Dv}
    (hrow : getRouteUpdateData node.dv w = some row) (hxw : node.myNodeID ≠ w)
    (hflag : (updateRow packet.entry row.dvEntry).2 = true) :
    ∃ r, node.pkthandler packet = some r ∧ Heard nodes w node packet.entry r.1 r.2 := by
  obtain ⟨own, hown⟩ := h.own
  have hupdated := (updateRow_eq (hids.trans (h.complete.row hrow).symm)).1
  simp only [Node.pkthandler, hsrc, hrow, Option.bind_some, hflag, if_true, hupdated]
  have hownrow : getRouteUpdateData (Network.setRow w packet.entry node.dv)
      node.myNodeID = some own := by
    rw [getRouteUpdateData_setRow, if_neg hxw, hown]
  have hownids := h.complete.row hown
  have hlen : own.dvEntry.length = packet.entry.length := by
    simpa using congrArg List.length (hownids.trans hids.symm)
  have hpos : ∀ d ∈ own.dvEntry, 0 ≤ d.nodeID := fun d hd =>
    h.nonneg _ (hownids ▸ List.mem_map_of_mem hd)
  obtain ⟨res, hres, hrelaxes⟩ := relaxLoop_relaxes w
    (nbrcosttableGetcost node.nct w) hlen hpos [] node.routingtable
  rw [hownrow, Option.bind_some, hres, Option.map_some]
  exact ⟨_, rfl, h.heard_relaxed hids hown hxw hrelaxes⟩

/-- A route update with an entry for each node is heard. -/
theorem Node.Tables.heard (h : node.Tables nodes) (hsrc : packet.srcNodeID = w)
    (hids : packet.entry.map (·.nodeID) = nodes) {row : Dv}
    (hrow : getRouteUpdateData node.dv w = some row) (hxw : node.myNodeID ≠ w)
    (hrelaxed : ∀ y ∈ nodes, dvtableGetcost w y node.dv = costIn packet.entry y →
      ¬ nbrcosttableGetcost node.nct w + costIn packet.entry y <
        dvtableGetcost node.myNodeID y node.dv) :
    ∃ r, node.pkthandler packet = some r ∧ Heard nodes w node packet.entry r.1 r.2 := by
  cases hflag : (updateRow packet.entry row.dvEntry).2 with
  | true => exact h.heard_changed hsrc hids hrow hxw hflag
  | false =>
    obtain ⟨hsame, hr⟩ := h.pkthandler_same hsrc hids hrow hflag
    exact ⟨_, hr, h.heard_same hrow hsame hrelaxed⟩

end Heard

/-- What a route update from the neighbour `w` at cost `c` does to node `x`. -/
structure Hears (t : Topology Host) (x w : ℤ) (c : ℕ) (node : Node) (entry : List DvEntry)
    (node' : Node) (out : List RouteUpdate) : Prop where
  ok : node'.Ok t x
  own : ∀ y ∈ t.nodeIDs, (dvtableGetcost x y node'.dv).toNat =
    min (dvtableGetcost x y node.dv).toNat (c + (costIn entry y).toNat)
  stored : ∀ v k, t.link x v k → ∀ y ∈ t.nodeIDs, dvtableGetcost v y node'.dv =
    if v = w then costIn entry y else dvtableGetcost v y node.dv
  next : ∀ y ∈ t.nodeIDs, node'.routingtable.getnextnode y =
    if c + (costIn entry y).toNat < (dvtableGetcost x y node.dv).toNat then some w
    else node.routingtable.getnextnode y
  out : ∀ u ∈ out, u.srcNodeID = x ∧ u.entry.map (·.nodeID) = t.nodeIDs ∧ ∀ e ∈ u.entry,
    e.cost = dvtableGetcost x e.nodeID node.dv ∨ e.cost = dvtableGetcost x e.nodeID node'.dv

/-- A sum of two costs does not wrap. -/
theorem toNat_add_cost {a b : UInt32} {c : ℕ} (ha : a.toNat = c) (hc : c < infiniteCost.toNat)
    (hb : b.toNat ≤ infiniteCost.toNat) : (a + b).toNat = c + b.toNat := by
  have h999 : infiniteCost.toNat = 999 := rfl
  rw [UInt32.toNat_add, ha]
  omega

section Hears
variable {x w : ℤ} {c : ℕ} {node : Node} {packet : RouteUpdate}

/-- The comparison of the second loop, without wrapping. -/
theorem Node.Ok.offers_iff (ht : t.WellFormed) (hok : node.Ok t x) (hlink : t.link x w c)
    {a : UInt32} (ha : a.toNat ≤ infiniteCost.toNat) (b : UInt32) :
    nbrcosttableGetcost node.nct w + a < b ↔ c + a.toNat < b.toNat := by
  rw [UInt32.lt_iff_toNat_lt,
    toNat_add_cost (hok.nct w c hlink) (Topology.link_lt ht hlink) ha]

theorem Node.Ok.tables (ht : t.WellFormed) (hok : node.Ok t x) : node.Tables t.nodeIDs where
  nodup := Topology.nodup_nodeIDs
  nonneg _ hy := Topology.nodeID_nonneg ht.resolved hy
  complete := hok.complete
  own := hok.myNodeID.symm ▸ hok.own

/-- A route update from a neighbour, whatever it carries for the nodes, is heard. -/
theorem Node.Ok.hears (ht : t.WellFormed) (hok : node.Ok t x) (hlink : t.link x w c)
    (hsrc : packet.srcNodeID = w) (hids : packet.entry.map (·.nodeID) = t.nodeIDs)
    (hcap : ∀ y ∈ t.nodeIDs, (costIn packet.entry y).toNat ≤ infiniteCost.toNat)
    (hrelaxed : ∀ y ∈ t.nodeIDs, (dvtableGetcost x y node.dv).toNat ≤
      c + (dvtableGetcost w y node.dv).toNat) {r : Node × List RouteUpdate}
    (h : node.pkthandler packet = some r) : Hears t x w c node packet.entry r.1 r.2 := by
  have htables := hok.tables ht
  obtain rfl := hok.myNodeID
  have hxw := Topology.link_ne ht hlink
  obtain ⟨row, hrow⟩ := hok.nbr w c hlink
  have hsum : ∀ y ∈ t.nodeIDs, (nbrcosttableGetcost node.nct w + costIn packet.entry y).toNat =
      c + (costIn packet.entry y).toNat := fun y hy =>
    toNat_add_cost (hok.nct w c hlink) (Topology.link_lt ht hlink) (hcap y hy)
  have hoffers := fun y hy =>
    hok.offers_iff ht hlink (hcap y hy) (dvtableGetcost node.myNodeID y node.dv)
  obtain ⟨r', hr', heard⟩ := htables.heard hsrc hids hrow hxw (by
    intro y hy hsame
    rw [hoffers y hy, ← hsame]
    exact Nat.not_lt.mpr (hrelaxed y hy))
  obtain rfl : r' = r := Option.some.inj (hr'.symm.trans h)
  refine ⟨⟨heard.myNodeID, heard.tables.complete, heard.myNodeID ▸ heard.tables.own, ?_, ?_⟩,
    ?_, ?_, ?_, heard.out⟩
  · intro v k hv
    obtain ⟨row', hrow'⟩ := hok.nbr v k hv
    exact heard.row v row' hrow'
  · intro v k hv
    rw [heard.nct]
    exact hok.nct v k hv
  · intro y hy
    rw [heard.own y hy]
    split
    next hlt =>
      rw [hsum y hy]
      exact (min_eq_right ((hoffers y hy).mp hlt).le).symm
    next hge =>
      exact (min_eq_left (Nat.le_of_not_lt fun hlt => hge ((hoffers y hy).mpr hlt))).symm
  · intro v k hv y hy
    obtain ⟨row', hrow'⟩ := hok.nbr v k hv
    exact heard.stored v row' hrow' (Topology.link_ne ht hv).symm y hy
  · intro y hy
    rw [heard.next y hy]
    exact if_congr (hoffers y hy) rfl rfl

end Hears
end DartNet.Network
