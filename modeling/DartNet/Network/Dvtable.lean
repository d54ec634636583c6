import DartNet.Network.Topology

/-! The distance vector table of `network/dvtable.c` and the neighbor cost table of
`network/nbrcosttable.c`. -/
namespace DartNet.Network

/-- `dv_entry_t`, and `routeupdate_entry_t`, which has the same fields. -/
structure DvEntry where
  nodeID : ℤ
  cost : UInt32
  deriving DecidableEq

/-- `dv_t` -/
structure Dv where
  nodeID : ℤ
  dvEntry : List DvEntry
  deriving DecidableEq

/-- `nbr_cost_entry_t` -/
structure NbrCostEntry where
  nodeID : ℤ
  cost : UInt32
  deriving DecidableEq

section Tables
variable {Host : Type} (t : Topology Host)

/-- The own row first, then those of the neighbours. -/
def dvtableCreate (myNodeID : ℤ) : Option (List Dv) :=
  (t.nbrsRead myNodeID).bind fun nbrArray =>
    t.nodesRead.map fun nodeArray =>
      ⟨myNodeID, nodeArray.map fun y => ⟨y, t.getCost myNodeID y⟩⟩ ::
        nbrArray.map fun w => ⟨w, nodeArray.map fun y => ⟨y, infiniteCost⟩⟩

/-- `getNbrCostTable`, which scans the lines as `topology_getNbrArray` does. The null pointer that
it returns without neighbours is the table of none, which `nbrcosttable_getcost` does not read. -/
def nbrcosttableCreate (myNodeID : ℤ) : Option (List NbrCostEntry) :=
  match t.getNbrNum myNodeID with
  | none => none
  | some numNodes =>
    let nodeIDs := t.lines.flatMap (t.nbrsOfLine myNodeID)
    if numNodes < nodeIDs.length then none
    else some ((nodeIDs.map fun h => ⟨h, t.getCost myNodeID h⟩) ++
      List.replicate (numNodes - nodeIDs.length) ⟨-1, 0⟩)

end Tables

def nbrcosttableGetcost (nct : List NbrCostEntry) (nodeID : ℤ) : UInt32 :=
  ((nct.find? (·.nodeID = nodeID)).map (·.cost)).getD infiniteCost

/-- The row of a source node, `none` for the null pointer. -/
def getRouteUpdateData (dvtable : List Dv) (srcNodeID : ℤ) : Option Dv :=
  dvtable.find? (·.nodeID = srcNodeID)

/-- Write through the pointer that `getRouteUpdateData` returned. -/
def setRow (srcNodeID : ℤ) (dvEntry : List DvEntry) : List Dv → List Dv
  | [] => []
  | row :: rows =>
    if row.nodeID = srcNodeID then { row with dvEntry } :: rows
    else row :: setRow srcNodeID dvEntry rows

/-- A row without the destination is passed over. -/
def dvtableGetcost (fromNodeID toNodeID : ℤ) : List Dv → UInt32
  | [] => infiniteCost
  | row :: rows =>
    if row.nodeID = fromNodeID then
      match row.dvEntry.find? (·.nodeID = toNodeID) with
      | some e => e.cost
      | none => dvtableGetcost fromNodeID toNodeID rows
    else dvtableGetcost fromNodeID toNodeID rows

/-- The cost in a row. -/
def costIn (es : List DvEntry) (y : ℤ) : UInt32 :=
  ((es.find? (·.nodeID = y)).map (·.cost)).getD infiniteCost

theorem costIn_cons (e : DvEntry) (es : List DvEntry) (y : ℤ) :
    costIn (e :: es) y = if e.nodeID = y then e.cost else costIn es y := by
  unfold costIn
  rw [List.find?_cons]
  split <;> simp_all

theorem exists_mem_costIn {es : List DvEntry} {y : ℤ} (hy : y ∈ es.map (·.nodeID)) :
    ∃ e ∈ es, e.nodeID = y ∧ costIn es y = e.cost := by
  induction es with
  | nil => simp at hy
  | cons e es ih =>
    rw [costIn_cons]
    split
    next he => exact ⟨e, List.mem_cons_self .., he, rfl⟩
    next he =>
      have hy : y ∈ es.map (·.nodeID) := by simpa [Ne.symm he] using hy
      obtain ⟨e', he', h⟩ := ih hy
      exact ⟨e', List.mem_cons_of_mem _ he', h⟩

theorem costIn_of_mem {es : List DvEntry} (hnodup : (es.map (·.nodeID)).Nodup) {e : DvEntry}
    (he : e ∈ es) : costIn es e.nodeID = e.cost := by
  induction es with
  | nil => simp at he
  | cons e' es ih =>
    rw [List.map_cons, List.nodup_cons] at hnodup
    rw [costIn_cons]
    rcases List.mem_cons.mp he with rfl | he
    · rw [if_pos rfl]
    · have hne : e'.nodeID ≠ e.nodeID := fun h =>
        hnodup.1 (h ▸ List.mem_map_of_mem he)
      rw [if_neg hne]
      exact ih hnodup.2 he

theorem costIn_map (nodes : List ℤ) (f : ℤ → UInt32) {y : ℤ} (hy : y ∈ nodes) :
    costIn (nodes.map fun z => ⟨z, f z⟩) y = f y := by
  induction nodes with
  | nil => simp at hy
  | cons z zs ih =>
    rw [List.map_cons, costIn_cons]
    split
    next h => rw [← h]
    next h => exact ih (by simpa [Ne.symm h] using hy)

theorem nbrcosttableGetcost_create {Host : Type} {t : Topology Host} {x w : ℤ} {c : ℕ}
    {nct : List NbrCostEntry} (h : nbrcosttableCreate t x = some nct) (hw : t.link x w c) :
    nbrcosttableGetcost nct w = t.getCost x w := by
  have hmap : ∀ (nbrs : List ℤ) pad, w ∈ nbrs → nbrcosttableGetcost
      ((nbrs.map fun h => ⟨h, t.getCost x h⟩) ++ pad) w = t.getCost x w := by
    intro nbrs pad hmem
    induction nbrs with
    | nil => simp at hmem
    | cons h hs ih =>
      by_cases hhw : h = w
      · simp [nbrcosttableGetcost, hhw]
      · have hmem : w ∈ hs := by simpa [Ne.symm hhw] using hmem
        simpa [nbrcosttableGetcost, hhw] using ih hmem
  unfold nbrcosttableCreate at h
  split at h
  next => contradiction
  next =>
    simp only at h
    split at h
    next => contradiction
    next =>
      obtain rfl := Option.some.inj h
      exact hmap _ _ (Topology.mem_flatMap_nbrsOfLine.mpr ⟨c, hw⟩)

theorem exists_nbrcosttableCreate {Host : Type} {t : Topology Host}
    (hres : ∀ l ∈ t.lines, t.resolves l) {x : ℤ} (hboth : ∀ l ∈ t.lines,
      ¬ (t.getNodeIDfromname l.host1 = x ∧ t.getNodeIDfromname l.host2 = x)) :
    ∃ nct, nbrcosttableCreate t x = some nct := by
  have hlen := Topology.length_nbrs_of_not_both hboth
  rw [nbrcosttableCreate, Topology.getNbrNum, if_pos hres]
  exact ⟨_, if_neg hlen.not_gt⟩

/-- Every row has an entry for each of the nodes. -/
def Complete (nodes : List ℤ) (dv : List Dv) : Prop :=
  ∀ row ∈ dv, row.dvEntry.map (·.nodeID) = nodes

theorem Complete.row {nodes : List ℤ} {dv : List Dv} (hdv : Complete nodes dv) {x : ℤ} {row : Dv}
    (h : getRouteUpdateData dv x = some row) : row.dvEntry.map (·.nodeID) = nodes :=
  hdv row (List.mem_of_find?_eq_some h)

theorem dvtableGetcost_eq {nodes : List ℤ} {dv : List Dv} (hdv : Complete nodes dv) {x y : ℤ}
    (hy : y ∈ nodes) {row : Dv} (h : getRouteUpdateData dv x = some row) :
    dvtableGetcost x y dv = costIn row.dvEntry y := by
  induction dv with
  | nil => simp [getRouteUpdateData] at h
  | cons row' rows ih =>
    rw [getRouteUpdateData, List.find?_cons] at h
    rw [dvtableGetcost]
    split at h
    next hx =>
      obtain rfl := Option.some.inj h
      rw [if_pos (by simpa using hx)]
      have hmem : y ∈ row'.dvEntry.map (·.nodeID) := hdv row' (List.mem_cons_self ..) ▸ hy
      cases hfind : row'.dvEntry.find? (·.nodeID = y) with
      | none =>
        obtain ⟨e, he, hey⟩ := List.mem_map.mp hmem
        exact absurd hey (by simpa using List.find?_eq_none.mp hfind e he)
      | some e => simp [costIn, hfind]
    next hx =>
      rw [if_neg (by simpa using hx)]
      exact ih (fun row hrow => hdv row (List.mem_cons_of_mem _ hrow)) h

theorem getRouteUpdateData_setRow (w x : ℤ) (es : List DvEntry) (dv : List Dv) :
    getRouteUpdateData (setRow w es dv) x =
      if x = w then (getRouteUpdateData dv w).map fun row => { row with dvEntry := es }
      else getRouteUpdateData dv x := by
  induction dv with
  | nil => simp [setRow, getRouteUpdateData]
  | cons row rows ih =>
    simp only [setRow]
    split
    next hw =>
      by_cases hx : x = w
      · simp [getRouteUpdateData, hw, hx]
      · simp [getRouteUpdateData, hw, hx, Ne.symm hx]
    next hw =>
      simp only [getRouteUpdateData] at ih ⊢
      by_cases hr : row.nodeID = x
      · simp [hr, show x ≠ w from fun h => hw (hr.trans h)]
      · by_cases hx : x = w
        · subst hx
          simpa [hw] using ih
        · simpa [hr, hx] using ih

/-- Writing a row back changes nothing. -/
theorem setRow_dvEntry {dv : List Dv} {w : ℤ} {row : Dv} (h : getRouteUpdateData dv w = some row) :
    setRow w row.dvEntry dv = dv := by
  induction dv with
  | nil => rfl
  | cons r rows ih =>
    rw [getRouteUpdateData, List.find?_cons] at h
    rw [setRow]
    split at h
    next hw =>
      obtain rfl := Option.some.inj h
      rw [if_pos (by simpa using hw)]
    next hw => rw [if_neg (by simpa using hw), ih h]

theorem Complete.setRow {nodes : List ℤ} {dv : List Dv} (hdv : Complete nodes dv) {w : ℤ}
    {es : List DvEntry} (hes : es.map (·.nodeID) = nodes) : Complete nodes (setRow w es dv) := by
  induction dv with
  | nil => exact hdv
  | cons row rows ih =>
    obtain ⟨hrow, hrows⟩ := List.forall_mem_cons.mp hdv
    simp only [Network.setRow]
    split
    next => exact List.forall_mem_cons.mpr ⟨hes, hrows⟩
    next => exact List.forall_mem_cons.mpr ⟨hrow, ih hrows⟩

end DartNet.Network
