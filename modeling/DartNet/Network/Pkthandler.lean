import DartNet.Network.Dvtable
import DartNet.Network.Routingtable

/-! The tables of one SNP process, and the route update branch of `pkthandler` in
`network/network.c`. -/
namespace DartNet.Network

/-- The tables of a process. -/
structure Node where
  myNodeID : ℤ
  dv : List Dv
  nct : List NbrCostEntry
  routingtable : Routingtable

/-- The tables set up by `main`. -/
def Node.create {Host : Type} (t : Topology Host) (myNodeID : ℤ) : Option Node :=
  (dvtableCreate t myNodeID).bind fun dv =>
    (nbrcosttableCreate t myNodeID).bind fun nct =>
      ((t.nbrsRead myNodeID).bind Routingtable.create).map fun routingtable =>
        ⟨myNodeID, dv, nct, routingtable⟩

/-- A `ROUTE_UPDATE` packet; `entryNum` is sent but never read. -/
structure RouteUpdate where
  srcNodeID : ℤ
  entry : List DvEntry
  deriving DecidableEq

/-- The first loop: the row after it, and `needToUpdateDV`. -/
def updateRow : List DvEntry → List DvEntry → List DvEntry × Bool
  | e :: es, d :: ds =>
    let r := updateRow es ds
    if e.nodeID = d.nodeID ∧ e.cost ≠ d.cost then ({ d with cost := e.cost } :: r.1, true)
    else (d :: r.1, r.2)
  | _, ds => (ds, false)

/-- The macro `min`. -/
def minCost (a b : UInt32) : UInt32 := if a < b then a else b

/-- The own row and the routing table after the second loop, and the rows it broadcast. -/
structure Relaxed where
  own : List DvEntry
  routingtable : Routingtable
  broadcasts : List (List DvEntry)

/-- The entry that the second loop leaves. -/
def relaxEntry (linkCost : UInt32) (d r : DvEntry) : DvEntry :=
  if linkCost + r.cost < d.cost then { d with cost := linkCost + r.cost } else d

/-- The second loop, behind the entries `done`. It broadcasts the whole row at each change. -/
def relaxLoop (srcNodeID : ℤ) (linkCost : UInt32) :
    List DvEntry → List DvEntry → List DvEntry → Routingtable → Option Relaxed
  | done, d :: own, r :: row, routingtable =>
    let newMin := minCost d.cost (linkCost + r.cost)
    if newMin < d.cost then
      (routingtable.setnextnode d.nodeID srcNodeID).bind fun routingtable =>
        (relaxLoop srcNodeID linkCost (done ++ [{ d with cost := newMin }]) own row
          routingtable).map fun relaxed =>
            { relaxed with
              broadcasts := (done ++ { d with cost := newMin } :: own) :: relaxed.broadcasts }
    else relaxLoop srcNodeID linkCost (done ++ [d]) own row routingtable
  | done, own, _, routingtable => some ⟨done ++ own, routingtable, []⟩

/-- The route update branch, with the packets broadcast. A null row is undefined. -/
def Node.pkthandler (node : Node) (packet : RouteUpdate) : Option (Node × List RouteUpdate) :=
  (getRouteUpdateData node.dv packet.srcNodeID).bind fun routeUpdateDV =>
    let updated := updateRow packet.entry routeUpdateDV.dvEntry
    let dv := setRow packet.srcNodeID updated.1 node.dv
    if updated.2 then
      (getRouteUpdateData dv node.myNodeID).bind fun myDV =>
        (relaxLoop packet.srcNodeID (nbrcosttableGetcost node.nct packet.srcNodeID) [] myDV.dvEntry
          updated.1 node.routingtable).map fun relaxed =>
            ({ node with
              dv := setRow node.myNodeID relaxed.own dv
              routingtable := relaxed.routingtable },
              relaxed.broadcasts.map fun es => ⟨node.myNodeID, es⟩)
    else some ({ node with dv }, [])

/-- A packet with an entry for each node of the row replaces the row. -/
theorem updateRow_eq {es ds : List DvEntry} (h : es.map (·.nodeID) = ds.map (·.nodeID)) :
    (updateRow es ds).1 = es ∧ ((updateRow es ds).2 = false → es = ds) := by
  induction es generalizing ds with
  | nil =>
    obtain rfl : ds = [] := by simpa using h.symm
    simp [updateRow]
  | cons e es ih =>
    cases ds with
    | nil => simp at h
    | cons d ds =>
      simp only [List.map_cons, List.cons.injEq] at h
      obtain ⟨hid, hids⟩ := h
      obtain ⟨hrow, hsame⟩ := ih hids
      simp only [updateRow]
      split
      next => exact ⟨by rw [hrow, ← hid], by simp⟩
      next hne =>
        have hed : e = d := by
          have hcost : e.cost = d.cost := by
            by_contra hcost
            exact hne ⟨hid, hcost⟩
          cases e
          cases d
          simp_all
        exact ⟨by rw [hrow, hed], fun hf => by rw [hed, hsame hf]⟩

section Relax
variable {srcNodeID : ℤ} {linkCost : UInt32}

/-- The neighbour offers something better for `y`. -/
def Lowers (linkCost : UInt32) (own row : List DvEntry) (y : ℤ) : Prop :=
  ∃ p ∈ own.zip row, p.1.nodeID = y ∧ linkCost + p.2.cost < p.1.cost

theorem lowers_cons {d r : DvEntry} {own row : List DvEntry} {y : ℤ} :
    Lowers linkCost (d :: own) (r :: row) y ↔
      (d.nodeID = y ∧ linkCost + r.cost < d.cost) ∨ Lowers linkCost own row y := by
  simp [Lowers]

/-- What the second loop does. -/
structure Relaxes (srcNodeID : ℤ) (linkCost : UInt32) (done own row : List DvEntry)
    (routingtable : Routingtable) (r : Relaxed) : Prop where
  result : r.own = done ++ List.zipWith (relaxEntry linkCost) own row
  broadcasts : ∀ es ∈ r.broadcasts, ∃ k,
    es = done ++ ((List.zipWith (relaxEntry linkCost) own row).take k ++ own.drop k)
  lowered : ∀ y, Lowers linkCost own row y → r.routingtable.getnextnode y = some srcNodeID
  kept : ∀ y, ¬ Lowers linkCost own row y →
    r.routingtable.getnextnode y = routingtable.getnextnode y

theorem minCost_lt {a b : UInt32} (h : minCost a b < a) : minCost a b = b ∧ b < a := by
  unfold minCost at h ⊢
  split at h
  next => exact absurd h (UInt32.lt_irrefl a)
  next hab => exact ⟨if_neg hab, h⟩

theorem minCost_not_lt {a b : UInt32} (h : ¬ minCost a b < a) : ¬ b < a := by
  intro hba
  rw [minCost, if_neg fun hab => UInt32.lt_irrefl a (UInt32.lt_trans hab hba)] at h
  exact h hba

theorem Relaxes.lower {done own row : List DvEntry} {d r : DvEntry} {rt rt' : Routingtable}
    {res : Relaxed} (hlt : linkCost + r.cost < d.cost)
    (hrt : rt.setnextnode d.nodeID srcNodeID = some rt')
    (h : Relaxes srcNodeID linkCost (done ++ [{ d with cost := linkCost + r.cost }]) own row rt'
      res) :
    Relaxes srcNodeID linkCost done (d :: own) (r :: row) rt
      { res with
        broadcasts :=
          (done ++ { d with cost := linkCost + r.cost } :: own) :: res.broadcasts } where
  result := by
    rw [h.result]
    simp [relaxEntry, hlt]
  broadcasts es hes := by
    rcases List.mem_cons.mp hes with rfl | hes
    · exact ⟨1, by simp [relaxEntry, hlt]⟩
    · obtain ⟨k, rfl⟩ := h.broadcasts es hes
      exact ⟨k + 1, by simp [relaxEntry, hlt]⟩
  lowered y hy := by
    by_cases htail : Lowers linkCost own row y
    · exact h.lowered y htail
    · obtain ⟨rfl, _⟩ := (lowers_cons.mp hy).resolve_right htail
      apply (h.kept _ htail).trans
      rw [Routingtable.getnextnode_setnextnode hrt, if_pos rfl]
  kept y hy := by
    rw [lowers_cons, not_or] at hy
    apply (h.kept y hy.2).trans
    rw [Routingtable.getnextnode_setnextnode hrt, if_neg fun h => hy.1 ⟨h.symm, hlt⟩]

theorem Relaxes.keep {done own row : List DvEntry} {d r : DvEntry} {rt : Routingtable}
    {res : Relaxed} (hge : ¬ linkCost + r.cost < d.cost)
    (h : Relaxes srcNodeID linkCost (done ++ [d]) own row rt res) :
    Relaxes srcNodeID linkCost done (d :: own) (r :: row) rt res where
  result := by
    rw [h.result]
    simp [relaxEntry, hge]
  broadcasts es hes := by
    obtain ⟨k, rfl⟩ := h.broadcasts es hes
    exact ⟨k + 1, by simp [relaxEntry, hge]⟩
  lowered y hy := h.lowered y ((lowers_cons.mp hy).resolve_left fun h => hge h.2)
  kept y hy := h.kept y fun htail => hy (lowers_cons.mpr (.inr htail))

theorem relaxLoop_relaxes (srcNodeID : ℤ) (linkCost : UInt32) {own row : List DvEntry}
    (hlen : own.length = row.length) (hpos : ∀ d ∈ own, 0 ≤ d.nodeID) (done : List DvEntry)
    (routingtable : Routingtable) :
    ∃ r, relaxLoop srcNodeID linkCost done own row routingtable = some r ∧
      Relaxes srcNodeID linkCost done own row routingtable r := by
  induction own generalizing row done routingtable with
  | nil =>
    obtain rfl : row = [] := List.eq_nil_of_length_eq_zero hlen.symm
    exact ⟨_, rfl, by simp, by simp, by simp [Lowers], by simp⟩
  | cons d own ih =>
    cases row with
    | nil => simp at hlen
    | cons r row =>
      have hlen : own.length = row.length := by simpa using hlen
      obtain ⟨hd, hpos'⟩ := List.forall_mem_cons.mp hpos
      simp only [relaxLoop]
      split
      next hlt =>
        obtain ⟨hmin, hlt⟩ := minCost_lt hlt
        obtain ⟨rt', hrt⟩ := routingtable.exists_setnextnode hd srcNodeID
        obtain ⟨res, hres, h⟩ := ih hlen hpos' (done ++ [{ d with cost := linkCost + r.cost }]) rt'
        rw [hrt, Option.bind_some, hmin, hres, Option.map_some]
        exact ⟨_, rfl, h.lower hlt hrt⟩
      next hge =>
        obtain ⟨res, hres, h⟩ := ih hlen hpos' (done ++ [d]) routingtable
        exact ⟨res, hres, h.keep (minCost_not_lt hge)⟩

end Relax

section Costs
variable {linkCost : UInt32} {own row : List DvEntry}

theorem relaxEntry_nodeID (d r : DvEntry) : (relaxEntry linkCost d r).nodeID = d.nodeID := by
  unfold relaxEntry
  split <;> rfl

theorem map_nodeID_zipWith (h : own.map (·.nodeID) = row.map (·.nodeID)) :
    (List.zipWith (relaxEntry linkCost) own row).map (·.nodeID) = own.map (·.nodeID) := by
  induction own generalizing row with
  | nil => rfl
  | cons d own ih =>
    cases row with
    | nil => simp at h
    | cons r row =>
      simp only [List.map_cons, List.cons.injEq] at h
      simp [relaxEntry_nodeID, ih h.2]

theorem costIn_zipWith (h : own.map (·.nodeID) = row.map (·.nodeID)) {y : ℤ}
    (hy : y ∈ own.map (·.nodeID)) :
    costIn (List.zipWith (relaxEntry linkCost) own row) y =
      if linkCost + costIn row y < costIn own y then linkCost + costIn row y
      else costIn own y := by
  induction own generalizing row with
  | nil => simp at hy
  | cons d own ih =>
    cases row with
    | nil => simp at h
    | cons r row =>
      simp only [List.map_cons, List.cons.injEq] at h
      rw [List.zipWith_cons_cons, costIn_cons, costIn_cons, costIn_cons, relaxEntry_nodeID, ← h.1]
      by_cases hd : d.nodeID = y
      · simp only [if_pos hd, relaxEntry]
        split <;> rfl
      · simp only [if_neg hd]
        exact ih h.2 (by simpa [Ne.symm hd] using hy)

/-- A row broadcast in between has costs from before and from after the loop. -/
theorem costIn_between {old new : List DvEntry} (h : new.map (·.nodeID) = old.map (·.nodeID))
    (k : ℕ) : (new.take k ++ old.drop k).map (·.nodeID) = old.map (·.nodeID) ∧
      ∀ e ∈ new.take k ++ old.drop k, e ∈ old ∨ e ∈ new := by
  constructor
  · rw [List.map_append, List.map_take, List.map_drop, h, List.take_append_drop]
  · intro e he
    rcases List.mem_append.mp he with he | he
    · exact .inr (List.mem_of_mem_take he)
    · exact .inl (List.mem_of_mem_drop he)

theorem lowers_iff (linkCost : UInt32) (h : own.map (·.nodeID) = row.map (·.nodeID))
    (hnodup : (own.map (·.nodeID)).Nodup) (y : ℤ) : Lowers linkCost own row y ↔
      y ∈ own.map (·.nodeID) ∧ linkCost + costIn row y < costIn own y := by
  induction own generalizing row with
  | nil => simp [Lowers]
  | cons d own ih =>
    cases row with
    | nil => simp at h
    | cons r row =>
      simp only [List.map_cons, List.cons.injEq] at h
      rw [List.map_cons, List.nodup_cons] at hnodup
      rw [lowers_cons, ih h.2 hnodup.2, costIn_cons, costIn_cons, ← h.1]
      by_cases hd : d.nodeID = y
      · subst hd
        simp [hnodup.1]
      · simp [hd, Ne.symm hd]

end Costs
end DartNet.Network
