import DartNet.Network.Dvtable

/-! The neighbour count, names, array and costs, which scan the file one by one. -/
namespace DartNet.Network.Topology
variable {Host : Type} (t : Topology Host)

/-- The neighbour's name that a line adds in `getNeighborNames`. -/
def namesOfLine (myNodeID : ℤ) (l : Line Host) : List Host :=
  if t.getNodeIDfromname l.host1 = myNodeID then [l.host2]
  else if t.getNodeIDfromname l.host2 = myNodeID then [l.host1]
  else []

/-- The names behind `nbrNames`, with `none` for the result -1 and for a write behind the array
of `numNeighbors` pointers. -/
def getNeighborNames (myNodeID : ℤ) (numNeighbors : ℕ) : Option (List Host) :=
  let nbrNames := t.lines.flatMap (t.namesOfLine myNodeID)
  if (∀ l ∈ t.lines, t.resolves l) ∧ nbrNames.length = numNeighbors then some nbrNames else none

/-- All four scans see the same neighbours in the same order, at the costs of the links. -/
def NbrViewsAgree (x : ℤ) : Prop :=
  ∃ nbrNames : List Host, t.getNbrNum x = some nbrNames.length ∧
    t.getNeighborNames x nbrNames.length = some nbrNames ∧
    t.getNbrArray x = some (nbrNames.map t.getNodeIDfromname) ∧
    nbrcosttableCreate t x = some (nbrNames.map fun h =>
      ⟨t.getNodeIDfromname h, t.getCost x (t.getNodeIDfromname h)⟩)

variable {t}

theorem length_flatMap_namesOfLine (ls : List (Line Host)) (x : ℤ) :
    (ls.flatMap (t.namesOfLine x)).length =
      ls.countP fun l => t.getNodeIDfromname l.host1 = x ∨ t.getNodeIDfromname l.host2 = x := by
  induction ls with
  | nil => rfl
  | cons l ls ih =>
    have hl : (t.namesOfLine x l).length =
        if t.getNodeIDfromname l.host1 = x ∨ t.getNodeIDfromname l.host2 = x then 1 else 0 := by
      unfold namesOfLine
      split_ifs <;> simp_all
    rw [List.flatMap_cons, List.length_append, hl, ih, List.countP_cons, Nat.add_comm]
    simp only [decide_eq_true_eq]

/-- A line that does not name the node twice adds one entry to the names and to the array. -/
theorem nbrsOfLine_eq_map {l : Line Host} {x : ℤ}
    (hl : ¬ (t.getNodeIDfromname l.host1 = x ∧ t.getNodeIDfromname l.host2 = x)) :
    t.nbrsOfLine x l = (t.namesOfLine x l).map t.getNodeIDfromname := by
  unfold nbrsOfLine namesOfLine
  split_ifs <;> simp_all

theorem nbr_views_agree_iff (hres : ∀ l ∈ t.lines, t.resolves l) {x : ℤ}
    (hx : ∃ l ∈ t.lines, t.getNodeIDfromname l.host1 = x ∨ t.getNodeIDfromname l.host2 = x) :
    t.NbrViewsAgree x ↔ ∀ l ∈ t.lines,
      ¬ (t.getNodeIDfromname l.host1 = x ∧ t.getNodeIDfromname l.host2 = x) := by
  constructor
  · rintro ⟨nbrNames, _, _, harray, _⟩ l hl h
    rw [getNbrArray_of_both hl h] at harray
    contradiction
  · intro hboth
    let nbrNames := t.lines.flatMap (t.namesOfLine x)
    have hnum : t.getNbrNum x = some nbrNames.length := by
      rw [getNbrNum, if_pos hres, length_flatMap_namesOfLine]
    have hnbrs : t.lines.flatMap (t.nbrsOfLine x) = nbrNames.map t.getNodeIDfromname := by
      rw [List.map_flatMap]
      exact List.flatMap_congr fun l hl => nbrsOfLine_eq_map (hboth l hl)
    have hpos : nbrNames.length ≠ 0 := by
      obtain ⟨l, hl, h⟩ := hx
      rw [length_flatMap_namesOfLine]
      exact (List.countP_pos_iff.mpr ⟨l, hl, by simpa using h⟩).ne'
    have hnames : t.getNeighborNames x nbrNames.length = some nbrNames := if_pos ⟨hres, rfl⟩
    refine ⟨nbrNames, hnum, hnames, ?_, ?_⟩
    · rw [getNbrArray, hnum]
      simp [hnbrs, hpos]
    · rw [nbrcosttableCreate, hnum]
      simp [hnbrs, List.map_map]

def twiceLinked : Topology ℕ := numbered [⟨2, 1, 4⟩, ⟨1, 3, 2⟩, ⟨2, 3, 7⟩, ⟨1, 2, 9⟩]

theorem nbr_views_agree_twice_linked : twiceLinked.NbrViewsAgree 1 ∧
    nbrcosttableCreate twiceLinked 1 = some [⟨2, 4⟩, ⟨3, 2⟩, ⟨2, 4⟩] :=
  ⟨(nbr_views_agree_iff (by decide) (by decide)).mpr (by decide), by decide⟩

/-- A line that names the own host twice is one neighbour for `topology_getNbrNum` and two for
`topology_getNbrArray`. -/
theorem self_link_written_twice :
    let t := numbered [⟨1, 1, 1⟩, ⟨1, 2, 1⟩]
    (∀ l ∈ t.lines, t.resolves l) ∧ t.getNbrNum 1 = some 2 ∧
      t.getNeighborNames 1 2 = some [1, 2] ∧ t.lines.flatMap (t.nbrsOfLine 1) = [1, 1, 2] ∧
      t.getNbrArray 1 = none ∧ ¬ t.NbrViewsAgree 1 := by
  intro t
  have harray : t.getNbrArray 1 = none := by decide
  refine ⟨by decide, by decide, by decide, by decide, harray, ?_⟩
  rintro ⟨nbrNames, _, _, h, _⟩
  rw [harray] at h
  contradiction

end DartNet.Network.Topology
