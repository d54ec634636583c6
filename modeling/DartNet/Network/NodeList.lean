import DartNet.Network.Topology

/-! The node count and the node array against the node IDs in the file's own order. -/
namespace DartNet.Network.Topology
variable {Host : Type} (t : Topology Host)

/-- The IDs of all host names of the file as they come. -/
def mentioned : List ℤ :=
  t.lines.flatMap fun l => [t.getNodeIDfromname l.host1, t.getNodeIDfromname l.host2]

/-- The count loop behind the scan of `topology_getNodeNum`, which has no position behind the
array. -/
def countInside : List ℤ → Option ℕ
  | [] => none
  | x :: xs => if x = -1 then some 0 else (countInside xs).map (· + 1)

/-- The two functions give the distinct IDs in order of first appearance, the null pointer
standing for none, and their loops find a position inside their arrays each time. -/
structure NodeListRight : Prop where
  num : t.getNodeNum = some t.mentioned.eraseDups.length
  array : t.getNodeArray.getD [] = t.mentioned.eraseDups
  numInside : ((t.scanLines t.lines (List.replicate maxNodeNum (-1))).bind countInside).isSome
  arrayInside : ∀ num, t.getNodeNum = some num →
    (t.scanLines t.lines (List.replicate num (-1))).isSome

theorem foldl_appendNew (ms known : List ℤ) :
    ms.foldl appendNew known = known ++ (ms.filter (· ∉ known)).eraseDups := by
  induction ms generalizing known with
  | nil => simp
  | cons m ms ih =>
    rw [List.foldl_cons, ih]
    unfold appendNew
    split
    next hmem => rw [List.filter_cons_of_neg (by simpa using hmem)]
    next hmem =>
      have hrest : ms.filter (· ∉ known ++ [m]) =
          (ms.filter (· ∉ known)).filter fun x => !x == m := by
        rw [List.filter_filter]
        apply List.filter_congr
        intro x _
        rw [Bool.eq_iff_iff]
        simp [and_comm]
      rw [List.filter_cons_of_pos (by simpa using hmem), List.eraseDups_cons, hrest,
        List.append_assoc, List.singleton_append]

theorem nodeIDs_eq_eraseDups : t.nodeIDs = t.mentioned.eraseDups := by
  have hlines : t.nodeIDs = t.mentioned.foldl appendNew [] := by
    rw [mentioned, List.foldl_flatMap]
    rfl
  rw [hlines, foldl_appendNew]
  simp

theorem countInside_append {known : List ℤ} (hneg : ∀ x ∈ known, x ≠ -1) (k : ℕ) :
    countInside (known ++ List.replicate k (-1)) = if k = 0 then none else some known.length := by
  induction known with
  | nil =>
    cases k with
    | zero => rfl
    | succ k => simp [countInside, List.replicate_succ]
  | cons x xs ih =>
    obtain ⟨hx, hxs⟩ := List.forall_mem_cons.mp hneg
    rw [List.cons_append, countInside, if_neg hx, ih hxs]
    split
    next => rfl
    next => rfl

variable {t}

/-- The array of the count loop has room for the word that ends it unless it is full. -/
theorem numInside_iff (hres : ∀ l ∈ t.lines, t.resolves l)
    (hnodes : t.nodeIDs.length ≤ maxNodeNum) :
    ((t.scanLines t.lines (List.replicate maxNodeNum (-1))).bind countInside).isSome ↔
      t.nodeIDs.length < maxNodeNum := by
  rw [scanLines_eq hres le_rfl, padded, if_pos hnodes, Option.bind_some,
    countInside_append fun x hx => nodeID_ne hres hx]
  split
  next hfull =>
    have : ¬ t.nodeIDs.length < maxNodeNum := by omega
    simpa using this
  next hroom =>
    have : t.nodeIDs.length < maxNodeNum := by omega
    simpa using this

theorem getNodeArray_getD (hres : ∀ l ∈ t.lines, t.resolves l)
    (hnum : t.getNodeNum = some t.nodeIDs.length) (hnodes : t.nodeIDs.length ≤ maxNodeNum) :
    t.getNodeArray.getD [] = t.nodeIDs := by
  rw [getNodeArray, hnum, Option.bind_some]
  split
  next hnone => exact (List.eq_nil_of_length_eq_zero hnone).symm
  next =>
    rw [scanLines_eq hres hnodes]
    simp [padded]

theorem node_list_right_iff (hres : ∀ l ∈ t.lines, t.resolves l)
    (hnodes : t.mentioned.eraseDups.length ≤ maxNodeNum) :
    t.NodeListRight ↔ t.mentioned.eraseDups.length < maxNodeNum := by
  rw [← nodeIDs_eq_eraseDups] at hnodes ⊢
  constructor
  · intro h
    exact (numInside_iff hres hnodes).mp h.numInside
  · intro hlt
    have hnum : t.getNodeNum = some t.nodeIDs.length := by
      rw [getNodeNum_eq hres hnodes, if_pos (.inl hlt)]
    have harray := getNodeArray_getD hres hnum hnodes
    have harrayInside : ∀ num, t.getNodeNum = some num →
        (t.scanLines t.lines (List.replicate num (-1))).isSome := by
      intro num h
      rw [hnum] at h
      rw [← Option.some.inj h, scanLines_eq hres hnodes]
      simp [padded]
    exact ⟨by rw [hnum, nodeIDs_eq_eraseDups], by rw [harray, nodeIDs_eq_eraseDups],
      (numInside_iff hres hnodes).mpr hlt, harrayInside⟩

theorem node_list_right_three : (numbered [⟨3, 1, 4⟩, ⟨1, 2, 2⟩, ⟨3, 2, 9⟩]).NodeListRight ∧
    (numbered [⟨3, 1, 4⟩, ⟨1, 2, 2⟩, ⟨3, 2, 9⟩]).getNodeArray = some [3, 1, 2] :=
  ⟨(node_list_right_iff (by decide) (by decide)).mpr (by decide), by decide⟩

/-- Ten nodes fill the array of `topology_getNodeNum`, and its count reads behind it. -/
theorem count_leaves_array :
    let full := numbered [⟨1, 2, 1⟩, ⟨3, 4, 1⟩, ⟨5, 6, 1⟩, ⟨7, 8, 1⟩, ⟨9, 10, 1⟩]
    (∀ l ∈ full.lines, full.resolves l) ∧ full.mentioned.eraseDups.length = maxNodeNum ∧
      (full.scanLines full.lines (List.replicate maxNodeNum (-1))).bind countInside = none ∧
      ¬ full.NodeListRight := by
  intro full
  have hcount : (full.scanLines full.lines (List.replicate maxNodeNum (-1))).bind countInside =
      none := by decide
  apply And.intro (by decide)
  apply And.intro (by decide)
  apply And.intro hcount
  intro h
  simpa [hcount] using h.numInside

end DartNet.Network.Topology
