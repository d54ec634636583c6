import Mathlib.Data.Int.Notation
import Mathlib.Data.List.Basic
import Mathlib.Data.List.Nodup
import Mathlib.Data.List.Pairwise
import Mathlib.Order.Nat
import Mathlib.Tactic.Common

/-! The topology file and the functions of `topology/topology.c` that read it. -/
namespace DartNet.Network

def maxNodeNum : ℕ := 10
def infiniteCost : UInt32 := 999

/-- A line `host1 host2 cost` of `topology.dat`. -/
structure Line (Host : Type) where
  host1 : Host
  host2 : Host
  cost : UInt32

/-- The file, with the resolver of host names and the word behind the array of
`topology_getNodeNum`, which is read when the array is full. -/
structure Topology (Host : Type) where
  lines : List (Line Host)
  gethostbyname : Host → Option UInt32
  behindNodeIDs : ℤ

namespace Topology
variable {Host : Type} (t : Topology Host)

/-- The last number of the address `a.b.c.d`. -/
def getNodeIDfromip (addr : UInt32) : ℤ := (addr.toNat % 256 : ℕ)

def getNodeIDfromname (hostname : Host) : ℤ :=
  match t.gethostbyname hostname with
  | none => -1
  | some addr => getNodeIDfromip addr

def resolves (l : Line Host) : Prop :=
  0 ≤ t.getNodeIDfromname l.host1 ∧ 0 ≤ t.getNodeIDfromname l.host2

/-- The line is about the two nodes. -/
def joins (l : Line Host) (x y : ℤ) : Prop :=
  (t.getNodeIDfromname l.host1 = x ∧ t.getNodeIDfromname l.host2 = y) ∨
    (t.getNodeIDfromname l.host2 = x ∧ t.getNodeIDfromname l.host1 = y)

instance (l : Line Host) : Decidable (t.resolves l) := inferInstanceAs (Decidable (_ ∧ _))

instance (l : Line Host) (x y : ℤ) : Decidable (t.joins l x y) :=
  inferInstanceAs (Decidable (_ ∨ _))

/-- The loop of `topology_getCost`, which returns -1 as an `unsigned int` at a line it cannot
resolve. -/
def costOfLines (fromNodeID toNodeID : ℤ) : List (Line Host) → UInt32
  | [] => infiniteCost
  | l :: ls =>
    if t.resolves l then
      if t.joins l fromNodeID toNodeID then l.cost else costOfLines fromNodeID toNodeID ls
    else -1

def getCost (fromNodeID toNodeID : ℤ) : UInt32 :=
  if fromNodeID = toNodeID then 0 else t.costOfLines fromNodeID toNodeID t.lines

def getNbrNum (myNodeID : ℤ) : Option ℕ :=
  if ∀ l ∈ t.lines, t.resolves l then
    some (t.lines.countP fun l =>
      t.getNodeIDfromname l.host1 = myNodeID ∨ t.getNodeIDfromname l.host2 = myNodeID)
  else none

/-- The neighbours that a line adds. -/
def nbrsOfLine (myNodeID : ℤ) (l : Line Host) : List ℤ :=
  (if t.getNodeIDfromname l.host1 = myNodeID then [t.getNodeIDfromname l.host2] else []) ++
    (if t.getNodeIDfromname l.host2 = myNodeID then [t.getNodeIDfromname l.host1] else [])

/-- The array has one element for each line counted; a write behind it is undefined. -/
def getNbrArray (myNodeID : ℤ) : Option (List ℤ) :=
  match t.getNbrNum myNodeID with
  | none => none
  | some numNodes =>
    let nodeIDs := t.lines.flatMap (t.nbrsOfLine myNodeID)
    if numNodes = 0 ∨ numNodes < nodeIDs.length then none
    else some (nodeIDs ++ List.replicate (numNodes - nodeIDs.length) (-1))

/-- What a loop up to `topology_getNbrNum` reads of the array; without neighbours the array is the
null pointer, and the loop reads nothing. The number is -1 for an own ID of -1, too. -/
def nbrsRead (myNodeID : ℤ) : Option (List ℤ) :=
  if myNodeID < 0 then none
  else (t.getNbrNum myNodeID).bind fun numNodes =>
    if numNodes = 0 then some [] else t.getNbrArray myNodeID

/-- The search loop of `topology_getNodeNum` from position `j` on, and the store behind it. -/
def addNodeID (h : ℤ) : ℕ → List ℤ → Option (List ℤ)
  | _, [] => none
  | j, x :: xs =>
    if x = -1 then some (if j < maxNodeNum then h :: xs else x :: xs)
    else if h = x then some (x :: xs)
    else (addNodeID h (j + 1) xs).map (x :: ·)

/-- The loop over the lines, for an array `nodeIDs`. -/
def scanLines : List (Line Host) → List ℤ → Option (List ℤ)
  | [], nodeIDs => some nodeIDs
  | l :: ls, nodeIDs =>
    if t.resolves l then
      ((addNodeID (t.getNodeIDfromname l.host1) 0 nodeIDs).bind
        (addNodeID (t.getNodeIDfromname l.host2) 0)).bind (scanLines ls)
    else none

/-- The count runs into the word behind a full array, and is undefined beyond it. -/
def getNodeNum : Option ℕ :=
  (t.scanLines t.lines (List.replicate maxNodeNum (-1))).bind fun nodeIDs =>
    let count := (nodeIDs.takeWhile (· ≠ -1)).length
    if count < maxNodeNum ∨ t.behindNodeIDs = -1 then some count else none

def getNodeArray : Option (List ℤ) :=
  t.getNodeNum.bind fun numNodes =>
    if numNodes = 0 then none else t.scanLines t.lines (List.replicate numNodes (-1))

/-- What a loop up to `topology_getNodeNum` reads of the array, which may be the null pointer. -/
def nodesRead : Option (List ℤ) :=
  t.getNodeNum.bind fun numNodes => if numNodes = 0 then some [] else t.getNodeArray

/-- The entry of `nodeID` behind the known ones, unless it is among them. -/
def appendNew (known : List ℤ) (nodeID : ℤ) : List ℤ :=
  if nodeID ∈ known then known else known ++ [nodeID]

def appendLine (known : List ℤ) (l : Line Host) : List ℤ :=
  appendNew (appendNew known (t.getNodeIDfromname l.host1)) (t.getNodeIDfromname l.host2)

/-- The nodes that the file mentions, in order of first appearance. -/
def nodeIDs : List ℤ := t.lines.foldl t.appendLine []

/-- Lines `x y cost` in any order: at most one for each pair, none for a node with itself, and
costs from 1 to below `INFINITE_COST`. -/
structure Linked : Prop where
  resolved : ∀ l ∈ t.lines, t.resolves l
  noSelfLink : ∀ l ∈ t.lines, t.getNodeIDfromname l.host1 ≠ t.getNodeIDfromname l.host2
  onePerPair : t.lines.Pairwise fun l l' =>
    ¬ t.joins l (t.getNodeIDfromname l'.host1) (t.getNodeIDfromname l'.host2)
  cost : ∀ l ∈ t.lines, 1 ≤ l.cost.toNat ∧ l.cost.toNat < infiniteCost.toNat

/-- The nodes leave room in the array of `topology_getNodeNum` for the -1 that ends its count. -/
structure WellFormed : Prop extends t.Linked where
  nodes : t.nodeIDs.length < maxNodeNum

/-- The file with another word behind the array. -/
def behind (word : ℤ) : Topology Host := { t with behindNodeIDs := word }

theorem Linked.behind {t : Topology Host} (ht : t.Linked) (word : ℤ) : (t.behind word).Linked :=
  ⟨ht.resolved, ht.noSelfLink, ht.onePerPair, ht.cost⟩

/-- The set-up of the tables of `x` stays inside the arrays. -/
structure StartsAt (x : ℤ) : Prop where
  nonneg : 0 ≤ x
  resolved : ∀ l ∈ t.lines, t.resolves l
  notBoth : ∀ l ∈ t.lines,
    ¬ (t.getNodeIDfromname l.host1 = x ∧ t.getNodeIDfromname l.host2 = x)
  nodes : t.nodeIDs.length < maxNodeNum

/-- A direct link with its cost. -/
def link (x w : ℤ) (c : ℕ) : Prop := ∃ l ∈ t.lines, t.joins l x w ∧ l.cost.toNat = c

section Nodes

theorem addNodeID_known (h : ℤ) (j k : ℕ) {known : List ℤ} (hneg : ∀ x ∈ known, x ≠ -1)
    (hj : j + known.length + k ≤ maxNodeNum) :
    addNodeID h j (known ++ List.replicate k (-1)) =
      if h ∈ known then some (known ++ List.replicate k (-1))
      else if k = 0 then none else some (known ++ h :: List.replicate (k - 1) (-1)) := by
  induction known generalizing j with
  | nil =>
    cases k with
    | zero => simp [addNodeID]
    | succ k =>
      have hlt : j < maxNodeNum := by simp at hj; omega
      simp [addNodeID, List.replicate_succ, hlt]
  | cons x xs ih =>
    have hx := hneg x (List.mem_cons_self ..)
    have hih := ih (j + 1) (fun y hy => hneg y (List.mem_cons_of_mem _ hy))
      (by simp only [List.length_cons] at hj; omega)
    simp only [List.cons_append, addNodeID, if_neg hx, hih, List.mem_cons]
    by_cases hhx : h = x
    · simp [hhx]
    · by_cases hmem : h ∈ xs
      · simp [hhx, hmem]
      · by_cases hk : k = 0 <;> simp [hhx, hmem, hk]

/-- Adding a node to an array of `n` elements, of which the known nodes are in use. -/
def padded (n : ℕ) (known : List ℤ) : Option (List ℤ) :=
  if known.length ≤ n then some (known ++ List.replicate (n - known.length) (-1)) else none

theorem addNodeID_padded {h : ℤ} {n : ℕ} (hn : n ≤ maxNodeNum) {known : List ℤ}
    (hneg : ∀ x ∈ known, x ≠ -1) :
    (padded n known).bind (addNodeID h 0) = padded n (appendNew known h) := by
  unfold padded appendNew
  by_cases hle : known.length ≤ n
  · rw [if_pos hle, Option.bind_some, addNodeID_known h 0 _ hneg (by omega)]
    by_cases hmem : h ∈ known
    · simp [hmem, hle]
    · by_cases hk : n - known.length = 0
      · have hlt : ¬ known.length + 1 ≤ n := by omega
        simp [hmem, hk, hlt]
      · have hlt : known.length + 1 ≤ n := by omega
        simp [hmem, hk, hlt, Nat.sub_sub]
  · have hlt : ¬ (if h ∈ known then known else known ++ [h]).length ≤ n := by
      split
      · exact hle
      · rw [List.length_append]
        omega
    rw [if_neg hle, if_neg hlt, Option.bind_none]

variable {t}

theorem mem_appendNew {known : List ℤ} {h x : ℤ} : x ∈ appendNew known h ↔ x ∈ known ∨ x = h := by
  unfold appendNew
  split
  next hmem => exact ⟨.inl, fun hx => hx.elim id fun hx => hx ▸ hmem⟩
  next => simp

theorem mem_appendLine {known : List ℤ} {l : Line Host} {x : ℤ} : x ∈ t.appendLine known l ↔
    x ∈ known ∨ x = t.getNodeIDfromname l.host1 ∨ x = t.getNodeIDfromname l.host2 := by
  rw [appendLine, mem_appendNew, mem_appendNew, or_assoc]

theorem nodup_appendNew {known : List ℤ} (hknown : known.Nodup) (h : ℤ) :
    (appendNew known h).Nodup := by
  unfold appendNew
  split
  next => exact hknown
  next hmem => exact List.nodup_append.mpr ⟨hknown, by simp, by rintro x hx _ hy rfl; simp_all⟩

theorem mem_foldl_appendLine {ls : List (Line Host)} {known : List ℤ} {x : ℤ} :
    x ∈ ls.foldl t.appendLine known ↔ x ∈ known ∨ ∃ l ∈ ls,
      x = t.getNodeIDfromname l.host1 ∨ x = t.getNodeIDfromname l.host2 := by
  induction ls generalizing known with
  | nil => simp
  | cons l ls ih => simp [ih, mem_appendLine, or_assoc]

theorem mem_nodeIDs {x : ℤ} : x ∈ t.nodeIDs ↔ ∃ l ∈ t.lines,
    x = t.getNodeIDfromname l.host1 ∨ x = t.getNodeIDfromname l.host2 := by
  simp [nodeIDs, mem_foldl_appendLine]

theorem nodeID_nonneg (hres : ∀ l ∈ t.lines, t.resolves l) {x : ℤ} (hx : x ∈ t.nodeIDs) :
    0 ≤ x := by
  obtain ⟨l, hl, rfl | rfl⟩ := mem_nodeIDs.mp hx
  · exact (hres l hl).1
  · exact (hres l hl).2

theorem nodeID_ne (hres : ∀ l ∈ t.lines, t.resolves l) {x : ℤ} (hx : x ∈ t.nodeIDs) :
    x ≠ -1 := by
  have := nodeID_nonneg hres hx
  omega

theorem nodeID_lt {x : ℤ} (hx : x ∈ t.nodeIDs) : x < 256 := by
  have hlt : ∀ h, t.getNodeIDfromname h < 256 := by
    intro h
    unfold getNodeIDfromname
    split
    next => decide
    next addr _ =>
      have := Nat.mod_lt addr.toNat (y := 256) (by decide)
      simp only [getNodeIDfromip]
      omega
  obtain ⟨l, hl, rfl | rfl⟩ := mem_nodeIDs.mp hx
  · exact hlt _
  · exact hlt _

theorem nodup_nodeIDs : t.nodeIDs.Nodup := by
  suffices h : ∀ (ls : List (Line Host)) (known : List ℤ), known.Nodup →
      (ls.foldl t.appendLine known).Nodup from h t.lines [] List.nodup_nil
  intro ls
  induction ls with
  | nil => exact fun _ h => h
  | cons l ls ih => exact fun known h => ih _ (nodup_appendNew (nodup_appendNew h _) _)

theorem scanLines_padded {n : ℕ} (hn : n ≤ maxNodeNum) {ls : List (Line Host)}
    (hres : ∀ l ∈ ls, t.resolves l) {known : List ℤ} (hneg : ∀ x ∈ known, x ≠ -1) :
    (padded n known).bind (t.scanLines ls) = padded n (ls.foldl t.appendLine known) := by
  induction ls generalizing known with
  | nil =>
    cases h : padded n known with
    | none => simp [h]
    | some ids => simp [h, scanLines]
  | cons l ls ih =>
    have hl := hres l (List.mem_cons_self ..)
    have hstep : ∀ ids, t.scanLines (l :: ls) ids =
        ((addNodeID (t.getNodeIDfromname l.host1) 0 ids).bind
          (addNodeID (t.getNodeIDfromname l.host2) 0)).bind (t.scanLines ls) := by
      intro ids
      rw [scanLines, if_pos hl]
    have hneg1 : ∀ x ∈ appendNew known (t.getNodeIDfromname l.host1), x ≠ -1 := by
      intro x hx
      rcases mem_appendNew.mp hx with hx | rfl
      · exact hneg x hx
      · have := hl.1
        omega
    have hneg2 : ∀ x ∈ t.appendLine known l, x ≠ -1 := by
      intro x hx
      rcases mem_appendNew.mp hx with hx | rfl
      · exact hneg1 x hx
      · have := hl.2
        omega
    rw [funext hstep, List.foldl_cons,
      ← ih (fun l' hl' => hres l' (List.mem_cons_of_mem _ hl')) hneg2, appendLine,
      ← addNodeID_padded hn hneg1, ← addNodeID_padded hn hneg]
    simp only [Option.bind_assoc]

theorem resolves_of_scanLines {ls : List (Line Host)} {ids r : List ℤ}
    (h : t.scanLines ls ids = some r) : ∀ l ∈ ls, t.resolves l := by
  induction ls generalizing ids with
  | nil => exact List.forall_mem_nil _
  | cons l ls ih =>
    rw [scanLines] at h
    split at h
    next hl =>
      obtain ⟨ids', _, h⟩ := Option.bind_eq_some_iff.mp h
      exact List.forall_mem_cons.mpr ⟨hl, ih h⟩
    next => contradiction

/-- The scan of the file leaves its nodes in the array, if they fit. -/
theorem scanLines_eq (hres : ∀ l ∈ t.lines, t.resolves l) {n : ℕ} (hn : n ≤ maxNodeNum) :
    t.scanLines t.lines (List.replicate n (-1)) = padded n t.nodeIDs := by
  have hs := scanLines_padded hn hres (List.forall_mem_nil _)
  rwa [show padded n [] = some (List.replicate n (-1)) by simp [padded], Option.bind_some] at hs

theorem takeWhile_padded (hres : ∀ l ∈ t.lines, t.resolves l) (k : ℕ) :
    (t.nodeIDs ++ List.replicate k (-1)).takeWhile (· ≠ -1) = t.nodeIDs := by
  rw [List.takeWhile_append_of_pos (by simpa using fun x hx => nodeID_ne hres hx)]
  simp

theorem getNodeNum_eq (hres : ∀ l ∈ t.lines, t.resolves l)
    (hnodes : t.nodeIDs.length ≤ maxNodeNum) : t.getNodeNum =
      if t.nodeIDs.length < maxNodeNum ∨ t.behindNodeIDs = -1 then some t.nodeIDs.length
      else none := by
  rw [getNodeNum, scanLines_eq hres le_rfl, padded, if_pos hnodes, Option.bind_some]
  simp only [takeWhile_padded hres]

/-- Where it is defined, the number is that of the nodes the file mentions. -/
theorem of_getNodeNum {num : ℕ} (h : t.getNodeNum = some num) :
    (∀ l ∈ t.lines, t.resolves l) ∧ t.nodeIDs.length ≤ maxNodeNum ∧ num = t.nodeIDs.length := by
  obtain ⟨ids, hscan, _⟩ := Option.bind_eq_some_iff.mp h
  have hres := resolves_of_scanLines hscan
  rw [scanLines_eq hres le_rfl, padded] at hscan
  split at hscan
  next hnodes =>
    rw [getNodeNum_eq hres hnodes] at h
    split at h
    next => exact ⟨hres, hnodes, (Option.some.inj h).symm⟩
    next => contradiction
  next => contradiction

/-- Where it is defined, the array holds the nodes the file mentions. -/
theorem getNodeArray_eq {nodes : List ℤ} (h : t.getNodeArray = some nodes) :
    (∀ l ∈ t.lines, t.resolves l) ∧ nodes = t.nodeIDs := by
  obtain ⟨num, hnum, h⟩ := Option.bind_eq_some_iff.mp h
  obtain ⟨hres, hnodes, rfl⟩ := of_getNodeNum hnum
  refine ⟨hres, ?_⟩
  rw [scanLines_eq hres hnodes, padded] at h
  split at h
  next => contradiction
  next => simpa using h.symm

end Nodes

section Links
variable {t}

theorem joins_symm {l : Line Host} {x y : ℤ} : t.joins l x y ↔ t.joins l y x := by
  unfold joins
  rw [or_comm, and_comm, and_comm (a := t.getNodeIDfromname l.host1 = x)]

/-- Lines about the same pair are about each other's pair. -/
theorem joins_of_joins {l l' : Line Host} {x y : ℤ} (h : t.joins l x y) (h' : t.joins l' x y) :
    t.joins l (t.getNodeIDfromname l'.host1) (t.getNodeIDfromname l'.host2) := by
  rcases h' with ⟨rfl, rfl⟩ | ⟨rfl, rfl⟩
  · exact h
  · exact joins_symm.mp h

theorem costOfLines_of_joins {ls : List (Line Host)} (hres : ∀ l ∈ ls, t.resolves l)
    (hpair : ls.Pairwise fun l l' =>
      ¬ t.joins l (t.getNodeIDfromname l'.host1) (t.getNodeIDfromname l'.host2))
    {l : Line Host} (hl : l ∈ ls) {x y : ℤ} (h : t.joins l x y) :
    t.costOfLines x y ls = l.cost := by
  induction ls with
  | nil => simp at hl
  | cons l' ls ih =>
    rw [costOfLines, if_pos (hres l' (List.mem_cons_self ..))]
    obtain ⟨hfirst, hrest⟩ := List.pairwise_cons.mp hpair
    rcases List.mem_cons.mp hl with rfl | hl
    · rw [if_pos h]
    · rw [if_neg fun h' => hfirst l hl (joins_of_joins h' h)]
      exact ih (fun l hl => hres l (List.mem_cons_of_mem _ hl)) hrest hl

theorem costOfLines_of_not_joins {ls : List (Line Host)} (hres : ∀ l ∈ ls, t.resolves l)
    {x y : ℤ} (h : ∀ l ∈ ls, ¬ t.joins l x y) : t.costOfLines x y ls = infiniteCost := by
  induction ls with
  | nil => rfl
  | cons l ls ih =>
    rw [costOfLines, if_pos (hres l (List.mem_cons_self ..)),
      if_neg (h l (List.mem_cons_self ..))]
    exact ih (fun l hl => hres l (List.mem_cons_of_mem _ hl))
      fun l hl => h l (List.mem_cons_of_mem _ hl)

variable (ht : t.WellFormed)
include ht

theorem link_ne {x w : ℤ} {c : ℕ} (h : t.link x w c) : x ≠ w := by
  obtain ⟨l, hl, ⟨rfl, rfl⟩ | ⟨rfl, rfl⟩, _⟩ := h
  · exact ht.noSelfLink l hl
  · exact (ht.noSelfLink l hl).symm

theorem getCost_of_link {x w : ℤ} {c : ℕ} (h : t.link x w c) : (t.getCost x w).toNat = c := by
  rw [getCost, if_neg (link_ne ht h)]
  obtain ⟨l, hl, hj, rfl⟩ := h
  rw [costOfLines_of_joins ht.resolved ht.onePerPair hl hj]

theorem link_of_getCost {x w : ℤ} (hxw : x ≠ w) (h : t.getCost x w < infiniteCost) :
    t.link x w (t.getCost x w).toNat := by
  by_cases hex : ∃ l ∈ t.lines, t.joins l x w
  · obtain ⟨l, hl, hj⟩ := hex
    refine ⟨l, hl, hj, ?_⟩
    rw [getCost_of_link ht ⟨l, hl, hj, rfl⟩]
  · rw [getCost, if_neg hxw,
      costOfLines_of_not_joins ht.resolved fun l hl hj => hex ⟨l, hl, hj⟩] at h
    exact absurd h (by decide)

theorem getCost_le (x w : ℤ) : t.getCost x w ≤ infiniteCost := by
  by_cases hxw : x = w
  · simp [getCost, hxw]
  · by_cases hex : ∃ l ∈ t.lines, t.joins l x w
    · obtain ⟨l, hl, hj⟩ := hex
      rw [UInt32.le_iff_toNat_le, getCost_of_link ht ⟨l, hl, hj, rfl⟩]
      exact (ht.cost l hl).2.le
    · rw [getCost, if_neg hxw,
        costOfLines_of_not_joins ht.resolved fun l hl hj => hex ⟨l, hl, hj⟩]
      exact UInt32.le_refl _

theorem link_unique {x w : ℤ} {c k : ℕ} (hc : t.link x w c) (hk : t.link x w k) : c = k :=
  (getCost_of_link ht hc).symm.trans (getCost_of_link ht hk)

theorem link_pos {x w : ℤ} {c : ℕ} (h : t.link x w c) : 0 < c := by
  obtain ⟨l, hl, _, rfl⟩ := h
  exact (ht.cost l hl).1

theorem link_lt {x w : ℤ} {c : ℕ} (h : t.link x w c) : c < infiniteCost.toNat := by
  obtain ⟨l, hl, _, rfl⟩ := h
  exact (ht.cost l hl).2

omit ht in
theorem link_symm {x w : ℤ} {c : ℕ} (h : t.link x w c) : t.link w x c := by
  obtain ⟨l, hl, hj, hc⟩ := h
  exact ⟨l, hl, joins_symm.mp hj, hc⟩

omit ht in
theorem link_mem {x w : ℤ} {c : ℕ} (h : t.link x w c) : x ∈ t.nodeIDs := by
  obtain ⟨l, hl, ⟨rfl, _⟩ | ⟨rfl, _⟩, _⟩ := h
  · exact mem_nodeIDs.mpr ⟨l, hl, .inl rfl⟩
  · exact mem_nodeIDs.mpr ⟨l, hl, .inr rfl⟩

end Links

section Nbrs
variable {t}

theorem mem_nbrsOfLine {l : Line Host} {x w : ℤ} : w ∈ t.nbrsOfLine x l ↔ t.joins l x w := by
  unfold nbrsOfLine joins
  split_ifs <;> simp_all [eq_comm]

theorem length_nbrsOfLine (l : Line Host) (x : ℤ) : (t.nbrsOfLine x l).length =
    (if t.getNodeIDfromname l.host1 = x ∨ t.getNodeIDfromname l.host2 = x then 1 else 0) +
      if t.getNodeIDfromname l.host1 = x ∧ t.getNodeIDfromname l.host2 = x then 1 else 0 := by
  unfold nbrsOfLine
  split_ifs <;> simp_all

/-- A line that names the node twice is counted once and adds two entries. -/
theorem length_flatMap_nbrsOfLine (ls : List (Line Host)) (x : ℤ) :
    (ls.flatMap (t.nbrsOfLine x)).length =
      (ls.countP fun l => t.getNodeIDfromname l.host1 = x ∨ t.getNodeIDfromname l.host2 = x) +
        ls.countP fun l =>
          t.getNodeIDfromname l.host1 = x ∧ t.getNodeIDfromname l.host2 = x := by
  induction ls with
  | nil => rfl
  | cons l ls ih =>
    rw [List.flatMap_cons, List.length_append, length_nbrsOfLine, ih, List.countP_cons,
      List.countP_cons]
    simp only [decide_eq_true_eq]
    omega

theorem mem_flatMap_nbrsOfLine {x w : ℤ} :
    w ∈ t.lines.flatMap (t.nbrsOfLine x) ↔ ∃ c, t.link x w c := by
  simp only [List.mem_flatMap, mem_nbrsOfLine, link]
  exact ⟨fun ⟨l, hl, hj⟩ => ⟨_, l, hl, hj, rfl⟩, fun ⟨_, l, hl, hj, _⟩ => ⟨l, hl, hj⟩⟩

/-- Without such a line the array has an entry for each line counted. -/
theorem length_nbrs_of_not_both {x : ℤ} (hboth : ∀ l ∈ t.lines,
    ¬ (t.getNodeIDfromname l.host1 = x ∧ t.getNodeIDfromname l.host2 = x)) :
    (t.lines.flatMap (t.nbrsOfLine x)).length = t.lines.countP fun l =>
      t.getNodeIDfromname l.host1 = x ∨ t.getNodeIDfromname l.host2 = x := by
  have hzero : (t.lines.countP fun l =>
      t.getNodeIDfromname l.host1 = x ∧ t.getNodeIDfromname l.host2 = x) = 0 :=
    List.countP_eq_zero.mpr (by simpa using hboth)
  rw [length_flatMap_nbrsOfLine, hzero, Nat.add_zero]

theorem getNbrArray_eq (hres : ∀ l ∈ t.lines, t.resolves l) {x : ℤ}
    (hboth : ∀ l ∈ t.lines,
      ¬ (t.getNodeIDfromname l.host1 = x ∧ t.getNodeIDfromname l.host2 = x)) :
    t.getNbrArray x = if t.lines.flatMap (t.nbrsOfLine x) = [] then none
      else some (t.lines.flatMap (t.nbrsOfLine x)) := by
  have hlen := length_nbrs_of_not_both hboth
  rw [getNbrArray, getNbrNum, if_pos hres]
  simp only [hlen, Nat.sub_self, List.replicate_zero, List.append_nil, Nat.lt_irrefl, or_false]
  simp only [← hlen, List.length_eq_zero_iff]

theorem WellFormed.not_both (ht : t.WellFormed) (x : ℤ) : ∀ l ∈ t.lines,
    ¬ (t.getNodeIDfromname l.host1 = x ∧ t.getNodeIDfromname l.host2 = x) := by
  intro l hl h
  exact ht.noSelfLink l hl (h.1.trans h.2.symm)

theorem WellFormed.startsAt (ht : t.WellFormed) {x : ℤ} (hx : x ∈ t.nodeIDs) : t.StartsAt x :=
  ⟨nodeID_nonneg ht.resolved hx, ht.resolved, ht.not_both x, ht.nodes⟩

/-- A line that names the node twice makes the array overflow. -/
theorem getNbrArray_of_both {l : Line Host} (hl : l ∈ t.lines) {x : ℤ}
    (h : t.getNodeIDfromname l.host1 = x ∧ t.getNodeIDfromname l.host2 = x) :
    t.getNbrArray x = none := by
  have hpos : 0 < t.lines.countP fun l =>
      t.getNodeIDfromname l.host1 = x ∧ t.getNodeIDfromname l.host2 = x :=
    List.countP_pos_iff.mpr ⟨l, hl, by simpa using h⟩
  have hlen := length_flatMap_nbrsOfLine (t := t) t.lines x
  rw [getNbrArray, getNbrNum]
  split
  next => rfl
  next numNodes hnum =>
    split at hnum
    next =>
      have hlt : numNodes < (t.lines.flatMap (t.nbrsOfLine x)).length := by
        rw [← Option.some.inj hnum]
        omega
      exact if_pos (.inr hlt)
    next => contradiction

/-- The neighbours are read exactly where they can be. -/
theorem nbrsRead_eq_some_iff {x : ℤ} {nbrs : List ℤ} : t.nbrsRead x = some nbrs ↔
    0 ≤ x ∧ (∀ l ∈ t.lines, t.resolves l) ∧ (∀ l ∈ t.lines,
      ¬ (t.getNodeIDfromname l.host1 = x ∧ t.getNodeIDfromname l.host2 = x)) ∧
        nbrs = t.lines.flatMap (t.nbrsOfLine x) := by
  unfold nbrsRead
  by_cases hx : x < 0
  · rw [if_pos hx]
    exact iff_of_false (by simp) fun h => absurd h.1 (by omega)
  by_cases hres : ∀ l ∈ t.lines, t.resolves l
  · rw [if_neg hx, and_iff_right (by omega), and_iff_right hres, getNbrNum, if_pos hres,
      Option.bind_some]
    by_cases hboth : ∀ l ∈ t.lines,
        ¬ (t.getNodeIDfromname l.host1 = x ∧ t.getNodeIDfromname l.host2 = x)
    · rw [and_iff_right hboth, ← length_nbrs_of_not_both hboth, getNbrArray_eq hres hboth]
      by_cases hnil : t.lines.flatMap (t.nbrsOfLine x) = []
      · rw [hnil, List.length_nil, if_pos rfl, Option.some_inj, eq_comm]
      · rw [if_neg (mt List.length_eq_zero_iff.mp hnil), if_neg hnil, Option.some_inj, eq_comm]
    · obtain ⟨l, hl, h⟩ : ∃ l ∈ t.lines,
          t.getNodeIDfromname l.host1 = x ∧ t.getNodeIDfromname l.host2 = x := by
        simpa using hboth
      have hpos : 0 < t.lines.countP fun l =>
          t.getNodeIDfromname l.host1 = x ∨ t.getNodeIDfromname l.host2 = x :=
        List.countP_pos_iff.mpr ⟨l, hl, by simpa using .inl h.1⟩
      rw [if_neg hpos.ne', getNbrArray_of_both hl h]
      exact iff_of_false (by simp) fun h => hboth h.1
  · rw [if_neg hx, getNbrNum, if_neg hres]
    exact iff_of_false (by simp) fun h => hres h.2.1

/-- The nodes are read where the count stops inside the array, or at the word behind it. -/
theorem nodesRead_eq_some_iff {nodes : List ℤ} : t.nodesRead = some nodes ↔
    (∀ l ∈ t.lines, t.resolves l) ∧ (t.nodeIDs.length < maxNodeNum ∨
      t.nodeIDs.length = maxNodeNum ∧ t.behindNodeIDs = -1) ∧ nodes = t.nodeIDs := by
  unfold nodesRead
  constructor
  · intro h
    obtain ⟨num, hnum, h⟩ := Option.bind_eq_some_iff.mp h
    obtain ⟨hres, hnodes, rfl⟩ := of_getNodeNum hnum
    rw [getNodeNum_eq hres hnodes] at hnum
    refine ⟨hres, ?_, ?_⟩
    · split at hnum
      next hroom =>
        exact hnodes.lt_or_eq.imp_right fun heq => ⟨heq, hroom.resolve_left heq.not_lt⟩
      next => contradiction
    · split at h
      next hzero =>
        rw [← Option.some.inj h, List.eq_nil_of_length_eq_zero hzero]
      next => exact (getNodeArray_eq h).2
  · rintro ⟨hres, hroom, rfl⟩
    have hnodes : t.nodeIDs.length ≤ maxNodeNum := hroom.elim Nat.le_of_lt fun h => h.1.le
    have hnum : t.getNodeNum = some t.nodeIDs.length := by
      rw [getNodeNum_eq hres hnodes, if_pos (hroom.imp_right And.right)]
    rw [hnum, Option.bind_some]
    split
    next hzero => rw [List.eq_nil_of_length_eq_zero hzero]
    next hpos =>
      rw [getNodeArray, hnum, Option.bind_some, if_neg hpos, scanLines_eq hres hnodes]
      simp [padded]

/-- Where it is defined, the array holds each node with a direct link. -/
theorem mem_getNbrArray (ht : t.WellFormed) {x w : ℤ} {nbrs : List ℤ}
    (h : t.getNbrArray x = some nbrs) : w ∈ nbrs ↔ ∃ c, t.link x w c := by
  rw [getNbrArray_eq ht.resolved (ht.not_both x)] at h
  split at h
  next => contradiction
  next => rw [← Option.some.inj h, mem_flatMap_nbrsOfLine]

theorem exists_getNbrArray (ht : t.WellFormed) {x w : ℤ} {c : ℕ} (h : t.link x w c) :
    ∃ nbrs, t.getNbrArray x = some nbrs := by
  have hmem := mem_flatMap_nbrsOfLine.mpr ⟨c, h⟩
  exact ⟨_, by
    rw [getNbrArray_eq ht.resolved (ht.not_both x), if_neg (List.ne_nil_of_mem hmem)]⟩

end Nbrs

/-- Hosts named by their node IDs. -/
def numbered (lines : List (Line ℕ)) : Topology ℕ where
  lines := lines
  gethostbyname h := some (UInt32.ofNat h)
  behindNodeIDs := 0

end Topology
end DartNet.Network
