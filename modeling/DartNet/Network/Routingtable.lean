import Mathlib.Data.Int.Notation
import Mathlib.Logic.Function.Basic
import Mathlib.Tactic.Common

/-! The hash table of `network/routingtable.c`. -/
namespace DartNet.Network

def maxRoutingtableSlots : ℕ := 10

/-- `routingtable_entry_t` without the link to the next entry of its chain. -/
structure RoutingtableEntry where
  destNodeID : ℤ
  nextNodeID : ℤ
  deriving DecidableEq

/-- `routingtable_t`, a chain in each slot. -/
structure Routingtable where
  hash : Fin maxRoutingtableSlots → List RoutingtableEntry

/-- The remainder has the sign of `node`. -/
def makehash (node : ℤ) : ℤ := node.tmod maxRoutingtableSlots

/-- The slot of a node; an access before the first slot is undefined. -/
def slot (node : ℤ) : Option (Fin maxRoutingtableSlots) :=
  if h : 0 ≤ makehash node then
    some ⟨(makehash node).toNat, by
      have hlt : makehash node < 10 := Int.tmod_lt_of_pos node (by decide)
      simp only [maxRoutingtableSlots]
      omega⟩
  else none

theorem exists_slot {node : ℤ} (h : 0 ≤ node) : ∃ i, slot node = some i :=
  ⟨_, dif_pos (Int.tmod_nonneg _ h)⟩

/-- The walk through a chain in `routingtable_setnextnode`. -/
def setInChain (destNodeID nextNodeID : ℤ) : List RoutingtableEntry → List RoutingtableEntry
  | [] => [⟨destNodeID, nextNodeID⟩]
  | e :: es =>
    if e.destNodeID = destNodeID then { e with nextNodeID } :: es
    else e :: setInChain destNodeID nextNodeID es

/-- The walk through a chain in `routingtable_getnextnode`. -/
def getInChain (destNodeID : ℤ) : List RoutingtableEntry → ℤ
  | [] => -1
  | e :: es => if e.destNodeID = destNodeID then e.nextNodeID else getInChain destNodeID es

theorem getInChain_setInChain (d n y : ℤ) (es : List RoutingtableEntry) :
    getInChain y (setInChain d n es) = if y = d then n else getInChain y es := by
  induction es with
  | nil => simp [setInChain, getInChain, eq_comm]
  | cons e es ih =>
    simp only [setInChain]
    split
    next he =>
      by_cases hy : y = d
      · simp [getInChain, he, hy]
      · simp [getInChain, he, hy, Ne.symm hy]
    next he =>
      simp only [getInChain, ih]
      by_cases hy : e.destNodeID = y
      · simp [hy, show y ≠ d from fun h => he (hy.trans h)]
      · simp [hy]

namespace Routingtable

def setnextnode (routingtable : Routingtable) (destNodeID nextNodeID : ℤ) :
    Option Routingtable :=
  (slot destNodeID).map fun hashNum =>
    ⟨Function.update routingtable.hash hashNum
      (setInChain destNodeID nextNodeID (routingtable.hash hashNum))⟩

/-- The next hop, -1 if there is none. -/
def getnextnode (routingtable : Routingtable) (destNodeID : ℤ) : Option ℤ :=
  (slot destNodeID).map fun hashNum => getInChain destNodeID (routingtable.hash hashNum)

/-- One turn of the loop of `routingtable_create`. -/
def addNbr (routingtable : Routingtable) (nbr : ℤ) : Option Routingtable :=
  (slot nbr).map fun tempHash =>
    ⟨Function.update routingtable.hash tempHash (routingtable.hash tempHash ++ [⟨nbr, nbr⟩])⟩

def create (nbrArray : List ℤ) : Option Routingtable := nbrArray.foldlM addNbr ⟨fun _ => []⟩

/-- Neighbours with a slot can be entered. -/
theorem exists_create {nbrArray : List ℤ} (h : ∀ nbr ∈ nbrArray, 0 ≤ nbr) :
    ∃ rt, create nbrArray = some rt := by
  suffices hfold : ∀ nbrs : List ℤ, (∀ nbr ∈ nbrs, 0 ≤ nbr) → ∀ rt : Routingtable,
      ∃ rt', nbrs.foldlM addNbr rt = some rt' from hfold nbrArray h _
  intro nbrs
  induction nbrs with
  | nil => exact fun _ rt => ⟨rt, rfl⟩
  | cons nbr nbrs ih =>
    intro hpos rt
    obtain ⟨hnbr, hpos⟩ := List.forall_mem_cons.mp hpos
    obtain ⟨i, hi⟩ := exists_slot hnbr
    rw [List.foldlM_cons, addNbr, hi]
    exact ih hpos _

theorem exists_setnextnode (rt : Routingtable) {d : ℤ} (hd : 0 ≤ d) (n : ℤ) :
    ∃ rt', rt.setnextnode d n = some rt' := by
  obtain ⟨i, hi⟩ := exists_slot hd
  exact ⟨_, by rw [setnextnode, hi, Option.map_some]⟩

theorem getnextnode_setnextnode {rt rt' : Routingtable} {d n : ℤ}
    (h : rt.setnextnode d n = some rt') (y : ℤ) :
    rt'.getnextnode y = if y = d then some n else rt.getnextnode y := by
  obtain ⟨i, hi, rfl⟩ := Option.map_eq_some_iff.mp h
  by_cases hy : y = d
  · subst hy
    simp [getnextnode, hi, getInChain_setInChain]
  · cases hj : slot y with
    | none => simp [getnextnode, hj, hy]
    | some j =>
      by_cases hij : j = i
      · subst hij
        simp [getnextnode, hj, hy, getInChain_setInChain]
      · simp [getnextnode, hj, hy, Function.update_of_ne hij]

/-- The entries of a fresh table lead to the neighbours themselves. -/
def Direct (nbrs : List ℤ) (rt : Routingtable) : Prop :=
  ∀ i, ∀ e ∈ rt.hash i, e.nextNodeID = e.destNodeID ∧ e.destNodeID ∈ nbrs

def HasEntry (rt : Routingtable) (y : ℤ) : Prop :=
  ∃ i, slot y = some i ∧ ∃ e ∈ rt.hash i, e.destNodeID = y

section Create
variable {nbrs : List ℤ} {rt : Routingtable}

theorem Direct.getnextnode (hrt : rt.Direct nbrs) {y : ℤ} (hy : rt.HasEntry y) :
    rt.getnextnode y = some y := by
  obtain ⟨i, hi, e, he, hey⟩ := hy
  have hget : ∀ es : List RoutingtableEntry, (∀ e ∈ es, e.nextNodeID = e.destNodeID) →
      (∃ e ∈ es, e.destNodeID = y) → getInChain y es = y := by
    intro es hes hex
    induction es with
    | nil => simp at hex
    | cons e es ih =>
      simp only [getInChain]
      split
      next hd => rw [hes e (List.mem_cons_self ..), hd]
      next hd =>
        apply ih (fun e he => hes e (List.mem_cons_of_mem _ he))
        simpa [hd] using hex
  rw [Routingtable.getnextnode, hi, Option.map_some,
    hget _ (fun e he => (hrt i e he).1) ⟨e, he, hey⟩]

theorem Direct.getnextnode_of_not_mem (hrt : rt.Direct nbrs) {y : ℤ} (hpos : 0 ≤ y)
    (hy : y ∉ nbrs) : rt.getnextnode y = some (-1) := by
  obtain ⟨i, hi⟩ := exists_slot hpos
  have hget : ∀ es : List RoutingtableEntry, (∀ e ∈ es, e.destNodeID ∈ nbrs) →
      getInChain y es = -1 := by
    intro es hes
    induction es with
    | nil => rfl
    | cons e es ih =>
      obtain ⟨he, hes⟩ := List.forall_mem_cons.mp hes
      rw [getInChain, if_neg fun hd : e.destNodeID = y => hy (hd ▸ he), ih hes]
  rw [Routingtable.getnextnode, hi, Option.map_some, hget _ fun e he => (hrt i e he).2]

theorem Direct.addNbr (hrt : rt.Direct nbrs) {nbr : ℤ} (hnbr : nbr ∈ nbrs) {rt' : Routingtable}
    (h : rt.addNbr nbr = some rt') :
    rt'.Direct nbrs ∧ rt'.HasEntry nbr ∧ ∀ y, rt.HasEntry y → rt'.HasEntry y := by
  obtain ⟨i, hi, rfl⟩ := Option.map_eq_some_iff.mp h
  refine ⟨?_, ⟨i, hi, ⟨nbr, nbr⟩, by simp, rfl⟩, ?_⟩
  · intro j e he
    by_cases hij : j = i
    · subst hij
      simp only [Function.update_self, List.mem_append, List.mem_singleton] at he
      rcases he with he | rfl
      · exact hrt j e he
      · exact ⟨rfl, hnbr⟩
    · simp only [Function.update_of_ne hij] at he
      exact hrt j e he
  · rintro y ⟨j, hj, e, he, hey⟩
    refine ⟨j, hj, e, ?_, hey⟩
    by_cases hij : j = i
    · subst hij
      simp [he]
    · simpa only [Function.update_of_ne hij] using he

theorem create_direct (h : create nbrs = some rt) :
    rt.Direct nbrs ∧ ∀ y ∈ nbrs, rt.HasEntry y := by
  suffices hfold : ∀ (ns : List ℤ) (rt₀ : Routingtable), (∀ n ∈ ns, n ∈ nbrs) →
      rt₀.Direct nbrs → ns.foldlM Routingtable.addNbr rt₀ = some rt → rt.Direct nbrs ∧
        (∀ y ∈ ns, rt.HasEntry y) ∧ ∀ y, rt₀.HasEntry y → rt.HasEntry y by
    obtain ⟨hdirect, hall, _⟩ := hfold nbrs _ (fun _ hn => hn) (fun i e he => by simp at he) h
    exact ⟨hdirect, hall⟩
  intro ns
  induction ns with
  | nil =>
    intro rt₀ _ hrt h
    obtain rfl := Option.some.inj h
    exact ⟨hrt, by simp, fun _ hy => hy⟩
  | cons n ns ih =>
    intro rt₀ hns hrt h
    obtain ⟨hn, hns⟩ := List.forall_mem_cons.mp hns
    rw [List.foldlM_cons] at h
    obtain ⟨rt₁, h₁, h⟩ := Option.bind_eq_some_iff.mp h
    obtain ⟨hdirect, hnew, hmono⟩ := hrt.addNbr hn h₁
    obtain ⟨hdirect', hall, hmono'⟩ := ih rt₁ hns hdirect h
    refine ⟨hdirect', ?_, fun y hy => hmono' y (hmono y hy)⟩
    intro y hy
    rcases List.mem_cons.mp hy with rfl | hy
    · exact hmono' y hnew
    · exact hall y hy

/-- A fresh table sends to a neighbour directly, and nowhere else. -/
theorem getnextnode_create (h : create nbrs = some rt) {y : ℤ} (hy : 0 ≤ y) :
    rt.getnextnode y = some (if y ∈ nbrs then y else -1) := by
  obtain ⟨hdirect, hall⟩ := create_direct h
  split
  next hmem => exact hdirect.getnextnode (hall y hmem)
  next hmem => exact hdirect.getnextnode_of_not_mem hy hmem

end Create
end Routingtable
end DartNet.Network
