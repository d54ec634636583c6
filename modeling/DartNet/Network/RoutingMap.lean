import DartNet.Network.Routingtable

/-! The routing table as a map from destinations to next hops, whatever destinations share a
chain. -/
namespace DartNet.Network

/-- The loop of `routingtable_setnextnode` behind the entry it stands at. -/
def setBehind (destNodeID nextNodeID : ℤ) : RoutingtableEntry → List RoutingtableEntry →
    List RoutingtableEntry
  | currentEntry, [] => [currentEntry, ⟨destNodeID, nextNodeID⟩]
  | currentEntry, e :: es =>
    if e.destNodeID = destNodeID then currentEntry :: { e with nextNodeID } :: es
    else currentEntry :: setBehind destNodeID nextNodeID e es

/-- The loop of `routingtable_getnextnode` behind the entry it stands at. -/
def getBehind (destNodeID : ℤ) : List RoutingtableEntry → ℤ
  | [] => -1
  | e :: es => if e.destNodeID = destNodeID then e.nextNodeID else getBehind destNodeID es

/-- The entry at the head of a chain is tested apart from those behind it. -/
def setAtHash (destNodeID nextNodeID : ℤ) : List RoutingtableEntry → List RoutingtableEntry
  | [] => [⟨destNodeID, nextNodeID⟩]
  | currentEntry :: es =>
    if currentEntry.destNodeID = destNodeID then { currentEntry with nextNodeID } :: es
    else setBehind destNodeID nextNodeID currentEntry es

def getAtHash (destNodeID : ℤ) : List RoutingtableEntry → ℤ
  | [] => -1
  | currentEntry :: es =>
    if currentEntry.destNodeID = destNodeID then currentEntry.nextNodeID
    else getBehind destNodeID es

section Chain
variable {d n : ℤ}

theorem setBehind_eq (e : RoutingtableEntry) (es : List RoutingtableEntry) :
    setBehind d n e es = e :: setInChain d n es := by
  induction es generalizing e with
  | nil => rfl
  | cons e' es ih =>
    simp only [setBehind, setInChain, ih]
    split <;> rfl

/-- The test apart makes no difference. -/
theorem setAtHash_eq (es : List RoutingtableEntry) : setAtHash d n es = setInChain d n es := by
  cases es with
  | nil => rfl
  | cons e es => simp only [setAtHash, setInChain, setBehind_eq]

theorem getBehind_eq (es : List RoutingtableEntry) : getBehind d es = getInChain d es := by
  induction es with
  | nil => rfl
  | cons e es ih => simp only [getBehind, getInChain, ih]

theorem getAtHash_eq (es : List RoutingtableEntry) : getAtHash d es = getInChain d es := by
  cases es with
  | nil => rfl
  | cons e es => simp only [getAtHash, getInChain, getBehind_eq]

/-- The destinations in a chain, in its order. -/
def dests (es : List RoutingtableEntry) : List ℤ := es.map (·.destNodeID)

@[simp] theorem dests_cons (e : RoutingtableEntry) (es : List RoutingtableEntry) :
    dests (e :: es) = e.destNodeID :: dests es := rfl

theorem dests_setInChain (d n : ℤ) (es : List RoutingtableEntry) :
    dests (setInChain d n es) = if d ∈ dests es then dests es else dests es ++ [d] := by
  induction es with
  | nil => rfl
  | cons e es ih =>
    simp only [setInChain]
    by_cases he : e.destNodeID = d
    · simp [he]
    · rw [if_neg he, dests_cons, dests_cons, ih]
      by_cases hmem : d ∈ dests es
      · rw [if_pos hmem, if_pos (List.mem_cons_of_mem _ hmem)]
      · rw [if_neg hmem, if_neg (by simp [Ne.symm he, hmem]), List.cons_append]

/-- The entries for other destinations stay where they are. -/
theorem filter_setInChain (d n : ℤ) (es : List RoutingtableEntry) :
    (setInChain d n es).filter (·.destNodeID ≠ d) = es.filter (·.destNodeID ≠ d) := by
  induction es with
  | nil => simp [setInChain]
  | cons e es ih =>
    simp only [setInChain]
    by_cases he : e.destNodeID = d
    · simp [he]
    · rw [if_neg he, List.filter_cons, List.filter_cons, ih]

theorem mem_setInChain {e : RoutingtableEntry} {es : List RoutingtableEntry}
    (h : e ∈ setInChain d n es) : e.destNodeID = d ∨ e.destNodeID ∈ dests es := by
  have hmem : e.destNodeID ∈ dests (setInChain d n es) := List.mem_map_of_mem h
  rw [dests_setInChain] at hmem
  split at hmem
  next => exact .inr hmem
  next =>
    rcases List.mem_append.mp hmem with hmem | hmem
    · exact .inr hmem
    · exact .inl (List.mem_singleton.mp hmem)

end Chain

namespace Routingtable

/-- Every entry is in the chain of its destination. -/
def Hashed (rt : Routingtable) : Prop :=
  ∀ i, ∀ e ∈ rt.hash i, slot e.destNodeID = some i

/-- What setting the next hop of `d` does: no chain loses an entry or changes its order, a known
destination gets no second entry, and what belongs to other destinations stays. -/
structure Sets (d n : ℤ) (rt rt' : Routingtable) : Prop where
  keeps : ∀ i, dests (rt.hash i) <+: dests (rt'.hash i)
  known : (∃ i, d ∈ dests (rt.hash i)) → ∀ i, dests (rt'.hash i) = dests (rt.hash i)
  others : ∀ i, (rt'.hash i).filter (·.destNodeID ≠ d) = (rt.hash i).filter (·.destNodeID ≠ d)
  lookup : ∀ y, rt'.getnextnode y = if y = d then some n else rt.getnextnode y

section
variable {rt rt' : Routingtable} {d n : ℤ}

theorem Hashed.setnextnode (hrt : rt.Hashed) (h : rt.setnextnode d n = some rt') : rt'.Hashed := by
  obtain ⟨i, hi, rfl⟩ := Option.map_eq_some_iff.mp h
  intro j e he
  by_cases hij : j = i
  · subst hij
    simp only [Function.update_self] at he
    rcases mem_setInChain he with hd | hd
    · rw [hd, hi]
    · obtain ⟨e', he', hd⟩ := List.mem_map.mp hd
      rw [← hd, hrt j e' he']
  · simp only [Function.update_of_ne hij] at he
    exact hrt j e he

theorem Hashed.sets (hrt : rt.Hashed) (h : rt.setnextnode d n = some rt') : Sets d n rt rt' := by
  have hlookup := getnextnode_setnextnode h
  obtain ⟨i, hi, rfl⟩ := Option.map_eq_some_iff.mp h
  constructor
  · intro j
    by_cases hij : j = i
    · subst hij
      simp only [Function.update_self, dests_setInChain]
      split
      next => exact List.prefix_refl _
      next => exact List.prefix_append _ _
    · simp only [Function.update_of_ne hij]
      exact List.prefix_refl _
  · rintro ⟨k, hk⟩ j
    obtain ⟨e, he, hd⟩ := List.mem_map.mp hk
    obtain rfl : k = i := by
      have hslot := hrt k e he
      rw [hd, hi] at hslot
      exact (Option.some.inj hslot).symm
    by_cases hij : j = k
    · subst hij
      simp only [Function.update_self, dests_setInChain, if_pos hk]
    · simp only [Function.update_of_ne hij]
  · intro j
    by_cases hij : j = i
    · subst hij
      simp only [Function.update_self, filter_setInChain]
    · simp only [Function.update_of_ne hij]
  · exact hlookup

/-- A call of `routingtable_setnextnode` for each pair of a destination and a next hop. -/
def setAll (rt : Routingtable) (sets : List (ℤ × ℤ)) : Option Routingtable :=
  sets.foldlM (fun rt p => rt.setnextnode p.1 p.2) rt

end
end Routingtable

/-- The next hop of the last call for `d`. -/
def lastSet (sets : List (ℤ × ℤ)) (d : ℤ) : Option ℤ :=
  (sets.reverse.find? (·.1 = d)).map (·.2)

/-- The map that the table stands for. -/
def nextHop (nbrs : List ℤ) (sets : List (ℤ × ℤ)) (d : ℤ) : ℤ :=
  (lastSet sets d).getD (if d ∈ nbrs then d else -1)

theorem lastSet_cons (p : ℤ × ℤ) (sets : List (ℤ × ℤ)) (d : ℤ) :
    lastSet (p :: sets) d = (lastSet sets d).or (if p.1 = d then some p.2 else none) := by
  rw [lastSet, lastSet, List.reverse_cons, List.find?_append]
  cases sets.reverse.find? (·.1 = d) with
  | none => by_cases hp : p.1 = d <;> simp [hp]
  | some q => simp

namespace Routingtable
variable {rt : Routingtable} {nbrs : List ℤ} {sets : List (ℤ × ℤ)}

/-- A run of calls keeps every entry in its chain, and the last one for a destination counts. -/
theorem setAll_spec (hrt : rt.Hashed) (hsets : ∀ p ∈ sets, 0 ≤ p.1) :
    ∃ rt', rt.setAll sets = some rt' ∧ rt'.Hashed ∧
      (∀ i, dests (rt.hash i) <+: dests (rt'.hash i)) ∧
      ∀ y, rt'.getnextnode y = (lastSet sets y).or (rt.getnextnode y) := by
  induction sets generalizing rt with
  | nil => exact ⟨rt, rfl, hrt, fun _ => List.prefix_refl _, fun _ => rfl⟩
  | cons p sets ih =>
    obtain ⟨hp, hsets⟩ := List.forall_mem_cons.mp hsets
    obtain ⟨rt₁, h₁⟩ := rt.exists_setnextnode hp p.2
    obtain ⟨rt', h', hhashed, hkeeps, hlookup⟩ := ih (hrt.setnextnode h₁) hsets
    have hset := hrt.sets h₁
    refine ⟨rt', ?_, hhashed, fun i => (hset.keeps i).trans (hkeeps i), ?_⟩
    · rw [setAll, List.foldlM_cons, h₁]
      exact h'
    · intro y
      rw [hlookup, hset.lookup, lastSet_cons, Option.or_assoc]
      congr 1
      by_cases hy : p.1 = y
      · rw [if_pos hy.symm, if_pos hy, Option.some_or]
      · rw [if_neg (Ne.symm hy), if_neg hy, Option.none_or]

theorem addNbrs_chains {ns : List ℤ} (hns : ∀ x ∈ ns, 0 ≤ x) (rt₀ : Routingtable) :
    ∃ rt, ns.foldlM addNbr rt₀ = some rt ∧
      ∀ i, rt.hash i = rt₀.hash i ++ (ns.filter (slot · = some i)).map fun w => ⟨w, w⟩ := by
  induction ns generalizing rt₀ with
  | nil => exact ⟨rt₀, rfl, by simp⟩
  | cons n ns ih =>
    obtain ⟨hn, hns⟩ := List.forall_mem_cons.mp hns
    obtain ⟨i, hi⟩ := exists_slot hn
    obtain ⟨rt, hrt, hchain⟩ := ih hns
      ⟨Function.update rt₀.hash i (rt₀.hash i ++ [⟨n, n⟩])⟩
    refine ⟨rt, ?_, ?_⟩
    · rw [List.foldlM_cons, addNbr, hi]
      exact hrt
    · intro j
      rw [hchain]
      by_cases hij : j = i
      · subst hij
        simp [hi]
      · simp [hi, Function.update_of_ne hij, Ne.symm hij]

/-- A fresh table has an entry for each element of the array, in its order. -/
theorem create_chains (hnbrs : ∀ x ∈ nbrs, 0 ≤ x) : ∃ rt, create nbrs = some rt ∧
    ∀ i, rt.hash i = (nbrs.filter (slot · = some i)).map fun w => ⟨w, w⟩ := by
  obtain ⟨rt, hcreate, hchains⟩ := addNbrs_chains hnbrs ⟨fun _ => []⟩
  exact ⟨rt, hcreate, by simpa using hchains⟩

theorem hashed_create {rt : Routingtable}
    (h : ∀ i, rt.hash i = (nbrs.filter (slot · = some i)).map fun w => ⟨w, w⟩) : rt.Hashed := by
  intro i e he
  rw [h, List.mem_map] at he
  obtain ⟨w, hw, rfl⟩ := he
  simpa using (List.mem_filter.mp hw).2

/-- For neighbours in any number and any calls behind `routingtable_create`, a lookup finds what
the map holds, and another call does to the chains only what it has to. -/
theorem implements_map (hnbrs : ∀ x ∈ nbrs, 0 ≤ x) (hsets : ∀ p ∈ sets, 0 ≤ p.1) :
    ∃ rt₀ rt, create nbrs = some rt₀ ∧ rt₀.setAll sets = some rt ∧
      (∀ i, rt₀.hash i = (nbrs.filter (slot · = some i)).map fun w => ⟨w, w⟩) ∧
      (∀ i, dests (rt₀.hash i) <+: dests (rt.hash i)) ∧
      (∀ d, 0 ≤ d → rt.getnextnode d = some (nextHop nbrs sets d)) ∧ rt.Hashed ∧
      ∀ d n, 0 ≤ d → ∃ rt', rt.setnextnode d n = some rt' ∧ Sets d n rt rt' := by
  obtain ⟨rt₀, hcreate, hchains⟩ := create_chains hnbrs
  obtain ⟨rt, hset, hhashed, hkeeps, hlookup⟩ := setAll_spec (hashed_create hchains) hsets
  refine ⟨rt₀, rt, hcreate, hset, hchains, hkeeps, ?_, hhashed, ?_⟩
  · intro d hd
    rw [hlookup, getnextnode_create hcreate hd, nextHop]
    cases lastSet sets d <;> rfl
  · intro d n hd
    obtain ⟨rt', h⟩ := rt.exists_setnextnode hd n
    exact ⟨rt', h, hhashed.sets h⟩

/-- Three destinations in one chain, one of them a neighbour on two links. -/
theorem implements_map_collision :
    (∀ x ∈ [(2 : ℤ), 12, 2], 0 ≤ x) ∧ (∀ p ∈ [((22 : ℤ), (12 : ℤ)), (2, 12)], 0 ≤ p.1) ∧
    ∃ rt₀ rt, create [2, 12, 2] = some rt₀ ∧ rt₀.setAll [(22, 12), (2, 12)] = some rt ∧
      rt.hash ⟨2, by decide⟩ = [⟨2, 12⟩, ⟨12, 12⟩, ⟨2, 2⟩, ⟨22, 12⟩] ∧
      (∀ d, 0 ≤ d → rt.getnextnode d = some (nextHop [2, 12, 2] [(22, 12), (2, 12)] d)) := by
  have hnbrs : ∀ x ∈ [(2 : ℤ), 12, 2], 0 ≤ x := by decide
  have hsets : ∀ p ∈ [((22 : ℤ), (12 : ℤ)), (2, 12)], 0 ≤ p.1 := by decide
  obtain ⟨rt₀, rt, hcreate, hset, _, _, hlookup, _, _⟩ := implements_map hnbrs hsets
  refine ⟨hnbrs, hsets, rt₀, rt, hcreate, hset, ?_, hlookup⟩
  obtain rfl := Option.some.inj hcreate
  obtain rfl := Option.some.inj hset
  rfl

end Routingtable
end DartNet.Network
