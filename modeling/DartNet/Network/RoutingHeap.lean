import DartNet.Foundation.Cells
import DartNet.Foundation.Transition
import DartNet.Network.RoutingMap

/-! The routing table as `network/routingtable.c` keeps it in memory. A loop makes a given number
of turns at most, and `malloc` does not fail. -/
namespace DartNet.Network
open Cells Function Transition

abbrev Entries := Heap (Cell RoutingtableEntry)

/-- A `routingtable_t` -/
abbrev Slots := Fin maxRoutingtableSlots → Option ℕ

/-- The memory that the entries and the tables are in. -/
@[ext] structure TableMemory where
  entries : Entries
  tables : Heap Slots

structure Malloc where
  entry : Allocator (Cell RoutingtableEntry)
  table : Allocator Slots

/-- The assignments to a new entry. -/
def fillEntry (h : Entries) (entry : ℕ) (destNodeID nextNodeID : ℤ) : Option Entries :=
  (h.store entry fun c => { c with data := { c.data with destNodeID } }).bind fun h =>
    (h.store entry fun c => { c with data := { c.data with nextNodeID } }).bind fun h =>
      h.store entry fun c => { c with next := none }

/-- The loop of `routingtable_setnextnode`, and what follows it. -/
def setLoop (alloc : Allocator (Cell RoutingtableEntry)) (destNodeID nextNodeID : ℤ) :
    ℕ → Entries → ℕ → Option Entries
  | 0, _, _ => none
  | turns + 1, h, currentEntry =>
    (h.cell currentEntry).bind fun c =>
      match c.next with
      | none =>
        let (next, h) := h.malloc alloc
        (h.store currentEntry fun c => { c with next := some next }).bind fun h =>
          fillEntry h next destNodeID nextNodeID
      | some currentEntry =>
        (h.cell currentEntry).bind fun c =>
          if c.data.destNodeID = destNodeID then
            h.store currentEntry fun c => { c with data := { c.data with nextNodeID } }
          else setLoop alloc destNodeID nextNodeID turns h currentEntry

/-- The loop of `routingtable_getnextnode`, and what follows it. -/
def getLoop (destNodeID : ℤ) : ℕ → Entries → ℕ → Option ℤ
  | 0, _, _ => none
  | turns + 1, h, currentEntry =>
    (h.cell currentEntry).bind fun c =>
      match c.next with
      | none => some (-1)
      | some currentEntry =>
        (h.cell currentEntry).bind fun c =>
          if c.data.destNodeID = destNodeID then some c.data.nextNodeID
          else getLoop destNodeID turns h currentEntry

/-- The loop of `routingtable_create` to the end of a chain, and what follows it. -/
def linkLast (temp : ℕ) : ℕ → Entries → ℕ → Option Entries
  | 0, _, _ => none
  | turns + 1, h, tempEntry =>
    (h.cell tempEntry).bind fun c =>
      match c.next with
      | none => h.store tempEntry fun c => { c with next := some temp }
      | some tempEntry => linkLast temp turns h tempEntry

/-- The inner loop of `routingtable_destroy`. -/
def freeLoop : ℕ → Entries → Option ℕ → Option Entries
  | _, h, none => some h
  | 0, _, some _ => none
  | turns + 1, h, some currentEntry =>
    (h.cell currentEntry).bind fun c =>
      (h.free currentEntry).bind fun h => freeLoop turns h c.next

namespace TableMemory
variable (alloc : Malloc) (turns : ℕ)

def setnextnode (m : TableMemory) (routingtable : ℕ) (destNodeID nextNodeID : ℤ) :
    Option TableMemory :=
  (slot destNodeID).bind fun hashNum =>
    (m.tables.cell routingtable).bind fun rt =>
      match rt hashNum with
      | some currentEntry =>
        (m.entries.cell currentEntry).bind fun c =>
          if c.data.destNodeID = destNodeID then
            (m.entries.store currentEntry fun c =>
              { c with data := { c.data with nextNodeID } }).map ({ m with entries := · })
          else
            (setLoop alloc.entry destNodeID nextNodeID turns m.entries currentEntry).map
              ({ m with entries := · })
      | none =>
        let (entry, entries) := m.entries.malloc alloc.entry
        (m.tables.store routingtable fun rt => update rt hashNum (some entry)).bind fun tables =>
          (fillEntry entries entry destNodeID nextNodeID).map (⟨·, tables⟩)

def getnextnode (m : TableMemory) (routingtable : ℕ) (destNodeID : ℤ) : Option ℤ :=
  (slot destNodeID).bind fun hashNum =>
    (m.tables.cell routingtable).bind fun rt =>
      match rt hashNum with
      | some currentEntry =>
        (m.entries.cell currentEntry).bind fun c =>
          if c.data.destNodeID = destNodeID then some c.data.nextNodeID
          else getLoop destNodeID turns m.entries currentEntry
      | none => some (-1)

/-- One turn of the loop over the neighbours in `routingtable_create`. -/
def addNbr (routingTable : ℕ) (m : TableMemory) (nbr : ℤ) : Option TableMemory :=
  let (temp, entries) := m.entries.malloc alloc.entry
  (fillEntry entries temp nbr nbr).bind fun entries =>
    (slot nbr).bind fun tempHash =>
      (m.tables.cell routingTable).bind fun rt =>
        match rt tempHash with
        | none =>
          (m.tables.store routingTable fun rt => update rt tempHash (some temp)).map
            (⟨entries, ·⟩)
        | some tempEntry => (linkLast temp turns entries tempEntry).map (⟨·, m.tables⟩)

def create (m : TableMemory) (nbrArray : List ℤ) : Option (ℕ × TableMemory) :=
  let (routingTable, tables) := m.tables.malloc alloc.table
  (tables.store routingTable fun _ _ => none).bind fun tables =>
    (nbrArray.foldlM (addNbr alloc turns routingTable) ⟨m.entries, tables⟩).map (routingTable, ·)

def destroy (m : TableMemory) (routingtable : ℕ) : Option TableMemory :=
  ((List.finRange maxRoutingtableSlots).foldlM (fun entries i =>
    (m.tables.cell routingtable).bind fun rt => freeLoop turns entries (rt i)) m.entries).bind
      fun entries => (m.tables.free routingtable).map (⟨entries, ·⟩)

end TableMemory

section Loops
variable {turns : ℕ} {h : Entries} {a : ℕ} {x : RoutingtableEntry} {as : List ℕ}
  {xs : List RoutingtableEntry}

theorem fillEntry_set (h : Entries) (a : ℕ) (c : Cell RoutingtableEntry) (d n : ℤ) :
    fillEntry (h.set a (some c)) a d n = some (h.set a (some ⟨⟨d, n⟩, none⟩)) := by
  simp [fillEntry]

theorem setLoop_grows (alloc : Allocator (Cell RoutingtableEntry)) (d n : ℤ)
    (hl : ListAt h (some a) (a :: as) (x :: xs)) (hnodup : (a :: as).Nodup)
    (hturns : as.length < turns) : ∃ h' as', setLoop alloc d n turns h a = some h' ∧
      Grows h h' (some a) (a :: as) as' (setBehind d n x xs) := by
  induction as generalizing a x xs turns with
  | nil =>
    obtain ⟨k, rfl⟩ := Nat.exists_eq_succ_of_ne_zero (Nat.ne_zero_of_lt hturns)
    obtain _ | ⟨hcell, htail⟩ := hl
    cases htail
    have hfree := alloc.fresh h
    have hne : a ≠ alloc.addr h := by
      rintro rfl
      simp [hcell] at hfree
    refine ⟨_, _, ?_, grows_link (y := ⟨d, n⟩) hcell hfree⟩
    have hstore := Heap.store_eq (h := h.set (alloc.addr h) (some (alloc.junk h)))
      ((Heap.cell_set_of_ne hne ..).trans hcell) fun c => { c with next := some (alloc.addr h) }
    simp only [setLoop, hcell, Option.bind_some, Heap.malloc, hstore]
    rw [Heap.set_comm hne.symm, fillEntry_set, Heap.set_comm hne]
  | cons b as ih =>
    obtain ⟨k, rfl⟩ := Nat.exists_eq_succ_of_ne_zero (Nat.ne_zero_of_lt hturns)
    obtain _ | ⟨hcell, htail⟩ := hl
    cases htail with
    | @cons _ y next _ ys hcell' htail =>
      obtain ⟨ha, hnodup⟩ := List.nodup_cons.mp hnodup
      simp only [setLoop, hcell, hcell', Option.bind_some, setBehind]
      split
      next hy =>
        have hb := (List.nodup_cons.mp hnodup).1
        exact ⟨_, _, Heap.store_eq hcell' _,
          (htail.grows_set hb { y with nextNodeID := n }).cons hcell ha⟩
      next hy =>
        obtain ⟨h', as', hloop, hgrows⟩ :=
          ih (.cons hcell' htail) hnodup (Nat.lt_of_succ_lt_succ hturns)
        exact ⟨h', a :: as', hloop, hgrows.cons hcell ha⟩

theorem getLoop_eq {d : ℤ} (hl : ListAt h (some a) (a :: as) (x :: xs))
    (hturns : as.length < turns) : getLoop d turns h a = some (getBehind d xs) := by
  induction as generalizing a x xs turns with
  | nil =>
    obtain ⟨k, rfl⟩ := Nat.exists_eq_succ_of_ne_zero (Nat.ne_zero_of_lt hturns)
    obtain _ | ⟨hcell, htail⟩ := hl
    cases htail
    simp [getLoop, hcell, getBehind]
  | cons b as ih =>
    obtain ⟨k, rfl⟩ := Nat.exists_eq_succ_of_ne_zero (Nat.ne_zero_of_lt hturns)
    obtain _ | ⟨hcell, htail⟩ := hl
    cases htail with
    | @cons _ y next _ ys hcell' htail =>
      simp only [getLoop, hcell, hcell', Option.bind_some, getBehind]
      split
      next => rfl
      next => exact ih (.cons hcell' htail) (Nat.lt_of_succ_lt_succ hturns)

/-- What is linked is the chain with the entry that `temp` points to at its end. -/
theorem linkLast_eq {temp : ℕ} {y : RoutingtableEntry}
    (hl : ListAt h (some a) (a :: as) (x :: xs)) (hnodup : (a :: as).Nodup)
    (htemp : h.cell temp = some ⟨y, none⟩) (hnew : temp ∉ a :: as) (hturns : as.length < turns) :
    ∃ h', linkLast temp turns h a = some h' ∧
      ListAt h' (some a) (a :: as ++ [temp]) (x :: xs ++ [y]) ∧
        ∀ c ∉ a :: as, h'.cell c = h.cell c := by
  induction as generalizing a x xs turns with
  | nil =>
    obtain ⟨k, rfl⟩ := Nat.exists_eq_succ_of_ne_zero (Nat.ne_zero_of_lt hturns)
    obtain _ | ⟨hcell, htail⟩ := hl
    cases htail
    have hne : temp ≠ a := List.ne_of_not_mem_cons hnew
    refine ⟨h.set a (some ⟨x, some temp⟩), ?_, ?_, ?_⟩
    · simp only [linkLast, hcell, Option.bind_some, Heap.store_eq hcell]
    · exact .cons (Heap.cell_set_self ..)
        (.cons ((Heap.cell_set_of_ne hne ..).trans htemp) .nil)
    · exact fun c hc => Heap.cell_set_of_ne (List.ne_of_not_mem_cons hc) ..
  | cons b as ih =>
    obtain ⟨k, rfl⟩ := Nat.exists_eq_succ_of_ne_zero (Nat.ne_zero_of_lt hturns)
    obtain _ | ⟨hcell, htail⟩ := hl
    cases htail with
    | @cons _ y next _ ys hcell' htail =>
      obtain ⟨ha, hnodup⟩ := List.nodup_cons.mp hnodup
      obtain ⟨h', hlink, hlist, hrest⟩ := ih (.cons hcell' htail) hnodup
        (fun hmem => hnew (List.mem_cons_of_mem _ hmem)) (Nat.lt_of_succ_lt_succ hturns)
      refine ⟨h', by simpa only [linkLast, hcell, Option.bind_some] using hlink, ?_, ?_⟩
      · exact .cons ((hrest a ha).trans hcell) hlist
      · exact fun c hc => hrest c fun hmem => hc (List.mem_cons_of_mem _ hmem)

theorem freeLoop_eq {p : Option ℕ} (hl : ListAt h p as xs) (hnodup : as.Nodup)
    (hturns : as.length ≤ turns) :
    ∃ h', freeLoop turns h p = some h' ∧
      ∀ c, h'.cell c = if c ∈ as then none else h.cell c := by
  induction as generalizing p xs turns h with
  | nil =>
    cases hl
    exact ⟨h, by cases turns <;> rfl, by simp⟩
  | cons a as ih =>
    obtain ⟨k, rfl⟩ := Nat.exists_eq_succ_of_ne_zero
      (Nat.ne_zero_of_lt hturns)
    obtain ⟨ha, hnodup⟩ := List.nodup_cons.mp hnodup
    cases hl with
    | cons hcell htail =>
      have hframe : ListAt (h.set a none) _ as _ :=
        htail.frame fun b hb => Heap.cell_set_of_ne (ne_of_mem_of_not_mem hb ha) ..
      obtain ⟨h', hfree, hcells⟩ := ih hframe hnodup (Nat.le_of_succ_le_succ hturns)
      refine ⟨h', ?_, fun c => ?_⟩
      · simpa only [freeLoop, hcell, Option.bind_some, Heap.free_eq hcell] using hfree
      · rw [hcells]
        by_cases hc : c = a
        · simp [hc]
        · simp [hc, Heap.cell_set_of_ne hc]

end Loops

/-- The memory holds a table in chains of its own, beside what was there before. -/
structure Holds (m₀ m : TableMemory) (p : ℕ) (rt : Routingtable) (slots : Slots)
    (addrs : Fin maxRoutingtableSlots → List ℕ) : Prop where
  tables : m.tables = m₀.tables.set p (some slots)
  unused : m₀.tables.cell p = none
  chain : ∀ i, ListAt m.entries (slots i) (addrs i) (rt.hash i)
  nodup : ∀ i, (addrs i).Nodup
  apart : ∀ i j, ∀ a ∈ addrs i, a ∈ addrs j → i = j
  own : ∀ i, ∀ a ∈ addrs i, m₀.entries.cell a = none
  rest : ∀ a, (∀ i, a ∉ addrs i) → m.entries.cell a = m₀.entries.cell a

section Tables
variable {m₀ m : TableMemory} {p : ℕ} {rt : Routingtable} {slots : Slots}
  {addrs : Fin maxRoutingtableSlots → List ℕ}

/-- One chain grows, and its slot points to where it begins. -/
theorem Holds.grows (h : Holds m₀ m p rt slots addrs) {i : Fin maxRoutingtableSlots}
    {entries : Entries} {q : Option ℕ} {as : List ℕ} {es : List RoutingtableEntry}
    (hg : Grows m.entries entries q (addrs i) as es) :
    Holds m₀ ⟨entries, m₀.tables.set p (some (update slots i q))⟩ p ⟨update rt.hash i es⟩
      (update slots i q) (update addrs i as) := by
  have hsep : ∀ j, ∀ a ∈ addrs j, a ∈ as → j = i := by
    intro j a ha has
    rcases hg.mem has with hi | hfree
    · exact h.apart j i a ha hi
    · exact absurd hfree ((h.chain j).allocated a ha)
  constructor
  case tables => rfl
  case unused => exact h.unused
  case chain =>
    intro j
    by_cases hj : j = i
    · subst hj
      simpa only [update_self] using hg.list
    · simp only [update_of_ne hj]
      exact (h.chain j).frame fun a ha => hg.rest a fun has => hj (hsep j a ha has)
  case nodup =>
    intro j
    by_cases hj : j = i
    · subst hj
      rw [update_self]
      exact hg.nodup (h.nodup j) (h.chain j).allocated
    · rw [update_of_ne hj]
      exact h.nodup j
  case apart =>
    intro j k a ha hk
    by_cases hj : j = i <;> by_cases hk' : k = i
    · exact hj.trans hk'.symm
    · rw [hj, update_self] at ha
      rw [update_of_ne hk'] at hk
      exact absurd (hsep k a hk ha) hk'
    · rw [update_of_ne hj] at ha
      rw [hk', update_self] at hk
      exact absurd (hsep j a ha hk) hj
    · rw [update_of_ne hj] at ha
      rw [update_of_ne hk'] at hk
      exact h.apart j k a ha hk
  case own =>
    intro j a ha
    by_cases hj : j = i
    · rw [hj, update_self] at ha
      rcases hg.mem ha with ha | hfree
      · exact h.own i a ha
      · rw [← h.rest a fun k hk => (h.chain k).allocated a hk hfree, hfree]
    · rw [update_of_ne hj] at ha
      exact h.own j a ha
  case rest =>
    intro a ha
    have has := ha i
    rw [update_self] at has
    rw [hg.rest a has]
    apply h.rest
    intro j hj
    by_cases hji : j = i
    · exact has (hg.subset (hji ▸ hj))
    · exact ha j (by rwa [update_of_ne hji])

/-- Only the entries change. -/
theorem Holds.grows_entries (h : Holds m₀ m p rt slots addrs) {i : Fin maxRoutingtableSlots}
    {entries : Entries} {as : List ℕ} {es : List RoutingtableEntry}
    (hg : Grows m.entries entries (slots i) (addrs i) as es) :
    Holds m₀ { m with entries } p ⟨update rt.hash i es⟩ slots (update addrs i as) := by
  have hgrows := h.grows hg
  rw [update_eq_self, ← h.tables] at hgrows
  exact hgrows

theorem Holds.cell (h : Holds m₀ m p rt slots addrs) : m.tables.cell p = some slots := by
  rw [h.tables, Heap.cell_set_self]

theorem Holds.store (h : Holds m₀ m p rt slots addrs) (f : Slots → Slots) :
    m.tables.store p f = some (m₀.tables.set p (some (f slots))) := by
  rw [h.tables, Heap.store_set]

end Tables

/-- The memory holds the table, no chain of which has more than `k` entries. -/
def Simulates (m₀ : TableMemory) (p k : ℕ) (m : TableMemory) (rt : Routingtable) : Prop :=
  (∃ slots addrs, Holds m₀ m p rt slots addrs) ∧ ∀ i, (rt.hash i).length ≤ k

section Operations
variable {alloc : Malloc} {turns : ℕ} {m₀ m : TableMemory} {p k : ℕ} {rt : Routingtable}

theorem length_setInChain (d n : ℤ) (es : List RoutingtableEntry) :
    (setInChain d n es).length ≤ es.length + 1 := by
  induction es with
  | nil => simp [setInChain]
  | cons e es ih =>
    unfold setInChain
    split
    · simp
    · exact Nat.succ_le_succ ih

/-- The bound on the chains after an operation on one of them. -/
theorem length_update {es : List RoutingtableEntry} (hk : ∀ i, (rt.hash i).length ≤ k)
    {i : Fin maxRoutingtableSlots} (hes : es.length ≤ (rt.hash i).length + 1) :
    ∀ j, (update rt.hash i es j).length ≤ k + 1 := by
  intro j
  by_cases hj : j = i
  · subst hj
    rw [update_self]
    exact Nat.le_trans hes (Nat.succ_le_succ (hk j))
  · rw [update_of_ne hj]
    exact Nat.le_succ_of_le (hk j)

theorem setnextnode_rel (h : Simulates m₀ p k m rt) (hturns : k ≤ turns) (d n : ℤ) :
    Option.Rel (Simulates m₀ p (k + 1)) (m.setnextnode alloc turns p d n)
      (rt.setnextnode d n) := by
  obtain ⟨⟨slots, addrs, hholds⟩, hk⟩ := h
  unfold TableMemory.setnextnode Routingtable.setnextnode
  cases slot d with
  | none => exact .none
  | some i =>
    have hlen := length_update hk (length_setInChain d n (rt.hash i))
    have hchain := hholds.chain i
    rw [Option.bind_some, Option.map_some, hholds.cell, Option.bind_some]
    cases hq : slots i with
    | none =>
      rw [hq] at hchain
      obtain ⟨has, hes⟩ := hchain.of_none
      have hgrows := grows_new (alloc.entry.fresh m.entries) (⟨d, n⟩ : RoutingtableEntry)
      rw [← has] at hgrows
      simp only [Heap.malloc, hholds.store, Option.bind_some, fillEntry_set, Option.map_some]
      rw [hes] at hlen ⊢
      exact .some ⟨⟨_, _, hholds.grows hgrows⟩, hlen⟩
    | some a =>
      rw [hq] at hchain
      obtain ⟨as, e, next, es, has, hes, hcell, htail⟩ := hchain.of_some
      have hnodup := hholds.nodup i
      have hi := hk i
      rw [has] at hnodup
      rw [hes, List.length_cons] at hi
      have hgrow : ∀ {entries as' es'}, Grows m.entries entries (some a) (a :: as) as' es' →
          Holds m₀ { m with entries } p ⟨update rt.hash i es'⟩ slots (update addrs i as') := by
        intro entries as' es' hg
        exact hholds.grows_entries (by rwa [hq, has])
      rw [← setAtHash_eq, hes] at hlen ⊢
      simp only [hcell, Option.bind_some, setAtHash] at hlen ⊢
      split
      next hd =>
        rw [if_pos hd] at hlen
        rw [Heap.store_eq hcell]
        have ha := (List.nodup_cons.mp hnodup).1
        exact .some ⟨⟨_, _, hgrow (htail.grows_set ha { e with nextNodeID := n })⟩, hlen⟩
      next hd =>
        rw [if_neg hd] at hlen
        have hlt : as.length < turns := by
          rw [htail.length_eq]
          omega
        obtain ⟨entries, as', hloop, hgrows⟩ :=
          setLoop_grows alloc.entry d n (.cons hcell htail) hnodup hlt
        rw [hloop]
        exact .some ⟨⟨_, _, hgrow hgrows⟩, hlen⟩

theorem getnextnode_eq (h : Simulates m₀ p k m rt) (hturns : k ≤ turns) (d : ℤ) :
    m.getnextnode turns p d = rt.getnextnode d := by
  obtain ⟨⟨slots, addrs, hholds⟩, hk⟩ := h
  unfold TableMemory.getnextnode Routingtable.getnextnode
  cases slot d with
  | none => rfl
  | some i =>
    have hchain := hholds.chain i
    rw [Option.bind_some, Option.map_some, hholds.cell, Option.bind_some, ← getAtHash_eq]
    cases hq : slots i with
    | none =>
      rw [hq] at hchain
      rw [hchain.of_none.2]
      rfl
    | some a =>
      rw [hq] at hchain
      obtain ⟨as, e, next, es, has, hes, hcell, htail⟩ := hchain.of_some
      have hi := hk i
      rw [hes, List.length_cons] at hi
      have hlt : as.length < turns := by
        rw [htail.length_eq]
        omega
      rw [hes]
      simp only [hcell, Option.bind_some, getAtHash]
      split
      next => rfl
      next => exact getLoop_eq (.cons hcell htail) hlt

theorem addNbr_rel (h : Simulates m₀ p k m rt) (hturns : k ≤ turns) (nbr : ℤ) :
    Option.Rel (Simulates m₀ p (k + 1)) (m.addNbr alloc turns p nbr) (rt.addNbr nbr) := by
  obtain ⟨⟨slots, addrs, hholds⟩, hk⟩ := h
  unfold TableMemory.addNbr Routingtable.addNbr
  simp only [Heap.malloc, fillEntry_set, Option.bind_some]
  cases slot nbr with
  | none => exact .none
  | some i =>
    have hlen : ∀ j, (update rt.hash i (rt.hash i ++ [⟨nbr, nbr⟩]) j).length ≤ k + 1 :=
      length_update hk (by simp)
    have hchain := hholds.chain i
    have hfree := alloc.entry.fresh m.entries
    rw [Option.bind_some, Option.map_some, hholds.cell, Option.bind_some]
    cases hq : slots i with
    | none =>
      rw [hq] at hchain
      obtain ⟨has, hes⟩ := hchain.of_none
      have hgrows := grows_new hfree (⟨nbr, nbr⟩ : RoutingtableEntry)
      rw [← has] at hgrows
      rw [hes] at hlen ⊢
      simp only [hholds.store, Option.map_some]
      exact .some ⟨⟨_, _, hholds.grows hgrows⟩, hlen⟩
    | some a =>
      rw [hq] at hchain
      obtain ⟨as, e, next, es, has, hes, hcell, htail⟩ := hchain.of_some
      have hi := hk i
      rw [hes, List.length_cons] at hi
      have hlt : as.length < turns := by
        rw [htail.length_eq]
        omega
      have hnew : alloc.entry.addr m.entries ∉ addrs i :=
        fun hmem => hchain.allocated _ hmem hfree
      have hframe : ListAt (m.entries.set (alloc.entry.addr m.entries) (some ⟨⟨nbr, nbr⟩, none⟩))
          (some a) (addrs i) (rt.hash i) :=
        hchain.frame fun b hb => Heap.cell_set_of_ne (ne_of_mem_of_not_mem hb hnew) ..
      have hnodup := hholds.nodup i
      rw [has] at hnodup hnew hframe
      rw [hes] at hframe
      obtain ⟨entries, hlink, hlist, hrest⟩ :=
        linkLast_eq hframe hnodup (Heap.cell_set_self ..) hnew hlt
      have hgrows : Grows m.entries entries (slots i) (addrs i)
          (a :: as ++ [alloc.entry.addr m.entries]) (e :: es ++ [⟨nbr, nbr⟩]) := by
        refine ⟨hq ▸ hlist, .inr ⟨_, hfree, has ▸ rfl⟩, fun b hb => ?_⟩
        rw [List.mem_append, not_or] at hb
        rw [hrest b hb.1, Heap.cell_set_of_ne (List.ne_of_not_mem_cons hb.2)]
      rw [hes] at hlen ⊢
      simp only [hlink, Option.map_some]
      exact .some ⟨⟨_, _, hholds.grows_entries hgrows⟩, hlen⟩

/-- The chains of some slots are freed, and nothing else. -/
theorem freeChains_eq {slots : Slots} {addrs : Fin maxRoutingtableSlots → List ℕ}
    (hnodup : ∀ i, (addrs i).Nodup) (hturns : ∀ i, (addrs i).length ≤ turns)
    (hapart : ∀ i j, ∀ a ∈ addrs i, a ∈ addrs j → i = j) {is : List (Fin maxRoutingtableSlots)}
    (his : is.Nodup) {h : Entries} (hchain : ∀ i ∈ is, ListAt h (slots i) (addrs i) (rt.hash i)) :
    ∃ h', is.foldlM (fun entries i => freeLoop turns entries (slots i)) h = some h' ∧
      ∀ c, h'.cell c = if c ∈ is.flatMap addrs then none else h.cell c := by
  induction is generalizing h with
  | nil => exact ⟨h, rfl, by simp⟩
  | cons i is ih =>
    obtain ⟨hi, his⟩ := List.nodup_cons.mp his
    obtain ⟨hfirst, hchain⟩ := List.forall_mem_cons.mp hchain
    obtain ⟨h₁, hfree, hcells⟩ := freeLoop_eq hfirst (hnodup i) (hturns i)
    have hkept : ∀ j ∈ is, ListAt h₁ (slots j) (addrs j) (rt.hash j) := by
      intro j hj
      apply (hchain j hj).frame
      intro a ha
      rw [hcells, if_neg fun hai => hi (hapart j i a ha hai ▸ hj)]
    obtain ⟨h', hrest, hcells'⟩ := ih his hkept
    refine ⟨h', by simpa [List.foldlM_cons, hfree] using hrest, fun c => ?_⟩
    rw [hcells', hcells]
    by_cases hci : c ∈ addrs i
    · simp [hci]
    · simp [hci]

/-- `routingtable_destroy` frees every entry and the table once, and nothing else. -/
theorem destroy_eq (h : Simulates m₀ p k m rt) (hturns : k ≤ turns) :
    m.destroy turns p = some m₀ := by
  obtain ⟨⟨slots, addrs, hholds⟩, hk⟩ := h
  have hlen : ∀ i, (addrs i).length ≤ turns := by
    intro i
    rw [(hholds.chain i).length_eq]
    exact Nat.le_trans (hk i) hturns
  obtain ⟨entries, hfree, hcells⟩ := freeChains_eq hholds.nodup hlen hholds.apart
    (List.nodup_finRange maxRoutingtableSlots) fun i _ => hholds.chain i
  have hentries : entries = m₀.entries := by
    apply Heap.ext
    funext c
    rw [hcells]
    split
    next hc =>
      obtain ⟨i, _, hc⟩ := List.mem_flatMap.mp hc
      exact (hholds.own i c hc).symm
    next hc =>
      exact hholds.rest c fun i hi => hc (List.mem_flatMap.mpr ⟨i, List.mem_finRange i, hi⟩)
  unfold TableMemory.destroy
  simp only [hholds.cell, Option.bind_some, hfree]
  rw [Heap.free_eq hholds.cell, Option.map_some, hentries, hholds.tables, Heap.set_set,
    Heap.set_eq_self hholds.unused]

end Operations

/-- What the SNP process asks of its routing table. -/
inductive TableOp
  | setnextnode (destNodeID nextNodeID : ℤ)
  | getnextnode (destNodeID : ℤ)

/-- The next hops that the lookups return. -/
def Routingtable.run : Routingtable → List TableOp → Option (List ℤ)
  | _, [] => some []
  | rt, .setnextnode d n :: ops => (rt.setnextnode d n).bind fun rt => rt.run ops
  | rt, .getnextnode d :: ops =>
    (rt.getnextnode d).bind fun nextNodeID => (rt.run ops).map (nextNodeID :: ·)

namespace TableMemory
variable (alloc : Malloc) (turns : ℕ)

def run (p : ℕ) : TableMemory → List TableOp → Option (List ℤ × TableMemory)
  | m, [] => some ([], m)
  | m, .setnextnode d n :: ops => (m.setnextnode alloc turns p d n).bind fun m => run p m ops
  | m, .getnextnode d :: ops =>
    (m.getnextnode turns p d).bind fun nextNodeID =>
      (run p m ops).map fun r => (nextNodeID :: r.1, r.2)

/-- A routing table from `routingtable_create` to `routingtable_destroy`. -/
def life (m : TableMemory) (nbrArray : List ℤ) (ops : List TableOp) :
    Option (List ℤ × TableMemory) :=
  (m.create alloc turns nbrArray).bind fun r =>
    (run alloc turns r.1 r.2 ops).bind fun s => (s.2.destroy turns r.1).map (s.1, ·)

end TableMemory

section Lives
variable {alloc : Malloc} {turns : ℕ} {m₀ m : TableMemory} {p k : ℕ} {rt : Routingtable}

theorem addNbrs_rel {nbrs : List ℤ} (h : Simulates m₀ p k m rt)
    (hturns : k + nbrs.length ≤ turns) :
    Option.Rel (Simulates m₀ p (k + nbrs.length))
      (nbrs.foldlM (TableMemory.addNbr alloc turns p) m) (nbrs.foldlM Routingtable.addNbr rt) := by
  induction nbrs generalizing k m rt with
  | nil => exact .some h
  | cons nbr nbrs ih =>
    have hlen : k + (nbr :: nbrs).length = k + 1 + nbrs.length := by
      rw [List.length_cons]
      omega
    rw [hlen] at hturns ⊢
    rw [List.foldlM_cons, List.foldlM_cons]
    exact rel_bind (addNbr_rel h (by omega) nbr) fun _ _ hnext => ih hnext hturns

theorem create_rel (alloc : Malloc) (m : TableMemory) {nbrArray : List ℤ}
    (hturns : nbrArray.length ≤ turns) :
    Option.Rel (fun r rt => Simulates m r.1 nbrArray.length r.2 rt)
      (m.create alloc turns nbrArray) (Routingtable.create nbrArray) := by
  have hempty : Simulates m (alloc.table.addr m.tables) 0
      ⟨m.entries, m.tables.set (alloc.table.addr m.tables) (some fun _ => none)⟩ ⟨fun _ => []⟩ := by
    refine ⟨⟨fun _ => none, fun _ => [], ?_⟩, by simp⟩
    constructor
    case tables => rfl
    case unused => exact alloc.table.fresh m.tables
    case chain => exact fun _ => .nil
    case rest => exact fun _ _ => rfl
    all_goals simp
  have hlen := Nat.zero_add nbrArray.length
  unfold TableMemory.create Routingtable.create
  simp only [Heap.malloc, Heap.store_set, Option.bind_some]
  rw [← Option.map_id_apply (x := nbrArray.foldlM Routingtable.addNbr _)]
  apply rel_map (addNbrs_rel hempty (hlen.symm ▸ hturns))
  intro m' rt h
  rwa [hlen] at h

/-- The lookups are those of the table, and a table destroyed leaves the memory as it was. -/
theorem run_rel (h : Simulates m₀ p k m rt) {ops : List TableOp}
    (hturns : k + ops.length ≤ turns) :
    Option.Rel (fun s outs => s.1 = outs ∧ s.2.destroy turns p = some m₀)
      (m.run alloc turns p ops) (rt.run ops) := by
  induction ops generalizing k m rt with
  | nil => exact .some ⟨rfl, destroy_eq h hturns⟩
  | cons op ops ih =>
    rw [List.length_cons] at hturns
    have hk : k ≤ turns := Nat.le_of_add_right_le hturns
    cases op with
    | setnextnode d n =>
      exact rel_bind (setnextnode_rel h hk d n) fun _ _ hnext => ih hnext (by omega)
    | getnextnode d =>
      simp only [TableMemory.run, Routingtable.run, getnextnode_eq h hk]
      cases rt.getnextnode d with
      | none => exact .none
      | some nextNodeID =>
        apply rel_map (ih h (by omega))
        rintro s outs ⟨rfl, hdestroy⟩
        exact ⟨rfl, hdestroy⟩

/-- Wherever `malloc` puts the entries, a routing table in memory answers every lookup as the
table of chains does, with no access outside it. When it is destroyed the memory is as it was
before it was created, each of its entries having been freed. -/
theorem memory_refines_table (alloc : Malloc) (m : TableMemory) {turns : ℕ}
    {nbrArray : List ℤ} {ops : List TableOp} (hturns : nbrArray.length + ops.length ≤ turns) :
    m.life alloc turns nbrArray ops =
      ((Routingtable.create nbrArray).bind fun rt => rt.run ops).map (·, m) := by
  unfold TableMemory.life
  rw [Option.map_bind]
  apply bind_congr_of_rel (create_rel alloc m (Nat.le_of_add_right_le hturns))
  intro r rt h
  dsimp only [Function.comp]
  rw [Option.map_eq_bind]
  apply bind_congr_of_rel (run_rel h hturns)
  rintro s outs ⟨rfl, hdestroy⟩
  rw [hdestroy]
  rfl

def Malloc.lowest : Malloc := ⟨.lowest ⟨⟨0, 0⟩, none⟩, .lowest fun _ => none⟩

def TableMemory.empty : TableMemory := ⟨.empty, .empty⟩

/-- Nodes 13 and 23 share the slot of node 3. -/
theorem memory_refines_table_collision :
    TableMemory.empty.life .lowest 6 [3, 5] [.setnextnode 13 5, .setnextnode 23 3,
      .setnextnode 13 3, .getnextnode 13] = some ([3], .empty) := by
  have htable : ((Routingtable.create [3, 5]).bind fun rt => rt.run [.setnextnode 13 5,
      .setnextnode 23 3, .setnextnode 13 3, .getnextnode 13]) = some [3] := by decide
  rw [memory_refines_table .lowest .empty (by decide), htable]
  rfl

end Lives
end DartNet.Network
