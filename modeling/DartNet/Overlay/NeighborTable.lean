import DartNet.Network.Neighbours
import DartNet.Overlay.WaitNbrs

/-! The neighbour table that `overlay/neighbortable.c` makes of the topology file. -/
namespace DartNet.Overlay
open Network (Topology)
variable {Host : Type} {t : Topology Host}

/-- A round of the loop of `nt_create`. -/
def ntEntry (t : Topology Host) (nbrName : Host) : Option NbrEntry :=
  if t.getNodeIDfromname nbrName < 0 then none
  else (t.gethostbyname nbrName).map fun nodeIP => ⟨t.getNodeIDfromname nbrName, nodeIP, -1⟩

def ntCreate (t : Topology Host) (myNodeID : ℤ) : Option (List NbrEntry) :=
  (t.getNbrNum myNodeID).bind fun nbrNumber =>
    (t.getNeighborNames myNodeID nbrNumber).bind fun nbrNames => nbrNames.mapM (ntEntry t)

/-- The descriptors that `nt_destroy` closes, in order. -/
def ntDestroy (nt : List NbrEntry) : List ℤ := (nt.map (·.conn)).filter (· ≠ -1)

/-- The node with ID `x` has the address `ip x` under each of its names. -/
def Addressed (t : Topology Host) (ip : ℤ → UInt32) : Prop :=
  ∀ l ∈ t.lines, t.gethostbyname l.host1 = some (ip (t.getNodeIDfromname l.host1)) ∧
    t.gethostbyname l.host2 = some (ip (t.getNodeIDfromname l.host2))

/-- The entries of the table of `x` are those of its neighbours, once each. -/
structure Table (t : Topology Host) (ip : ℤ → UInt32) (x : ℤ) (nt : List NbrEntry) : Prop where
  nodup : (nt.map (·.nodeID)).Nodup
  link : ∀ w, w ∈ nt.map (·.nodeID) ↔ ∃ c, t.link x w c
  addr : ∀ e ∈ nt, e.nodeIP = ip e.nodeID

section Addresses
variable {ip : ℤ → UInt32}

theorem Addressed.getNodeIDfromip (hip : Addressed t ip) {x : ℤ} (hx : x ∈ t.nodeIDs) :
    Topology.getNodeIDfromip (ip x) = x := by
  obtain ⟨l, hl, rfl | rfl⟩ := Topology.mem_nodeIDs.mp hx
  · conv_rhs => rw [Topology.getNodeIDfromname, (hip l hl).1]
  · conv_rhs => rw [Topology.getNodeIDfromname, (hip l hl).2]

/-- Different nodes have different addresses, since an ID is part of the address. -/
theorem Addressed.inj (hip : Addressed t ip) {x y : ℤ} (hx : x ∈ t.nodeIDs) (hy : y ∈ t.nodeIDs)
    (h : ip x = ip y) : x = y := by
  rw [← hip.getNodeIDfromip hx, ← hip.getNodeIDfromip hy, h]

end Addresses

/-- A neighbour's name is one of the two names on a line about the node. -/
theorem joins_of_mem_namesOfLine {x : ℤ} {l : Network.Line Host} {h : Host}
    (hh : h ∈ t.namesOfLine x l) :
    t.joins l x (t.getNodeIDfromname h) ∧ (h = l.host1 ∨ h = l.host2) := by
  unfold Topology.namesOfLine at hh
  unfold Topology.joins
  split at hh
  next h1 =>
    obtain rfl := List.mem_singleton.mp hh
    exact ⟨.inl ⟨h1, rfl⟩, .inr rfl⟩
  next =>
    split at hh
    next h2 =>
      obtain rfl := List.mem_singleton.mp hh
      exact ⟨.inr ⟨h2, rfl⟩, .inl rfl⟩
    next => simp at hh

/-- No two lines are about the same neighbour. -/
theorem nodup_nbrs (ht : t.WellFormed) (x : ℤ) :
    (t.lines.flatMap (t.nbrsOfLine x)).Nodup := by
  rw [List.nodup_flatMap]
  constructor
  · intro l hl
    have hboth := ht.not_both x l hl
    unfold Topology.nbrsOfLine
    split_ifs <;> simp_all
  · apply ht.onePerPair.imp
    intro l l' hpair w hw hw'
    exact hpair (Topology.joins_of_joins (Topology.mem_nbrsOfLine.mp hw)
      (Topology.mem_nbrsOfLine.mp hw'))

theorem mapM_ntEntry (hres : ∀ l ∈ t.lines, t.resolves l) {ip : ℤ → UInt32}
    (hip : Addressed t ip) {names : List Host}
    (hnames : ∀ h ∈ names, ∃ l ∈ t.lines, h = l.host1 ∨ h = l.host2) :
    names.mapM (ntEntry t) =
      some (names.map fun h => ⟨t.getNodeIDfromname h, ip (t.getNodeIDfromname h), -1⟩) := by
  induction names with
  | nil => rfl
  | cons h names ih =>
    obtain ⟨⟨l, hl, hh⟩, hnames⟩ := List.forall_mem_cons.mp hnames
    have hentry : ntEntry t h =
        some ⟨t.getNodeIDfromname h, ip (t.getNodeIDfromname h), -1⟩ := by
      have hnneg : ¬ t.getNodeIDfromname h < 0 := by
        obtain ⟨h1, h2⟩ := hres l hl
        rcases hh with rfl | rfl <;> omega
      have haddr : t.gethostbyname h = some (ip (t.getNodeIDfromname h)) := by
        rcases hh with rfl | rfl
        · exact (hip l hl).1
        · exact (hip l hl).2
      rw [ntEntry, if_neg hnneg, haddr, Option.map_some]
    rw [List.mapM_cons, hentry, ih hnames]
    rfl

/-- The table has an entry for each neighbour, with its address and no connection. -/
theorem ntCreate_table (ht : t.WellFormed) {ip : ℤ → UInt32} (hip : Addressed t ip) (x : ℤ) :
    ∃ nt, ntCreate t x = some nt ∧ Table t ip x nt ∧ ∀ e ∈ nt, e.conn = -1 := by
  have hnum : t.getNbrNum x = some (t.lines.flatMap (t.namesOfLine x)).length := by
    rw [Topology.getNbrNum, if_pos ht.resolved, Topology.length_flatMap_namesOfLine]
  have hnames : ∀ h ∈ t.lines.flatMap (t.namesOfLine x),
      ∃ l ∈ t.lines, h = l.host1 ∨ h = l.host2 := by
    intro h hh
    obtain ⟨l, hl, hh⟩ := List.mem_flatMap.mp hh
    exact ⟨l, hl, (joins_of_mem_namesOfLine hh).2⟩
  have hnbrs : (t.lines.flatMap (t.namesOfLine x)).map t.getNodeIDfromname =
      t.lines.flatMap (t.nbrsOfLine x) := by
    rw [List.map_flatMap]
    exact List.flatMap_congr fun l hl =>
      (Topology.nbrsOfLine_eq_map (ht.not_both x l hl)).symm
  have hcreate : ntCreate t x = some ((t.lines.flatMap (t.namesOfLine x)).map fun h =>
      ⟨t.getNodeIDfromname h, ip (t.getNodeIDfromname h), -1⟩) := by
    rw [ntCreate, hnum, Option.bind_some, Topology.getNeighborNames, if_pos ⟨ht.resolved, rfl⟩,
      Option.bind_some]
    exact mapM_ntEntry ht.resolved hip hnames
  refine ⟨_, hcreate, ⟨?_, ?_, ?_⟩, ?_⟩
  · rw [List.map_map]
    show (List.map t.getNodeIDfromname _).Nodup
    rw [hnbrs]
    exact nodup_nbrs ht x
  · intro w
    rw [List.map_map]
    show w ∈ List.map t.getNodeIDfromname _ ↔ _
    rw [hnbrs, Topology.mem_flatMap_nbrsOfLine]
  · intro e he
    obtain ⟨h, _, rfl⟩ := List.mem_map.mp he
    rfl
  · intro e he
    obtain ⟨h, _, rfl⟩ := List.mem_map.mp he
    rfl

/-- The table with the descriptor of the neighbour `y` replaced. -/
def withConn (y conn : ℤ) (nt : List NbrEntry) : List NbrEntry :=
  nt.map fun e => if e.nodeID = y then { e with conn } else e

section WithConn
variable {nt : List NbrEntry} {y conn : ℤ}

theorem mem_withConn {e : NbrEntry} : e ∈ withConn y conn nt ↔
    (e.nodeID ≠ y ∧ e ∈ nt) ∨ ∃ e' ∈ nt, e'.nodeID = y ∧ e = { e' with conn } := by
  simp only [withConn, List.mem_map]
  constructor
  · rintro ⟨e', he', rfl⟩
    split
    next h => exact .inr ⟨e', he', h, rfl⟩
    next h => exact .inl ⟨h, he'⟩
  · rintro (⟨hne, he⟩ | ⟨e', he', hy, rfl⟩)
    · exact ⟨e, he, if_neg hne⟩
    · exact ⟨e', he', if_pos hy⟩

theorem Table.withConn {ip : ℤ → UInt32} {x : ℤ} (h : Table t ip x nt) (y conn : ℤ) :
    Table t ip x (withConn y conn nt) := by
  have hids : (Overlay.withConn y conn nt).map (·.nodeID) = nt.map (·.nodeID) := by
    rw [Overlay.withConn, List.map_map]
    apply List.map_congr_left
    intro e _
    dsimp only [Function.comp]
    split <;> rfl
  refine ⟨hids ▸ h.nodup, hids ▸ h.link, ?_⟩
  intro e he
  rcases mem_withConn.mp he with ⟨_, he⟩ | ⟨e', he', _, rfl⟩
  · exact h.addr e he
  · exact h.addr e' he'

theorem Table.eq_of_nodeID {ip : ℤ → UInt32} {x : ℤ} (h : Table t ip x nt) {e e' : NbrEntry}
    (he : e ∈ nt) (he' : e' ∈ nt) (hid : e.nodeID = e'.nodeID) : e = e' :=
  List.inj_on_of_nodup_map h.nodup he he' hid

theorem Table.exists_entry {ip : ℤ → UInt32} {x w : ℤ} {c : ℕ} (h : Table t ip x nt)
    (hlink : t.link x w c) : ∃ e ∈ nt, e.nodeID = w := by
  simpa using (h.link w).mpr ⟨c, hlink⟩

theorem Table.link_of_mem {ip : ℤ → UInt32} {x : ℤ} (h : Table t ip x nt) {e : NbrEntry}
    (he : e ∈ nt) : ∃ c, t.link x e.nodeID c :=
  (h.link _).mp (List.mem_map_of_mem he)

/-- What the loop of `waitNbrs` writes for a connection of `y`. -/
theorem Table.acceptOne {ip : ℤ → UInt32} (hip : Addressed t ip) {x : ℤ} (h : Table t ip x nt)
    (hy : y ∈ t.nodeIDs) (hconn : 0 ≤ conn) :
    acceptOne nt ⟨conn, ip y⟩ = Overlay.withConn y conn nt := by
  have hnode : ∀ e ∈ nt, e.nodeID ∈ t.nodeIDs := by
    intro e he
    obtain ⟨c, hc⟩ := h.link_of_mem he
    exact Topology.link_mem (Topology.link_symm hc)
  have hips : (nt.map (·.nodeIP)).Nodup := by
    apply List.Nodup.map_on
    · intro e he e' he' heq
      rw [h.addr e he, h.addr e' he'] at heq
      exact h.eq_of_nodeID he he' (hip.inj (hnode e he) (hnode e' he') heq)
    · exact h.nodup.of_map _
  rw [acceptOne_eq _ hips, Overlay.withConn]
  apply List.map_congr_left
  intro e he
  have hpeer : (⟨conn, ip y⟩ : Accepted).peer = some (ip y) := if_neg (by simpa using hconn)
  have hiff : ip y = e.nodeIP ↔ e.nodeID = y := by
    rw [h.addr e he]
    exact ⟨fun heq => (hip.inj hy (hnode e he) heq).symm, fun heq => heq ▸ rfl⟩
  simp only [hpeer, Option.some.injEq, hiff]

/-- What the loop of `connectNbrs` writes at the position of `y`. -/
theorem Table.set {ip : ℤ → UInt32} {x : ℤ} (h : Table t ip x nt) {i : ℕ} {e : NbrEntry}
    (hi : nt[i]? = some e) : nt.set i { e with conn } = Overlay.withConn e.nodeID conn nt := by
  obtain ⟨hlt, rfl⟩ := List.getElem?_eq_some_iff.mp hi
  apply List.ext_getElem
  · simp [Overlay.withConn]
  · intro j hj hj'
    have hjlt : j < nt.length := by simpa using hj
    rw [List.getElem_set]
    simp only [Overlay.withConn, List.getElem_map]
    by_cases hij : i = j
    · subst hij
      simp
    · have hne : nt[j].nodeID ≠ nt[i].nodeID := by
        intro heq
        have hsame := h.eq_of_nodeID (List.getElem_mem hlt) (List.getElem_mem hjlt) heq.symm
        exact hij ((h.nodup.of_map _).getElem_inj_iff.mp hsame)
      rw [if_neg hij, if_neg hne]

end WithConn
end DartNet.Overlay
