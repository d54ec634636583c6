import DartNet.Foundation.Arrivals
import Mathlib.Data.Int.Notation
import Mathlib.Data.List.Nodup

/-! The thread `waitNbrs` of `overlay/overlay.c`, which takes as many connections as there are
neighbours with larger IDs. -/
namespace DartNet.Overlay
open Arrivals

/-- `nbr_entry_t` -/
structure NbrEntry where
  nodeID : ℤ
  nodeIP : UInt32
  conn : ℤ
  deriving DecidableEq

/-- What `accept` returns, and the address of the peer that it fills in. -/
structure Accepted where
  newConnfd : ℤ
  sAddr : UInt32
  deriving DecidableEq

/-- Where a connection comes from, if it is one. -/
def Accepted.peer (r : Accepted) : Option UInt32 := if r.newConnfd < 0 then none else some r.sAddr

/-- The search for the entry of the peer; nothing is changed for a stranger. -/
def setConn (newConnfd : ℤ) (sAddr : UInt32) : List NbrEntry → List NbrEntry
  | [] => []
  | e :: nt =>
    if e.nodeIP = sAddr then { e with conn := newConnfd } :: nt
    else e :: setConn newConnfd sAddr nt

/-- The body of the loop behind the call of `accept`. -/
def acceptOne (nt : List NbrEntry) (r : Accepted) : List NbrEntry :=
  if r.newConnfd < 0 then nt else setConn r.newConnfd r.sAddr nt

/-- The loop, for the results that `accept` gives one after the other, or `none` while it waits
for the next one. -/
def acceptLoop (nbrsWithLargerIDs : ℕ) : ℕ → List NbrEntry → List Accepted →
    Option (List NbrEntry)
  | acceptedConnections, nt, [] =>
    if acceptedConnections < nbrsWithLargerIDs then none else some nt
  | acceptedConnections, nt, r :: rs =>
    if acceptedConnections < nbrsWithLargerIDs then
      acceptLoop nbrsWithLargerIDs (acceptedConnections + 1) (acceptOne nt r) rs
    else some nt

def larger (myNodeID : ℤ) (nt : List NbrEntry) : List NbrEntry :=
  nt.filter fun e => e.nodeID > myNodeID

/-- The neighbour table that the thread leaves. -/
def waitNbrs (nt : List NbrEntry) (myNodeID : ℤ) (accepts : List Accepted) :
    Option (List NbrEntry) :=
  let nbrsWithLargerIDs := (larger myNodeID nt).length
  if nbrsWithLargerIDs = 0 then some nt else acceptLoop nbrsWithLargerIDs 0 nt accepts

/-- The results that the loop has taken when it is left. -/
def taken (nt : List NbrEntry) (myNodeID : ℤ) (accepts : List Accepted) : List Accepted :=
  accepts.take (larger myNodeID nt).length

/-- Each neighbour with a larger ID has the descriptor of a connection that it made itself. -/
def LargerConnected (myNodeID : ℤ) (accepts : List Accepted) (nt : List NbrEntry) : Prop :=
  ∀ e ∈ larger myNodeID nt, ∃ r ∈ accepts, r.peer = some e.nodeIP ∧ e.conn = r.newConnfd

instance (myNodeID : ℤ) (accepts : List Accepted) (nt : List NbrEntry) :
    Decidable (LargerConnected myNodeID accepts nt) :=
  inferInstanceAs (Decidable (∀ e ∈ larger myNodeID nt, ∃ r ∈ accepts, _ ∧ _))

/-- The entry after some results of `accept`. -/
def NbrEntry.after (accepts : List Accepted) (e : NbrEntry) : NbrEntry :=
  { e with conn := ((latest Accepted.peer e.nodeIP accepts).map (·.newConnfd)).getD e.conn }

theorem setConn_eq (newConnfd : ℤ) (sAddr : UInt32) {nt : List NbrEntry}
    (hips : (nt.map (·.nodeIP)).Nodup) : setConn newConnfd sAddr nt =
      nt.map fun e => if e.nodeIP = sAddr then { e with conn := newConnfd } else e := by
  induction nt with
  | nil => rfl
  | cons e nt ih =>
    obtain ⟨he, hnt⟩ := List.nodup_cons.mp hips
    rw [setConn, List.map_cons]
    split
    next hip =>
      have hrest : ∀ e' ∈ nt,
          (if e'.nodeIP = sAddr then { e' with conn := newConnfd } else e') = e' := by
        intro e' he'
        have hne : e'.nodeIP ≠ sAddr := by
          intro h
          exact he (List.mem_map.mpr ⟨e', he', h.trans hip.symm⟩)
        rw [if_neg hne]
      rw [List.map_congr_left hrest, List.map_id']
    next => rw [ih hnt]

theorem acceptOne_eq (r : Accepted) {nt : List NbrEntry} (hips : (nt.map (·.nodeIP)).Nodup) :
    acceptOne nt r =
      nt.map fun e => if r.peer = some e.nodeIP then { e with conn := r.newConnfd } else e := by
  unfold acceptOne Accepted.peer
  split
  next => simp
  next => simp [setConn_eq _ _ hips, eq_comm]

theorem foldl_acceptOne {nt : List NbrEntry} (hips : (nt.map (·.nodeIP)).Nodup)
    (accepts : List Accepted) : accepts.foldl acceptOne nt = nt.map (·.after accepts) := by
  induction accepts generalizing nt with
  | nil => simp [NbrEntry.after]
  | cons r rs ih =>
    have hips' : ((acceptOne nt r).map (·.nodeIP)).Nodup := by
      rw [acceptOne_eq r hips, List.map_map]
      convert hips using 2
      funext e
      dsimp only [Function.comp]
      split <;> rfl
    rw [List.foldl_cons, ih hips', acceptOne_eq r hips, List.map_map]
    apply List.map_congr_left
    intro e _
    by_cases hpeer : r.peer = some e.nodeIP
    · cases hrest : latest Accepted.peer e.nodeIP rs <;>
        simp [NbrEntry.after, latest_cons, hpeer, hrest]
    · simp [NbrEntry.after, latest_cons, hpeer]

/-- The loop takes one result for each neighbour that is to come, whatever the results are. -/
theorem acceptLoop_eq (n k : ℕ) (nt : List NbrEntry) (accepts : List Accepted) :
    acceptLoop n k nt accepts =
      if n - k ≤ accepts.length then some ((accepts.take (n - k)).foldl acceptOne nt)
      else none := by
  induction accepts generalizing k nt with
  | nil =>
    rw [acceptLoop]
    by_cases h : k < n
    · rw [if_pos h, if_neg (by simp; omega)]
    · simp [h, show n - k = 0 by omega]
  | cons r rs ih =>
    rw [acceptLoop]
    by_cases h : k < n
    · have hsub : n - k = n - (k + 1) + 1 := by omega
      rw [if_pos h, ih, hsub]
      simp
    · simp [h, show n - k = 0 by omega]

theorem waitNbrs_eq {nt : List NbrEntry} (hips : (nt.map (·.nodeIP)).Nodup) (myNodeID : ℤ)
    (accepts : List Accepted) : waitNbrs nt myNodeID accepts =
      if (larger myNodeID nt).length ≤ accepts.length then
        some (nt.map (·.after (taken nt myNodeID accepts)))
      else none := by
  rw [← foldl_acceptOne hips, waitNbrs, taken]
  split
  next h => simp [h]
  next => rw [acceptLoop_eq, Nat.sub_zero]

theorem larger_map_after (myNodeID : ℤ) (accepts : List Accepted) (nt : List NbrEntry) :
    larger myNodeID (nt.map (·.after accepts)) = (larger myNodeID nt).map (·.after accepts) := by
  rw [larger, larger, List.filter_map]
  rfl

/-- A neighbour has one of its own connections exactly if it made one. -/
theorem largerConnected_after_iff (myNodeID : ℤ) (accepts : List Accepted)
    (nt : List NbrEntry) : LargerConnected myNodeID accepts (nt.map (·.after accepts)) ↔
      ∀ ip ∈ (larger myNodeID nt).map (·.nodeIP), ip ∈ accepts.filterMap Accepted.peer := by
  simp only [LargerConnected, larger_map_after, List.forall_mem_map]
  apply forall₂_congr
  intro e _
  constructor
  · rintro ⟨r, hr, hpeer, _⟩
    exact List.mem_filterMap.mpr ⟨r, hr, hpeer⟩
  · intro h
    obtain ⟨r, hr, hpeer, hlatest⟩ := exists_latest h
    exact ⟨r, hr, hpeer, by simp [NbrEntry.after, hlatest]⟩

theorem larger_connected_iff {nt nt' : List NbrEntry} {myNodeID : ℤ} {accepts : List Accepted}
    (hips : (nt.map (·.nodeIP)).Nodup) (h : waitNbrs nt myNodeID accepts = some nt') :
    LargerConnected myNodeID (taken nt myNodeID accepts) nt' ↔
      (∀ r ∈ taken nt myNodeID accepts,
        ∃ ip ∈ (larger myNodeID nt).map (·.nodeIP), r.peer = some ip) ∧
      ((taken nt myNodeID accepts).filterMap Accepted.peer).Nodup := by
  rw [waitNbrs_eq hips] at h
  split at h
  next hle =>
    have hlarger : ((larger myNodeID nt).map (·.nodeIP)).Nodup :=
      hips.sublist (List.filter_sublist.map _)
    rw [← Option.some.inj h, largerConnected_after_iff]
    exact forall_arrived_iff hlarger (by simp [taken, hle])
  next => contradiction

/-- One neighbour with a smaller ID than 2 and two with larger ones. -/
def threeNbrs : List NbrEntry := [⟨3, 30, -1⟩, ⟨1, 10, 5⟩, ⟨4, 40, -1⟩]

theorem larger_connected_three :
    ∃ nt', waitNbrs threeNbrs 2 [⟨7, 40⟩, ⟨8, 30⟩] = some nt' ∧
      LargerConnected 2 (taken threeNbrs 2 [⟨7, 40⟩, ⟨8, 30⟩]) nt' :=
  ⟨_, rfl, (larger_connected_iff (by decide) rfl).mpr (by decide)⟩

/-- A failure, a stranger, a neighbour that has connected already and one that is not waited for
are each counted in the place of a neighbour that is still to come. -/
theorem counted_not_connected : (threeNbrs.map (·.nodeIP)).Nodup ∧
    ∀ accepts ∈ [[⟨-1, 0⟩, ⟨7, 40⟩], [⟨7, 40⟩, ⟨8, 99⟩], [⟨7, 40⟩, ⟨8, 40⟩], [⟨7, 40⟩, ⟨8, 10⟩]],
      ∃ nt', waitNbrs threeNbrs 2 accepts = some nt' ∧
        ¬ LargerConnected 2 (taken threeNbrs 2 accepts) nt' := by
  apply And.intro (by decide)
  intro accepts h
  simp only [List.mem_cons, List.not_mem_nil, or_false] at h
  rcases h with rfl | rfl | rfl | rfl <;> exact ⟨_, rfl, by decide⟩

end DartNet.Overlay
