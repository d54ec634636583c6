import DartNet.Common.Checksum
import DartNet.Srt.Tables

/-! One turn of `seghandler` for any segment that `snp_recvseg` hands over, at the server and at the
client. A read outside an array is undefined. -/
namespace DartNet.Tables
open Slots Transition

section Turn
variable {σ α : Type*} {n : ℕ} (H : Handler σ UInt32 Incoming α Seg)

/-- The control block that the lookup of `seghandler` stops at. -/
def lookup (T : Table n σ) (m : Incoming) : Option σ := (H.find T (H.dest m)).bind T

/-- The control block does with the segment what its handler says. -/
def turn (T : Table n σ) (m : Incoming) : Option (Table n σ × List (Fin n × Seg)) :=
  H.step T (.message m)

variable {H}

theorem lookup_key {T : Table n σ} {m : Incoming} {s : σ} (h : lookup H T m = some s) :
    H.key s = H.dest m := by
  obtain ⟨i, hfind, hs⟩ := Option.bind_eq_some_iff.mp h
  obtain ⟨⟨s', hs', hkey⟩, _⟩ := Handler.find_eq_some_iff.mp hfind
  rwa [Option.some.inj (hs'.symm.trans hs)] at hkey

/-- A turn is that of the control block found. -/
theorem turn_isSome_iff {T : Table n σ} {m : Incoming} :
    (turn H T m).isSome ↔ ∀ s ∈ lookup H T m, (H.handle s m).isSome := by
  unfold turn lookup
  cases hfind : H.find T (H.dest m) with
  | none => simp [Handler.step, Handler.slot, hfind]
  | some i =>
    obtain ⟨⟨s, hs, _⟩, _⟩ := Handler.find_eq_some_iff.mp hfind
    simp [Handler.step, Handler.slot, hfind, hs, Handler.does]

end Turn

/-- A connected server takes the data of the segment. -/
def Appends (s : Server.Socket) (m : Incoming) : Prop :=
  s.tcb.state = .connected ∧ m.seg.header.type = SegType.data ∧
    s.tcb.fromClient m.srcNodeID m.seg ∧ s.tcb.takes m.seg

/-- The `DATAACK` of a connected client finds the mutex held. -/
def Waits (s : Client.Socket) (m : Incoming) : Prop :=
  s.tcb.state = .connected ∧ m.seg.header.type = SegType.dataack ∧
    s.tcb.fromServer m.srcNodeID m.seg ∧ s.tcb.bufMutex = true

theorem server_receive_isSome {s : Server.Socket} {m : Incoming}
    (hport : s.tcb.svrPortNum = m.seg.header.destPort) :
    (s.receive m.srcNodeID m.seg).isSome ↔
      (Appends s m → m.seg.header.length.toNat ≤ maxSegLen) := by
  rw [Server.Socket.receive, Option.isSome_map]
  unfold Server.seghandler Appends
  rw [if_pos hport]
  cases hst : s.tcb.state with
  | closed => simp
  | listening =>
    dsimp only
    split <;> simp
  | connected =>
    dsimp only
    split
    next ht =>
      refine iff_of_true rfl ?_
      rintro ⟨_, htype, _⟩
      exact absurd (ht.1.symm.trans htype) (by decide)
    next =>
      split
      next ht =>
        refine iff_of_true rfl ?_
        rintro ⟨_, htype, _⟩
        exact absurd (ht.1.symm.trans htype) (by decide)
      next =>
        split
        next ht =>
          rw [Server.handleData]
          by_cases htakes : s.tcb.takes m.seg
          · by_cases hlen : m.seg.header.length.toNat ≤ maxSegLen
            · simp [htakes, hlen]
            · simp [ht, htakes, hlen]
          · simp [htakes]
        next ht =>
          refine iff_of_true rfl ?_
          rintro ⟨_, htype, hclient, _⟩
          exact absurd ⟨htype, hclient⟩ ht
  | closewait =>
    dsimp only
    split <;> simp

theorem client_receive_isSome {s : Client.Socket} {m : Incoming}
    (hport : s.tcb.clientPortNum = m.seg.header.destPort) :
    (s.receive m.srcNodeID m.seg).isSome ↔ ¬ Waits s m := by
  rw [Client.Socket.receive, Option.isSome_map]
  unfold Client.seghandler Waits
  rw [if_pos hport]
  cases hst : s.tcb.state with
  | closed => simp
  | synsent =>
    dsimp only
    split <;> simp
  | connected =>
    dsimp only
    split
    next ht =>
      by_cases hmutex : s.tcb.bufMutex = true
      · simp [ht, hmutex]
      · simp [hmutex]
    next ht =>
      refine iff_of_true rfl ?_
      rintro ⟨_, htype, hserver, _⟩
      exact ht ⟨htype, hserver⟩
  | finwait =>
    dsimp only
    split <;> simp

theorem serverHandler_isSome {s : Server.Socket} {m : Incoming}
    (hport : s.tcb.svrPortNum = m.seg.header.destPort) : (serverHandler.handle s m).isSome ↔
      m.seg.header.type ≤ SegType.dataack ∧
        (Appends s m → m.seg.header.length.toNat ≤ maxSegLen) := by
  rw [← segTypeString_isSome, ← server_receive_isSome hport]
  cases h : m.segTypeString <;> simp [serverHandler, h]

theorem clientHandler_isSome {s : Client.Socket} {m : Incoming}
    (hport : s.tcb.clientPortNum = m.seg.header.destPort) : (clientHandler.handle s m).isSome ↔
      m.seg.header.type ≤ SegType.dataack ∧ ¬ Waits s m := by
  rw [← segTypeString_isSome, ← client_receive_isSome hport]
  cases h : m.segTypeString <;> simp [clientHandler, h]

/-- For any tables and any segment, verified or not: a server handles it without a read outside an
array exactly if there is a text for its type and, where its data is appended, no more of it
than a segment holds; a client does, or waits for a mutex, exactly if there is the text. -/
theorem segments_handled_iff (T : ServerTable) (U : ClientTable) (m : Incoming) :
    ((turn serverHandler T m).isSome ↔
      ∀ s ∈ lookup serverHandler T m, m.seg.header.type ≤ SegType.dataack ∧
        (Appends s m → m.seg.header.length.toNat ≤ maxSegLen)) ∧
    ((turn clientHandler U m).isSome ∨ (∃ s ∈ lookup clientHandler U m, Waits s m) ↔
      ∀ s ∈ lookup clientHandler U m, m.seg.header.type ≤ SegType.dataack) := by
  constructor
  · rw [turn_isSome_iff]
    exact forall₂_congr fun s hs => serverHandler_isSome (lookup_key hs)
  · rw [turn_isSome_iff]
    cases hs : lookup clientHandler U m with
    | none => simp
    | some s =>
      simp only [Option.mem_some_iff, forall_eq', exists_eq_left',
        clientHandler_isSome (lookup_key hs)]
      constructor
      · rintro (⟨htype, _⟩ | ⟨_, htype, _⟩)
        · exact htype
        · exact htype ▸ UInt16.le_refl _
      · intro htype
        by_cases hwaits : Waits s m
        · exact .inr hwaits
        · exact .inl ⟨htype, hwaits⟩

/-- A segment as `snp_sendseg` stamps it, from a port of node 2. -/
def stamped (srcPort destPort seqNum : UInt32) (length type : UInt16) : Incoming :=
  ⟨2, Seg.stamp ⟨⟨srcPort, destPort, seqNum, 0, length, type, 0, 0⟩, .replicate _ 0⟩⟩

/-- A server that accepts a connection from port 4000 of node 2. -/
def accepting : List (Op maxTransportConnections UInt32 Incoming Server.Action) :=
  [.sock 80, .event (.act 0 .accept), .event (.message (stamped 4000 80 7 0 SegType.syn))]

/-- Verified segments of type 6, to a server and to a client, and one with 201 bytes of data. -/
theorem segments_not_handled :
    (∃ T : ServerTable, (serverMachine 1).Reachable (fun _ _ => True) T ∧
      (checkchecksum (stamped 4000 80 7 0 6).seg = 1 ∧
        ¬ (turn serverHandler T (stamped 4000 80 7 0 6)).isSome) ∧
      checkchecksum (stamped 4000 80 7 201 SegType.data).seg = 1 ∧
        ¬ (turn serverHandler T (stamped 4000 80 7 201 SegType.data)).isSome) ∧
    ∃ U : ClientTable, (clientMachine 1).Reachable (fun _ _ => True) U ∧
      checkchecksum (stamped 80 4000 0 0 6).seg = 1 ∧
        (∀ s ∈ lookup clientHandler U (stamped 80 4000 0 0 6),
          ¬ Waits s (stamped 80 4000 0 0 6)) ∧
        ¬ (turn clientHandler U (stamped 80 4000 0 0 6)).isSome := by
  have hsix : checkchecksum (stamped 4000 80 7 0 6).seg = 1 := by decide +kernel
  have hlong : checkchecksum (stamped 4000 80 7 201 SegType.data).seg = 1 := by decide +kernel
  have hclient : checkchecksum (stamped 80 4000 0 0 6).seg = 1 := by decide +kernel
  constructor
  · obtain ⟨T, _, hT, hrefused⟩ := (serverMachine 1).exists_of_run (fun _ _ => True) rfl accepting
      (P := fun T => ¬ (turn serverHandler T (stamped 4000 80 7 0 6)).isSome ∧
        ¬ (turn serverHandler T (stamped 4000 80 7 201 SegType.data)).isSome) (by decide +kernel)
    exact ⟨T, hT, ⟨hsix, hrefused.1⟩, hlong, hrefused.2⟩
  · obtain ⟨U, _, hU, hrefused⟩ := (clientMachine 1).exists_of_run (fun _ _ => True) rfl
      [.sock 4000] (P := fun U => ¬ (turn clientHandler U (stamped 80 4000 0 0 6)).isSome)
      (by decide +kernel)
    refine ⟨U, hU, hclient, ?_, hrefused⟩
    rintro s _ ⟨_, htype, _⟩
    exact absurd htype (by decide)

end DartNet.Tables
