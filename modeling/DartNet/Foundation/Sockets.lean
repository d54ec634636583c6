import Mathlib.Data.Int.Notation
import Mathlib.Data.List.Nodup
import Mathlib.Order.Lattice
import Mathlib.Order.Nat
import Mathlib.Tactic.Common

/-! Stream sockets of hosts that accept connections on one port each: the connections that wait
to be accepted, and the descriptors that stand for the ends of connections. -/
namespace Sockets
open Function

/-- An end of the connection with a number. -/
inductive End
  | client (k : ℕ)
  | server (k : ℕ)
  deriving DecidableEq

structure Net (Host : Type*) where
  listening : Host → Bool
  /-- The connections that wait for `accept`, the oldest first. -/
  backlog : Host → List ℕ
  /-- The client and the server of each connection that was ever made. -/
  conns : List (Host × Host)
  fd : Host → ℤ → Option End

/-- The host that an end belongs to. -/
def End.host {Host : Type*} (conns : List (Host × Host)) : End → Option Host
  | .client k => (conns[k]?).map Prod.fst
  | .server k => (conns[k]?).map Prod.snd

/-- An end keeps its host while connections are added. -/
theorem End.host_append {Host : Type*} {conns : List (Host × Host)} {e : End} {h : Host}
    (he : e.host conns = some h) (more : List (Host × Host)) :
    e.host (conns ++ more) = some h := by
  cases e with
  | client k =>
    obtain ⟨c, hc, rfl⟩ := Option.map_eq_some_iff.mp he
    simp [End.host, List.getElem?_append_left (List.getElem?_eq_some_iff.mp hc).1, hc]
  | server k =>
    obtain ⟨c, hc, rfl⟩ := Option.map_eq_some_iff.mp he
    simp [End.host, List.getElem?_append_left (List.getElem?_eq_some_iff.mp hc).1, hc]

/-- The other end of the same connection. -/
def End.peer : End → End
  | .client k => .server k
  | .server k => .client k

@[simp] theorem End.peer_peer (e : End) : e.peer.peer = e := by cases e <;> rfl

theorem End.peer_inj {e e' : End} : e.peer = e'.peer ↔ e = e' :=
  ⟨fun h => by rw [← e.peer_peer, h, e'.peer_peer], congrArg End.peer⟩

theorem End.lt_length {Host : Type*} {conns : List (Host × Host)} {k : ℕ} {h : Host}
    (he : (End.server k).host conns = some h ∨ (End.client k).host conns = some h) :
    k < conns.length := by
  rcases he with he | he <;>
  · obtain ⟨c, hc, _⟩ := Option.map_eq_some_iff.mp he
    exact (List.getElem?_eq_some_iff.mp hc).1

namespace Net
variable {Host : Type*}

def empty : Net Host := ⟨fun _ => false, fun _ => [], [], fun _ _ => none⟩

/-- Descriptors stand for different ends of connections of their host, and a connection that
waits has no descriptor yet. -/
structure Good (net : Net Host) : Prop where
  held : ∀ h d e, net.fd h d = some e → 0 ≤ d ∧ e.host net.conns = some h
  once : ∀ h d d' e, net.fd h d = some e → net.fd h d' = some e → d = d'
  waiting : ∀ h, ∀ k ∈ net.backlog h, (End.server k).host net.conns = some h ∧
    ∀ d, net.fd h d ≠ some (.server k)
  nodup : ∀ h, (net.backlog h).Nodup
  free : ∀ h, ∃ b : ℤ, ∀ d, b ≤ d → net.fd h d = none

theorem good_empty : (empty : Net Host).Good := by
  constructor <;> simp [empty]

theorem Good.exists_free {net : Net Host} (hg : net.Good) (h : Host) :
    ∃ d : ℤ, 0 ≤ d ∧ net.fd h d = none := by
  obtain ⟨b, hb⟩ := hg.free h
  exact ⟨max b 0, by omega, hb _ (by omega)⟩

variable [DecidableEq Host]

def listen (net : Net Host) (h : Host) : Net Host :=
  { net with listening := update net.listening h true }

/-- A connection is made as soon as there is room for it in the backlog of the server, which may
be before the server accepts it. The client's descriptor is any that is free. -/
def connect (room : ℕ) (net : Net Host) (client server : Host) (d : ℤ) : Option (Net Host) :=
  if 0 ≤ d ∧ net.fd client d = none ∧ (net.backlog server).length < room then
    some { net with
      backlog := update net.backlog server (net.backlog server ++ [net.conns.length])
      conns := net.conns ++ [(client, server)]
      fd := update net.fd client (update (net.fd client) d (some (.client net.conns.length))) }
  else none

/-- The client of the connection that has waited longest, for which `d` becomes the descriptor. -/
def accept (net : Net Host) (server : Host) (d : ℤ) : Option (Host × Net Host) :=
  match net.backlog server with
  | [] => none
  | k :: ks =>
    if 0 ≤ d ∧ net.fd server d = none then
      (net.conns[k]?).map fun c => (c.1,
        { net with
          backlog := update net.backlog server ks
          fd := update net.fd server (update (net.fd server) d (some (.server k))) })
    else none

variable {net : Net Host}

theorem connect_eq_some {room : ℕ} {client server : Host} {d : ℤ} {net' : Net Host}
    (h : net.connect room client server d = some net') :
    0 ≤ d ∧ net.fd client d = none ∧ net' = { net with
      backlog := update net.backlog server (net.backlog server ++ [net.conns.length])
      conns := net.conns ++ [(client, server)]
      fd := update net.fd client
        (update (net.fd client) d (some (.client net.conns.length))) } := by
  unfold connect at h
  split at h
  next hd => exact ⟨hd.1, hd.2.1, (Option.some.inj h).symm⟩
  next => contradiction

theorem accept_eq_some {server client : Host} {d : ℤ} {net' : Net Host}
    (h : net.accept server d = some (client, net')) :
    ∃ k ks server', net.backlog server = k :: ks ∧ net.conns[k]? = some (client, server') ∧
      0 ≤ d ∧ net.fd server d = none ∧ net' = { net with
        backlog := update net.backlog server ks
        fd := update net.fd server (update (net.fd server) d (some (.server k))) } := by
  unfold accept at h
  split at h
  next => contradiction
  next k ks hback =>
    split at h
    next hd =>
      obtain ⟨c, hc, h⟩ := Option.map_eq_some_iff.mp h
      obtain ⟨rfl, rfl⟩ := Prod.mk.inj h
      exact ⟨k, ks, c.2, hback, hc, hd.1, hd.2, rfl⟩
    next => contradiction

theorem Good.listen (hg : net.Good) (h : Host) : (net.listen h).Good :=
  ⟨hg.held, hg.once, hg.waiting, hg.nodup, hg.free⟩

/-- A descriptor that was free, now standing for an end that no other one stands for. -/
theorem fd_update {h h' : Host} {d d' : ℤ} {e : End} :
    update net.fd h (update (net.fd h) d (some e)) h' d' =
      if h' = h ∧ d' = d then some e else net.fd h' d' := by
  by_cases hh : h' = h
  · subst hh
    by_cases hd : d' = d
    · simp [hd]
    · simp [hd]
  · simp [hh]

/-- Descriptors in use keep their ends. -/
theorem accept_fd {server client : Host} {d : ℤ} {net' : Net Host}
    (hnet : net.accept server d = some (client, net')) {h : Host} {d' : ℤ} {e : End}
    (he : net.fd h d' = some e) : net'.fd h d' = some e := by
  obtain ⟨k, ks, server', _, _, _, hfree, rfl⟩ := accept_eq_some hnet
  simp only [fd_update]
  split
  next heq =>
    obtain ⟨rfl, rfl⟩ := heq
    rw [hfree] at he
    contradiction
  next => exact he

theorem connect_fd {room : ℕ} {client server : Host} {d : ℤ} {net' : Net Host}
    (hnet : net.connect room client server d = some net') {h : Host} {d' : ℤ} {e : End}
    (he : net.fd h d' = some e) : net'.fd h d' = some e := by
  obtain ⟨_, hfree, rfl⟩ := connect_eq_some hnet
  simp only [fd_update]
  split
  next heq =>
    obtain ⟨rfl, rfl⟩ := heq
    rw [hfree] at he
    contradiction
  next => exact he

/-- What is kept when a descriptor is taken for an end without one. -/
theorem Good.take (hg : net.Good) {h : Host} {d : ℤ} {e : End} (hd : 0 ≤ d)
    (hnew : ∀ d', net.fd h d' ≠ some e) {conns : List (Host × Host)}
    (hold : ∀ h' d' e', net.fd h' d' = some e' → e'.host conns = some h')
    (he : e.host conns = some h) {fd : Host → ℤ → Option End}
    (hfd : fd = update net.fd h (update (net.fd h) d (some e))) :
    (∀ h' d' e', fd h' d' = some e' → 0 ≤ d' ∧ e'.host conns = some h') ∧
      (∀ h' d₁ d₂ e', fd h' d₁ = some e' → fd h' d₂ = some e' → d₁ = d₂) ∧
      ∀ h', ∃ b : ℤ, ∀ d', b ≤ d' → fd h' d' = none := by
  subst hfd
  simp only [fd_update]
  refine ⟨?_, ?_, ?_⟩
  · intro h' d' e' h1
    split at h1
    next heq =>
      obtain ⟨rfl, rfl⟩ := heq
      exact Option.some.inj h1 ▸ ⟨hd, he⟩
    next => exact ⟨(hg.held h' d' e' h1).1, hold h' d' e' h1⟩
  · intro h' d₁ d₂ e' h1 h2
    split at h1
    next heq =>
      obtain ⟨rfl, rfl⟩ := heq
      split at h2
      next heq => exact heq.2.symm
      next => exact absurd (h2.trans h1.symm) (hnew d₂)
    next =>
      split at h2
      next heq =>
        obtain ⟨rfl, rfl⟩ := heq
        exact absurd (h1.trans h2.symm) (hnew d₁)
      next => exact hg.once h' d₁ d₂ e' h1 h2
  · intro h'
    obtain ⟨b, hb⟩ := hg.free h'
    refine ⟨max b (d + 1), fun d' hd' => ?_⟩
    rw [if_neg (by omega), hb d' (by omega)]

theorem Good.connect (hg : net.Good) {room : ℕ} {client server : Host} {d : ℤ}
    {net' : Net Host} (hnet : net.connect room client server d = some net') : net'.Good := by
  obtain ⟨hd, _, rfl⟩ := connect_eq_some hnet
  have hclient : ∀ h' d', net.fd h' d' ≠ some (.client net.conns.length) := by
    intro h' d' hfd
    exact absurd (End.lt_length (.inr (hg.held h' d' _ hfd).2)) (Nat.lt_irrefl _)
  have hnew :
      (End.client net.conns.length).host (net.conns ++ [(client, server)]) = some client := by
    simp [End.host]
  obtain ⟨hheld, honce, hfree⟩ := hg.take hd (hclient client)
    (fun h' d' e' he => End.host_append (hg.held h' d' e' he).2 _) hnew rfl
  refine ⟨hheld, honce, ?_, ?_, hfree⟩
  · intro h k hk
    have hmem : (End.server k).host (net.conns ++ [(client, server)]) = some h ∧
        ∀ d, net.fd h d ≠ some (.server k) := by
      by_cases hs : h = server
      · subst hs
        simp only [update_self, List.mem_append, List.mem_singleton] at hk
        rcases hk with hk | rfl
        · exact ⟨End.host_append (hg.waiting h k hk).1 _, (hg.waiting h k hk).2⟩
        · refine ⟨by simp [End.host], fun d' hfd => ?_⟩
          exact absurd (End.lt_length (.inl (hg.held h d' _ hfd).2)) (Nat.lt_irrefl _)
      · simp only [update_of_ne hs] at hk
        exact ⟨End.host_append (hg.waiting h k hk).1 _, (hg.waiting h k hk).2⟩
    refine ⟨hmem.1, fun d' => ?_⟩
    simp only [fd_update]
    split
    next => simp
    next => exact hmem.2 d'
  · intro h
    by_cases hs : h = server
    · subst hs
      simp only [update_self, List.nodup_append]
      refine ⟨hg.nodup h, by simp, ?_⟩
      rintro k hk _ hk' rfl
      obtain rfl := List.mem_singleton.mp hk'
      exact absurd (End.lt_length (.inl (hg.waiting h _ hk).1)) (Nat.lt_irrefl _)
    · simp only [update_of_ne hs]
      exact hg.nodup h

theorem Good.accept (hg : net.Good) {server client : Host} {d : ℤ} {net' : Net Host}
    (hnet : net.accept server d = some (client, net')) : net'.Good := by
  obtain ⟨k, ks, server', hback, hc, hd, _, rfl⟩ := accept_eq_some hnet
  obtain ⟨hhost, hnone⟩ := hg.waiting server k (hback ▸ List.mem_cons_self ..)
  have hnodup := hback ▸ hg.nodup server
  obtain ⟨hheld, honce, hfree⟩ := hg.take hd hnone
    (fun h' d' e' he => (hg.held h' d' e' he).2) hhost rfl
  refine ⟨hheld, honce, ?_, ?_, hfree⟩
  · intro h j hj
    by_cases hs : h = server
    · subst hs
      simp only [update_self] at hj
      have hjk : j ≠ k := fun hjk => (List.nodup_cons.mp hnodup).1 (hjk ▸ hj)
      obtain ⟨hhost, hnone⟩ := hg.waiting h j (hback ▸ List.mem_cons_of_mem _ hj)
      refine ⟨hhost, fun d' => ?_⟩
      simp only [fd_update]
      split
      next => simpa using hjk.symm
      next => exact hnone d'
    · simp only [update_of_ne hs] at hj
      obtain ⟨hhost, hnone⟩ := hg.waiting h j hj
      refine ⟨hhost, fun d' => ?_⟩
      simp only [fd_update, hs, false_and, if_false]
      exact hnone d'
  · intro h
    by_cases hs : h = server
    · subst hs
      simp only [update_self]
      exact (List.nodup_cons.mp hnodup).2
    · simp only [update_of_ne hs]
      exact hg.nodup h

section Streams
omit [DecidableEq Host]
variable {α : Type*}

/-- What is written through a descriptor arrives at the other end of its connection. -/
def write (net : Net Host) (h : Host) (m : α) (arriving : End → List α) (d : ℤ) :
    End → List α :=
  match net.fd h d with
  | none => arriving
  | some e => update arriving e.peer (arriving e.peer ++ [m])

/-- A message written through several descriptors arrives once for each that stands for the
other end. -/
theorem foldl_write (h : Host) (m : α) (ds : List ℤ) (arriving : End → List α) (e : End) :
    ds.foldl (net.write h m) arriving e.peer =
      arriving e.peer ++ List.replicate (ds.countP fun d => net.fd h d = some e) m := by
  induction ds generalizing arriving with
  | nil => simp
  | cons d ds ih =>
    rw [List.foldl_cons, ih, List.countP_cons]
    cases hfd : net.fd h d with
    | none => simp [write, hfd]
    | some e' =>
      by_cases heq : e' = e
      · subst heq
        simp [write, hfd, List.replicate_succ]
      · have hne : e.peer ≠ e'.peer := fun h => heq (End.peer_inj.mp h).symm
        simp [write, hfd, heq, update_of_ne hne]

end Streams
end Net
end Sockets
