import Mathlib.Algebra.Order.BigOperators.Group.List
import Mathlib.Algebra.Order.Ring.Nat
import DartNet.Overlay.Links

/-! The start of the overlay comes to its end, if every process listens before another one's
`OVERLAY_START_DELAY` is over. -/
namespace DartNet.Overlay
open Function Network Sockets Transition
variable {Host : Type} {t : Topology Host} {ip : ℤ → UInt32} {room : ℕ} {s : Startup}

/-- The delay of a main thread is over only when `waitNbrs` runs at every node. -/
def Delayed (t : Topology Host) (s : Startup) : StartupAction → Prop
  | .waitNbrs _ _ => True
  | .connectNbrs x _ => s.mainThread x = .sleeping → ∀ y ∈ t.nodeIDs, s.waitThread y ≠ .created

instance (t : Topology Host) (s : Startup) (a : StartupAction) : Decidable (Delayed t s a) := by
  cases a <;> dsimp only [Delayed] <;> infer_instance

/-- The rounds that `waitNbrs` still makes. -/
def waitLeft (nbrs : ℕ) : WaitThread → ℕ
  | .created => nbrs + 2
  | .accepting n k => n - k + 1
  | .exited => 0

def mainLeft (nbrs : ℕ) : MainThread → ℕ
  | .sleeping => nbrs + 2
  | .connecting _ i _ => nbrs - i + 1
  | .returned _ => 0

def nodeLeft (s : Startup) (x : ℤ) : ℕ :=
  waitLeft (larger x (s.nt x)).length (s.waitThread x) + mainLeft (s.nt x).length (s.mainThread x)

/-- The rounds that all threads still make. -/
def roundsLeft (t : Topology Host) (s : Startup) : ℕ := (t.nodeIDs.map (nodeLeft s)).sum

/-- Every thread has come to its end, and every link has its connection. -/
def Started (t : Topology Host) (ip : ℤ → UInt32) (s : Startup) : Prop :=
  (∀ x ∈ t.nodeIDs, s.waitThread x = .exited ∧ s.mainThread x = .returned 1) ∧
    ∀ x y c, t.link x y c → y < x → s.Joined ip x y

theorem roundsLeft_lt_of_node {s' : Startup} {x : ℤ} (hx : x ∈ t.nodeIDs)
    (hlt : nodeLeft s' x < nodeLeft s x) (hsame : ∀ y, y ≠ x → nodeLeft s' y = nodeLeft s y) :
    roundsLeft t s' < roundsLeft t s := by
  apply List.sum_lt_sum
  · intro y _
    by_cases hyx : y = x
    · exact hyx ▸ hlt.le
    · exact (hsame y hyx).le
  · exact ⟨x, hx, hlt⟩

theorem length_withConn (y d : ℤ) (nt : List NbrEntry) :
    (withConn y d nt).length = nt.length := List.length_map ..

/-- Each round brings its thread nearer to its end. -/
theorem roundsLeft_lt (hip : Addressed t ip) (h : LinksInv t ip s) {a : StartupAction}
    {s' : Startup} (hs : (startupMachine room t ip).step s a = some s') :
    roundsLeft t s' < roundsLeft t s := by
  cases startupSteps_of_step hs with
  | @noneLarger x _ hx hth hnone =>
    apply roundsLeft_lt_of_node hx
    · simp [nodeLeft, hth, waitLeft]
    · intro y hy
      simp [nodeLeft, hy]
  | @listen x _ hx hth =>
    apply roundsLeft_lt_of_node hx
    · simp [nodeLeft, hth, waitLeft]
    · intro y hy
      simp [nodeLeft, hy]
  | @accept x d n k client net hx hth hlt hnet =>
    obtain ⟨j, ks, server, hback, hc, hd, _, _⟩ := Net.accept_eq_some hnet
    obtain ⟨e, _, _, hy, _, hcj⟩ := h.waiting hip hx (hback ▸ List.mem_cons_self ..)
    obtain ⟨rfl, _⟩ := Prod.mk.inj (Option.some.inj (hc.symm.trans hcj))
    rw [(h.table x hx).acceptOne hip hy hd]
    apply roundsLeft_lt_of_node hx
    · simp only [nodeLeft, update_self, hth, waitLeft, length_withConn]
      omega
    · intro y hy
      simp [nodeLeft, hy]
  | @allAccepted x _ n k hx hth hle =>
    apply roundsLeft_lt_of_node hx
    · simp [nodeLeft, hth, waitLeft]
    · intro y hy
      simp [nodeLeft, hy]
  | @wake x d hx hth =>
    apply roundsLeft_lt_of_node hx
    · simp [nodeLeft, hth, mainLeft]
    · intro y hy
      simp [nodeLeft, hy]
  | @connect x d n i k e net hx hth hi hlt _ hnet =>
    have hilt := (List.getElem?_eq_some_iff.mp hi).1
    rw [(h.table x hx).set hi]
    apply roundsLeft_lt_of_node hx
    · simp only [nodeLeft, update_self, hth, mainLeft, length_withConn,
        larger_withConn_smaller hlt]
      omega
    · intro y hy
      simp [nodeLeft, hy]
  | @refused x _ n i k e hx hth hi hlt _ =>
    apply roundsLeft_lt_of_node hx
    · simp [nodeLeft, hth, mainLeft]
    · intro y hy
      simp [nodeLeft, hy]
  | @skip x _ n i k e hx hth hi hge =>
    have hilt := (List.getElem?_eq_some_iff.mp hi).1
    apply roundsLeft_lt_of_node hx
    · simp only [nodeLeft, update_self, hth, mainLeft]
      omega
    · intro y hy
      simp [nodeLeft, hy]
  | @allConnected x _ n i k hx hth hle =>
    apply roundsLeft_lt_of_node hx
    · simp [nodeLeft, hth, mainLeft]
    · intro y hy
      simp [nodeLeft, hy]

/-- Once a main thread is awake all processes listen, so that no connection is refused. -/
def Awake (t : Topology Host) (s : Startup) : Prop :=
  ∀ x ∈ t.nodeIDs, (∀ r, s.mainThread x = .returned r → r = 1) ∧
    (s.mainThread x ≠ .sleeping → ∀ y ∈ t.nodeIDs, s.waitThread y ≠ .created)

theorem Awake.listening (hawake : Awake t s) (h : LinksInv t ip s) {x : ℤ} (hx : x ∈ t.nodeIDs)
    (hmain : s.mainThread x ≠ .sleeping) {e : NbrEntry} (he : e ∈ s.nt x) (hlt : e.nodeID < x) :
    s.net.listening e.nodeIP = true := by
  obtain ⟨c, hlink⟩ := (h.table x hx).link_of_mem he
  have hlink' := Topology.link_symm hlink
  have hy := Topology.link_mem hlink'
  obtain ⟨e', he', hid⟩ := (h.table _ hy).exists_entry hlink'
  rw [(h.table x hx).addr e he]
  apply h.listening _ hy
  · exact List.ne_nil_of_mem (mem_larger.mpr ⟨he', hid ▸ hlt⟩)
  · exact (hawake x hx).2 hmain _ hy

theorem step_awake (h : LinksInv t ip s) (hawake : Awake t s) {a : StartupAction}
    (ha : Delayed t s a) {s' : Startup} (hs : (startupMachine room t ip).step s a = some s') :
    Awake t s' := by
  have hwait : ∀ {x : ℤ} {th : WaitThread}, th ≠ .created →
      ∀ z ∈ t.nodeIDs, (∀ r, s.mainThread z = .returned r → r = 1) ∧
        (s.mainThread z ≠ .sleeping → ∀ y ∈ t.nodeIDs, update s.waitThread x th y ≠ .created) := by
    intro x th hth z hz
    refine ⟨(hawake z hz).1, fun hmain => ?_⟩
    exact forall_update (P := fun _ (th : WaitThread) => th ≠ .created)
      (fun y hy _ => (hawake z hz).2 hmain y hy) hth
  have hmain : ∀ {x : ℤ} {th : MainThread}, x ∈ t.nodeIDs → (∀ r, th = .returned r → r = 1) →
      s.mainThread x ≠ .sleeping → ∀ z ∈ t.nodeIDs,
        (∀ r, update s.mainThread x th z = .returned r → r = 1) ∧
          (update s.mainThread x th z ≠ .sleeping →
            ∀ y ∈ t.nodeIDs, s.waitThread y ≠ .created) := by
    intro x th hx hth hawoken
    exact forall_update (P := fun _ (th : MainThread) => (∀ r, th = .returned r → r = 1) ∧
        (th ≠ .sleeping → ∀ y ∈ t.nodeIDs, s.waitThread y ≠ .created))
      (fun z hz _ => hawake z hz) ⟨hth, fun _ => (hawake x hx).2 hawoken⟩
  cases startupSteps_of_step hs with
  | noneLarger => exact hwait (by simp)
  | listen => exact hwait (by simp)
  | accept => exact hwait (by simp)
  | allAccepted => exact hwait (by simp)
  | @wake x d hx hth =>
    exact forall_update (P := fun _ (th : MainThread) => (∀ r, th = .returned r → r = 1) ∧
        (th ≠ .sleeping → ∀ y ∈ t.nodeIDs, s.waitThread y ≠ .created))
      (fun z hz _ => hawake z hz) ⟨by simp, fun _ => ha hth⟩
  | connect hx hth _ _ _ _ => exact hmain hx (by simp) (by simp [hth])
  | @refused x _ n i k e hx hth hi hlt hlisten =>
    rw [hawake.listening h hx (by simp [hth]) (List.mem_of_getElem? hi) hlt] at hlisten
    contradiction
  | skip hx hth _ _ => exact hmain hx (by simp) (by simp [hth])
  | allConnected hx hth _ => exact hmain hx (by simp) (by simp [hth])

theorem awake_of_reachable (ht : t.WellFormed) (hip : Addressed t ip)
    (h : (startupMachine room t ip).Reachable (Delayed t) s) : Awake t s := by
  apply h.invariant_of (J := LinksInv t ip) (fun s hs => linksInv_of_reachable ht hip hs)
  · intro s hs x _
    simp [hs.mainThread]
  · exact fun s a s' hinv hawake ha hs => step_awake hinv hawake ha hs

section Progress
variable (h : LinksInv t ip s) (hawake : Awake t s)
include h

/-- A backlog is not left behind: once all larger neighbours are connected it is empty. -/
theorem LinksInv.exists_accept (hip : Addressed t ip) {x : ℤ} (hx : x ∈ t.nodeIDs)
    (hback : s.net.backlog (ip x) ≠ []) :
    ∃ d s', (startupMachine room t ip).step s (.waitNbrs x d) = some s' := by
  obtain ⟨d, hd, hfree⟩ := h.good.exists_free (ip x)
  obtain ⟨k, ks, hcons⟩ := List.exists_cons_of_ne_nil hback
  have hmem : k ∈ s.net.backlog (ip x) := hcons ▸ List.mem_cons_self ..
  obtain ⟨e, he, hlt, _, hconn, hk⟩ := h.waiting hip hx hmem
  have hlarger := mem_larger.mpr ⟨he, hlt⟩
  have hwait := h.wait x hx
  refine ⟨d, ?_⟩
  show ∃ s', (if x ∈ t.nodeIDs then s.waitNbrs ip x d else none) = some s'
  rw [if_pos hx, Startup.waitNbrs]
  cases hth : s.waitThread x with
  | created =>
    dsimp only
    split <;> exact ⟨_, rfl⟩
  | accepting n j =>
    rw [hth] at hwait
    have hjlt : j < n := by
      rw [hwait.1, hwait.2]
      apply Nat.lt_of_le_of_ne List.countP_le_length
      intro hall
      have hopen := List.countP_eq_length.mp hall e hlarger
      simp [hconn] at hopen
    dsimp only
    rw [if_pos hjlt, Net.accept, hcons]
    dsimp only
    rw [if_pos ⟨hd, hfree⟩, hk]
    exact ⟨_, rfl⟩
  | exited =>
    rw [hth] at hwait
    exact absurd hconn (hwait e hlarger)

include hawake

/-- A main thread in its loop goes on, or the server it calls can accept. -/
theorem LinksInv.exists_connect (hip : Addressed t ip) (hroom : 0 < room) {x : ℤ}
    (hx : x ∈ t.nodeIDs) {n i k : ℕ} (hth : s.mainThread x = .connecting n i k) :
    ∃ a s', Delayed t s a ∧ (startupMachine room t ip).step s a = some s' := by
  have hmain := h.main x hx
  rw [hth] at hmain
  obtain ⟨hn, hk, _, _⟩ := hmain
  have hdelayed : ∀ d, Delayed t s (.connectNbrs x d) := by
    intro d hsleep
    rw [hth] at hsleep
    contradiction
  have hstep : ∀ d, (startupMachine room t ip).step s (.connectNbrs x d) =
      s.connectNbrs room ip x d := fun d => if_pos hx
  by_cases hkn : k < n
  case neg =>
    have hgo := hstep 0
    rw [Startup.connectNbrs, hth] at hgo
    exact ⟨_, _, hdelayed 0, hgo.trans (if_neg hkn)⟩
  have hi : i < (s.nt x).length := by
    by_contra hge
    rw [List.take_of_length_le (Nat.le_of_not_lt hge)] at hk
    omega
  have hget : (s.nt x)[i]? = some (s.nt x)[i] := List.getElem?_eq_getElem hi
  have hmem := List.getElem_mem hi
  generalize (s.nt x)[i] = e at hget hmem
  by_cases hlt : e.nodeID < x
  case neg =>
    have hgo := hstep 0
    rw [Startup.connectNbrs, hth] at hgo
    dsimp only at hgo
    rw [if_pos hkn, hget, Option.bind_some, if_neg hlt] at hgo
    exact ⟨_, _, hdelayed 0, hgo⟩
  have hlisten := hawake.listening h hx (by simp [hth]) hmem hlt
  obtain ⟨c, hlink⟩ := (h.table x hx).link_of_mem hmem
  have hy := Topology.link_mem (Topology.link_symm hlink)
  by_cases hfull : (s.net.backlog e.nodeIP).length < room
  · obtain ⟨d, hd, hfree⟩ := h.good.exists_free (ip x)
    have hgo := hstep d
    rw [Startup.connectNbrs, hth] at hgo
    dsimp only at hgo
    rw [if_pos hkn, hget, Option.bind_some, if_pos hlt, if_pos hlisten, Net.connect,
      if_pos ⟨hd, hfree, hfull⟩, Option.map_some] at hgo
    exact ⟨_, _, hdelayed d, hgo⟩
  · have hback : s.net.backlog (ip e.nodeID) ≠ [] := by
      rw [← (h.table x hx).addr e hmem]
      intro hnil
      rw [hnil] at hfull
      exact hfull hroom
    obtain ⟨d, s', hs'⟩ := h.exists_accept hip hy hback
    exact ⟨.waitNbrs _ d, s', trivial, hs'⟩

/-- No start-up is stuck before it is done. -/
theorem LinksInv.exists_step (hip : Addressed t ip) (hroom : 0 < room)
    (hnot : ¬ ∀ x ∈ t.nodeIDs, s.waitThread x = .exited ∧ s.mainThread x = .returned 1) :
    ∃ a s', Delayed t s a ∧ (startupMachine room t ip).step s a = some s' := by
  by_cases hcreated : ∃ x ∈ t.nodeIDs, s.waitThread x = .created
  case pos =>
    obtain ⟨x, hx, hth⟩ := hcreated
    have hstep : (startupMachine room t ip).step s (.waitNbrs x 0) = s.waitNbrs ip x 0 := if_pos hx
    rw [Startup.waitNbrs, hth] at hstep
    dsimp only at hstep
    split at hstep <;> exact ⟨.waitNbrs x 0, _, trivial, hstep⟩
  have hcreated' : ∀ y ∈ t.nodeIDs, s.waitThread y ≠ .created := by
    intro y hy hth
    exact hcreated ⟨y, hy, hth⟩
  by_cases hreturned : ∀ x ∈ t.nodeIDs, s.mainThread x = .returned 1
  case neg =>
    simp only [not_forall] at hreturned
    obtain ⟨x, hx, hne⟩ := hreturned
    cases hth : s.mainThread x with
    | sleeping =>
      have hstep : (startupMachine room t ip).step s (.connectNbrs x 0) =
          s.connectNbrs room ip x 0 := if_pos hx
      rw [Startup.connectNbrs, hth] at hstep
      exact ⟨.connectNbrs x 0, _, fun _ => hcreated', hstep⟩
    | connecting n i k => exact h.exists_connect hawake hip hroom hx hth
    | returned r => exact absurd (hth.trans (congrArg _ ((hawake x hx).1 r hth))) hne
  obtain ⟨x, hx, hopen⟩ : ∃ x ∈ t.nodeIDs, s.waitThread x ≠ .exited := by
    by_contra hall
    simp only [not_exists, not_and, not_not] at hall
    exact hnot fun x hx => ⟨hall x hx, hreturned x hx⟩
  cases hth : s.waitThread x with
  | created => exact absurd hth (hcreated' x hx)
  | exited => exact absurd hth hopen
  | accepting n k =>
    have hwait := h.wait x hx
    rw [hth] at hwait
    by_cases hkn : k < n
    case neg =>
      have hstep : (startupMachine room t ip).step s (.waitNbrs x 0) = s.waitNbrs ip x 0 :=
        if_pos hx
      rw [Startup.waitNbrs, hth] at hstep
      dsimp only at hstep
      rw [if_neg hkn] at hstep
      exact ⟨.waitNbrs x 0, _, trivial, hstep⟩
    -- a larger neighbour that is missing has made its connection, which therefore waits
    obtain ⟨e, he, hconn⟩ : ∃ e ∈ larger x (s.nt x), e.conn = -1 := by
      by_contra hall
      simp only [not_exists, not_and] at hall
      have hlen : (larger x (s.nt x)).countP (·.conn ≠ -1) = (larger x (s.nt x)).length :=
        List.countP_eq_length.mpr fun e he => by simpa using hall e he
      have hn := hwait.1
      have hk := hwait.2
      omega
    obtain ⟨hmem, hlt⟩ := mem_larger.mp he
    obtain ⟨c, hlink⟩ := (h.table x hx).link_of_mem hmem
    have hlink' := Topology.link_symm hlink
    have hy := Topology.link_mem hlink'
    obtain ⟨e', he', hid⟩ := (h.table _ hy).exists_entry hlink'
    have hmain := h.main _ hy
    rw [hreturned _ hy] at hmain
    obtain ⟨j, _, hj⟩ := (h.client _ hy e' he' (hid ▸ hlt)).2
      (hmain rfl e' (mem_smaller.mpr ⟨he', hid ▸ hlt⟩))
    rw [hid] at hj
    have hwaits := (h.server x hx e hmem hlt).1 hconn j hj
    obtain ⟨d, s', hs'⟩ := h.exists_accept hip hx (List.ne_nil_of_mem hwaits)
    exact ⟨.waitNbrs x d, s', trivial, hs'⟩

end Progress

/-- With room for one waiting connection, every start-up in which the processes listen in time
can be finished from wherever it is, and then has a connection for every link; and it cannot go
on without end. -/
theorem startup_ends (ht : t.WellFormed) (hip : Addressed t ip) (hroom : 0 < room)
    (h : (startupMachine room t ip).Reachable (Delayed t) s) :
    (∃ as s', (startupMachine room t ip).run (Delayed t) s as = some s' ∧ Started t ip s') ∧
      ∃ n, ∀ as s', (startupMachine room t ip).run (Delayed t) s as = some s' → as.length ≤ n := by
  have hlower : ∀ s a s', (startupMachine room t ip).Reachable (Delayed t) s → Delayed t s a →
      (startupMachine room t ip).step s a = some s' →
        roundsLeft t s' < roundsLeft t s :=
    fun s a s' hs _ hs' => roundsLeft_lt hip (linksInv_of_reachable ht hip hs) hs'
  constructor
  · obtain ⟨as, s', hrun, hdone⟩ := Machine.exists_run
      (m := roundsLeft t)
      (P := fun s => ∀ x ∈ t.nodeIDs, s.waitThread x = .exited ∧ s.mainThread x = .returned 1)
      (by
        intro s hs hnot
        obtain ⟨a, s', ha, hs'⟩ := (linksInv_of_reachable ht hip hs).exists_step
          (awake_of_reachable ht hip hs) hip hroom hnot
        exact ⟨a, s', ha, hs', hlower s a s' hs ha hs'⟩) h
    have hinv := linksInv_of_reachable ht hip ((startupMachine room t ip).reachable_run _ h hrun)
    refine ⟨as, s', hrun, hdone, ?_⟩
    intro x y c hlink hlt
    have hy := Topology.link_mem (Topology.link_symm hlink)
    exact hinv.joined_of_exited hlink hlt (hdone y hy).1
  · refine ⟨roundsLeft t s, fun as s' hrun => ?_⟩
    have hle := Machine.length_le_of_run hlower h hrun
    omega

/-- Nodes 2 and 3 make their connections and node 1 takes none of them yet. -/
def noneTaken : List StartupAction :=
  [.waitNbrs 1 0, .waitNbrs 2 0, .waitNbrs 3 0, .connectNbrs 3 0, .connectNbrs 3 5,
    .connectNbrs 2 0, .connectNbrs 2 7, .connectNbrs 3 6]

theorem startup_ends_ring : ∃ s : Startup,
    (startupMachine 2 ring ringAddress).run (Delayed ring) (Startup.start ring) noneTaken =
      some s ∧ s.net.backlog (ringAddress 1) = [1, 2] ∧
      ∃ as s', (startupMachine 2 ring ringAddress).run (Delayed ring) s as = some s' ∧
        Started ring ringAddress s' := by
  obtain ⟨s, hrun, hs, hback⟩ := (startupMachine 2 ring ringAddress).exists_of_run (Delayed ring)
    (startup_start_init (by decide)) noneTaken
    (P := fun s => s.net.backlog (ringAddress 1) = [1, 2]) (by decide +kernel)
  exact ⟨s, hrun, hback, (startup_ends ring_wellFormed ring_addressed (by decide) hs).1⟩

end DartNet.Overlay
