import DartNet.Overlay.Startup

/-! What the threads of all ON processes make of the links, in whatever order they run. -/
namespace DartNet.Overlay
open Function Network Sockets Transition
variable {Host : Type} {t : Topology Host} {ip : ℤ → UInt32} {room : ℕ} {s : Startup}

/-- What the connection in an entry of a smaller neighbour is. -/
def ClientEntry (net : Net UInt32) (me peer : UInt32) (conn : ℤ) : Prop :=
  (conn = -1 → (me, peer) ∉ net.conns) ∧
    (conn ≠ -1 → ∃ k, net.fd me conn = some (.client k) ∧ net.conns[k]? = some (me, peer))

/-- What the connection in an entry of a larger neighbour is. -/
def ServerEntry (net : Net UInt32) (me peer : UInt32) (conn : ℤ) : Prop :=
  (conn = -1 → ∀ k : ℕ, net.conns[k]? = some (peer, me) → k ∈ net.backlog me) ∧
    (conn ≠ -1 → ∃ k, net.fd me conn = some (.server k) ∧ net.conns[k]? = some (peer, me))

/-- How far `waitNbrs` has come, from the entries of the larger neighbours. -/
def WaitOk (nbrs : List NbrEntry) : WaitThread → Prop
  | .created => ∀ e ∈ nbrs, e.conn = -1
  | .accepting n k => n = nbrs.length ∧ k = nbrs.countP (·.conn ≠ -1)
  | .exited => ∀ e ∈ nbrs, e.conn ≠ -1

/-- How far `connectNbrs` has come: the loop has connected the smaller neighbours in front of
its index, and no others. -/
def MainOk (x : ℤ) (nt : List NbrEntry) : MainThread → Prop
  | .sleeping => ∀ e ∈ smaller x nt, e.conn = -1
  | .connecting n i k => n = (smaller x nt).length ∧ k = (smaller x (nt.take i)).length ∧
      (∀ e ∈ smaller x (nt.take i), e.conn ≠ -1) ∧ ∀ e ∈ smaller x (nt.drop i), e.conn = -1
  | .returned r => r = 1 → ∀ e ∈ smaller x nt, e.conn ≠ -1

structure LinksInv (t : Topology Host) (ip : ℤ → UInt32) (s : Startup) : Prop where
  good : s.net.Good
  nodup : s.net.conns.Nodup
  made : ∀ c ∈ s.net.conns, ∃ x y k, t.link x y k ∧ y < x ∧ c = (ip x, ip y)
  table : ∀ x ∈ t.nodeIDs, Table t ip x (s.nt x)
  client : ∀ x ∈ t.nodeIDs, ∀ e ∈ s.nt x, e.nodeID < x →
    ClientEntry s.net (ip x) (ip e.nodeID) e.conn
  server : ∀ x ∈ t.nodeIDs, ∀ e ∈ s.nt x, x < e.nodeID →
    ServerEntry s.net (ip x) (ip e.nodeID) e.conn
  kept : ∀ x ∈ t.nodeIDs, ∀ d, s.net.fd (ip x) d ≠ none → ∃ e ∈ s.nt x, e.conn = d
  wait : ∀ x ∈ t.nodeIDs, WaitOk (larger x (s.nt x)) (s.waitThread x)
  main : ∀ x ∈ t.nodeIDs, MainOk x (s.nt x) (s.mainThread x)
  listening : ∀ x ∈ t.nodeIDs, larger x (s.nt x) ≠ [] → s.waitThread x ≠ .created →
    s.net.listening (ip x) = true

section Lists
variable {nt : List NbrEntry} {x y d : ℤ} {i : ℕ} {e : NbrEntry}

theorem mem_larger : e ∈ larger x nt ↔ e ∈ nt ∧ x < e.nodeID := by simp [larger]

theorem mem_smaller : e ∈ smaller x nt ↔ e ∈ nt ∧ e.nodeID < x := by simp [smaller]

theorem larger_withConn (x y d : ℤ) (nt : List NbrEntry) :
    larger x (withConn y d nt) = withConn y d (larger x nt) := by
  rw [larger, larger, withConn, withConn, List.filter_map]
  congr 1
  apply List.filter_congr
  intro e _
  dsimp only [Function.comp]
  split <;> rfl

theorem smaller_withConn (x y d : ℤ) (nt : List NbrEntry) :
    smaller x (withConn y d nt) = withConn y d (smaller x nt) := by
  rw [smaller, smaller, withConn, withConn, List.filter_map]
  congr 1
  apply List.filter_congr
  intro e _
  dsimp only [Function.comp]
  split <;> rfl

theorem withConn_of_not_mem (h : ∀ e ∈ nt, e.nodeID ≠ y) : withConn y d nt = nt := by
  rw [withConn]
  conv_rhs => rw [← List.map_id nt]
  exact List.map_congr_left fun e he => if_neg (h e he)

/-- A connection with a smaller neighbour leaves the entries of the larger ones. -/
theorem larger_withConn_smaller (h : y < x) : larger x (withConn y d nt) = larger x nt := by
  rw [larger_withConn, withConn_of_not_mem]
  intro e he
  have hlt := (mem_larger.mp he).2
  omega

theorem smaller_withConn_larger (h : x < y) : smaller x (withConn y d nt) = smaller x nt := by
  rw [smaller_withConn, withConn_of_not_mem]
  intro e he
  have hlt := (mem_smaller.mp he).2
  omega

/-- One more entry is connected. -/
theorem countP_withConn (hnodup : (nt.map (·.nodeID)).Nodup) (he : e ∈ nt) (hy : e.nodeID = y)
    (hconn : e.conn = -1) (hd : d ≠ -1) : (withConn y d nt).countP (·.conn ≠ -1) =
      nt.countP (·.conn ≠ -1) + 1 := by
  induction nt with
  | nil => simp at he
  | cons a nt ih =>
    obtain ⟨ha, hnodup⟩ := List.nodup_cons.mp hnodup
    have hcons : withConn y d (a :: nt) =
        (if a.nodeID = y then { a with conn := d } else a) :: withConn y d nt := rfl
    rw [hcons, List.countP_cons, List.countP_cons]
    rcases List.mem_cons.mp he with rfl | he
    · have hrest : withConn y d nt = nt := by
        apply withConn_of_not_mem
        intro a' ha' heq
        exact ha (List.mem_map.mpr ⟨a', ha', heq.trans hy.symm⟩)
      rw [hrest]
      simp [hy, hconn, hd]
    · have hne : a.nodeID ≠ y := fun heq => ha (List.mem_map.mpr ⟨e, he, hy.trans heq.symm⟩)
      rw [ih hnodup he, if_neg hne]
      omega

theorem smaller_append (x : ℤ) (l l' : List NbrEntry) :
    smaller x (l ++ l') = smaller x l ++ smaller x l' := List.filter_append ..

end Lists

/-- The table and the thread of one node change. -/
theorem forall_update {β : Type} {nodes : List ℤ} {P : ℤ → β → Prop} {f : ℤ → β} {x : ℤ} {v : β}
    (h : ∀ z ∈ nodes, z ≠ x → P z (f z)) (hx : P x v) : ∀ z ∈ nodes, P z (update f x v z) := by
  intro z hz
  by_cases hzx : z = x
  · subst hzx
    rwa [update_self]
  · rw [update_of_ne hzx]
    exact h z hz hzx

section Steps

theorem LinksInv.waitThread (h : LinksInv t ip s) {x : ℤ} {th : WaitThread}
    (hth : WaitOk (larger x (s.nt x)) th)
    (hlisten : larger x (s.nt x) ≠ [] → th ≠ .created → s.net.listening (ip x) = true) :
    LinksInv t ip { s with waitThread := update s.waitThread x th } :=
  { h with
    wait := forall_update (P := fun z (th : WaitThread) => WaitOk (larger z (s.nt z)) th)
      (fun z hz _ => h.wait z hz) hth
    listening := forall_update
      (P := fun z (th : WaitThread) => larger z (s.nt z) ≠ [] → th ≠ .created →
        s.net.listening (ip z) = true)
      (fun z hz _ => h.listening z hz) hlisten }

theorem LinksInv.mainThread (h : LinksInv t ip s) {x : ℤ} {th : MainThread}
    (hth : MainOk x (s.nt x) th) :
    LinksInv t ip { s with mainThread := update s.mainThread x th } :=
  { h with
    main := forall_update (P := fun z (th : MainThread) => MainOk z (s.nt z) th)
      (fun z hz _ => h.main z hz) hth }

theorem LinksInv.listen (h : LinksInv t ip s) (x : ℤ) :
    LinksInv t ip { s with net := s.net.listen (ip x) } :=
  { h with
    good := h.good.listen (ip x)
    listening := by
      intro z hz hlarger hth
      by_cases heq : ip z = ip x
      · simp [Net.listen, heq]
      · simpa [Net.listen, heq] using h.listening z hz hlarger hth }

theorem MainOk.withConn {x y : ℤ} {nt : List NbrEntry} {th : MainThread} (h : MainOk x nt th)
    (hlt : x < y) (d : ℤ) : MainOk x (withConn y d nt) th := by
  have htake : ∀ i, (Overlay.withConn y d nt).take i = Overlay.withConn y d (nt.take i) :=
    fun i => List.map_take.symm
  have hdrop : ∀ i, (Overlay.withConn y d nt).drop i = Overlay.withConn y d (nt.drop i) :=
    fun i => List.map_drop.symm
  cases th with
  | sleeping => simpa only [MainOk, smaller_withConn_larger hlt] using h
  | connecting n i k =>
    simpa only [MainOk, htake, hdrop, smaller_withConn_larger hlt] using h
  | returned r => simpa only [MainOk, smaller_withConn_larger hlt] using h

theorem MainOk.all_connected {x : ℤ} {nt : List NbrEntry} {n i k : ℕ}
    (h : MainOk x nt (.connecting n i k)) (hle : n ≤ k) : ∀ e ∈ smaller x nt, e.conn ≠ -1 := by
  obtain ⟨hn, hk, hfront, _⟩ := h
  have hsplit := smaller_append x (nt.take i) (nt.drop i)
  rw [List.take_append_drop] at hsplit
  have hnone : smaller x (nt.drop i) = [] := by
    have hlen := congrArg List.length hsplit
    rw [List.length_append] at hlen
    exact List.eq_nil_of_length_eq_zero (by omega)
  rw [hsplit, hnone, List.append_nil]
  exact hfront

theorem ClientEntry.mono {net net' : Net UInt32} {me peer : UInt32} {conn : ℤ}
    (h : ClientEntry net me peer conn)
    (hfd : ∀ d e, net.fd me d = some e → net'.fd me d = some e)
    (hconns : ∀ (k : ℕ) c, net.conns[k]? = some c → net'.conns[k]? = some c)
    (hnew : conn = -1 → (me, peer) ∉ net'.conns) : ClientEntry net' me peer conn := by
  refine ⟨hnew, fun hne => ?_⟩
  obtain ⟨k, hk, hc⟩ := h.2 hne
  exact ⟨k, hfd _ _ hk, hconns _ _ hc⟩

theorem ServerEntry.mono {net net' : Net UInt32} {me peer : UInt32} {conn : ℤ}
    (h : ServerEntry net me peer conn)
    (hfd : ∀ d e, net.fd me d = some e → net'.fd me d = some e)
    (hconns : ∀ (k : ℕ) c, net.conns[k]? = some c → net'.conns[k]? = some c)
    (hnew : conn = -1 → ∀ k : ℕ, net'.conns[k]? = some (peer, me) → k ∈ net'.backlog me) :
    ServerEntry net' me peer conn := by
  refine ⟨hnew, fun hne => ?_⟩
  obtain ⟨k, hk, hc⟩ := h.2 hne
  exact ⟨k, hfd _ _ hk, hconns _ _ hc⟩

/-- The client of a connection that waits at `x` is a larger neighbour whose entry is not
connected yet. -/
theorem LinksInv.waiting (hip : Addressed t ip) (h : LinksInv t ip s) {x : ℤ}
    (hx : x ∈ t.nodeIDs) {k : ℕ} (hk : k ∈ s.net.backlog (ip x)) : ∃ e ∈ s.nt x,
      x < e.nodeID ∧ e.nodeID ∈ t.nodeIDs ∧ e.conn = -1 ∧
        s.net.conns[k]? = some (ip e.nodeID, ip x) := by
  obtain ⟨hhost, hnone⟩ := h.good.waiting _ _ hk
  obtain ⟨c, hc, hserver⟩ := Option.map_eq_some_iff.mp hhost
  obtain ⟨y, x', cost, hlink, hlt, rfl⟩ := h.made c (List.mem_of_getElem? hc)
  have hlink' := Topology.link_symm hlink
  obtain rfl := hip.inj (Topology.link_mem hlink') hx hserver
  obtain ⟨e, he, rfl⟩ := (h.table x' hx).exists_entry hlink'
  refine ⟨e, he, hlt, Topology.link_mem hlink, ?_, hc⟩
  by_contra hne
  obtain ⟨j, hj, hcj⟩ := (h.server x' hx e he hlt).2 hne
  obtain rfl : j = k := by
    have hjlt := (List.getElem?_eq_some_iff.mp hcj).1
    exact (List.getElem?_inj hjlt h.nodup).mp (hcj.trans hc.symm)
  exact hnone _ hj

/-- A descriptor taken for an entry that had none. -/
theorem LinksInv.kept_take (hip : Addressed t ip) (h : LinksInv t ip s) {x : ℤ}
    (hx : x ∈ t.nodeIDs) {e : NbrEntry} (he : e ∈ s.nt x) (hconn : e.conn = -1) (d : ℤ)
    (en : End) : ∀ z ∈ t.nodeIDs, ∀ d',
      update s.net.fd (ip x) (update (s.net.fd (ip x)) d (some en)) (ip z) d' ≠ none →
        ∃ e' ∈ update s.nt x (withConn e.nodeID d (s.nt x)) z, e'.conn = d' := by
  intro z hz d' hd'
  rw [Net.fd_update] at hd'
  by_cases hzx : z = x
  · subst hzx
    rw [update_self]
    by_cases hdd : d' = d
    · exact ⟨{ e with conn := d }, mem_withConn.mpr (.inr ⟨e, he, rfl, rfl⟩), hdd.symm⟩
    · rw [if_neg fun heq => hdd heq.2] at hd'
      obtain ⟨e', he', rfl⟩ := h.kept z hz d' hd'
      refine ⟨e', mem_withConn.mpr (.inl ⟨fun hid => ?_, he'⟩), rfl⟩
      obtain rfl := (h.table z hz).eq_of_nodeID he' he hid
      obtain ⟨en, hen⟩ := Option.ne_none_iff_exists'.mp hd'
      have hnonneg := (h.good.held _ _ _ hen).1
      omega
  · rw [update_of_ne hzx]
    rw [if_neg fun heq => hzx (hip.inj hz hx heq.1)] at hd'
    exact h.kept z hz d' hd'

theorem LinksInv.accept (hip : Addressed t ip) (h : LinksInv t ip s) {x d : ℤ} {n k : ℕ}
    {client : UInt32} {net : Net UInt32} (hx : x ∈ t.nodeIDs)
    (hth : s.waitThread x = .accepting n k) (hnet : s.net.accept (ip x) d = some (client, net)) :
    LinksInv t ip { s with
      net
      nt := update s.nt x (acceptOne (s.nt x) ⟨d, client⟩)
      waitThread := update s.waitThread x (.accepting n (k + 1)) } := by
  obtain ⟨j, ks, server, hback, hc, hd, hfree, hneteq⟩ := Net.accept_eq_some hnet
  obtain ⟨e, he, hlt, hy, hconn, hcj⟩ := h.waiting hip hx (hback ▸ List.mem_cons_self ..)
  obtain ⟨rfl, _⟩ := Prod.mk.inj (Option.some.inj (hc.symm.trans hcj))
  have htable := h.table x hx
  have hconns : net.conns = s.net.conns := by rw [hneteq]
  have hlistening : net.listening = s.net.listening := by rw [hneteq]
  have hfd : ∀ z d e, s.net.fd z d = some e → net.fd z d = some e :=
    fun z d e => Net.accept_fd hnet
  have hne : d ≠ -1 := by omega
  rw [htable.acceptOne hip hy hd]
  constructor
  case good => exact h.good.accept hnet
  case nodup => exact hconns ▸ h.nodup
  case made => exact hconns ▸ h.made
  case table =>
    exact forall_update (P := fun z (nt : List NbrEntry) => Table t ip z nt)
      (fun z hz _ => h.table z hz) (htable.withConn _ _)
  case client =>
    have hkeep : ∀ z ∈ t.nodeIDs, ∀ e ∈ s.nt z, e.nodeID < z →
        ClientEntry net (ip z) (ip e.nodeID) e.conn := by
      intro z hz e he hez
      have hold := h.client z hz e he hez
      exact hold.mono (hfd _) (fun _ _ => hconns ▸ id) (hconns ▸ hold.1)
    apply forall_update (P := fun z (nt : List NbrEntry) => ∀ e ∈ nt, e.nodeID < z →
      ClientEntry net (ip z) (ip e.nodeID) e.conn) (fun z hz _ => hkeep z hz)
    intro e' he' hex
    rcases mem_withConn.mp he' with ⟨_, he'⟩ | ⟨e'', _, hid, rfl⟩
    · exact hkeep x hx e' he' hex
    · exact absurd hex (by dsimp only; omega)
  case server =>
    intro z hz e' he' hez
    dsimp only at he'
    by_cases hzx : z = x
    · subst hzx
      rw [update_self] at he'
      rcases mem_withConn.mp he' with ⟨hid, he'⟩ | ⟨e'', he'', hid, rfl⟩
      · have hold := h.server z hz e' he' hez
        refine hold.mono (hfd _) (fun _ _ => hconns ▸ id) ?_
        intro hconn' i hi
        have hmem := hold.1 hconn' i (hconns ▸ hi)
        rw [hback] at hmem
        rcases List.mem_cons.mp hmem with rfl | hmem
        · rw [hconns, hcj, Option.some.injEq, Prod.mk.injEq] at hi
          obtain ⟨c, hlink⟩ := htable.link_of_mem he'
          exact absurd (hip.inj hy (Topology.link_mem (Topology.link_symm hlink)) hi.1).symm hid
        · simpa [hneteq] using hmem
      · obtain rfl := htable.eq_of_nodeID he'' he hid
        refine ⟨fun h => absurd h hne, fun _ => ⟨j, ?_, hconns ▸ hcj⟩⟩
        simp [hneteq]
    · rw [update_of_ne hzx] at he'
      have hold := h.server z hz e' he' hez
      refine hold.mono (hfd _) (fun _ _ => hconns ▸ id) ?_
      intro hconn' i hi
      have hmem := hold.1 hconn' i (hconns ▸ hi)
      have hzx' : ip z ≠ ip x := fun heq => hzx (hip.inj hz hx heq)
      simpa [hneteq, hzx'] using hmem
  case kept => exact hneteq ▸ h.kept_take hip hx he hconn d _
  case wait =>
    intro z hz
    dsimp only
    by_cases hzx : z = x
    · subst hzx
      simp only [update_self, larger_withConn]
      have hold := h.wait z hz
      rw [hth] at hold
      refine ⟨hold.1.trans (by simp [withConn]), ?_⟩
      have hlarger : ((larger z (s.nt z)).map (·.nodeID)).Nodup :=
        htable.nodup.sublist (List.filter_sublist.map _)
      rw [countP_withConn hlarger (mem_larger.mpr ⟨he, hlt⟩) rfl hconn hne, hold.2]
    · simp only [update_of_ne hzx]
      exact h.wait z hz
  case main =>
    exact forall_update (P := fun z (nt : List NbrEntry) => MainOk z nt (s.mainThread z))
      (fun z hz _ => h.main z hz) ((h.main x hx).withConn hlt d)
  case listening =>
    intro z hz hlarger hcreated
    dsimp only at hlarger hcreated ⊢
    rw [hlistening]
    by_cases hzx : z = x
    · subst hzx
      apply h.listening z hz (List.ne_nil_of_mem (mem_larger.mpr ⟨he, hlt⟩))
      simp [hth]
    · rw [update_of_ne hzx] at hlarger hcreated
      exact h.listening z hz hlarger hcreated

theorem take_succ_of_getElem? {nt : List NbrEntry} {i : ℕ} {e : NbrEntry}
    (hi : nt[i]? = some e) : nt.take (i + 1) = nt.take i ++ [e] ∧
      nt.drop i = e :: nt.drop (i + 1) := by
  obtain ⟨hlt, rfl⟩ := List.getElem?_eq_some_iff.mp hi
  exact ⟨by rw [List.take_succ_eq_append_getElem hlt], List.drop_eq_getElem_cons hlt⟩

theorem MainOk.skip {x : ℤ} {nt : List NbrEntry} {n i k : ℕ} (h : MainOk x nt (.connecting n i k))
    {e : NbrEntry} (hi : nt[i]? = some e) (hlarge : ¬ e.nodeID < x) :
    MainOk x nt (.connecting n (i + 1) k) := by
  obtain ⟨hn, hk, hfront, hback⟩ := h
  obtain ⟨htake, hdrop⟩ := take_succ_of_getElem? hi
  have hnone : smaller x [e] = [] := by simp [smaller, hlarge]
  rw [hdrop, show e :: nt.drop (i + 1) = [e] ++ nt.drop (i + 1) from rfl, smaller_append, hnone]
    at hback
  refine ⟨hn, ?_, ?_, hback⟩
  · rw [htake, smaller_append, hnone, List.append_nil, hk]
  · rw [htake, smaller_append, hnone, List.append_nil]
    exact hfront

theorem MainOk.connect {x d : ℤ} {nt : List NbrEntry} {n i k : ℕ}
    (h : MainOk x nt (.connecting n i k)) {e : NbrEntry} (hi : nt[i]? = some e)
    (hsmall : e.nodeID < x) (hd : d ≠ -1) :
    MainOk x (nt.set i { e with conn := d }) (.connecting n (i + 1) (k + 1)) := by
  obtain ⟨hn, hk, hfront, hback⟩ := h
  obtain ⟨htake, hdrop⟩ := take_succ_of_getElem? hi
  have hlt := (List.getElem?_eq_some_iff.mp hi).1
  have hsplit : nt = nt.take i ++ [e] ++ nt.drop (i + 1) := by
    rw [← htake, List.take_append_drop]
  have hlen : (nt.take i).length = i := List.length_take_of_le hlt.le
  have hone : ∀ e' : NbrEntry, e'.nodeID = e.nodeID → smaller x [e'] = [e'] := by
    intro e' he'
    simp [smaller, he', hsmall]
  have hset : nt.set i { e with conn := d } =
      nt.take i ++ [{ e with conn := d }] ++ nt.drop (i + 1) := by
    conv_lhs => rw [hsplit, List.append_assoc, List.set_append_right _ _ hlen.le, hlen]
    simp
  have htake' : (nt.set i { e with conn := d }).take (i + 1) =
      nt.take i ++ [{ e with conn := d }] := by
    rw [hset]
    exact List.take_left' (by simp [hlen])
  have hdrop' : (nt.set i { e with conn := d }).drop (i + 1) = nt.drop (i + 1) := by
    rw [hset]
    exact List.drop_left' (by simp [hlen])
  have hnew := hone { e with conn := d } rfl
  refine ⟨?_, ?_, ?_, ?_⟩
  · rw [hn, hset]
    conv_lhs => rw [hsplit]
    simp only [smaller_append, hnew, hone e rfl, List.length_append, List.length_singleton]
  · rw [htake', smaller_append, hnew, List.length_append, hk, List.length_singleton]
  · intro e' he'
    rw [htake', smaller_append, hnew] at he'
    rcases List.mem_append.mp he' with he' | he'
    · exact hfront e' he'
    · exact List.mem_singleton.mp he' ▸ hd
  · intro e' he'
    rw [hdrop'] at he'
    obtain ⟨hmem, hlt⟩ := mem_smaller.mp he'
    exact hback e' (mem_smaller.mpr ⟨hdrop ▸ List.mem_cons_of_mem _ hmem, hlt⟩)

theorem LinksInv.connect (hip : Addressed t ip) (h : LinksInv t ip s) {x d : ℤ} {n i k : ℕ}
    {e : NbrEntry} {net : Net UInt32} (hx : x ∈ t.nodeIDs)
    (hth : s.mainThread x = .connecting n i k) (hi : (s.nt x)[i]? = some e) (hlt : e.nodeID < x)
    (hnet : s.net.connect room (ip x) e.nodeIP d = some net) :
    LinksInv t ip { s with
      net
      nt := update s.nt x ((s.nt x).set i { e with conn := d })
      mainThread := update s.mainThread x (.connecting n (i + 1) (k + 1)) } := by
  obtain ⟨hd, hfree, hneteq⟩ := Net.connect_eq_some hnet
  have htable := h.table x hx
  have hmain := h.main x hx
  rw [hth] at hmain
  have he := List.mem_of_getElem? hi
  obtain ⟨c, hlink⟩ := htable.link_of_mem he
  have hy := Topology.link_mem (Topology.link_symm hlink)
  have haddr := htable.addr e he
  have hne : d ≠ -1 := by omega
  have hconn : e.conn = -1 := by
    apply hmain.2.2.2 e (mem_smaller.mpr ⟨?_, hlt⟩)
    rw [(take_succ_of_getElem? hi).2]
    exact List.mem_cons_self ..
  have hfresh := (h.client x hx e he hlt).1 hconn
  have hconns : net.conns = s.net.conns ++ [(ip x, ip e.nodeID)] := by rw [hneteq, haddr]
  have hlistening : net.listening = s.net.listening := by rw [hneteq]
  have hold : ∀ (k : ℕ) c, s.net.conns[k]? = some c → net.conns[k]? = some c := by
    intro k c hk
    rw [hconns, List.getElem?_append_left (List.getElem?_eq_some_iff.mp hk).1, hk]
  have hlast : net.conns[s.net.conns.length]? = some (ip x, ip e.nodeID) := by simp [hconns]
  have hfd : ∀ z d e, s.net.fd z d = some e → net.fd z d = some e :=
    fun z d e => Net.connect_fd hnet
  rw [htable.set hi]
  constructor
  case good => exact h.good.connect hnet
  case nodup =>
    show net.conns.Nodup
    rw [hconns]
    apply List.nodup_append.mpr ⟨h.nodup, by simp, ?_⟩
    rintro c hc _ hc' rfl
    exact hfresh (List.mem_singleton.mp hc' ▸ hc)
  case made =>
    intro c' hc'
    dsimp only at hc'
    rw [hconns, List.mem_append, List.mem_singleton] at hc'
    rcases hc' with hc' | rfl
    · exact h.made c' hc'
    · exact ⟨x, e.nodeID, c, hlink, hlt, rfl⟩
  case table =>
    exact forall_update (P := fun z (nt : List NbrEntry) => Table t ip z nt)
      (fun z hz _ => h.table z hz) (htable.withConn _ _)
  case client =>
    intro z hz e' he' hez
    dsimp only at he'
    have hkeep : e' ∈ s.nt z → (z = x → e'.nodeID ≠ e.nodeID) →
        ClientEntry net (ip z) (ip e'.nodeID) e'.conn := by
      intro he' hid
      have hentry := h.client z hz e' he' hez
      refine hentry.mono (hfd _) hold ?_
      intro hconn' hmem
      rw [hconns, List.mem_append, List.mem_singleton, Prod.mk.injEq] at hmem
      rcases hmem with hmem | ⟨hzx, hye⟩
      · exact hentry.1 hconn' hmem
      · obtain ⟨c', hlink'⟩ := (h.table z hz).link_of_mem he'
        exact hid (hip.inj hz hx hzx)
          (hip.inj (Topology.link_mem (Topology.link_symm hlink')) hy hye)
    by_cases hzx : z = x
    · subst hzx
      rw [update_self] at he'
      rcases mem_withConn.mp he' with ⟨hid, he'⟩ | ⟨e'', he'', hid, rfl⟩
      · exact hkeep he' fun _ => hid
      · obtain rfl := htable.eq_of_nodeID he'' he hid
        refine ⟨fun h => absurd h hne, fun _ => ⟨_, ?_, hlast⟩⟩
        simp [hneteq]
    · rw [update_of_ne hzx] at he'
      exact hkeep he' fun h => absurd h hzx
  case server =>
    intro z hz e' he' hez
    dsimp only at he'
    have hkeep : e' ∈ s.nt z → ServerEntry net (ip z) (ip e'.nodeID) e'.conn := by
      intro he'
      have hentry := h.server z hz e' he' hez
      refine hentry.mono (hfd _) hold ?_
      intro hconn' j hj
      rcases Nat.lt_or_ge j s.net.conns.length with hjlt | hjge
      · rw [hconns, List.getElem?_append_left hjlt] at hj
        have hmem := hentry.1 hconn' j hj
        rw [hneteq]
        dsimp only
        by_cases hzy : ip z = e.nodeIP
        · rw [hzy, update_self, ← hzy]
          exact List.mem_append_left _ hmem
        · rwa [update_of_ne hzy]
      · have hjlen := (List.getElem?_eq_some_iff.mp hj).1
        rw [hconns, List.length_append, List.length_singleton] at hjlen
        obtain rfl : j = s.net.conns.length := by omega
        have hzy : ip z = e.nodeIP := by
          rw [hlast, Option.some.injEq, Prod.mk.injEq] at hj
          exact hj.2.symm.trans haddr.symm
        rw [hneteq]
        simp [hzy]
    by_cases hzx : z = x
    · subst hzx
      rw [update_self] at he'
      rcases mem_withConn.mp he' with ⟨_, he'⟩ | ⟨e'', _, hid, rfl⟩
      · exact hkeep he'
      · exact absurd hez (by dsimp only; omega)
    · rw [update_of_ne hzx] at he'
      exact hkeep he'
  case kept => exact hneteq ▸ h.kept_take hip hx he hconn d _
  case wait =>
    apply forall_update (P := fun z (nt : List NbrEntry) => WaitOk (larger z nt) (s.waitThread z))
      (fun z hz _ => h.wait z hz)
    rw [larger_withConn_smaller hlt]
    exact h.wait x hx
  case main =>
    intro z hz
    dsimp only
    by_cases hzx : z = x
    · subst hzx
      rw [update_self, update_self, ← htable.set hi]
      exact hmain.connect hi hlt hne
    · rw [update_of_ne hzx, update_of_ne hzx]
      exact h.main z hz
  case listening =>
    intro z hz hlarger hcreated
    dsimp only at hlarger hcreated ⊢
    rw [hlistening]
    by_cases hzx : z = x
    · subst hzx
      rw [update_self, larger_withConn_smaller hlt] at hlarger
      exact h.listening z hz hlarger hcreated
    · rw [update_of_ne hzx] at hlarger
      exact h.listening z hz hlarger hcreated

theorem step_linksInv (hip : Addressed t ip) (h : LinksInv t ip s) {a : StartupAction}
    {s' : Startup} (hs : (startupMachine room t ip).step s a = some s') : LinksInv t ip s' := by
  cases startupSteps_of_step hs with
  | @noneLarger x _ hx hth hnone =>
    apply h.waitThread
    · simp [WaitOk, hnone]
    · exact fun hne => absurd hnone hne
  | @listen x _ hx hth =>
    have hwait := h.wait x hx
    rw [hth] at hwait
    apply (h.listen x).waitThread
    · refine ⟨rfl, (List.countP_eq_zero.mpr fun e he => ?_).symm⟩
      simpa using hwait e he
    · intro _ _
      simp [Net.listen]
  | accept hx hth _ hnet => exact h.accept hip hx hth hnet
  | @allAccepted x _ n k hx hth hle =>
    have hwait := h.wait x hx
    rw [hth] at hwait
    apply h.waitThread
    · have hall := List.countP_eq_length.mp
        ((List.countP_le_length).antisymm (hwait.1 ▸ hwait.2 ▸ hle))
      simpa [WaitOk] using hall
    · exact fun hne _ => h.listening x hx hne (by rw [hth]; exact fun h => nomatch h)
  | @wake x d hx hth =>
    have hmain := h.main x hx
    rw [hth] at hmain
    exact h.mainThread ⟨rfl, rfl, by simp [smaller], hmain⟩
  | connect hx hth he hlt _ hnet => exact h.connect hip hx hth he hlt hnet
  | refused hx hth he hlt _ => exact h.mainThread (by simp [MainOk])
  | @skip x _ n i k e hx hth he hge =>
    have hmain := h.main x hx
    rw [hth] at hmain
    exact h.mainThread (hmain.skip he hge)
  | @allConnected x _ n i k hx hth hle =>
    have hmain := h.main x hx
    rw [hth] at hmain
    apply h.mainThread
    intro _
    exact hmain.all_connected hle

theorem init_linksInv (ht : t.WellFormed) (hip : Addressed t ip)
    (hs : (startupMachine room t ip).Init s) : LinksInv t ip s := by
  have hcreate : ∀ x ∈ t.nodeIDs, Table t ip x (s.nt x) ∧ ∀ e ∈ s.nt x, e.conn = -1 := by
    intro x hx
    obtain ⟨nt, hnt, htable, hconn⟩ := ntCreate_table ht hip x
    obtain rfl := Option.some.inj ((hs.nt x hx).symm.trans hnt)
    exact ⟨htable, hconn⟩
  constructor
  case good => exact hs.net ▸ Net.good_empty
  case nodup => simp [hs.net, Net.empty]
  case made => simp [hs.net, Net.empty]
  case table => exact fun x hx => (hcreate x hx).1
  case client =>
    intro x hx e he _
    simp [ClientEntry, hs.net, Net.empty, (hcreate x hx).2 e he]
  case server =>
    intro x hx e he _
    simp [ServerEntry, hs.net, Net.empty, (hcreate x hx).2 e he]
  case kept => simp [hs.net, Net.empty]
  case wait =>
    intro x hx
    rw [hs.waitThread]
    exact fun e he => (hcreate x hx).2 e (mem_larger.mp he).1
  case main =>
    intro x hx
    rw [hs.mainThread]
    exact fun e he => (hcreate x hx).2 e (mem_smaller.mp he).1
  case listening =>
    intro x _ _ h
    rw [hs.waitThread] at h
    contradiction

theorem linksInv_of_reachable (ht : t.WellFormed) (hip : Addressed t ip)
    {ok : Startup → StartupAction → Prop} (h : (startupMachine room t ip).Reachable ok s) :
    LinksInv t ip s :=
  h.invariant (fun _ hs => init_linksInv ht hip hs) fun _ _ _ h _ hs => step_linksInv hip h hs

end Steps

section Results

/-- Two open entries of neighbours for each other are the ends of one connection. -/
theorem LinksInv.joined (h : LinksInv t ip s) {x y : ℤ} {c : ℕ}
    (hlink : t.link x y c) (hlt : y < x) {ey : NbrEntry} (hey : ey ∈ s.nt y)
    (hx : ey.nodeID = x) (hconn : ey.conn ≠ -1) : s.Joined ip x y := by
  have hymem := Topology.link_mem (Topology.link_symm hlink)
  have hxmem := Topology.link_mem hlink
  obtain ⟨k, hfd, hk⟩ := (h.server y hymem ey hey (hx ▸ hlt)).2 hconn
  obtain ⟨ex, hex, hy⟩ := (h.table x hxmem).exists_entry hlink
  have hclient := h.client x hxmem ex hex (hy ▸ hlt)
  rw [hx] at hk
  rw [hy] at hclient
  have hopen : ex.conn ≠ -1 := fun hnone => hclient.1 hnone (List.mem_of_getElem? hk)
  obtain ⟨j, hj, hcj⟩ := hclient.2 hopen
  obtain rfl : j = k := by
    have hjlt := (List.getElem?_eq_some_iff.mp hcj).1
    exact (List.getElem?_inj hjlt h.nodup).mp (hcj.trans hk.symm)
  exact ⟨ex, hex, hy, ey, hey, hx, j, hk, hj, hfd⟩

/-- What an open entry stands for: the own end of the connection with its neighbour. -/
theorem LinksInv.exists_end (ht : t.WellFormed) (h : LinksInv t ip s) {x : ℤ}
    (hx : x ∈ t.nodeIDs) {e : NbrEntry} (he : e ∈ s.nt x) (hconn : e.conn ≠ -1) :
    ∃ en k c, s.net.fd (ip x) e.conn = some en ∧ s.net.conns[k]? = some c ∧
      ((e.nodeID < x ∧ en = .client k ∧ c = (ip x, ip e.nodeID)) ∨
        x < e.nodeID ∧ en = .server k ∧ c = (ip e.nodeID, ip x)) := by
  obtain ⟨c, hlink⟩ := (h.table x hx).link_of_mem he
  rcases Int.lt_trichotomy e.nodeID x with hlt | heq | hlt
  · obtain ⟨k, hk, hc⟩ := (h.client x hx e he hlt).2 hconn
    exact ⟨_, k, _, hk, hc, .inl ⟨hlt, rfl, rfl⟩⟩
  · exact absurd heq.symm (Topology.link_ne ht hlink)
  · obtain ⟨k, hk, hc⟩ := (h.server x hx e he hlt).2 hconn
    exact ⟨_, k, _, hk, hc, .inr ⟨hlt, rfl, rfl⟩⟩

theorem LinksInv.joined_of_exited (h : LinksInv t ip s) {x y : ℤ} {c : ℕ}
    (hlink : t.link x y c) (hlt : y < x) (hexited : s.waitThread y = .exited) :
    s.Joined ip x y := by
  have hy := Topology.link_mem (Topology.link_symm hlink)
  obtain ⟨ey, hey, hx⟩ := (h.table y hy).exists_entry (Topology.link_symm hlink)
  have hwait := h.wait y hy
  rw [hexited] at hwait
  exact h.joined hlink hlt hey hx (hwait ey (mem_larger.mpr ⟨hey, hx ▸ hlt⟩))

/-- The open entries of a node are descriptors of different connections. -/
theorem LinksInv.conn_inj (ht : t.WellFormed) (hip : Addressed t ip) (h : LinksInv t ip s) {x : ℤ}
    (hx : x ∈ t.nodeIDs) {e e' : NbrEntry} (he : e ∈ s.nt x) (he' : e' ∈ s.nt x)
    (hsame : e.conn = e'.conn) (hconn : e.conn ≠ -1) : e = e' := by
  obtain ⟨en, k, c, hfd, hk, hc⟩ := h.exists_end ht hx he hconn
  obtain ⟨en', k', c', hfd', hk', hc'⟩ := h.exists_end ht hx he' (hsame ▸ hconn)
  rw [hsame, hfd', Option.some.injEq] at hfd
  have hnode : ∀ e ∈ s.nt x, e.nodeID ∈ t.nodeIDs := by
    intro e he
    obtain ⟨c, hlink⟩ := (h.table x hx).link_of_mem he
    exact Topology.link_mem (Topology.link_symm hlink)
  have heq : ip e.nodeID = ip e'.nodeID := by
    rcases hc with ⟨_, rfl, rfl⟩ | ⟨_, rfl, rfl⟩ <;>
      rcases hc' with ⟨_, rfl, rfl⟩ | ⟨_, rfl, rfl⟩ <;> simp_all
  exact (h.table x hx).eq_of_nodeID he he' (hip.inj (hnode e he) (hnode e' he') heq)

def ring : Topology ℕ := .numbered [⟨1, 2, 4⟩, ⟨2, 3, 1⟩, ⟨1, 3, 2⟩]

def ringAddress (x : ℤ) : UInt32 := UInt32.ofNat x.toNat

theorem ring_wellFormed : ring.WellFormed where
  resolved := by decide
  noSelfLink := by decide
  onePerPair := by decide
  cost := by decide
  nodes := by decide

theorem ring_addressed : Addressed ring ringAddress := by
  unfold Addressed
  decide

theorem ring_link : ring.link 3 1 2 :=
  ⟨⟨1, 3, 2⟩, by simp [ring, Topology.numbered], by decide, rfl⟩

/-- Node 2 is refused by node 1, which then starts to listen and takes the connection of 3. -/
def oneRefused : List StartupAction :=
  [.connectNbrs 2 0, .connectNbrs 2 7, .waitNbrs 1 0, .waitNbrs 2 0, .connectNbrs 3 0,
    .connectNbrs 3 5, .connectNbrs 3 6, .waitNbrs 1 4]

/-- All links of the ring, node 1 coming last. -/
def ringUp : List StartupAction :=
  [.waitNbrs 1 0, .waitNbrs 2 0, .waitNbrs 3 0, .connectNbrs 2 0, .connectNbrs 3 0,
    .connectNbrs 3 5, .waitNbrs 2 6, .connectNbrs 2 7, .connectNbrs 3 6, .waitNbrs 1 4,
    .waitNbrs 1 5, .waitNbrs 1 0]

end Results
end DartNet.Overlay
