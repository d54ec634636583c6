import DartNet.Foundation.Sockets
import DartNet.Foundation.Transition
import DartNet.Overlay.NeighborTable

/-! The start of the ON processes of a topology: `main` of `overlay/overlay.c` up to the join of
the thread `waitNbrs`. Only the ON processes connect to `CONNECTION_PORT`, and `accept` does not
fail. -/
namespace DartNet.Overlay
open Function Network Sockets Transition
variable {Host : Type}

inductive WaitThread
  | created
  | accepting (nbrsWithLargerIDs acceptedConnections : ℕ)
  | exited
  deriving DecidableEq

/-- The main thread, which sleeps before it calls `connectNbrs`. -/
inductive MainThread
  | sleeping
  | connecting (nbrsWithSmallerIDs i connections : ℕ)
  | returned (r : ℤ)
  deriving DecidableEq

structure Startup where
  net : Net UInt32
  nt : ℤ → List NbrEntry
  waitThread : ℤ → WaitThread
  mainThread : ℤ → MainThread

def smaller (myNodeID : ℤ) (nt : List NbrEntry) : List NbrEntry :=
  nt.filter fun e => e.nodeID < myNodeID

/-- A thread of node `x` goes on to the next round of its loop; a new descriptor is the given
one. -/
inductive StartupAction
  | waitNbrs (x newConnfd : ℤ)
  | connectNbrs (x outConn : ℤ)

namespace Startup

/-- The other thread works on other entries of the table, so that each round is one step. -/
def waitNbrs (ip : ℤ → UInt32) (s : Startup) (x newConnfd : ℤ) : Option Startup :=
  match s.waitThread x with
  | .created =>
    let nbrsWithLargerIDs := (larger x (s.nt x)).length
    if nbrsWithLargerIDs = 0 then some { s with waitThread := update s.waitThread x .exited }
    else
      some { s with
        net := s.net.listen (ip x)
        waitThread := update s.waitThread x (.accepting nbrsWithLargerIDs 0) }
  | .accepting nbrsWithLargerIDs acceptedConnections =>
    if acceptedConnections < nbrsWithLargerIDs then
      (s.net.accept (ip x) newConnfd).map fun r =>
        { s with
          net := r.2
          nt := update s.nt x (acceptOne (s.nt x) ⟨newConnfd, r.1⟩)
          waitThread :=
            update s.waitThread x (.accepting nbrsWithLargerIDs (acceptedConnections + 1)) }
    else some { s with waitThread := update s.waitThread x .exited }
  | .exited => none

/-- `connect` is refused if the server does not listen yet, and waits while `room` connections
wait there to be accepted. An index behind the table is undefined. -/
def connectNbrs (room : ℕ) (ip : ℤ → UInt32) (s : Startup) (x outConn : ℤ) : Option Startup :=
  match s.mainThread x with
  | .sleeping =>
    some { s with
      mainThread := update s.mainThread x (.connecting (smaller x (s.nt x)).length 0 0) }
  | .connecting nbrsWithSmallerIDs i connections =>
    if connections < nbrsWithSmallerIDs then
      ((s.nt x)[i]?).bind fun e =>
        if e.nodeID < x then
          if s.net.listening e.nodeIP then
            (s.net.connect room (ip x) e.nodeIP outConn).map fun net =>
              { s with
                net
                nt := update s.nt x ((s.nt x).set i { e with conn := outConn })
                mainThread := update s.mainThread x
                  (.connecting nbrsWithSmallerIDs (i + 1) (connections + 1)) }
          else some { s with mainThread := update s.mainThread x (.returned (-1)) }
        else
          some { s with
            mainThread :=
              update s.mainThread x (.connecting nbrsWithSmallerIDs (i + 1) connections) }
    else some { s with mainThread := update s.mainThread x (.returned 1) }
  | .returned _ => none

def step (room : ℕ) (t : Topology Host) (ip : ℤ → UInt32) (s : Startup) :
    StartupAction → Option Startup
  | .waitNbrs x newConnfd => if x ∈ t.nodeIDs then s.waitNbrs ip x newConnfd else none
  | .connectNbrs x outConn => if x ∈ t.nodeIDs then s.connectNbrs room ip x outConn else none

structure Init (t : Topology Host) (s : Startup) : Prop where
  net : s.net = .empty
  nt : ∀ x ∈ t.nodeIDs, ntCreate t x = some (s.nt x)
  waitThread : s.waitThread = fun _ => .created
  mainThread : s.mainThread = fun _ => .sleeping

/-- An initial state, if the tables of all nodes can be made. -/
def start (t : Topology Host) : Startup :=
  ⟨.empty, fun x => (ntCreate t x).getD [], fun _ => .created, fun _ => .sleeping⟩

/-- The entries of `x` and `y` for each other are the two ends of one connection, which `x`
made. -/
def Joined (ip : ℤ → UInt32) (s : Startup) (x y : ℤ) : Prop :=
  ∃ ex ∈ s.nt x, ex.nodeID = y ∧ ∃ ey ∈ s.nt y, ey.nodeID = x ∧ ∃ k,
    s.net.conns[k]? = some (ip x, ip y) ∧ s.net.fd (ip x) ex.conn = some (.client k) ∧
      s.net.fd (ip y) ey.conn = some (.server k)

end Startup

def startupMachine (room : ℕ) (t : Topology Host) (ip : ℤ → UInt32) :
    Machine Startup StartupAction := ⟨Startup.Init t, Startup.step room t ip⟩

theorem startup_start_init {room : ℕ} {t : Topology Host} {ip : ℤ → UInt32}
    (h : ∀ x ∈ t.nodeIDs, (ntCreate t x).isSome = true) :
    (startupMachine room t ip).Init (Startup.start t) where
  net := rfl
  nt x hx := by
    obtain ⟨nt, hnt⟩ := Option.isSome_iff_exists.mp (h x hx)
    simp [Startup.start, hnt]
  waitThread := rfl
  mainThread := rfl

/-- What a round can do. -/
inductive StartupSteps (room : ℕ) (t : Topology Host) (ip : ℤ → UInt32) (s : Startup) :
    StartupAction → Startup → Prop
  | noneLarger {x d : ℤ} : x ∈ t.nodeIDs → s.waitThread x = .created → larger x (s.nt x) = [] →
      StartupSteps room t ip s (.waitNbrs x d)
        { s with waitThread := update s.waitThread x .exited }
  | listen {x d : ℤ} : x ∈ t.nodeIDs → s.waitThread x = .created →
      StartupSteps room t ip s (.waitNbrs x d) { s with
        net := s.net.listen (ip x)
        waitThread := update s.waitThread x (.accepting (larger x (s.nt x)).length 0) }
  | accept {x d : ℤ} {n k : ℕ} {client : UInt32} {net : Net UInt32} : x ∈ t.nodeIDs →
      s.waitThread x = .accepting n k → k < n → s.net.accept (ip x) d = some (client, net) →
      StartupSteps room t ip s (.waitNbrs x d) { s with
        net
        nt := update s.nt x (acceptOne (s.nt x) ⟨d, client⟩)
        waitThread := update s.waitThread x (.accepting n (k + 1)) }
  | allAccepted {x d : ℤ} {n k : ℕ} : x ∈ t.nodeIDs → s.waitThread x = .accepting n k → n ≤ k →
      StartupSteps room t ip s (.waitNbrs x d)
        { s with waitThread := update s.waitThread x .exited }
  | wake {x d : ℤ} : x ∈ t.nodeIDs → s.mainThread x = .sleeping →
      StartupSteps room t ip s (.connectNbrs x d) { s with
        mainThread := update s.mainThread x (.connecting (smaller x (s.nt x)).length 0 0) }
  | connect {x d : ℤ} {n i k : ℕ} {e : NbrEntry} {net : Net UInt32} : x ∈ t.nodeIDs →
      s.mainThread x = .connecting n i k → (s.nt x)[i]? = some e → e.nodeID < x →
      s.net.listening e.nodeIP → s.net.connect room (ip x) e.nodeIP d = some net →
      StartupSteps room t ip s (.connectNbrs x d) { s with
        net
        nt := update s.nt x ((s.nt x).set i { e with conn := d })
        mainThread := update s.mainThread x (.connecting n (i + 1) (k + 1)) }
  | refused {x d : ℤ} {n i k : ℕ} {e : NbrEntry} : x ∈ t.nodeIDs →
      s.mainThread x = .connecting n i k → (s.nt x)[i]? = some e → e.nodeID < x →
      s.net.listening e.nodeIP = false →
      StartupSteps room t ip s (.connectNbrs x d)
        { s with mainThread := update s.mainThread x (.returned (-1)) }
  | skip {x d : ℤ} {n i k : ℕ} {e : NbrEntry} : x ∈ t.nodeIDs →
      s.mainThread x = .connecting n i k → (s.nt x)[i]? = some e → ¬ e.nodeID < x →
      StartupSteps room t ip s (.connectNbrs x d)
        { s with mainThread := update s.mainThread x (.connecting n (i + 1) k) }
  | allConnected {x d : ℤ} {n i k : ℕ} : x ∈ t.nodeIDs → s.mainThread x = .connecting n i k →
      n ≤ k →
      StartupSteps room t ip s (.connectNbrs x d)
        { s with mainThread := update s.mainThread x (.returned 1) }

theorem startupSteps_of_step {room : ℕ} {t : Topology Host} {ip : ℤ → UInt32} {s s' : Startup}
    {a : StartupAction} (h : (startupMachine room t ip).step s a = some s') :
    StartupSteps room t ip s a s' := by
  cases a with
  | waitNbrs x d =>
    obtain ⟨hx, h⟩ := Option.ite_none_right_eq_some.mp h
    unfold Startup.waitNbrs at h
    split at h
    next hth =>
      dsimp only at h
      split at h
      next hn => exact Option.some.inj h ▸ .noneLarger hx hth (List.length_eq_zero_iff.mp hn)
      next => exact Option.some.inj h ▸ .listen hx hth
    next n k hth =>
      split at h
      next hlt =>
        obtain ⟨⟨client, net⟩, hnet, rfl⟩ := Option.map_eq_some_iff.mp h
        exact .accept hx hth hlt hnet
      next hle => exact Option.some.inj h ▸ .allAccepted hx hth (Nat.le_of_not_lt hle)
    next => contradiction
  | connectNbrs x d =>
    obtain ⟨hx, h⟩ := Option.ite_none_right_eq_some.mp h
    unfold Startup.connectNbrs at h
    split at h
    next hth => exact Option.some.inj h ▸ .wake hx hth
    next n i k hth =>
      split at h
      next hlt =>
        obtain ⟨e, he, h⟩ := Option.bind_eq_some_iff.mp h
        split at h
        next hsmall =>
          split at h
          next hlisten =>
            obtain ⟨net, hnet, rfl⟩ := Option.map_eq_some_iff.mp h
            exact .connect hx hth he hsmall hlisten hnet
          next hlisten =>
            exact Option.some.inj h ▸ .refused hx hth he hsmall (by simpa using hlisten)
        next hsmall => exact Option.some.inj h ▸ .skip hx hth he hsmall
      next hle => exact Option.some.inj h ▸ .allConnected hx hth (Nat.le_of_not_lt hle)
    next => contradiction

end DartNet.Overlay
