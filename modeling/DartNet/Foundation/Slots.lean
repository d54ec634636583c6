import DartNet.Foundation.Transition
import Mathlib.Data.Fin.Tuple.Basic

/-! A table of slots. A message goes to the first slot with the key it names, and each slot can
also act by itself. With distinct keys a message reaches any slot it can be for; and a slot that
ignores the messages of others cannot be told what those did to the other slots. -/
namespace Slots
open Transition
variable {σ κ μ α ω : Type*} {n : ℕ}

abbrev Table (n : ℕ) (σ : Type*) := Fin n → Option σ

/-- The first slot with contents that have a property. -/
def first (p : σ → Bool) (T : Table n σ) : Option (Fin n) := Fin.find? fun i => (T i).any p

theorem first_eq_some_iff {p : σ → Bool} {T : Table n σ} {i : Fin n} :
    first p T = some i ↔ (∃ s, T i = some s ∧ p s) ∧ ∀ j < i, ∀ s, T j = some s → ¬ p s := by
  simp only [first, Fin.find?_eq_some_iff, Option.any_eq_true, Option.any_eq_false]
  simp

/-- The first slot without contents. -/
def free (T : Table n σ) : Option (Fin n) := Fin.find? fun i => (T i).isNone

/-- The key of a slot and the key a message names, and what a slot does with a message or by
itself, with its outputs. -/
structure Handler (σ κ μ α ω : Type*) where
  key : σ → κ
  dest : μ → κ
  handle : σ → μ → Option (σ × List ω)
  act : σ → α → Option (σ × List ω)

inductive Event (n : ℕ) (μ α : Type*) where
  | message (m : μ)
  | act (i : Fin n) (a : α)

/-- A slot is taken for a key or given back, or something happens in the table. -/
inductive Op (n : ℕ) (κ μ α : Type*) where
  | sock (k : κ)
  | close (i : Fin n)
  | event (e : Event n μ α)

/-- A table, and whether the handling of a message never came to its end. -/
structure State (n : ℕ) (σ : Type*) where
  table : Table n σ
  stuck : Bool

/-- The table after slot `i` has done something, and what it put out. -/
def put (T : Table n σ) (i : Fin n) (r : σ × List ω) : Table n σ × List (Fin n × ω) :=
  (Function.update T i (some r.1), r.2.map fun o => (i, o))

/-- What slot `i` put out. -/
def outputs (i : Fin n) (out : List (Fin n × ω)) : List ω :=
  (out.filter fun o => o.1 = i).map Prod.snd

@[simp] theorem outputs_append (i : Fin n) (a b : List (Fin n × ω)) :
    outputs i (a ++ b) = outputs i a ++ outputs i b := by
  simp [outputs]

theorem outputs_put_self (T : Table n σ) (i : Fin n) (r : σ × List ω) :
    outputs i (put T i r).2 = r.2 := by
  simp [outputs, put, List.filter_map, Function.comp_def]

theorem outputs_put_ne (T : Table n σ) {i j : Fin n} (h : j ≠ i) (r : σ × List ω) :
    outputs i (put T j r).2 = [] := by
  simp [outputs, put, List.filter_map, Function.comp_def, h]

theorem put_unchanged {T : Table n σ} {i : Fin n} {s : σ} (hs : T i = some s) :
    put T i (s, ([] : List ω)) = (T, []) := by
  rw [put, ← hs, Function.update_eq_self]
  rfl

namespace Handler
variable (H : Handler σ κ μ α ω)

/-- What a slot does at an event. -/
def does (s : σ) : Event n μ α → Option (σ × List ω)
  | .message m => H.handle s m
  | .act _ a => H.act s a

/-- Nothing changes a key. -/
structure KeepsKey : Prop where
  handle : ∀ s m r, H.handle s m = some r → H.key r.1 = H.key s
  act : ∀ s a r, H.act s a = some r → H.key r.1 = H.key s

/-- While it is open, a slot of `Own` only listens to messages that are its own. -/
structure Listens (isOpen : σ → Prop) (Own : σ → Prop) (own : μ → Prop) : Prop where
  ignores : ∀ s m r, isOpen s → Own s → ¬ own m → H.handle s m = some r → r = (s, [])
  handle : ∀ s m r, isOpen s → Own s → H.handle s m = some r → Own r.1
  act : ∀ s a r, isOpen s → Own s → H.act s a = some r → Own r.1

/-- No two slots have the same key. -/
def Distinct (T : Table n σ) : Prop :=
  ∀ i j s t, T i = some s → T j = some t → H.key s = H.key t → i = j

/-- Of the slots a message is for, one has no other slot with its key in front of it. -/
def Unhidden (T : Table n σ) (m : μ) (P : Fin n → Prop) : Prop :=
  (∃ i, P i) → ∃ i, P i ∧ ∀ j < i, ∀ s ∈ T j, H.key s ≠ H.dest m

/-- Two tables with the same keys and the same contents of slot `i`. -/
structure Agree (i : Fin n) (T U : Table n σ) : Prop where
  slot : T i = U i
  key : ∀ j, (T j).map H.key = (U j).map H.key

variable {H} {i j : Fin n} {T U : Table n σ}

theorem KeepsKey.does (hkey : H.KeepsKey) {s : σ} {e : Event n μ α} {r : σ × List ω}
    (hr : H.does s e = some r) : H.key r.1 = H.key s := by
  cases e with
  | message m => exact hkey.handle s m r hr
  | act i a => exact hkey.act s a r hr

theorem Listens.does {isOpen Own : σ → Prop} {own : μ → Prop} (hl : H.Listens isOpen Own own)
    {s : σ} (hopen : isOpen s) (hs : Own s) {e : Event n μ α} {r : σ × List ω}
    (hr : H.does s e = some r) : Own r.1 := by
  cases e with
  | message m => exact hl.handle s m r hopen hs hr
  | act i a => exact hl.act s a r hopen hs hr

theorem key_put {s : σ} {r : σ × List ω} (hs : T j = some s) (hr : H.key r.1 = H.key s)
    (l : Fin n) : ((put T j r).1 l).map H.key = (T l).map H.key := by
  by_cases hl : l = j
  · subst hl
    simp [put, hs, hr]
  · simp [put, Function.update_of_ne hl]

namespace Distinct

theorem of_keys (h : H.Distinct U) (hkeys : ∀ j, (T j).map H.key = (U j).map H.key) :
    H.Distinct T := by
  have hslot : ∀ j s, T j = some s → ∃ s', U j = some s' ∧ H.key s' = H.key s := by
    intro j s hs
    have hj := hkeys j
    rw [hs, Option.map_some] at hj
    exact Option.map_eq_some_iff.mp hj.symm
  intro i j s t hs ht heq
  obtain ⟨s', hs', hss⟩ := hslot i s hs
  obtain ⟨t', ht', htt⟩ := hslot j t ht
  exact h i j s' t' hs' ht' (by rw [hss, htt, heq])

theorem update_none (h : H.Distinct T) (l : Fin n) : H.Distinct (Function.update T l none) := by
  have hslot : ∀ j s, Function.update T l none j = some s → T j = some s := by
    intro j s hs
    by_cases hj : j = l
    · simp [hj] at hs
    · rwa [Function.update_of_ne hj] at hs
  exact fun i j s t hs ht => h i j s t (hslot i s hs) (hslot j t ht)

theorem update_some (h : H.Distinct T) {s₀ : σ}
    (hnew : ∀ j s, T j = some s → H.key s ≠ H.key s₀) (l : Fin n) :
    H.Distinct (Function.update T l (some s₀)) := by
  intro i j s t hs ht heq
  by_cases hi : i = l <;> by_cases hj : j = l
  · rw [hi, hj]
  · subst hi
    rw [Function.update_self, Option.some.injEq] at hs
    rw [Function.update_of_ne hj] at ht
    exact absurd (heq.symm.trans (by rw [hs])) (hnew j t ht)
  · subst hj
    rw [Function.update_self, Option.some.injEq] at ht
    rw [Function.update_of_ne hi] at hs
    exact absurd (heq.trans (by rw [ht])) (hnew i s hs)
  · rw [Function.update_of_ne hi] at hs
    rw [Function.update_of_ne hj] at ht
    exact h i j s t hs ht heq

/-- With distinct keys no slot is in front of another. -/
theorem unhidden (h : H.Distinct T) {m : μ} {P : Fin n → Prop}
    (hP : ∀ i, P i → ∃ s, T i = some s ∧ H.key s = H.dest m) : H.Unhidden T m P := by
  rintro ⟨i, hi⟩
  obtain ⟨s, hs, hkey⟩ := hP i hi
  exact ⟨i, hi, fun j hj t ht heq => hj.ne (h j i t s ht hs (heq.trans hkey.symm))⟩

end Distinct

namespace Agree

theorem symm (h : Agree H i T U) : Agree H i U T := ⟨h.slot.symm, fun j => (h.key j).symm⟩

/-- Another slot does something in the first run only. -/
theorem put_other (h : Agree H i T U) (hj : j ≠ i) {s : σ} {r : σ × List ω} (hs : T j = some s)
    (hr : H.key r.1 = H.key s) : Agree H i (put T j r).1 U where
  slot := by rw [← h.slot]; exact Function.update_of_ne hj.symm ..
  key l := by rw [key_put hs hr, h.key]

/-- Slot `i` does the same in both runs. -/
theorem put_same (h : Agree H i T U) {s : σ} {r : σ × List ω} (hs : T i = some s)
    (hr : H.key r.1 = H.key s) : Agree H i (put T i r).1 (put U i r).1 where
  slot := by simp [put]
  key l := by rw [key_put hs hr, key_put (h.slot ▸ hs) hr, h.key]

end Agree

section Runs
variable [DecidableEq κ] (H)

/-- The slot a message goes to. -/
def find (T : Table n σ) (k : κ) : Option (Fin n) := Slots.first (fun s => H.key s = k) T

/-- The slot an event happens at. -/
def slot (T : Table n σ) : Event n μ α → Option (Fin n)
  | .message m => H.find T (H.dest m)
  | .act i _ => some i

/-- One event, if it can be carried out to its end. -/
def step (T : Table n σ) (e : Event n μ α) : Option (Table n σ × List (Fin n × ω)) :=
  match H.slot T e with
  | none => some (T, [])
  | some i => ((T i).bind fun s => H.does s e).map (put T i)

/-- Messages are handled one after the other, so one that is not handled to its end holds up
all behind it. What a slot cannot do by itself it does not do. -/
def serve (S : State n σ) : Event n μ α → State n σ × List (Fin n × ω)
  | .message m =>
    if S.stuck then (S, [])
    else
      match H.step S.table (.message m) with
      | none => ({ S with stuck := true }, [])
      | some r => ({ S with table := r.1 }, r.2)
  | .act i a =>
    match H.step S.table (.act i a) with
    | none => (S, [])
    | some r => ({ S with table := r.1 }, r.2)

def run : State n σ → List (Event n μ α) → State n σ × List (Fin n × ω)
  | S, [] => (S, [])
  | S, e :: es =>
    let r := H.serve S e
    let r' := run r.1 es
    (r'.1, r.2 ++ r'.2)

/-- A property of the table before each event of a run. -/
def During (Q : Table n σ → Event n μ α → Prop) : State n σ → List (Event n μ α) → Prop
  | _, [] => True
  | S, e :: es => Q S.table e ∧ During Q (H.serve S e).1 es

instance decidableDuring {Q : Table n σ → Event n μ α → Prop} [∀ T e, Decidable (Q T e)] :
    ∀ S es, Decidable (H.During Q S es)
  | _, [] => .isTrue trivial
  | S, e :: es =>
    have : Decidable (H.During Q (H.serve S e).1 es) := decidableDuring (H.serve S e).1 es
    inferInstanceAs (Decidable (Q S.table e ∧ H.During Q (H.serve S e).1 es))

/-- If a message is for some slot, it reaches one it is for. -/
def Reaches (T : Table n σ) (m : μ) (P : Fin n → Prop) : Prop :=
  (∃ i, P i) → ∃ i, H.find T (H.dest m) = some i ∧ P i

instance (T : Table n σ) (m : μ) (P : Fin n → Prop) [DecidablePred P] :
    Decidable (H.Reaches T m P) := inferInstanceAs (Decidable (_ → _))

variable {H}

theorem During.imp {Q Q' : Table n σ → Event n μ α → Prop} (h : ∀ T e, Q T e → Q' T e)
    {es : List (Event n μ α)} : ∀ {S}, H.During Q S es → H.During Q' S es := by
  induction es with
  | nil => exact fun h => h
  | cons e es ih => exact fun hd => ⟨h _ e hd.1, ih hd.2⟩

theorem find_eq_some_iff {k : κ} : H.find T k = some i ↔
    (∃ s, T i = some s ∧ H.key s = k) ∧ ∀ j < i, ∀ s ∈ T j, H.key s ≠ k := by
  rw [Handler.find, first_eq_some_iff]
  simp

theorem reaches_iff_unhidden {m : μ} {P : Fin n → Prop}
    (hP : ∀ i, P i → ∃ s, T i = some s ∧ H.key s = H.dest m) :
    H.Reaches T m P ↔ H.Unhidden T m P := by
  apply imp_congr_right
  intro _
  apply exists_congr
  intro i
  rw [find_eq_some_iff]
  constructor
  · rintro ⟨⟨_, hfirst⟩, hi⟩
    exact ⟨hi, hfirst⟩
  · rintro ⟨hi, hfirst⟩
    exact ⟨⟨hP i hi, hfirst⟩, hi⟩

/-- All that carrying out an event can do. -/
theorem step_cases {e : Event n μ α} {r : Table n σ × List (Fin n × ω)}
    (hr : H.step T e = some r) : (H.slot T e = none ∧ r = (T, [])) ∨
      ∃ j s q, H.slot T e = some j ∧ T j = some s ∧ H.does s e = some q ∧ r = put T j q := by
  unfold Handler.step at hr
  split at hr
  next hslot => exact .inl ⟨hslot, (Option.some.inj hr).symm⟩
  next j hslot =>
    obtain ⟨q, hq, rfl⟩ := Option.map_eq_some_iff.mp hr
    obtain ⟨s, hs, hdoes⟩ := Option.bind_eq_some_iff.mp hq
    exact .inr ⟨j, s, q, hslot, hs, hdoes, rfl⟩

section Lifecycle
variable (H) (fresh : κ → σ) (closed : σ → Bool)

/-- Slots are taken and given back. A call that is refused is not a step. -/
def machine : Machine (Table n σ) (Op n κ μ α) where
  Init T := T = fun _ => none
  step T
    | .sock k => (free T).map fun i => Function.update T i (some (fresh k))
    | .close i => if (T i).any closed then some (Function.update T i none) else none
    | .event e => (H.step T e).map Prod.fst

/-- A slot is taken for a key that no slot has. -/
def Unused (T : Table n σ) : Op n κ μ α → Prop
  | .sock k => ∀ i s, T i = some s → H.key s ≠ k
  | _ => True

instance (T : Table n σ) : ∀ o : Op n κ μ α, Decidable (H.Unused T o)
  | .sock k => decidable_of_iff (∀ i, ∀ s ∈ T i, H.key s ≠ k) Iff.rfl
  | .close _ => .isTrue trivial
  | .event _ => .isTrue trivial

variable {H fresh closed}

theorem Distinct.step (h : H.Distinct T) (hkey : H.KeepsKey) (hfresh : ∀ k, H.key (fresh k) = k)
    {o : Op n κ μ α} (hok : H.Unused T o) (hs : (H.machine fresh closed).step T o = some U) :
    H.Distinct U := by
  cases o with
  | sock k =>
    obtain ⟨i, _, rfl⟩ := Option.map_eq_some_iff.mp hs
    exact h.update_some (by rw [hfresh]; exact hok) i
  | close i =>
    simp only [Handler.machine] at hs
    split at hs
    next => exact Option.some.inj hs ▸ h.update_none i
    next => contradiction
  | event e =>
    obtain ⟨r, hr, rfl⟩ := Option.map_eq_some_iff.mp hs
    obtain ⟨_, rfl⟩ | ⟨j, s, q, _, hslot, hdoes, rfl⟩ := step_cases hr
    · exact h
    · exact h.of_keys (key_put hslot (hkey.does hdoes))

theorem reachable_distinct (hkey : H.KeepsKey) (hfresh : ∀ k, H.key (fresh k) = k)
    (h : (H.machine fresh closed).Reachable H.Unused T) : H.Distinct T := by
  apply h.invariant
  · rintro _ rfl i j s t hs
    simp at hs
  · exact fun T o U hT hok hs => hT.step hkey hfresh hok hs

end Lifecycle

section Isolation
variable {isOpen Own : σ → Prop} {own : μ → Prop} {S V : State n σ} {e : Event n μ α}

theorem Agree.slot_eq (h : Agree H i T U) (e : Event n μ α) : H.slot T e = H.slot U e := by
  have hany : ∀ (W : Table n σ) (k : κ), (fun j => (W j).any fun s => H.key s = k) =
      fun j => ((W j).map H.key).any fun k' => k' = k := by
    intro W k
    funext j
    cases W j <;> rfl
  cases e with
  | message m =>
    unfold Handler.slot Handler.find Slots.first
    simp only [hany T, hany U, h.key]
  | act _ _ => rfl

variable (H) in
/-- A message is handled to its end. -/
def Answered (T : Table n σ) : Event n μ α → Prop
  | .message m => (H.step T (.message m)).isSome
  | .act _ _ => True

variable (H) in
/-- The slot that a message reaches is ready for it. -/
def Ready (ready : σ → μ → Prop) (T : Table n σ) : Event n μ α → Prop
  | .message m => ∀ i ∈ H.find T (H.dest m), ∀ s ∈ T i, ready s m
  | .act _ _ => True

theorem answered_of_ready {ready : σ → μ → Prop}
    (h : ∀ s m, ready s m → (H.handle s m).isSome) (hready : H.Ready ready T e) :
    H.Answered T e := by
  cases e with
  | act i a => trivial
  | message m =>
    cases hfind : H.find T (H.dest m) with
    | none => simp [Answered, Handler.step, Handler.slot, hfind]
    | some i =>
      obtain ⟨⟨s, hs, _⟩, _⟩ := find_eq_some_iff.mp hfind
      obtain ⟨r, hr⟩ := Option.isSome_iff_exists.mp (h s m (hready i hfind s hs))
      simp [Answered, Handler.step, Handler.slot, hfind, hs, Handler.does, hr]

/-- Either the event is carried out, or it was something a slot could not do by itself. -/
theorem serve_cases (hstuck : S.stuck = false) (hans : H.Answered S.table e) :
    (H.serve S e).1.stuck = false ∧
      ((∃ r, H.step S.table e = some r ∧ (H.serve S e).1.table = r.1 ∧ (H.serve S e).2 = r.2) ∨
        (H.step S.table e = none ∧ (H.serve S e).1.table = S.table ∧ (H.serve S e).2 = [])) := by
  cases e with
  | message m =>
    obtain ⟨r, hr⟩ := Option.isSome_iff_exists.mp hans
    simp [Handler.serve, hstuck, hr]
  | act i a =>
    cases hr : H.step S.table (.act i a) <;> simp [Handler.serve, hstuck, hr]

/-- An event that does nothing at slot `i` may happen in one run only. -/
theorem Agree.serve_one (h : Agree H i S.table U) (hkey : H.KeepsKey) (hstuck : S.stuck = false)
    (hans : H.Answered S.table e)
    (hi : H.slot S.table e = some i →
      ∀ s r, S.table i = some s → H.does s e = some r → r = (s, [])) :
    Agree H i (H.serve S e).1.table U ∧ outputs i (H.serve S e).2 = [] ∧
      (H.serve S e).1.stuck = false := by
  obtain ⟨hstuck', ⟨r, hr, htable, hout⟩ | ⟨_, htable, hout⟩⟩ := serve_cases hstuck hans
  · rw [htable, hout]
    obtain ⟨_, rfl⟩ | ⟨j, s, q, hslot, hs, hdoes, rfl⟩ := step_cases hr
    · exact ⟨h, rfl, hstuck'⟩
    · by_cases hj : j = i
      · subst hj
        obtain rfl := hi hslot s q hs hdoes
        rw [put_unchanged hs]
        exact ⟨h, rfl, hstuck'⟩
      · exact ⟨h.put_other hj hs (hkey.does hdoes), outputs_put_ne _ hj q, hstuck'⟩
  · rw [htable, hout]
    exact ⟨h, rfl, hstuck'⟩

/-- An event at slot `i` does the same there in both runs. -/
theorem Agree.serve_both (h : Agree H i S.table V.table) (hkey : H.KeepsKey)
    (hS : S.stuck = false) (hV : V.stuck = false) (hans : H.Answered S.table e)
    (hans' : H.Answered V.table e) (hslot : H.slot S.table e = some i) :
    Agree H i (H.serve S e).1.table (H.serve V e).1.table ∧
      outputs i (H.serve S e).2 = outputs i (H.serve V e).2 ∧
      (H.serve S e).1.stuck = false ∧ (H.serve V e).1.stuck = false := by
  have hstep : H.step S.table e = ((S.table i).bind fun s => H.does s e).map (put S.table i) := by
    simp only [Handler.step, hslot]
  have hstep' : H.step V.table e = ((S.table i).bind fun s => H.does s e).map (put V.table i) := by
    simp only [Handler.step, ← h.slot_eq, hslot, h.slot]
  obtain ⟨hS', hcasesS⟩ := serve_cases hS hans
  obtain ⟨hV', hcasesV⟩ := serve_cases hV hans'
  rw [hstep] at hcasesS
  rw [hstep'] at hcasesV
  cases hq : (S.table i).bind fun s => H.does s e with
  | none =>
    simp only [hq, Option.map_none, reduceCtorEq, false_and, exists_false, true_and,
      false_or] at hcasesS hcasesV
    rw [hcasesS.1, hcasesS.2, hcasesV.1, hcasesV.2]
    exact ⟨h, rfl, hS', hV'⟩
  | some q =>
    obtain ⟨s, hs, hdoes⟩ := Option.bind_eq_some_iff.mp hq
    simp only [hq, Option.map_some, Option.some.injEq, exists_eq_left', reduceCtorEq, false_and,
      or_false] at hcasesS hcasesV
    rw [hcasesS.1, hcasesS.2, hcasesV.1, hcasesV.2, outputs_put_self, outputs_put_self]
    exact ⟨h.put_same hs (hkey.does hdoes), rfl, hS', hV'⟩

/-- A slot that only listens to its own messages stays one. -/
theorem Listens.serve (hl : H.Listens isOpen Own own) (hstuck : S.stuck = false)
    (hans : H.Answered S.table e) (hown : ∀ s, S.table i = some s → isOpen s ∧ Own s) :
    ∀ s, (H.serve S e).1.table i = some s → Own s := by
  obtain ⟨_, ⟨r, hr, htable, _⟩ | ⟨_, htable, _⟩⟩ := serve_cases hstuck hans
  · rw [htable]
    obtain ⟨_, rfl⟩ | ⟨j, s, q, _, hs, hdoes, rfl⟩ := step_cases hr
    · exact fun t ht => (hown t ht).2
    · intro t ht
      by_cases hij : i = j
      · subst hij
        obtain rfl : q.1 = t := by simpa [put] using ht
        exact hl.does (hown s hs).1 (hown s hs).2 hdoes
      · exact (hown t (by simpa [put, Function.update_of_ne hij] using ht)).2
  · rw [htable]
    exact fun t ht => (hown t ht).2

/-- The events without the messages of others. -/
def keeps (own : μ → Prop) [DecidablePred own] : Event n μ α → Bool
  | .message m => own m
  | .act _ _ => true

variable (H) in
/-- Slot `i` ends in the same state and puts out the same without the messages of others. -/
def Undisturbed (own : μ → Prop) [DecidablePred own] (i : Fin n) (T : Table n σ)
    (es : List (Event n μ α)) : Prop :=
  (H.run ⟨T, false⟩ es).1.table i = (H.run ⟨T, false⟩ (es.filter (keeps own))).1.table i ∧
    outputs i (H.run ⟨T, false⟩ es).2 =
      outputs i (H.run ⟨T, false⟩ (es.filter (keeps own))).2

/-- As long as slot `i` is open, it goes through the same states and puts out the same without
the messages of others. -/
theorem Listens.run_filter [DecidablePred own] (hkey : H.KeepsKey)
    (hl : H.Listens isOpen Own own) {es : List (Event n μ α)}
    (h : Agree H i S.table V.table) (hS : S.stuck = false) (hV : V.stuck = false)
    (hown : ∀ s, S.table i = some s → Own s)
    (hopen : H.During (fun T _ => ∀ s ∈ T i, isOpen s) S es)
    (hans : H.During H.Answered S es) (hans' : H.During H.Answered V (es.filter (keeps own))) :
    (H.run S es).1.table i = (H.run V (es.filter (keeps own))).1.table i ∧
      outputs i (H.run S es).2 = outputs i (H.run V (es.filter (keeps own))).2 := by
  induction es generalizing S V with
  | nil => exact ⟨h.slot, rfl⟩
  | cons e es ih =>
    obtain ⟨hnow, hlater⟩ := hopen
    obtain ⟨hansNow, hansLater⟩ := hans
    have hboth := fun s hs => And.intro (hnow s hs) (hown s hs)
    have hown' := hl.serve hS hansNow hboth
    by_cases he : keeps own e
    · rw [List.filter_cons_of_pos he] at hans' ⊢
      obtain ⟨hansNow', hansLater'⟩ := hans'
      have hserve : Agree H i (H.serve S e).1.table (H.serve V e).1.table ∧
          outputs i (H.serve S e).2 = outputs i (H.serve V e).2 ∧
          (H.serve S e).1.stuck = false ∧ (H.serve V e).1.stuck = false := by
        by_cases hslot : H.slot S.table e = some i
        · exact h.serve_both hkey hS hV hansNow hansNow' hslot
        · obtain ⟨hagree, hout, hS'⟩ := h.serve_one hkey hS hansNow fun hi => absurd hi hslot
          obtain ⟨hagree', hout', hV'⟩ := hagree.symm.serve_one hkey hV hansNow'
            fun hi => absurd ((h.slot_eq e).trans hi) hslot
          exact ⟨hagree'.symm, hout.trans hout'.symm, hS', hV'⟩
      obtain ⟨hagree, hout, hS', hV'⟩ := hserve
      obtain ⟨hslot, houts⟩ := ih hagree hS' hV' hown' hlater hansLater hansLater'
      exact ⟨hslot, by simp only [Handler.run, outputs_append, hout, houts]⟩
    · rw [List.filter_cons_of_neg he] at hans' ⊢
      obtain ⟨m, rfl, hm⟩ : ∃ m, e = .message m ∧ ¬ own m := by
        cases e with
        | message m => exact ⟨m, rfl, by simpa [keeps] using he⟩
        | act j a => exact absurd rfl he
      obtain ⟨hagree, hout, hS'⟩ := h.serve_one hkey hS hansNow fun _ s r hs =>
        hl.ignores s m r (hnow s hs) (hown s hs) hm
      obtain ⟨hslot, houts⟩ := ih hagree hS' hV hown' hlater hansLater hans'
      exact ⟨hslot, by simp only [Handler.run, outputs_append, hout, houts, List.nil_append]⟩

variable (H) in
/-- A run in which slot `i` is open before each event and every message finds its slot ready,
also in the run without the messages of others. -/
structure OpenRun (isOpen : σ → Prop) (ready : σ → μ → Prop) (own : μ → Prop) [DecidablePred own]
    (i : Fin n) (T : Table n σ) (es : List (Event n μ α)) : Prop where
  staysOpen : H.During (fun T _ => ∀ s ∈ T i, isOpen s) ⟨T, false⟩ es
  allReady : H.During (H.Ready ready) ⟨T, false⟩ es
  ownReady : H.During (H.Ready ready) ⟨T, false⟩ (es.filter (keeps own))

instance {ready : σ → μ → Prop} [∀ s m, Decidable (ready s m)] (T : Table n σ) :
    ∀ e : Event n μ α, Decidable (H.Ready ready T e)
  | .message m => inferInstanceAs (Decidable (∀ i ∈ H.find T (H.dest m), ∀ s ∈ T i, ready s m))
  | .act _ _ => .isTrue trivial

instance [DecidablePred isOpen] {ready : σ → μ → Prop} [∀ s m, Decidable (ready s m)]
    [DecidablePred own] (es : List (Event n μ α)) :
    Decidable (H.OpenRun isOpen ready own i T es) :=
  decidable_of_iff (_ ∧ _ ∧ _)
    ⟨fun ⟨hopen, hall, hown⟩ => ⟨hopen, hall, hown⟩, fun h => ⟨h.1, h.2, h.3⟩⟩

theorem Listens.undisturbed [DecidablePred own] (hkey : H.KeepsKey)
    (hl : H.Listens isOpen Own own) {ready : σ → μ → Prop}
    (hready : ∀ s m, ready s m → (H.handle s m).isSome) (hown : ∀ s ∈ T i, Own s)
    {es : List (Event n μ α)} (h : H.OpenRun isOpen ready own i T es) :
    H.Undisturbed own i T es := by
  have hans : ∀ (T : Table n σ) (e : Event n μ α), H.Ready ready T e → H.Answered T e :=
    fun _ _ => answered_of_ready hready
  exact hl.run_filter hkey ⟨rfl, fun _ => rfl⟩ rfl rfl hown h.staysOpen (h.allReady.imp hans)
    (h.ownReady.imp hans)

end Isolation
end Runs
end Handler
end Slots
