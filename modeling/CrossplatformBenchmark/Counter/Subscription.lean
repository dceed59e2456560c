import CrossplatformBenchmark.Lib.Transition

/-!
# `subscribeAsState` (Counter.kt:87-98)

The extension copies a store into a Compose `State`:

| source                                              | here                                        |
|-----------------------------------------------------|---------------------------------------------|
| `remember { mutableStateOf(selector(state)) }` (:90) | `selectedState`, written by the first composition |
| `DisposableEffect(this)` (:91-96)                   | `Effect`, replaced when the store changes    |
| the lambda given to `subscribe` (:92-94)            | `Effect.notify`                              |

An effect and its subscription live and die together, so the state holds the one effect that runs, with the
selector its lambda closed over. A composition and its effects are one step, and so are a dispatch and the
notification of its subscribers; of the store nothing is used but that it notifies after every dispatch.

The remembered value has no key and the effect is keyed on the store only. `tracks_iff`: the value is that of the
latest store and selector exactly as long as nobody can tell the difference.
-/

namespace CrossplatformBenchmark.Subscription

open Transition

variable {σ T : Type*}

/-- A call `store.subscribeAsState(selector)`. -/
structure Composition (σ T : Type*) where
  store : σ
  selector : T → T

/-- The running `DisposableEffect`. -/
structure Effect (σ T : Type*) where
  /-- Its key, `this`. -/
  key : σ
  /-- Of the composition that installed it. -/
  selector : T → T

/-- What Compose keeps for the call, and the latest composition. -/
structure Slots (σ T : Type*) where
  selectedState : T
  effect : Effect σ T
  latest : Composition σ T

/-- The stores, and the slots of the call from its first composition on. -/
structure App (σ T : Type*) where
  states : σ → T
  slots : Option (Slots σ T)

inductive Event (σ T : Type*) where
  | compose (c : Composition σ T)
  /-- An action, by what the store's reducer makes of its state. -/
  | dispatch (store : σ) (reduce : T → T)

variable [DecidableEq σ]

/-- `subscribeAsState`, with its effect applied. -/
def subscribeAsState (states : σ → T) (c : Composition σ T) : Option (Slots σ T) → Slots σ T
  | none => ⟨c.selector (states c.store), ⟨c.store, c.selector⟩, c⟩
  | some slots => { slots with
      effect := if slots.effect.key = c.store then slots.effect else ⟨c.store, c.selector⟩
      latest := c }

/-- `selectedState.value = selector(state)`, if the store that notifies is the one subscribed to. -/
def Effect.notify (effect : Effect σ T) (store : σ) (state : T) (selectedState : T) : T :=
  if effect.key = store then effect.selector state else selectedState

def App.step (s : App σ T) : Event σ T → Option (App σ T)
  | .compose c => some { s with slots := some (subscribeAsState s.states c s.slots) }
  | .dispatch store reduce =>
    let state := reduce (s.states store)
    some {
      states := Function.update s.states store state
      slots := s.slots.map fun slots =>
        { slots with selectedState := slots.effect.notify store state slots.selectedState } }

/-- One composable, over stores with any states. -/
def composable (states : σ → T) : Lts (App σ T) (Event σ T) := ⟨⟨states, none⟩, App.step⟩

/-! ## Tracking the store -/

/-- The value the latest composition asks for. -/
def Slots.selected (slots : Slots σ T) (states : σ → T) : T := slots.latest.selector (states slots.latest.store)

omit [DecidableEq σ] in
/-- The returned `State` holds what the latest composition asks for. -/
def Tracks (s : App σ T) : Prop := ∀ slots, s.slots = some slots → slots.selectedState = slots.selected s.states

/-- A dispatch to another store than the latest composition's leaves the value alone. -/
def Unmoved (s : App σ T) (e : Event σ T) : Prop :=
  ∀ store reduce slots, e = .dispatch store reduce → s.slots = some slots → store ≠ slots.latest.store →
    ∀ t, s.step e = some t → ∃ slots', t.slots = some slots' ∧ slots'.selectedState = slots.selectedState

/-- A recomposition asks for the value the one before it asks for; a dispatch to the latest store gives a state on
which the selector of the running effect and the latest one agree. -/
def Agrees (s : App σ T) : Event σ T → Prop
  | .compose c => ∀ slots, s.slots = some slots → c.selector (s.states c.store) = slots.selected s.states
  | .dispatch store reduce => ∀ slots, s.slots = some slots → store = slots.latest.store →
      slots.effect.selector (reduce (s.states store)) = slots.latest.selector (reduce (s.states store))

/-- The effect runs for the latest store. -/
def Keyed (s : App σ T) : Prop := ∀ slots, s.slots = some slots → slots.effect.key = slots.latest.store

theorem subscribeAsState_key (states : σ → T) (c : Composition σ T) (slots : Option (Slots σ T)) :
    (subscribeAsState states c slots).effect.key = (subscribeAsState states c slots).latest.store := by
  cases slots with
  | none => rfl
  | some slots =>
    unfold subscribeAsState
    by_cases h : slots.effect.key = c.store <;> simp [h]

theorem keyed_preserved (states : σ → T) : (composable states).Preserved Keyed := by
  intro s e t hs ht
  cases e with
  | compose c =>
    cases ht
    rintro slots ⟨⟩
    exact subscribeAsState_key s.states c s.slots
  | dispatch store reduce =>
    cases ht
    intro slots hslots
    obtain ⟨old, hold, rfl⟩ := Option.map_eq_some_iff.1 hslots
    exact hs old hold

theorem unmoved_of_keyed {s : App σ T} {e : Event σ T} (h : Keyed s) : Unmoved s e := by
  rintro store reduce slots rfl hslots hne t ht
  cases ht
  have hkey : slots.effect.key ≠ store := by
    rw [h slots hslots]
    exact hne.symm
  simp [hslots, Effect.notify, hkey]

/-- The value a step leaves behind, against the one asked for. -/
theorem tracks_step_iff {s t : App σ T} {e : Event σ T} (hk : Keyed s) (hs : Tracks s) (ht : s.step e = some t) :
    Tracks t ↔ Agrees s e := by
  cases e with
  | compose c =>
    cases ht
    cases hslots : s.slots with
    | none => simp [Tracks, Agrees, hslots, subscribeAsState, Slots.selected]
    | some slots =>
      have hv := hs slots hslots
      simp only [Tracks, Agrees, hslots, Option.some.injEq, forall_eq', subscribeAsState, hv]
      exact eq_comm
  | dispatch store reduce =>
    cases ht
    cases hslots : s.slots with
    | none => simp [Tracks, Agrees, hslots]
    | some slots =>
      have hv := hs slots hslots
      have hkey := hk slots hslots
      simp only [Tracks, Agrees, hslots, Option.map_some, Option.some.injEq, forall_eq', Effect.notify, hkey, hv,
        Slots.selected]
      by_cases he : slots.latest.store = store
      · subst he
        simp
      · have hne : ¬ store = slots.latest.store := fun h => he h.symm
        simp [he, hne]

theorem always_tracks_iff (states : σ → T) (es : List (Event σ T)) {s : App σ T} (hk : Keyed s) (hs : Tracks s) :
    (composable states).Always Tracks s es ↔ (composable states).Along Agrees s es := by
  refine Lts.always_iff_along (fun s => Keyed s ∧ Tracks s) ?_ And.right ?_ es ⟨hk, hs⟩
  · rintro s e t ⟨hk, hs⟩ hq ht
    exact ⟨keyed_preserved states s e t hk ht, (tracks_step_iff hk hs ht).2 hq⟩
  · rintro s e ⟨hk, hs⟩ hq
    obtain ⟨t, ht⟩ : ∃ t, s.step e = some t := by cases e <;> exact ⟨_, rfl⟩
    exact ⟨t, ht, fun h => hq ((tracks_step_iff hk hs ht).1 h)⟩

omit [DecidableEq σ] in
theorem keyed_init (states : σ → T) : Keyed (⟨states, none⟩ : App σ T) := by
  rintro slots ⟨⟩

omit [DecidableEq σ] in
theorem tracks_init (states : σ → T) : Tracks (⟨states, none⟩ : App σ T) := by
  rintro slots ⟨⟩

/-- **`subscribeAsState` tracks its current store**, and is not moved by any other, exactly in the runs whose
recompositions ask for the value that is already shown, and whose dispatches to the current store give states on
which the selector of the running effect agrees with the latest one. -/
theorem tracks_iff (states : σ → T) (es : List (Event σ T)) :
    (composable states).Always Tracks ⟨states, none⟩ es ∧ (composable states).Along Unmoved ⟨states, none⟩ es ↔
      (composable states).Along Agrees ⟨states, none⟩ es := by
  have hun : (composable states).Along Unmoved ⟨states, none⟩ es :=
    (keyed_preserved states).along (fun s e => unmoved_of_keyed) es (keyed_init states)
  rw [and_iff_left hun]
  exact always_tracks_iff states es (keyed_init states) (tracks_init states)

/-- **Another store**: the composable still shows the state of the first one. -/
theorem tracks_other_store :
    let states : Bool → Nat := fun b => if b then 1 else 0
    ¬ (composable states).Always Tracks ⟨states, none⟩ [.compose ⟨false, id⟩, .compose ⟨true, id⟩] := by
  intro states h
  have h2 : Tracks (⟨states, some ⟨0, ⟨true, id⟩, ⟨true, id⟩⟩⟩ : App Bool Nat) := (h.2 _ rfl).2 _ rfl
  exact absurd (h2 _ rfl) (by decide)

/-! ## One store and one selector, as in `CounterApp` (Counter.kt:69) -/

/-- The call has only ever been composed with `c`. -/
def Only (c : Composition σ T) (s : App σ T) : Prop :=
  ∀ slots, s.slots = some slots → slots.latest = c ∧ slots.effect.selector = c.selector

theorem Only.step {c : Composition σ T} {s t : App σ T} {e : Event σ T} (hs : Only c s)
    (he : ∀ c', e = .compose c' → c' = c) (ht : s.step e = some t) : Only c t := by
  cases e with
  | compose c' =>
    obtain rfl := he c' rfl
    cases ht
    rintro slots ⟨⟩
    cases hslots : s.slots with
    | none => exact ⟨rfl, rfl⟩
    | some old =>
      refine ⟨rfl, ?_⟩
      have hsel := (hs old hslots).2
      by_cases hkey : old.effect.key = c'.store <;> simp [subscribeAsState, hkey, hsel]
  | dispatch store reduce =>
    cases ht
    intro slots hslots
    obtain ⟨old, hold, rfl⟩ := Option.map_eq_some_iff.1 hslots
    exact hs old hold

omit [DecidableEq σ] in
theorem Only.agrees {c : Composition σ T} {s : App σ T} {e : Event σ T} (hs : Only c s)
    (he : ∀ c', e = .compose c' → c' = c) : Agrees s e := by
  cases e with
  | compose c' =>
    intro slots hslots
    rw [he c' rfl, Slots.selected, (hs slots hslots).1]
  | dispatch store reduce =>
    intro slots hslots _
    rw [(hs slots hslots).1, (hs slots hslots).2]

theorem Only.along (states : σ → T) {c : Composition σ T} : ∀ {es : List (Event σ T)} {s : App σ T}, Only c s →
    (∀ c', .compose c' ∈ es → c' = c) → (composable states).Along Agrees s es
  | [], _, _, _ => trivial
  | e :: es, s, hs, h => by
    have he : ∀ c', e = .compose c' → c' = c := by
      rintro c' rfl
      exact h c' List.mem_cons_self
    exact ⟨hs.agrees he, fun t ht => Only.along states (hs.step he ht) fun c' hc => h c' (List.mem_cons_of_mem e hc)⟩

/-- **One store, one selector**: the value is never stale, whatever is dispatched. -/
theorem tracks_of_only (states : σ → T) (c : Composition σ T) (es : List (Event σ T))
    (h : ∀ c', .compose c' ∈ es → c' = c) : (composable states).Always Tracks ⟨states, none⟩ es := by
  have h0 : Only c (⟨states, none⟩ : App σ T) := by
    rintro slots ⟨⟩
  exact (always_tracks_iff states es (keyed_init states) (tracks_init states)).2 (Only.along states h0 h)

end CrossplatformBenchmark.Subscription
