import CrossplatformBenchmark.Lib.Transition
import CrossplatformBenchmark.Counter.Window

/-!
# The Compose counter loop

`CounterApp` and `subscribeAsState` (`Counter.kt:64-98`), any number of instances on one store
(`ComposeActivity.kt:39-48` shows five). Composition launches a coroutine, the coroutine
dispatches `Increment`, the dispatch calls every subscriber, a subscriber sets its instance's
`selectedState`, and an instance whose `selectedState` changed is recomposed at the next frame.

| here | there |
| --- | --- |
| `Instance.selectedState` | `remember { mutableStateOf(selector(state)) }`, selector `{ it }` (Counter.kt:90) |
| `Instance.assign`        | `selectedState.value = selector(state)` (Counter.kt:93): structurally equal values do not invalidate |
| `Instance.pending`       | coroutines launched by `SideEffect` (Counter.kt:73-77) that have not run |
| `Loop.mount`             | composition, `DisposableEffect` subscription and `SideEffect` together |
| `Loop.dispatch`          | one pending coroutine: `store.dispatch(Increment)`, then every subscriber |
| `Loop.render`            | a frame: every invalidated instance recomposes and runs its `SideEffect` |
| `Loop.unmount`           | `onDispose { unsubscribe() }`, the coroutine scope cancelled |

`reduced`, `cancelled` and `compositions` only count; nothing reads them, and they are what the events of the run come to
(`counted`).

* `loop_never_stalls` — an instance on screen is invalidated or has an increment pending, and the increments reduced,
  pending and cancelled are the compositions.
-/

namespace CrossplatformBenchmark.RenderLoop

open Transition

abbrev StoreState := CounterState Int32 Int64

/-- One `CounterApp` on screen. -/
structure Instance where
  id : Nat
  selectedState : StoreState
  invalidated : Bool
  pending : Nat
  deriving DecidableEq

structure Loop where
  state : StoreState
  /-- Instances subscribed to the store, in subscription order. -/
  listeners : List Nat
  instances : List Instance
  nextId : Nat
  reduced : Nat
  cancelled : Nat
  compositions : Nat

inductive Event where
  | mount
  | dispatch (id : Nat) (currentTimeMillis : Int64)
  | render
  | unmount (id : Nat)

def Instance.assign (c : Instance) (value : StoreState) : Instance :=
  if c.selectedState = value then c else { c with selectedState := value, invalidated := true }

/-- `SideEffect { scope.launch { … } }`. -/
def Instance.sideEffect (c : Instance) : Instance := { c with pending := c.pending + 1 }

def Instance.recompose (c : Instance) : Instance :=
  if c.invalidated then { c with invalidated := false }.sideEffect else c

/-- The coroutine that runs leaves the pending ones. -/
def Instance.take (c : Instance) (id : Nat) : Instance :=
  if c.id = id then { c with pending := c.pending - 1 } else c

def Loop.mount (s : Loop) : Loop :=
  let c : Instance := { id := s.nextId, selectedState := s.state, invalidated := false, pending := 0 }
  { s with
    listeners := s.listeners ++ [s.nextId]
    instances := s.instances ++ [c.sideEffect]
    nextId := s.nextId + 1
    compositions := s.compositions + 1 }

def Loop.dispatch (s : Loop) (id : Nat) (currentTimeMillis : Int64) : Loop :=
  let state := Kotlin.counterReducer s.state .increment currentTimeMillis
  { s with
    state := state
    instances := s.instances.map fun c =>
      if c.id ∈ s.listeners then (c.take id).assign state else c.take id
    reduced := s.reduced + 1 }

def Loop.render (s : Loop) : Loop :=
  { s with
    instances := s.instances.map Instance.recompose
    compositions := s.compositions + s.instances.countP Instance.invalidated }

def Loop.unmount (s : Loop) (id : Nat) : Loop :=
  { s with
    listeners := s.listeners.filter (· ≠ id)
    instances := s.instances.filter (·.id ≠ id)
    cancelled := s.cancelled + ((s.instances.filter (·.id = id)).map Instance.pending).sum }

/-- A coroutine runs only if its instance has one pending; only a mounted instance unmounts. -/
def Loop.step (s : Loop) : Event → Option Loop
  | .mount => some s.mount
  | .dispatch id t => if s.instances.any (fun c => c.id = id && 0 < c.pending) then some (s.dispatch id t) else none
  | .render => some s.render
  | .unmount id => if s.instances.any (·.id = id) then some (s.unmount id) else none

/-- The global store at `CounterState()`, nothing mounted. -/
def loop : Lts Loop Event := ⟨⟨.initial, [], [], 0, 0, 0, 0⟩, Loop.step⟩

/-- What an event can do. -/
theorem step_cases {s s' : Loop} {e : Event} (h : loop.step s e = some s') :
    (e = .mount ∧ s' = s.mount) ∨
    (∃ id t, e = .dispatch id t ∧ (∃ c ∈ s.instances, c.id = id ∧ 0 < c.pending) ∧ s' = s.dispatch id t) ∨
    (e = .render ∧ s' = s.render) ∨
    (∃ id, e = .unmount id ∧ s' = s.unmount id) := by
  cases e with
  | mount => exact .inl ⟨rfl, (Option.some.inj h).symm⟩
  | dispatch id t =>
    simp only [loop, Loop.step, Option.ite_none_right_eq_some, Option.some.injEq, List.any_eq_true,
      Bool.and_eq_true, decide_eq_true_eq] at h
    obtain ⟨⟨c, hc, hid, hp⟩, rfl⟩ := h
    exact .inr (.inl ⟨id, t, rfl, ⟨c, hc, hid, hp⟩, rfl⟩)
  | render => exact .inr (.inr (.inl ⟨rfl, (Option.some.inj h).symm⟩))
  | unmount id =>
    simp only [loop, Loop.step, Option.ite_none_right_eq_some, Option.some.injEq] at h
    exact .inr (.inr (.inr ⟨id, rfl, h.2.symm⟩))

/-! ## One instance -/

@[simp] theorem sideEffect_id (c : Instance) : c.sideEffect.id = c.id := rfl
@[simp] theorem sideEffect_selectedState (c : Instance) : c.sideEffect.selectedState = c.selectedState := rfl
@[simp] theorem sideEffect_pending (c : Instance) : c.sideEffect.pending = c.pending + 1 := rfl

@[simp] theorem assign_id (c : Instance) (v : StoreState) : (c.assign v).id = c.id := by
  unfold Instance.assign; split <;> rfl

@[simp] theorem assign_pending (c : Instance) (v : StoreState) : (c.assign v).pending = c.pending := by
  unfold Instance.assign; split <;> rfl

@[simp] theorem assign_selectedState (c : Instance) (v : StoreState) : (c.assign v).selectedState = v := by
  unfold Instance.assign
  split
  · assumption
  · rfl

theorem assign_invalidated {c : Instance} {v : StoreState} (h : c.selectedState ≠ v) :
    (c.assign v).invalidated = true := by
  simp [Instance.assign, h]

@[simp] theorem take_id (c : Instance) (id : Nat) : (c.take id).id = c.id := by
  unfold Instance.take; split <;> rfl

@[simp] theorem take_selectedState (c : Instance) (id : Nat) : (c.take id).selectedState = c.selectedState := by
  unfold Instance.take; split <;> rfl

@[simp] theorem recompose_id (c : Instance) : c.recompose.id = c.id := by
  unfold Instance.recompose; split <;> rfl

@[simp] theorem recompose_selectedState (c : Instance) : c.recompose.selectedState = c.selectedState := by
  unfold Instance.recompose; split <;> rfl

theorem recompose_pending (c : Instance) :
    c.recompose.pending = c.pending + if c.invalidated then 1 else 0 := by
  unfold Instance.recompose; split <;> rfl

/-- **Every increment is a structurally different state**, also when `counter` wraps and the
window stays the same: that is what keeps the loop going. -/
theorem counterReducer_ne (s : StoreState) (t : Int64) : s ≠ Kotlin.counterReducer s .increment t := by
  intro h
  have hc : s.counter = s.counter + 1 := congrArg CounterState.counter h
  have hn : s.counter ≠ s.counter + 1 := by simp
  exact hn hc

/-! ## Pending coroutines -/

def pendingOf (cs : List Instance) : Nat := (cs.map Instance.pending).sum

theorem pendingOf_take {id : Nat} : ∀ {cs : List Instance}, (cs.map Instance.id).Nodup →
    (∃ c ∈ cs, c.id = id ∧ 0 < c.pending) → pendingOf (cs.map (·.take id)) + 1 = pendingOf cs
  | [], _, h => by obtain ⟨c, hc, -⟩ := h; cases hc
  | c :: cs, hn, h => by
    obtain ⟨hc, hn⟩ := List.nodup_cons.1 hn
    obtain ⟨d, hd, hid, hp⟩ := h
    simp only [pendingOf, List.map_cons, List.sum_cons]
    by_cases he : c.id = id
    · -- ids are unique: nothing else is taken from
      have hrest : cs.map (·.take id) = cs := by
        refine (List.map_congr_left fun x hx => ?_).trans (List.map_id cs)
        have : x.id ≠ id := fun hxi => hc (List.mem_map.2 ⟨x, hx, hxi.trans he.symm⟩)
        simp [Instance.take, this]
      have hdc : d = c := by
        rcases List.mem_cons.1 hd with rfl | hd
        · rfl
        · exact absurd (List.mem_map.2 ⟨d, hd, hid.trans he.symm⟩) hc
      subst hdc
      have ht : (d.take id).pending = d.pending - 1 := by simp [Instance.take, he]
      rw [hrest, ht]
      omega
    · have hd' : d ∈ cs := by
        rcases List.mem_cons.1 hd with rfl | hd
        · exact absurd hid he
        · exact hd
      have ih := pendingOf_take hn ⟨d, hd', hid, hp⟩
      have ht : (c.take id).pending = c.pending := by simp [Instance.take, he]
      simp only [pendingOf] at ih
      rw [ht]
      omega

theorem pendingOf_recompose (cs : List Instance) :
    pendingOf (cs.map Instance.recompose) = pendingOf cs + cs.countP Instance.invalidated := by
  induction cs with
  | nil => rfl
  | cons c cs ih =>
    simp only [pendingOf, List.map_cons, List.sum_cons, recompose_pending, List.countP_cons] at ih ⊢
    omega

theorem pendingOf_filter (id : Nat) (cs : List Instance) :
    pendingOf (cs.filter (·.id ≠ id)) + pendingOf (cs.filter (·.id = id)) = pendingOf cs := by
  induction cs with
  | nil => rfl
  | cons c cs ih =>
    by_cases he : c.id = id
    · simp [pendingOf, he] at ih ⊢
      omega
    · simp [pendingOf, he] at ih ⊢
      omega

/-! ## The invariant -/

structure Inv (s : Loop) : Prop where
  listeners : s.listeners = s.instances.map Instance.id
  nodup : (s.instances.map Instance.id).Nodup
  fresh : ∀ c ∈ s.instances, c.id < s.nextId
  current : ∀ c ∈ s.instances, c.selectedState = s.state
  awake : ∀ c ∈ s.instances, c.invalidated = true ∨ 0 < c.pending
  ledger : s.reduced + pendingOf s.instances + s.cancelled = s.compositions

theorem Inv.mount {s : Loop} (h : Inv s) : Inv s.mount where
  listeners := by simp [Loop.mount, h.listeners]
  nodup := by
    have hn : s.nextId ∉ s.instances.map Instance.id := by
      intro hm
      obtain ⟨c, hc, he⟩ := List.mem_map.1 hm
      have := h.fresh c hc
      omega
    simp only [Loop.mount, List.map_append, List.map_cons, List.map_nil, sideEffect_id]
    exact List.nodup_append.2 ⟨h.nodup, by simp, by
      intro a ha b hb hab
      simp only [List.mem_singleton] at hb
      exact hn (hb ▸ hab ▸ ha)⟩
  fresh c hc := by
    simp only [Loop.mount, List.mem_append, List.mem_singleton] at hc ⊢
    rcases hc with hc | rfl
    · have := h.fresh c hc
      omega
    · simp
  current c hc := by
    simp only [Loop.mount, List.mem_append, List.mem_singleton] at hc ⊢
    rcases hc with hc | rfl
    · exact h.current c hc
    · rfl
  awake c hc := by
    simp only [Loop.mount, List.mem_append, List.mem_singleton] at hc
    rcases hc with hc | rfl
    · exact h.awake c hc
    · exact .inr (Nat.succ_pos 0)
  ledger := by
    have hl := h.ledger
    simp only [Loop.mount, pendingOf, List.map_append, List.sum_append, List.map_cons, List.map_nil,
      sideEffect_pending, List.sum_cons, List.sum_nil] at hl ⊢
    omega

/-- A dispatch reaches every mounted instance. -/
theorem Inv.dispatch_instances {s : Loop} (h : Inv s) (id : Nat) (t : Int64) :
    (s.dispatch id t).instances =
      s.instances.map fun c => (c.take id).assign (Kotlin.counterReducer s.state .increment t) := by
  refine List.map_congr_left fun c hc => ?_
  have hm : c.id ∈ s.listeners := by
    rw [h.listeners]
    exact List.mem_map_of_mem hc
  rw [if_pos hm]

theorem Inv.dispatch {s : Loop} (h : Inv s) {id : Nat} (t : Int64) (hc : ∃ c ∈ s.instances, c.id = id ∧ 0 < c.pending) :
    Inv (s.dispatch id t) := by
  have hi := h.dispatch_instances id t
  have hids : (s.dispatch id t).instances.map Instance.id = s.instances.map Instance.id := by
    rw [hi, List.map_map]
    exact List.map_congr_left fun c _ => by simp
  have hpend : pendingOf (s.dispatch id t).instances = pendingOf (s.instances.map (·.take id)) := by
    simp only [pendingOf, hi, List.map_map]
    congr 1
    exact List.map_congr_left fun c _ => by simp
  refine ⟨?_, ?_, fun c hc' => ?_, fun c hc' => ?_, fun c hc' => ?_, ?_⟩
  · rw [hids]
    exact h.listeners
  · rw [hids]
    exact h.nodup
  · rw [hi] at hc'
    obtain ⟨d, hd, rfl⟩ := List.mem_map.1 hc'
    rw [assign_id, take_id]
    exact h.fresh d hd
  · rw [hi] at hc'
    obtain ⟨d, -, rfl⟩ := List.mem_map.1 hc'
    rw [assign_selectedState]
    rfl
  · rw [hi] at hc'
    obtain ⟨d, hd, rfl⟩ := List.mem_map.1 hc'
    refine .inl (assign_invalidated ?_)
    rw [take_selectedState, h.current d hd]
    exact counterReducer_ne s.state t
  · have htake := pendingOf_take h.nodup hc
    have hl := h.ledger
    rw [hpend]
    simp only [Loop.dispatch]
    omega

theorem Inv.render {s : Loop} (h : Inv s) : Inv s.render := by
  have hids : s.render.instances.map Instance.id = s.instances.map Instance.id := by
    simp only [Loop.render, List.map_map]
    exact List.map_congr_left fun c _ => by simp
  refine ⟨?_, ?_, fun c hc => ?_, fun c hc => ?_, fun c hc => ?_, ?_⟩
  · rw [hids]
    exact h.listeners
  · rw [hids]
    exact h.nodup
  · obtain ⟨d, hd, rfl⟩ := List.mem_map.1 hc
    rw [recompose_id]
    exact h.fresh d hd
  · obtain ⟨d, hd, rfl⟩ := List.mem_map.1 hc
    rw [recompose_selectedState]
    exact h.current d hd
  · obtain ⟨d, hd, rfl⟩ := List.mem_map.1 hc
    refine .inr ?_
    rw [recompose_pending]
    rcases h.awake d hd with hinv | hp
    · simp [hinv]
    · omega
  · have hl := h.ledger
    simp only [Loop.render, pendingOf_recompose]
    omega

theorem Inv.unmount {s : Loop} (h : Inv s) (id : Nat) : Inv (s.unmount id) := by
  have hsub : (s.unmount id).instances.Sublist s.instances := List.filter_sublist
  refine ⟨?_, h.nodup.sublist (hsub.map _), fun c hc => h.fresh c (hsub.subset hc),
    fun c hc => h.current c (hsub.subset hc), fun c hc => h.awake c (hsub.subset hc), ?_⟩
  · simp only [Loop.unmount, h.listeners, List.filter_map]
    rfl
  · have hl := h.ledger
    have hf := pendingOf_filter id s.instances
    simp only [Loop.unmount, pendingOf] at hl hf ⊢
    omega

theorem inv_inductive : loop.Inductive Inv where
  init := ⟨rfl, List.nodup_nil, by simp [loop], by simp [loop], by simp [loop], rfl⟩
  step s e s' h hs := by
    obtain ⟨-, rfl⟩ | ⟨id, t, -, hc, rfl⟩ | ⟨-, rfl⟩ | ⟨id, -, rfl⟩ := step_cases hs
    · exact h.mount
    · exact h.dispatch t hc
    · exact h.render
    · exact h.unmount id

/-! ## What the events count -/

def Loop.reduces (_ : Loop) : Event → Nat
  | .dispatch _ _ => 1
  | _ => 0

def Loop.cancels (s : Loop) : Event → Nat
  | .unmount id => ((s.instances.filter (·.id = id)).map Instance.pending).sum
  | _ => 0

def Loop.composes (s : Loop) : Event → Nat
  | .mount => 1
  | .render => s.instances.countP Instance.invalidated
  | _ => 0

theorem counted {es : List Event} {s : Loop} (h : loop.run loop.init es = some s) :
    s.reduced = loop.tally Loop.reduces loop.init es ∧ s.cancelled = loop.tally Loop.cancels loop.init es ∧
      s.compositions = loop.tally Loop.composes loop.init es := by
  have hstep : ∀ {s e t}, loop.step s e = some t → t.reduced = s.reduced + s.reduces e ∧
      t.cancelled = s.cancelled + s.cancels e ∧ t.compositions = s.compositions + s.composes e := by
    intro s e t ht
    obtain ⟨rfl, rfl⟩ | ⟨id, t, rfl, -, rfl⟩ | ⟨rfl, rfl⟩ | ⟨id, rfl, rfl⟩ := step_cases ht <;> exact ⟨rfl, rfl, rfl⟩
  have hreduced := Lts.run_tally (fun ht => (hstep ht).1) h
  have hcancelled := Lts.run_tally (fun ht => (hstep ht).2.1) h
  have hcompositions := Lts.run_tally (fun ht => (hstep ht).2.2) h
  exact ⟨hreduced.trans (Nat.zero_add _), hcancelled.trans (Nat.zero_add _), hcompositions.trans (Nat.zero_add _)⟩

/-! ## The loop never stalls -/

/-- A mounted instance with a pending coroutine can run it. -/
theorem dispatch_enabled {s : Loop} {c : Instance} (hc : c ∈ s.instances) (hp : 0 < c.pending) (t : Int64) :
    loop.step s (.dispatch c.id t) = some (s.dispatch c.id t) := by
  have hany : s.instances.any (fun d => d.id = c.id && 0 < d.pending) = true := by
    simp only [List.any_eq_true, Bool.and_eq_true, decide_eq_true_eq]
    exact ⟨c, hc, rfl, hp⟩
  simp [loop, Loop.step, hany]

/-- The next increment of the instance: after one frame, if none is pending. -/
def Instance.increments (c : Instance) (t : Int64) : List Event :=
  if 0 < c.pending then [.dispatch c.id t] else [.render, .dispatch c.id t]

/-- One frame at most before the next increment. -/
theorem advance {s : Loop} (h : Inv s) {c : Instance} (hc : c ∈ s.instances) (t : Int64) :
    ∃ s', loop.run s (c.increments t) = some s' ∧ s'.reduced = s.reduced + 1 ∧
      s'.state = Kotlin.counterReducer s.state .increment t := by
  by_cases hp : 0 < c.pending
  · rw [Instance.increments, if_pos hp, Lts.run_cons_some loop (dispatch_enabled hc hp t)]
    exact ⟨_, rfl, rfl, rfl⟩
  · have hinv : c.invalidated = true := (h.awake c hc).resolve_right hp
    have hr : loop.step s .render = some s.render := rfl
    have hc' : c.recompose ∈ s.render.instances := List.mem_map_of_mem hc
    have hp' : 0 < c.recompose.pending := by
      rw [recompose_pending, hinv]
      exact Nat.succ_pos _
    have hd := dispatch_enabled hc' hp' t
    rw [recompose_id] at hd
    rw [Instance.increments, if_neg hp, Lts.run_cons_some loop hr, Lts.run_cons_some loop hd]
    exact ⟨_, rfl, rfl, rfl⟩

/-- **The loop never stalls and loses no increment.** After every run every mounted instance shows the store's state, is
invalidated or has an increment of its own pending (so that it can dispatch it, after one frame at most, whatever the
clock reads), and the increments reduced, pending and cancelled by unmounting are the compositions. -/
theorem loop_never_stalls {es : List Event} {s : Loop} (h : loop.run loop.init es = some s) :
    (∀ c ∈ s.instances, c.selectedState = s.state) ∧
    (∀ c ∈ s.instances, c.invalidated = true ∨ 0 < c.pending) ∧
    s.reduced + (s.instances.map Instance.pending).sum + s.cancelled = s.compositions ∧
    (s.reduced = loop.tally Loop.reduces loop.init es ∧ s.cancelled = loop.tally Loop.cancels loop.init es ∧
      s.compositions = loop.tally Loop.composes loop.init es) ∧
    ∀ c ∈ s.instances, ∀ t, ∃ s', loop.run s (c.increments t) = some s' ∧ s'.reduced = s.reduced + 1 ∧
      s'.state = Kotlin.counterReducer s.state .increment t := by
  have hI := inv_inductive.reachable ⟨es, h⟩
  exact ⟨hI.current, hI.awake, hI.ledger, counted h, fun c hc t => advance hI hc t⟩

/-- Two instances, one of them unmounted with its increment still pending. -/
def shortRun : List Event := [.mount, .mount, .dispatch 0 10, .unmount 1, .render]

theorem loop_never_stalls_short :
    ∃ s, loop.run loop.init shortRun = some s ∧ s.reduced = 1 ∧ s.cancelled = 1 ∧ s.compositions = 3 ∧
      ∀ c ∈ s.instances, c.selectedState = s.state := by
  have hrun : loop.run loop.init shortRun = some (((loop.init.mount.mount.dispatch 0 10).unmount 1).render) := rfl
  exact ⟨_, hrun, by decide, by decide, by decide, (loop_never_stalls hrun).1⟩

end CrossplatformBenchmark.RenderLoop
