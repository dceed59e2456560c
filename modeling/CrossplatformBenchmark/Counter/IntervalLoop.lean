import CrossplatformBenchmark.Counter.Compare
import CrossplatformBenchmark.Lib.Table
import CrossplatformBenchmark.Lib.Transition

/-!
# The React Native counter loop (usecases/Counter.tsx)

Three `Counter` components on one store. A component's effect starts an interval, each tick of it dispatches one
increment, and the cleanup of the effect clears it. The store's change schedules a render of every component whose
selected values it changes; a render reads `state.counter` and `state.rate` together.

| here | there |
| --- | --- |
| `Counter.select` | the two `useSelector`s (Counter.tsx:63-64), read in a render |
| `Counter.changed` | a selector's subscription: it schedules a render if the selected value is another one |
| `.mount`    | the first render of a `<Counter />` (:86-90) |
| `.effect`   | its passive effects: the selectors subscribe, `setInterval(…, 0)` (:66-69) |
| `.tick`     | the event loop runs one interval's callback: `dispatch(increment())` (:67-69) |
| `.render`   | a scheduled render |
| `.unmount`  | `clearInterval(interval)` (:71-73), if the effect has run |

`useDispatch` gives the same function at every render, so the effect, keyed on it (:74), runs once. A subscription
first looks whether the store has changed since the render. `ticks` keeps the clock readings.

* `intervals_mounted` — the intervals are those of the mounted components, one each.
* `shown_together` — the two figures on screen are always of one state of the store.
* `renders_erased` — no figure depends on whether anything is rendered: the "FPS" counts ticks of the event loop.
-/

namespace CrossplatformBenchmark.IntervalLoop

open Transition

abbrev StoreState := CounterState ℤ ℤ

/-- What one component selects from the store. -/
structure Selected where
  counter : ℤ
  rate : ℚ
  deriving DecidableEq

def select (state : StoreState) : Selected := ⟨state.counter, state.rate⟩

structure Counter where
  id : Nat
  /-- The id `setInterval` returned to the effect. -/
  interval : Option Nat := none
  shown : Selected
  scheduled : Bool := false

structure CounterApp where
  state : StoreState := .initial
  counters : List Counter := []
  intervals : List Nat := []
  mounted : Nat := 0
  timers : Nat := 0
  ticks : List ℤ := []

/-- A subscription compares what it selects with what its component shows. -/
def Counter.changed (c : Counter) (state : StoreState) : Counter :=
  if c.interval ≠ none ∧ select state ≠ c.shown then { c with scheduled := true } else c

def Counter.render (c : Counter) (state : StoreState) : Counter :=
  { c with shown := select state, scheduled := false }

/-- The effect of a component that has none yet. -/
def Counter.effect (c : Counter) (interval : Nat) (state : StoreState) : Counter :=
  Counter.changed { c with interval := some interval } state

def CounterApp.modify (s : CounterApp) (id : Nat) (f : Counter → Counter) : CounterApp :=
  { s with counters := s.counters.map fun c => if c.id = id then f c else c }

inductive Event where
  | mount
  | effect (id : Nat)
  | tick (interval : Nat) (currentTime : ℤ)
  | render (id : Nat)
  | unmount (id : Nat)

def CounterApp.mount (s : CounterApp) : CounterApp :=
  { s with counters := s.counters ++ [{ id := s.mounted, shown := select s.state }], mounted := s.mounted + 1 }

def CounterApp.effect (s : CounterApp) (id : Nat) : CounterApp :=
  { s.modify id (·.effect s.timers s.state) with
    intervals := s.intervals ++ [s.timers]
    timers := s.timers + 1 }

def CounterApp.tick (s : CounterApp) (currentTime : ℤ) : CounterApp :=
  let state := TypeScript.counterReducer s.state .increment currentTime
  { s with
    state := state
    counters := s.counters.map (·.changed state)
    ticks := s.ticks ++ [currentTime] }

def CounterApp.unmount (s : CounterApp) (c : Counter) : CounterApp :=
  { s with
    counters := s.counters.filter (·.id ≠ c.id)
    intervals := s.intervals.filter fun interval => c.interval ≠ some interval }

def CounterApp.step (s : CounterApp) : Event → Option CounterApp
  | .mount => some s.mount
  | .effect id => if s.counters.any (fun c => c.id = id ∧ c.interval = none) then some (s.effect id) else none
  | .tick interval currentTime => if interval ∈ s.intervals then some (s.tick currentTime) else none
  | .render id =>
    if s.counters.any (fun c => c.id = id ∧ c.scheduled) then some (s.modify id (·.render s.state)) else none
  | .unmount id => (s.counters.find? (·.id = id)).map s.unmount

def counterApp : Lts CounterApp Event := ⟨{}, CounterApp.step⟩

theorem step_cases {s t : CounterApp} {e : Event} (h : counterApp.step s e = some t) :
    (e = .mount ∧ t = s.mount) ∨
    (∃ id, e = .effect id ∧ (∃ c ∈ s.counters, c.id = id ∧ c.interval = none) ∧ t = s.effect id) ∨
    (∃ interval currentTime, e = .tick interval currentTime ∧ interval ∈ s.intervals ∧ t = s.tick currentTime) ∨
    (∃ id, e = .render id ∧ t = s.modify id (·.render s.state)) ∨
    (∃ c ∈ s.counters, e = .unmount c.id ∧ t = s.unmount c) := by
  cases e with
  | mount => exact .inl ⟨rfl, (Option.some.inj h).symm⟩
  | effect id =>
    obtain ⟨hc, ht⟩ := Option.ite_none_right_eq_some.1 h
    exact .inr (.inl ⟨id, rfl, by simpa using hc, (Option.some.inj ht).symm⟩)
  | tick interval currentTime =>
    obtain ⟨hi, ht⟩ := Option.ite_none_right_eq_some.1 h
    exact .inr (.inr (.inl ⟨interval, currentTime, rfl, hi, (Option.some.inj ht).symm⟩))
  | render id =>
    obtain ⟨-, ht⟩ := Option.ite_none_right_eq_some.1 h
    exact .inr (.inr (.inr (.inl ⟨id, rfl, (Option.some.inj ht).symm⟩)))
  | unmount id =>
    obtain ⟨c, hc, rfl⟩ := Option.map_eq_some_iff.1 h
    obtain rfl : c.id = id := by simpa using List.find?_some hc
    exact .inr (.inr (.inr (.inr ⟨c, List.mem_of_find?_eq_some hc, rfl, rfl⟩)))

/-! ## Effects and their intervals -/

/-- A component, as far as its effect goes. -/
def Counter.timer (c : Counter) : Nat × Option Nat := (c.id, c.interval)

@[simp] theorem timer_changed (c : Counter) (state : StoreState) : (c.changed state).timer = c.timer := by
  unfold Counter.changed
  split <;> rfl

@[simp] theorem timer_render (c : Counter) (state : StoreState) : (c.render state).timer = c.timer := rfl

theorem timer_effect (c : Counter) (interval : Nat) (state : StoreState) :
    (c.effect interval state).timer = (c.id, some interval) := timer_changed _ state

def CounterApp.timed (s : CounterApp) : List (Nat × Option Nat) := s.counters.map Counter.timer

theorem timed_mount (s : CounterApp) : s.mount.timed = s.timed ++ [(s.mounted, none)] := by
  simp [CounterApp.timed, CounterApp.mount, Counter.timer]

theorem timed_effect (s : CounterApp) (id : Nat) :
    (s.effect id).timed = s.timed.map fun c => if c.1 = id then (c.1, some s.timers) else c := by
  simp only [CounterApp.timed, CounterApp.effect, CounterApp.modify, List.map_map]
  refine List.map_congr_left fun c _ => ?_
  by_cases h : c.id = id
  · simp only [Function.comp_apply, if_pos h]
    rw [timer_effect, if_pos (show c.timer.1 = id from h)]
    rfl
  · simp only [Function.comp_apply, if_neg h]
    rw [if_neg (show c.timer.1 ≠ id from h)]

theorem timed_tick (s : CounterApp) (currentTime : ℤ) : (s.tick currentTime).timed = s.timed := by
  simp [CounterApp.timed, CounterApp.tick]

theorem timed_render (s : CounterApp) (id : Nat) : (s.modify id (·.render s.state)).timed = s.timed :=
  Table.map_update (fun c _ => timer_render c s.state) s.counters

theorem timed_unmount (s : CounterApp) (c : Counter) : (s.unmount c).timed = s.timed.filter (·.1 ≠ c.id) := by
  simp only [CounterApp.timed, CounterApp.unmount, List.filter_map]
  rfl

/-- The intervals of the components, by their ids; `mounted` and `timers` are the ids given out. -/
structure Timed (counters : List (Nat × Option Nat)) (intervals : List Nat) (mounted timers : Nat) : Prop where
  ids : (counters.map Prod.fst).Nodup
  mounted : ∀ c ∈ counters, c.1 < mounted
  nodup : intervals.Nodup
  timers : ∀ i ∈ intervals, i < timers
  owned : ∀ i ∈ intervals, ∃ id, (id, some i) ∈ counters
  live : ∀ id i, (id, some i) ∈ counters → i ∈ intervals
  unique : ∀ id id' i, (id, some i) ∈ counters → (id', some i) ∈ counters → id = id'

variable {counters : List (Nat × Option Nat)} {intervals : List Nat} {mounted timers : Nat}

theorem Timed.mount (h : Timed counters intervals mounted timers) :
    Timed (counters ++ [(mounted, none)]) intervals (mounted + 1) timers := by
  have hold : ∀ id i, (id, some i) ∈ counters ++ [(mounted, none)] → (id, some i) ∈ counters := by
    intro id i hm
    simpa using hm
  refine ⟨?_, ?_, h.nodup, h.timers, ?_, fun id i hm => h.live id i (hold id i hm), ?_⟩
  · exact Table.nodup_concat h.ids fun c hc => Nat.ne_of_lt (h.mounted c hc)
  · intro c hc
    rcases List.mem_append.1 hc with hc | hc
    · exact Nat.lt_succ_of_lt (h.mounted c hc)
    · rw [List.mem_singleton.1 hc]
      exact Nat.lt_succ_self _
  · intro i hi
    obtain ⟨id, hm⟩ := h.owned i hi
    exact ⟨id, List.mem_append_left _ hm⟩
  · intro id id' i hm hm'
    exact h.unique id id' i (hold id i hm) (hold id' i hm')

theorem Timed.effect (h : Timed counters intervals mounted timers) {id : Nat} (hid : (id, none) ∈ counters) :
    Timed (counters.map fun c => if c.1 = id then (c.1, some timers) else c) (intervals ++ [timers]) mounted
      (timers + 1) := by
  have hnew : ∀ j i, (j, some i) ∈ counters.map (fun c => if c.1 = id then (c.1, some timers) else c) ↔
      j = id ∧ i = timers ∨ (j, some i) ∈ counters := by
    intro j i
    rw [List.mem_map]
    constructor
    · rintro ⟨c, hc, he⟩
      split at he
      · rename_i hci
        simp only [Prod.mk.injEq, Option.some.injEq] at he
        exact .inl ⟨he.1.symm.trans hci, he.2.symm⟩
      · exact .inr (he ▸ hc)
    · rintro (⟨rfl, rfl⟩ | hm)
      · exact ⟨(j, none), hid, if_pos rfl⟩
      · refine ⟨(j, some i), hm, if_neg ?_⟩
        -- the component had no interval
        rintro rfl
        have heq := List.inj_on_of_nodup_map h.ids hm hid rfl
        cases heq
  have hids : (counters.map fun c => if c.1 = id then (c.1, some timers) else c).map Prod.fst = counters.map Prod.fst :=
    Table.map_update (f := fun c => (c.1, some timers)) (fun _ _ => rfl) counters
  refine ⟨hids ▸ h.ids, ?_, ?_, ?_, ?_, ?_, ?_⟩
  · intro c hc
    have hm : c.1 ∈ counters.map Prod.fst := hids ▸ List.mem_map.2 ⟨c, hc, rfl⟩
    obtain ⟨d, hd, he⟩ := List.mem_map.1 hm
    exact he ▸ h.mounted d hd
  · simpa using h.nodup.concat fun hi => Nat.lt_irrefl _ (h.timers timers hi)
  · intro i hi
    rcases List.mem_append.1 hi with hi | hi
    · exact Nat.lt_succ_of_lt (h.timers i hi)
    · rw [List.mem_singleton.1 hi]
      exact Nat.lt_succ_self _
  · intro i hi
    rcases List.mem_append.1 hi with hi | hi
    · obtain ⟨j, hm⟩ := h.owned i hi
      exact ⟨j, (hnew j i).2 (.inr hm)⟩
    · exact ⟨id, (hnew id i).2 (.inl ⟨rfl, List.mem_singleton.1 hi⟩)⟩
  · intro j i hm
    rcases (hnew j i).1 hm with ⟨-, rfl⟩ | hm
    · exact List.mem_append_right _ (List.mem_singleton.2 rfl)
    · exact List.mem_append_left _ (h.live j i hm)
  · intro j j' i hm hm'
    rcases (hnew j i).1 hm with ⟨rfl, he⟩ | hold <;> rcases (hnew j' i).1 hm' with ⟨rfl, he'⟩ | hold'
    · rfl
    · exact absurd he (Nat.ne_of_lt (h.timers i (h.live j' i hold')))
    · exact absurd he' (Nat.ne_of_lt (h.timers i (h.live j i hold)))
    · exact h.unique j j' i hold hold'

theorem Timed.unmount (h : Timed counters intervals mounted timers) {c : Nat × Option Nat} (hc : c ∈ counters) :
    Timed (counters.filter (·.1 ≠ c.1)) (intervals.filter fun interval => c.2 ≠ some interval) mounted timers := by
  obtain ⟨id, interval⟩ := c
  have hsub : ∀ d ∈ counters.filter (·.1 ≠ id), d ∈ counters ∧ d.1 ≠ id := by
    intro d hd
    obtain ⟨hd, hne⟩ := List.mem_filter.1 hd
    exact ⟨hd, of_decide_eq_true hne⟩
  refine ⟨h.ids.sublist (List.filter_sublist.map _), fun d hd => h.mounted d (hsub d hd).1, h.nodup.filter _,
    fun i hi => h.timers i (List.mem_filter.1 hi).1, ?_, ?_, ?_⟩
  · intro i hi
    obtain ⟨hi, hne⟩ := List.mem_filter.1 hi
    obtain ⟨j, hm⟩ := h.owned i hi
    refine ⟨j, List.mem_filter.2 ⟨hm, decide_eq_true ?_⟩⟩
    rintro rfl
    have heq := List.inj_on_of_nodup_map h.ids hm hc rfl
    exact of_decide_eq_true hne (congrArg Prod.snd heq).symm
  · intro j i hm
    obtain ⟨hold, hne⟩ := hsub _ hm
    refine List.mem_filter.2 ⟨h.live j i hold, decide_eq_true ?_⟩
    -- the interval cleared is the component's own
    rintro rfl
    exact hne (h.unique j id i hold hc)
  · exact fun j j' i hm hm' => h.unique j j' i (hsub _ hm).1 (hsub _ hm').1

theorem timed_inductive : counterApp.Inductive fun s => Timed s.timed s.intervals s.mounted s.timers where
  init := by refine ⟨?_, ?_, ?_, ?_, ?_, ?_, ?_⟩ <;> simp [counterApp, CounterApp.timed]
  step := by
    intro s e t h ht
    rcases step_cases ht with ⟨-, rfl⟩ | ⟨id, -, ⟨c, hc, rfl, hn⟩, rfl⟩ | ⟨interval, currentTime, -, -, rfl⟩ |
      ⟨id, -, rfl⟩ | ⟨c, hc, -, rfl⟩
    · rw [timed_mount]
      exact h.mount
    · rw [timed_effect]
      exact h.effect (List.mem_map.2 ⟨c, hc, by rw [Counter.timer, hn]⟩)
    · rw [timed_tick]
      exact h
    · rw [timed_render]
      exact h
    · rw [timed_unmount]
      exact h.unmount (List.mem_map.2 ⟨c, hc, rfl⟩)

/-- **The intervals are those of the mounted components**: a component whose effect has run has one, for as long as it
is mounted and however often it renders, and there is no other. -/
theorem intervals_mounted {s : CounterApp} (h : counterApp.Reachable s) :
    s.intervals.Nodup ∧ (∀ c ∈ s.counters, ∀ i, c.interval = some i → i ∈ s.intervals) ∧
    ∀ i ∈ s.intervals, ∃! c, c ∈ s.counters ∧ c.interval = some i := by
  have hi := timed_inductive.reachable h
  have hmem : ∀ c ∈ s.counters, ∀ i, c.interval = some i → (c.id, some i) ∈ s.timed := by
    intro c hc i he
    exact List.mem_map.2 ⟨c, hc, by rw [Counter.timer, he]⟩
  refine ⟨hi.nodup, fun c hc i he => hi.live c.id i (hmem c hc i he), ?_⟩
  intro i hm
  obtain ⟨id, htimer⟩ := hi.owned i hm
  obtain ⟨c, hc, hce⟩ := List.mem_map.1 htimer
  obtain ⟨rfl, he⟩ := Prod.mk.inj hce
  refine ⟨c, ⟨hc, he⟩, ?_⟩
  rintro d ⟨hd, hde⟩
  have hid : d.id = c.id := hi.unique d.id c.id i (hmem d hd i hde) (hmem c hc i he)
  have hnodup : (s.counters.map (·.id)).Nodup := by
    have hids := hi.ids
    rwa [CounterApp.timed, List.map_map] at hids
  exact List.inj_on_of_nodup_map hnodup hd hc hid

/-- Effects before and after a render, and one component gone. -/
theorem intervals_mounted_unmount :
    ∃ s : CounterApp, counterApp.run {} [.mount, .mount, .effect 0, .tick 0 7, .effect 1, .render 1, .tick 1 8,
        .unmount 0] = some s ∧ s.intervals = [1] ∧ s.intervals.Nodup := by
  refine ⟨_, rfl, rfl, (intervals_mounted ⟨[.mount, .mount, .effect 0, .tick 0 7, .effect 1, .render 1, .tick 1 8,
    .unmount 0], rfl⟩).1⟩

/-! ## What is shown -/

/-- The store after the ticks. -/
def stateAfter (ticks : List ℤ) : StoreState :=
  run TypeScript.counterReducer (ticks.map fun t => (Action.increment, t))

theorem stateAfter_concat (ticks : List ℤ) (currentTime : ℤ) :
    stateAfter (ticks ++ [currentTime]) = TypeScript.counterReducer (stateAfter ticks) .increment currentTime := by
  simp [stateAfter, run]

theorem stateAfter_counter (ticks : List ℤ) : (stateAfter ticks).counter = ticks.length := by
  have hcounter : (stateAfter ticks).counter = (· + 1)^[(clocks (ticks.map fun t => (Action.increment, t))).length] 0 :=
    run_counter _
  rw [hcounter, clocks_increments, iterate_succ_int]

structure Shown (s : CounterApp) : Prop where
  state : s.state = stateAfter s.ticks
  shown : ∀ c ∈ s.counters, ∃ k ≤ s.ticks.length, c.shown = select (stateAfter (s.ticks.take k))
  settled : ∀ c ∈ s.counters, c.interval ≠ none → c.scheduled = false → c.shown = select s.state

theorem changed_shown (c : Counter) (state : StoreState) : (c.changed state).shown = c.shown := by
  unfold Counter.changed
  split <;> rfl

/-- A subscribed component that no render is scheduled for shows what it selects. -/
theorem changed_settled {c : Counter} {state : StoreState} (hi : (c.changed state).interval ≠ none)
    (hs : (c.changed state).scheduled = false) : (c.changed state).shown = select state := by
  unfold Counter.changed at *
  split
  · rename_i h
    rw [if_pos h] at hs
    cases hs
  · rename_i h
    rw [if_neg h] at hi hs
    by_contra hne
    exact h ⟨hi, Ne.symm hne⟩

theorem mem_modify {s : CounterApp} {id : Nat} {f : Counter → Counter} {c : Counter}
    (hc : c ∈ (s.modify id f).counters) : c ∈ s.counters ∨ ∃ d ∈ s.counters, c = f d := by
  obtain ⟨d, hd, rfl⟩ := List.mem_map.1 hc
  split
  · exact .inr ⟨d, hd, rfl⟩
  · exact .inl hd

theorem shown_inductive : counterApp.Inductive Shown where
  init := ⟨rfl, by simp [counterApp], by simp [counterApp]⟩
  step := by
    intro s e t h ht
    have hnow : ∃ k ≤ s.ticks.length, select s.state = select (stateAfter (s.ticks.take k)) :=
      ⟨s.ticks.length, Nat.le_refl _, by rw [List.take_length, h.state]⟩
    rcases step_cases ht with ⟨-, rfl⟩ | ⟨id, -, -, rfl⟩ | ⟨interval, currentTime, -, -, rfl⟩ |
      ⟨id, -, rfl⟩ | ⟨c, hc, -, rfl⟩
    · refine ⟨h.state, ?_, ?_⟩
      · intro c hc
        rcases List.mem_append.1 hc with hc | hc
        · exact h.shown c hc
        · rw [List.mem_singleton.1 hc]
          exact hnow
      · intro c hc hi hs
        rcases List.mem_append.1 hc with hc | hc
        · exact h.settled c hc hi hs
        · rw [List.mem_singleton.1 hc]
          rfl
    · refine ⟨h.state, ?_, ?_⟩
      · intro c hc
        rcases mem_modify hc with hc | ⟨d, hd, rfl⟩
        · exact h.shown c hc
        · rw [Counter.effect, changed_shown]
          exact h.shown d hd
      · intro c hc hi hs
        rcases mem_modify hc with hc | ⟨d, hd, rfl⟩
        · exact h.settled c hc hi hs
        · exact changed_settled hi hs
    · have hstate : (s.tick currentTime).state = stateAfter (s.ticks ++ [currentTime]) := by
        rw [stateAfter_concat, ← h.state]
        rfl
      refine ⟨hstate, ?_, ?_⟩
      · intro c hc
        obtain ⟨d, hd, rfl⟩ := List.mem_map.1 hc
        obtain ⟨k, hk, he⟩ := h.shown d hd
        refine ⟨k, ?_, ?_⟩
        · simp only [CounterApp.tick, List.length_append]
          exact Nat.le_add_right_of_le hk
        · rw [changed_shown, he]
          simp only [CounterApp.tick, List.take_append_of_le_length hk]
      · intro c hc hi hs
        obtain ⟨d, hd, rfl⟩ := List.mem_map.1 hc
        exact changed_settled hi hs
    · refine ⟨h.state, ?_, ?_⟩
      · intro c hc
        rcases mem_modify hc with hc | ⟨d, hd, rfl⟩
        · exact h.shown c hc
        · exact hnow
      · intro c hc hi hs
        rcases mem_modify hc with hc | ⟨d, hd, rfl⟩
        · exact h.settled c hc hi hs
        · rfl
    · exact ⟨h.state, fun d hd => h.shown d (List.mem_filter.1 hd).1, fun d hd => h.settled d (List.mem_filter.1 hd).1⟩

/-- **The figures belong together**: each component shows the counter and the rate after one number of ticks, and of
all ticks if its effect has run and no render is scheduled for it. -/
theorem shown_together {s : CounterApp} (h : counterApp.Reachable s) {c : Counter} (hc : c ∈ s.counters) :
    (∃ k ≤ s.ticks.length, c.shown = ⟨k, (stateAfter (s.ticks.take k)).rate⟩) ∧
    (c.interval ≠ none → c.scheduled = false → c.shown = ⟨s.ticks.length, (stateAfter s.ticks).rate⟩) := by
  have hi := shown_inductive.reachable h
  constructor
  · obtain ⟨k, hk, he⟩ := hi.shown c hc
    refine ⟨k, hk, ?_⟩
    rw [he, select, stateAfter_counter, List.length_take_of_le hk]
  · intro hn hs
    rw [hi.settled c hc hn hs, hi.state, select, stateAfter_counter]

/-- The first component still shows the tick it was rendered at. -/
theorem shown_together_late :
    ∃ s : CounterApp, ∃ c ∈ s.counters, counterApp.run {} [.mount, .mount, .effect 0, .effect 1, .tick 0 7, .render 0,
        .tick 1 8] = some s ∧
      c.id = 0 ∧ ∃ k ≤ s.ticks.length, c.shown = ⟨k, (stateAfter (s.ticks.take k)).rate⟩ := by
  have hrun : ∃ s, counterApp.run {} [.mount, .mount, .effect 0, .effect 1, .tick 0 7, .render 0, .tick 1 8] = some s ∧
      ∃ c ∈ s.counters, c.id = 0 := ⟨_, rfl, _, List.mem_cons_self, rfl⟩
  obtain ⟨s, hs, c, hc, hid⟩ := hrun
  exact ⟨s, c, hc, hs, hid, (shown_together ⟨_, hs⟩ hc).1⟩

/-! ## Renders do not count -/

/-- Two apps that differ in what they have rendered at most. -/
structure SameTimers (s t : CounterApp) : Prop where
  state : s.state = t.state
  timed : s.timed = t.timed
  intervals : s.intervals = t.intervals
  mounted : s.mounted = t.mounted
  timers : s.timers = t.timers
  ticks : s.ticks = t.ticks

def Event.isRender : Event → Bool
  | .render _ => true
  | _ => false

theorem SameTimers.find? {s t : CounterApp} (h : SameTimers s t) (id : Nat) :
    (s.counters.find? (·.id = id)).map Counter.timer = (t.counters.find? (·.id = id)).map Counter.timer := by
  have hfind : ∀ u : CounterApp, u.timed.find? (·.1 = id) = (u.counters.find? (·.id = id)).map Counter.timer := by
    intro u
    rw [CounterApp.timed, List.find?_map]
    rfl
  rw [← hfind, ← hfind, h.timed]

theorem sameTimers_step {s s' t : CounterApp} {e : Event} (h : SameTimers s t) (he : e.isRender = false)
    (hs : counterApp.step s e = some s') : ∃ t', counterApp.step t e = some t' ∧ SameTimers s' t' := by
  rcases step_cases hs with ⟨rfl, rfl⟩ | ⟨id, rfl, ⟨c, hc, hid, hn⟩, rfl⟩ | ⟨interval, currentTime, rfl, hi, rfl⟩ |
    ⟨id, rfl, -⟩ | ⟨c, hc, rfl, -⟩
  · refine ⟨t.mount, rfl, ⟨h.state, ?_, h.intervals, congrArg (· + 1) h.mounted, h.timers, h.ticks⟩⟩
    rw [timed_mount, timed_mount, h.timed, h.mounted]
  · have hmem : (id, none) ∈ t.timed := by
      rw [← h.timed]
      exact List.mem_map.2 ⟨c, hc, by rw [Counter.timer, hid, hn]⟩
    obtain ⟨d, hd, hde⟩ := List.mem_map.1 hmem
    obtain ⟨hdid, hdn⟩ := Prod.mk.inj hde
    have hany : t.counters.any (fun c => c.id = id ∧ c.interval = none) = true :=
      List.any_eq_true.2 ⟨d, hd, decide_eq_true ⟨hdid, hdn⟩⟩
    refine ⟨t.effect id, if_pos hany, ⟨h.state, ?_, ?_, h.mounted, congrArg (· + 1) h.timers, h.ticks⟩⟩
    · rw [timed_effect, timed_effect, h.timed, h.timers]
    · show s.intervals ++ [s.timers] = t.intervals ++ [t.timers]
      rw [h.intervals, h.timers]
  · refine ⟨t.tick currentTime, if_pos (h.intervals ▸ hi), ⟨?_, ?_, h.intervals, h.mounted, h.timers, ?_⟩⟩
    · exact congrArg (TypeScript.counterReducer · .increment currentTime) h.state
    · rw [timed_tick, timed_tick, h.timed]
    · exact congrArg (· ++ [currentTime]) h.ticks
  · cases he
  · obtain ⟨c', hc', rfl⟩ := Option.map_eq_some_iff.1 hs
    have hfind := h.find? c.id
    rw [hc'] at hfind
    obtain ⟨d, hd, hdt⟩ := Option.map_eq_some_iff.1 hfind.symm
    obtain ⟨hid, hinterval⟩ := Prod.mk.inj hdt
    refine ⟨t.unmount d, ?_, ⟨h.state, ?_, ?_, h.mounted, h.timers, h.ticks⟩⟩
    · show (t.counters.find? (·.id = c.id)).map t.unmount = some (t.unmount d)
      rw [hd]
      rfl
    · rw [timed_unmount, timed_unmount, h.timed, hid]
    · simp only [CounterApp.unmount, h.intervals, hinterval]

/-- **Renders do not count**: a run without its renders is a run, with the same store and the same intervals. -/
theorem renders_erased {es : List Event} {s : CounterApp} (h : counterApp.run {} es = some s) :
    ∃ t, counterApp.run {} (es.filter fun e => !e.isRender) = some t ∧
      t.state = s.state ∧ t.intervals = s.intervals ∧ t.ticks = s.ticks := by
  have hsilent : ∀ {s e s' t}, SameTimers s t → e.isRender = true → counterApp.step s e = some s' →
      SameTimers s' t := by
    intro s e s' t hr he hs
    rcases step_cases hs with ⟨rfl, -⟩ | ⟨id, rfl, -, -⟩ | ⟨interval, currentTime, rfl, -, -⟩ | ⟨id, -, rfl⟩ |
      ⟨c, -, rfl, -⟩
    · cases he
    · cases he
    · cases he
    · exact ⟨hr.state, (timed_render s id).trans hr.timed, hr.intervals, hr.mounted, hr.timers, hr.ticks⟩
    · cases he
  obtain ⟨t, ht, hr⟩ := Lts.run_erase (N := counterApp) (R := SameTimers) hsilent sameTimers_step
    ⟨rfl, rfl, rfl, rfl, rfl, rfl⟩ h
  exact ⟨t, ht, hr.state.symm, hr.intervals.symm, hr.ticks.symm⟩

/-- Three ticks and a render: the store is the same without the render. -/
theorem renders_erased_once :
    ∃ s t : CounterApp, counterApp.run {} [.mount, .effect 0, .tick 0 7, .render 0, .tick 0 8, .tick 0 9] = some s ∧
      counterApp.run {} [.mount, .effect 0, .tick 0 7, .tick 0 8, .tick 0 9] = some t ∧ t.state = s.state := by
  have hrun : ∃ s, counterApp.run {} [.mount, .effect 0, .tick 0 7, .render 0, .tick 0 8, .tick 0 9] = some s :=
    ⟨_, rfl⟩
  obtain ⟨s, hs⟩ := hrun
  obtain ⟨t, ht, hst, -⟩ := renders_erased hs
  exact ⟨s, t, hs, ht, hst⟩

end CrossplatformBenchmark.IntervalLoop
