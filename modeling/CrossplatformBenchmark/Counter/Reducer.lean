import CrossplatformBenchmark.Lib.SlidingWindow

/-!
# The three counter reducers

`Counter.kt:21-61`, `usecases/Counter.tsx:12-55`, `SwiftUI/CounterApp.swift:51-92`.

On an increment each of them filters its `timestamps` against the clock, appends the clock
reading, counts the result into a rate and adds one to `counter`; any other action leaves the
state alone. `reduce` is that body; a reducer is `reduce` at its own window and rate.

* The number types are parameters: the Kotlin program runs at `Int32`/`Int64`, whose arithmetic
  wraps. At `ℤ` (milliseconds) or `ℚ` (seconds) the same body is the reducer with exact
  arithmetic. JavaScript numbers are exact on the integers a `Date` can return; Swift's
  counter is an `Int` that would trap past `Int.max`, here the unbounded integer.
* Rates are exact rationals.
* The clock is read once per increment, so a run is a list of actions, each with what the
  clock shows when it is dispatched.
-/

namespace CrossplatformBenchmark

open SlidingWindow

/-- `CounterAction.Increment` (Counter.kt:23), `INCREMENT` (Counter.tsx:13), `IncrementAction`
(CounterApp.swift:65); `other` is any object the reducers' default branch takes. -/
inductive Action where
  | increment
  | other
  deriving DecidableEq, Repr

/-- `CounterState` (Counter.kt:27-31, CounterApp.swift:52-62), `initialState` (Counter.tsx:22-26). -/
structure CounterState (ι τ : Type) where
  counter : ι
  rate : ℚ
  timestamps : List τ
  deriving DecidableEq

section reducer

variable {ι τ : Type} [OfNat ι 0] [OfNat ι 1] [Add ι] [Sub τ] [LT τ] [DecidableLT τ]

/-- `CounterState()`. -/
def CounterState.initial : CounterState ι τ := ⟨0, 0, []⟩

/-- The filter's test: `it > currentTime - windowDuration`. -/
def inWindow (windowDuration it currentTime : τ) : Bool := decide (it > currentTime - windowDuration)

def increment (windowDuration : τ) (rateOf : Nat → ℚ) (state : CounterState ι τ) (currentTime : τ) :
    CounterState ι τ :=
  let newTimestamps := state.timestamps.filter (inWindow windowDuration · currentTime) ++ [currentTime]
  { counter := state.counter + 1, rate := rateOf newTimestamps.length, timestamps := newTimestamps }

/-- What the three reducers share; `currentTime` is only read by an increment. -/
def reduce (windowDuration : τ) (rateOf : Nat → ℚ) (state : CounterState ι τ) (action : Action)
    (currentTime : τ) : CounterState ι τ :=
  match action with
  | .increment => increment windowDuration rateOf state currentTime
  | .other => state

end reducer

/-! ## Kotlin -/

namespace Kotlin

variable {ι τ : Type} [OfNat ι 0] [OfNat ι 1] [Add ι] [Sub τ] [LT τ] [DecidableLT τ] [OfNat τ 5000]

/-- `WINDOW_DURATION_MS` (Counter.kt:35). -/
def windowDurationMs : τ := 5000

/-- `newTimestamps.size / (WINDOW_DURATION_MS / 1000f)`, guarded by `size > 1` (Counter.kt:46-50). -/
def rate (size : Nat) : ℚ := if size > 1 then size / (windowDurationMs / 1000) else 0

/-- `counterReducer` (Counter.kt:38-61). -/
def counterReducer (state : CounterState ι τ) (action : Action) (currentTimeMillis : τ) : CounterState ι τ :=
  reduce windowDurationMs rate state action currentTimeMillis

end Kotlin

/-! ## TypeScript -/

namespace TypeScript

/-- `x.toFixed(digits)` as a number of units of `10 ^ -digits`: the nearest one, the larger of
two equally near; a negative `x` is printed as `-` and its absolute value. -/
def toFixed (x : ℚ) (digits : Nat) : ℤ :=
  if x < 0 then -⌊-x * 10 ^ digits + 1 / 2⌋ else ⌊x * 10 ^ digits + 1 / 2⌋

/-- `parseFloat` of a decimal text with that many fraction digits. -/
def parseFloat (units : ℤ) (digits : Nat) : ℚ := units / 10 ^ digits

/-- `WINDOW_DURATION_MS` (Counter.tsx:19). -/
def windowDurationMs : ℤ := 5000

/-- `parseFloat((newTimestamps.length / (WINDOW_DURATION_MS / 1000)).toFixed(2))` (Counter.tsx:43-49). -/
def rate (length : Nat) : ℚ := parseFloat (toFixed (length / (windowDurationMs / 1000)) 2) 2

/-- `counterReducer` (Counter.tsx:29-55). -/
def counterReducer (state : CounterState ℤ ℤ) (action : Action) (currentTime : ℤ) : CounterState ℤ ℤ :=
  reduce windowDurationMs rate state action currentTime

end TypeScript

/-! ## Swift -/

namespace Swift

/-- `windowDuration` (CounterApp.swift:68). -/
def windowDuration : ℚ := 5

/-- `Float(newTimestamps.count) / Float(windowDuration)`, guarded by `count > 1` (CounterApp.swift:78-80). -/
def rate (count : Nat) : ℚ := if count > 1 then count / windowDuration else 0

/-- `counterReducer` (CounterApp.swift:70-92). -/
def counterReducer (state : CounterState ℤ ℚ) (action : Action) (currentTime : ℚ) : CounterState ℤ ℚ :=
  reduce windowDuration rate state action currentTime

end Swift

/-! ## Runs of a store -/

section run

variable {ι τ : Type} [OfNat ι 0] [OfNat ι 1] [Add ι]

/-- The store's state after the dispatches: `createStore(counterReducer, CounterState())`. -/
def run (reducer : CounterState ι τ → Action → τ → CounterState ι τ) (dispatches : List (Action × τ)) :
    CounterState ι τ :=
  dispatches.foldl (fun state d => reducer state d.1 d.2) .initial

/-- The clock readings of the increments, in dispatch order. -/
def clocks (dispatches : List (Action × τ)) : List τ :=
  (dispatches.filter fun d => d.1 = .increment).map Prod.snd

omit [OfNat ι 0] [OfNat ι 1] [Add ι] in
theorem clocks_concat (ds : List (Action × τ)) (d : Action × τ) :
    clocks (ds ++ [d]) = clocks ds ++ if d.1 = .increment then [d.2] else [] := by
  by_cases h : d.1 = .increment <;> simp [clocks, List.filter_append, h]

omit [OfNat ι 0] [OfNat ι 1] [Add ι] in
/-- Only increments, each at its clock reading. -/
theorem clocks_increments (ts : List τ) : clocks (ts.map fun t => (Action.increment, t)) = ts := by
  simp [clocks, List.filter_map, Function.comp_def]

variable [Sub τ] [LT τ] [DecidableLT τ] {windowDuration : τ} {rateOf : Nat → ℚ}

theorem run_concat (ds : List (Action × τ)) (d : Action × τ) :
    run (reduce (ι := ι) windowDuration rateOf) (ds ++ [d]) =
      reduce windowDuration rateOf (run (reduce windowDuration rateOf) ds) d.1 d.2 := by
  simp [run]

/-- The timestamps of a run are the window its clock readings fill. -/
theorem run_fill (ds : List (Action × τ)) :
    (run (ι := ι) (reduce windowDuration rateOf) ds).timestamps = fill (inWindow windowDuration) (clocks ds) := by
  induction ds using List.reverseRecOn with
  | nil => rfl
  | append_singleton ds d ih =>
    rw [run_concat, clocks_concat]
    cases hd : d.1 with
    | increment => simp only [reduce, increment, ih, if_true, fill_concat, push]
    | other => simpa [reduce] using ih

/-- **The window of a run** holds exactly the increments that every later increment keeps. -/
theorem run_timestamps (ds : List (Action × τ)) :
    (run (ι := ι) (reduce windowDuration rateOf) ds).timestamps =
      survivors (inWindow windowDuration) (clocks ds) := by
  rw [run_fill, fill_eq_survivors]

/-- The rate is always the one of the current window. -/
theorem run_rate (h0 : rateOf 0 = 0) (ds : List (Action × τ)) :
    (run (ι := ι) (reduce windowDuration rateOf) ds).rate =
      rateOf (run (ι := ι) (reduce windowDuration rateOf) ds).timestamps.length := by
  induction ds using List.reverseRecOn with
  | nil => exact h0.symm
  | append_singleton ds d ih =>
    rw [run_concat]
    cases hd : d.1 with
    | increment => rfl
    | other => exact ih

/-- The counter has been incremented once per increment. -/
theorem run_counter (ds : List (Action × τ)) :
    (run (ι := ι) (reduce windowDuration rateOf) ds).counter = (· + 1)^[(clocks ds).length] 0 := by
  induction ds using List.reverseRecOn with
  | nil => rfl
  | append_singleton ds d ih =>
    rw [run_concat, clocks_concat]
    cases hd : d.1 with
    | increment => simp [reduce, increment, ih, Function.iterate_succ_apply']
    | other => simpa [reduce] using ih

end run

end CrossplatformBenchmark
