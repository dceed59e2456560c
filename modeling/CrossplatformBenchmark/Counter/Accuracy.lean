import CrossplatformBenchmark.Counter.Window

/-!
# How far the displayed rate is off

`Counter.kt:33-61`: the rate is the number of readings in the window over its five seconds. When the
gaps between increments lie between `a` and `b` milliseconds, `m` readings fit the window only if
`(m - 1) * a < 5000`, and fill it only if `5000 ≤ m * b`; so the rate is between `1000 / b` and
`1000 / a + 1 / 5` (`kotlin_accuracy`). Evenly spaced increments are the case `a = b`.

Readings next to `Long.MIN_VALUE` evict their own window, and the rate falls below the lower bound
(`kotlin_accuracy_wraps`).
-/

namespace CrossplatformBenchmark

open SlidingWindow

/-- The gaps of a run of clock readings, in exact arithmetic. -/
def GapsBetween (a b : ℤ) : List Int64 → Prop :=
  List.IsChain fun s t => a ≤ t.toInt - s.toInt ∧ t.toInt - s.toInt ≤ b

instance (a b : ℤ) : DecidablePred (GapsBetween a b) := fun ts => by unfold GapsBetween; infer_instance

theorem GapsBetween.spaced {a b : ℤ} {ts : List Int64} (h : GapsBetween a b ts) : Spaced a b (ts.map Int64.toInt) :=
  (List.isChain_map _).2 h

theorem GapsBetween.sorted {a b : ℤ} {ts : List Int64} (h : GapsBetween a b ts) (ha : 0 ≤ a) : ts.Pairwise (· ≤ ·) :=
  (List.pairwise_map.1 (h.spaced.sorted ha)).imp Int64.le_iff_toInt_le.2

/-- The number of readings in the window: `n` gaps fit into it and `n + 1` fill it. -/
theorem kotlin_window_length {ds : List (Action × Int64)} {a b : ℤ} {first last : Int64} (ha : 0 ≤ a)
    (hgaps : GapsBetween a b (clocks ds)) (hfirst : (clocks ds).head? = some first)
    (hlast : (clocks ds).getLast? = some last) (hspan : 5000 ≤ last.toInt - first.toInt)
    (hnw : ∀ t ∈ clocks ds, last.toInt - 5000 < t.toInt → NoWrap t) :
    ∃ n : ℕ, (run Kotlin.counterReducer ds : CounterState Int32 Int64).timestamps.length = n + 1 ∧
      n * a < 5000 ∧ 5000 ≤ (n + 1) * b := by
  have hts : (run Kotlin.counterReducer ds : CounterState Int32 Int64).timestamps =
      survivors (inWindow Kotlin.windowDurationMs) (clocks ds) := run_timestamps ds
  rw [hts, survivors_sorted hnw (hgaps.sorted ha) hlast]
  have hspaced := hgaps.spaced
  have hend : ((clocks ds).map Int64.toInt).getLast? = some last.toInt := by
    rw [List.getLast?_map, hlast, Option.map_some]
  have hcount : ((clocks ds).filter fun c => c.toInt > last.toInt - 5000).length =
      (((clocks ds).map Int64.toInt).filter (last.toInt - 5000 < ·)).length := by
    rw [List.filter_map, List.length_map]
    rfl
  rw [hcount]
  obtain ⟨rest, hrest⟩ := List.head?_eq_some_iff.1 hfirst
  rw [hrest, List.map_cons] at hspaced hend ⊢
  obtain ⟨n, hn, hlt, hle⟩ := length_spaced hspaced ha (by decide : (0 : ℤ) < 5000) hend (by omega)
  refine ⟨n, hn, ?_, ?_⟩
  · simpa using hlt
  · simpa using hle

/-- **Accuracy of the displayed rate.** The increments are at least `a` and at most `b` milliseconds apart and span
five seconds; no reading of the last five seconds is within 5000 of `Long.MIN_VALUE`. -/
theorem kotlin_accuracy (ds : List (Action × Int64)) (a b : ℤ) (first last : Int64) (ha : 1 ≤ a) (hb : b < 5000)
    (hgaps : GapsBetween a b (clocks ds)) (hfirst : (clocks ds).head? = some first)
    (hlast : (clocks ds).getLast? = some last) (hspan : 5000 ≤ last.toInt - first.toInt)
    (hnw : ∀ t ∈ clocks ds, last.toInt - 5000 < t.toInt → NoWrap t) :
    1000 / (b : ℚ) ≤ (run Kotlin.counterReducer ds : CounterState Int32 Int64).rate ∧
    (run Kotlin.counterReducer ds : CounterState Int32 Int64).rate < 1000 / (a : ℚ) + 1 / 5 := by
  obtain ⟨n, hlen, hlt, hle⟩ := kotlin_window_length (by omega) hgaps hfirst hlast hspan hnw
  -- one gap cannot fill the window, so the guard `size > 1` is passed
  have hn : 1 ≤ n := by
    by_contra hn
    obtain rfl : n = 0 := by omega
    norm_num at hle
    omega
  have hrate : (run Kotlin.counterReducer ds : CounterState Int32 Int64).rate = ((n : ℚ) + 1) / 5 := by
    rw [kotlin_run_rate ds, hlen, if_pos (by omega)]
    push_cast
    rfl
  have ha' : (0 : ℚ) < a := by exact_mod_cast (by omega : 0 < a)
  have hb' : (0 : ℚ) < b := by
    have : 0 < b := by nlinarith
    exact_mod_cast this
  have hlt' : (n : ℚ) * a < 5000 := by exact_mod_cast hlt
  have hle' : (5000 : ℚ) ≤ (n + 1) * b := by exact_mod_cast hle
  rw [hrate]
  constructor
  · rw [div_le_div_iff₀ hb' (by norm_num)]
    linarith
  · have h5 : (n : ℚ) / 5 < 1000 / a := by
      rw [div_lt_div_iff₀ (by norm_num) ha']
      linarith
    rw [add_div]
    linarith

/-- Evenly spaced increments, one a second: the rate over-reports by the fifth that the open end of the window
allows for. -/
theorem kotlin_accuracy_evenly :
    let ds : List (Action × Int64) := [0, 1000, 2000, 3000, 4000, 5000, 6000].map fun t => (.increment, t)
    1000 / (1000 : ℚ) ≤ (run Kotlin.counterReducer ds : CounterState Int32 Int64).rate ∧
    (run Kotlin.counterReducer ds : CounterState Int32 Int64).rate < 1000 / (1000 : ℚ) + 1 / 5 := by
  intro ds
  have hc : clocks ds = [0, 1000, 2000, 3000, 4000, 5000, 6000] := clocks_increments _
  have hn : ∀ t ∈ clocks ds, (6000 : Int64).toInt - 5000 < t.toInt → NoWrap t := by
    rw [hc]
    simp only [List.forall_mem_cons, List.not_mem_nil, false_imp_iff, implies_true, and_true]
    decide
  exact_mod_cast kotlin_accuracy ds 1000 1000 0 6000 (by decide) (by decide) (by rw [hc]; decide) (by rw [hc]; rfl)
    (by rw [hc]; rfl) (by decide) hn

/-- **Next to `Long.MIN_VALUE` the rate under-reports**: six increments a second apart, of which all but the last two
have been evicted by the threshold that wrapped. -/
theorem kotlin_accuracy_wraps :
    let t : List Int64 := [0, 1000, 2000, 3000, 4000, 5000].map (Int64.minValue + ·)
    let s : CounterState Int32 Int64 := run Kotlin.counterReducer (t.map fun c => (.increment, c))
    GapsBetween 1000 1000 t ∧ (Int64.minValue + 5000).toInt - Int64.minValue.toInt = 5000 ∧
    s.timestamps = [Int64.minValue + 4000, Int64.minValue + 5000] ∧ s.rate = 2 / 5 ∧ ¬ 1000 / (1000 : ℚ) ≤ s.rate := by
  intro t s
  have hts : s.timestamps = [Int64.minValue + 4000, Int64.minValue + 5000] := by decide
  have hrate : s.rate = 2 / 5 := by
    have h : s.rate = _ := kotlin_run_rate _
    rw [h, hts]
    norm_num
  refine ⟨by decide, by decide, hts, hrate, ?_⟩
  rw [hrate]
  norm_num

end CrossplatformBenchmark
