import CrossplatformBenchmark.Counter.Reducer

/-!
# The Kotlin store's moving window

`Counter.kt:33-61` filters an already filtered list against the newest clock reading. With any
clock readings, in any order, and any other actions in between, `timestamps` holds exactly the
readings that every later increment keeps (`kotlin_window`).

The test is `it > currentTime - WINDOW_DURATION_MS` on `Long`s, and the subtraction wraps for a
reading below `Long.MIN_VALUE + 5000`: such an increment evicts everything but the top of the
`Long` range, the readings inside its own window included (`kotlin_window_wraps`). Away from
there (`NoWrap`) the test is the one on integers, `inWindow_toInt`.
-/

namespace CrossplatformBenchmark

open SlidingWindow

/-! ## `Long` arithmetic against exact arithmetic -/

/-- `currentTime - WINDOW_DURATION_MS` stays in the range of `Long`. -/
def NoWrap (currentTime : Int64) : Prop := Int64.minValue.toInt + 5000 ≤ currentTime.toInt

instance : DecidablePred NoWrap := fun t => by unfold NoWrap; infer_instance

theorem toInt_windowDurationMs : (Kotlin.windowDurationMs : Int64).toInt = 5000 := by decide

theorem toInt_sub_window {t : Int64} (h : NoWrap t) : (t - Kotlin.windowDurationMs).toInt = t.toInt - 5000 := by
  have hlo : Int64.minValue.toInt = -2 ^ 63 := Int64.toInt_minValue
  have hhi := t.toInt_lt
  unfold NoWrap at h
  rw [Int64.toInt_sub, toInt_windowDurationMs]
  exact Int.bmod_eq_of_le (by omega) (by omega)

/-- Below the limit the threshold wraps to the top of the range. -/
theorem toInt_sub_window_of_wrap {t : Int64} (h : ¬ NoWrap t) :
    (t - Kotlin.windowDurationMs).toInt = t.toInt - 5000 + 2 ^ 64 := by
  have hlo : Int64.minValue.toInt = -2 ^ 63 := Int64.toInt_minValue
  have hge := t.le_toInt
  unfold NoWrap at h
  rw [Int64.toInt_sub, toInt_windowDurationMs, ← Int.add_bmod_right]
  exact Int.bmod_eq_of_le (by omega) (by omega)

theorem inWindow_iff {it now : Int64} :
    inWindow Kotlin.windowDurationMs it now = true ↔ (now - Kotlin.windowDurationMs).toInt < it.toInt := by
  rw [inWindow, decide_eq_true_iff, gt_iff_lt, Int64.lt_iff_toInt_lt]

/-- **No wrap, no difference.** The `Long` test is the test on integers. -/
theorem inWindow_toInt {it now : Int64} (h : NoWrap now) :
    inWindow Kotlin.windowDurationMs it now = inWindow (Kotlin.windowDurationMs : ℤ) it.toInt now.toInt := by
  rw [Bool.eq_iff_iff, inWindow_iff, toInt_sub_window h]
  simp [inWindow, Kotlin.windowDurationMs]

/-- The machine's window is the exact one, reading by reading. -/
theorem survivors_toInt {ts : List Int64} (h : ∀ t ∈ ts, NoWrap t) :
    (survivors (inWindow Kotlin.windowDurationMs) ts).map Int64.toInt =
      survivors (inWindow (Kotlin.windowDurationMs : ℤ)) (ts.map Int64.toInt) := by
  rw [survivors_map, survivors_congr fun a _ b hb => inWindow_toInt (h b hb)]

/-! ## Counter and rate -/

theorem toInt_iterate_succ (n : Nat) : ((· + 1)^[n] (0 : Int32)).toInt = (n : ℤ).bmod (2 ^ 32) := by
  induction n with
  | zero => decide
  | succ n ih =>
    rw [Function.iterate_succ_apply', Int32.toInt_add, ih, show (1 : Int32).toInt = 1 by decide]
    simp

theorem kotlin_rate_eq (size : Nat) : Kotlin.rate size = if 1 < size then (size : ℚ) / 5 else 0 := by
  unfold Kotlin.rate Kotlin.windowDurationMs
  split <;> norm_num

/-- The counter of a run: the increments, in 32 bits. -/
theorem kotlin_run_counter (ds : List (Action × Int64)) :
    (run Kotlin.counterReducer ds : CounterState Int32 Int64).counter.toInt = ((clocks ds).length : ℤ).bmod (2 ^ 32) := by
  have hc : (run Kotlin.counterReducer ds : CounterState Int32 Int64).counter = (· + 1)^[(clocks ds).length] 0 :=
    run_counter ds
  rw [hc, toInt_iterate_succ]

/-- The rate of a run is read off its window. -/
theorem kotlin_run_rate (ds : List (Action × Int64)) :
    let s : CounterState Int32 Int64 := run Kotlin.counterReducer ds
    s.rate = if 1 < s.timestamps.length then (s.timestamps.length : ℚ) / 5 else 0 := by
  intro s
  rw [← kotlin_rate_eq]
  exact run_rate rfl ds

/-! ## The window of a run -/

/-- Positions `i` with `tᵢ > tⱼ - 5000` for every later `j`, in exact arithmetic. -/
def kept (t : List Int64) : List (Fin t.length) :=
  (List.finRange t.length).filter fun i => ∀ j, i < j → (t.get i).toInt > (t.get j).toInt - 5000

/-- The same with the subtraction of `Long`s. -/
def keptLong (t : List Int64) : List (Fin t.length) :=
  (List.finRange t.length).filter fun i => ∀ j, i < j → t.get i > t.get j - 5000

theorem keptLong_eq_retained (t : List Int64) : keptLong t = retained (inWindow Kotlin.windowDurationMs) t := by
  unfold keptLong retained
  refine List.filter_congr fun i _ => ?_
  simp [inWindow, Kotlin.windowDurationMs]

theorem keptLong_eq_kept {t : List Int64} (h : ∀ c ∈ t, NoWrap c) : keptLong t = kept t := by
  unfold keptLong kept
  refine List.filter_congr fun i _ => decide_eq_decide.2 (forall₂_congr fun j _ => ?_)
  have hw := toInt_sub_window (h _ (List.get_mem t j))
  rw [gt_iff_lt, Int64.lt_iff_toInt_lt, gt_iff_lt]
  exact Eq.to_iff (congrArg (· < (t.get i).toInt) hw)

/-- With nondecreasing readings one filter against the last reading is enough. Only readings inside its window
need their own threshold not to wrap: what an older one evicts is outside. -/
theorem survivors_sorted {t : List Int64} {now : Int64}
    (h : ∀ c ∈ t, now.toInt - 5000 < c.toInt → NoWrap c) (hs : t.Pairwise (· ≤ ·))
    (hlast : t.getLast? = some now) : survivors (inWindow Kotlin.windowDurationMs) t =
      t.filter fun c => c.toInt > now.toInt - 5000 := by
  have hle : ∀ b ∈ t, b.toInt ≤ now.toInt := fun b hb =>
    Int64.le_iff_toInt_le.1 (rel_last hs hlast (Int64.le_refl now) b hb)
  have hnow := h now (List.mem_of_getLast? hlast) (by omega)
  have htest : ∀ {a b : Int64}, NoWrap b →
      (inWindow Kotlin.windowDurationMs a b = true ↔ b.toInt - 5000 < a.toInt) := by
    intro a b hb
    rw [inWindow_iff, toInt_sub_window hb]
  rw [survivors_of_last hlast ((htest hnow).2 (by omega))]
  · refine List.filter_congr fun a _ => ?_
    rw [Bool.eq_iff_iff, htest hnow, decide_eq_true_iff, gt_iff_lt]
  · refine hs.imp_of_mem fun {a b} _ hb hab hk => ?_
    have ha := (htest hnow).1 hk
    have hab := Int64.le_iff_toInt_le.1 hab
    have := hle b hb
    exact (htest (h b hb (by omega))).2 (by omega)

/-- **The moving window of the Kotlin store**, for every run of dispatches and every clock. The
first three parts hold for all `Long` readings, the test being the one on `Long`s; when no
reading is within 5000 of `Long.MIN_VALUE` it is the test on integers. For nondecreasing
readings, when none above `last - 5000` is there, the window is the suffix of these. -/
theorem kotlin_window (ds : List (Action × Int64)) :
    let s : CounterState Int32 Int64 := run Kotlin.counterReducer ds
    let t := clocks ds
    s.timestamps = (keptLong t).map t.get ∧
    s.counter.toInt = (t.length : ℤ).bmod (2 ^ 32) ∧
    s.rate = (if 1 < s.timestamps.length then (s.timestamps.length : ℚ) / 5 else 0) ∧
    ((∀ c ∈ t, NoWrap c) → s.timestamps = (kept t).map t.get) ∧
    ∀ last, t.getLast? = some last → t.Pairwise (· ≤ ·) → (∀ c ∈ t, last.toInt - 5000 < c.toInt → NoWrap c) →
      s.timestamps = t.filter (fun c => c.toInt > last.toInt - 5000) ∧ s.timestamps <:+ t := by
  intro s t
  have hts : s.timestamps = survivors (inWindow Kotlin.windowDurationMs) t := run_timestamps ds
  have hlong : s.timestamps = (keptLong t).map t.get := by
    rw [hts, survivors_eq_map, keptLong_eq_retained]
  refine ⟨hlong, kotlin_run_counter ds, kotlin_run_rate ds, fun hnw => ?_, fun last hlast hs hnw => ?_⟩
  · rw [hlong, keptLong_eq_kept hnw]
  · have hf := survivors_sorted hnw hs hlast
    rw [hts, hf]
    refine ⟨rfl, filter_suffix (hs.imp fun {a b} hab ha => ?_)⟩
    have := Int64.le_iff_toInt_le.1 hab
    simp only [gt_iff_lt, decide_eq_true_eq] at ha ⊢
    omega

/-- A run with an eviction on the boundary, an old reading and another action. -/
theorem kotlin_window_boundary :
    let ds : List (Action × Int64) := [(.increment, 0), (.increment, 1), (.other, 7), (.increment, 5000)]
    (run Kotlin.counterReducer ds : CounterState Int32 Int64).timestamps = [1, 5000] ∧ [1, 5000] <:+ clocks ds := by
  intro ds
  have hc : clocks ds = [0, 1, 5000] := by decide
  have hn : ∀ c ∈ clocks ds, NoWrap c := by
    rw [hc]
    simp only [List.forall_mem_cons, List.not_mem_nil, false_imp_iff, implies_true, and_true]
    decide
  obtain ⟨hf, hs⟩ := (kotlin_window ds).2.2.2.2 5000 (by decide) (by decide) fun c hc _ => hn c hc
  have e : (clocks ds).filter (fun c => c.toInt > (5000 : Int64).toInt - 5000) = [1, 5000] := by decide
  rw [hf, e] at hs
  exact ⟨hf.trans e, hs⟩

/-- **Next to `Long.MIN_VALUE` the window loses readings inside it.** Two equal readings there:
the second evicts the first, although both are above `tⱼ - 5000`; and the one left is not above
`tₙ - 5000` as the code computes it, so neither reading of the filter describes the result. -/
theorem kotlin_window_wraps :
    let t : List Int64 := [Int64.minValue, Int64.minValue]
    let s : CounterState Int32 Int64 := run Kotlin.counterReducer (t.map fun c => (.increment, c))
    s.timestamps = [Int64.minValue] ∧
    (kept t).map t.get = [Int64.minValue, Int64.minValue] ∧
    t.filter (fun c => c.toInt > Int64.minValue.toInt - 5000) = [Int64.minValue, Int64.minValue] ∧
    t.filter (fun c => c > Int64.minValue - 5000) = [] := by
  decide

end CrossplatformBenchmark
