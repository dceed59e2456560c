import CrossplatformBenchmark.Counter.Window

/-!
# A wall clock that is set back

`System.currentTimeMillis`, `NSDate`, `new Date` and `Date()` are wall clocks, and the filter of the three
reducers (Counter.kt:42-44, Counter.tsx:35-37, CounterApp.swift:76) tests one side of the window only: a reading
taken before the clock was set back is ahead of the current time, passes the test and is counted.

* `windowed_iff` — the windows of a run are windows exactly when no reading that the filter would keep is ahead
  of the next one.
* `window_holds_iff` — for the three reducers. In exact arithmetic that is a clock that is never set back; on
  `Long`s a step back is harmless when the threshold wraps above the reading before it.
-/

namespace CrossplatformBenchmark

open SlidingWindow

section windowed

variable {ι τ : Type} [OfNat ι 0] [OfNat ι 1] [Add ι]

/-- After every increment of the run, each retained timestamp is `inside` the window of that increment's reading. -/
def Windowed (reducer : CounterState ι τ → Action → τ → CounterState ι τ) (inside : τ → τ → Prop)
    (ds : List (Action × τ)) : Prop :=
  ∀ pre now, pre ++ [(.increment, now)] <+: ds →
    ∀ it ∈ (run reducer (pre ++ [(.increment, now)])).timestamps, inside it now

omit [OfNat ι 1] [Add ι] in
theorem windowed_concat {reducer : CounterState ι τ → Action → τ → CounterState ι τ} {inside : τ → τ → Prop}
    {ds : List (Action × τ)} {d : Action × τ} : Windowed reducer inside (ds ++ [d]) ↔ Windowed reducer inside ds ∧
      (d.1 = .increment → ∀ it ∈ (run reducer (ds ++ [d])).timestamps, inside it d.2) := by
  constructor
  · intro h
    refine ⟨fun pre now hp => h pre now (hp.trans (List.prefix_append ds [d])), fun hd => ?_⟩
    have he : d = (.increment, d.2) := Prod.ext hd rfl
    rw [he]
    exact h ds d.2 (by rw [← he])
  · rintro ⟨h, hd⟩ pre now hp
    rcases List.prefix_concat_iff.1 hp with he | hp
    · obtain ⟨rfl, hl⟩ := List.append_inj' he rfl
      obtain rfl := List.singleton_inj.1 hl
      exact hd rfl
    · exact h pre now hp

variable [Sub τ] [LT τ] [DecidableLT τ] {windowDuration : τ} {rateOf : Nat → ℚ} {inside : τ → τ → Prop}

/-- Other actions leave the window alone: the windows of a run are those of its clock readings. -/
theorem windowed_iff_bounded (ds : List (Action × τ)) :
    Windowed (ι := ι) (reduce windowDuration rateOf) inside ds ↔
      Bounded inside (inWindow windowDuration) (clocks ds) := by
  induction ds using List.reverseRecOn with
  | nil =>
    constructor
    · intro _ pre now hp
      exact absurd (List.prefix_nil.1 hp) (by simp)
    · intro _ pre now hp
      exact absurd (List.prefix_nil.1 hp) (by simp)
  | append_singleton ds d ih =>
    rw [windowed_concat, clocks_concat, ih]
    by_cases hd : d.1 = .increment
    · rw [if_pos hd, bounded_concat, run_fill, clocks_concat, if_pos hd]
      simp only [hd, true_imp_iff]
    · rw [if_neg hd, List.append_nil]
      simp only [hd, false_imp_iff, and_true]

/-- What the filter keeps, and the reading appended to it, need only be compared with the clock. -/
theorem windowed_iff {le : τ → τ → Prop} (hin : ∀ {it now}, inWindow windowDuration it now = true ∨ it = now →
      (inside it now ↔ le it now))
    (hrefl : ∀ a, le a a) (htrans : ∀ a b c, le a b → le b c → le a c)
    (hkeep : ∀ a b c, le a b → inWindow windowDuration a c = true → inWindow windowDuration b c = true)
    (ds : List (Action × τ)) : Windowed (ι := ι) (reduce windowDuration rateOf) inside ds ↔
      (clocks ds).IsChain fun a b => inWindow windowDuration a b = true → le a b := by
  rw [windowed_iff_bounded, ← bounded_fill_iff hrefl htrans hkeep]
  refine forall₃_congr fun pre now _ => forall₂_congr fun t ht => hin ?_
  rw [fill_concat, push, List.mem_append, List.mem_filter, List.mem_singleton] at ht
  exact ht.imp_left And.right

end windowed

/-! ## The three reducers -/

/-- The window `(now - 5000, now]` of a Kotlin reading, in exact arithmetic. -/
def insideKotlin (it now : Int64) : Prop := now.toInt - 5000 < it.toInt ∧ it.toInt ≤ now.toInt

/-- The window `(now - 5000, now]` of a TypeScript reading. -/
def insideTypeScript (it now : ℤ) : Prop := now - 5000 < it ∧ it ≤ now

/-- The window `(now - 5, now]` of a Swift reading, in seconds. -/
def insideSwift (it now : ℚ) : Prop := now - 5 < it ∧ it ≤ now

theorem kotlin_inside {it now : Int64} (h : inWindow Kotlin.windowDurationMs it now = true ∨ it = now) :
    insideKotlin it now ↔ it ≤ now := by
  unfold insideKotlin
  rw [Int64.le_iff_toInt_le, and_iff_right_iff_imp]
  intro _
  rcases h with h | rfl
  · -- a threshold that wraps is above the exact one, so the lower bound holds all the more
    rw [inWindow_iff] at h
    by_cases hw : NoWrap now
    · rwa [toInt_sub_window hw] at h
    · rw [toInt_sub_window_of_wrap hw] at h
      omega
  · omega

theorem kotlin_windowed_iff (ds : List (Action × Int64)) :
    Windowed (ι := Int32) Kotlin.counterReducer insideKotlin ds ↔
      (clocks ds).IsChain fun a b => a ≤ b ∨ a ≤ b - 5000 := by
  have h : Windowed (ι := Int32) Kotlin.counterReducer insideKotlin ds ↔
      (clocks ds).IsChain fun a b => inWindow Kotlin.windowDurationMs a b = true → a ≤ b := by
    refine windowed_iff kotlin_inside Int64.le_refl (fun a b c => Int64.le_trans) (fun a b c hab ha => ?_) ds
    rw [inWindow_iff] at ha ⊢
    exact ha.trans_le (Int64.le_iff_toInt_le.1 hab)
  rw [h]
  refine List.IsChain.iff fun a b => ?_
  simp only [inWindow, Kotlin.windowDurationMs, decide_eq_true_eq, gt_iff_lt, imp_iff_not_or, Int64.not_lt]
  exact or_comm

/-- A filter on exact numbers keeps everything that is ahead of the clock. -/
theorem exact_windowed_iff {G : Type} [AddCommGroup G] [LinearOrder G] [IsOrderedAddMonoid G] {w : G} (hw : 0 < w)
    {rateOf : Nat → ℚ} (ds : List (Action × G)) :
    Windowed (ι := ℤ) (reduce w rateOf) (fun it now => now - w < it ∧ it ≤ now) ds ↔
      (clocks ds).IsChain (· ≤ ·) := by
  rw [windowed_iff ?_ le_refl (fun a b c => le_trans) ?_]
  · refine List.IsChain.iff fun a b => ?_
    simp only [inWindow, decide_eq_true_eq, gt_iff_lt]
    constructor
    · intro h
      by_contra hn
      exact hn (h ((sub_lt_self b hw).trans (not_le.1 hn)))
    · exact fun h _ => h
  · rintro it now (h | rfl)
    · simp only [inWindow, decide_eq_true_eq, gt_iff_lt] at h
      exact and_iff_right h
    · exact and_iff_right (sub_lt_self it hw)
  · intro a b c hab ha
    simp only [inWindow, decide_eq_true_eq, gt_iff_lt] at ha ⊢
    exact ha.trans_le hab

/-- **The window under any wall clock.** The TypeScript and Swift reducers keep only readings of the last five
seconds, after every increment, exactly when no reading is below the one before it. So does the Kotlin reducer,
but for a reading whose threshold wraps to the one before it or above: that one evicts it. -/
theorem window_holds_iff (kt : List (Action × Int64)) (ts : List (Action × ℤ)) (sw : List (Action × ℚ)) :
    (Windowed (ι := Int32) Kotlin.counterReducer insideKotlin kt ↔
      (clocks kt).IsChain fun a b => a ≤ b ∨ a ≤ b - 5000) ∧
    (Windowed TypeScript.counterReducer insideTypeScript ts ↔ (clocks ts).IsChain (· ≤ ·)) ∧
    (Windowed Swift.counterReducer insideSwift sw ↔ (clocks sw).IsChain (· ≤ ·)) := by
  refine ⟨kotlin_windowed_iff kt, ?_, ?_⟩
  · exact exact_windowed_iff (by decide : (0 : ℤ) < TypeScript.windowDurationMs) ts
  · exact exact_windowed_iff (by norm_num [Swift.windowDuration] : (0 : ℚ) < Swift.windowDuration) sw

/-- **One second back** is enough: the reading before it is counted, though it is ahead of the clock. -/
theorem window_set_back :
    ¬ Windowed (ι := Int32) Kotlin.counterReducer insideKotlin [(.increment, 1000), (.increment, 0)] ∧
    ¬ Windowed TypeScript.counterReducer insideTypeScript [(.increment, 1000), (.increment, 0)] ∧
    ¬ Windowed Swift.counterReducer insideSwift [(.increment, 1), (.increment, 0)] := by
  refine ⟨fun h => ?_, fun h => ?_, fun h => ?_⟩
  · exact absurd (h [(.increment, 1000)] 0 List.prefix_rfl 1000 (by decide)).2 (by decide)
  · exact absurd (h [(.increment, 1000)] 0 List.prefix_rfl 1000 (by decide)).2 (by decide)
  · have hmem : (1 : ℚ) ∈ (run Swift.counterReducer [(.increment, 1), (.increment, 0)]).timestamps := by
      norm_num [run, Swift.counterReducer, reduce, increment, inWindow, Swift.windowDuration, CounterState.initial]
    exact absurd (h [(.increment, 1)] 0 List.prefix_rfl 1 hmem).2 (by norm_num)

/-- Away from `Long.MIN_VALUE` the three conditions are one. -/
theorem kotlin_windowed_iff_sorted {ds : List (Action × Int64)} (h : ∀ c ∈ clocks ds, NoWrap c) :
    Windowed (ι := Int32) Kotlin.counterReducer insideKotlin ds ↔ (clocks ds).IsChain (· ≤ ·) := by
  rw [kotlin_windowed_iff]
  refine List.IsChain.iff_of_mem_imp fun a b _ hb => or_iff_left_of_imp fun hab => ?_
  have hw : (b - 5000).toInt = b.toInt - 5000 := toInt_sub_window (h b hb)
  rw [Int64.le_iff_toInt_le] at hab ⊢
  omega

end CrossplatformBenchmark
