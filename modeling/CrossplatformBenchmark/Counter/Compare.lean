import CrossplatformBenchmark.Counter.Window

/-!
# One benchmark, three reducers

The frameworks are compared by the figure their reducer reports, so the reducers are compared
here on one clock.

* Compose against React Native: the same counter and the same window; the rates agree except
  while the window holds a single reading, where Kotlin's `size > 1` guard gives 0 and
  TypeScript, which has no guard, gives 1/5 (`kotlin_typescript`).
* Compose on iOS against SwiftUI: `IOSPlatform.currentTimeMillis` truncates to milliseconds
  and the Swift reducer does not, so Kotlin's window is contained in Swift's, and what it misses
  is less than a millisecond inside the edge (`kotlin_ios_swift`).
-/

namespace CrossplatformBenchmark

open SlidingWindow

/-! ## The Kotlin reducer on exact integers -/

/-- The dispatches with their clock readings seen through `f`. -/
def reclock {τ ρ : Type} (f : ρ → τ) (ds : List (Action × ρ)) : List (Action × τ) := ds.map fun d => (d.1, f d.2)

theorem clocks_reclock {τ ρ : Type} (f : ρ → τ) (ds : List (Action × ρ)) : clocks (reclock f ds) = (clocks ds).map f := by
  simp [clocks, reclock, List.filter_map, Function.comp_def]

/-- **The machine refines the exact reducer**: away from `Long.MIN_VALUE` its window and rate are
those of the same reducer on integers. -/
theorem kotlin_refines_exact {ds : List (Action × Int64)} (h : ∀ c ∈ clocks ds, NoWrap c) :
    let s : CounterState Int32 Int64 := run Kotlin.counterReducer ds
    let e : CounterState Int32 ℤ := run Kotlin.counterReducer (reclock Int64.toInt ds)
    s.timestamps.map Int64.toInt = e.timestamps ∧ s.rate = e.rate := by
  intro s e
  have hs : s.timestamps = survivors (inWindow Kotlin.windowDurationMs) (clocks ds) := run_timestamps ds
  have he : e.timestamps = survivors (inWindow Kotlin.windowDurationMs) (clocks (reclock Int64.toInt ds)) :=
    run_timestamps _
  have hmap : s.timestamps.map Int64.toInt = e.timestamps := by
    rw [hs, he, clocks_reclock, survivors_toInt h]
  have hrs : s.rate = Kotlin.rate s.timestamps.length := run_rate rfl ds
  have hre : e.rate = Kotlin.rate e.timestamps.length := run_rate rfl _
  exact ⟨hmap, by rw [hrs, hre, ← hmap, List.length_map]⟩

/-! ## Compose and React Native -/

/-- What `Date.prototype.getTime` can return: a time value of ECMAScript. -/
structure TimeValue where
  ms : ℤ
  lo : -8640000000000000 ≤ ms
  hi : ms ≤ 8640000000000000

/-- The same reading as a Kotlin `Long`. -/
def TimeValue.toLong (t : TimeValue) : Int64 := Int64.ofInt t.ms

theorem TimeValue.toInt_toLong (t : TimeValue) : t.toLong.toInt = t.ms := by
  have := t.lo
  have := t.hi
  rw [TimeValue.toLong, Int64.toInt_ofInt]
  exact Int.bmod_eq_of_le (by simp [Int64.size]; omega) (by simp [Int64.size]; omega)

theorem TimeValue.noWrap (t : TimeValue) : NoWrap t.toLong := by
  have := t.lo
  have hlo : Int64.minValue.toInt = -2 ^ 63 := Int64.toInt_minValue
  rw [NoWrap, t.toInt_toLong, hlo]
  omega

/-- Two decimals are enough for a fifth: `toFixed(2)` and `parseFloat` lose nothing. -/
theorem typescript_rate_eq (length : Nat) : TypeScript.rate length = (length : ℚ) / 5 := by
  have hx : (length : ℚ) / ((TypeScript.windowDurationMs : ℤ) / 1000) = length / 5 := by
    unfold TypeScript.windowDurationMs
    norm_num
  have hnn : ¬ (length : ℚ) / 5 < 0 := not_lt.2 (by positivity)
  have hfloor : ⌊(length : ℚ) / 5 * 10 ^ 2 + 1 / 2⌋ = 20 * (length : ℤ) := by
    rw [Int.floor_eq_iff]
    push_cast
    constructor <;> linarith
  rw [TypeScript.rate, hx, TypeScript.toFixed, if_neg hnn, hfloor, TypeScript.parseFloat]
  push_cast
  ring

theorem iterate_succ_int (n : Nat) : (· + 1)^[n] (0 : ℤ) = n := by
  induction n with
  | zero => rfl
  | succ n ih => rw [Function.iterate_succ_apply', ih]; push_cast; rfl

/-- **Compose against React Native.** On the same actions and clock readings, with fewer than
2^31 increments, the reducers hold after every action the same counter and the same window. They
report the same rate exactly while that window does not hold a single reading; when it does,
Kotlin reports 0 and TypeScript 1/5. -/
theorem kotlin_typescript (ds : List (Action × TimeValue)) (hn : (clocks ds).length < 2 ^ 31) (k : Nat) :
    let kt : CounterState Int32 Int64 := run Kotlin.counterReducer (reclock TimeValue.toLong (ds.take k))
    let ts := run TypeScript.counterReducer (reclock TimeValue.ms (ds.take k))
    kt.counter.toInt = ts.counter ∧ kt.timestamps.map Int64.toInt = ts.timestamps ∧
    (kt.rate = ts.rate ↔ kt.timestamps.length ≠ 1) ∧
    (kt.timestamps.length = 1 → kt.rate = 0 ∧ ts.rate = 1 / 5) := by
  intro kt ts
  have hlen : (clocks (ds.take k)).length < 2 ^ 31 := by
    have hsub : (clocks (ds.take k)).Sublist (clocks ds) := ((List.take_sublist k ds).filter _).map _
    exact Nat.lt_of_le_of_lt hsub.length_le hn
  have hck : clocks (reclock TimeValue.toLong (ds.take k)) = (clocks (ds.take k)).map TimeValue.toLong :=
    clocks_reclock _ _
  have hct : clocks (reclock TimeValue.ms (ds.take k)) = (clocks (ds.take k)).map TimeValue.ms := clocks_reclock _ _
  have hnw : ∀ c ∈ clocks (reclock TimeValue.toLong (ds.take k)), NoWrap c := by
    intro c hc
    rw [hck] at hc
    obtain ⟨t, -, rfl⟩ := List.mem_map.1 hc
    exact t.noWrap
  have hcounter : kt.counter.toInt = ts.counter := by
    have h1 : kt.counter.toInt = _ := kotlin_run_counter _
    have h2 : ts.counter = (· + 1)^[(clocks (reclock TimeValue.ms (ds.take k))).length] 0 := run_counter _
    rw [h1, h2, hck, hct, List.length_map, List.length_map, iterate_succ_int]
    exact Int.bmod_eq_of_le (by omega) (by omega)
  have hwin : kt.timestamps.map Int64.toInt = ts.timestamps := by
    have h1 : kt.timestamps = survivors (inWindow Kotlin.windowDurationMs) (clocks (reclock TimeValue.toLong (ds.take k))) :=
      run_timestamps _
    have h2 : ts.timestamps = survivors (inWindow TypeScript.windowDurationMs) (clocks (reclock TimeValue.ms (ds.take k))) :=
      run_timestamps _
    rw [h1, h2, survivors_toInt hnw, hck, hct, List.map_map]
    congr 1
    exact List.map_congr_left fun t _ => t.toInt_toLong
  have hkr : kt.rate = if 1 < kt.timestamps.length then (kt.timestamps.length : ℚ) / 5 else 0 := kotlin_run_rate _
  have htr : ts.rate = (kt.timestamps.length : ℚ) / 5 := by
    have h0 : ts.rate = TypeScript.rate ts.timestamps.length :=
      run_rate (by rw [typescript_rate_eq]; norm_num) _
    rw [h0, typescript_rate_eq, ← hwin, List.length_map]
  refine ⟨hcounter, hwin, ?_, fun h1 => ?_⟩
  · rw [hkr, htr]
    by_cases h1 : 1 < kt.timestamps.length
    · rw [if_pos h1]
      exact ⟨fun _ => by omega, fun _ => rfl⟩
    · rw [if_neg h1, eq_comm, div_eq_zero_iff, Nat.cast_eq_zero, or_iff_left (by norm_num)]
      omega
  · rw [hkr, htr, h1]
    norm_num

/-- A pause longer than the window, after a first increment. -/
def pause : List (Action × TimeValue) :=
  [(.increment, ⟨1000, by decide, by decide⟩), (.other, ⟨1500, by decide, by decide⟩),
   (.increment, ⟨2000, by decide, by decide⟩), (.increment, ⟨7000, by decide, by decide⟩)]

theorem kotlin_typescript_pause :
    let kt : CounterState Int32 Int64 := run Kotlin.counterReducer (reclock TimeValue.toLong (pause.take 4))
    let ts := run TypeScript.counterReducer (reclock TimeValue.ms (pause.take 4))
    kt.counter.toInt = ts.counter ∧ kt.rate = 0 ∧ ts.rate = 1 / 5 := by
  intro kt ts
  obtain ⟨hc, -, -, h1⟩ := kotlin_typescript pause (by decide) 4
  exact ⟨hc, h1 (by decide)⟩

/-- **The figures differ after the very first increment**: 0 in Compose, 0.2 in React Native. -/
theorem kotlin_typescript_first_increment :
    (run Kotlin.counterReducer [(.increment, 0)] : CounterState Int32 Int64).rate = 0 ∧
    (run TypeScript.counterReducer [(.increment, 0)]).rate = 1 / 5 := by
  refine ⟨by decide, ?_⟩
  have h : (run TypeScript.counterReducer [(.increment, 0)]).rate = TypeScript.rate 1 := rfl
  rw [h, typescript_rate_eq]
  norm_num

/-! ## Compose on iOS and SwiftUI -/

/-- `Double.toLong()` without its saturation: towards zero. -/
def truncate (x : ℚ) : ℤ := if 0 ≤ x then ⌊x⌋ else ⌈x⌉

/-- `IOSPlatform.currentTimeMillis` (Platform.ios.kt:15-18). -/
def iosCurrentTimeMillis (timeIntervalSince1970 : ℚ) : ℤ := truncate (timeIntervalSince1970 * 1000)

/-- Positions of the readings the Kotlin reducer still holds, read through the iOS clock. -/
def keptKotlin (xs : List ℚ) : List (Fin xs.length) :=
  retained (fun a b => inWindow Kotlin.windowDurationMs (iosCurrentTimeMillis a) (iosCurrentTimeMillis b)) xs

/-- Positions of the readings the Swift reducer still holds. -/
def keptSwift (xs : List ℚ) : List (Fin xs.length) := retained (inWindow Swift.windowDuration) xs

theorem iosCurrentTimeMillis_bounds {x : ℚ} (h : 0 ≤ x) :
    (iosCurrentTimeMillis x : ℚ) ≤ x * 1000 ∧ x * 1000 < iosCurrentTimeMillis x + 1 := by
  have h0 : 0 ≤ x * 1000 := by positivity
  rw [iosCurrentTimeMillis, truncate, if_pos h0]
  exact ⟨Int.floor_le _, Int.lt_floor_add_one _⟩

/-- Kotlin keeping a reading means Swift keeps it. -/
theorem swift_keeps {a b : ℚ} (ha : 0 ≤ a) (hb : 0 ≤ b)
    (h : inWindow (Kotlin.windowDurationMs : ℤ) (iosCurrentTimeMillis a) (iosCurrentTimeMillis b) = true) :
    inWindow Swift.windowDuration a b = true := by
  obtain ⟨ha1, -⟩ := iosCurrentTimeMillis_bounds ha
  obtain ⟨-, hb2⟩ := iosCurrentTimeMillis_bounds hb
  simp only [inWindow, Kotlin.windowDurationMs, gt_iff_lt, decide_eq_true_eq, Swift.windowDuration] at h ⊢
  have hq : (iosCurrentTimeMillis b : ℚ) - 5000 + 1 ≤ iosCurrentTimeMillis a := by exact_mod_cast h
  linarith

/-- A reading Swift keeps and Kotlin drops is between 4.999 s and 5 s old. -/
theorem edge_band {a b : ℚ} (ha : 0 ≤ a) (hb : 0 ≤ b)
    (hk : ¬ inWindow (Kotlin.windowDurationMs : ℤ) (iosCurrentTimeMillis a) (iosCurrentTimeMillis b) = true)
    (hs : inWindow Swift.windowDuration a b = true) : 4.999 < b - a ∧ b - a < 5 := by
  obtain ⟨-, ha2⟩ := iosCurrentTimeMillis_bounds ha
  obtain ⟨hb1, -⟩ := iosCurrentTimeMillis_bounds hb
  simp only [inWindow, Kotlin.windowDurationMs, gt_iff_lt, decide_eq_true_eq, not_lt] at hk
  simp only [inWindow, gt_iff_lt, decide_eq_true_eq, Swift.windowDuration] at hs
  have hq : (iosCurrentTimeMillis a : ℚ) ≤ iosCurrentTimeMillis b - 5000 := by exact_mod_cast hk
  constructor <;> norm_num <;> linarith

theorem kotlin_rate_le_swift {m n : Nat} (h : m ≤ n) : Kotlin.rate m ≤ Swift.rate n := by
  rw [kotlin_rate_eq, Swift.rate, Swift.windowDuration]
  have hq : (m : ℚ) ≤ n := by exact_mod_cast h
  by_cases h1 : 1 < m
  · rw [if_pos h1, if_pos (by omega)]
    linarith
  · rw [if_neg h1]
    split
    · positivity
    · exact le_refl 0

/-- **Clock granularity.** For increments at any non-negative instants, after each of them:
`keptKotlin` and `keptSwift` are the increments the two reducers hold; every one Kotlin holds
Swift holds, so Kotlin's rate never exceeds Swift's; and one that only Swift holds has a later
increment more than 4.999 s and less than 5 s after it. -/
theorem kotlin_ios_swift (instants : List ℚ) (h0 : ∀ x ∈ instants, 0 ≤ x) (k : Nat) :
    let increments : List (Action × ℚ) := (instants.take k).map fun x => (.increment, x)
    let xs := instants.take k
    let kt : CounterState Int32 ℤ := run Kotlin.counterReducer (reclock iosCurrentTimeMillis increments)
    let sw := run Swift.counterReducer increments
    kt.timestamps = (keptKotlin xs).map (fun i => iosCurrentTimeMillis (xs.get i)) ∧
    sw.timestamps = (keptSwift xs).map xs.get ∧
    (keptKotlin xs).Sublist (keptSwift xs) ∧ kt.rate ≤ sw.rate ∧
    ∀ i ∈ keptSwift xs, i ∉ keptKotlin xs →
      ∃ j, i < j ∧ 4.999 < xs.get j - xs.get i ∧ xs.get j - xs.get i < 5 := by
  intro increments xs kt sw
  have hpos : ∀ i : Fin xs.length, 0 ≤ xs.get i := fun i => h0 _ (List.mem_of_mem_take (List.get_mem xs i))
  have hkt : kt.timestamps = (keptKotlin xs).map (fun i => iosCurrentTimeMillis (xs.get i)) := by
    have h1 : kt.timestamps = survivors (inWindow Kotlin.windowDurationMs)
        (clocks (reclock iosCurrentTimeMillis increments)) := run_timestamps _
    rw [h1, clocks_reclock, clocks_increments, survivors_map, survivors_eq_map, List.map_map]
    rfl
  have hsw : sw.timestamps = (keptSwift xs).map xs.get := by
    have h1 : sw.timestamps = survivors (inWindow Swift.windowDuration) (clocks increments) := run_timestamps _
    rw [h1, clocks_increments, survivors_eq_map]
    rfl
  have hsub : (keptKotlin xs).Sublist (keptSwift xs) :=
    retained_sublist fun a ha b hb => swift_keeps (h0 a (List.mem_of_mem_take ha)) (h0 b (List.mem_of_mem_take hb))
  have hrk : kt.rate = Kotlin.rate kt.timestamps.length := run_rate rfl _
  have hrs : sw.rate = Swift.rate sw.timestamps.length := run_rate rfl _
  refine ⟨hkt, hsw, hsub, ?_, fun i hi hni => ?_⟩
  · rw [hrk, hrs]
    refine kotlin_rate_le_swift ?_
    rw [hkt, hsw, List.length_map, List.length_map]
    exact hsub.length_le
  · rw [keptKotlin, mem_retained] at hni
    push Not at hni
    obtain ⟨j, hj, hk⟩ := hni
    exact ⟨j, hj, edge_band (hpos i) (hpos j) hk (mem_retained.1 hi j hj)⟩

/-- Increments 4.9996 s apart that the millisecond clock puts 5000 ms apart. -/
def edge : List ℚ := [9 / 10000, 50005 / 10000]

/-- Only Swift keeps the first one. -/
theorem kotlin_ios_swift_edge :
    (keptKotlin edge).map Fin.val = [1] ∧ (keptSwift edge).map Fin.val = [0, 1] ∧
    (run Kotlin.counterReducer (reclock iosCurrentTimeMillis (edge.map fun x => (.increment, x))) :
      CounterState Int32 ℤ).rate ≤ (run Swift.counterReducer (edge.map fun x => (.increment, x))).rate := by
  have h0 : ∀ x ∈ edge, 0 ≤ x := by
    simp only [edge, List.forall_mem_cons, List.not_mem_nil, false_imp_iff, implies_true, and_true]
    norm_num
  exact ⟨by decide +kernel, by decide +kernel, (kotlin_ios_swift edge h0 2).2.2.2.1⟩

end CrossplatformBenchmark
