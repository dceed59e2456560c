import CrossplatformBenchmark.Counter.RenderLoop

/-!
# The figure displayed as FPS

`Counter.kt:83` and `CounterApp.swift:138` show the store's rate as the FPS. With `N` counters
on screen (five in `ComposeActivity.kt:46`, three in `CounterApp.swift:131`) every frame is
counted `N` times, so the figure is the frame rate for one counter only (`displayed_fps`).

`screen N frames` is the run of the counter loop with `N` instances in which the increments of
the i-th frame are reduced at the i-th frame time; `screen_spec` says what it displays. On the
`SwiftUI` side a `FrameCallbackView` dispatches directly from its display link.
-/

namespace CrossplatformBenchmark.FrameRate

open Transition SlidingWindow RenderLoop

/-! ## `N` counters, frame by frame -/

/-- The increments of a run of frames: `N` at each frame time. -/
def increments {τ : Type} (N : Nat) (frames : List τ) : List (Action × τ) :=
  (blocks N frames).map fun f => (Action.increment, f)

/-- One frame: every counter's coroutine is run, then the invalidated counters recompose. -/
def frame (N : Nat) (f : Int64) : List Event := (List.range N).map (Event.dispatch · f) ++ [.render]

def screen (N : Nat) (frames : List Int64) : List Event := List.replicate N .mount ++ frames.flatMap (frame N)

/-- Between frames: every counter shows the store and has one increment launched. -/
structure Resting (N : Nat) (st : StoreState) (s : Loop) : Prop where
  instances : s.instances = (List.range N).map fun i => ⟨i, st, false, 1⟩
  listeners : s.listeners = List.range N
  state : s.state = st
  nextId : s.nextId = N

/-- The first `j` increments of a frame are reduced. -/
structure Midway (N j : Nat) (st : StoreState) (s : Loop) : Prop where
  instances : s.instances = (List.range N).map fun i => ⟨i, st, decide (0 < j), if i < j then 0 else 1⟩
  listeners : s.listeners = List.range N
  state : s.state = st
  nextId : s.nextId = N

theorem Resting.mount {N : Nat} {st : StoreState} {s : Loop} (h : Resting N st s) : Resting (N + 1) st s.mount where
  instances := by
    rw [List.range_succ, List.map_append, ← h.instances]
    simp [Loop.mount, Instance.sideEffect, h.state, h.nextId]
  listeners := by rw [List.range_succ, ← h.listeners, ← h.nextId]; rfl
  state := h.state
  nextId := congrArg (· + 1) h.nextId

theorem mount_all (N : Nat) : ∃ s, loop.run loop.init (List.replicate N .mount) = some s ∧ Resting N .initial s := by
  induction N with
  | zero => exact ⟨_, rfl, ⟨rfl, rfl, rfl, rfl⟩⟩
  | succ N ih =>
    obtain ⟨s, hs, hr⟩ := ih
    refine ⟨s.mount, ?_, hr.mount⟩
    rw [List.replicate_succ', Lts.run_append, hs]
    rfl

theorem Resting.midway {N : Nat} {st : StoreState} {s : Loop} (h : Resting N st s) : Midway N 0 st s :=
  ⟨by simpa using h.instances, h.listeners, h.state, h.nextId⟩

/-- The next counter's coroutine is pending; running it invalidates every counter. -/
theorem Midway.dispatch {N j : Nat} {st : StoreState} {s : Loop} (h : Midway N j st s) (hj : j < N) (f : Int64) :
    loop.step s (.dispatch j f) = some (s.dispatch j f) ∧
      Midway N (j + 1) (Kotlin.counterReducer st .increment f) (s.dispatch j f) := by
  have hmem : (⟨j, st, decide (0 < j), 1⟩ : Instance) ∈ s.instances := by
    rw [h.instances]
    exact List.mem_map.2 ⟨j, List.mem_range.2 hj, by simp⟩
  refine ⟨dispatch_enabled hmem Nat.one_pos f, ?_, h.listeners, by rw [← h.state]; rfl, h.nextId⟩
  have hne := counterReducer_ne st f
  simp only [Loop.dispatch, h.instances, h.listeners, h.state, List.map_map]
  refine List.map_congr_left fun i hi => ?_
  by_cases hij : i = j
  · subst hij
    simp [Instance.take, Instance.assign, hne, hj]
  · have hlt : i < j + 1 ↔ i < j := by omega
    simp [Instance.take, Instance.assign, hne, hij, List.mem_range.1 hi, hlt]

theorem Midway.render {N : Nat} {st : StoreState} {s : Loop} (h : Midway N N st s) (hN : 0 < N) :
    Resting N st s.render where
  instances := by
    simp only [Loop.render, h.instances, List.map_map]
    refine List.map_congr_left fun i hi => ?_
    simp [Instance.recompose, Instance.sideEffect, hN, List.mem_range.1 hi]
  listeners := h.listeners
  state := h.state
  nextId := h.nextId

/-- The store after `N` increments at one time. -/
def reduceAll (st : StoreState) (ts : List Int64) : StoreState :=
  ts.foldl (fun st t => Kotlin.counterReducer st .increment t) st

theorem run_dispatches {N : Nat} {st : StoreState} {s : Loop} (h : Resting N st s) (f : Int64) (j : Nat) (hj : j ≤ N) :
    ∃ s', loop.run s ((List.range j).map (Event.dispatch · f)) = some s' ∧
      Midway N j (reduceAll st (List.replicate j f)) s' := by
  induction j with
  | zero => exact ⟨s, rfl, h.midway⟩
  | succ j ih =>
    obtain ⟨s1, hs1, hm⟩ := ih (by omega)
    obtain ⟨hstep, hm'⟩ := hm.dispatch hj f
    refine ⟨s1.dispatch j f, ?_, ?_⟩
    · rw [List.range_succ, List.map_append, Lts.run_append, hs1]
      exact Lts.run_cons_some loop hstep []
    · rw [List.replicate_succ', reduceAll, List.foldl_append]
      exact hm'

theorem run_frames {N : Nat} (hN : 0 < N) : ∀ (frames : List Int64) {st : StoreState} {s : Loop}, Resting N st s →
    ∃ s', loop.run s (frames.flatMap (frame N)) = some s' ∧ Resting N (reduceAll st (blocks N frames)) s'
  | [], st, s, h => ⟨s, rfl, h⟩
  | f :: frames, st, s, h => by
    obtain ⟨s1, hs1, hm⟩ := run_dispatches h f N (Nat.le_refl N)
    obtain ⟨s2, hs2, hr⟩ := run_frames hN frames (hm.render hN)
    refine ⟨s2, ?_, ?_⟩
    · rw [List.flatMap_cons, frame, Lts.run_append, Lts.run_append, hs1]
      exact hs2
    · rw [blocks, List.flatMap_cons, reduceAll, List.foldl_append]
      exact hr

/-- **What the screen shows**: after the last frame each of the `N` counters shows the store
after `N` increments at every frame time. -/
theorem screen_spec {N : Nat} (hN : 0 < N) (frames : List Int64) :
    ∃ s, loop.run loop.init (screen N frames) = some s ∧ s.instances.length = N ∧
      ∀ c ∈ s.instances, c.selectedState = run Kotlin.counterReducer (increments N frames) := by
  obtain ⟨s0, h0, hr0⟩ := mount_all N
  obtain ⟨s, hs, hr⟩ := run_frames hN frames hr0
  have hst : reduceAll .initial (blocks N frames) = run Kotlin.counterReducer (increments N frames) := by
    rw [reduceAll, run, increments, List.foldl_map]
  refine ⟨s, ?_, by rw [hr.instances]; simp, fun c hc => ?_⟩
  · rw [screen, Lts.run_append, h0]
    exact hs
  · rw [hr.instances] at hc
    obtain ⟨i, -, rfl⟩ := List.mem_map.1 hc
    exact hst

/-! ## Counting frames -/

/-- Frames in the last five seconds over 5, and 0 for a single one. -/
def frameRate (frames : Nat) : ℚ := if frames = 1 then 0 else frames / 5

/-- Frames after `last - 5000` that are read next to `Long.MIN_VALUE`, where the subtraction of
the reducer wraps. -/
def wrappingFrames (frames : List Int64) (last : Int64) : Nat :=
  frames.countP fun f => f.toInt > last.toInt - 5000 ∧ ¬ NoWrap f

/-- Frames after `last - 5000` read anywhere else. -/
def plainFrames (frames : List Int64) (last : Int64) : Nat :=
  frames.countP fun f => f.toInt > last.toInt - 5000 ∧ NoWrap f

theorem frames_in_window (frames : List Int64) (last : Int64) :
    frames.countP (fun f => f.toInt > last.toInt - 5000) = wrappingFrames frames last + plainFrames frames last := by
  unfold wrappingFrames plainFrames
  induction frames with
  | nil => rfl
  | cons f fs ih =>
    simp only [List.countP_cons, ih]
    by_cases hw : f.toInt > last.toInt - 5000 <;> by_cases hn : NoWrap f <;> simp [hw, hn] <;> omega

/-- A reading keeps its own copies unless the subtraction wraps. -/
theorem keeps_self (f : Int64) : inWindow Kotlin.windowDurationMs f f = decide (NoWrap f) := by
  rw [Bool.eq_iff_iff, inWindow_iff, decide_eq_true_iff]
  constructor
  · intro h
    by_contra hn
    rw [toInt_sub_window_of_wrap hn] at h
    omega
  · intro h
    rw [toInt_sub_window h]
    omega

/-- A wrapping reading evicts everything read before it. -/
theorem not_keeps_of_wrap {f g : Int64} (hfg : f ≤ g) (hg : ¬ NoWrap g) :
    inWindow Kotlin.windowDurationMs f g = false := by
  rw [Bool.eq_false_iff]
  intro h
  have := Int64.le_iff_toInt_le.1 hfg
  rw [inWindow_iff, toInt_sub_window_of_wrap hg] at h
  omega

/-- Nondecreasing frames that do not wrap: survival is a test against the last one. -/
theorem all_keeps_iff {f last : Int64} {fs : List Int64} (hlast : last ∈ f :: fs) (hle : ∀ g ∈ f :: fs, g ≤ last)
    (hn : ∀ g ∈ fs, NoWrap g) : fs.all (inWindow Kotlin.windowDurationMs f) = true ↔ f.toInt > last.toInt - 5000 := by
  have htest : ∀ g ∈ fs, (inWindow Kotlin.windowDurationMs f g = true ↔ g.toInt - 5000 < f.toInt) := by
    intro g hg
    rw [inWindow_iff, toInt_sub_window (hn g hg)]
  rw [List.all_eq_true]
  constructor
  · intro h
    rcases List.mem_cons.1 hlast with rfl | hl
    · omega
    · exact (htest last hl).1 (h last hl)
  · intro h g hg
    have := Int64.le_iff_toInt_le.1 (hle g (by simp [hg]))
    exact (htest g hg).2 (by omega)

theorem wrappingFrames_cons (f : Int64) (fs : List Int64) (last : Int64) :
    wrappingFrames (f :: fs) last =
      wrappingFrames fs last + if f.toInt > last.toInt - 5000 ∧ ¬ NoWrap f then 1 else 0 := by
  simp only [wrappingFrames, List.countP_cons, decide_eq_true_eq]

theorem plainFrames_cons (f : Int64) (fs : List Int64) (last : Int64) :
    plainFrames (f :: fs) last = plainFrames fs last + if f.toInt > last.toInt - 5000 ∧ NoWrap f then 1 else 0 := by
  simp only [plainFrames, List.countP_cons, decide_eq_true_eq]

theorem wrappingFrames_eq_zero {fs : List Int64} (h : ∀ g ∈ fs, NoWrap g) (last : Int64) :
    wrappingFrames fs last = 0 := by
  unfold wrappingFrames
  rw [List.countP_eq_zero]
  intro g hg
  simp [h g hg]

/-- The survivors of nondecreasing frames, each plain one counted `n + 1` times. The last frame
is in the list, or nothing is left of it. -/
theorem sum_survivors (n : Nat) (last : Int64) : ∀ fs : List Int64, (fs = [] ∨ last ∈ fs) → fs.Pairwise (· ≤ ·) →
    (∀ g ∈ fs, g ≤ last) →
    ((survivors (inWindow Kotlin.windowDurationMs) fs).map fun t => if NoWrap t then n + 1 else 1).sum =
      min (wrappingFrames fs last) 1 + (n + 1) * plainFrames fs last
  | [], _, _, _ => rfl
  | f :: fs, hl, hs, hle => by
    obtain ⟨hf, hs⟩ := List.pairwise_cons.1 hs
    have hlast : last ∈ f :: fs := hl.resolve_left (List.cons_ne_nil f fs)
    have htail : fs = [] ∨ last ∈ fs := by
      cases fs with
      | nil => exact .inl rfl
      | cons g gs =>
        refine .inr ?_
        rcases List.mem_cons.1 hlast with rfl | h
        · rw [Int64.le_antisymm (hf g (by simp)) (hle g (by simp))]
          simp
        · exact h
    have ih := sum_survivors n last fs htail hs fun g hg => hle g (by simp [hg])
    rw [wrappingFrames_cons, plainFrames_cons, survivors]
    by_cases hwrap : ∃ g ∈ fs, ¬ NoWrap g
    · -- a later wrapping frame: `f` wraps too, and is evicted
      obtain ⟨g, hg, hgw⟩ := hwrap
      have hfg := Int64.le_iff_toInt_le.1 (hf g hg)
      have hfw : ¬ NoWrap f := by
        unfold NoWrap at hgw ⊢
        omega
      have hall : ¬ fs.all (inWindow Kotlin.windowDurationMs f) = true := by
        intro h
        have hk := List.all_eq_true.1 h g hg
        rw [not_keeps_of_wrap (hf g hg) hgw] at hk
        cases hk
      have hpos : f.toInt > last.toInt - 5000 → 0 < wrappingFrames fs last := by
        intro hin
        refine List.countP_pos_iff.2 ⟨g, hg, ?_⟩
        rw [decide_eq_true_iff]
        exact ⟨by omega, hgw⟩
      rw [if_neg hall, ih]
      simp only [hfw, not_false_eq_true, and_true, and_false, if_false, Nat.add_zero]
      split
      · rename_i hin
        have := hpos hin
        omega
      · rfl
    · push Not at hwrap
      have hall := all_keeps_iff hlast hle hwrap
      rw [wrappingFrames_eq_zero hwrap last] at ih ⊢
      by_cases hin : f.toInt > last.toInt - 5000
      · rw [if_pos (hall.2 hin), List.map_cons, List.sum_cons, ih]
        by_cases hn : NoWrap f
        · simp only [hin, hn, not_true_eq_false, and_false, and_self, if_true, if_false, Nat.mul_add]
          omega
        · simp only [hin, hn, not_false_eq_true, and_false, and_self, if_true, if_false, Nat.add_zero]
          omega
      · rw [if_neg (fun h => hin (hall.1 h)), ih]
        simp only [hin, false_and, if_false, Nat.add_zero]

/-- **The window after `n + 1` increments per frame**: each plain frame counts `n + 1` times; of
the wrapping ones only the last increment is left. -/
theorem length_window (n : Nat) {frames : List Int64} {last : Int64} (hlast : frames.getLast? = some last)
    (hs : frames.Pairwise (· ≤ ·)) : (survivors (inWindow Kotlin.windowDurationMs) (blocks (n + 1) frames)).length =
      min (wrappingFrames frames last) 1 + (n + 1) * plainFrames frames last := by
  have hle : ∀ g ∈ frames, g ≤ last := rel_last hs hlast (Int64.le_refl last)
  rw [length_survivors_blocks]
  simp only [keeps_self, decide_eq_true_eq]
  exact sum_survivors n last frames (.inr (List.mem_of_getLast? hlast)) hs hle

theorem plainFrames_pos {frames : List Int64} {last : Int64} (hlast : frames.getLast? = some last)
    (h : ∀ f ∈ frames, NoWrap f) : 0 < plainFrames frames last := by
  have hmem := List.mem_of_getLast? hlast
  refine List.countP_pos_iff.2 ⟨last, hmem, ?_⟩
  rw [decide_eq_true_iff]
  exact ⟨by omega, h last hmem⟩

/-- The last frame is always in its own window. -/
theorem frames_pos {frames : List Int64} {last : Int64} (hlast : frames.getLast? = some last) :
    0 < wrappingFrames frames last + plainFrames frames last := by
  rw [← frames_in_window]
  refine List.countP_pos_iff.2 ⟨last, List.mem_of_getLast? hlast, ?_⟩
  rw [decide_eq_true_iff]
  omega

/-! ## The displayed figure -/

/-- The text of `CounterApp` (Counter.kt:83), by `screen_spec`. -/
def composeFps (N : Nat) (frames : List Int64) : ℚ :=
  (run Kotlin.counterReducer (increments N frames) : StoreState).rate

/-- The text of `CounterAppSwiftUI` (CounterApp.swift:138). -/
def swiftFps (N : Nat) (frames : List ℚ) : ℚ := (run Swift.counterReducer (increments N frames)).rate

/-- Either figure is the rate of the readings that survive, each frame read `N` times. -/
theorem fps_eq {ι τ : Type} [OfNat ι 0] [OfNat ι 1] [Add ι] [Sub τ] [LT τ] [DecidableLT τ] {windowDuration : τ}
    {rateOf : Nat → ℚ} (h0 : rateOf 0 = 0) (N : Nat) (frames : List τ) :
    (run (ι := ι) (reduce windowDuration rateOf) (increments N frames)).rate =
      rateOf (survivors (inWindow windowDuration) (blocks N frames)).length := by
  have hc : clocks (increments N frames) = blocks N frames := clocks_increments _
  rw [run_rate h0, run_timestamps, hc]

theorem composeFps_eq {N : Nat} (hN : 1 ≤ N) {frames : List Int64} {last : Int64} (hlast : frames.getLast? = some last)
    (hs : frames.Pairwise (· ≤ ·)) :
    composeFps N frames = Kotlin.rate (min (wrappingFrames frames last) 1 + N * plainFrames frames last) := by
  obtain ⟨n, rfl⟩ : ∃ n, N = n + 1 := ⟨N - 1, by omega⟩
  have hfps : composeFps (n + 1) frames =
      Kotlin.rate (survivors (inWindow Kotlin.windowDurationMs) (blocks (n + 1) frames)).length := fps_eq rfl _ _
  rw [hfps, length_window n hlast hs]

/-- Swift's test never evicts a copy of the reading itself. -/
theorem swift_keeps_self (f : ℚ) : inWindow Swift.windowDuration f f = true := by
  simp [inWindow, Swift.windowDuration]

theorem swift_survivors {frames : List ℚ} {last : ℚ} (hlast : frames.getLast? = some last)
    (hs : frames.Pairwise (· ≤ ·)) :
    survivors (inWindow Swift.windowDuration) frames = frames.filter (· > last - 5) := by
  have hle : ∀ g ∈ frames, g ≤ last := rel_last hs hlast (le_refl last)
  rw [survivors_of_last hlast (swift_keeps_self last)]
  · rfl
  · refine List.pairwise_of_forall_mem_list fun a _ b hb ha => ?_
    simp only [inWindow, Swift.windowDuration, gt_iff_lt, decide_eq_true_eq] at ha ⊢
    linarith [hle b hb]

theorem swiftFps_eq {N : Nat} (hN : 1 ≤ N) {frames : List ℚ} {last : ℚ} (hlast : frames.getLast? = some last)
    (hs : frames.Pairwise (· ≤ ·)) : swiftFps N frames = Swift.rate (N * frames.countP fun f => f > last - 5) := by
  obtain ⟨n, rfl⟩ : ∃ n, N = n + 1 := ⟨N - 1, by omega⟩
  have hfps : swiftFps (n + 1) frames =
      Swift.rate (survivors (inWindow Swift.windowDuration) (blocks (n + 1) frames)).length := fps_eq rfl _ _
  rw [hfps, length_survivors_blocks, swift_survivors hlast hs]
  simp only [swift_keeps_self, if_true, List.map_const', List.sum_replicate, smul_eq_mul]
  rw [Nat.mul_comm, List.countP_eq_length_filter]

theorem swift_frames_pos {frames : List ℚ} {last : ℚ} (hlast : frames.getLast? = some last) :
    1 ≤ frames.countP fun f => f > last - 5 :=
  List.countP_pos_iff.2 ⟨last, List.mem_of_getLast? hlast, by simp⟩

theorem swift_rate_eq (count : Nat) : Swift.rate count = Kotlin.rate count := by
  rw [kotlin_rate_eq]; rfl

/-- On windows that hold something the rate determines the count. -/
theorem rate_inj {m n : Nat} (hm : 1 ≤ m) (hn : 1 ≤ n) : Kotlin.rate m = Kotlin.rate n ↔ m = n := by
  constructor
  · intro h
    rw [kotlin_rate_eq, kotlin_rate_eq] at h
    split at h <;> split at h
    · have hq : (m : ℚ) = n := by linarith
      exact_mod_cast hq
    · have : (0 : ℚ) < m / 5 := by positivity
      linarith
    · have : (0 : ℚ) < n / 5 := by positivity
      linarith
    · omega
  · intro h
    rw [h]

theorem frameRate_eq {n : Nat} (hn : 1 ≤ n) : frameRate n = Kotlin.rate n := by
  rw [kotlin_rate_eq, frameRate]
  by_cases h : n = 1
  · rw [if_pos h, if_neg (by omega)]
  · rw [if_neg h, if_pos (by omega)]

/-- **The displayed FPS is the frame rate exactly when one counter is on screen.** For `N ≥ 1`
counters and nondecreasing frame times. In Compose, with readings next to `Long.MIN_VALUE` among
the frames, the condition is the count of the second line; anywhere else it is `N = 1`, and two
screens with the same frames agree only if they show the same number of counters. -/
theorem displayed_fps {N : Nat} (hN : 1 ≤ N) :
    (∀ (frames : List Int64) (last : Int64), frames.getLast? = some last → frames.Pairwise (· ≤ ·) →
      (∃ s, loop.run loop.init (screen N frames) = some s ∧ s.instances.length = N ∧
        ∀ c ∈ s.instances, c.selectedState.rate = composeFps N frames) ∧
      (composeFps N frames = frameRate (frames.countP fun f => f.toInt > last.toInt - 5000) ↔
        min (wrappingFrames frames last) 1 + N * plainFrames frames last =
          wrappingFrames frames last + plainFrames frames last) ∧
      ((∀ f ∈ frames, NoWrap f) →
        (composeFps N frames = frameRate (frames.countP fun f => f.toInt > last.toInt - 5000) ↔ N = 1) ∧
        ∀ N' ≥ 1, composeFps N frames = composeFps N' frames ↔ N = N')) ∧
    (∀ (frames : List ℚ) (last : ℚ), frames.getLast? = some last → frames.Pairwise (· ≤ ·) →
      (swiftFps N frames = frameRate (frames.countP fun f => f > last - 5) ↔ N = 1) ∧
      ∀ N' ≥ 1, swiftFps N frames = swiftFps N' frames ↔ N = N') := by
  refine ⟨fun frames last hlast hs => ⟨?_, ?_, fun hn => ⟨?_, fun N' hN' => ?_⟩⟩,
    fun frames last hlast hs => ⟨?_, fun N' hN' => ?_⟩⟩
  · obtain ⟨s, hrun, hlen, hshow⟩ := screen_spec hN frames
    exact ⟨s, hrun, hlen, fun c hc => by rw [hshow c hc]; rfl⟩
  · have hpos := frames_pos hlast
    have hmul : plainFrames frames last ≤ N * plainFrames frames last := Nat.le_mul_of_pos_left _ hN
    rw [composeFps_eq hN hlast hs, frames_in_window, frameRate_eq hpos, rate_inj (by omega) hpos]
  · have hp := plainFrames_pos hlast hn
    have hpos : 1 ≤ N * plainFrames frames last := Nat.mul_pos hN hp
    rw [composeFps_eq hN hlast hs, frames_in_window, wrappingFrames_eq_zero hn, Nat.zero_min, Nat.zero_add,
      Nat.zero_add, frameRate_eq hp, rate_inj hpos hp]
    exact Nat.mul_eq_right (by omega)
  · have hp := plainFrames_pos hlast hn
    rw [composeFps_eq hN hlast hs, composeFps_eq hN' hlast hs, wrappingFrames_eq_zero hn, Nat.zero_min,
      Nat.zero_add, Nat.zero_add, rate_inj (Nat.mul_pos hN hp) (Nat.mul_pos hN' hp)]
    exact Nat.mul_left_inj (by omega)
  · have hp := swift_frames_pos hlast
    rw [swiftFps_eq hN hlast hs, swift_rate_eq, frameRate_eq hp, rate_inj (Nat.mul_pos hN hp) hp]
    exact Nat.mul_eq_right (by omega)
  · have hp := swift_frames_pos hlast
    rw [swiftFps_eq hN hlast hs, swiftFps_eq hN' hlast hs, swift_rate_eq, swift_rate_eq,
      rate_inj (Nat.mul_pos hN hp) (Nat.mul_pos hN' hp)]
    exact Nat.mul_left_inj (by omega)

/-- Three frames at 60 Hz, in milliseconds. -/
def threeFrames : List Int64 := [0, 17, 33]

/-- The five counters of `ComposeActivity` do not show the frame rate. -/
theorem displayed_fps_five : composeFps 5 threeFrames ≠ frameRate 3 := by
  have hn : ∀ f ∈ threeFrames, NoWrap f := by
    simp only [threeFrames, List.forall_mem_cons, List.not_mem_nil, false_imp_iff, implies_true, and_true]
    decide
  have h := ((displayed_fps (N := 5) (by decide)).1 threeFrames 33 (by decide) (by decide)).2.2 hn
  have hc : threeFrames.countP (fun f => f.toInt > (33 : Int64).toInt - 5000) = 3 := by decide
  rw [hc] at h
  exact fun he => absurd (h.1.1 he) (by decide)

/-- **Five counters show 3 frames per second, the frame rate is 0.6**; three SwiftUI counters
show 1.8. -/
theorem five_counters_show_three :
    composeFps 5 [0, 17, 33] = 3 ∧ composeFps 1 [0, 17, 33] = 3 / 5 ∧ frameRate 3 = 3 / 5 ∧
    swiftFps 3 [0, 17 / 1000, 33 / 1000] = 9 / 5 := by
  decide +kernel

end CrossplatformBenchmark.FrameRate
