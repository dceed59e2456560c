import CrossplatformBenchmark.Loader.ComposeQueue
import CrossplatformBenchmark.Loader.ComposeScroll

/-!
# Failed fetches of the Compose loader (RemoteImage.kt:79-113)

`loadMoreProducts` sets `isLoading` before it suspends in `getProducts` and resets it only after a return. An
exception thrown by `getProducts` leaves the function there, and the flag set; `onScrollToEnd` then drops every
event.

* `blocked_after_throw`, `blocked_steps` — after a failed fetch no step changes the list or asks for a page.
* `atomic_iff_no_throw` — failed fetches are atomic exactly in the runs without any.
-/

namespace CrossplatformBenchmark.Compose

open Transition Paging

variable {α : Type*}

/-- The grid, with the latest call of `loadMoreProducts`. -/
structure Recorded (α : Type*) where
  ui : Ui α := {}
  /-- The `PaginationState` that call found. -/
  before : PaginationState α := {}
  /-- It has ended, by an exception. -/
  failed : Bool := false

/-- The task that an event runs. -/
def Event.task (s : Ui α) : Event α → Option (Task α)
  | .run i => s.queue[i]?
  | _ => none

/-- What becomes of the record when `task` runs: `loadMoreProducts` is called, or ends. -/
def Recorded.note (s : Recorded α) : Task α → PaginationState α × Bool
  | .initialLoad =>
    if s.ui.paginationState.products.isEmpty then (s.ui.paginationState, false) else (s.before, s.failed)
  | .emission _ => (s.before, s.failed)
  | .loadBody => (s.ui.paginationState, false)
  | .resumption (.returned _) => (s.before, false)
  | .resumption .threw => (s.before, true)

/-- After a failed fetch the state is the one before the call; without a load the flag is not set; and a scroll to the
end after a failure asks for the same page again. -/
structure Atomic (s : Recorded α) : Prop where
  restored : s.failed = true → s.ui.paginationState = s.before ∧ s.ui.paginationState.isLoading = false
  idle : s.ui.loads = 0 → s.ui.paginationState.isLoading = false
  retries : s.failed = true → s.ui.loads = 0 → s.ui.paginationState.isEndReached = false →
    s.ui.onScrollToEnd = { s.ui with queue := s.ui.queue ++ [.loadBody] } ∧
    (beginLoad s.ui.paginationState).2 = (beginLoad s.before).2

/-- The event throws no exception into a load. -/
def NoThrow (s : Recorded α) (e : Event α) : Prop := e.task s.ui ≠ some (.resumption .threw)

/-- The thread takes the oldest task. -/
def Fifo (e : Event α) : Prop := ∀ i, e = .run i → i = 0

/-- A set flag has its request or its answer on the way. -/
def Busy (s : Ui α) : Prop :=
  s.paginationState.isLoading = true → s.inFlight ≠ [] ∨ ∃ o, .resumption o ∈ s.queue

theorem Busy.idle {s : Ui α} (h : Busy s) (hloads : s.loads = 0) : s.paginationState.isLoading = false := by
  by_contra hl
  unfold Ui.loads at hloads
  rcases h (eq_true_of_ne_false hl) with hin | ⟨o, ho⟩
  · exact hin (List.eq_nil_of_length_eq_zero (by omega))
  · have hpos : 0 < s.queue.countP (·.isLoad) := List.countP_pos_iff.2 ⟨_, ho, rfl⟩
    omega

/-- Answers stay in the queue. -/
theorem Busy.mono {s t : Ui α} (h : Busy s) (hl : t.paginationState = s.paginationState) (hin : t.inFlight = s.inFlight)
    (hq : ∀ o, .resumption o ∈ s.queue → .resumption o ∈ t.queue) : Busy t := by
  unfold Busy
  rw [hl, hin]
  intro hload
  rcases h hload with hne | ⟨o, ho⟩
  · exact .inl hne
  · exact .inr ⟨o, hq o ho⟩

/-- Without failures an idle grid is all there is to show. -/
theorem Atomic.of_idle {s : Recorded α} (hf : s.failed = false)
    (hi : s.ui.loads = 0 → s.ui.paginationState.isLoading = false) : Atomic s where
  restored h := absurd (hf.symm.trans h) nofun
  idle := hi
  retries h := absurd (hf.symm.trans h) nofun

theorem OneLoad.idle {s : Ui α} (h : OneLoad s) (hloads : s.loads = 0) : s.paginationState.isLoading = false := by
  unfold Ui.loads at hloads
  rw [List.countP_eq_length_filter] at hloads
  refine h.load.isLoading_eq_false ?_ ?_
  · exact List.eq_nil_of_length_eq_zero (by omega)
  · exact List.eq_nil_of_length_eq_zero (by omega)

/-! ## Runs -/

variable [DecidableEq α]

def Recorded.step (s : Recorded α) (e : Event α) : Option (Recorded α) :=
  (s.ui.step e).map fun ui =>
    match e.task s.ui with
    | some task => { ui := ui, before := (s.note task).1, failed := (s.note task).2 }
    | none => { s with ui := ui }

variable (α) in
/-- The grid, with its tasks run in any order. -/
def recorded : Lts (Recorded α) (Event α) := ⟨{}, Recorded.step⟩

/-- The record does not interfere, and marks a failure only when an exception is thrown. -/
theorem recorded_step {s t : Recorded α} {e : Event α} (h : s.step e = some t) :
    (ui α).step s.ui e = some t.ui ∧ (NoThrow s e → s.failed = false → t.failed = false) := by
  obtain ⟨u, hu, rfl⟩ := Option.map_eq_some_iff.1 h
  refine ⟨?_, fun hno hf => ?_⟩
  · rw [show (ui α).step s.ui e = s.ui.step e from rfl, hu]
    cases e.task s.ui <;> rfl
  · unfold NoThrow at hno
    cases htask : e.task s.ui with
    | none => exact hf
    | some task =>
      rw [htask] at hno
      match task with
      | .initialLoad => by_cases hp : s.ui.paginationState.products.isEmpty <;> simp [Recorded.note, hp, hf]
      | .emission _ => exact hf
      | .loadBody => rfl
      | .resumption (.returned _) => rfl
      | .resumption .threw => exact absurd rfl hno

/-- In any order of tasks, as long as nothing throws. -/
theorem busy_step {s t : Ui α} {e : Event α} (h : Busy s) (hno : e.task s ≠ some (.resumption .threw))
    (hs : (ui α).step s e = some t) : Busy t := by
  obtain ⟨i, task, rfl, ht, rfl⟩ | ⟨v, rfl, rfl⟩ | ⟨rfl, -, -, rfl⟩ | ⟨dropped, rfl, -, rfl⟩ |
    ⟨i, r, o, rfl, hi, rfl⟩ := step_cases hs
  · obtain ⟨-, hx⟩ | ⟨ps, rfl, -, hl, -, hx⟩ | ⟨o, rfl, hx⟩ | ⟨hskip, hx⟩ :=
      exec_cases task { s with queue := s.queue.eraseIdx i }
    all_goals rw [hx]
    · exact fun _ => .inl (by simp [Ui.beginLoad])
    · intro hl'
      exact absurd (hl.symm.trans hl') Bool.false_ne_true
    · cases o with
      | returned ps =>
        intro hl
        cases hl
      | threw => exact absurd ht hno
    · refine h.mono rfl rfl fun o ho => mem_eraseIdx_of_ne ht ho ?_
      rintro rfl
      rcases hskip with ⟨heq, -⟩ | ⟨ps, heq, -⟩ <;> cases heq
  · exact h
  · exact h.mono rfl rfl fun o ho => List.mem_append_left _ ho
  · refine h.mono rfl rfl fun o ho => ?_
    cases dropped with
    | false => exact ho
    | true => exact List.mem_filter.2 ⟨ho, rfl⟩
  · exact fun _ => .inr ⟨o, List.mem_append_right _ (.head _)⟩

/-! ## After a failure -/

/-- The flag is set, and nothing is left that would reset it. -/
structure Blocked (s : Ui α) : Prop where
  isLoading : s.paginationState.isLoading = true
  inFlight : s.inFlight = []
  emissions : ∀ task ∈ s.queue, task.isEmission = true

omit [DecidableEq α] in
/-- The one load fails: its exception leaves the flag set, with no other load behind it. -/
theorem blocked_after_throw {s : Ui α} {rest : List (Task α)} (h : OneLoad s)
    (hq : s.queue = .resumption .threw :: rest) : Blocked { s with queue := rest } := by
  obtain ⟨hrest, hin, -, hl⟩ := h.head hq rfl
  refine ⟨hl.2 ⟨_, rfl⟩, hin, fun task hm => ?_⟩
  cases task with
  | emission ps => rfl
  | _ => exact absurd hm (not_mem_of_filter hrest rfl)

theorem blocked_step {s t : Ui α} {e : Event α} (h : Blocked s) (hs : (ui α).step s e = some t) :
    Blocked t ∧ t.paginationState = s.paginationState ∧ t.requests = s.requests := by
  obtain ⟨i, task, rfl, ht, rfl⟩ | ⟨v, rfl, rfl⟩ | ⟨rfl, -, hq, rfl⟩ | ⟨dropped, rfl, -, rfl⟩ |
    ⟨i, r, o, rfl, hi, rfl⟩ := step_cases hs
  · have hrest : Blocked { s with queue := s.queue.eraseIdx i } :=
      ⟨h.isLoading, h.inFlight, fun task hm => h.emissions task (List.mem_of_mem_eraseIdx hm)⟩
    have hem : task.isEmission = true := h.emissions task (List.mem_of_getElem? ht)
    obtain ⟨hstart, -⟩ | ⟨ps, -, -, hl, -⟩ | ⟨o, rfl, -⟩ | ⟨-, hx⟩ :=
      exec_cases task { s with queue := s.queue.eraseIdx i }
    · rcases hstart with rfl | ⟨rfl, -⟩ <;> cases hem
    · exact absurd (hl.symm.trans h.isLoading) Bool.false_ne_true
    · cases hem
    · rw [hx]
      exact ⟨hrest, rfl, rfl⟩
  · exact ⟨⟨h.isLoading, h.inFlight, h.emissions⟩, rfl, rfl⟩
  · refine ⟨⟨h.isLoading, h.inFlight, fun task hm => ?_⟩, rfl, rfl⟩
    rcases List.mem_append.1 hm with hm | hm
    · exact h.emissions task hm
    · rw [List.mem_singleton.1 hm]
      rfl
  · exact ⟨⟨h.isLoading, h.inFlight, fun task hm => h.emissions task ((restart_sublist _ _).subset hm)⟩, rfl, rfl⟩
  · rw [h.inFlight] at hi
    cases hi

/-- **Blocked for good**: whatever the thread, the effects and the network do. -/
theorem blocked_steps {s t : Ui α} (h : Blocked s) (hst : (ui α).Steps s t) :
    Blocked t ∧ t.paginationState = s.paginationState ∧ t.requests = s.requests := by
  have hkeep : (ui α).Preserved fun u =>
      Blocked u ∧ u.paginationState = s.paginationState ∧ u.requests = s.requests := by
    rintro u e v ⟨hu, hstate, hrequests⟩ hs
    obtain ⟨hv, hstate', hrequests'⟩ := blocked_step hu hs
    exact ⟨hv, hstate'.trans hstate, hrequests'.trans hrequests⟩
  exact hkeep.steps ⟨h, rfl, rfl⟩ hst

/-! ## Atomic runs -/

/-- An exception thrown into the one load is seen at once. -/
theorem not_atomic_of_throw {s : Recorded α} {e : Event α} (h : OneLoad s.ui) (hfifo : Fifo e)
    (hthrow : ¬ NoThrow s e) : ∃ t, s.step e = some t ∧ ¬ Atomic t := by
  unfold NoThrow at hthrow
  rw [not_not] at hthrow
  cases e with
  | run i =>
    obtain rfl : i = 0 := hfifo i rfl
    obtain ⟨rest, hq⟩ : ∃ rest, s.ui.queue = .resumption .threw :: rest := head_of_getElem? hthrow
    have hl : s.ui.paginationState.isLoading = true := (blocked_after_throw h hq).isLoading
    refine ⟨{ ui := { s.ui with queue := rest }, before := s.before, failed := true }, ?_, fun hatomic => ?_⟩
    · simp [Recorded.step, Ui.step, Event.task, hq, Task.exec, finishLoad, Recorded.note]
    · have hl' : s.ui.paginationState.isLoading = false := (hatomic.restored rfl).2
      exact absurd (hl'.symm.trans hl) Bool.false_ne_true
  | _ => cases hthrow

/-- **Failed fetches are atomic exactly in the runs without any.** In whatever order the tasks are run, a run in which
no fetch throws is atomic; on a FIFO thread no other run is. -/
theorem atomic_iff_no_throw (es : List (Event α)) :
    ((recorded α).Along NoThrow {} es → (recorded α).Always Atomic {} es) ∧
    ((∀ e ∈ es, Fifo e) → ((recorded α).Always Atomic {} es ↔ (recorded α).Along NoThrow {} es)) := by
  constructor
  · refine Lts.Along.always (I := fun s => Busy s.ui ∧ s.failed = false) ?_ ?_ ⟨nofun, rfl⟩
    · rintro s e t ⟨h, hf⟩ hq hs
      obtain ⟨hui, hfailed⟩ := recorded_step hs
      exact ⟨busy_step h hq hui, hfailed hq hf⟩
    · rintro s ⟨h, hf⟩
      exact .of_idle hf h.idle
  · intro hfifo
    refine Lts.always_iff_along_of (fun s => OneLoad s.ui ∧ s.failed = false) ?_ ?_ ?_ es hfifo ⟨.init, rfl⟩
    · rintro s e t ⟨h, hf⟩ hok hq hs
      obtain ⟨hui, hfailed⟩ := recorded_step hs
      refine ⟨h.step hok (fun i hi => ?_) hui, hfailed hq hf⟩
      rw [hi] at hq
      exact hq
    · rintro s ⟨h, hf⟩
      exact .of_idle hf h.idle
    · rintro s e ⟨h, -⟩ hok hq
      exact not_atomic_of_throw h hok hq

/-- The first page arrives: nothing throws, and the grid rests. -/
theorem atomic_first_page :
    (recorded Nat).Always Atomic {} [.run 0, .respond 0 (.returned [7]), .run 0] := by
  have hfifo : ∀ e ∈ [Event.run 0, .respond 0 (.returned [7]), .run 0], Fifo e := by
    simp [Fifo]
  refine ((atomic_iff_no_throw _).2 hfifo).2 ⟨nofun, fun t ht => ?_⟩
  cases ht
  refine ⟨nofun, fun t ht => ?_⟩
  cases ht
  exact ⟨nofun, fun _ _ => trivial⟩

/-- **The initial fetch throws**: the grid stays empty, loading, and deaf to every scroll. -/
theorem initial_fetch_throws :
    ¬ (recorded Nat).Always Atomic {} [.run 0, .respond 0 .threw, .run 0] ∧
    ∃ s, (recorded Nat).run {} [.run 0, .respond 0 .threw, .run 0] = some s ∧ s.ui.loads = 0 ∧
      s.before = ⟨[], 0, false, false⟩ ∧ s.ui.paginationState = ⟨[], 0, true, false⟩ ∧
      s.ui.onScrollToEnd = s.ui := by
  refine ⟨fun h => ?_, ⟨_, rfl, rfl, rfl, rfl, rfl⟩⟩
  have hc : Atomic _ := ((h.2 _ rfl).2 _ rfl).2 _ rfl
  exact absurd (hc.idle rfl) nofun

end CrossplatformBenchmark.Compose
