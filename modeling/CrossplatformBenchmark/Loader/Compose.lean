import CrossplatformBenchmark.Lib.Paging

/-!
# The Compose product loader (RemoteImage.kt:59-131)

Everything runs on the UI thread, one queued task at a time; a coroutine leaves the thread where
it suspends and comes back as another task.

| source                                                          | here                  |
|-----------------------------------------------------------------|-----------------------|
| `LaunchedEffect(Unit)` of `RemoteImageGrid` (:73-77)            | `Task.initialLoad`    |
| a value collected from `snapshotFlow` (:124-130)                | `Task.emission`       |
| the coroutine `onScrollToEnd` launches (:82-84)                 | `Task.loadBody`       |
| a coroutine coming back from `getProducts`                      | `Task.resumption`     |
| `loadMoreProducts` before and after `getProducts` (:96-113)     | `beginLoad`, `finishLoad` |

Taken from Compose and not from this repository: the effect of `ProductGrid`, keyed on `products`,
is restarted some time after they change and holds the list it was started with; a restart or a
change of the visible items is followed by an emission, at most one of them outstanding. An
emission reads the visible items when it is collected, so changes in between are conflated.
-/

namespace CrossplatformBenchmark.Compose

open Transition Paging

variable {α : Type*}

/-- `PaginationState` (:59-64). -/
structure PaginationState (α : Type*) where
  products : List α := []
  currentPage : Int32 := 0
  isLoading : Bool := false
  isEndReached : Bool := false

def PAGE_SIZE : Int32 := 30

/-- `loadMoreProducts` up to its suspension in `getProducts` (:100-105). -/
def beginLoad (st : PaginationState α) : PaginationState α × Request :=
  let st := { st with isLoading := true }
  (st, ⟨PAGE_SIZE.toInt, (st.currentPage * PAGE_SIZE).toInt⟩)

/-- The rest of `loadMoreProducts` (:107-112); an exception leaves it without a further assignment. -/
def finishLoad (st : PaginationState α) : Outcome α → PaginationState α
  | .returned newProducts =>
    { st with
      products := st.products ++ newProducts
      currentPage := st.currentPage + 1
      isLoading := false
      isEndReached := newProducts.isEmpty }
  | .threw => st

/-- The test of the collector (:126); `last` is the index of the last visible item. -/
def atEnd (products : List α) (last : Option Int) : Bool :=
  !products.isEmpty && last.any fun last => (products.length : Int) - 1 ≤ last

/-! ## Pages in `Int` -/

theorem toInt_skip {page : Int32} {n : Nat} (h : page.toInt = n) (hn : 30 * n < 2 ^ 31) :
    (page * PAGE_SIZE).toInt = 30 * n := by
  have h30 : PAGE_SIZE.toInt = 30 := by decide
  rw [Int32.toInt_mul, h, h30, Int.mul_comm]
  exact Int.bmod_eq_of_le (by omega) (by omega)

theorem toInt_next {page : Int32} {n : Nat} (h : page.toInt = n) (hn : n + 1 < 2 ^ 31) :
    (page + 1).toInt = n + 1 := by
  rw [Int32.toInt_add, h, show (1 : Int32).toInt = 1 by decide]
  exact Int.bmod_eq_of_le (by omega) (by omega)

theorem beginLoad_request {st : PaginationState α} {n : Nat} (h : st.currentPage.toInt = n) (hn : 30 * n < 2 ^ 31) :
    (beginLoad st).2 = ⟨30, 30 * n⟩ := by
  have h30 : PAGE_SIZE.toInt = 30 := by decide
  rw [beginLoad, toInt_skip h hn, h30]

/-! ## The UI thread -/

inductive Task (α : Type*) where
  | initialLoad
  /-- Collected by the effect that was started with `products`. -/
  | emission (products : List α)
  | loadBody
  | resumption (o : Outcome α)

def Task.isEmission : Task α → Bool
  | .emission _ => true
  | _ => false

/-- A load on its way to its request, or back from it. -/
def Task.isLoad : Task α → Bool
  | .emission _ => false
  | _ => true

structure Ui (α : Type*) where
  paginationState : PaginationState α := {}
  queue : List (Task α) := [.initialLoad]
  inFlight : List Request := []
  /-- The products the running effect of `ProductGrid` was started with. -/
  captured : List α := []
  /-- The effect was started, or the visible items changed, since the last emission. -/
  changed : Bool := true
  /-- The index of the last visible item; none while nothing is visible. -/
  lastVisible : Option Int := none
  /-- Every request, oldest first. -/
  requests : List Request := []

def Ui.beginLoad (s : Ui α) : Ui α :=
  let (st, r) := Compose.beginLoad s.paginationState
  { s with paginationState := st, inFlight := s.inFlight ++ [r], requests := s.requests ++ [r] }

/-- `onScrollToEnd` (:80-86). -/
def Ui.onScrollToEnd (s : Ui α) : Ui α :=
  if !s.paginationState.isLoading && !s.paginationState.isEndReached then { s with queue := s.queue ++ [.loadBody] }
  else s

/-- One task, to its end or its next suspension. -/
def Task.exec : Task α → Ui α → Ui α
  | .initialLoad, s => if s.paginationState.products.isEmpty then s.beginLoad else s
  | .emission products, s => if atEnd products s.lastVisible then s.onScrollToEnd else s
  | .loadBody, s => s.beginLoad
  | .resumption o, s => { s with paginationState := finishLoad s.paginationState o }

inductive Event (α : Type*) where
  /-- The thread takes a task from the queue. -/
  | run (i : Nat)
  /-- A layout pass changes the visible items. -/
  | layout (lastVisible : Option Int)
  | emit
  /-- `ProductGrid` is recomposed with other products; the emission of the old effect may get lost. -/
  | restart (dropped : Bool)
  /-- The network answers. -/
  | respond (i : Nat) (o : Outcome α)

variable [DecidableEq α]

def Ui.step (s : Ui α) : Event α → Option (Ui α)
  | .run i => s.queue[i]?.map fun task => task.exec { s with queue := s.queue.eraseIdx i }
  | .layout lastVisible => some { s with lastVisible := lastVisible, changed := true }
  | .emit =>
    if s.changed && !s.queue.any (·.isEmission) then
      some { s with queue := s.queue ++ [.emission s.captured], changed := false }
    else none
  | .restart dropped =>
    if s.captured ≠ s.paginationState.products then
      some { s with
        captured := s.paginationState.products
        changed := true
        queue := if dropped then s.queue.filter (!·.isEmission) else s.queue }
    else none
  | .respond i o => s.inFlight[i]?.map fun _ =>
      { s with inFlight := s.inFlight.eraseIdx i, queue := s.queue ++ [.resumption o] }

variable (α) in
/-- The grid, with its tasks run in any order. -/
def ui : Lts (Ui α) (Event α) := ⟨{}, Ui.step⟩

/-! ## What a step can do -/

omit [DecidableEq α] in
/-- What a task can do, with the reasons. -/
theorem exec_cases (task : Task α) (s : Ui α) :
    ((task = .loadBody ∨ task = .initialLoad ∧ s.paginationState.products = []) ∧ task.exec s = s.beginLoad) ∨
    (∃ ps, task = .emission ps ∧ atEnd ps s.lastVisible = true ∧ s.paginationState.isLoading = false ∧
      s.paginationState.isEndReached = false ∧ task.exec s = { s with queue := s.queue ++ [.loadBody] }) ∨
    (∃ o, task = .resumption o ∧ task.exec s = { s with paginationState := finishLoad s.paginationState o }) ∨
    ((task = .initialLoad ∧ s.paginationState.products ≠ [] ∨ ∃ ps, task = .emission ps ∧
      (atEnd ps s.lastVisible = true → s.paginationState.isLoading = true ∨ s.paginationState.isEndReached = true)) ∧
      task.exec s = s) := by
  cases task with
  | initialLoad =>
    by_cases hp : s.paginationState.products = []
    · exact .inl ⟨.inr ⟨rfl, hp⟩, by simp [Task.exec, hp]⟩
    · exact .inr (.inr (.inr ⟨.inl ⟨rfl, hp⟩, by simp [Task.exec, hp]⟩))
  | emission ps =>
    by_cases ha : atEnd ps s.lastVisible = true
    · by_cases hg : s.paginationState.isLoading = true ∨ s.paginationState.isEndReached = true
      · refine .inr (.inr (.inr ⟨.inr ⟨ps, rfl, fun _ => hg⟩, ?_⟩))
        rcases hg with hg | hg <;> simp [Task.exec, Ui.onScrollToEnd, hg]
      · obtain ⟨hl, he⟩ := not_or.1 hg
        refine .inr (.inl ⟨ps, rfl, ha, eq_false_of_ne_true hl, eq_false_of_ne_true he, ?_⟩)
        simp [Task.exec, Ui.onScrollToEnd, ha, hl, he]
    · exact .inr (.inr (.inr ⟨.inr ⟨ps, rfl, fun h => absurd h ha⟩, by simp [Task.exec, ha]⟩))
  | loadBody => exact .inl ⟨.inl rfl, rfl⟩
  | resumption o => exact .inr (.inr (.inl ⟨o, rfl, rfl⟩))

theorem step_cases {s t : Ui α} {e : Event α} (h : (ui α).step s e = some t) :
    (∃ i task, e = .run i ∧ s.queue[i]? = some task ∧ t = task.exec { s with queue := s.queue.eraseIdx i }) ∨
    (∃ v, e = .layout v ∧ t = { s with lastVisible := v, changed := true }) ∨
    (e = .emit ∧ s.changed = true ∧ (∀ task ∈ s.queue, task.isEmission = false) ∧
      t = { s with queue := s.queue ++ [.emission s.captured], changed := false }) ∨
    (∃ dropped, e = .restart dropped ∧ s.captured ≠ s.paginationState.products ∧
      t = { s with
        captured := s.paginationState.products
        changed := true
        queue := if dropped then s.queue.filter (!·.isEmission) else s.queue }) ∨
    (∃ i r o, e = .respond i o ∧ s.inFlight[i]? = some r ∧
      t = { s with inFlight := s.inFlight.eraseIdx i, queue := s.queue ++ [.resumption o] }) := by
  cases e with
  | run i =>
    obtain ⟨task, ht, rfl⟩ := Option.map_eq_some_iff.1 h
    exact .inl ⟨i, task, rfl, ht, rfl⟩
  | layout v =>
    cases h
    exact .inr (.inl ⟨v, rfl, rfl⟩)
  | emit =>
    simp only [ui, Ui.step, Option.ite_none_right_eq_some, Bool.and_eq_true, Bool.not_eq_true', List.any_eq_false,
      Option.some.injEq] at h
    obtain ⟨⟨hc, hq⟩, rfl⟩ := h
    exact .inr (.inr (.inl ⟨rfl, hc, fun task ht => eq_false_of_ne_true (hq task ht), rfl⟩))
  | restart dropped =>
    simp only [ui, Ui.step, Option.ite_none_right_eq_some, Option.some.injEq] at h
    obtain ⟨hc, rfl⟩ := h
    exact .inr (.inr (.inr (.inl ⟨dropped, rfl, hc, rfl⟩)))
  | respond i o =>
    obtain ⟨r, hr, rfl⟩ := Option.map_eq_some_iff.1 h
    exact .inr (.inr (.inr (.inr ⟨i, r, o, rfl, hr, rfl⟩)))

end CrossplatformBenchmark.Compose
