import CrossplatformBenchmark.Loader.Compose
import CrossplatformBenchmark.Loader.SwiftUI
import CrossplatformBenchmark.Loader.ReactNative

/-!
# The three loaders agree (RemoteImage.kt, RemoteImage.swift, RemoteImage.tsx)

Triggers one at a time: the mount, then scrolls to the end; the answer to a trigger's request, if
it makes one, is taken in before the next. Each loader then does what the pager of page size 30
does, whatever the pages. Only Compose counts the empty page, and only at the end, where no
guard lets a request through any more; with fewer than 71582788 answers its offset stays in `Int`.
-/

namespace CrossplatformBenchmark

open Transition Paging

variable {α : Type*} {k : Nat} {first : Bool} {p : Pager α}

/-! ## Compose -/

section compose

open Compose

variable [DecidableEq α]

variable (α) in
/-- The initial effect, or `onScrollToEnd` and the coroutine it launches, if any. -/
def composeLoader : Loader (Ui α) α where
  init := {}
  fire first s :=
    if first then s.step (.run 0)
    else if s.onScrollToEnd.queue.isEmpty then some s.onScrollToEnd
    else s.onScrollToEnd.step (.run 0)
  waiting s := s.inFlight.head?
  answer ps s := (s.step (.respond 0 (.returned ps))).bind (·.step (.run 0))
  view s := ⟨s.paginationState.products, s.paginationState.isLoading, s.paginationState.isEndReached⟩

structure ComposeRests (first : Bool) (s : Ui α) (p : Pager α) : Prop where
  queue : s.queue = if first then [.initialLoad] else []
  inFlight : s.inFlight = []
  products : s.paginationState.products = p.items
  currentPage : s.paginationState.currentPage.toInt = (if p.done then p.pages + 1 else p.pages : Nat)
  isLoading : s.paginationState.isLoading = false
  isEndReached : s.paginationState.isEndReached = p.done

variable {s : Ui α}

theorem compose_fire_load (h : ComposeRests first s p) (hrest : Resting k first p) (hd : p.done = false) :
    (composeLoader α).fire first s = some (Ui.beginLoad { s with queue := [] }) := by
  have hq := h.queue
  cases first with
  | true =>
    have hp : s.paginationState.products = [] := h.products.trans (hrest.start rfl).1
    simp [composeLoader, Ui.step, hq, Task.exec, hp]
  | false =>
    have hscroll : s.onScrollToEnd = { s with queue := [.loadBody] } := by
      simp [Ui.onScrollToEnd, h.isLoading, h.isEndReached, hd, hq]
    simp [composeLoader, Ui.step, hscroll, Task.exec]

theorem compose_sequential : Sequential (composeLoader α) 30 71582788 ComposeRests where
  init := ⟨rfl, rfl, rfl, rfl, rfl, rfl⟩
  view h hb := by simp only [composeLoader, h.products, h.isLoading, h.isEndReached]
  ended := by
    intro s p h hb hd
    have hscroll : s.onScrollToEnd = s := by simp [Ui.onScrollToEnd, h.isEndReached, hd]
    constructor
    · simp [composeLoader, hscroll, h.queue]
    · simp [composeLoader, h.inFlight]
  load := by
    intro k first s p h hrest hk hd
    have hcount := hrest.answers
    have hc : s.paginationState.currentPage.toInt = p.pages := by rw [h.currentPage, hd]; rfl
    rw [hd, if_neg Bool.false_ne_true] at hcount
    have hreq : (beginLoad s.paginationState).2 = ⟨30, 30 * p.pages⟩ := beginLoad_request hc (by omega)
    refine ⟨_, compose_fire_load h hrest hd, ?_, fun hk' ps => ⟨{ s with
      queue := []
      inFlight := []
      requests := s.requests ++ [(beginLoad s.paginationState).2]
      paginationState := finishLoad { s.paginationState with isLoading := true } (.returned ps) },
      ?_, rfl, rfl, ?_, ?_, rfl, rfl⟩⟩
    · simp [composeLoader, Ui.beginLoad, h.inFlight, hreq]
    · simp [composeLoader, Ui.step, Ui.beginLoad, Task.exec, h.inFlight, beginLoad]
    · simp [finishLoad, Pager.page, Pager.ask, h.products]
    · have hnext : (s.paginationState.currentPage + 1).toInt = p.pages + 1 := toInt_next hc (by omega)
      cases ps <;> simp [finishLoad, Pager.page, Pager.ask, hnext]

end compose

/-! ## SwiftUI -/

section swiftUI

open SwiftUI

variable (α) in
/-- The appearance of the root view, or of the last cell, and the `Task` it creates, if any. -/
def swiftUILoader : Loader (MainActor α) α where
  init := {}
  fire first s :=
    if first && !s.vm.products.isEmpty then some s
    else (s.step .loadMore).bind fun s => if s.tasks.isEmpty then some s else s.step (.start 0)
  waiting s := s.tasks.head?.bind fun
    | .pending => none
    | .inFlight r => some r
  answer ps s := s.step (.finish 0 (.returned ps))
  view s := ⟨s.vm.products, s.vm.isLoading, s.vm.isEndReached⟩

structure SwiftUIRests (s : MainActor α) (p : Pager α) : Prop where
  tasks : s.tasks = []
  products : s.vm.products = p.items
  currentPage : s.vm.currentPage = p.pages
  isLoading : s.vm.isLoading = false
  isEndReached : s.vm.isEndReached = p.done

variable {s : MainActor α}

theorem swiftUI_fire_load (h : SwiftUIRests s p) (hrest : Resting k first p) (hd : p.done = false)
    (hk : k < 71582788) : (swiftUILoader α).fire first s = some { s with
      vm := { s.vm with isLoading := true }
      tasks := [.inFlight ⟨30, 30 * p.pages⟩]
      requests := s.requests ++ [⟨30, 30 * p.pages⟩] } := by
  have hcount := hrest.answers
  rw [hd, if_neg Bool.false_ne_true] at hcount
  have hmount : (first && !s.vm.products.isEmpty) = false := by
    cases first with
    | false => rfl
    | true => simp [h.products, (hrest.start rfl).1]
  have hcall : getProductsCall { s.vm with isLoading := true } = some ⟨30, 30 * (p.pages : Int)⟩ := by
    simp only [getProductsCall, h.currentPage, PAGE_SIZE, Int.mul_comm _ 30]
    rw [trapping_of_lt (by omega) (by omega)]
    rfl
  have hload : s.step .loadMore = some { s with vm := { s.vm with isLoading := true }, tasks := [.pending] } := by
    simp [MainActor.step, loadMore_open h.isLoading (h.isEndReached.trans hd), h.tasks]
  simp only [swiftUILoader, hmount, Bool.false_eq_true, if_false, hload]
  simp [MainActor.step, hcall]

theorem swiftUI_sequential : Sequential (swiftUILoader α) 30 71582788 fun _ s p => SwiftUIRests s p where
  init := ⟨rfl, rfl, rfl, rfl, rfl⟩
  view h hb := by simp only [swiftUILoader, h.products, h.isLoading, h.isEndReached]
  ended := by
    intro s p h hb hd
    have hstep : s.step .loadMore = some s := by
      simp [MainActor.step, loadMore_closed (.inr (h.isEndReached.trans hd))]
    constructor
    · simp [swiftUILoader, hstep, h.tasks]
    · simp [swiftUILoader, h.tasks]
  load := by
    intro k first s p h hrest hk hd
    have hcount := hrest.answers
    rw [hd, if_neg Bool.false_ne_true] at hcount
    refine ⟨_, swiftUI_fire_load h hrest hd hk, rfl, fun hk' ps => ?_⟩
    cases ps with
    | nil =>
      refine ⟨_, rfl, rfl, ?_, h.currentPage, rfl, rfl⟩
      simp [Pager.page, Pager.ask, h.products]
    | cons x ps =>
      have hnext : trapping (s.vm.currentPage + 1) = some (p.pages + 1 : Int) := by
        rw [h.currentPage]
        exact trapping_of_lt (by omega) (by omega)
      refine ⟨{ s with
        vm := ⟨s.vm.products ++ x :: ps, p.pages + 1, false, s.vm.isEndReached⟩
        tasks := []
        requests := s.requests ++ [⟨30, 30 * p.pages⟩]
        responses := s.responses ++ [x :: ps] }, ?_, rfl, ?_, ?_, rfl, ?_⟩
      · simp [swiftUILoader, MainActor.step, resume, hnext, logged]
      · simp [Pager.page, Pager.ask, h.products]
      · simp [Pager.page, Pager.ask]
      · simp [Pager.page, h.isEndReached, hd]

end swiftUI

/-! ## React Native -/

section reactNative

open ReactNative

variable (α) in
/-- The mount effect, or `onEndReached`; each trigger and each answer with its commit. -/
def reactNativeLoader : Loader (App α) α where
  init := {}
  fire _ s := (s.step .call).bind (·.step .commit)
  waiting s := s.inFlight.head?
  answer ps s := (s.step (.complete 0 (.body (some ps)))).bind (·.step .commit)
  view s := ⟨s.committed.products, s.committed.isLoading, s.committed.isEndReached⟩

structure ReactNativeRests (s : App α) (p : Pager α) : Prop where
  updates : s.updates = []
  inFlight : s.inFlight = []
  committed : s.committed = ⟨p.items, false, p.done, p.pages⟩

variable {s : App α}

theorem reactNative_fire_end (h : ReactNativeRests s p) (hd : p.done = true) :
    (reactNativeLoader α).fire false s = some s := by
  obtain ⟨st, us, rs, asked⟩ := s
  obtain ⟨rfl, rfl, hst⟩ := h
  simp only at hst
  simp [reactNativeLoader, App.step, loadMoreProducts, hst, hd, App.commit, App.pending]

theorem reactNative_fire_load (h : ReactNativeRests s p) (hd : p.done = false) :
    (reactNativeLoader α).fire first s = some ⟨⟨p.items, true, false, p.pages⟩, [], [⟨30, 30 * p.pages⟩],
      s.requests ++ [⟨30, 30 * p.pages⟩]⟩ := by
  have hguard : loadMoreProducts (⟨p.items, false, false, p.pages⟩ : Cells α) = some ⟨30, 30 * p.pages⟩ :=
    loadMoreProducts_some.2 ⟨rfl, rfl, rfl⟩
  simp [reactNativeLoader, App.step, hguard, h.updates, h.inFlight, h.committed, hd, App.commit, App.pending,
    Update.apply]

theorem reactNative_sequential : Sequential (reactNativeLoader α) 30 71582788 fun _ s p => ReactNativeRests s p where
  init := ⟨rfl, rfl, rfl⟩
  view h hb := by simp only [reactNativeLoader, h.committed]
  ended := by
    intro s p h hb hd
    exact ⟨reactNative_fire_end h hd, by simp [reactNativeLoader, h.inFlight]⟩
  load := by
    intro k first s p h hrest hk hd
    refine ⟨_, reactNative_fire_load h hd, rfl, fun hk' ps => ⟨⟨⟨p.items ++ ps, false, ps.isEmpty,
      if ps.isEmpty then p.pages else p.pages + 1⟩, [], [], s.requests ++ [⟨30, 30 * p.pages⟩]⟩, ?_, rfl, rfl, ?_⟩⟩
    · simp [reactNativeLoader, App.step, fetchProducts, App.commit, App.pending, apply_afterFetch]
    · simp [Pager.page, Pager.ask]

end reactNative

/-- **The three loaders agree.** `rs` are the answers, one per request, and `n` the number of triggers: the same
requests, and after every trigger the same products, `isLoading` and `isEndReached`. -/
theorem loaders_agree [DecidableEq α] (rs : List (List α)) (n : Nat) (h : rs.length < 71582788) :
    (composeLoader α).drive true {} rs n = (swiftUILoader α).drive true {} rs n ∧
    (swiftUILoader α).drive true {} rs n = (reactNativeLoader α).drive true {} rs n ∧
    (reactNativeLoader α).drive true {} rs n = (sequential α 30).drive true {} rs n := by
  have hc := compose_sequential.drive_eq n h
  have hs := swiftUI_sequential.drive_eq n h
  have hr := reactNative_sequential.drive_eq n h
  exact ⟨hc.trans hs.symm, hs.trans hr.symm, hr⟩

/-- A page, the empty page, and a scroll after it. -/
theorem loaders_agree_three : (composeLoader Nat).drive true {} [[7], []] 3 =
    (swiftUILoader Nat).drive true {} [[7], []] 3 ∧ (reactNativeLoader Nat).drive true {} [[7], []] 3 =
    [(some ⟨30, 0⟩, some ⟨[7], false, false⟩), (some ⟨30, 30⟩, some ⟨[7], false, true⟩),
      (none, some ⟨[7], false, true⟩)] := by
  obtain ⟨h1, -, h3⟩ := loaders_agree [[7], []] 3 (by decide)
  exact ⟨h1, h3.trans rfl⟩

end CrossplatformBenchmark
