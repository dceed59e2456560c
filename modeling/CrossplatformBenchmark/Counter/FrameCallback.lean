import CrossplatformBenchmark.Counter.Compare
import CrossplatformBenchmark.Counter.FrameRate
import CrossplatformBenchmark.Counter.ReSwift

/-!
# The SwiftUI counter screen (CounterApp.swift)

A `CallbackUIView` owns a display link while it is in a view hierarchy; every callback of the link dispatches one
increment. A `CADisplayLink` retains its target, the view retains `onFrame`, and `onFrame` retains the view store of
the `CounterAppSwiftUI` value it was made by: `updateUIView` is empty, so the view keeps the first one.

| here | there |
| --- | --- |
| `App.startFrameUpdates` | `if displayLink == nil { … add(to: .main, …) }` (CounterApp.swift:28-33) |
| `App.stopFrameUpdates`  | `displayLink?.invalidate(); displayLink = nil` (:35-38) |
| `App.didMoveToSuperview` | UIKit sets `superview`, then the override (:18-26) |
| `.build`, `.drop`       | SwiftUI makes a `CounterAppSwiftUI` value (:125-126), and gives the latest one up |
| `.makeUIView`           | `makeUIView` for a `FrameCallbackView` of the body (:6-10, :142-145) |
| `.callback`             | the run loop fires one display link: `frameUpdate` (:40-42), `viewStore.dispatch` (:115-117) |
| `.dealloc`              | the view's `deinit` (:44-46), once nothing refers to the view |

Nothing but `onFrame` dispatches to this store. `times` keeps what the clock showed at each callback.

* `displayLinks_onScreen` — the display links are the views in a hierarchy, one each, in every run.
* `swiftUI_screen` — what `N` such views make of the frames is what the store makes of `N` increments at each frame.
-/

namespace CrossplatformBenchmark.FrameCallback

open Transition Observer ViewStores SlidingWindow

structure CallbackUIView where
  id : Nat
  superview : Option Nat := none
  displayLink : Option Nat := none
  /-- The view store that the closure dispatches through. -/
  onFrame : Nat

structure CADisplayLink where
  id : Nat
  target : Nat

structure App where
  store : ReSwift.Heap := {}
  /-- The view store of the latest `CounterAppSwiftUI`. -/
  viewStore : Option Nat := none
  views : List CallbackUIView := []
  /-- The links added to the main run loop. -/
  displayLinks : List CADisplayLink := []
  viewsCreated : Nat := 0
  linksCreated : Nat := 0
  times : List ℚ := []

def App.setView (s : App) (view : CallbackUIView) : App :=
  { s with views := s.views.map fun v => if v.id = view.id then view else v }

def App.startFrameUpdates (s : App) (view : CallbackUIView) : App :=
  if view.displayLink = none then
    { s.setView { view with displayLink := some s.linksCreated } with
      displayLinks := s.displayLinks ++ [⟨s.linksCreated, view.id⟩]
      linksCreated := s.linksCreated + 1 }
  else s

def App.stopFrameUpdates (s : App) (view : CallbackUIView) : App :=
  { s.setView { view with displayLink := none } with
    displayLinks := s.displayLinks.filter fun link => view.displayLink ≠ some link.id }

def App.didMoveToSuperview (s : App) (view : CallbackUIView) (superview : Option Nat) : App :=
  let moved := { view with superview := superview }
  if superview ≠ none then (s.setView moved).startFrameUpdates moved else (s.setView moved).stopFrameUpdates moved

inductive Event where
  | build (address : Nat)
  | drop
  | makeUIView
  | didMoveToSuperview (id : Nat) (superview : Option Nat)
  /-- The clock, and the order in which the store's boxes are iterated. -/
  | callback (link : Nat) (currentTime : ℚ) (order : List ReSwift.SubscriptionBox)
  | deliver
  | dealloc (id : Nat)
  | deinit (id : Nat) (found : Bool)

def App.step (s : App) : Event → Option App
  | .build address =>
    (ReSwift.heap.step s.store (.create address)).map fun store => { s with store := store, viewStore := some s.store.created }
  | .drop => some { s with viewStore := none }
  | .makeUIView => s.viewStore.map fun viewStore =>
    { s with views := s.views ++ [{ id := s.viewsCreated, onFrame := viewStore }], viewsCreated := s.viewsCreated + 1 }
  | .didMoveToSuperview id superview =>
    (s.views.find? (·.id = id)).map fun view => s.didMoveToSuperview view superview
  | .callback link currentTime order =>
    if s.displayLinks.any (·.id = link) then
      (ReSwift.heap.step s.store (.dispatch .increment currentTime order)).map fun store =>
        { s with store := store, times := s.times ++ [currentTime] }
    else none
  | .deliver => (ReSwift.heap.step s.store .deliver).map fun store => { s with store := store }
  | .dealloc id =>
    -- a superview retains its subviews, a display link its target
    (s.views.find? fun view => view.id = id ∧ view.superview = none ∧ ∀ link ∈ s.displayLinks, link.target ≠ id).map
      fun view => { s.stopFrameUpdates view with views := s.views.filter (·.id ≠ id) }
  | .deinit id found =>
    if s.viewStore = some id ∨ ∃ view ∈ s.views, view.onFrame = id then none
    else (ReSwift.heap.step s.store (.deinit id found)).map fun store => { s with store := store }

def app : Lts App Event := ⟨{}, App.step⟩

/-! ## What a step can do -/

theorem dealloc_cases {s t : App} {id : Nat} (h : app.step s (.dealloc id) = some t) :
    ∃ view ∈ s.views, view.id = id ∧ view.superview = none ∧ (∀ link ∈ s.displayLinks, link.target ≠ id) ∧
      t = { s.stopFrameUpdates view with views := s.views.filter (·.id ≠ id) } := by
  obtain ⟨view, hv, rfl⟩ := Option.map_eq_some_iff.1 h
  obtain ⟨hid, hs, hl⟩ : view.id = id ∧ view.superview = none ∧ ∀ link ∈ s.displayLinks, link.target ≠ id := by
    simpa using List.find?_some hv
  exact ⟨view, List.mem_of_find?_eq_some hv, hid, hs, hl, rfl⟩

theorem step_cases {s t : App} {e : Event} (h : app.step s e = some t) :
    (∃ address store, ReSwift.heap.step s.store (.create address) = some store ∧
      t = { s with store := store, viewStore := some s.store.created }) ∨
    t = { s with viewStore := none } ∨
    (∃ viewStore, s.viewStore = some viewStore ∧ t = { s with
      views := s.views ++ [{ id := s.viewsCreated, onFrame := viewStore }], viewsCreated := s.viewsCreated + 1 }) ∨
    (∃ view ∈ s.views, ∃ superview, t = s.didMoveToSuperview view superview) ∨
    (∃ link currentTime order store, e = .callback link currentTime order ∧ (∃ l ∈ s.displayLinks, l.id = link) ∧
      ReSwift.heap.step s.store (.dispatch .increment currentTime order) = some store ∧
      t = { s with store := store, times := s.times ++ [currentTime] }) ∨
    (∃ store, e = .deliver ∧ ReSwift.heap.step s.store .deliver = some store ∧ t = { s with store := store }) ∨
    (∃ view ∈ s.views, view.superview = none ∧ (∀ link ∈ s.displayLinks, link.target ≠ view.id) ∧
      t = { s.stopFrameUpdates view with views := s.views.filter (·.id ≠ view.id) }) ∨
    (∃ id found store, s.viewStore ≠ some id ∧ (∀ view ∈ s.views, view.onFrame ≠ id) ∧
      ReSwift.heap.step s.store (.deinit id found) = some store ∧ t = { s with store := store }) := by
  cases e with
  | build address =>
    obtain ⟨store, hs, rfl⟩ := Option.map_eq_some_iff.1 h
    exact .inl ⟨address, store, hs, rfl⟩
  | drop => exact .inr (.inl (Option.some.inj h).symm)
  | makeUIView =>
    obtain ⟨viewStore, hv, rfl⟩ := Option.map_eq_some_iff.1 h
    exact .inr (.inr (.inl ⟨viewStore, hv, rfl⟩))
  | didMoveToSuperview id superview =>
    obtain ⟨view, hv, rfl⟩ := Option.map_eq_some_iff.1 h
    exact .inr (.inr (.inr (.inl ⟨view, List.mem_of_find?_eq_some hv, superview, rfl⟩)))
  | callback link currentTime order =>
    obtain ⟨hl, ht⟩ := Option.ite_none_right_eq_some.1 h
    obtain ⟨store, hs, rfl⟩ := Option.map_eq_some_iff.1 ht
    exact .inr (.inr (.inr (.inr (.inl ⟨link, currentTime, order, store, rfl, by simpa using hl, hs, rfl⟩))))
  | deliver =>
    obtain ⟨store, hs, rfl⟩ := Option.map_eq_some_iff.1 h
    exact .inr (.inr (.inr (.inr (.inr (.inl ⟨store, rfl, hs, rfl⟩)))))
  | dealloc id =>
    obtain ⟨view, hv, rfl, hs, hl, rfl⟩ := dealloc_cases h
    exact .inr (.inr (.inr (.inr (.inr (.inr (.inl ⟨view, hv, hs, hl, rfl⟩))))))
  | deinit id found =>
    obtain ⟨hn, ht⟩ := Option.ite_none_left_eq_some.1 h
    obtain ⟨store, hs, rfl⟩ := Option.map_eq_some_iff.1 ht
    refine .inr (.inr (.inr (.inr (.inr (.inr (.inr ⟨id, found, store, ?_, ?_, hs, rfl⟩))))))
    · exact fun he => hn (.inl he)
    · exact fun view hv he => hn (.inr ⟨view, hv, he⟩)

/-! ## One display link for each view in a hierarchy -/

structure Linked (s : App) : Prop where
  views : (s.views.map (·.id)).Nodup
  links : (s.displayLinks.map (·.id)).Nodup
  freshView : ∀ view ∈ s.views, view.id < s.viewsCreated
  freshLink : ∀ link ∈ s.displayLinks, link.id < s.linksCreated
  onScreen : ∀ view ∈ s.views, view.displayLink.isSome = view.superview.isSome
  link : ∀ view ∈ s.views, ∀ l, view.displayLink = some l ↔ (⟨l, view.id⟩ : CADisplayLink) ∈ s.displayLinks
  target : ∀ link ∈ s.displayLinks, ∃ view ∈ s.views, view.id = link.target

theorem Linked.congr {s t : App} (h : Linked s) (views : t.views = s.views) (links : t.displayLinks = s.displayLinks)
    (viewsCreated : t.viewsCreated = s.viewsCreated) (linksCreated : t.linksCreated = s.linksCreated) : Linked t := by
  obtain ⟨h1, h2, h3, h4, h5, h6, h7⟩ := h
  refine ⟨?_, ?_, ?_, ?_, ?_, ?_, ?_⟩ <;> simpa only [views, links, viewsCreated, linksCreated]

theorem Linked.init : Linked {} := by
  refine ⟨?_, ?_, ?_, ?_, ?_, ?_, ?_⟩ <;> simp

theorem Linked.makeUIView {s : App} (h : Linked s) (viewStore : Nat) : Linked { s with
    views := s.views ++ [{ id := s.viewsCreated, onFrame := viewStore }], viewsCreated := s.viewsCreated + 1 } := by
  have htarget : ∀ link ∈ s.displayLinks, link.target < s.viewsCreated := by
    intro link hl
    obtain ⟨view, hv, he⟩ := h.target link hl
    exact he ▸ h.freshView view hv
  refine ⟨?_, h.links, ?_, h.freshLink, ?_, ?_, ?_⟩
  · exact Table.nodup_concat h.views fun view hv => Nat.ne_of_lt (h.freshView view hv)
  · intro view hv
    rcases List.mem_append.1 hv with hv | hv
    · exact Nat.lt_succ_of_lt (h.freshView view hv)
    · rw [List.mem_singleton.1 hv]
      exact Nat.lt_succ_self _
  · intro view hv
    rcases List.mem_append.1 hv with hv | hv
    · exact h.onScreen view hv
    · rw [List.mem_singleton.1 hv, Option.isSome_none]
  · intro view hv l
    rcases List.mem_append.1 hv with hv | hv
    · exact h.link view hv l
    · rw [List.mem_singleton.1 hv]
      refine ⟨fun he => ?_, fun hl => ?_⟩
      · cases he
      · exact absurd (htarget _ hl) (Nat.lt_irrefl _)
  · intro link hl
    obtain ⟨view, hv, he⟩ := h.target link hl
    exact ⟨view, List.mem_append_left _ hv, he⟩

theorem setView_setView (s : App) (v w : CallbackUIView) (h : v.id = w.id) : (s.setView v).setView w = s.setView w := by
  simp only [App.setView, List.map_map]
  congr 1
  refine List.map_congr_left fun u _ => ?_
  by_cases hu : u.id = w.id <;> simp [hu, h]

theorem didMoveToSuperview_none (s : App) (view : CallbackUIView) :
    s.didMoveToSuperview view none = { s.setView { view with superview := none, displayLink := none } with
      displayLinks := s.displayLinks.filter fun link => view.displayLink ≠ some link.id } := by
  rw [← setView_setView s { view with superview := none } { view with superview := none, displayLink := none } rfl]
  rfl

theorem didMoveToSuperview_some_of_none (s : App) {view : CallbackUIView} (hd : view.displayLink = none)
    (superview : Nat) : s.didMoveToSuperview view (some superview) =
      { s.setView { view with superview := some superview, displayLink := some s.linksCreated } with
        displayLinks := s.displayLinks ++ [⟨s.linksCreated, view.id⟩]
        linksCreated := s.linksCreated + 1 } := by
  rw [← setView_setView s { view with superview := some superview }
    { view with superview := some superview, displayLink := some s.linksCreated } rfl]
  simp only [App.didMoveToSuperview, App.startFrameUpdates, if_pos hd]
  rfl

theorem didMoveToSuperview_some_of_some (s : App) {view : CallbackUIView} (hd : view.displayLink ≠ none)
    (superview : Nat) : s.didMoveToSuperview view (some superview) =
      s.setView { view with superview := some superview } := by
  simp only [App.didMoveToSuperview, App.startFrameUpdates, if_neg hd]
  rfl

/-- One view and its links change; the others keep theirs. -/
theorem Linked.setView {s : App} (h : Linked s) {view : CallbackUIView} (hv : view ∈ s.views)
    (view' : CallbackUIView) (hid : view'.id = view.id) {links : List CADisplayLink} {linksCreated : Nat}
    (hnodup : (links.map (·.id)).Nodup) (hfresh : ∀ link ∈ links, link.id < linksCreated)
    (hscreen : view'.displayLink.isSome = view'.superview.isSome)
    (hlink : ∀ l, view'.displayLink = some l ↔ (⟨l, view.id⟩ : CADisplayLink) ∈ links)
    (hothers : ∀ link : CADisplayLink, link.target ≠ view.id → (link ∈ links ↔ link ∈ s.displayLinks)) :
    Linked { s.setView view' with displayLinks := links, linksCreated := linksCreated } := by
  have hmem : ∀ v ∈ (s.setView view').views, v = view' ∨ v ∈ s.views ∧ v.id ≠ view.id := by
    intro v hv
    obtain ⟨u, hu, rfl⟩ := List.mem_map.1 hv
    by_cases he : u.id = view.id
    · exact .inl (if_pos (he.trans hid.symm))
    · rw [if_neg (by rwa [hid])]
      exact .inr ⟨hu, he⟩
  have hids : (s.setView view').views.map (·.id) = s.views.map (·.id) :=
    Table.map_update (fun _ hu => hu.symm) s.views
  refine ⟨hids ▸ h.views, hnodup, ?_, hfresh, ?_, ?_, ?_⟩
  · intro v hv'
    rcases hmem v hv' with rfl | ⟨hv', -⟩
    · exact hid ▸ h.freshView view hv
    · exact h.freshView v hv'
  · intro v hv'
    rcases hmem v hv' with rfl | ⟨hv', -⟩
    · exact hscreen
    · exact h.onScreen v hv'
  · intro v hv' l
    rcases hmem v hv' with rfl | ⟨hv', hne⟩
    · rw [hid]
      exact hlink l
    · exact (h.link v hv' l).trans (hothers ⟨l, v.id⟩ hne).symm
  · intro link hl
    have hin : ∀ i ∈ s.views.map (·.id), ∃ v ∈ (s.setView view').views, v.id = i := by
      rw [← hids]
      intro i hi
      exact List.mem_map.1 hi
    by_cases he : link.target = view.id
    · exact hin _ (List.mem_map.2 ⟨view, hv, he.symm⟩)
    · obtain ⟨v, hv', hv''⟩ := h.target link ((hothers link he).1 hl)
      exact hin _ (List.mem_map.2 ⟨v, hv', hv''⟩)

theorem Linked.didMoveToSuperview {s : App} (h : Linked s) {view : CallbackUIView} (hv : view ∈ s.views)
    (superview : Option Nat) : Linked (s.didMoveToSuperview view superview) := by
  have hlink := h.link view hv
  cases superview with
  | none =>
    rw [didMoveToSuperview_none]
    refine h.setView hv { view with superview := none, displayLink := none } rfl
      (h.links.sublist (List.filter_sublist.map _)) ?_ rfl ?_ ?_
    · exact fun link hl => h.freshLink link (List.mem_filter.1 hl).1
    · intro l
      refine ⟨fun he => ?_, fun hl => ?_⟩
      · cases he
      · obtain ⟨hl, hne⟩ := List.mem_filter.1 hl
        exact absurd ((hlink l).2 hl) (of_decide_eq_true hne)
    · intro link hne
      refine ⟨fun hl => (List.mem_filter.1 hl).1, fun hl => List.mem_filter.2 ⟨hl, decide_eq_true fun he => ?_⟩⟩
      -- the link of another view is not the one invalidated
      have heq := List.inj_on_of_nodup_map h.links hl ((hlink link.id).1 he) rfl
      exact hne (congrArg CADisplayLink.target heq)
  | some superview =>
    by_cases hd : view.displayLink = none
    · rw [didMoveToSuperview_some_of_none s hd]
      have hnone : ∀ l, (⟨l, view.id⟩ : CADisplayLink) ∉ s.displayLinks := by
        intro l hl
        rw [← hlink l, hd] at hl
        cases hl
      refine h.setView hv { view with superview := some superview, displayLink := some s.linksCreated } rfl ?_ ?_ rfl
        ?_ ?_
      · exact Table.nodup_concat h.links fun link hl => Nat.ne_of_lt (h.freshLink link hl)
      · intro link hl
        rcases List.mem_append.1 hl with hl | hl
        · exact Nat.lt_succ_of_lt (h.freshLink link hl)
        · rw [List.mem_singleton.1 hl]
          exact Nat.lt_succ_self _
      · intro l
        simp [hnone l, eq_comm]
      · rintro ⟨l, i⟩ hne
        simp only [List.mem_append, List.mem_singleton, CADisplayLink.mk.injEq, or_iff_left_iff_imp]
        exact fun he => absurd he.2 hne
    · rw [didMoveToSuperview_some_of_some s hd]
      refine h.setView hv { view with superview := some superview } rfl h.links h.freshLink ?_ hlink fun _ _ => Iff.rfl
      exact Option.isSome_iff_ne_none.2 hd

/-- The `deinit` of a view finds no display link to stop. -/
theorem Linked.stopFrameUpdates {s : App} (h : Linked s) {view : CallbackUIView} (hv : view ∈ s.views)
    (hs : view.superview = none) : (s.stopFrameUpdates view).displayLinks = s.displayLinks := by
  have hd : view.displayLink = none := by
    have hscreen := h.onScreen view hv
    rw [hs] at hscreen
    exact Option.isSome_eq_false_iff.1 hscreen |> Option.isNone_iff_eq_none.1
  exact List.filter_eq_self.2 fun link _ => decide_eq_true (hd ▸ (Option.some_ne_none link.id).symm)

theorem Linked.dealloc {s : App} (h : Linked s) {view : CallbackUIView} (hv : view ∈ s.views)
    (hs : view.superview = none) (hlink : ∀ link ∈ s.displayLinks, link.target ≠ view.id) :
    Linked { s.stopFrameUpdates view with views := s.views.filter (·.id ≠ view.id) } := by
  have hlinks := h.stopFrameUpdates hv hs
  refine ⟨h.views.sublist (List.filter_sublist.map _), ?_, ?_, ?_, ?_, ?_, ?_⟩
  · exact hlinks ▸ h.links
  · exact fun v hv' => h.freshView v (List.mem_filter.1 hv').1
  · exact fun link hl => h.freshLink link (hlinks ▸ hl)
  · exact fun v hv' => h.onScreen v (List.mem_filter.1 hv').1
  · intro v hv' l
    simp only [hlinks]
    exact h.link v (List.mem_filter.1 hv').1 l
  · intro link hl
    obtain ⟨v, hv', he⟩ := h.target link (hlinks ▸ hl)
    refine ⟨v, List.mem_filter.2 ⟨hv', decide_eq_true ?_⟩, he⟩
    rw [he]
    exact hlink link (hlinks ▸ hl)

theorem linked_inductive : app.Inductive Linked where
  init := .init
  step := by
    intro s e t h ht
    rcases step_cases ht with ⟨address, store, -, rfl⟩ | rfl | ⟨viewStore, -, rfl⟩ | ⟨view, hv, superview, rfl⟩ |
      ⟨link, currentTime, order, store, -, -, -, rfl⟩ | ⟨store, -, -, rfl⟩ | ⟨view, hv, hs, hl, rfl⟩ |
      ⟨id, found, store, -, -, -, rfl⟩
    · exact h.congr rfl rfl rfl rfl
    · exact h.congr rfl rfl rfl rfl
    · exact h.makeUIView viewStore
    · exact h.didMoveToSuperview hv superview
    · exact h.congr rfl rfl rfl rfl
    · exact h.congr rfl rfl rfl rfl
    · exact h.dealloc hv hs hl
    · exact h.congr rfl rfl rfl rfl

/-- The views in a hierarchy. -/
def App.onScreen (s : App) : List CallbackUIView := s.views.filter (·.superview.isSome)

theorem Linked.targets {s : App} (h : Linked s) : (s.displayLinks.map (·.target)).Perm (s.onScreen.map (·.id)) := by
  refine (List.perm_ext_iff_of_nodup ?_ (h.views.sublist (List.filter_sublist.map _))).2 fun i => ⟨?_, ?_⟩
  · refine List.Nodup.map_on ?_ (List.Nodup.of_map _ h.links)
    rintro ⟨l, i⟩ hl ⟨l', i'⟩ hl' he
    obtain rfl : i = i' := he
    obtain ⟨view, hv, rfl⟩ := h.target _ hl
    have hsame := ((h.link view hv l).2 hl).symm.trans ((h.link view hv l').2 hl')
    rw [Option.some.inj hsame]
  · intro hi
    obtain ⟨⟨l, i⟩, hl, rfl⟩ := List.mem_map.1 hi
    obtain ⟨view, hv, rfl⟩ := h.target _ hl
    refine List.mem_map.2 ⟨view, List.mem_filter.2 ⟨hv, ?_⟩, rfl⟩
    rw [← h.onScreen view hv, (h.link view hv l).2 hl, Option.isSome_some]
  · intro hi
    obtain ⟨view, hv, rfl⟩ := List.mem_map.1 hi
    obtain ⟨hv, hs⟩ := List.mem_filter.1 hv
    rw [← h.onScreen view hv] at hs
    obtain ⟨l, hl⟩ := Option.isSome_iff_exists.1 hs
    exact List.mem_map.2 ⟨_, (h.link view hv l).1 hl, rfl⟩

/-- **One display link for each view in a hierarchy** and none for the others, so that a `deinit` stops none. -/
theorem displayLinks_onScreen {s : App} (h : app.Reachable s) :
    (s.displayLinks.map (·.target)).Perm (s.onScreen.map (·.id)) ∧ (s.displayLinks.map (·.id)).Nodup ∧
    ∀ {id t}, app.step s (.dealloc id) = some t → t.displayLinks = s.displayLinks := by
  have hi := linked_inductive.reachable h
  refine ⟨hi.targets, hi.links, ?_⟩
  intro id t ht
  obtain ⟨view, hv, -, hs, -, rfl⟩ := dealloc_cases ht
  exact hi.stopFrameUpdates hv hs

/-- Two views, the first moved to another superview, the second taken out of its own. -/
theorem displayLinks_onScreen_moved :
    ∃ s : App, app.run {} [.build 5, .makeUIView, .makeUIView, .didMoveToSuperview 0 (some 7),
        .didMoveToSuperview 1 (some 7), .didMoveToSuperview 0 (some 8), .didMoveToSuperview 1 none] = some s ∧
      s.displayLinks.length = 1 ∧ (s.displayLinks.map (·.target)).Perm (s.onScreen.map (·.id)) := by
  refine ⟨_, rfl, rfl, (displayLinks_onScreen ⟨[.build 5, .makeUIView, .makeUIView, .didMoveToSuperview 0 (some 7),
    .didMoveToSuperview 1 (some 7), .didMoveToSuperview 0 (some 8), .didMoveToSuperview 1 none], rfl⟩).1⟩

/-! ## Callbacks and the store -/

/-- The store has reduced one increment for each callback; what a view or the screen refers to is alive. -/
structure Counted (s : App) : Prop where
  store : ReSwift.heap.Reachable s.store
  state : s.store.state = run Swift.counterReducer (s.times.map fun t => (Action.increment, t))
  current : ∀ id, s.viewStore = some id → s.store.isAlive id
  captured : ∀ view ∈ s.views, s.store.isAlive view.onFrame

/-- The views after a move close over what they closed over before. -/
theorem onFrame_didMoveToSuperview {s : App} {view : CallbackUIView} (hv : view ∈ s.views) (superview : Option Nat) :
    ∀ v ∈ (s.didMoveToSuperview view superview).views, ∃ u ∈ s.views, v.onFrame = u.onFrame := by
  have hset : ∀ w : CallbackUIView, w.onFrame = view.onFrame → ∀ v ∈ (s.setView w).views,
      ∃ u ∈ s.views, v.onFrame = u.onFrame := by
    intro w hw v hv'
    obtain ⟨u, hu, rfl⟩ := List.mem_map.1 hv'
    split
    · exact ⟨view, hv, hw⟩
    · exact ⟨u, hu, rfl⟩
  cases superview with
  | none =>
    rw [didMoveToSuperview_none]
    exact hset { view with superview := none, displayLink := none } rfl
  | some superview =>
    by_cases hd : view.displayLink = none
    · rw [didMoveToSuperview_some_of_none s hd]
      exact hset { view with superview := some superview, displayLink := some s.linksCreated } rfl
    · rw [didMoveToSuperview_some_of_some s hd]
      exact hset { view with superview := some superview } rfl

theorem didMoveToSuperview_frame (s : App) (view : CallbackUIView) (superview : Option Nat) :
    (s.didMoveToSuperview view superview).store = s.store ∧
    (s.didMoveToSuperview view superview).viewStore = s.viewStore ∧
    (s.didMoveToSuperview view superview).times = s.times := by
  cases superview with
  | none => exact ⟨rfl, rfl, rfl⟩
  | some superview =>
    by_cases hd : view.displayLink = none
    · rw [didMoveToSuperview_some_of_none s hd]
      exact ⟨rfl, rfl, rfl⟩
    · rw [didMoveToSuperview_some_of_some s hd]
      exact ⟨rfl, rfl, rfl⟩

theorem counted_inductive : app.Inductive Counted where
  init := ⟨Lts.Reachable.init, rfl, by simp [app], by simp [app]⟩
  step := by
    intro s e t h ht
    rcases step_cases ht with ⟨address, store, hs, rfl⟩ | rfl | ⟨viewStore, hv, rfl⟩ | ⟨view, hv, superview, rfl⟩ |
      ⟨link, currentTime, order, store, -, -, hs, rfl⟩ | ⟨store, -, hs, rfl⟩ | ⟨view, hv, -, -, rfl⟩ |
      ⟨id, found, store, hne, hn, hs, rfl⟩
    · refine ⟨h.store.step hs, ?_, ?_, fun view hv => ReSwift.isAlive_step hs (h.captured view hv) (by simp)⟩
      · rw [← h.state]
        exact ReSwift.state_of_step hs (by simp)
      · intro id hid
        cases hid
        obtain ⟨-, ht⟩ := Option.ite_none_left_eq_some.1 hs
        cases ht
        exact ReSwift.isAlive_iff.2 ⟨_, List.mem_append_right _ (List.mem_singleton.2 rfl), rfl⟩
    · refine ⟨h.store, h.state, ?_, h.captured⟩
      intro id hid
      cases hid
    · refine ⟨h.store, h.state, h.current, ?_⟩
      intro view hview
      rcases List.mem_append.1 hview with hview | hview
      · exact h.captured view hview
      · rw [List.mem_singleton.1 hview]
        exact h.current viewStore hv
    · obtain ⟨hstore, hview, htimes⟩ := didMoveToSuperview_frame s view superview
      refine ⟨hstore ▸ h.store, by rw [hstore, htimes]; exact h.state, by rw [hstore, hview]; exact h.current, ?_⟩
      intro v hv'
      obtain ⟨u, hu, he⟩ := onFrame_didMoveToSuperview hv superview v hv'
      rw [hstore, he]
      exact h.captured u hu
    · refine ⟨h.store.step hs, ?_, fun id hid => ReSwift.isAlive_step hs (h.current id hid) (by simp),
        fun view hv => ReSwift.isAlive_step hs (h.captured view hv) (by simp)⟩
      rw [ReSwift.state_of_dispatch hs, h.state]
      simp [run]
    · refine ⟨h.store.step hs, ?_, fun id hid => ReSwift.isAlive_step hs (h.current id hid) (by simp),
        fun view hv => ReSwift.isAlive_step hs (h.captured view hv) (by simp)⟩
      rw [← h.state]
      exact ReSwift.state_of_step hs (by simp)
    · exact ⟨h.store, h.state, h.current, fun v hv' => h.captured v (List.mem_filter.1 hv').1⟩
    · refine ⟨h.store.step hs, ?_, ?_, ?_⟩
      · rw [← h.state]
        exact ReSwift.state_of_step hs (by simp)
      · intro i hi
        refine ReSwift.isAlive_step hs (h.current i hi) fun f he => ?_
        cases he
        exact hne hi
      · intro view hv
        refine ReSwift.isAlive_step hs (h.captured view hv) fun f he => ?_
        cases he
        exact hn view hv rfl

theorem Counted.counter {s : App} (h : Counted s) : s.store.state.counter = s.times.length := by
  have hcounter : s.store.state.counter = (· + 1)^[(clocks (s.times.map fun t => (Action.increment, t))).length] 0 := by
    rw [h.state]
    exact run_counter _
  rw [hcounter, clocks_increments, iterate_succ_int]

/-- **Each callback is counted once**, and comes from a view in a hierarchy whose view store is still there. -/
theorem callbacks_counted {s : App} (h : app.Reachable s) :
    s.store.state = run Swift.counterReducer (s.times.map fun t => (Action.increment, t)) ∧
    s.store.state.counter = s.times.length ∧
    ∀ {link currentTime order t}, app.step s (.callback link currentTime order) = some t →
      ∃ view ∈ s.onScreen, (⟨link, view.id⟩ : CADisplayLink) ∈ s.displayLinks ∧ s.store.isAlive view.onFrame := by
  have hc := counted_inductive.reachable h
  have hl := linked_inductive.reachable h
  refine ⟨hc.state, hc.counter, ?_⟩
  intro link currentTime order t ht
  obtain ⟨hany, -⟩ := Option.ite_none_right_eq_some.1 ht
  obtain ⟨⟨l, i⟩, hmem, he⟩ := List.any_eq_true.1 hany
  obtain rfl : l = link := of_decide_eq_true he
  obtain ⟨view, hv, rfl⟩ := hl.target _ hmem
  refine ⟨view, List.mem_filter.2 ⟨hv, ?_⟩, hmem, hc.captured view hv⟩
  rw [← hl.onScreen view hv, (hl.link view hv l).2 hmem, Option.isSome_some]

/-- The link's view still dispatches through the first view store, the screen shows the second. -/
theorem callbacks_counted_rebuilt :
    ∃ s : App, app.run {} [.build 5, .makeUIView, .didMoveToSuperview 0 (some 7), .build 6,
        .callback 0 3 [⟨5, 0⟩, ⟨6, 1⟩], .callback 0 4 [⟨5, 0⟩, ⟨6, 1⟩]] = some s ∧
      s.viewStore = some 1 ∧ s.views.map (·.onFrame) = [0] ∧ s.store.state.counter = s.times.length := by
  refine ⟨_, rfl, rfl, rfl, (callbacks_counted ⟨[.build 5, .makeUIView, .didMoveToSuperview 0 (some 7), .build 6,
    .callback 0 3 [⟨5, 0⟩, ⟨6, 1⟩], .callback 0 4 [⟨5, 0⟩, ⟨6, 1⟩]], rfl⟩).2.1⟩

/-! ## Frame by frame -/

/-- The callbacks among the events, with what their clock shows. -/
def callbacks (es : List Event) : List (Nat × ℚ) :=
  es.filterMap fun e => match e with
    | .callback link currentTime _ => some (link, currentTime)
    | _ => none

/-- The run loop in one frame: every display link once, in any order, and closures of the main queue in between. -/
structure IsFrame (s : App) (currentTime : ℚ) (es : List Event) : Prop where
  callbacks : (callbacks es).Perm (s.displayLinks.map fun link => (link.id, currentTime))
  only : ∀ e ∈ es, e = .deliver ∨ ∃ link t order, e = .callback link t order

def Frames : App → List ℚ → App → Prop
  | s, [], t => t = s
  | s, f :: fs, t => ∃ es u, IsFrame s f es ∧ app.run s es = some u ∧ Frames u fs t

/-- What a frame leaves alone. -/
structure SameScreen (s t : App) : Prop where
  views : t.views = s.views
  displayLinks : t.displayLinks = s.displayLinks
  viewStore : t.viewStore = s.viewStore

theorem run_frame : ∀ {es : List Event} {s t : App}, app.run s es = some t →
    (∀ e ∈ es, e = .deliver ∨ ∃ link t order, e = .callback link t order) →
    SameScreen s t ∧ t.times = s.times ++ (callbacks es).map Prod.snd
  | [], s, t, h, _ => by
    cases h
    exact ⟨⟨rfl, rfl, rfl⟩, (List.append_nil _).symm⟩
  | e :: es, s, t, h, ho => by
    obtain ⟨u, hu, ht⟩ := Option.bind_eq_some_iff.1 h
    obtain ⟨he, hes⟩ := List.forall_mem_cons.1 ho
    obtain ⟨⟨hv, hl, hs⟩, htimes⟩ := run_frame ht hes
    rcases he with rfl | ⟨link, f, order, rfl⟩
    · obtain ⟨store, -, rfl⟩ := Option.map_eq_some_iff.1 hu
      exact ⟨⟨hv, hl, hs⟩, htimes⟩
    · obtain ⟨-, hu⟩ := Option.ite_none_right_eq_some.1 hu
      obtain ⟨store, -, rfl⟩ := Option.map_eq_some_iff.1 hu
      refine ⟨⟨hv, hl, hs⟩, ?_⟩
      rw [htimes, List.append_assoc]
      rfl

theorem Frames.spec : ∀ {frames : List ℚ} {s t : App}, Frames s frames t →
    app.Steps s t ∧ SameScreen s t ∧ t.times = s.times ++ blocks s.displayLinks.length frames
  | [], s, t, h => by
    cases h
    exact ⟨Lts.Steps.refl app s, ⟨rfl, rfl, rfl⟩, (List.append_nil _).symm⟩
  | f :: fs, s, t, h => by
    obtain ⟨es, u, hframe, hrun, hrest⟩ := h
    obtain ⟨hsame, htimes⟩ := run_frame hrun hframe.only
    obtain ⟨hsteps, hsame', htimes'⟩ := Frames.spec hrest
    have hcalls : (callbacks es).map Prod.snd = List.replicate s.displayLinks.length f := by
      have hperm := hframe.callbacks.map Prod.snd
      rw [List.map_map, show (Prod.snd ∘ fun link : CADisplayLink => (link.id, f)) = fun _ => f from rfl,
        List.map_const'] at hperm
      exact List.perm_replicate.1 hperm
    refine ⟨Lts.Steps.trans ⟨es, hrun⟩ hsteps, ⟨?_, ?_, ?_⟩, ?_⟩
    · rw [hsame'.views, hsame.views]
    · rw [hsame'.displayLinks, hsame.displayLinks]
    · rw [hsame'.viewStore, hsame.viewStore]
    · rw [htimes', htimes, hcalls, hsame.displayLinks, List.append_assoc]
      rfl

theorem run_callbacks (f : ℚ) : ∀ (links : List CADisplayLink) {s : App}, (∀ link ∈ links, link ∈ s.displayLinks) →
    ∃ es u, app.run s es = some u ∧ callbacks es = links.map (fun link => (link.id, f)) ∧
      ∀ e ∈ es, e = .deliver ∨ ∃ link t order, e = .callback link t order
  | [], s, _ => ⟨[], s, rfl, rfl, by simp⟩
  | link :: links, s, h => by
    obtain ⟨hlink, hlinks⟩ := List.forall_mem_cons.1 h
    let u : App := { s with
      store := s.store.dispatch .increment f s.store.subscriptions
      times := s.times ++ [f] }
    have hany : s.displayLinks.any (·.id = link.id) = true := List.any_eq_true.2 ⟨link, hlink, decide_eq_true rfl⟩
    have hdispatch : ReSwift.heap.step s.store (.dispatch .increment f s.store.subscriptions) =
        some (s.store.dispatch .increment f s.store.subscriptions) := if_pos (List.Perm.refl _)
    have hstep : app.step s (.callback link.id f s.store.subscriptions) = some u := by
      simp only [app, App.step, if_pos hany, hdispatch]
      rfl
    obtain ⟨es, t, hrun, hcalls, honly⟩ := run_callbacks f links (s := u) hlinks
    refine ⟨.callback link.id f s.store.subscriptions :: es, t, ?_, ?_, ?_⟩
    · rw [Lts.run_cons_some app hstep]
      exact hrun
    · rw [List.map_cons, ← hcalls]
      rfl
    · exact List.forall_mem_cons.2 ⟨.inr ⟨_, _, _, rfl⟩, honly⟩

/-- The main queue runs empty: a closure assigns a state and enqueues nothing. -/
theorem run_queue : ∀ (queue : List (Nat × State)) {s : App}, s.store.queue = queue →
    ∃ u, app.run s (List.replicate queue.length .deliver) = some u ∧ u.store.queue = []
  | [], s, h => ⟨s, rfl, h⟩
  | d :: queue, s, h => by
    have hstep : app.step s .deliver = some { s with store := s.store.deliver d queue } := by
      simp only [app, App.step, ReSwift.heap, ReSwift.Heap.step, h]
      rfl
    obtain ⟨u, hrun, hq⟩ := run_queue queue (s := { s with store := s.store.deliver d queue }) rfl
    refine ⟨u, ?_, hq⟩
    rw [List.length_cons, List.replicate_succ, Lts.run_cons_some app hstep]
    exact hrun

theorem callbacks_replicate_deliver (n : Nat) : callbacks (List.replicate n .deliver) = [] := by
  rw [callbacks, List.filterMap_eq_nil_iff]
  intro e he
  rw [List.eq_of_mem_replicate he]

/-- Some run goes through the frames and shows what they have made of the store. -/
theorem frames_exist : ∀ (frames : List ℚ) {s : App}, s.store.queue = [] →
    ∃ t, Frames s frames t ∧ t.store.queue = []
  | [], s, h => ⟨s, rfl, h⟩
  | f :: fs, s, _ => by
    obtain ⟨es, u, hrun, hcalls, honly⟩ := run_callbacks f s.displayLinks (s := s) fun _ hl => hl
    obtain ⟨v, hrun', hq⟩ := run_queue u.store.queue rfl
    obtain ⟨t, ht, hqt⟩ := frames_exist fs hq
    refine ⟨t, ⟨es ++ List.replicate u.store.queue.length .deliver, v, ⟨?_, ?_⟩, ?_, ht⟩, hqt⟩
    · rw [callbacks, List.filterMap_append, ← callbacks, ← callbacks, hcalls, callbacks_replicate_deliver, List.append_nil]
    · intro e he
      rcases List.mem_append.1 he with he | he
      · exact honly e he
      · exact .inl (List.eq_of_mem_replicate he)
    · rw [Lts.run_append, hrun]
      exact hrun'

/-- **What the screen shows**: frame by frame the store reduces one increment for each view in a hierarchy, so that from
the first frame on its rate is of `N` times the frames in the window; and the texts, once nothing is queued for their view
store, show it. -/
theorem swiftUI_screen {s t : App} {frames : List ℚ} (hs : app.Reachable s) (h : Frames s frames t) :
    t.store.state = run Swift.counterReducer
      ((s.times ++ blocks s.onScreen.length frames).map fun t => (Action.increment, t)) ∧
    (s.times = [] → t.store.state.rate = FrameRate.swiftFps s.onScreen.length frames ∧
      ∀ last, frames.getLast? = some last → frames.Pairwise (· ≤ ·) → s.onScreen ≠ [] →
        t.store.state.rate = Swift.rate (s.onScreen.length * frames.countP fun f => f > last - 5)) ∧
    t.store.state.counter = s.store.state.counter + s.onScreen.length * frames.length ∧
    t.onScreen = s.onScreen ∧
    ∀ id, t.viewStore = some id → addressed t.store.queue id = [] →
      ∃ o ∈ t.store.objects, o.viewStore.id = id ∧ o.viewStore.state = t.store.state := by
  obtain ⟨hsteps, hsame, htimes⟩ := h.spec
  have hcs := counted_inductive.reachable hs
  have hct := counted_inductive.reachable (Lts.Steps.trans hs hsteps)
  have hlen : s.displayLinks.length = s.onScreen.length := by
    simpa using (linked_inductive.reachable hs).targets.length_eq
  rw [hlen] at htimes
  refine ⟨by rw [hct.state, htimes], ?_, ?_, ?_, ?_⟩
  · intro h0
    have hfps : t.store.state.rate = FrameRate.swiftFps s.onScreen.length frames := by
      rw [hct.state, htimes, h0, List.nil_append]
      rfl
    refine ⟨hfps, fun last hlast hsorted hne => ?_⟩
    rw [hfps, FrameRate.swiftFps_eq (List.length_pos_iff.2 hne) hlast hsorted]
  · have hblocks : (blocks s.onScreen.length frames).length = s.onScreen.length * frames.length := by
      simp [blocks, List.length_flatMap, Nat.mul_comm]
    rw [hct.counter, hcs.counter, htimes, List.length_append, hblocks]
    push_cast
    rfl
  · rw [App.onScreen, hsame.views]
    rfl
  · intro id hid hq
    obtain ⟨o, ho, rfl⟩ := ReSwift.isAlive_iff.1 (hct.current id hid)
    exact ⟨o, ho, rfl, ReSwift.caught_up hct.store ho hq⟩

/-- The three views of the body, for two frames. -/
theorem swiftUI_screen_three :
    ∃ s t : App, app.run {} [.build 5, .deliver, .makeUIView, .makeUIView, .makeUIView, .didMoveToSuperview 0 (some 7),
        .didMoveToSuperview 1 (some 7), .didMoveToSuperview 2 (some 7)] = some s ∧
      Frames s [0, 1 / 60] t ∧ t.store.state.rate = Swift.rate 6 := by
  have hrun : ∃ s, app.run {} [.build 5, .deliver, .makeUIView, .makeUIView, .makeUIView,
      .didMoveToSuperview 0 (some 7), .didMoveToSuperview 1 (some 7), .didMoveToSuperview 2 (some 7)] = some s ∧
      s.store.queue = [] ∧ s.times = [] ∧ s.onScreen.length = 3 := ⟨_, rfl, rfl, rfl, rfl⟩
  obtain ⟨s, hs, hq, h0, hn⟩ := hrun
  obtain ⟨t, ht, -⟩ := frames_exist [0, 1 / 60] hq
  refine ⟨s, t, hs, ht, ?_⟩
  have hne : s.onScreen ≠ [] := by
    intro hnil
    simp [hnil] at hn
  have hrate := ((swiftUI_screen ⟨_, hs⟩ ht).2.1 h0).2 (1 / 60) rfl (by norm_num) hne
  have hcount : ([0, 1 / 60] : List ℚ).countP (fun f => f > 1 / 60 - 5) = 2 := by norm_num [List.countP_cons]
  rw [hrate, hn, hcount]

end CrossplatformBenchmark.FrameCallback
