import CrossplatformBenchmark.Loader.SwiftUI

/-!
# The SwiftUI grid (RemoteImage.swift:76-125)

A page is asked for by appear events only: of the root view while there are no products (:119-123), and of the cell
that is the last one when its event is delivered (:102-107). Both call `loadMore`, whose guard drops the call while a
load runs.

Taken from SwiftUI and not from this repository: the cells on screen are a range of the products; a cell that comes
on screen, and the root view when it does, gets one appear event, delivered some time later, in any order.

`Live` is the invariant: a grid that needs a page has a load under way, an appear event on its way, or has just
failed to load one. After a failure nothing asks again until a cell or the view comes back (`stalled_after_failure`).
-/

namespace CrossplatformBenchmark.SwiftUI

open Transition Paging

variable {α : Type*}

inductive Appear where
  | root
  | cell (index : Nat)
  deriving DecidableEq

structure Grid (α : Type*) where
  actor : MainActor α := {}
  /-- The root view is on screen. -/
  onScreen : Bool := false
  /-- The cells on screen: `first ≤ k < last`. -/
  first : Nat := 0
  last : Nat := 0
  /-- Appear events to be delivered. -/
  appears : List Appear := []
  /-- The latest load has ended, by a failure. -/
  failed : Bool := false

def Grid.visible (s : Grid α) (k : Nat) : Bool := decide (s.first ≤ k) && decide (k < s.last)

/-- The cells that the new range brings on screen. -/
def Grid.appeared (s : Grid α) (first last : Nat) : List Appear :=
  ((List.range last).filter fun k => decide (first ≤ k) && !s.visible k).map .cell

/-- `viewModel.loadMore()` -/
def Grid.loadMore (s : Grid α) : Option (Grid α) :=
  (s.actor.step .loadMore).map fun actor =>
    { s with actor := actor, failed := s.failed && !(SwiftUI.loadMore s.actor.vm).2 }

/-- The two `onAppear` closures. -/
def Grid.onAppear (s : Grid α) : Appear → Option (Grid α)
  | .root => if s.actor.vm.products.isEmpty then s.loadMore else some s
  | .cell index => if (index : Int) = s.actor.vm.products.length - 1 then s.loadMore else some s

inductive GridEvent (α : Type*) where
  | appear
  | disappear
  | scroll (first last : Nat)
  | deliver (i : Nat)
  | start (i : Nat)
  | finish (i : Nat) (o : Outcome α)

def Grid.step (s : Grid α) : GridEvent α → Option (Grid α)
  | .appear => if s.onScreen then none else some { s with onScreen := true, appears := s.appears ++ [.root] }
  | .disappear => if s.onScreen then some { s with onScreen := false, first := 0, last := 0 } else none
  | .scroll first last =>
    if s.onScreen ∧ last ≤ s.actor.vm.products.length then
      some { s with first := first, last := last, appears := s.appears ++ s.appeared first last }
    else none
  | .deliver i => s.appears[i]?.bind fun appear => Grid.onAppear { s with appears := s.appears.eraseIdx i } appear
  | .start i => (s.actor.step (.start i)).map fun actor => { s with actor := actor }
  | .finish i o => (s.actor.step (.finish i o)).map fun actor => { s with actor := actor, failed := o.isThrew }

def grid (α : Type*) : Lts (Grid α) (GridEvent α) := ⟨{}, Grid.step⟩

theorem grid_step_cases {s t : Grid α} {e : GridEvent α} (h : (grid α).step s e = some t) :
    (e = .appear ∧ s.onScreen = false ∧ t = { s with onScreen := true, appears := s.appears ++ [.root] }) ∨
    (e = .disappear ∧ t = { s with onScreen := false, first := 0, last := 0 }) ∨
    (∃ first last, e = .scroll first last ∧ s.onScreen = true ∧ last ≤ s.actor.vm.products.length ∧
      t = { s with first := first, last := last, appears := s.appears ++ s.appeared first last }) ∨
    (∃ i a, e = .deliver i ∧ s.appears[i]? = some a ∧
      Grid.onAppear { s with appears := s.appears.eraseIdx i } a = some t) ∨
    (∃ i actor, e = .start i ∧ (mainActor α).step s.actor (.start i) = some actor ∧
      t = { s with actor := actor }) ∨
    (∃ i o actor, e = .finish i o ∧ (mainActor α).step s.actor (.finish i o) = some actor ∧
      t = { s with actor := actor, failed := o.isThrew }) := by
  cases e with
  | appear =>
    obtain ⟨hs, ht⟩ := Option.ite_none_left_eq_some.1 h
    exact .inl ⟨rfl, eq_false_of_ne_true hs, (Option.some.inj ht).symm⟩
  | disappear =>
    obtain ⟨-, ht⟩ := Option.ite_none_right_eq_some.1 h
    exact .inr (.inl ⟨rfl, (Option.some.inj ht).symm⟩)
  | scroll first last =>
    obtain ⟨⟨hs, hlast⟩, ht⟩ := Option.ite_none_right_eq_some.1 h
    exact .inr (.inr (.inl ⟨first, last, rfl, hs, hlast, (Option.some.inj ht).symm⟩))
  | deliver i =>
    obtain ⟨a, hi, ht⟩ := Option.bind_eq_some_iff.1 h
    exact .inr (.inr (.inr (.inl ⟨i, a, rfl, hi, ht⟩)))
  | start i =>
    obtain ⟨actor, ha, rfl⟩ := Option.map_eq_some_iff.1 h
    exact .inr (.inr (.inr (.inr (.inl ⟨i, actor, rfl, ha, rfl⟩))))
  | finish i o =>
    obtain ⟨actor, ha, rfl⟩ := Option.map_eq_some_iff.1 h
    exact .inr (.inr (.inr (.inr (.inr ⟨i, o, actor, rfl, ha, rfl⟩))))

/-! ## Appear events that load -/

/-- The appear events whose closure calls `loadMore`. -/
def Grid.asks (s : Grid α) : Appear → Prop
  | .root => s.actor.vm.products = []
  | .cell index => index + 1 = s.actor.vm.products.length

section asks

variable {s t : Grid α} {a : Appear}

theorem onAppear_asks (h : s.asks a) : s.onAppear a = s.loadMore := by
  cases a with
  | root =>
    have hp : s.actor.vm.products = [] := h
    simp [Grid.onAppear, hp]
  | cell index =>
    have hi : index + 1 = s.actor.vm.products.length := h
    simp only [Grid.onAppear]
    rw [if_pos (by omega)]

theorem onAppear_not_asks (h : ¬ s.asks a) : s.onAppear a = some s := by
  cases a with
  | root =>
    have hp : s.actor.vm.products ≠ [] := h
    simp [Grid.onAppear, hp]
  | cell index =>
    have hi : index + 1 ≠ s.actor.vm.products.length := h
    simp only [Grid.onAppear]
    rw [if_neg (by omega)]

/-- The guard passes: a task is created, and the failure is made up for. -/
theorem loadMore_asks (hl : s.actor.vm.isLoading = false) (he : s.actor.vm.isEndReached = false) :
    s.loadMore = some { s with
      actor := { s.actor with vm := { s.actor.vm with isLoading := true }, tasks := s.actor.tasks ++ [.pending] }
      failed := false } := by
  simp [Grid.loadMore, MainActor.step, loadMore_open hl he]

theorem loadMore_drops (h : s.actor.vm.isLoading = true ∨ s.actor.vm.isEndReached = true) : s.loadMore = some s := by
  simp [Grid.loadMore, MainActor.step, loadMore_closed h]

end asks

/-! ## The cells on screen -/

theorem visible_iff {s : Grid α} {k : Nat} : s.visible k = true ↔ s.first ≤ k ∧ k < s.last := by
  simp [Grid.visible]

/-- Every cell of the new range was on screen, or gets its event. -/
theorem mem_appeared {s : Grid α} {first last k : Nat} (hk : first ≤ k ∧ k < last) :
    s.visible k = true ∨ .cell k ∈ s.appeared first last := by
  by_cases hv : s.visible k = true
  · exact .inl hv
  · refine .inr (List.mem_map.2 ⟨k, List.mem_filter.2 ⟨List.mem_range.2 hk.2, ?_⟩, rfl⟩)
    simp [hk.1, hv]

/-! ## The invariant -/

/-- A page is needed: there are no products, or the last one is on screen. -/
def Grid.Needs (s : Grid α) : Prop :=
  s.actor.vm.products = [] ∨ s.visible (s.actor.vm.products.length - 1) = true

/-- What holds whatever the appear events do. -/
structure Sound (s : Grid α) : Prop where
  loading : s.actor.vm.isLoading = true ↔ s.actor.tasks ≠ []
  single : s.actor.tasks.length ≤ 1
  range : s.last ≤ s.actor.vm.products.length
  hidden : s.onScreen = false → s.last = 0

structure Live (s : Grid α) : Prop extends Sound s where
  needs : s.onScreen = true → s.Needs → s.actor.vm.isEndReached = false →
    s.actor.tasks ≠ [] ∨ s.failed = true ∨ ∃ a ∈ s.appears, s.asks a

theorem Live.init : Live ({} : Grid α) := ⟨⟨by simp, Nat.zero_le _, le_rfl, fun _ => rfl⟩, nofun⟩

section steps

variable {s t : Grid α}

theorem Sound.not_visible (h : Sound s) {k : Nat} (hk : s.actor.vm.products.length ≤ k) : s.visible k ≠ true := by
  intro hv
  have hlt := (visible_iff.1 hv).2
  have hle := h.range
  omega

/-- `loadMore` leaves a load under way, unless the list has ended. -/
theorem Sound.loadMore (h : Sound s) (ht : s.loadMore = some t) : Live t := by
  by_cases hg : s.actor.vm.isLoading = true ∨ s.actor.vm.isEndReached = true
  · obtain rfl : s = t := Option.some.inj ((loadMore_drops hg).symm.trans ht)
    refine ⟨h, fun _ _ he => .inl ?_⟩
    rcases hg with hl | hend
    · exact h.loading.1 hl
    · rw [he] at hend
      cases hend
  · obtain ⟨hl, he⟩ := not_or.1 hg
    rw [loadMore_asks (eq_false_of_ne_true hl) (eq_false_of_ne_true he)] at ht
    obtain rfl := Option.some.inj ht
    have hnil : s.actor.tasks = [] := by
      by_contra hne
      exact hl (h.loading.2 hne)
    exact ⟨⟨by simp, by simp [hnil], h.range, h.hidden⟩, fun _ _ _ => .inl (by simp)⟩

/-- The root view comes on screen: its own event asks if there are no products. -/
theorem Live.appear (h : Live s) (hs : s.onScreen = false) :
    Live { s with onScreen := true, appears := s.appears ++ [.root] } := by
  refine ⟨⟨h.loading, h.single, h.range, nofun⟩, ?_⟩
  rintro - (hp | hv) -
  · exact .inr (.inr ⟨.root, List.mem_append_right _ (.head _), hp⟩)
  · have hlt := (visible_iff.1 hv).2
    have hlast : s.last = 0 := h.hidden hs
    simp only at hlt
    omega

theorem Live.disappear (h : Live s) : Live { s with onScreen := false, first := 0, last := 0 } :=
  ⟨⟨h.loading, h.single, Nat.zero_le _, fun _ => rfl⟩, nofun⟩

/-- Cells come and go: if the last product's is new on screen, its event asks. -/
theorem Live.scroll {first last : Nat} (h : Live s) (hs : s.onScreen = true)
    (hlast : last ≤ s.actor.vm.products.length) :
    Live { s with first := first, last := last, appears := s.appears ++ s.appeared first last } := by
  refine ⟨⟨h.loading, h.single, hlast, fun hoff => ?_⟩, fun _ hn he => ?_⟩
  · cases hs.symm.trans hoff
  have hmono : s.Needs → s.actor.tasks ≠ [] ∨ s.failed = true ∨
      ∃ a ∈ s.appears ++ s.appeared first last, s.asks a := by
    intro hold
    rcases h.needs hs hold he with ht | hf | ⟨a, hm, ha⟩
    · exact .inl ht
    · exact .inr (.inl hf)
    · exact .inr (.inr ⟨a, List.mem_append_left _ hm, ha⟩)
  rcases hn with hp | hv
  · exact hmono (.inl hp)
  · have hrange : first ≤ s.actor.vm.products.length - 1 ∧ s.actor.vm.products.length - 1 < last := visible_iff.1 hv
    rcases mem_appeared (s := s) hrange with hold | hm
    · exact hmono (.inr hold)
    · refine .inr (.inr ⟨_, List.mem_append_right _ hm, ?_⟩)
      show s.actor.vm.products.length - 1 + 1 = s.actor.vm.products.length
      omega

/-- An event is delivered: it asks, or it was not the one that a needed page waited for. -/
theorem Live.deliver {i : Nat} {a : Appear} (h : Live s) (hi : s.appears[i]? = some a)
    (ht : Grid.onAppear { s with appears := s.appears.eraseIdx i } a = some t) : Live t := by
  have hsound : Sound { s with appears := s.appears.eraseIdx i } := ⟨h.loading, h.single, h.range, h.hidden⟩
  by_cases ha : s.asks a
  · rw [onAppear_asks (by exact ha)] at ht
    exact hsound.loadMore ht
  · rw [onAppear_not_asks (by exact ha)] at ht
    obtain rfl := Option.some.inj ht
    refine ⟨hsound, fun hs hn he => ?_⟩
    rcases h.needs hs hn he with htasks | hf | ⟨b, hm, hb⟩
    · exact .inl htasks
    · exact .inr (.inl hf)
    · refine .inr (.inr ⟨b, mem_eraseIdx_of_ne hi hm ?_, hb⟩)
      rintro rfl
      exact ha hb

theorem Live.start {i : Nat} {actor : MainActor α} (h : Live s)
    (ha : (mainActor α).step s.actor (.start i) = some actor) :
    Live { s with actor := actor } := by
  obtain ⟨he, -⟩ | ⟨he, -⟩ | ⟨j, r, -, hj, -, rfl⟩ | ⟨j, r, o, vm, he, -⟩ := step_cases ha
  · cases he
  · cases he
  · have hne : s.actor.tasks.set j (.inFlight r) ≠ [] := by
      intro hnil
      rw [List.set_eq_nil_iff] at hnil
      rw [hnil] at hj
      cases hj
    have hold : s.actor.tasks ≠ [] := fun hnil => hne (by rw [hnil]; rfl)
    refine ⟨⟨?_, ?_, h.range, h.hidden⟩, fun _ _ _ => .inl hne⟩
    · exact iff_of_true (h.loading.2 hold) hne
    · simpa using h.single
  · cases he

/-- A load ends: the cells on screen are no longer the last, or the list has ended, or the load has failed. -/
theorem Live.finish {i : Nat} {o : Outcome α} {actor : MainActor α} (h : Live s)
    (ha : (mainActor α).step s.actor (.finish i o) = some actor) :
    Live { s with actor := actor, failed := o.isThrew } := by
  obtain ⟨he, -⟩ | ⟨he, -⟩ | ⟨j, r, he, -⟩ | ⟨j, r, o', vm, he, hj, hv, rfl⟩ := step_cases ha
  · cases he
  · cases he
  · cases he
  · cases he
    have htasks : s.actor.tasks.eraseIdx i = [] := by
      have hpos : 0 < s.actor.tasks.length := List.length_pos_of_mem (List.mem_of_getElem? hj)
      obtain ⟨a, hts⟩ := List.length_eq_one_iff.1 (le_antisymm h.single hpos)
      rw [hts] at hj ⊢
      rw [(of_getElem?_singleton hj).1]
      rfl
    cases o with
    | threw =>
      cases hv
      exact ⟨⟨by simp [htasks], by simp [htasks], h.range, h.hidden⟩, fun _ _ _ => .inr (.inl rfl)⟩
    | returned ps =>
      rw [resume_returned hv]
      have hrange : s.last ≤ (s.actor.vm.products ++ ps).length := by
        have := h.range
        rw [List.length_append]
        omega
      refine ⟨⟨by simp [htasks], by simp [htasks], hrange, h.hidden⟩, fun _ hn he => ?_⟩
      obtain ⟨hps, -⟩ := Bool.or_eq_false_iff.1 he
      have hpos : 0 < ps.length := List.length_pos_iff.2 (by rintro rfl; cases hps)
      rcases hn with hp | hvis
      · rw [(List.append_eq_nil_iff.1 hp).2] at hpos
        cases hpos
      · refine absurd hvis (h.toSound.not_visible ?_)
        simp only [List.length_append]
        omega

end steps

theorem live_step : (grid α).Preserved Live := by
  intro s e t h ht
  obtain ⟨-, hs, rfl⟩ | ⟨-, rfl⟩ | ⟨first, last, -, hs, hlast, rfl⟩ | ⟨i, a, -, hi, ht⟩ | ⟨i, actor, -, ha, rfl⟩ |
    ⟨i, o, actor, -, ha, rfl⟩ := grid_step_cases ht
  · exact h.appear hs
  · exact h.disappear
  · exact h.scroll hs hlast
  · exact h.deliver hi ht
  · exact h.start ha
  · exact h.finish ha

theorem live_inductive : (grid α).Inductive Live := ⟨Live.init, live_step⟩

/-! ## Runs without failures -/

/-- Only a failed load sets `failed`. -/
theorem failed_step {s t : Grid α} {e : GridEvent α} (hs : s.failed = false) (he : ∀ i, e ≠ .finish i .threw)
    (ht : (grid α).step s e = some t) : t.failed = false := by
  obtain ⟨-, -, rfl⟩ | ⟨-, rfl⟩ | ⟨first, last, -, -, -, rfl⟩ | ⟨i, a, -, -, ht⟩ | ⟨i, actor, -, -, rfl⟩ |
    ⟨i, o, actor, rfl, -, rfl⟩ := grid_step_cases ht
  · exact hs
  · exact hs
  · exact hs
  · by_cases ha : s.asks a
    · rw [onAppear_asks (by exact ha)] at ht
      obtain ⟨actor, -, rfl⟩ := Option.map_eq_some_iff.1 ht
      simp [hs]
    · rw [onAppear_not_asks (by exact ha)] at ht
      obtain rfl := Option.some.inj ht
      exact hs
  · exact hs
  · cases o with
    | returned ps => rfl
    | threw => exact absurd rfl (he i)

theorem failed_run : ∀ {es : List (GridEvent α)} {s t : Grid α}, s.failed = false →
    (∀ i, .finish i .threw ∉ es) → (grid α).run s es = some t → t.failed = false
  | [], s, t, hs, _, ht => by cases ht; exact hs
  | e :: es, s, t, hs, he, ht => by
    obtain ⟨u, hu, ht⟩ := Option.bind_eq_some_iff.1 ht
    have hu' : u.failed = false := failed_step hs (fun i hi => he i (hi ▸ List.mem_cons_self)) hu
    exact failed_run hu' (fun i hm => he i (List.mem_cons_of_mem _ hm)) ht

/-! ## The infinite scroll -/

/-- Nothing is asked for, on its way or to be delivered, and there may be more products. -/
structure Grid.Resting (s : Grid α) : Prop where
  onScreen : s.onScreen = true
  delivered : s.appears = []
  idle : s.actor.tasks = []
  more : s.actor.vm.isEndReached = false

/-- There are products, and the last one's cell is not on screen. -/
def Grid.Satisfied (s : Grid α) : Prop :=
  s.actor.vm.products ≠ [] ∧ s.visible (s.actor.vm.products.length - 1) = false

theorem not_needs_iff {s : Grid α} : ¬ s.Needs ↔ s.Satisfied := by
  unfold Grid.Needs Grid.Satisfied
  rw [not_or, Bool.not_eq_true]

theorem Live.resting {s : Grid α} (h : Live s) (hr : s.Resting) : s.Satisfied ∨ s.failed = true := by
  by_contra hno
  obtain ⟨hsat, hf⟩ := not_or.1 hno
  have hneed : s.Needs := by
    by_contra hn
    exact hsat (not_needs_iff.1 hn)
  rcases h.needs hr.onScreen hneed hr.more with ht | hf' | ⟨a, hm, -⟩
  · exact ht hr.idle
  · exact hf hf'
  · rw [hr.delivered] at hm
    cases hm

/-- **The SwiftUI scroll.** `s` is any resting state, reached by scrolling, appear events, pages and failures in any
order. Only a failure leaves the grid short of a page, and the next appear event that asks for one gets it. -/
theorem swiftui_scroll {s : Grid α} {es : List (GridEvent α)} (h : (grid α).run {} es = some s) (hr : s.Resting) :
    (s.Satisfied ∨ s.failed = true) ∧
    ((∀ i, .finish i .threw ∉ es) → s.Satisfied) ∧
    ∀ a, s.asks a → ∃ t, s.onAppear a = some t ∧ t.actor.tasks = [.pending] ∧ t.failed = false := by
  have hlive : Live s := live_inductive.reachable ⟨es, h⟩
  refine ⟨hlive.resting hr, fun hno => ?_, fun a ha => ?_⟩
  · have hf : s.failed = false := failed_run rfl hno h
    exact (hlive.resting hr).resolve_right (by simp [hf])
  · have hl : s.actor.vm.isLoading = false := by
      by_contra hl
      exact hlive.loading.1 (eq_true_of_ne_false hl) hr.idle
    refine ⟨_, (onAppear_asks ha).trans (loadMore_asks hl hr.more), ?_, rfl⟩
    simp [hr.idle]

/-- One page is shown with its last cell off screen; when that cell appears, the next page is asked for. -/
theorem swiftui_scroll_one_page :
    ∃ s, (grid Nat).run {} [.appear, .deliver 0, .start 0, .finish 0 (.returned [7, 8]), .scroll 0 1, .deliver 0] =
        some s ∧ s.Satisfied ∧ ∃ t, s.onAppear (.cell 1) = some t ∧ t.actor.tasks = [.pending] := by
  let s : Grid Nat := ⟨⟨⟨[7, 8], 1, false, false⟩, [], [⟨30, 0⟩], [[7, 8]]⟩, true, 0, 1, [], false⟩
  have hrun : (grid Nat).run {} [.appear, .deliver 0, .start 0, .finish 0 (.returned [7, 8]), .scroll 0 1, .deliver 0] =
      some s := rfl
  obtain ⟨-, hsat, hnext⟩ := swiftui_scroll hrun ⟨rfl, rfl, rfl, rfl⟩
  obtain ⟨t, ht, htasks, -⟩ := hnext (.cell 1) rfl
  exact ⟨s, hrun, hsat (by simp), t, ht, htasks⟩

/-- The first load fails on a view that stays; or the load that the last cell asked for fails while it is on screen. -/
theorem stalled_after_failure :
    (∃ s, (grid Nat).run {} [.appear, .deliver 0, .start 0, .finish 0 .threw] = some s ∧ s.Resting ∧
      s.actor.vm.products = [] ∧ ¬ s.Satisfied) ∧
    ∃ s, (grid Nat).run {} [.appear, .deliver 0, .start 0, .finish 0 (.returned [7]), .scroll 0 1, .deliver 0, .start 0,
        .finish 0 .threw] = some s ∧ s.Resting ∧ s.actor.vm.products = [7] ∧ ¬ s.Satisfied := by
  refine ⟨⟨_, rfl, ⟨rfl, rfl, rfl, rfl⟩, rfl, fun h => h.1 rfl⟩, ⟨_, rfl, ⟨rfl, rfl, rfl, rfl⟩, rfl, fun h => ?_⟩⟩
  exact absurd h.2 (by decide)

end CrossplatformBenchmark.SwiftUI
