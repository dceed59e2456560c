import CrossplatformBenchmark.Loader.Compose
import CrossplatformBenchmark.Loader.ReactNative

/-!
# Loads that overlap (RemoteImage.kt:96-113, RemoteImage.tsx:45-60)

What if the `isLoading` guard were not there? A load is started at any time, any number of them are outstanding, and
they complete in any order, each with a list of its own. Neither loader loses a response, since both write what they
read at completion: Compose copies the current `PaginationState` after the suspension, React Native queues updater
functions, and a commit applies all that are queued, in order.

* `Compose.Inv`, `ReactNative.Inv` — the state, against the responses in completion order.
* `no_response_lost` — products and pages of both; Compose counts its pages in 32 bits (`page_wraps`).
-/

namespace CrossplatformBenchmark

open Transition Paging

variable {α : Type*}

/-! ## Compose -/

namespace Compose

structure Overlap (α : Type*) where
  paginationState : PaginationState α := {}
  inFlight : List Request := []
  /-- The responses, in completion order. -/
  completed : List (List α) := []

inductive OverlapEvent (α : Type*) where
  | start
  | complete (i : Nat) (newProducts : List α)

def Overlap.step (s : Overlap α) : OverlapEvent α → Option (Overlap α)
  | .start =>
    let (st, r) := beginLoad s.paginationState
    some { s with paginationState := st, inFlight := s.inFlight ++ [r] }
  | .complete i newProducts => s.inFlight[i]?.map fun _ => {
      paginationState := finishLoad s.paginationState (.returned newProducts)
      inFlight := s.inFlight.eraseIdx i
      completed := s.completed ++ [newProducts] }

def overlap (α : Type*) : Lts (Overlap α) (OverlapEvent α) := ⟨{}, Overlap.step⟩

/-- Every response so far is on the screen, and was counted. -/
structure Overlap.Inv (s : Overlap α) : Prop where
  products : s.paginationState.products = s.completed.flatten
  currentPage : s.paginationState.currentPage.toInt = (s.completed.length : ℤ).bmod (2 ^ 32)

theorem toInt_succ_page {page : Int32} {n : Nat} (h : page.toInt = (n : ℤ).bmod (2 ^ 32)) :
    (page + 1).toInt = ((n + 1 : Nat) : ℤ).bmod (2 ^ 32) := by
  rw [Int32.toInt_add, h, show (1 : Int32).toInt = 1 by decide]
  simp

theorem Overlap.inv_inductive : (overlap α).Inductive Overlap.Inv where
  init := by
    refine ⟨rfl, ?_⟩
    show (0 : Int32).toInt = ((0 : Nat) : ℤ).bmod (2 ^ 32)
    decide
  step := by
    intro s e t h ht
    cases e with
    | start =>
      cases ht
      exact ⟨h.products, h.currentPage⟩
    | complete i newProducts =>
      obtain ⟨r, -, rfl⟩ := Option.map_eq_some_iff.1 ht
      refine ⟨?_, ?_⟩
      · simp [finishLoad, h.products]
      · rw [List.length_append]
        exact toInt_succ_page h.currentPage

/-- `n` loads are started before any of them completes. -/
theorem Overlap.start_many (n : Nat) (s : Overlap α) : ∃ t, (overlap α).Steps s t ∧
    t.inFlight.length = s.inFlight.length + n ∧ t.completed = s.completed := by
  induction n with
  | zero => exact ⟨s, .refl _ s, rfl, rfl⟩
  | succ n ih =>
    obtain ⟨t, ht, hlen, hc⟩ := ih
    refine ⟨_, ht.trans (.single (e := .start) rfl), ?_, hc⟩
    simp [hlen, Nat.add_assoc]

/-- They complete one after the other, each with an empty list. -/
theorem Overlap.complete_many (n : Nat) {s : Overlap α} (h : s.inFlight.length = n) : ∃ t, (overlap α).Steps s t ∧
    t.completed = s.completed ++ List.replicate n [] := by
  induction n generalizing s with
  | zero => exact ⟨s, .refl _ s, by simp⟩
  | succ n ih =>
    obtain ⟨r, rs, hrs⟩ := List.exists_cons_of_length_eq_add_one h
    let u : Overlap α := ⟨finishLoad s.paginationState (.returned []), rs, s.completed ++ [[]]⟩
    have hu : (overlap α).step s (.complete 0 []) = some u := by
      simp [overlap, Overlap.step, hrs, u]
    obtain ⟨t, ht, hc⟩ := ih (s := u) (by simpa [hrs] using h)
    refine ⟨t, (Lts.Steps.single hu).trans ht, ?_⟩
    rw [hc, List.replicate_succ]
    simp [u]

/-- Any number of loads can complete. -/
theorem Overlap.completed_any (n : Nat) : ∃ s, (overlap α).Reachable s ∧ s.completed.length = n := by
  obtain ⟨s, hs, hlen, hc⟩ := Overlap.start_many n ({} : Overlap α)
  obtain ⟨t, ht, hct⟩ := Overlap.complete_many n (s := s) (by simpa using hlen)
  exact ⟨t, Lts.Steps.trans hs ht, by simp [hct, hc]⟩

end Compose

/-! ## React Native -/

namespace ReactNative

/-- `loadMoreProducts` from its guard to its `await` (:48-50). -/
def App.start (s : App α) : App α :=
  let r : Request := ⟨PAGE_SIZE, (s.committed.currentPage * PAGE_SIZE : Nat)⟩
  { s with updates := s.updates ++ [.setIsLoading true], inFlight := s.inFlight ++ [r], requests := s.requests ++ [r] }

structure Overlap (α : Type*) where
  app : App α := {}
  /-- The responses, in completion order. -/
  completed : List (List α) := []

inductive OverlapEvent (α : Type*) where
  | start
  | commit
  | complete (i : Nat) (newProducts : List α)

def Overlap.step (s : Overlap α) : OverlapEvent α → Option (Overlap α)
  | .start => some { s with app := s.app.start }
  | .commit => some { s with app := s.app.commit }
  | .complete i newProducts => (s.app.step (.complete i (.body (some newProducts)))).map fun app =>
      { app := app, completed := s.completed ++ [newProducts] }

def overlap (α : Type*) : Lts (Overlap α) (OverlapEvent α) := ⟨{}, Overlap.step⟩

/-- Every response so far is on its way to the screen, and was counted if it had products. -/
structure Overlap.Inv (s : Overlap α) : Prop where
  products : s.app.pending.products = s.completed.flatten
  currentPage : s.app.pending.currentPage = s.completed.countP (!·.isEmpty)

theorem Overlap.inv_inductive : (overlap α).Inductive Overlap.Inv where
  init := ⟨rfl, rfl⟩
  step := by
    intro s e t h ht
    have hproducts := h.products
    have hpage := h.currentPage
    unfold App.pending at hproducts hpage
    cases e with
    | start =>
      cases ht
      refine ⟨?_, ?_⟩
      · simpa [App.pending, App.start, Update.apply] using hproducts
      · simpa [App.pending, App.start, Update.apply] using hpage
    | commit =>
      cases ht
      exact ⟨h.products, h.currentPage⟩
    | complete i newProducts =>
      obtain ⟨app, happ, rfl⟩ := Option.map_eq_some_iff.1 ht
      obtain ⟨r, -, rfl⟩ := Option.map_eq_some_iff.1 happ
      refine ⟨?_, ?_⟩
      · simp [App.pending, fetchProducts, apply_afterFetch, hproducts]
      · cases newProducts <;> simp [App.pending, fetchProducts, apply_afterFetch, hpage, List.countP_append]

end ReactNative

/-! ## Both -/

/-- **No response is lost when loads overlap.** `s` and `t` are reached by starting loads at any times and completing
them in any order with any lists; in `t` every queued update has been committed. -/
theorem no_response_lost {s : Compose.Overlap α} {t : ReactNative.Overlap α} (hs : (Compose.overlap α).Reachable s)
    (ht : (ReactNative.overlap α).Reachable t) (hcommitted : t.app.updates = []) :
    s.paginationState.products = s.completed.flatten ∧
    s.paginationState.currentPage.toInt = (s.completed.length : ℤ).bmod (2 ^ 32) ∧
    t.app.committed.products = t.completed.flatten ∧
    t.app.committed.currentPage = t.completed.countP (!·.isEmpty) := by
  have hi := Compose.Overlap.inv_inductive.reachable hs
  have hj := ReactNative.Overlap.inv_inductive.reachable ht
  have hpending : t.app.pending = t.app.committed := ReactNative.pending_of_settled hcommitted
  refine ⟨hi.products, hi.currentPage, ?_, ?_⟩
  · rw [← hpending]
    exact hj.products
  · rw [← hpending]
    exact hj.currentPage

/-- Three loads complete out of order, the last one first and one without products; two share a commit. -/
theorem no_response_lost_reordered :
    ∃ s t,
      (Compose.overlap Nat).run {} [.start, .start, .complete 1 [7], .start, .complete 1 [], .complete 0 [8]] = some s ∧
      (ReactNative.overlap Nat).run {} [.start, .start, .complete 1 [7], .commit, .start, .complete 1 [],
        .complete 0 [8], .commit] = some t ∧
      s.paginationState.products = [7, 8] ∧ s.paginationState.currentPage.toInt = 3 ∧
      t.app.committed.products = [7, 8] ∧ t.app.committed.currentPage = 2 := by
  let s : Compose.Overlap Nat := ⟨⟨[7, 8], 3, false, false⟩, [], [[7], [], [8]]⟩
  let rs : List Request := [⟨30, 0⟩, ⟨30, 0⟩, ⟨30, 30⟩]
  let t : ReactNative.Overlap Nat := ⟨⟨⟨[7, 8], false, true, 2⟩, [], [], rs⟩, [[7], [], [8]]⟩
  have hs : (Compose.overlap Nat).run {} [.start, .start, .complete 1 [7], .start, .complete 1 [], .complete 0 [8]] =
      some s := rfl
  have ht : (ReactNative.overlap Nat).run {} [.start, .start, .complete 1 [7], .commit, .start, .complete 1 [],
      .complete 0 [8], .commit] = some t := rfl
  obtain ⟨h1, h2, h3, h4⟩ := no_response_lost ⟨_, hs⟩ ⟨_, ht⟩ rfl
  exact ⟨s, t, hs, ht, h1, h2.trans (by decide), h3, h4⟩

/-- **The page count wraps**: 2^31 loads started together, each answered with an empty list. -/
theorem page_wraps : ∃ s : Compose.Overlap Nat, (Compose.overlap Nat).Reachable s ∧ s.completed.length = 2 ^ 31 ∧
    s.paginationState.currentPage.toInt = -2 ^ 31 ∧ s.paginationState.currentPage.toInt ≠ s.completed.length := by
  obtain ⟨s, hs, hlen⟩ : ∃ s : Compose.Overlap Nat, (Compose.overlap Nat).Reachable s ∧ s.completed.length = 2 ^ 31 :=
    Compose.Overlap.completed_any (2 ^ 31)
  have hpage : s.paginationState.currentPage.toInt = -2 ^ 31 := by
    rw [(Compose.Overlap.inv_inductive.reachable hs).currentPage, hlen]
    norm_num [Int.bmod]
  refine ⟨s, hs, hlen, hpage, ?_⟩
  rw [hpage, hlen]
  norm_num

end CrossplatformBenchmark
