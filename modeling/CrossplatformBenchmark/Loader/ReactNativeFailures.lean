import CrossplatformBenchmark.Loader.ReactNative

/-!
# Failed requests of the React Native loader (RemoteImage.tsx:20-60)

`fetchProducts` catches every error and returns `[]`, which `loadMoreProducts` reads as the end of the list; a body
without `products` makes `newProducts.length` throw, so that `setIsLoading(false)` is never reached. Here calls are
serialised: one is made only when the outcome of the one before it has been committed.

* `failed_pending`, `bodyless_pending` — the cells after either failure.
* `contained_iff_delivers` — failures are contained exactly in the runs without any.
-/

namespace CrossplatformBenchmark.ReactNative

open Transition Paging

variable {α : Type*}

/-! ## What a failure does -/

theorem pending_complete (s : App α) (i : Nat) (response : Response α) :
    App.pending { s with
      inFlight := s.inFlight.eraseIdx i
      updates := s.updates ++ afterFetch (fetchProducts response) } =
        (afterFetch (fetchProducts response)).foldl Update.apply s.pending := by
  simp [App.pending]

/-- **An error ends the list.** -/
theorem failed_pending (st : Cells α) :
    (afterFetch (fetchProducts (.error : Response α))).foldl Update.apply st =
      { st with isLoading := false, isEndReached := true } := by
  simp [fetchProducts, apply_afterFetch]

/-- **A body without products blocks the list**: nothing is updated, so `isLoading` stays set. -/
theorem bodyless_pending (st : Cells α) :
    (afterFetch (fetchProducts (.body none : Response α))).foldl Update.apply st = st := rfl

/-! ## Serialised runs -/

/-- The component, with the call its latest request belongs to. -/
structure Recorded (α : Type*) where
  app : App α := {}
  /-- The committed cells at the latest call that made a request. -/
  before : Cells α := {}
  /-- How that request ended; none while it is in flight. -/
  finished : Option (Response α) := none

def Recorded.step (s : Recorded α) (e : Event α) : Option (Recorded α) :=
  (s.app.step e).map fun app =>
    match e with
    | .call =>
      if (loadMoreProducts s.app.committed).isSome then { app := app, before := s.app.committed, finished := none }
      else { s with app := app }
    | .commit => { s with app := app }
    | .complete _ response => { s with app := app, finished := some response }

variable [DecidableEq α] (L : List α)

/-- Calls wait until everything is committed. A request gets its slice of `L`, an error, or a body without products. -/
def serialOk (s : Recorded α) : Event α → Bool
  | .call => s.app.inFlight.isEmpty && s.app.updates.isEmpty
  | .commit => true
  | .complete i (.body (some ps)) => s.app.inFlight[i]?.any fun r => decide (ps = r.serve L)
  | .complete _ _ => true

def serialised : Lts (Recorded α) (Event α) := Lts.restrict ⟨{}, Recorded.step⟩ (serialOk L)

/-- What a finished request leaves behind, in the cells with its updates applied. -/
structure Contained (s : Recorded α) : Prop where
  isLoading : s.finished ≠ none → s.app.pending.isLoading = false
  unchanged : ∀ response, s.finished = some response → (∀ ps, response ≠ .body (some ps)) →
    s.app.pending.products = s.before.products ∧ s.app.pending.currentPage = s.before.currentPage ∧
    s.app.pending.isEndReached = s.before.isEndReached
  reached : ∀ response, s.finished = some response → s.app.pending.isEndReached = true →
    s.before.isEndReached = true ∨ response = .body (some [])
  complete : s.app.pending.isEndReached = true → s.app.pending.products = L

/-- The request that ends here delivers a list of products. -/
def Delivers (s : Recorded α) : Event α → Prop
  | .complete i response => s.app.inFlight[i]? ≠ none → ∃ ps, response = .body (some ps)
  | _ => True

/-! ## Runs that deliver -/

/-- As long as every request has delivered, the component follows the pager. -/
structure Inv (s : Recorded α) (p : Pager α) : Prop where
  follows : Follows L s.app p
  finished : s.finished ≠ none → s.app.inFlight = []
  delivered : ∀ response, s.finished = some response → ∃ ps, response = .body (some ps)
  /-- The guard was open for the request in flight. -/
  before : s.app.inFlight ≠ [] → s.before.isEndReached = false
  done : p.done = true → s.finished = some (.body (some []))

variable {L} {s : Recorded α} {p : Pager α}

theorem Inv.contained (h : Inv L s p) : Contained L s where
  isLoading hf := by
    rw [h.follows.pending]
    exact h.follows.phase.inFlight_iff.1 (h.finished hf)
  unchanged response hf hno := by
    obtain ⟨ps, rfl⟩ := h.delivered response hf
    exact absurd rfl (hno ps)
  reached response hf he := by
    rw [h.follows.pending] at he
    exact .inr (Option.some.inj (hf.symm.trans (h.done he)))
  complete he := by
    rw [h.follows.pending] at he ⊢
    exact h.follows.good.all he

theorem Inv.call (h : Inv L s p) (hu : s.app.updates = []) (hl : s.app.committed.isLoading = false)
    (he : s.app.committed.isEndReached = false) : Inv L { s with
      app := { s.app with
        updates := s.app.updates ++ [.setIsLoading true]
        inFlight := s.app.inFlight ++ [⟨30, 30 * s.app.committed.currentPage⟩]
        requests := s.app.requests ++ [⟨30, 30 * s.app.committed.currentPage⟩] }
      before := s.app.committed
      finished := none } (p.ask 30) where
  follows := h.follows.call hl he hu
  finished hf := absurd rfl hf
  delivered := nofun
  before _ := he
  done hd := by
    have hcells : s.app.committed = ⟨p.items, p.busy, p.done, p.pages⟩ := by
      rw [← pending_of_settled hu, h.follows.pending]
    rw [hcells] at he
    exact absurd (he.symm.trans hd) nofun

theorem Inv.complete {i : Nat} {r : Request} {ps : List α} (h : Inv L s p) (hi : s.app.inFlight[i]? = some r)
    (hps : ps = r.serve L) : ∃ p', Inv L { s with
      app := { s.app with
        inFlight := s.app.inFlight.eraseIdx i
        updates := s.app.updates ++ afterFetch (fetchProducts (.body (some ps))) }
      finished := some (.body (some ps)) } p' := by
  obtain ⟨hr, hf⟩ := h.follows.complete hi
  obtain rfl : ps = slice L 30 (30 * p.pages) := by rw [hps, serve_page L hr]
  refine ⟨_, hf, fun _ => ?_, ?_, ?_, ?_⟩
  · have hlen := h.follows.safe.inFlight
    have hi' := (List.getElem?_eq_some_iff.1 hi).1
    refine List.eq_nil_of_length_eq_zero ?_
    simp only [List.length_eraseIdx]
    split <;> omega
  · rintro response ⟨⟩
    exact ⟨_, rfl⟩
  · intro hne
    exact h.before fun hnil => hne (by simp [hnil])
  · intro hd
    have hnil : slice L 30 (30 * p.pages) = [] := List.isEmpty_iff.1 hd
    rw [hnil]

/-- A request that does not deliver is seen at once: the list has ended, or it stays loading. -/
theorem Inv.not_contained {i : Nat} {response : Response α} (h : Inv L s p) (hi : s.app.inFlight[i]? ≠ none)
    (hno : ∀ ps, response ≠ .body (some ps)) : ¬ Contained L { s with
      app := { s.app with
        inFlight := s.app.inFlight.eraseIdx i
        updates := s.app.updates ++ afterFetch (fetchProducts response) }
      finished := some response } := by
  intro hc
  have hne : s.app.inFlight ≠ [] := by
    intro hnil
    rw [hnil] at hi
    exact hi rfl
  match response with
  | .body (some ps) => exact hno ps rfl
  | .body none =>
    have hl := hc.isLoading nofun
    rw [pending_complete, bodyless_pending, h.follows.pending] at hl
    exact hne (h.follows.phase.inFlight_iff.2 hl)
  | .error =>
    have he := (hc.unchanged .error rfl nofun).2.2
    rw [pending_complete, failed_pending] at he
    exact absurd (he.trans (h.before hne)) nofun

/-- **Failures are contained exactly in the runs without failures.** `L` is the server's list; in every state of a
serialised run a finished request has reset `isLoading`, has left everything else alone unless it delivered
products, and the list has ended only if it is complete, if and only if every request of the run delivers products. -/
theorem contained_iff_delivers (L : List α) (es : List (Event α)) :
    (serialised L).Always (Contained L) {} es ↔ (serialised L).Along Delivers {} es := by
  refine Lts.always_iff_along (fun s => ∃ p, Inv L s p) ?_ ?_ ?_ es ?_
  · rintro s e t ⟨p, h⟩ hq hs
    obtain ⟨hok, hs⟩ := Lts.restrict_step.1 hs
    obtain ⟨app, happ, rfl⟩ := Option.map_eq_some_iff.1 hs
    obtain ⟨rfl, hguard, rfl⟩ | ⟨rfl, hl, he, rfl⟩ | ⟨rfl, rfl⟩ | ⟨i, r, response, rfl, hi, rfl⟩ := step_cases happ
    · have hnone : loadMoreProducts s.app.committed = none := by
        rcases hguard with hg | hg <;> simp [loadMoreProducts, hg]
      simp only [hnone]
      exact ⟨p, h⟩
    · have hsome := loadMoreProducts_some.2 ⟨hl, he, rfl⟩
      have hsettled : s.app.inFlight = [] ∧ s.app.updates = [] := by simpa [serialOk] using hok
      simp only [hsome]
      exact ⟨_, h.call hsettled.2 hl he⟩
    · refine ⟨p, h.follows.commit, h.finished, h.delivered, h.before, h.done⟩
    · obtain ⟨ps, rfl⟩ := hq (by rw [hi]; exact Option.some_ne_none r)
      exact h.complete hi (by simpa [serialOk, hi] using hok)
  · rintro s ⟨p, h⟩
    exact h.contained
  · rintro s e ⟨p, h⟩ hq
    cases e with
    | call => exact absurd trivial hq
    | commit => exact absurd trivial hq
    | complete i response =>
      simp only [Delivers, Classical.not_imp, not_exists] at hq
      obtain ⟨hi, hno⟩ := hq
      obtain ⟨r, hr⟩ := Option.ne_none_iff_exists'.1 hi
      refine ⟨_, Lts.restrict_step.2 ⟨?_, ?_⟩, h.not_contained hi hno⟩
      · cases response with
        | error => rfl
        | body products =>
          cases products with
          | none => rfl
          | some ps => exact absurd rfl (hno ps)
      · simp [Recorded.step, App.step, hr]
  · refine ⟨{}, ⟨.init, rfl, rfl, List.nil_prefix, .rest _ rfl⟩, fun _ => rfl, ?_, fun h => absurd rfl h, ?_⟩
    · intro response h
      cases h
    · intro h
      cases h

/-- **One failed request**: on an error the first page ends the list, empty; a body without products leaves it
loading. -/
theorem failures_not_contained :
    ¬ (serialised [7]).Always (Contained [7]) {} [.call, .commit, .complete 0 .error, .commit] ∧
    ¬ (serialised [7]).Always (Contained [7]) {} [.call, .commit, .complete 0 (.body none), .commit] ∧
    (∃ s, (serialised [7]).run {} [.call, .commit, .complete 0 .error, .commit] = some s ∧
      s.app.committed = ⟨[], false, true, 0⟩) ∧
    ∃ s, (serialised [7]).run {} [.call, .commit, .complete 0 (.body none), .commit] = some s ∧
      s.app.committed = ⟨[], true, false, 0⟩ := by
  refine ⟨fun h => ?_, fun h => ?_, ⟨_, rfl, rfl⟩, ⟨_, rfl, rfl⟩⟩
  · have hc : Contained [7] _ := ((h.2 _ rfl).2 _ rfl).2 _ rfl |>.head
    exact absurd (hc.complete rfl) nofun
  · have hc : Contained [7] _ := ((h.2 _ rfl).2 _ rfl).2 _ rfl |>.head
    exact absurd (hc.isLoading nofun) nofun

end CrossplatformBenchmark.ReactNative
