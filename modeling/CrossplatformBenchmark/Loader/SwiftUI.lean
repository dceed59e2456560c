import CrossplatformBenchmark.Lib.Paging

/-!
# The SwiftUI product loader (iosApp SwiftUI/RemoteImage.swift:39-74)

`ProductListViewModel` runs on the main actor: a call of `loadMore`, the start of its `Task` and
the resumption of the `Task` after `await` are each one uninterrupted step, in any order the
guards permit.

| source                                   | here               |
|------------------------------------------|--------------------|
| `guard`, `isLoading = true`, `Task { }`  | `loadMore`         |
| arguments of `service.getProducts`       | `getProductsCall`  |
| after `await`, and the `catch`           | `resume`           |

A Swift `Int` operation that overflows traps: the step is `none` and the run ends there.

`swiftui_loader`: against a fixed list the view model is a `Paging.pager` of page size 30.
-/

namespace CrossplatformBenchmark.SwiftUI

open Transition Paging

variable {α : Type*}

/-- The result of a Swift `Int` operation. -/
def trapping (n : Int) : Option Int := if -2 ^ 63 ≤ n ∧ n < 2 ^ 63 then some n else none

/-- `ProductListViewModel` (:40-44). -/
structure ProductListViewModel (α : Type*) where
  products : List α := []
  currentPage : Int := 0
  isLoading : Bool := false
  isEndReached : Bool := false

def PAGE_SIZE : Int := 30

/-- `loadMore` up to the `Task` it creates, if the guard lets it (:49-54). -/
def loadMore (vm : ProductListViewModel α) : ProductListViewModel α × Bool :=
  if !vm.isLoading && !vm.isEndReached then ({ vm with isLoading := true }, true) else (vm, false)

/-- The request of a `Task`, read from the view model when the `Task` starts (:56-59). -/
def getProductsCall (vm : ProductListViewModel α) : Option Request :=
  (trapping (vm.currentPage * PAGE_SIZE)).map fun skip => ⟨PAGE_SIZE, skip⟩

/-- The rest of the `Task` (:60-71). -/
def resume (vm : ProductListViewModel α) : Outcome α → Option (ProductListViewModel α)
  | .returned newProducts =>
    let vm := { vm with products := vm.products ++ newProducts }
    if newProducts.isEmpty then some { vm with isEndReached := true, isLoading := false }
    else (trapping (vm.currentPage + 1)).map fun page => { vm with currentPage := page, isLoading := false }
  | .threw => some { vm with isLoading := false }

/-! ## The main actor -/

inductive TaskState where
  /-- Created, not started. -/
  | pending
  | inFlight (r : Request)
  deriving DecidableEq

def TaskState.isInFlight : TaskState → Bool
  | .pending => false
  | .inFlight _ => true

/-- The view model, its live tasks, and the log of requests and of answers. -/
structure MainActor (α : Type*) where
  vm : ProductListViewModel α := {}
  tasks : List TaskState := []
  requests : List Request := []
  responses : List (List α) := []

inductive Event (α : Type*) where
  | loadMore
  | start (i : Nat)
  | finish (i : Nat) (o : Outcome α)

def logged (responses : List (List α)) : Outcome α → List (List α)
  | .returned ps => responses ++ [ps]
  | .threw => responses

def MainActor.step (s : MainActor α) : Event α → Option (MainActor α)
  | .loadMore =>
    let (vm, created) := SwiftUI.loadMore s.vm
    some { s with vm := vm, tasks := if created then s.tasks ++ [.pending] else s.tasks }
  | .start i =>
    match s.tasks[i]? with
    | some .pending => (getProductsCall s.vm).map fun r =>
        { s with tasks := s.tasks.set i (.inFlight r), requests := s.requests ++ [r] }
    | _ => none
  | .finish i o =>
    match s.tasks[i]? with
    | some (.inFlight _) => (resume s.vm o).map fun vm =>
        { s with vm := vm, tasks := s.tasks.eraseIdx i, responses := logged s.responses o }
    | _ => none

def mainActor (α : Type*) : Lts (MainActor α) (Event α) := ⟨{}, MainActor.step⟩

/-- Non-empty pages received so far. -/
def MainActor.pages (s : MainActor α) : Nat := s.responses.countP (!·.isEmpty)

/-- The server holds `L`: a request in flight returns its slice, or throws. -/
def serverHolds [DecidableEq α] (L : List α) (s : MainActor α) : Event α → Bool
  | .finish i (.returned ps) => s.tasks[i]?.any fun
    | .pending => false
    | .inFlight r => decide (ps = r.serve L)
  | _ => true

def loader [DecidableEq α] (L : List α) : Lts (MainActor α) (Event α) := (mainActor α).restrict (serverHolds L)

/-! ## What a step can do -/

theorem loadMore_open {vm : ProductListViewModel α} (hl : vm.isLoading = false) (he : vm.isEndReached = false) :
    loadMore vm = ({ vm with isLoading := true }, true) := by simp [loadMore, hl, he]

theorem loadMore_closed {vm : ProductListViewModel α} (h : vm.isLoading = true ∨ vm.isEndReached = true) :
    loadMore vm = (vm, false) := by
  rcases h with h | h <;> simp [loadMore, h]

theorem trapping_of_lt {n : Int} (h0 : 0 ≤ n) (h : n < 2 ^ 63) : trapping n = some n := by
  rw [trapping, if_pos ⟨by omega, h⟩]

theorem eq_of_trapping {n m : Int} (h : trapping n = some m) : m = n := by
  rw [trapping, Option.ite_none_right_eq_some] at h
  exact (Option.some.inj h.2).symm

theorem getProductsCall_eq {vm : ProductListViewModel α} {r : Request} (h : getProductsCall vm = some r) :
    r = ⟨30, 30 * vm.currentPage⟩ := by
  obtain ⟨skip, hs, rfl⟩ := Option.map_eq_some_iff.1 h
  rw [eq_of_trapping hs, PAGE_SIZE, Int.mul_comm]

theorem resume_returned {vm vm' : ProductListViewModel α} {ps : List α} (h : resume vm (.returned ps) = some vm') :
    vm' = { vm with
      products := vm.products ++ ps
      currentPage := if ps.isEmpty then vm.currentPage else vm.currentPage + 1
      isLoading := false
      isEndReached := ps.isEmpty || vm.isEndReached } := by
  cases ps with
  | nil =>
    cases h
    rfl
  | cons x ps =>
    obtain ⟨page, hp, rfl⟩ := Option.map_eq_some_iff.1 h
    rw [eq_of_trapping hp]
    rfl

theorem step_cases {s t : MainActor α} {e : Event α} (h : (mainActor α).step s e = some t) :
    (e = .loadMore ∧ s.vm.isLoading = false ∧ s.vm.isEndReached = false ∧
      t = { s with vm := { s.vm with isLoading := true }, tasks := s.tasks ++ [.pending] }) ∨
    (e = .loadMore ∧ (s.vm.isLoading = true ∨ s.vm.isEndReached = true) ∧ t = s) ∨
    (∃ i r, e = .start i ∧ s.tasks[i]? = some .pending ∧ getProductsCall s.vm = some r ∧
      t = { s with tasks := s.tasks.set i (.inFlight r), requests := s.requests ++ [r] }) ∨
    (∃ i r o vm, e = .finish i o ∧ s.tasks[i]? = some (.inFlight r) ∧ resume s.vm o = some vm ∧
      t = { s with vm := vm, tasks := s.tasks.eraseIdx i, responses := logged s.responses o }) := by
  cases e with
  | loadMore =>
    simp only [mainActor, MainActor.step, Option.some.injEq] at h
    by_cases hg : s.vm.isLoading = true ∨ s.vm.isEndReached = true
    · rw [loadMore_closed hg] at h
      exact .inr (.inl ⟨rfl, hg, h.symm⟩)
    · obtain ⟨hl, he⟩ := not_or.1 hg
      rw [loadMore_open (eq_false_of_ne_true hl) (eq_false_of_ne_true he)] at h
      exact .inl ⟨rfl, eq_false_of_ne_true hl, eq_false_of_ne_true he, h.symm⟩
  | start i =>
    simp only [mainActor, MainActor.step] at h
    split at h
    · obtain ⟨r, hr, rfl⟩ := Option.map_eq_some_iff.1 h
      exact .inr (.inr (.inl ⟨i, r, rfl, ‹_›, hr, rfl⟩))
    · cases h
  | finish i o =>
    simp only [mainActor, MainActor.step] at h
    split at h
    · obtain ⟨vm, hv, rfl⟩ := Option.map_eq_some_iff.1 h
      exact .inr (.inr (.inr ⟨i, _, o, vm, rfl, ‹_›, hv, rfl⟩))
    · cases h

/-! ## The pager it implements -/

/-- Where the one load is. A pager is busy from the request on, a view model from `loadMore` on. -/
inductive Phase (p : Pager α) : List TaskState → Bool → Prop
  | idle : p.busy = false → Phase p [] false
  | pending : p.busy = false → p.done = false → Phase p [.pending] true
  | inFlight : p.busy = true → p.done = false → Phase p [.inFlight ⟨30, 30 * p.pages⟩] true

structure Follows (s : MainActor α) (p : Pager α) : Prop where
  products : s.vm.products = p.items
  currentPage : s.vm.currentPage = p.pages
  isEndReached : s.vm.isEndReached = p.done
  requests : s.requests = p.asked.map fun k => ⟨30, (k : Int)⟩
  responses : s.pages = p.pages
  phase : Phase p s.tasks s.vm.isLoading
  /-- A request in flight is the one the view model would make again. -/
  again : ∀ r, .inFlight r ∈ s.tasks → getProductsCall s.vm = some r

theorem Phase.length_le {p : Pager α} {ts : List TaskState} {b : Bool} (h : Phase p ts b) : ts.length ≤ 1 := by
  cases h <;> simp

theorem Phase.isLoading_iff {p : Pager α} {ts : List TaskState} {b : Bool} (h : Phase p ts b) :
    b = true ↔ ts ≠ [] := by
  cases h <;> simp

theorem Phase.of_pending {p : Pager α} {ts : List TaskState} {b : Bool} {i : Nat} (h : Phase p ts b)
    (hi : ts[i]? = some .pending) : i = 0 ∧ ts = [.pending] ∧ b = true ∧ p.busy = false ∧ p.done = false := by
  cases h with
  | idle hb => cases hi
  | pending hb hd => exact ⟨(of_getElem?_singleton hi).1, rfl, rfl, hb, hd⟩
  | inFlight hb hd => cases (of_getElem?_singleton hi).2

theorem Phase.of_inFlight {p : Pager α} {ts : List TaskState} {b : Bool} {i : Nat} {r : Request} (h : Phase p ts b)
    (hi : ts[i]? = some (.inFlight r)) :
    i = 0 ∧ ts = [.inFlight r] ∧ b = true ∧ r = ⟨30, 30 * p.pages⟩ ∧ p.busy = true ∧ p.done = false := by
  cases h with
  | idle hb => cases hi
  | pending hb hd => cases (of_getElem?_singleton hi).2
  | inFlight hb hd =>
    obtain ⟨rfl, ht⟩ := of_getElem?_singleton hi
    cases ht
    exact ⟨rfl, rfl, rfl, rfl, hb, hd⟩

section steps

variable {s : MainActor α} {p : Pager α}

/-- The guard lets a load pass: the pager asks only when its task starts. -/
theorem Follows.loadMore (h : Follows s p) (hl : s.vm.isLoading = false) (he : s.vm.isEndReached = false) :
    Follows { s with vm := { s.vm with isLoading := true }, tasks := s.tasks ++ [.pending] } p := by
  have hph := h.phase
  rw [hl] at hph
  generalize hts : s.tasks = ts at hph
  cases hph with
  | idle hb =>
    refine ⟨h.products, h.currentPage, h.isEndReached, h.requests, h.responses, .pending hb ?_, fun r hm => ?_⟩
    · exact h.isEndReached.symm.trans he
    · cases List.mem_singleton.1 hm

/-- The task starts: the pager asks. -/
theorem Follows.start {i : Nat} {r : Request} (h : Follows s p) (hi : s.tasks[i]? = some .pending)
    (hr : getProductsCall s.vm = some r) : p.busy = false ∧ p.done = false ∧
      Follows { s with tasks := s.tasks.set i (.inFlight r), requests := s.requests ++ [r] } (p.ask 30) := by
  obtain ⟨rfl, hts, hl, hb, hd⟩ := h.phase.of_pending hi
  have hreq : r = ⟨30, 30 * p.pages⟩ := by rw [getProductsCall_eq hr, h.currentPage]
  refine ⟨hb, hd, h.products, h.currentPage, h.isEndReached, ?_, h.responses, ?_, fun r' hm => ?_⟩
  · simp only [hreq, h.requests, Pager.ask, List.map_append, List.map_cons, List.map_nil]
    push_cast
    rfl
  · simp only [hts, List.set_cons_zero, hl, hreq]
    exact .inFlight rfl hd
  · rw [hts] at hm
    cases List.mem_singleton.1 hm
    exact hr

/-- The task gets its page, and so does the pager. -/
theorem Follows.returned {i : Nat} {r : Request} {ps : List α} {vm : ProductListViewModel α} (h : Follows s p)
    (hi : s.tasks[i]? = some (.inFlight r)) (hv : resume s.vm (.returned ps) = some vm) :
    Follows { s with vm := vm, tasks := s.tasks.eraseIdx i, responses := s.responses ++ [ps] } (p.page ps) := by
  obtain ⟨rfl, hts, -, -, -, hd⟩ := h.phase.of_inFlight hi
  have hpages : s.responses.countP (!·.isEmpty) = p.pages := h.responses
  rw [resume_returned hv]
  refine ⟨?_, ?_, ?_, h.requests, ?_, ?_, fun r' hm => ?_⟩
  · simp only [h.products, Pager.page]
  · cases ps <;> simp [h.currentPage, Pager.page]
  · simp only [h.isEndReached, hd, Bool.or_false, Pager.page]
  · cases ps <;> simp [MainActor.pages, List.countP_append, hpages, Pager.page]
  · simp only [hts, List.eraseIdx_cons_zero]
    exact .idle rfl
  · rw [hts] at hm
    cases hm

/-- The task fails: the pager asks for the same page next time. -/
theorem Follows.threw {i : Nat} {r : Request} (h : Follows s p) (hi : s.tasks[i]? = some (.inFlight r)) :
    Follows { s with vm := { s.vm with isLoading := false }, tasks := s.tasks.eraseIdx i }
      { p with busy := false } := by
  obtain ⟨rfl, hts, -⟩ := h.phase.of_inFlight hi
  refine ⟨h.products, h.currentPage, h.isEndReached, h.requests, h.responses, ?_, fun r' hm => ?_⟩
  · simp only [hts, List.eraseIdx_cons_zero]
    exact .idle rfl
  · rw [hts] at hm
    cases hm

end steps

theorem loader_follows [DecidableEq α] (L : List α) : Lts.Simulation (loader L) (served 30 L) Follows where
  init := ⟨rfl, rfl, rfl, rfl, rfl, .idle rfl, fun r hr => absurd hr List.not_mem_nil⟩
  step := by
    intro s e t p hf hs
    obtain ⟨hok, hs⟩ := Lts.restrict_step.1 hs
    obtain ⟨rfl, hl, he, rfl⟩ | ⟨rfl, -, rfl⟩ | ⟨i, r, rfl, hi, hr, rfl⟩ | ⟨i, r, o, vm, rfl, hi, hv, rfl⟩ :=
      step_cases hs
    · exact ⟨p, .refl _ p, hf.loadMore hl he⟩
    · exact ⟨p, .refl _ p, hf⟩
    · obtain ⟨hb, hd, hf'⟩ := hf.start hi hr
      exact ⟨p.ask 30, .single (served_ask hb hd), hf'⟩
    · obtain ⟨-, -, -, hreq, hb, -⟩ := hf.phase.of_inFlight hi
      cases o with
      | returned ps =>
        have hps : ps = slice L 30 (30 * p.pages) := by
          have hps : ps = r.serve L := by simpa [serverHolds, hi] using hok
          rw [hps, serve_page L hreq]
        have hf' := hf.returned hi hv
        rw [hps] at hf' ⊢
        exact ⟨_, .single (served_page hb), hf'⟩
      | threw =>
        cases hv
        exact ⟨_, .single (served_fail hb), hf.threw hi⟩

/-! ## Safety of the loader -/

section safety

variable [DecidableEq α] {L : List α} {s t : MainActor α}

omit [DecidableEq α] in
/-- What a follower of a good pager looks like. -/
theorem Follows.safe {p : Pager α} (hf : Follows s p) (hg : Good 30 L p) :
    s.vm.products = L.take (30 * s.vm.currentPage.toNat) ∧ (s.vm.isEndReached = true → s.vm.products = L) := by
  refine ⟨?_, fun he => ?_⟩
  · rw [hf.products, hf.currentPage, Int.toNat_natCast, hg.items]
  · rw [hf.products]
    exact hg.all (hf.isEndReached.symm.trans he)

/-- Only the start of a task adds a request: for the page after those received. -/
theorem requests_step {e : Event α} {p : Pager α} (hf : Follows s p) (hs : (loader L).step s e = some t) :
    t.requests = s.requests ∨ t.requests = s.requests ++ [⟨30, 30 * (s.pages : Int)⟩] := by
  obtain ⟨-, hs⟩ := Lts.restrict_step.1 hs
  obtain ⟨-, -, -, rfl⟩ | ⟨-, -, rfl⟩ | ⟨i, r, -, -, hr, rfl⟩ | ⟨i, r, o, vm, -, -, -, rfl⟩ := step_cases hs
  · exact .inl rfl
  · exact .inl rfl
  · refine .inr ?_
    rw [getProductsCall_eq hr, hf.currentPage, hf.responses]
  · exact .inl rfl

theorem follows_reachable (h : (loader L).Reachable s) : ∃ p, Follows s p ∧ Good 30 L p := by
  obtain ⟨p, hp, hf⟩ := (loader_follows L).reachable h
  exact ⟨p, hf, .reachable (by decide) hp⟩

theorem requests_at_end {p : Pager α} (hf : Follows s p) (hg : Good 30 L p) (he : s.vm.isEndReached = true)
    (hst : (loader L).Steps s t) : t.requests = s.requests := by
  obtain ⟨es, hes⟩ := hst
  obtain ⟨p', hp', hf'⟩ := (loader_follows L).run hf hes
  rw [hf'.requests, hf.requests, hg.final (hf.isEndReached.symm.trans he) hp']

/-- A failed request leaves everything but `isLoading`; the next load asks for the same page. -/
theorem retry {p : Pager α} {i : Nat} {r : Request} (hf : Follows s p) (hi : s.tasks[i]? = some (.inFlight r))
    (hs : (loader L).step s (.finish i .threw) = some t) :
    t.vm = { s.vm with isLoading := false } ∧
      ∃ u, (loader L).run t [.loadMore, .start 0] = some u ∧ u.requests = t.requests ++ [r] := by
  obtain ⟨vm, tasks, requests, responses⟩ := s
  obtain ⟨rfl, rfl, -, -, -, hd⟩ := hf.phase.of_inFlight hi
  have hcall : getProductsCall vm = some r := hf.again r (List.mem_singleton.2 rfl)
  have he : vm.isEndReached = false := hf.isEndReached.trans hd
  obtain ⟨-, hs⟩ := Lts.restrict_step.1 hs
  obtain rfl : t = ⟨{ vm with isLoading := false }, [], requests, responses⟩ := (Option.some.inj hs).symm
  refine ⟨rfl, ⟨{ vm with isLoading := true }, [.inFlight r], requests ++ [r], responses⟩, ?_, rfl⟩
  have h1 : (loader L).step ⟨{ vm with isLoading := false }, [], requests, responses⟩ .loadMore =
      some ⟨{ vm with isLoading := true }, [.pending], requests, responses⟩ := by
    simp [loader, Lts.restrict, serverHolds, mainActor, MainActor.step, loadMore, he]
  have h2 : (loader L).step ⟨{ vm with isLoading := true }, [.pending], requests, responses⟩ (.start 0) =
      some ⟨{ vm with isLoading := true }, [.inFlight r], requests ++ [r], responses⟩ := by
    have hcall' : getProductsCall { vm with isLoading := true } = some r := hcall
    simp [loader, Lts.restrict, serverHolds, mainActor, MainActor.step, hcall']
  rw [Lts.run_cons_some _ h1, Lts.run_cons_some _ h2, Lts.run_nil]

/-- **The SwiftUI loader.** `L` is the server's list and `s` any state reached by calls of `loadMore`, task
starts, answers and failures in any order. -/
theorem swiftui_loader (h : (loader L).Reachable s) :
    s.tasks.countP (·.isInFlight) ≤ 1 ∧
    (s.vm.isLoading = true ↔ s.tasks ≠ []) ∧
    s.vm.products = L.take (30 * s.vm.currentPage.toNat) ∧
    (s.vm.isEndReached = true → s.vm.products = L) ∧
    (∀ e t, (loader L).step s e = some t → t.requests = s.requests ∨
      t.requests = s.requests ++ [⟨30, 30 * (s.pages : Int)⟩]) ∧
    (s.vm.isEndReached = true → ∀ t, (loader L).Steps s t → t.requests = s.requests) ∧
    (∀ i r t, s.tasks[i]? = some (.inFlight r) → (loader L).step s (.finish i .threw) = some t →
      t.vm = { s.vm with isLoading := false } ∧
        ∃ u, (loader L).run t [.loadMore, .start 0] = some u ∧ u.requests = t.requests ++ [r]) := by
  obtain ⟨p, hf, hg⟩ := follows_reachable h
  obtain ⟨hprod, hend⟩ := hf.safe hg
  refine ⟨?_, hf.phase.isLoading_iff, hprod, hend, fun e t hs => requests_step hf hs,
    fun he t => requests_at_end hf hg he, fun i r t hi hs => retry hf hi hs⟩
  exact List.countP_le_length.trans hf.phase.length_le

/-- Two products: the second request, after the only page, is out, and a failure would repeat it. -/
theorem swiftui_loader_second_page :
    ∃ s, (loader [7, 8]).run {} [.loadMore, .start 0, .finish 0 (.returned [7, 8]), .loadMore, .start 0] = some s ∧
      s.tasks = [.inFlight ⟨30, 30⟩] ∧ s.vm.products = [7, 8].take (30 * 1) ∧
      ∀ t, (loader [7, 8]).step s (.finish 0 .threw) = some t →
        ∃ u, (loader [7, 8]).run t [.loadMore, .start 0] = some u ∧ u.requests = t.requests ++ [⟨30, 30⟩] := by
  let s : MainActor Nat := ⟨⟨[7, 8], 1, true, false⟩, [.inFlight ⟨30, 30⟩], [⟨30, 0⟩, ⟨30, 30⟩], [[7, 8]]⟩
  have hrun : (loader [7, 8]).run {} [.loadMore, .start 0, .finish 0 (.returned [7, 8]), .loadMore, .start 0] = some s :=
    rfl
  have hs : (loader [7, 8]).Reachable s := ⟨_, hrun⟩
  obtain ⟨-, -, hprod, -, -, -, hretry⟩ := swiftui_loader hs
  exact ⟨s, hrun, rfl, hprod, fun t ht => (hretry 0 ⟨30, 30⟩ t rfl ht).2⟩

end safety

end CrossplatformBenchmark.SwiftUI
