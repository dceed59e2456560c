import CrossplatformBenchmark.Loader.SwiftUIGrid

/-!
# The SwiftUI grid always gets to the end (RemoteImage.swift:39-125)

The grid of `Loader/SwiftUIGrid` on a server with a fixed list, every request of which may fail. After a failure
nothing asks again by itself, but the view model is as it was before the load: whatever has happened, the user can
still get the whole list, by leaving the view or scrolling the last cell off the screen and on again.

* `grid_completes` — from every reachable state some run ends with all products shown and the end reached.
* `requests_bound` — whenever `loadMore` is called, at most one request is made for each page, one for the end and one
  more for each failure.
-/

namespace CrossplatformBenchmark.SwiftUI

open Transition Paging

variable {α : Type*} [DecidableEq α] (L : List α)

/-! ## The grid on a server -/

/-- The server holds `L`: an answer is the slice that was asked for. -/
def gridServer (s : Grid α) : GridEvent α → Bool
  | .finish i o => serverHolds L s.actor (.finish i o)
  | _ => true

def gridLoader : Lts (Grid α) (GridEvent α) := (grid α).restrict (gridServer L)

variable {L}

omit [DecidableEq α] in
theorem loadMore_actor {s t : Grid α} (h : s.loadMore = some t) : (mainActor α).step s.actor .loadMore = some t.actor := by
  obtain ⟨actor, ha, rfl⟩ := Option.map_eq_some_iff.1 h
  exact ha

/-- The grid drives its view model: a step of the grid is a step of the loader, or none. -/
theorem grid_refines : Lts.Simulation (gridLoader L) (loader L) fun s actor => s.actor = actor where
  init := rfl
  step := by
    rintro s e t _ rfl hs
    obtain ⟨hok, hs⟩ := Lts.restrict_step.1 hs
    obtain ⟨-, -, rfl⟩ | ⟨-, rfl⟩ | ⟨first, last, -, -, -, rfl⟩ | ⟨i, a, -, -, ht⟩ | ⟨i, actor, -, ha, rfl⟩ |
      ⟨i, o, actor, rfl, ha, rfl⟩ := grid_step_cases hs
    · exact ⟨s.actor, .refl _ _, rfl⟩
    · exact ⟨s.actor, .refl _ _, rfl⟩
    · exact ⟨s.actor, .refl _ _, rfl⟩
    · by_cases ha : s.asks a
      · rw [onAppear_asks (by exact ha)] at ht
        have hactor := loadMore_actor ht
        exact ⟨t.actor, .single (e := SwiftUI.Event.loadMore) (Lts.restrict_step.2 ⟨rfl, hactor⟩), rfl⟩
      · rw [onAppear_not_asks (by exact ha)] at ht
        obtain rfl := Option.some.inj ht
        exact ⟨s.actor, .refl _ _, rfl⟩
    · exact ⟨actor, .single (e := SwiftUI.Event.start i) (Lts.restrict_step.2 ⟨rfl, ha⟩), rfl⟩
    · exact ⟨actor, .single (e := SwiftUI.Event.finish i o) (Lts.restrict_step.2 ⟨hok, ha⟩), rfl⟩

/-- What a reachable grid is: its cells and events, and the pager behind its view model. -/
structure Served (L : List α) (s : Grid α) : Prop where
  live : Live s
  reachable : (loader L).Reachable s.actor

theorem served_inductive : (gridLoader L).Inductive (Served L) where
  init := ⟨Live.init, .init⟩
  step := by
    intro s e t h hs
    obtain ⟨actor, hst, rfl⟩ := grid_refines.step rfl hs
    exact ⟨live_step s e t h.live (Lts.restrict_step.1 hs).2, h.reachable.trans hst⟩

/-! ## Each load can be made to end with a page -/

section progress

variable {s : Grid α}

omit [DecidableEq α] in
theorem resume_total (vm : ProductListViewModel α) (h0 : 0 ≤ vm.currentPage) (h : vm.currentPage + 1 < 2 ^ 63)
    (ps : List α) : ∃ vm', resume vm (.returned ps) = some vm' := by
  cases ps with
  | nil => exact ⟨_, rfl⟩
  | cons x ps =>
    have hnext : trapping (vm.currentPage + 1) = some (vm.currentPage + 1) := trapping_of_lt (by omega) h
    exact ⟨_, by simp only [resume, hnext]; rfl⟩

/-- The request in flight gets its answer: a page, or the end. -/
theorem Served.finish (h : Served L s) (hL : L.length + 30 < 2 ^ 63) {r : Request}
    (ht : s.actor.tasks = [.inFlight r]) : ∃ t, (gridLoader L).Steps s t ∧
      (t.actor.vm.isEndReached = true ∨ s.actor.vm.products.length < t.actor.vm.products.length) := by
  obtain ⟨p, hf, hg⟩ := follows_reachable h.reachable
  have hlt := hg.offset_lt (by decide)
  have hcur := hf.currentPage
  obtain ⟨vm, hv⟩ := resume_total s.actor.vm (by omega) (by omega) (r.serve L)
  have hok : serverHolds L s.actor (.finish 0 (.returned (r.serve L))) = true := by simp [serverHolds, ht]
  have hstep : (gridLoader L).step s (.finish 0 (.returned (r.serve L))) = some { s with
      actor := ⟨vm, [], s.actor.requests, s.actor.responses ++ [r.serve L]⟩, failed := false } := by
    refine Lts.restrict_step.2 ⟨hok, ?_⟩
    simp [grid, Grid.step, MainActor.step, ht, hv, logged, Outcome.isThrew]
  refine ⟨_, .single hstep, ?_⟩
  rw [resume_returned hv]
  by_cases hnil : r.serve L = []
  · exact .inl (by simp [hnil])
  · refine .inr ?_
    have hpos := List.length_pos_iff.2 hnil
    simp only [List.length_append]
    omega

/-- The task that waits starts: its offset is in range. -/
theorem Served.start (h : Served L s) (hL : L.length + 30 < 2 ^ 63) (ht : s.actor.tasks = [.pending]) :
    ∃ t r, (gridLoader L).Steps s t ∧ t.actor.vm = s.actor.vm ∧ t.actor.tasks = [.inFlight r] := by
  obtain ⟨p, hf, hg⟩ := follows_reachable h.reachable
  have hlt := hg.offset_lt (by decide)
  have hcur := hf.currentPage
  have hcall : getProductsCall s.actor.vm = some ⟨PAGE_SIZE, s.actor.vm.currentPage * PAGE_SIZE⟩ := by
    have hskip : trapping (s.actor.vm.currentPage * PAGE_SIZE) = some (s.actor.vm.currentPage * PAGE_SIZE) :=
      trapping_of_lt (by unfold PAGE_SIZE; omega) (by unfold PAGE_SIZE; omega)
    rw [getProductsCall, hskip]
    rfl
  have hstep : (gridLoader L).step s (.start 0) = some { s with actor := { s.actor with
      tasks := [.inFlight ⟨PAGE_SIZE, s.actor.vm.currentPage * PAGE_SIZE⟩]
      requests := s.actor.requests ++ [⟨PAGE_SIZE, s.actor.vm.currentPage * PAGE_SIZE⟩] } } := by
    refine Lts.restrict_step.2 ⟨rfl, ?_⟩
    simp [grid, Grid.step, MainActor.step, ht, hcall]
  exact ⟨_, _, .single hstep, rfl, rfl⟩

/-- The last event to be delivered asks for a page of an idle view model. -/
theorem deliver_asks {a : Appear} {as : List Appear} (hs : s.appears = as ++ [a]) (ha : s.asks a)
    (hl : s.actor.vm.isLoading = false) (he : s.actor.vm.isEndReached = false) (ht : s.actor.tasks = []) :
    ∃ t, (gridLoader L).Steps s t ∧ t.actor.vm = { s.actor.vm with isLoading := true } ∧
      t.actor.tasks = [.pending] := by
  have hstep : (gridLoader L).step s (.deliver as.length) = Grid.loadMore { s with appears := as } := by
    simp only [gridLoader, Lts.restrict, gridServer, if_true, grid, Grid.step, hs]
    rw [List.getElem?_append_right le_rfl, Nat.sub_self]
    simp only [List.getElem?_cons_zero, Option.bind_some, List.eraseIdx_append_of_length_le le_rfl, Nat.sub_self,
      List.eraseIdx_cons_zero, List.append_nil]
    exact onAppear_asks ha
  rw [loadMore_asks (s := { s with appears := as }) hl he] at hstep
  exact ⟨_, .single hstep, rfl, by simp [ht]⟩

/-- The view is left and comes back: its appear event is on its way. -/
theorem reappear (s : Grid α) : ∃ t as, (gridLoader L).Steps s t ∧ t.actor = s.actor ∧ t.onScreen = true ∧
    t.appears = as ++ [.root] := by
  have happear : ∀ u : Grid α, u.onScreen = false → (gridLoader L).step u .appear =
      some { u with onScreen := true, appears := u.appears ++ [.root] } := by
    intro u hu
    exact Lts.restrict_step.2 ⟨rfl, if_neg (by simp [hu])⟩
  cases hs : s.onScreen with
  | false => exact ⟨_, s.appears, .single (happear s hs), rfl, rfl, rfl⟩
  | true =>
    have hleave : (gridLoader L).step s .disappear = some { s with onScreen := false, first := 0, last := 0 } :=
      Lts.restrict_step.2 ⟨rfl, if_pos hs⟩
    exact ⟨_, s.appears, (Lts.Steps.single hleave).trans (.single (happear _ rfl)), rfl, rfl, rfl⟩

/-- The last cell is scrolled off the screen and on again: its appear event is on its way. -/
theorem rescroll (hs : s.onScreen = true) (hp : s.actor.vm.products ≠ []) : ∃ t as, (gridLoader L).Steps s t ∧
    t.actor = s.actor ∧ t.appears = as ++ [.cell (s.actor.vm.products.length - 1)] := by
  have hscroll : ∀ (u : Grid α) (first last : Nat), u.onScreen = true → last ≤ u.actor.vm.products.length →
      (gridLoader L).step u (.scroll first last) = some { u with
        first := first, last := last, appears := u.appears ++ u.appeared first last } := by
    intro u first last hu hlast
    exact Lts.restrict_step.2 ⟨rfl, if_pos ⟨hu, hlast⟩⟩
  let u : Grid α := { s with first := 0, last := 0, appears := s.appears ++ s.appeared 0 0 }
  have hpos : 0 < s.actor.vm.products.length := List.length_pos_iff.2 hp
  have hnew : u.appeared (s.actor.vm.products.length - 1) s.actor.vm.products.length =
      [.cell (s.actor.vm.products.length - 1)] := by
    obtain ⟨n, hn⟩ := Nat.exists_eq_add_one.2 hpos
    rw [hn, Nat.add_sub_cancel, Grid.appeared, List.range_succ, List.filter_append, List.filter_eq_nil_iff.2 ?_]
    · simp [u, Grid.visible]
    · intro k hk
      have hlt := List.mem_range.1 hk
      simp only [Bool.and_eq_true, decide_eq_true_eq]
      omega
  refine ⟨_, u.appears, (Lts.Steps.single (hscroll s 0 0 hs (Nat.zero_le _))).trans
    (.single (hscroll u (s.actor.vm.products.length - 1) s.actor.vm.products.length hs le_rfl)), rfl, ?_⟩
  simp only [hnew]

/-- The user gets an idle view model to ask for the next page. -/
theorem ask_again (ht : s.actor.tasks = []) (hl : s.actor.vm.isLoading = false)
    (he : s.actor.vm.isEndReached = false) : ∃ t, (gridLoader L).Steps s t ∧
      t.actor.vm = { s.actor.vm with isLoading := true } ∧ t.actor.tasks = [.pending] := by
  obtain ⟨u, as, hsu, hactor, hon, hroot⟩ := reappear (L := L) s
  by_cases hp : s.actor.vm.products = []
  · have hask : u.asks .root := by rw [Grid.asks, hactor, hp]
    obtain ⟨t, hut, hvm, htasks⟩ := deliver_asks (L := L) hroot hask (hactor ▸ hl) (hactor ▸ he) (hactor ▸ ht)
    exact ⟨t, hsu.trans hut, hactor ▸ hvm, htasks⟩
  · obtain ⟨v, bs, huv, hactor', hcell⟩ := rescroll (L := L) hon (hactor ▸ hp)
    have hvs : v.actor = s.actor := hactor'.trans hactor
    have hask : v.asks (.cell (u.actor.vm.products.length - 1)) := by
      have hpos := List.length_pos_iff.2 hp
      rw [Grid.asks, hactor', hactor]
      omega
    obtain ⟨t, hvt, hvm, htasks⟩ := deliver_asks (L := L) hcell hask (hvs ▸ hl) (hvs ▸ he) (hvs ▸ ht)
    exact ⟨t, hsu.trans (huv.trans hvt), hvs ▸ hvm, htasks⟩

/-! ## To the end -/

/-- A load that is under way, or is asked for, brings a page or the end. -/
theorem Served.advance (h : Served L s) (hL : L.length + 30 < 2 ^ 63) (he : s.actor.vm.isEndReached = false) :
    ∃ t, (gridLoader L).Steps s t ∧
      (t.actor.vm.isEndReached = true ∨ s.actor.vm.products.length < t.actor.vm.products.length) := by
  obtain ⟨p, hf, -⟩ := follows_reachable h.reachable
  have hpending : ∀ {u : Grid α}, Served L u → u.actor.tasks = [.pending] → ∃ t, (gridLoader L).Steps u t ∧
      (t.actor.vm.isEndReached = true ∨ u.actor.vm.products.length < t.actor.vm.products.length) := by
    intro u hu htasks
    obtain ⟨v, r, huv, hvm, hflight⟩ := hu.start hL htasks
    obtain ⟨t, hvt, hlt⟩ := (served_inductive.step.steps hu huv).finish hL hflight
    exact ⟨t, huv.trans hvt, hvm ▸ hlt⟩
  have hph := hf.phase
  generalize hts : s.actor.tasks = ts, hl : s.actor.vm.isLoading = b at hph
  cases hph with
  | idle hb =>
    obtain ⟨u, hsu, hvm, htasks⟩ := ask_again (L := L) hts hl he
    obtain ⟨t, hut, hlt⟩ := hpending (served_inductive.step.steps h hsu) htasks
    rw [hvm] at hlt
    exact ⟨t, hsu.trans hut, hlt⟩
  | pending hb hd => exact hpending h hts
  | inFlight hb hd => exact h.finish hL hts

/-- **The grid always gets to the end**: from any state reached by scrolling, appear events, answers and failures, some
run ends with the whole list. -/
theorem grid_completes (hL : L.length + 30 < 2 ^ 63) (h : (gridLoader L).Reachable s) :
    ∃ t, (gridLoader L).Steps s t ∧ t.actor.vm.isEndReached = true ∧ t.actor.vm.products = L := by
  have hbound : ∀ u : Grid α, Served L u → u.actor.vm.products.length ≤ L.length := by
    intro u hu
    obtain ⟨p, hf, hg⟩ := follows_reachable hu.reachable
    rw [hf.products, hg.items, List.length_take]
    exact Nat.min_le_right _ _
  have hstep : ∀ u : Grid α, Served L u → u.actor.vm.isEndReached = true ∨ ∃ v, (gridLoader L).Steps u v ∧
      Served L v ∧ (v.actor.vm.isEndReached = true ∨ u.actor.vm.products.length < v.actor.vm.products.length) := by
    intro u hu
    cases he : u.actor.vm.isEndReached with
    | true => exact .inl rfl
    | false =>
      obtain ⟨v, huv, hgrown⟩ := hu.advance hL he
      exact .inr ⟨v, huv, served_inductive.step.steps hu huv, hgrown⟩
  obtain ⟨t, hst, ht, he⟩ := Lts.steps_of_growth _ L.length hbound hstep (served_inductive.reachable h)
  obtain ⟨p, hf, hg⟩ := follows_reachable ht.reachable
  exact ⟨t, hst, he, (hf.safe hg).2 he⟩

end progress

/-- The first load fails, and no event is left that would ask again. -/
theorem grid_completes_after_failure :
    ∃ s t, (gridLoader [7, 8]).run {} [.appear, .deliver 0, .start 0, .finish 0 .threw] = some s ∧
      s.actor.vm.products = [] ∧ s.Resting ∧ (gridLoader [7, 8]).Steps s t ∧ t.actor.vm.products = [7, 8] := by
  have hrun : ∃ s, (gridLoader [7, 8]).run {} [.appear, .deliver 0, .start 0, .finish 0 .threw] = some s ∧
      s.actor.vm.products = [] ∧ s.Resting := ⟨_, rfl, rfl, rfl, rfl, rfl, rfl⟩
  obtain ⟨s, hs, hp, hr⟩ := hrun
  obtain ⟨t, hst, -, ht⟩ := grid_completes (by decide) ⟨_, hs⟩
  exact ⟨s, t, hs, hp, hr, hst, ht⟩

/-! ## How many requests -/

def Event.isThrow : Event α → Bool
  | .finish _ o => o.isThrew
  | _ => false

/-- Every request has been answered, has failed, `failures` of them, or is in flight; one answer was the end. -/
structure Accounted (failures : Nat) (s : MainActor α) : Prop where
  requests : s.requests.length = s.responses.length + s.tasks.countP (·.isInFlight) + failures
  responses : s.responses.length = s.pages + if s.vm.isEndReached then 1 else 0

theorem accounted_step {s t : MainActor α} {e : Event α} {n : Nat} (hs : (loader L).Reachable s)
    (h : Accounted n s) (ht : (loader L).step s e = some t) : Accounted (n + if e.isThrow then 1 else 0) t := by
  obtain ⟨p, hf, -⟩ := follows_reachable hs
  have hreq := h.requests
  have hres := h.responses
  obtain ⟨-, ht⟩ := Lts.restrict_step.1 ht
  obtain ⟨rfl, -, -, rfl⟩ | ⟨rfl, -, rfl⟩ | ⟨i, r, rfl, hi, -, rfl⟩ | ⟨i, r, o, vm, rfl, hi, hv, rfl⟩ := step_cases ht
  · refine ⟨?_, hres⟩
    rw [List.countP_append]
    exact hreq
  · exact h
  · obtain ⟨rfl, hts, -⟩ := hf.phase.of_pending hi
    refine ⟨?_, hres⟩
    rw [hts] at hreq ⊢
    simp only [List.length_append, List.length_singleton, List.set_cons_zero, List.countP_singleton,
      TaskState.isInFlight, Event.isThrow, if_true, Bool.false_eq_true, if_false] at hreq ⊢
    omega
  · obtain ⟨rfl, hts, -, -, -, hd⟩ := hf.phase.of_inFlight hi
    have he : s.vm.isEndReached = false := hf.isEndReached.trans hd
    rw [hts] at hreq ⊢
    rw [he] at hres
    simp only [List.countP_singleton, TaskState.isInFlight, if_true, Bool.false_eq_true, if_false] at hreq hres
    cases o with
    | threw =>
      cases hv
      refine ⟨?_, ?_⟩
      · simp only [List.eraseIdx_cons_zero, List.countP_nil, logged, Event.isThrow, Outcome.isThrew, if_true]
        omega
      · simp only [he, logged, Bool.false_eq_true, if_false]
        exact hres
    | returned ps =>
      rw [resume_returned hv]
      refine ⟨?_, ?_⟩
      · simp only [List.eraseIdx_cons_zero, List.countP_nil, logged, Event.isThrow, Outcome.isThrew,
          List.length_append, List.length_singleton, Bool.false_eq_true, if_false]
        omega
      · have hpages : (s.responses ++ [ps]).countP (!·.isEmpty) = s.pages + if ps.isEmpty then 0 else 1 := by
          rw [List.countP_append]
          cases ps <;> rfl
        show (s.responses ++ [ps]).length = (s.responses ++ [ps]).countP (!·.isEmpty) + _
        rw [hpages, List.length_append, List.length_singleton, he, Bool.or_false]
        cases ps <;> simp [hres]

theorem accounted_run : ∀ {es : List (Event α)} {s t : MainActor α} {n : Nat}, (loader L).Reachable s →
    Accounted n s → (loader L).run s es = some t → Accounted (n + es.countP Event.isThrow) t
  | [], s, t, n, _, h, ht => by
    cases ht
    exact h
  | e :: es, s, t, n, hs, h, ht => by
    obtain ⟨u, hu, ht⟩ := Option.bind_eq_some_iff.1 ht
    have hrest := accounted_run (hs.step hu) (accounted_step hs h hu) ht
    rw [List.countP_cons, Nat.add_comm (es.countP _), ← Nat.add_assoc]
    exact hrest

/-- **No request too many**: one for each page of the list and one for its end, and one more for each failure. -/
theorem requests_bound {es : List (Event α)} {s : MainActor α} (h : (loader L).run {} es = some s) :
    s.requests.length ≤ (L.length + 29) / 30 + 1 + es.countP Event.isThrow := by
  obtain ⟨p, hf, hg⟩ := follows_reachable ⟨es, h⟩
  have hacc := accounted_run (n := 0) .init ⟨rfl, rfl⟩ h
  have hreq := hacc.requests
  have hres := hacc.responses
  have hpages : s.pages ≤ (L.length + 29) / 30 := by
    have hnonempty := hg.nonempty
    rw [hf.responses]
    omega
  have hflight : s.tasks.countP (·.isInFlight) + (if s.vm.isEndReached then 1 else 0) ≤ 1 := by
    have hend := hf.isEndReached
    have hph := hf.phase
    generalize s.tasks = ts, s.vm.isLoading = b at hph
    cases hph with
    | idle hb => split <;> simp
    | pending hb hd => split <;> simp [TaskState.isInFlight]
    | inFlight hb hd => simp [hend, hd, TaskState.isInFlight]
  omega

/-- Three products, two failures: the bound is met. -/
theorem requests_bound_met :
    ∃ s, (loader [7, 8, 9]).run {} [.loadMore, .start 0, .finish 0 .threw, .loadMore, .start 0,
        .finish 0 (.returned [7, 8, 9]), .loadMore, .start 0, .finish 0 .threw, .loadMore, .start 0,
        .finish 0 (.returned [])] = some s ∧ s.requests.length = 4 ∧ s.requests.length ≤ (3 + 29) / 30 + 1 + 2 := by
  have hrun : ∃ s, (loader [7, 8, 9]).run {} [.loadMore, .start 0, .finish 0 .threw, .loadMore, .start 0,
      .finish 0 (.returned [7, 8, 9]), .loadMore, .start 0, .finish 0 .threw, .loadMore, .start 0,
      .finish 0 (.returned [])] = some s ∧ s.requests.length = 4 := ⟨_, rfl, rfl⟩
  obtain ⟨s, hs, hlength⟩ := hrun
  exact ⟨s, hs, hlength, requests_bound hs⟩

end CrossplatformBenchmark.SwiftUI
