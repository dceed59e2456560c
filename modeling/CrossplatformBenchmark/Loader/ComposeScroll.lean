import CrossplatformBenchmark.Loader.Compose

/-!
# The Compose grid never stalls (RemoteImage.kt:79-131)

`onScrollToEnd` drops the event while a load runs. It is made up for: a page that arrives changes
`products`, the restarted effect emits the visible items once more, and that emission is compared
with the new list. Here tasks leave the queue in any order and pages are arbitrary; requests do
not fail.

`Live` is the invariant. Its clause `atEnd` is the claim for one state of the effect: with nothing
owed by the effect and the last item visible, a load is under way or the end is reached.
-/

namespace CrossplatformBenchmark.Compose

open Transition Paging

variable {α : Type*} {s : Ui α}

/-- A load on its way that the initial effect cannot call off. -/
def Ui.Pending (s : Ui α) : Prop :=
  s.inFlight ≠ [] ∨ ∃ task ∈ s.queue, task = .loadBody ∨ ∃ ps, task = .resumption (.returned ps)

structure Live (s : Ui α) : Prop where
  captured : s.captured.length ≤ s.paginationState.products.length
  loading : s.paginationState.isLoading = true → s.Pending
  started : s.paginationState.products = [] → s.paginationState.isEndReached = false →
    s.Pending ∨ .initialLoad ∈ s.queue
  emission : ∀ ps, .emission ps ∈ s.queue → s.changed = false → ps = s.captured
  atEnd : s.captured = s.paginationState.products → s.changed = false → (∀ task ∈ s.queue, task.isEmission = false) →
    s.paginationState.isEndReached = false → atEnd s.paginationState.products s.lastVisible = true → s.Pending
  returned : .resumption .threw ∉ s.queue

/-! ## Tasks leaving the queue -/

/-- A load stays pending when a task that is not its own leaves the queue. -/
theorem Ui.Pending.eraseIdx {i : Nat} {task : Task α} (h : s.Pending) (hi : s.queue[i]? = some task)
    (ht : task = .initialLoad ∨ task.isEmission = true) : Ui.Pending { s with queue := s.queue.eraseIdx i } := by
  rcases h with h | ⟨task', hm, ht'⟩
  · exact .inl h
  · refine .inr ⟨task', mem_eraseIdx_of_ne hi hm ?_, ht'⟩
    rintro rfl
    rcases ht' with rfl | ⟨ps, rfl⟩ <;> rcases ht with ht | ht <;> cases ht

theorem Ui.Pending.mono {t : Ui α} (h : s.Pending) (hin : s.inFlight = t.inFlight) (hq : ∀ task ∈ s.queue,
    task.isEmission = false → task ∈ t.queue) : t.Pending := by
  rcases h with h | ⟨task, hm, ht⟩
  · exact .inl (hin ▸ h)
  · refine .inr ⟨task, hq task hm ?_, ht⟩
    rcases ht with rfl | ⟨ps, rfl⟩ <;> rfl

theorem pending_beginLoad (s : Ui α) : s.beginLoad.Pending := .inl (by simp [Ui.beginLoad])

theorem pending_launch (s : Ui α) : Ui.Pending { s with queue := s.queue ++ [.loadBody] } :=
  .inr ⟨.loadBody, List.mem_append_right _ (.head _), .inl rfl⟩

/-! ## The invariant of a step -/

section steps

variable {i : Nat} {task : Task α}

theorem Live.begin (h : Live s) : Live (Ui.beginLoad { s with queue := s.queue.eraseIdx i }) where
  captured := h.captured
  loading _ := pending_beginLoad _
  started _ _ := .inl (pending_beginLoad _)
  emission ps hm := h.emission ps (List.mem_of_mem_eraseIdx hm)
  atEnd _ _ _ _ _ := pending_beginLoad _
  returned hm := h.returned (List.mem_of_mem_eraseIdx hm)

theorem Live.launch (h : Live s) : Live { s with queue := s.queue.eraseIdx i ++ [.loadBody] } where
  captured := h.captured
  loading _ := pending_launch { s with queue := s.queue.eraseIdx i }
  started _ _ := .inl (pending_launch { s with queue := s.queue.eraseIdx i })
  emission ps hm := h.emission ps (List.mem_of_mem_eraseIdx (mem_of_mem_concat hm (by simp)))
  atEnd _ _ _ _ _ := pending_launch { s with queue := s.queue.eraseIdx i }
  returned hm := h.returned (List.mem_of_mem_eraseIdx (mem_of_mem_concat hm (by simp)))

/-- A page arrives: either it changes `products`, and the effect owes an emission, or it is the end. -/
theorem Live.finish {ps : List α} (h : Live s) : Live { s with
    queue := s.queue.eraseIdx i
    paginationState := finishLoad s.paginationState (.returned ps) } where
  captured := by
    have := h.captured
    simp only [finishLoad, List.length_append]
    omega
  loading hl := by cases hl
  started hp he := by
    obtain ⟨-, rfl⟩ := List.append_eq_nil_iff.1 hp
    cases he
  emission ps hm := h.emission ps (List.mem_of_mem_eraseIdx hm)
  atEnd hc _ _ he _ := by
    have hle := h.captured
    have hlen : s.captured.length = s.paginationState.products.length + ps.length := by
      rw [hc]
      simp only [finishLoad, List.length_append]
    have hnil : ps = [] := List.eq_nil_of_length_eq_zero (by omega)
    rw [hnil] at he
    cases he
  returned hm := h.returned (List.mem_of_mem_eraseIdx hm)

/-- The initial effect finds products, or an emission has nothing to do. -/
theorem Live.skip (h : Live s) (hi : s.queue[i]? = some task)
    (ht : task = .initialLoad ∧ s.paginationState.products ≠ [] ∨ ∃ ps, task = .emission ps ∧
      (Compose.atEnd ps s.lastVisible = true → s.paginationState.isLoading = true ∨ s.paginationState.isEndReached = true)) :
    Live { s with queue := s.queue.eraseIdx i } := by
  have hkind : task = .initialLoad ∨ task.isEmission = true := by
    rcases ht with ⟨ht, -⟩ | ⟨ps, rfl, -⟩
    · exact .inl ht
    · exact .inr rfl
  refine ⟨h.captured, fun hl => (h.loading hl).eraseIdx hi hkind, fun hp he => ?_,
    fun ps hm => h.emission ps (List.mem_of_mem_eraseIdx hm), fun hc hch hno he ha => ?_,
    fun hm => h.returned (List.mem_of_mem_eraseIdx hm)⟩
  · rcases h.started hp he with hpend | hm
    · exact .inl (hpend.eraseIdx hi hkind)
    · refine .inr (mem_eraseIdx_of_ne hi hm ?_)
      rcases ht with ⟨-, hne⟩ | ⟨ps, rfl, -⟩
      · exact absurd hp hne
      · nofun
  · rcases ht with ⟨rfl, -⟩ | ⟨ps, rfl, himp⟩
    · -- the initial load leaves: no emission was queued before either
      refine (h.atEnd hc hch (fun task hm => ?_) he ha).eraseIdx hi hkind
      by_cases htask : task = .initialLoad
      · rw [htask]; rfl
      · exact hno task (mem_eraseIdx_of_ne hi hm htask)
    · -- the emission held the current products: it was dropped for a running load
      have hps : ps = s.paginationState.products := (h.emission ps (List.mem_of_getElem? hi) hch).trans hc
      rw [← hps] at ha
      rcases himp ha with hl | hend
      · exact (h.loading hl).eraseIdx hi hkind
      · exact absurd (hend.symm.trans he) nofun

theorem Live.emit (h : Live s) (hq : ∀ task ∈ s.queue, task.isEmission = false) :
    Live { s with queue := s.queue ++ [.emission s.captured], changed := false } where
  captured := h.captured
  loading hl := (h.loading hl).mono rfl fun _ hm _ => List.mem_append_left _ hm
  started hp he := (h.started hp he).imp (·.mono rfl fun _ hm _ => List.mem_append_left _ hm) (List.mem_append_left _)
  emission ps hm _ := by
    rcases List.mem_append.1 hm with hm | hm
    · exact absurd (hq _ hm) nofun
    · cases List.mem_singleton.1 hm
      rfl
  atEnd _ _ hno _ _ := by
    have := hno (.emission s.captured) (List.mem_append_right _ (.head _))
    cases this
  returned hm := h.returned (mem_of_mem_concat hm (by simp))

theorem Live.restart {q : List (Task α)} (h : Live s) (hsub : q.Sublist s.queue)
    (hq : ∀ task ∈ s.queue, task.isEmission = false → task ∈ q) :
    Live { s with captured := s.paginationState.products, changed := true, queue := q } where
  captured := le_rfl
  loading hl := (h.loading hl).mono rfl hq
  started hp he := (h.started hp he).imp (·.mono rfl hq) (hq _ · rfl)
  emission _ _ hch := by cases hch
  atEnd _ hch _ _ _ := by cases hch
  returned hm := h.returned (hsub.subset hm)

theorem Live.respond {ps : List α} (h : Live s) : Live { s with
    inFlight := s.inFlight.eraseIdx i
    queue := s.queue ++ [.resumption (.returned ps)] } := by
  have hpend : Ui.Pending { s with
      inFlight := s.inFlight.eraseIdx i
      queue := s.queue ++ [.resumption (.returned ps)] } :=
    .inr ⟨_, List.mem_append_right _ (.head _), .inr ⟨ps, rfl⟩⟩
  refine ⟨h.captured, fun _ => hpend, fun _ _ => .inl hpend, fun ps' hm => ?_, fun _ _ _ _ _ => hpend, fun hm => ?_⟩
  · exact h.emission ps' (mem_of_mem_concat hm (by simp))
  · exact h.returned (mem_of_mem_concat hm (by simp))

end steps

/-! ## Never stalled -/

variable [DecidableEq α]

/-- Every request is answered, with any list. -/
def answers (_ : Ui α) : Event α → Bool
  | .respond _ .threw => false
  | _ => true

variable (α) in
def answered : Lts (Ui α) (Event α) := (ui α).restrict answers

theorem live_inductive : (answered α).Inductive Live where
  init := by
    refine ⟨le_rfl, nofun, fun _ _ => .inr (.head _), nofun, nofun, fun hm => ?_⟩
    cases List.mem_singleton.1 hm
  step s e t h hs := by
    obtain ⟨hok, hs⟩ := Lts.restrict_step.1 hs
    obtain ⟨i, task, rfl, hi, rfl⟩ | ⟨v, rfl, rfl⟩ | ⟨rfl, -, hq, rfl⟩ | ⟨dropped, rfl, -, rfl⟩ |
      ⟨i, r, o, rfl, -, rfl⟩ := step_cases hs
    · obtain ⟨-, hx⟩ | ⟨ps, rfl, -, -, -, hx⟩ | ⟨o, rfl, hx⟩ | ⟨ht, hx⟩ :=
        exec_cases task { s with queue := s.queue.eraseIdx i }
      all_goals rw [hx]
      · exact h.begin
      · exact h.launch
      · cases o with
        | returned ps => exact h.finish
        | threw => exact absurd (List.mem_of_getElem? hi) h.returned
      · exact h.skip hi ht
    · exact ⟨h.captured, h.loading, h.started, nofun, nofun, h.returned⟩
    · exact h.emit hq
    · cases dropped with
      | false => exact h.restart (.refl _) fun _ hm _ => hm
      | true => exact h.restart List.filter_sublist fun task hm ht => List.mem_filter.2 ⟨hm, by rw [ht]; rfl⟩
    · cases o with
      | returned ps => exact h.respond
      | threw => cases hok

/-- **The scroll never stalls.** With nothing queued, no emission owed and the effect holding the current
products, a list that has not ended and whose last item is visible, or that is empty, has a fetch in flight. -/
theorem compose_scroll (h : (answered α).Reachable s) (hqueue : s.queue = []) (hemitted : s.changed = false)
    (hrestarted : s.captured = s.paginationState.products) (hend : s.paginationState.isEndReached = false)
    (hlast : s.paginationState.products = [] ∨
      ∃ last, s.lastVisible = some last ∧ (s.paginationState.products.length : Int) - 1 ≤ last) :
    s.inFlight ≠ [] := by
  have hlive : Live s := live_inductive.reachable h
  have hpend : s.Pending := by
    by_cases hp : s.paginationState.products = []
    · rcases hlive.started hp hend with hpend | hm
      · exact hpend
      · rw [hqueue] at hm
        cases hm
    · obtain hnil | ⟨last, hv, hle⟩ := hlast
      · exact absurd hnil hp
      · refine hlive.atEnd hrestarted hemitted (fun task hm => ?_) hend ?_
        · rw [hqueue] at hm
          cases hm
        · simpa [atEnd, hp, hv] using hle
  rcases hpend with hpend | ⟨task, hm, -⟩
  · exact hpend
  · rw [hqueue] at hm
    cases hm

/-- A scroll to the end while the second page is on its way is dropped; the page makes up for it. -/
def droppedScroll : List (Event Nat) :=
  [.run 0, .respond 0 (.returned [7, 8]), .run 0, .restart false, .layout (some 1), .emit, .run 0, .run 0,
    .layout (some 0), .layout (some 1), .emit, .run 0, .respond 0 (.returned [9]), .run 0, .restart false,
    .layout (some 2), .emit, .run 0, .run 0]

theorem compose_scroll_dropped : ∃ s, (answered Nat).run {} droppedScroll = some s ∧
    s.paginationState.products = [7, 8, 9] ∧ s.inFlight ≠ [] := by
  have hrun : (answered Nat).run {} droppedScroll = some
      ⟨⟨[7, 8, 9], 2, true, false⟩, [], [⟨30, 60⟩], [7, 8, 9], false, some 2, [⟨30, 0⟩, ⟨30, 30⟩, ⟨30, 60⟩]⟩ := rfl
  exact ⟨_, hrun, rfl, compose_scroll ⟨droppedScroll, hrun⟩ rfl rfl rfl rfl (.inr ⟨2, rfl, by decide⟩)⟩

end CrossplatformBenchmark.Compose
