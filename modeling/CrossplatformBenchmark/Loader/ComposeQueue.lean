import CrossplatformBenchmark.Loader.Compose

/-!
# One load at a time on a FIFO UI thread (RemoteImage.kt:79-131)

`onScrollToEnd` tests `isLoading`, but only the coroutine it launches sets it. Between the two stands the queue: an
emission is collected only while no other one is outstanding, so whatever emission follows the launching one stands
behind the coroutine, and sees `isLoading` set (`OneLoad.order`). Whatever the network answers, `isLoading` is then
set exactly while a request is in flight or its answer waits (`Load`), until an exception leaves it set for good.
-/

namespace CrossplatformBenchmark.Compose

open Transition Paging

variable {α : Type*}

/-! ## The queue -/

/-- Loads queued or in flight. -/
def Ui.loads (s : Ui α) : Nat := s.queue.countP (·.isLoad) + s.inFlight.length

/-- Behind an emission there is no other one and no coroutine that has yet to set `isLoading`. -/
def Ordered (q : List (Task α)) : Prop :=
  q.Pairwise fun a b => a.isEmission = true → b.isEmission = false ∧ b ≠ .loadBody

theorem not_mem_of_filter {q : List (Task α)} (h : q.filter (·.isLoad) = []) {task : Task α}
    (ht : task.isLoad = true) : task ∉ q := by
  intro hm
  have := List.mem_filter.2 ⟨hm, ht⟩
  rw [h] at this
  cases this

theorem head_of_getElem? {q : List (Task α)} {task : Task α} (h : q[0]? = some task) : ∃ rest, q = task :: rest := by
  rw [← List.head?_eq_getElem?] at h
  exact ⟨_, (List.cons_head?_tail h).symm⟩

theorem restart_filter (q : List (Task α)) (dropped : Bool) :
    (if dropped then q.filter (!·.isEmission) else q).filter (·.isLoad) = q.filter (·.isLoad) := by
  cases dropped with
  | false => rfl
  | true =>
    rw [if_pos rfl, List.filter_filter]
    refine List.filter_congr fun task _ => ?_
    cases task <;> rfl

theorem restart_sublist (q : List (Task α)) (dropped : Bool) :
    (if dropped then q.filter (!·.isEmission) else q).Sublist q := by
  split
  · exact List.filter_sublist
  · exact .refl q

/-- A task joins the queue: an emission only behind none, a coroutine that sets `isLoading` only behind none. -/
theorem Ordered.concat {q : List (Task α)} (h : Ordered q) {task : Task α}
    (ht : ∀ a ∈ q, a.isEmission = true → task.isEmission = false ∧ task ≠ .loadBody) : Ordered (q ++ [task]) := by
  refine List.pairwise_append.2 ⟨h, List.pairwise_singleton _ _, ?_⟩
  intro a ha b hb
  rw [List.mem_singleton.1 hb]
  exact ht a ha

/-! ## The load -/

/-- Where the one load is: the load tasks of the queue, the requests in flight, `isLoading`. -/
inductive Load : List (Task α) → List Request → Bool → Prop
  | idle : Load [] [] false
  | queued (task : Task α) : task = .loadBody ∨ task = .initialLoad → Load [task] [] false
  | inFlight (r : Request) : Load [] [r] true
  | arrived (o : Outcome α) : Load [.resumption o] [] true

structure OneLoad (s : Ui α) : Prop where
  load : Load (s.queue.filter (·.isLoad)) s.inFlight s.paginationState.isLoading
  order : Ordered s.queue
  /-- Until the initial load has run no effect holds a product. -/
  initial : .initialLoad ∈ s.queue → s.paginationState.products = [] ∧ s.captured = [] ∧
    ∀ ps, .emission ps ∈ s.queue → ps = []

theorem OneLoad.init : OneLoad ({} : Ui α) := by
  refine ⟨.queued .initialLoad (.inr rfl), List.pairwise_singleton _ _, ?_⟩
  intro _
  refine ⟨rfl, rfl, ?_⟩
  intro ps hps
  cases List.mem_singleton.1 hps

theorem Load.isLoading_eq_false {q : List (Task α)} {rs : List Request} {b : Bool} (h : Load q rs b)
    (hq : q = []) (hrs : rs = []) : b = false := by
  cases h with
  | idle => rfl
  | queued _ _ => rfl
  | inFlight _ => cases hrs
  | arrived _ => cases hq

theorem OneLoad.loads_le {s : Ui α} (h : OneLoad s) : s.loads ≤ 1 := by
  have hload := h.load
  rw [Ui.loads, List.countP_eq_length_filter]
  generalize s.queue.filter (·.isLoad) = loads, s.inFlight = rs, s.paginationState.isLoading = b at hload
  cases hload <;> simp

section steps

variable {s : Ui α} {task : Task α} {rest : List (Task α)}

/-- A task that is not a load leaves the queue. -/
theorem OneLoad.drop (h : OneLoad s) (hq : s.queue = task :: rest) (ht : task.isLoad = false) :
    OneLoad { s with queue := rest } where
  load := by
    have := h.load
    rwa [hq, List.filter_cons_of_neg (by simp [ht])] at this
  order := by
    have := h.order
    rw [hq] at this
    exact this.tail
  initial hm := by
    obtain ⟨h1, h2, h3⟩ := h.initial (by rw [hq]; exact .tail _ hm)
    exact ⟨h1, h2, fun ps hps => h3 ps (by rw [hq]; exact .tail _ hps)⟩

/-- A load at the head of the queue is the only one. -/
theorem OneLoad.head (h : OneLoad s) (hq : s.queue = task :: rest) (ht : task.isLoad = true) :
    rest.filter (·.isLoad) = [] ∧ s.inFlight = [] ∧ Ordered rest ∧
      (s.paginationState.isLoading = true ↔ ∃ o, task = .resumption o) := by
  have hload := h.load
  have hord := h.order
  rw [hq] at hload hord
  rw [List.filter_cons_of_pos ht] at hload
  generalize hf : rest.filter (·.isLoad) = loads, s.inFlight = rs, s.paginationState.isLoading = b at hload
  cases hload with
  | queued _ ht' =>
    refine ⟨rfl, rfl, hord.tail, iff_of_false nofun ?_⟩
    rintro ⟨o, rfl⟩
    rcases ht' with ht' | ht' <;> cases ht'
  | arrived o => exact ⟨rfl, rfl, hord.tail, iff_of_true rfl ⟨o, rfl⟩⟩

theorem OneLoad.begin (h : OneLoad s) (hq : s.queue = task :: rest) (ht : task.isLoad = true) :
    OneLoad (Ui.beginLoad { s with queue := rest }) := by
  obtain ⟨hrest, hin, hord, -⟩ := h.head hq ht
  refine ⟨?_, hord, fun hm => absurd hm (not_mem_of_filter hrest rfl)⟩
  simp only [Ui.beginLoad, hin, hrest, List.nil_append]
  exact .inFlight _

/-- An emission at the head of the queue finds no load on its way. -/
theorem OneLoad.no_load {ps : List α} (h : OneLoad s) (hq : s.queue = .emission ps :: rest)
    (ha : atEnd ps s.lastVisible = true) (hl : s.paginationState.isLoading = false) :
    rest.filter (·.isLoad) = [] ∧ s.inFlight = [] := by
  have hord := h.order
  have hload := h.load
  rw [hq, List.filter_cons_of_neg (by simp [Task.isLoad]), hl] at hload
  rw [hq] at hord
  generalize hf : rest.filter (·.isLoad) = loads, s.inFlight = rs at hload
  cases hload with
  | idle => exact ⟨rfl, rfl⟩
  | queued task ht =>
    have hm : task ∈ rest := (List.mem_filter.1 (hf ▸ List.mem_singleton.2 rfl)).1
    rcases ht with rfl | rfl
    · exact absurd rfl ((List.pairwise_cons.1 hord).1 _ hm rfl).2
    · have hnil := (h.initial (by rw [hq]; exact .tail _ hm)).2.2 ps (by rw [hq]; exact .head _)
      rw [hnil] at ha
      cases ha

/-- It may launch one, behind which no other emission waits yet. -/
theorem OneLoad.launch {ps : List α} (h : OneLoad s) (hq : s.queue = .emission ps :: rest)
    (ha : atEnd ps s.lastVisible = true) (hl : s.paginationState.isLoading = false) :
    OneLoad { s with queue := rest ++ [.loadBody] } := by
  obtain ⟨hrest, hin⟩ := h.no_load hq ha hl
  have hord := h.order
  rw [hq] at hord
  obtain ⟨hhead, htail⟩ := List.pairwise_cons.1 hord
  refine ⟨?_, Ordered.concat htail fun a hm hem => ?_, fun hm => ?_⟩
  · simp only [List.filter_append, hrest, hin, hl]
    exact .queued .loadBody (.inl rfl)
  · rw [(hhead a hm rfl).1] at hem
    cases hem
  · exact absurd (mem_of_mem_concat hm (by simp)) (not_mem_of_filter hrest rfl)

theorem OneLoad.finish {ps : List α} (h : OneLoad s) (hq : s.queue = .resumption (.returned ps) :: rest) :
    OneLoad { s with queue := rest, paginationState := finishLoad s.paginationState (.returned ps) } := by
  obtain ⟨hrest, hin, hord, -⟩ := h.head hq rfl
  refine ⟨?_, hord, fun hm => absurd hm (not_mem_of_filter hrest rfl)⟩
  simp only [finishLoad, hrest, hin]
  exact .idle

theorem OneLoad.emit (h : OneLoad s) (hq : ∀ task ∈ s.queue, task.isEmission = false) :
    OneLoad { s with queue := s.queue ++ [.emission s.captured], changed := false } where
  load := by
    have := h.load
    rwa [List.filter_append, List.filter_cons_of_neg (by simp [Task.isLoad]), List.filter_nil, List.append_nil]
  order := h.order.concat fun a ha hem => by
    rw [hq a ha] at hem
    cases hem
  initial hm := by
    obtain ⟨h1, h2, h3⟩ := h.initial (mem_of_mem_concat hm (by simp))
    refine ⟨h1, h2, fun ps hps => ?_⟩
    rcases List.mem_append.1 hps with hps | hps
    · exact h3 ps hps
    · cases List.mem_singleton.1 hps
      exact h2

/-- The restarted effect holds the current products; the queue loses at most an emission. -/
theorem OneLoad.restart {q : List (Task α)} (h : OneLoad s) (hne : s.captured ≠ s.paginationState.products)
    (hsub : q.Sublist s.queue) (hload : q.filter (·.isLoad) = s.queue.filter (·.isLoad)) :
    OneLoad { s with captured := s.paginationState.products, changed := true, queue := q } where
  load := by
    rw [hload]
    exact h.load
  order := List.Pairwise.sublist hsub h.order
  initial hm := by
    obtain ⟨h1, h2, -⟩ := h.initial (hsub.subset hm)
    rw [h1, h2] at hne
    exact absurd rfl hne

theorem OneLoad.respond {i : Nat} {r : Request} (h : OneLoad s) (hi : s.inFlight[i]? = some r) (o : Outcome α) :
    OneLoad { s with inFlight := s.inFlight.eraseIdx i, queue := s.queue ++ [.resumption o] } := by
  have hload := h.load
  have hnone : s.queue.filter (·.isLoad) = [] ∧ s.inFlight = [r] ∧ s.paginationState.isLoading = true := by
    generalize s.queue.filter (·.isLoad) = loads, s.inFlight = rs, s.paginationState.isLoading = b at hload hi
    cases hload with
    | idle => cases hi
    | queued _ _ => cases hi
    | arrived _ => cases hi
    | inFlight r' =>
      obtain ⟨-, rfl⟩ := of_getElem?_singleton hi
      exact ⟨rfl, rfl, rfl⟩
  obtain ⟨hq, hin, hl⟩ := hnone
  obtain ⟨rfl, -⟩ := of_getElem?_singleton (hin ▸ hi)
  refine ⟨?_, h.order.concat fun a _ _ => ⟨rfl, nofun⟩, fun hm => ?_⟩
  · simp only [List.filter_append, hq, hin, hl]
    exact .arrived o
  · exact absurd (mem_of_mem_concat hm (by simp)) (not_mem_of_filter hq rfl)

end steps

/-- The next task, or any other event, as long as no exception is thrown into a load. -/
theorem OneLoad.step [DecidableEq α] {s t : Ui α} {e : Event α} (h : OneLoad s) (hfifo : ∀ i, e = .run i → i = 0)
    (hthrow : ∀ i, e = .run i → s.queue[i]? ≠ some (.resumption .threw)) (hs : (ui α).step s e = some t) :
    OneLoad t := by
  obtain ⟨i, task, rfl, ht, rfl⟩ | ⟨v, rfl, rfl⟩ | ⟨rfl, -, hq, rfl⟩ | ⟨dropped, rfl, hne, rfl⟩ |
    ⟨i, r, o, rfl, hi, rfl⟩ := step_cases hs
  · obtain rfl : i = 0 := hfifo i rfl
    obtain ⟨rest, hq⟩ : ∃ rest, s.queue = task :: rest := head_of_getElem? ht
    have hrest : s.queue.eraseIdx 0 = rest := by rw [hq]; rfl
    rw [hrest]
    obtain ⟨hstart, hx⟩ | ⟨ps, rfl, ha, hl, -, hx⟩ | ⟨o, rfl, hx⟩ | ⟨⟨rfl, hp⟩ | ⟨ps, rfl, -⟩, hx⟩ :=
      exec_cases task { s with queue := rest }
    all_goals rw [hx]
    · refine h.begin hq ?_
      rcases hstart with rfl | ⟨rfl, -⟩ <;> rfl
    · exact h.launch hq ha hl
    · cases o with
      | returned ps => exact h.finish hq
      | threw => exact absurd ht (hthrow 0 rfl)
    · exact absurd (h.initial (by rw [hq]; exact .head _)).1 hp
    · exact h.drop hq rfl
  · exact ⟨h.load, h.order, h.initial⟩
  · exact h.emit hq
  · exact h.restart hne (restart_sublist _ _) (restart_filter _ _)
  · exact h.respond hi o

end CrossplatformBenchmark.Compose
