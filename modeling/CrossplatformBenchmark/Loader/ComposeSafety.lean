import CrossplatformBenchmark.Loader.ComposeQueue

/-!
# Safety of the Compose loader on a FIFO UI thread (RemoteImage.kt:66-131)

With one load at a time (`OneLoad`) and no failures, the loader is `Paging.reliable` with page size
30, its page counter one ahead after the empty page.
-/

namespace CrossplatformBenchmark.Compose

open Transition Paging

variable {α : Type*}

/-! ## The pager it implements -/

/-- The one load, in step with the pager. -/
structure Follows (L : List α) (s : Ui α) (p : Pager α) : Prop where
  oneLoad : OneLoad s
  good : Good 30 L p
  products : s.paginationState.products = p.items
  /-- Compose counts the empty page too. -/
  currentPage : s.paginationState.currentPage.toInt = (if p.done then p.pages + 1 else p.pages : Nat)
  isEndReached : s.paginationState.isEndReached = p.done
  isLoading : s.paginationState.isLoading = p.busy
  requests : s.requests = p.asked.map fun k => ⟨30, (k : Int)⟩
  /-- A load that is queued was launched before the end. -/
  queued : ∀ task ∈ s.queue, task = .loadBody ∨ task = .initialLoad → p.done = false
  inFlight : ∀ r ∈ s.inFlight, r = ⟨30, 30 * p.pages⟩
  arrived : ∀ o, .resumption o ∈ s.queue → o = .returned (slice L 30 (30 * p.pages))

/-- The pages received so far leave room in an `Int`. -/
theorem Follows.page_bound {L : List α} {s : Ui α} {p : Pager α} (hL : L.length ≤ 2 ^ 31 - 30) (h : Follows L s p) :
    30 * p.pages < 2 ^ 31 := by
  have := h.good.offset_lt (by decide)
  omega

section steps

variable {L : List α} {s t : Ui α} {p : Pager α} {task : Task α} {rest : List (Task α)}

/-- Neither the state nor the loads have changed. -/
theorem Follows.same (h : Follows L s p) (hone : OneLoad t) (hstate : t.paginationState = s.paginationState)
    (hr : t.requests = s.requests) (hin : t.inFlight = s.inFlight)
    (hq : ∀ task ∈ t.queue, task.isLoad = true → task ∈ s.queue) : Follows L t p where
  oneLoad := hone
  good := h.good
  products := hstate ▸ h.products
  currentPage := hstate ▸ h.currentPage
  isEndReached := hstate ▸ h.isEndReached
  isLoading := hstate ▸ h.isLoading
  requests := hr.trans h.requests
  queued task hm ht := h.queued task (hq task hm (by rcases ht with rfl | rfl <;> rfl)) ht
  inFlight := hin ▸ h.inFlight
  arrived o hm := h.arrived o (hq _ hm rfl)

/-- A task that leaves the queue without effect. -/
theorem Follows.drop (h : Follows L s p) (hq : s.queue = task :: rest) (ht : task.isLoad = false) :
    Follows L { s with queue := rest } p :=
  h.same (h.oneLoad.drop hq ht) rfl rfl rfl fun a hm _ => by rw [hq]; exact .tail _ hm

/-- The head of the queue starts its load: the pager asks. -/
theorem Follows.begin (hL : L.length ≤ 2 ^ 31 - 30) (h : Follows L s p) (hq : s.queue = task :: rest)
    (ht : task = .loadBody ∨ task = .initialLoad) :
    p.busy = false ∧ p.done = false ∧ Follows L (Ui.beginLoad { s with queue := rest }) (p.ask 30) := by
  have hload : task.isLoad = true := by rcases ht with rfl | rfl <;> rfl
  obtain ⟨hrest, hin, -, hloading⟩ := h.oneLoad.head hq hload
  have hd : p.done = false := h.queued task (by rw [hq]; exact .head _) ht
  have hb : p.busy = false := by
    rw [← h.isLoading, ← Bool.not_eq_true, hloading]
    rintro ⟨o, rfl⟩
    rcases ht with ht | ht <;> cases ht
  have hc : s.paginationState.currentPage.toInt = p.pages := by rw [h.currentPage, hd]; rfl
  have hr : (beginLoad s.paginationState).2 = ⟨30, 30 * p.pages⟩ := beginLoad_request hc (h.page_bound hL)
  have hnone : ∀ {a : Task α}, a ∈ rest → a.isLoad = true → False := fun hm ha => not_mem_of_filter hrest ha hm
  refine ⟨hb, hd, h.oneLoad.begin hq hload, h.good.ask hd, h.products, h.currentPage, h.isEndReached, rfl, ?_,
    fun _ _ _ => hd, fun r hm => ?_, fun o hm => (hnone hm rfl).elim⟩
  · simp only [Ui.beginLoad, hr, h.requests, Pager.ask, List.map_append, List.map_cons, List.map_nil]
    push_cast
    rfl
  · simp only [Ui.beginLoad, hr, hin, List.nil_append, List.mem_singleton] at hm
    exact hm

/-- An emission at the head of the queue launches a load: no other one is on its way. -/
theorem Follows.launch {ps : List α} (h : Follows L s p) (hq : s.queue = .emission ps :: rest)
    (ha : atEnd ps s.lastVisible = true) (hl : s.paginationState.isLoading = false)
    (he : s.paginationState.isEndReached = false) : Follows L { s with queue := rest ++ [.loadBody] } p where
  oneLoad := h.oneLoad.launch hq ha hl
  good := h.good
  products := h.products
  currentPage := h.currentPage
  isEndReached := h.isEndReached
  isLoading := h.isLoading
  requests := h.requests
  queued _ _ _ := h.isEndReached.symm.trans he
  inFlight := h.inFlight
  arrived o hm := h.arrived o (by rw [hq]; exact .tail _ (mem_of_mem_concat hm (by simp)))

/-- A resumption at the head of the queue hands the pager its page. -/
theorem Follows.finish (hL : L.length ≤ 2 ^ 31 - 30) {o : Outcome α} (h : Follows L s p)
    (hq : s.queue = .resumption o :: rest) :
    p.busy = true ∧ Follows L { s with queue := rest, paginationState := finishLoad s.paginationState o }
      (p.page (slice L 30 (30 * p.pages))) := by
  obtain ⟨hrest, hin, -, hloading⟩ := h.oneLoad.head hq rfl
  have hb : p.busy = true := h.isLoading.symm.trans (hloading.2 ⟨o, rfl⟩)
  obtain rfl := h.arrived o (by rw [hq]; exact .head _)
  have hnone : ∀ {a : Task α}, a ∈ rest → a.isLoad = true → False := fun hm ha => not_mem_of_filter hrest ha hm
  refine ⟨hb, h.oneLoad.finish hq, h.good.page (by decide), ?_, ?_, rfl, rfl, h.requests, fun a hm ht => ?_, ?_,
    fun o hm => (hnone hm rfl).elim⟩
  · simp only [finishLoad, h.products]; rfl
  · have hc : s.paginationState.currentPage.toInt = p.pages := by rw [h.currentPage, h.good.idle hb]; rfl
    have hlt := h.page_bound hL
    have hnext : (s.paginationState.currentPage + 1).toInt = p.pages + 1 := toInt_next hc (by omega)
    simp only [finishLoad, hnext, Pager.page]
    by_cases hps : (slice L 30 (30 * p.pages)).isEmpty = true <;> simp [hps]
  · rcases ht with rfl | rfl <;> exact (hnone hm rfl).elim
  · simp [hin]

theorem Follows.emit (h : Follows L s p) (hq : ∀ task ∈ s.queue, task.isEmission = false) :
    Follows L { s with queue := s.queue ++ [.emission s.captured], changed := false } p := by
  refine h.same (h.oneLoad.emit hq) rfl rfl rfl fun a hm ha => mem_of_mem_concat hm ?_
  rintro rfl
  cases ha

/-- The restarted effect holds the current products; the queue loses at most an emission. -/
theorem Follows.restart {q : List (Task α)} (h : Follows L s p) (hne : s.captured ≠ s.paginationState.products)
    (hsub : q.Sublist s.queue) (hload : q.filter (·.isLoad) = s.queue.filter (·.isLoad)) :
    Follows L { s with captured := s.paginationState.products, changed := true, queue := q } p :=
  h.same (h.oneLoad.restart hne hsub hload) rfl rfl rfl fun _ hm _ => hsub.subset hm

/-- The server's answer joins the queue. -/
theorem Follows.respond {i : Nat} {r : Request} (h : Follows L s p) (hi : s.inFlight[i]? = some r) :
    r = ⟨30, 30 * p.pages⟩ ∧ Follows L { s with
      inFlight := s.inFlight.eraseIdx i
      queue := s.queue ++ [.resumption (.returned (slice L 30 (30 * p.pages)))] } p := by
  refine ⟨h.inFlight r (List.mem_of_getElem? hi), h.oneLoad.respond hi _, h.good, h.products, h.currentPage,
    h.isEndReached, h.isLoading, h.requests, fun a hm ht => ?_, fun x hm => ?_, fun o hm => ?_⟩
  · refine h.queued a (mem_of_mem_concat hm ?_) ht
    rcases ht with rfl | rfl <;> simp
  · exact h.inFlight x (List.mem_of_mem_eraseIdx hm)
  · rcases List.mem_append.1 hm with hm | hm
    · exact h.arrived o hm
    · exact Task.resumption.inj (List.mem_singleton.1 hm)

end steps

/-! ## First in, first out -/

variable [DecidableEq α]

/-- The thread takes the oldest task; the server holds `L` and every request is answered. -/
def fifoServer (L : List α) (s : Ui α) : Event α → Bool
  | .run i => i == 0
  | .respond i (.returned ps) => s.inFlight[i]?.any fun r => decide (ps = r.serve L)
  | .respond _ .threw => false
  | _ => true

def fifo (L : List α) : Lts (Ui α) (Event α) := (ui α).restrict (fifoServer L)

theorem fifo_follows {L : List α} (hL : L.length ≤ 2 ^ 31 - 30) :
    Lts.Simulation (fifo L) (reliable 30 L) (Follows L) where
  init := by
    refine ⟨.init, (good_inductive (by decide)).init, rfl, rfl, rfl, rfl, rfl, fun _ _ _ => rfl, nofun, fun o ho => ?_⟩
    cases List.mem_singleton.1 ho
  step := by
    intro s e t p hf hs
    obtain ⟨hok, hs⟩ := Lts.restrict_step.1 hs
    obtain ⟨i, task, rfl, ht, rfl⟩ | ⟨v, rfl, rfl⟩ | ⟨rfl, -, hq, rfl⟩ | ⟨dropped, rfl, hne, rfl⟩ |
      ⟨i, r, o, rfl, hi, rfl⟩ := step_cases hs
    · obtain rfl : i = 0 := by simpa [fifoServer] using hok
      obtain ⟨rest, hq⟩ : ∃ rest, s.queue = task :: rest := head_of_getElem? ht
      have hrest : s.queue.eraseIdx 0 = rest := by rw [hq]; rfl
      rw [hrest]
      obtain ⟨hstart, hx⟩ | ⟨ps, rfl, ha, hl, he, hx⟩ | ⟨o, rfl, hx⟩ | ⟨⟨rfl, hp⟩ | ⟨ps, rfl, -⟩, hx⟩ :=
        exec_cases task { s with queue := rest }
      all_goals rw [hx]
      · have hstart' : task = .loadBody ∨ task = .initialLoad := hstart.imp id And.left
        obtain ⟨hb, hd, hf'⟩ := hf.begin hL hq hstart'
        exact ⟨_, .single (reliable_ask hb hd), hf'⟩
      · exact ⟨p, .refl _ p, hf.launch hq ha hl he⟩
      · obtain ⟨hb, hf'⟩ := hf.finish hL hq
        exact ⟨_, .single (reliable_page hb), hf'⟩
      · have hnil := (hf.oneLoad.initial (by rw [hq]; exact .head _)).1
        exact absurd hnil hp
      · exact ⟨p, .refl _ p, hf.drop hq rfl⟩
    · exact ⟨p, .refl _ p, hf.same ⟨hf.oneLoad.load, hf.oneLoad.order, hf.oneLoad.initial⟩ rfl rfl rfl fun _ hm _ => hm⟩
    · exact ⟨p, .refl _ p, hf.emit hq⟩
    · exact ⟨p, .refl _ p, hf.restart hne (restart_sublist _ _) (restart_filter _ _)⟩
    · obtain ⟨hr, hf'⟩ := hf.respond hi
      cases o with
      | returned ps =>
        have hps : ps = slice L 30 (30 * p.pages) := by
          have hps : ps = r.serve L := by simpa [fifoServer, hi] using hok
          rw [hps, serve_page L hr]
        rw [hps]
        exact ⟨p, .refl _ p, hf'⟩
      | threw => cases hok

/-! ## Safety of the loader -/

section safety

variable {L : List α} {s t : Ui α} {p : Pager α}

theorem follows_reachable (hL : L.length ≤ 2 ^ 31 - 30) (h : (fifo L).Reachable s) :
    ∃ p, Follows L s p ∧ p.asked = (List.range p.asks).map (30 * ·) := by
  obtain ⟨p, hp, hf⟩ := (fifo_follows hL).reachable h
  exact ⟨p, hf, ((reliable_asked (by decide)).reachable hp).2⟩

omit [DecidableEq α] in
/-- `currentPage` cuts `L` where the pager does: past the empty page both cut nothing off. -/
theorem Follows.products_take (h : Follows L s p) :
    s.paginationState.products = L.take (30 * s.paginationState.currentPage.toInt.toNat) := by
  rw [h.products, h.currentPage, Int.toNat_natCast]
  split
  · rename_i hd
    have := h.good.done hd
    rw [h.good.all hd, List.take_of_length_le (by omega)]
  · exact h.good.items

omit [DecidableEq α] in
theorem Follows.no_loads (h : Follows L s p) (he : s.paginationState.isEndReached = true) : s.loads = 0 := by
  have hd : p.done = true := h.isEndReached.symm.trans he
  have hundone : ¬ p.done = false := by simp [hd]
  have hloading : s.paginationState.isLoading = false := by
    rw [h.isLoading, ← Bool.not_eq_true]
    exact fun hb => hundone (h.good.idle hb)
  have hload := h.oneLoad.load
  rw [Ui.loads, List.countP_eq_length_filter]
  generalize hf : s.queue.filter (·.isLoad) = loads, s.inFlight = rs at hload
  rw [hloading] at hload
  cases hload with
  | idle => rfl
  | queued task ht =>
    have hm : task ∈ s.queue := (List.mem_filter.1 (hf ▸ List.mem_singleton.2 rfl)).1
    exact absurd (h.queued task hm ht) hundone

/-- A request carries the current page, with no overflow. -/
theorem requests_step {e : Event α} (hL : L.length ≤ 2 ^ 31 - 30) (hf : Follows L s p)
    (hs : (fifo L).step s e = some t) :
    t.requests = s.requests ∨ t.requests = s.requests ++ [⟨30, 30 * s.paginationState.currentPage.toInt⟩] := by
  obtain ⟨hok, hs⟩ := Lts.restrict_step.1 hs
  obtain ⟨i, task, rfl, ht, rfl⟩ | ⟨v, -, rfl⟩ | ⟨-, -, -, rfl⟩ | ⟨dropped, -, -, rfl⟩ | ⟨i, r, o, -, -, rfl⟩ :=
    step_cases hs
  · obtain ⟨hstart, hx⟩ | ⟨ps, -, -, -, -, hx⟩ | ⟨o, -, hx⟩ | ⟨-, hx⟩ :=
      exec_cases task { s with queue := s.queue.eraseIdx i }
    all_goals rw [hx]
    · obtain rfl : i = 0 := by simpa [fifoServer] using hok
      obtain ⟨rest, hq⟩ : ∃ rest, s.queue = task :: rest := head_of_getElem? ht
      obtain ⟨-, hd, -⟩ := hf.begin hL hq (hstart.imp id And.left)
      have hc : s.paginationState.currentPage.toInt = p.pages := by rw [hf.currentPage, hd]; rfl
      refine .inr ?_
      rw [hc]
      simp only [Ui.beginLoad, beginLoad_request hc (hf.page_bound hL)]
    · exact .inl rfl
    · exact .inl rfl
    · exact .inl rfl
  · exact .inl rfl
  · exact .inl rfl
  · exact .inl rfl
  · exact .inl rfl

/-- Nothing is loaded after the end. -/
theorem Follows.ended (hL : L.length ≤ 2 ^ 31 - 30) (hf : Follows L s p) (he : s.paginationState.isEndReached = true)
    (hst : (fifo L).Steps s t) : t.loads = 0 ∧ t.requests = s.requests := by
  obtain ⟨es, hes⟩ := hst
  obtain ⟨p', hp', hf'⟩ := (fifo_follows hL).run hf hes
  have hd : p.done = true := hf.isEndReached.symm.trans he
  obtain rfl := hf.good.final hd hp'
  exact ⟨hf'.no_loads (hf'.isEndReached.trans hd), hf'.requests.trans hf.requests.symm⟩

/-- **The Compose loader on a FIFO UI thread.** `L` is the server's list and `s` any state reached by scrolls,
emissions, restarts of the effect and answers in any order. -/
theorem compose_loader (hL : L.length ≤ 2 ^ 31 - 30) (h : (fifo L).Reachable s) :
    s.loads ≤ 1 ∧
    (s.requests.map (·.skip)).Nodup ∧
    (∀ e t, (fifo L).step s e = some t → t.requests = s.requests ∨
      t.requests = s.requests ++ [⟨30, 30 * s.paginationState.currentPage.toInt⟩]) ∧
    s.paginationState.products = L.take (30 * s.paginationState.currentPage.toInt.toNat) ∧
    (s.paginationState.isEndReached = true → s.paginationState.products = L ∧
      ∀ t, (fifo L).Steps s t → t.loads = 0 ∧ t.requests = s.requests) := by
  obtain ⟨p, hf, hasked⟩ := follows_reachable hL h
  refine ⟨hf.oneLoad.loads_le, ?_, fun e t hs => requests_step hL hf hs, hf.products_take, fun he => ⟨?_,
    fun t hst => hf.ended hL he hst⟩⟩
  · rw [hf.requests, List.map_map]
    exact (asked_nodup (by decide) hasked).map fun a b hab => Int.ofNat_inj.1 hab
  · rw [hf.products]
    exact hf.good.all (hf.isEndReached.symm.trans he)

/-- One product, shown; its emission launches the second load. -/
def secondLoad : List (Event Nat) :=
  [.run 0, .respond 0 (.returned [7]), .run 0, .restart true, .layout (some 0), .emit, .run 0, .run 0]

theorem compose_loader_second_load : ∃ s, (fifo [7]).run {} secondLoad = some s ∧
    s.requests = [⟨30, 0⟩, ⟨30, 30⟩] ∧ s.loads ≤ 1 ∧ (s.requests.map (·.skip)).Nodup ∧
    s.paginationState.products = [7].take (30 * s.paginationState.currentPage.toInt.toNat) := by
  have hrun : (fifo [7]).run {} secondLoad = some
      ⟨⟨[7], 1, true, false⟩, [], [⟨30, 30⟩], [7], false, some 0, [⟨30, 0⟩, ⟨30, 30⟩]⟩ := rfl
  obtain ⟨hloads, hnodup, -, htake, -⟩ := compose_loader (by decide) ⟨secondLoad, hrun⟩
  exact ⟨_, hrun, rfl, hloads, hnodup, htake⟩

end safety

end CrossplatformBenchmark.Compose
