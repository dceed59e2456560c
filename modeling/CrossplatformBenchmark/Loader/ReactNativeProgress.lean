import CrossplatformBenchmark.Loader.ReactNative

/-!
# Overlapping calls of the React Native loader (RemoteImage.tsx:33-60)

A call made before the commit of the one before passes the guard too. Nothing is assumed here of calls and commits:
what is set is queued as a function of the cells (`prevProducts => …`, `prevPage => …`), so that overlapping loads
lose nothing; what they do wrong is to ask for a page again.

* `answers_kept` — every answer is in the cells once, in the order in which the requests end.
* `repeats_only` — a run that asks for no offset twice is safe, and whole at its end.
* `reactNative_completes` — from every state, after whatever calls, some run gets to the end.
* `end_final` — the end is final, and what is on the screen stays there.
-/

namespace CrossplatformBenchmark.ReactNative

open Transition Paging

variable {α : Type*}

/-! ## Every answer is kept -/

/-- How the requests of a run end, in this order. -/
def responses (es : List (Event α)) : List (Response α) :=
  es.filterMap fun e => match e with
    | .complete _ response => some response
    | _ => none

/-- What the calls of a run are given by `fetchProducts`. -/
def answers (es : List (Event α)) : List (List α) := (responses es).filterMap fetchProducts

theorem responses_cons (e : Event α) (es : List (Event α)) : responses (e :: es) = responses [e] ++ responses es := by
  rw [← List.singleton_append, responses, List.filterMap_append]
  rfl

theorem answers_cons (e : Event α) (es : List (Event α)) : answers (e :: es) = answers [e] ++ answers es := by
  rw [answers, responses_cons, List.filterMap_append]
  rfl

/-- The pages of a run and its end have come to the pending cells. -/
structure Kept (s t : App α) (as : List (List α)) : Prop where
  products : t.pending.products = s.pending.products ++ as.flatten
  currentPage : t.pending.currentPage = s.pending.currentPage + as.countP (!·.isEmpty)
  isEndReached : t.pending.isEndReached = (s.pending.isEndReached || as.any (·.isEmpty))

theorem Kept.of_pending {s t : App α} (h : t.pending.products = s.pending.products)
    (hp : t.pending.currentPage = s.pending.currentPage) (he : t.pending.isEndReached = s.pending.isEndReached) :
    Kept s t [] := ⟨by simp [h], by simp [hp], by simp [he]⟩

theorem Kept.trans {s t u : App α} {as bs : List (List α)} (h : Kept s t as) (h' : Kept t u bs) : Kept s u (as ++ bs) where
  products := by simp [h'.products, h.products]
  currentPage := by simp [h'.currentPage, h.currentPage, Nat.add_assoc]
  isEndReached := by simp [h'.isEndReached, h.isEndReached, Bool.or_assoc]

theorem pending_call (s : App α) (rs qs : List Request) :
    App.pending { s with updates := s.updates ++ [.setIsLoading true], inFlight := rs, requests := qs } =
      { s.pending with isLoading := true } := by
  simp [App.pending, Update.apply]

theorem pending_complete_some (s : App α) (rs : List Request) (ps : List α) :
    App.pending { s with inFlight := rs, updates := s.updates ++ afterFetch (some ps) } =
      ⟨s.pending.products ++ ps, false, ps.isEmpty || s.pending.isEndReached,
        if ps.isEmpty then s.pending.currentPage else s.pending.currentPage + 1⟩ := by
  simp [App.pending, apply_afterFetch]

theorem kept_step {s t : App α} {e : Event α} (h : (app α).step s e = some t) : Kept s t (answers [e]) := by
  rcases step_cases h with ⟨rfl, -, rfl⟩ | ⟨rfl, -, -, rfl⟩ | ⟨rfl, rfl⟩ | ⟨i, r, response, rfl, -, rfl⟩
  · exact .of_pending rfl rfl rfl
  · refine .of_pending ?_ ?_ ?_ <;> rw [pending_call]
  · exact .of_pending rfl rfl rfl
  · cases hf : fetchProducts response with
    | none =>
      have ha : answers [.complete i response] = [] := by simp [answers, responses, hf]
      rw [ha]
      refine .of_pending ?_ ?_ ?_ <;> simp [App.pending, afterFetch]
    | some ps =>
      have ha : answers [.complete i response] = [ps] := by simp [answers, responses, hf]
      rw [ha]
      refine ⟨?_, ?_, ?_⟩ <;> rw [pending_complete_some]
      · simp
      · cases ps <;> simp
      · simp [Bool.or_comm]

theorem kept_run : ∀ {es : List (Event α)} {s t : App α}, (app α).run s es = some t → Kept s t (answers es)
  | [], s, t, h => by
    cases h
    exact .of_pending rfl rfl rfl
  | e :: es, s, t, h => by
    obtain ⟨u, hu, ht⟩ := Option.bind_eq_some_iff.1 h
    rw [answers_cons]
    exact (kept_step hu).trans (kept_run ht)

theorem requests_run : ∀ {es : List (Event α)} {s t : App α}, (app α).run s es = some t →
    t.requests.length + s.inFlight.length = s.requests.length + t.inFlight.length + (responses es).length
  | [], s, t, h => by
    cases h
    rfl
  | e :: es, s, t, h => by
    obtain ⟨u, hu, ht⟩ := Option.bind_eq_some_iff.1 h
    have ih := requests_run ht
    rw [responses_cons, List.length_append]
    rcases step_cases hu with ⟨rfl, -, rfl⟩ | ⟨rfl, -, -, rfl⟩ | ⟨rfl, rfl⟩ | ⟨i, r, response, rfl, hi, rfl⟩
    · simpa [responses] using ih
    · simp [responses] at ih ⊢
      omega
    · simpa [responses, App.commit] using ih
    · obtain ⟨hlt, -⟩ := List.getElem?_eq_some_iff.1 hi
      simp [responses, List.length_eraseIdx_of_lt hlt] at ih ⊢
      omega

/-! ## What grows -/

/-- The screen and the log of requests from one state to a later one. -/
structure Grows (s t : App α) : Prop where
  products : s.committed.products <+: t.committed.products
  currentPage : s.committed.currentPage ≤ t.committed.currentPage
  requests : s.requests <+: t.requests

instance : IsPreorder (App α) Grows where
  refl _ := ⟨List.prefix_rfl, le_rfl, List.prefix_rfl⟩
  trans _ _ _ h h' := ⟨h.products.trans h'.products, h.currentPage.trans h'.currentPage, h.requests.trans h'.requests⟩

theorem grows_pending (us : List (Update α)) : ∀ st : Cells α,
    st.products <+: (us.foldl Update.apply st).products ∧ st.currentPage ≤ (us.foldl Update.apply st).currentPage := by
  induction us with
  | nil => exact fun st => ⟨List.prefix_rfl, le_rfl⟩
  | cons u us ih =>
    intro st
    obtain ⟨hp, hc⟩ := ih (u.apply st)
    cases u with
    | appendProducts newProducts => exact ⟨(List.prefix_append _ _).trans hp, hc⟩
    | nextPage => exact ⟨hp, (Nat.le_succ _).trans hc⟩
    | setIsEndReached value => exact ⟨hp, hc⟩
    | setIsLoading value => exact ⟨hp, hc⟩

theorem grows_step {s t : App α} {e : Event α} (h : (app α).step s e = some t) : Grows s t := by
  rcases step_cases h with ⟨-, -, rfl⟩ | ⟨-, -, -, rfl⟩ | ⟨-, rfl⟩ | ⟨i, r, response, -, -, rfl⟩
  · exact ⟨List.prefix_rfl, le_rfl, List.prefix_rfl⟩
  · exact ⟨List.prefix_rfl, le_rfl, List.prefix_append _ _⟩
  · obtain ⟨hp, hc⟩ := grows_pending s.updates s.committed
    exact ⟨hp, hc, List.prefix_rfl⟩
  · exact ⟨List.prefix_rfl, le_rfl, List.prefix_rfl⟩

/-- Every request is for a page that the screen has come to. -/
theorem requests_pages : (app α).Inductive fun s =>
    ∀ r ∈ s.requests, ∃ k ≤ s.committed.currentPage, r = ⟨30, 30 * (k : Int)⟩ where
  init := by simp [app]
  step := by
    intro s e t h ht
    have hg := grows_step ht
    rcases step_cases ht with ⟨-, -, rfl⟩ | ⟨-, -, -, rfl⟩ | ⟨-, rfl⟩ | ⟨i, r, response, -, -, rfl⟩
    · exact h
    · intro r hr
      rcases List.mem_append.1 hr with hr | hr
      · exact h r hr
      · exact ⟨s.committed.currentPage, le_rfl, List.mem_singleton.1 hr⟩
    · intro r hr
      obtain ⟨k, hk, rfl⟩ := h r hr
      exact ⟨k, hk.trans hg.currentPage, rfl⟩
    · exact h

/-- **Nothing is lost**, however calls, answers and commits overlap: the cells, with the queued updates applied, hold
every answer once in the order of completion, and every request is in flight or has ended. -/
theorem answers_kept {es : List (Event α)} {s : App α} (h : (app α).run {} es = some s) :
    s.pending.products = (answers es).flatten ∧ s.pending.currentPage = (answers es).countP (!·.isEmpty) ∧
    s.pending.isEndReached = (answers es).any (·.isEmpty) ∧
    s.requests.length = s.inFlight.length + (responses es).length ∧
    ∀ r ∈ s.requests, ∃ k ≤ (answers es).countP (!·.isEmpty), r = ⟨30, 30 * (k : Int)⟩ := by
  have hk := kept_run h
  have hpage : s.pending.currentPage = (answers es).countP (!·.isEmpty) := by
    rw [hk.currentPage]
    exact Nat.zero_add _
  refine ⟨hk.products, hpage, hk.isEndReached, ?_, ?_⟩
  · simpa using requests_run h
  · intro r hr
    obtain ⟨k, hle, rfl⟩ := requests_pages.reachable ⟨es, h⟩ r hr
    exact ⟨k, hpage ▸ hle.trans (grows_pending s.updates s.committed).2, rfl⟩

/-- Two loads of the first page and an error. -/
theorem answers_kept_overlapping :
    ∃ s : App Nat, (app Nat).run {} [.call, .call, .commit, .complete 1 (.body (some [7])),
        .complete 0 (.body (some [7, 8])), .commit, .call, .complete 0 .error] = some s ∧
      s.pending.products = [7, 7, 8] ∧ s.pending.currentPage = 2 ∧ s.pending.isEndReached = true := by
  have hrun : ∃ s, (app Nat).run {} [.call, .call, .commit, .complete 1 (.body (some [7])),
      .complete 0 (.body (some [7, 8])), .commit, .call, .complete 0 .error] = some s := ⟨_, rfl⟩
  obtain ⟨s, hs⟩ := hrun
  obtain ⟨hp, hc, he, -⟩ := answers_kept hs
  exact ⟨s, hs, hp, hc, he⟩

/-! ## The end is final -/

/-- No queued update takes the end back. -/
def Ends (s : App α) : Prop := Update.setIsEndReached false ∉ s.updates

theorem mem_afterFetch_ne {ps : Option (List α)} : Update.setIsEndReached false ∉ afterFetch ps := by
  cases ps with
  | none => simp [afterFetch]
  | some ps => cases ps <;> simp [afterFetch]

theorem ends_inductive : (app α).Inductive Ends where
  init := by simp [Ends, app]
  step := by
    intro s e t h ht
    unfold Ends at h ⊢
    rcases step_cases ht with ⟨-, -, rfl⟩ | ⟨-, -, -, rfl⟩ | ⟨-, rfl⟩ | ⟨i, r, response, -, -, rfl⟩
    · exact h
    · simp [h]
    · simp [App.commit]
    · simp [h, mem_afterFetch_ne]

theorem isEndReached_foldl : ∀ (us : List (Update α)) (st : Cells α), Update.setIsEndReached false ∉ us →
    st.isEndReached = true → (us.foldl Update.apply st).isEndReached = true
  | [], _, _, he => he
  | u :: us, st, hu, he => by
    obtain ⟨hne, hus⟩ := not_or.1 (mt List.mem_cons.2 hu)
    refine isEndReached_foldl us (u.apply st) hus ?_
    cases u with
    | appendProducts newProducts => exact he
    | nextPage => exact he
    | setIsEndReached value => simpa [Update.apply] using hne
    | setIsLoading value => exact he

/-- **The end is final**: once it is committed no request is ever made again, and the screen keeps what it shows; only
loads under way may still add to it. -/
theorem end_final {s t : App α} (h : (app α).Reachable s) (he : s.committed.isEndReached = true)
    (hst : (app α).Steps s t) :
    t.committed.isEndReached = true ∧ t.requests = s.requests ∧ s.committed.products <+: t.committed.products := by
  have hkeep : (app α).Preserved fun u => Ends u ∧ u.committed.isEndReached = true ∧ u.requests = s.requests := by
    rintro u e v ⟨hends, hend, hreq⟩ hv
    have hends' := ends_inductive.step u e v hends hv
    rcases step_cases hv with ⟨-, -, rfl⟩ | ⟨-, -, hopen, -⟩ | ⟨-, rfl⟩ | ⟨i, r, response, -, -, rfl⟩
    · exact ⟨hends', hend, hreq⟩
    · rw [hend] at hopen
      cases hopen
    · exact ⟨hends', isEndReached_foldl u.updates u.committed hends hend, hreq⟩
    · exact ⟨hends', hend, hreq⟩
  obtain ⟨-, hend, hreq⟩ := hkeep.steps ⟨ends_inductive.reachable h, he, rfl⟩ hst
  have hgrows : Grows s t := Lts.steps_mono (fun _ _ _ => grows_step) hst
  exact ⟨hend, hreq, hgrows.products⟩

/-- The end comes before the page of the second load. -/
theorem end_final_late :
    ∃ s t : App Nat, (app Nat).run {} [.call, .call, .complete 0 (.body (some [])), .commit] = some s ∧
      (app Nat).run s [.call, .complete 0 (.body (some [7])), .commit, .call] = some t ∧
      t.committed.products = [7] ∧ t.requests = s.requests ∧ t.committed.isEndReached = true := by
  have hrun : ∃ s t, (app Nat).run {} [.call, .call, .complete 0 (.body (some [])), .commit] = some s ∧
      (app Nat).run s [.call, .complete 0 (.body (some [7])), .commit, .call] = some t ∧
      s.committed.isEndReached = true ∧ t.committed.products = [7] := ⟨_, _, rfl, rfl, rfl, rfl⟩
  obtain ⟨s, t, hs, ht, he, hp⟩ := hrun
  obtain ⟨hend, hreq, -⟩ := end_final ⟨_, hs⟩ he ⟨_, ht⟩
  exact ⟨s, t, hs, ht, hp, hreq, hend⟩

/-! ## Offsets asked for twice -/

section loader

variable [DecidableEq α] {L : List α} {s : App α}

def App.skips (s : App α) : List Int := s.requests.map (·.skip)

/-- A call that passes the guard while updates wait asks for an offset again. -/
theorem Follows.asked_of_waiting {p : Pager α} (h : Follows L s p) (hl : s.committed.isLoading = false)
    (hu : s.updates ≠ []) : (30 * s.committed.currentPage : Int) ∈ s.skips := by
  have hasked := ((reliable_asked (by decide)).reachable h.reachable).2
  have hmem : 30 * s.committed.currentPage ∈ p.asked := by
    have hpend := h.pending
    have hph := h.phase
    rw [App.pending] at hpend
    generalize s.committed = st, s.updates = us, s.inFlight = rs at hph hpend hl hu
    cases hph with
    | rest _ => exact absurd rfl hu
    | called hb =>
      have hc : st.currentPage = p.pages := congrArg Cells.currentPage hpend
      rw [hc, hasked]
      refine List.mem_map_of_mem (List.mem_range.2 ?_)
      simp [Pager.asks, hb]
    | loading _ => exact absurd rfl hu
    | answered _ _ _ hor => exact hor.resolve_left (by simp [hl])
  rw [App.skips, h.requests, List.map_map]
  exact List.mem_map.2 ⟨_, hmem, by simp⟩

/-- At the end the pager has been asked for each page and for the end. -/
theorem Follows.ended {p : Pager α} (h : Follows L s p) (he : s.pending.isEndReached = true) :
    s.pending.products = L ∧ s.requests = pageRequests 30 ((L.length + 29) / 30 + 1) := by
  have hasked := ((reliable_asked (by decide)).reachable h.reachable).2
  rw [h.pending] at he ⊢
  refine ⟨h.good.all he, ?_⟩
  rw [requests_eq_pageRequests h.requests hasked, h.good.asks_eq (by decide) he]

omit [DecidableEq α] in
theorem nodup_skips_earlier {t : App α} (h : s.requests <+: t.requests) (hn : t.skips.Nodup) : s.skips.Nodup :=
  hn.sublist (h.sublist.map _)

/-- An answer from the server's list takes the pager a page further. -/
theorem Follows.answer {p : Pager α} (h : Follows L s p) {i : Nat} {r : Request} (hi : s.inFlight[i]? = some r)
    {ps : List α} (hps : ps = r.serve L) : ∃ q, Follows L { s with
      inFlight := s.inFlight.eraseIdx i
      updates := s.updates ++ afterFetch (some ps) } q := by
  obtain ⟨hr, hf⟩ := h.complete hi
  rw [hps, serve_page L hr]
  exact ⟨_, hf⟩

theorem serverHolds_complete {i : Nat} {r : Request} {response : Response α} (hi : s.inFlight[i]? = some r)
    (h : serverHolds L s (.complete i response) = true) : response = .body (some (r.serve L)) := by
  match response, h with
  | .body (some ps), h => simpa [serverHolds, hi] using h

theorem follows_of_nodup : (loader L).Inductive fun s => s.skips.Nodup → ∃ p, Follows L s p where
  init := fun _ => ⟨{}, .init, rfl, rfl, List.nil_prefix, .rest _ rfl⟩
  step := by
    intro s e t h hs hn
    obtain ⟨hok, hs⟩ := Lts.restrict_step.1 hs
    obtain ⟨p, hf⟩ := h (nodup_skips_earlier (grows_step hs).requests hn)
    rcases step_cases hs with ⟨rfl, -, rfl⟩ | ⟨rfl, hl, he, rfl⟩ | ⟨rfl, rfl⟩ | ⟨i, r, response, rfl, hi, rfl⟩
    · exact ⟨p, hf⟩
    · by_cases hu : s.updates = []
      · exact ⟨_, hf.call hl he hu⟩
      · rw [App.skips, List.map_append] at hn
        exact absurd (List.mem_singleton.2 rfl) (List.disjoint_of_nodup_append hn (hf.asked_of_waiting hl hu))
    · exact ⟨p, hf.commit⟩
    · rw [serverHolds_complete hi hok]
      exact hf.answer hi rfl

/-- **Repeats are all that can go wrong**: a state is safe if and only if no offset has been asked for twice on the way
to it, and then nothing is missing at the end. -/
theorem repeats_only (h : (loader L).Reachable s) :
    (Safe L s ↔ s.skips.Nodup) ∧ (s.skips.Nodup → s.pending.isEndReached = true →
      s.pending.products = L ∧ s.requests = pageRequests 30 ((L.length + 29) / 30 + 1)) := by
  refine ⟨⟨Safe.skips, fun hn => ?_⟩, fun hn he => ?_⟩
  · obtain ⟨p, hf⟩ := follows_of_nodup.reachable h hn
    exact hf.safe
  · obtain ⟨p, hf⟩ := follows_of_nodup.reachable h hn
    exact hf.ended he

/-- Three calls that the flag holds back. -/
theorem repeats_only_held :
    ∃ s : App Nat, (loader [7]).run {} [.call, .commit, .call, .complete 0 (.body (some [7])), .call, .commit, .call,
        .commit, .complete 0 (.body (some [])), .call] = some s ∧ s.updates ≠ [] ∧ Safe [7] s := by
  have hrun : ∃ s, (loader [7]).run {} [.call, .commit, .call, .complete 0 (.body (some [7])), .call, .commit, .call,
      .commit, .complete 0 (.body (some [])), .call] = some s ∧ s.updates ≠ [] ∧ s.skips.Nodup :=
    ⟨_, rfl, by simp [afterFetch, fetchProducts], by decide⟩
  obtain ⟨s, hs, hu, hn⟩ := hrun
  exact ⟨s, hs, hu, (repeats_only ⟨_, hs⟩).1.2 hn⟩

/-! ## Some run gets to the end -/

/-- With nothing in flight nothing will be loading. -/
theorem idle_inductive : (loader L).Inductive fun s => s.inFlight = [] → s.pending.isLoading = false where
  init := fun _ => rfl
  step := by
    intro s e t h hs hin
    obtain ⟨hok, hs⟩ := Lts.restrict_step.1 hs
    rcases step_cases hs with ⟨rfl, -, rfl⟩ | ⟨rfl, -, -, rfl⟩ | ⟨rfl, rfl⟩ | ⟨i, r, response, rfl, hi, rfl⟩
    · exact h hin
    · simp at hin
    · exact h hin
    · rw [serverHolds_complete hi hok, fetchProducts, pending_complete_some]

/-- Reached on the server's list, and by the pager if `N`. -/
structure Underway (L : List α) (N : Prop) (s : App α) : Prop where
  reachable : (loader L).Reachable s
  follows : N → ∃ p, Follows L s p

structure AtRest (s : App α) : Prop where
  inFlight : s.inFlight = []
  updates : s.updates = []

variable {N : Prop}

theorem Underway.commit (h : Underway L N s) : (loader L).Steps s s.commit ∧ Underway L N s.commit := by
  have hstep : (loader L).step s .commit = some s.commit := Lts.restrict_step.2 ⟨rfl, rfl⟩
  refine ⟨.single hstep, h.reachable.step hstep, fun hN => ?_⟩
  obtain ⟨p, hf⟩ := h.follows hN
  exact ⟨p, hf.commit⟩

theorem Underway.complete (h : Underway L N s) {r : Request} {rs : List Request} (hin : s.inFlight = r :: rs) :
    ∃ t, (loader L).Steps s t ∧ Underway L N t ∧ t.inFlight = rs ∧ t.committed = s.committed ∧
      t.updates = s.updates ++ afterFetch (some (r.serve L)) := by
  have hi : s.inFlight[0]? = some r := by simp [hin]
  let t : App α := { s with
    inFlight := s.inFlight.eraseIdx 0
    updates := s.updates ++ afterFetch (some (r.serve L)) }
  have hstep : (loader L).step s (.complete 0 (.body (some (r.serve L)))) = some t := by
    refine Lts.restrict_step.2 ⟨?_, ?_⟩
    · simp [serverHolds, hi]
    · simp [app, App.step, hi, fetchProducts, t]
  refine ⟨t, .single hstep, ⟨h.reachable.step hstep, fun hN => ?_⟩, by simp [t, hin], rfl, rfl⟩
  obtain ⟨p, hf⟩ := h.follows hN
  exact hf.answer hi rfl

/-- The loads under way end and are committed. -/
theorem Underway.rest (h : Underway L N s) : ∃ t, (loader L).Steps s t ∧ Underway L N t ∧ AtRest t := by
  have hdrain : ∀ u, Underway L N u → u.inFlight = [] ∨
      ∃ v, (loader L).Steps u v ∧ Underway L N v ∧ v.inFlight.length < u.inFlight.length := by
    intro u hu
    cases hin : u.inFlight with
    | nil => exact .inl rfl
    | cons r rs =>
      obtain ⟨v, huv, hv, hrs, -⟩ := hu.complete hin
      exact .inr ⟨v, huv, hv, by simp [hrs]⟩
  obtain ⟨u, hsu, hu, hin⟩ := Lts.steps_of_variant _ hdrain h
  obtain ⟨huv, hv⟩ := hu.commit
  exact ⟨_, hsu.trans huv, hv, hin, rfl⟩

/-- A call at rest loads the page of the cells, and is over when its answer is committed. -/
theorem Underway.load (h : Underway L N s) (hr : AtRest s) (he : s.committed.isEndReached = false) :
    ∃ t, (loader L).Steps s t ∧ Underway L N t ∧ AtRest t ∧
      t.committed = (afterFetch (some (slice L 30 (30 * s.committed.currentPage)))).foldl Update.apply
        { s.committed with isLoading := true } := by
  have hpend : s.pending = s.committed := pending_of_settled hr.updates
  have hl : s.committed.isLoading = false := hpend ▸ idle_inductive.reachable h.reachable hr.inFlight
  let u : App α := { s with
    updates := s.updates ++ [.setIsLoading true]
    inFlight := s.inFlight ++ [⟨30, 30 * s.committed.currentPage⟩]
    requests := s.requests ++ [⟨30, 30 * s.committed.currentPage⟩] }
  have hcall : (loader L).step s .call = some u := by
    refine Lts.restrict_step.2 ⟨rfl, ?_⟩
    simp only [app, App.step, loadMoreProducts_some.2 ⟨hl, he, rfl⟩, u]
  have hu : Underway L N u := by
    refine ⟨h.reachable.step hcall, fun hN => ?_⟩
    obtain ⟨p, hf⟩ := h.follows hN
    exact ⟨_, hf.call hl he hr.updates⟩
  have hone : u.inFlight = [⟨30, 30 * s.committed.currentPage⟩] := by simp [u, hr.inFlight]
  obtain ⟨v, huv, hv, hin, hcommitted, hupdates⟩ := hu.complete hone
  obtain ⟨hvw, hw⟩ := hv.commit
  refine ⟨_, (Lts.Steps.single hcall).trans (huv.trans hvw), hw, ⟨hin, rfl⟩, ?_⟩
  have hserve : Request.serve L ⟨30, 30 * s.committed.currentPage⟩ = slice L 30 (30 * s.committed.currentPage) :=
    serve_page L rfl
  rw [App.commit, App.pending, hcommitted, hupdates, hserve]
  simp [u, hr.updates, Update.apply]

/-- **The React Native list always gets to the end**: from any state, whatever calls have overlapped before it, some
run ends with the end committed; and with the whole list, each page asked for once, if no offset has been asked for
twice yet. -/
theorem reactNative_completes (h : (loader L).Reachable s) :
    ∃ t, (loader L).Steps s t ∧ t.committed.isEndReached = true ∧ t.inFlight = [] ∧ t.updates = [] ∧
      (s.skips.Nodup → t.committed.products = L ∧ t.requests = pageRequests 30 ((L.length + 29) / 30 + 1)) := by
  have hstep : ∀ u, Underway L s.skips.Nodup u ∧ AtRest u → u.committed.isEndReached = true ∨
      ∃ v, (loader L).Steps u v ∧ (Underway L s.skips.Nodup v ∧ AtRest v) ∧ (v.committed.isEndReached = true ∨
        min (30 * u.committed.currentPage) L.length < min (30 * v.committed.currentPage) L.length) := by
    rintro u ⟨hu, hr⟩
    cases he : u.committed.isEndReached with
    | true => exact .inl rfl
    | false =>
      obtain ⟨v, huv, hv, hrv, hc⟩ := hu.load hr he
      refine .inr ⟨v, huv, ⟨hv, hrv⟩, ?_⟩
      rw [hc, apply_afterFetch]
      by_cases hps : slice L 30 (30 * u.committed.currentPage) = []
      · simp [hps]
      · have hlt : 30 * u.committed.currentPage < L.length := by
          by_contra hle
          exact hps ((slice_eq_nil (by decide)).2 (by omega))
        refine .inr ?_
        simp only [List.isEmpty_iff, hps, if_false]
        omega
  obtain ⟨u, hsu, hu, hr⟩ := Underway.rest (N := s.skips.Nodup) ⟨h, follows_of_nodup.reachable h⟩
  obtain ⟨t, hut, ⟨ht, hrt⟩, he⟩ := Lts.steps_of_growth (fun u : App α => min (30 * u.committed.currentPage) L.length)
    L.length (fun _ _ => Nat.min_le_right _ _) hstep ⟨hu, hr⟩
  refine ⟨t, hsu.trans hut, he, hrt.inFlight, hrt.updates, fun hn => ?_⟩
  obtain ⟨p, hf⟩ := ht.follows hn
  rw [← pending_of_settled hrt.updates] at he ⊢
  exact hf.ended he

/-- From two loads of the same page to the end all the same; and from one load to the whole list. -/
theorem reactNative_completes_two :
    (∃ s t : App Nat, (loader [7]).run {} [.call, .call] = some s ∧ (loader [7]).Steps s t ∧
      t.committed.isEndReached = true) ∧
    ∃ s t : App Nat, (loader [7]).run {} [.call] = some s ∧ (loader [7]).Steps s t ∧ t.committed.products = [7] := by
  have htwo : ∃ s, (loader [7]).run {} [.call, .call] = some s := ⟨_, rfl⟩
  have hone : ∃ s, (loader [7]).run {} [.call] = some s ∧ s.skips.Nodup := ⟨_, rfl, by decide⟩
  obtain ⟨s, hs⟩ := htwo
  obtain ⟨t, hst, he, -⟩ := reactNative_completes ⟨_, hs⟩
  obtain ⟨u, hu, hn⟩ := hone
  obtain ⟨v, huv, -, -, -, hall⟩ := reactNative_completes ⟨_, hu⟩
  exact ⟨⟨s, t, hs, hst, he⟩, u, v, hu, huv, (hall hn).1⟩

end loader

end CrossplatformBenchmark.ReactNative
