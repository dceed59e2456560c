import CrossplatformBenchmark.Lib.Paging

/-!
# The React Native product loader (usecases/RemoteImage.tsx:20-60)

A call of `loadMoreProducts` reads `isLoading`, `isEndReached` and `currentPage` as they were when
the closure was rendered; what it sets is queued and applied, in order, by the next commit, which
installs the closure over the new values.

| source                                                 | here                |
|--------------------------------------------------------|---------------------|
| `fetchProducts` (:20-28)                               | `fetchProducts`     |
| the guard, `setIsLoading(true)`, the request (:46-50)  | `loadMoreProducts`  |
| after the `await` (:52-59)                             | `afterFetch`        |
| a render with the queued updates applied               | `App.commit`        |

`currentPage` and the offsets are exact numbers here; a JS number counts exactly up to 2^53 only.

The guard holds back a second load only from the commit on. `loader_safe_iff`: a run loads every
page once exactly if each call that passes the guard finds no update waiting for its commit.
-/

namespace CrossplatformBenchmark.ReactNative

open Transition Paging

variable {α : Type*}

/-- How `axios.get` ends; `response.data.products` is missing from a body of another shape. -/
inductive Response (α : Type*) where
  | body (products : Option (List α))
  | error

/-- What the `await` yields: `none` is `undefined`, an error is caught and yields `[]`. -/
def fetchProducts : Response α → Option (List α)
  | .body products => products
  | .error => some []

def PAGE_SIZE : Nat := 30

/-- The four `useState` cells (:34-37). -/
structure Cells (α : Type*) where
  products : List α := []
  isLoading : Bool := false
  isEndReached : Bool := false
  currentPage : Nat := 0

inductive Update (α : Type*) where
  /-- `prevProducts => [...prevProducts, ...newProducts]` -/
  | appendProducts (newProducts : List α)
  /-- `prevPage => prevPage + 1` -/
  | nextPage
  | setIsEndReached (value : Bool)
  | setIsLoading (value : Bool)

def Update.apply (st : Cells α) : Update α → Cells α
  | .appendProducts newProducts => { st with products := st.products ++ newProducts }
  | .nextPage => { st with currentPage := st.currentPage + 1 }
  | .setIsEndReached value => { st with isEndReached := value }
  | .setIsLoading value => { st with isLoading := value }

/-- The request of a call, by the closure rendered with `st`; `none` if the guard returns (:46-50). -/
def loadMoreProducts (st : Cells α) : Option Request :=
  if st.isLoading || st.isEndReached then none else some ⟨PAGE_SIZE, (st.currentPage * PAGE_SIZE : Nat)⟩

/-- The updates after the `await` (:52-59); `undefined.length` throws before any of them. -/
def afterFetch : Option (List α) → List (Update α)
  | none => []
  | some newProducts =>
    (if newProducts.length > 0 then [.appendProducts newProducts, .nextPage] else [.setIsEndReached true]) ++
      [.setIsLoading false]

/-! ## The component -/

structure App (α : Type*) where
  committed : Cells α := {}
  updates : List (Update α) := []
  inFlight : List Request := []
  /-- Every request, oldest first. -/
  requests : List Request := []

inductive Event (α : Type*) where
  /-- The mount effect, or `onEndReached`, calls the committed `loadMoreProducts`. -/
  | call
  | commit
  | complete (i : Nat) (response : Response α)

/-- The cells with every queued update applied. -/
def App.pending (s : App α) : Cells α := s.updates.foldl Update.apply s.committed

def App.commit (s : App α) : App α := { s with committed := s.pending, updates := [] }

def App.step (s : App α) : Event α → Option (App α)
  | .call =>
    match loadMoreProducts s.committed with
    | none => some s
    | some r => some { s with
        updates := s.updates ++ [.setIsLoading true]
        inFlight := s.inFlight ++ [r]
        requests := s.requests ++ [r] }
  | .commit => some s.commit
  | .complete i response => s.inFlight[i]?.map fun _ =>
      { s with inFlight := s.inFlight.eraseIdx i, updates := s.updates ++ afterFetch (fetchProducts response) }

def app (α : Type*) : Lts (App α) (Event α) := ⟨{}, App.step⟩

/-! ## What a step can do -/

theorem loadMoreProducts_some {st : Cells α} {r : Request} :
    loadMoreProducts st = some r ↔ st.isLoading = false ∧ st.isEndReached = false ∧ r = ⟨30, 30 * st.currentPage⟩ := by
  simp only [loadMoreProducts, PAGE_SIZE, Bool.or_eq_true, Option.ite_none_left_eq_some, not_or, Bool.not_eq_true,
    and_assoc, Option.some.injEq, Nat.mul_comm _ 30, eq_comm (a := r)]
  push_cast
  rfl

theorem apply_afterFetch (st : Cells α) (ps : List α) : (afterFetch (some ps)).foldl Update.apply st =
    ⟨st.products ++ ps, false, ps.isEmpty || st.isEndReached,
      if ps.isEmpty then st.currentPage else st.currentPage + 1⟩ := by
  cases ps with
  | nil => simp [afterFetch, Update.apply]
  | cons x ps => simp [afterFetch, Update.apply]

/-- With nothing queued, the pending cells are the committed ones. -/
theorem pending_of_settled {s : App α} (h : s.updates = []) : s.pending = s.committed := by
  rw [App.pending, h, List.foldl_nil]

theorem step_cases {s t : App α} {e : Event α} (h : (app α).step s e = some t) :
    (e = .call ∧ (s.committed.isLoading = true ∨ s.committed.isEndReached = true) ∧ t = s) ∨
    (e = .call ∧ s.committed.isLoading = false ∧ s.committed.isEndReached = false ∧ t = { s with
      updates := s.updates ++ [.setIsLoading true]
      inFlight := s.inFlight ++ [⟨30, 30 * s.committed.currentPage⟩]
      requests := s.requests ++ [⟨30, 30 * s.committed.currentPage⟩] }) ∨
    (e = .commit ∧ t = s.commit) ∨
    (∃ i r response, e = .complete i response ∧ s.inFlight[i]? = some r ∧ t = { s with
      inFlight := s.inFlight.eraseIdx i
      updates := s.updates ++ afterFetch (fetchProducts response) }) := by
  cases e with
  | call =>
    simp only [app, App.step] at h
    split at h
    · rename_i hn
      have hg : s.committed.isLoading = true ∨ s.committed.isEndReached = true := by
        by_contra hg
        obtain ⟨hl, he⟩ := not_or.1 hg
        have := loadMoreProducts_some.2 ⟨eq_false_of_ne_true hl, eq_false_of_ne_true he, rfl⟩
        rw [hn] at this
        cases this
      exact .inl ⟨rfl, hg, (Option.some.inj h).symm⟩
    · rename_i r hr
      obtain ⟨hl, he, rfl⟩ := loadMoreProducts_some.1 hr
      exact .inr (.inl ⟨rfl, hl, he, (Option.some.inj h).symm⟩)
  | commit => exact .inr (.inr (.inl ⟨rfl, (Option.some.inj h).symm⟩))
  | complete i response =>
    obtain ⟨r, hr, rfl⟩ := Option.map_eq_some_iff.1 h
    exact .inr (.inr (.inr ⟨i, r, response, rfl, hr, rfl⟩))

/-! ## The pager it implements, while it does -/

variable [DecidableEq α] (L : List α)

/-- The server holds `L` and answers every request. -/
def serverHolds (s : App α) : Event α → Bool
  | .complete i (.body (some ps)) => s.inFlight[i]?.any fun r => decide (ps = r.serve L)
  | .complete _ _ => false
  | _ => true

def loader : Lts (App α) (Event α) := (app α).restrict (serverHolds L)

/-- At most one request in flight, no offset asked for twice, a prefix of `L` on the screen. -/
structure Safe (s : App α) : Prop where
  inFlight : s.inFlight.length ≤ 1
  skips : (s.requests.map (·.skip)).Nodup
  products : s.committed.products <+: L

/-- A call that passes the guard finds no update waiting for its commit. -/
def Settled (s : App α) : Event α → Prop
  | .call => s.committed.isLoading = false → s.committed.isEndReached = false → s.updates = []
  | _ => True

/-- Where the one load is, by the committed cells, the queued updates and the requests in flight. -/
inductive Phase (p : Pager α) : Cells α → List (Update α) → List Request → Prop
  | rest (st : Cells α) : p.busy = false → Phase p st [] []
  /-- The guard does not see the request yet. -/
  | called (st : Cells α) : p.busy = true → Phase p st [.setIsLoading true] [⟨30, 30 * p.pages⟩]
  | loading (st : Cells α) : p.busy = true → Phase p st [] [⟨30, 30 * p.pages⟩]
  /-- The answer waits for its commit: a call would be held back, or ask for the same page again. -/
  | answered (st : Cells α) (us : List (Update α)) : p.busy = false → us ≠ [] →
      st.isLoading = true ∨ 30 * st.currentPage ∈ p.asked → Phase p st us []

structure Follows (s : App α) (p : Pager α) : Prop where
  reachable : (reliable 30 L).Reachable p
  pending : s.pending = ⟨p.items, p.busy, p.done, p.pages⟩
  requests : s.requests = p.asked.map fun k => ⟨30, (k : Int)⟩
  committed : s.committed.products <+: L
  phase : Phase p s.committed s.updates s.inFlight

variable {L} {s t : App α} {p : Pager α}

omit [DecidableEq α] in
/-- The pager is busy exactly while a request is in flight. -/
theorem Phase.inFlight_iff {st : Cells α} {us : List (Update α)} {rs : List Request} (h : Phase p st us rs) :
    rs = [] ↔ p.busy = false := by
  cases h with
  | rest hb => exact iff_of_true rfl hb
  | called hb => exact iff_of_false (List.cons_ne_nil _ _) (by simp [hb])
  | loading hb => exact iff_of_false (List.cons_ne_nil _ _) (by simp [hb])
  | answered _ hb => exact iff_of_true rfl hb

theorem Follows.good (h : Follows L s p) : Good 30 L p := (reliable_good (by decide)).reachable h.reachable

theorem Follows.safe (h : Follows L s p) : Safe L s where
  inFlight := by
    have := h.phase
    generalize s.committed = st, s.updates = us, s.inFlight = rs at this
    cases this <;> simp
  skips := by
    rw [h.requests, List.map_map]
    have := asked_nodup (by decide) ((reliable_asked (by decide)).reachable h.reachable).2
    exact this.map fun a b hab => Int.ofNat_inj.1 hab
  products := h.committed

theorem Follows.commit (h : Follows L s p) : Follows L s.commit p where
  reachable := h.reachable
  pending := h.pending
  requests := h.requests
  committed := by
    rw [App.commit, h.pending, h.good.items]
    exact List.take_prefix _ L
  phase := by
    have := h.phase
    rw [App.commit]
    generalize s.committed = st, s.updates = us, s.inFlight = rs at this
    cases this with
    | rest hb => exact .rest _ hb
    | called hb => exact .loading _ hb
    | loading hb => exact .loading _ hb
    | answered _ hb => exact .rest _ hb

/-- A call that passes the guard with nothing waiting: the pager asks. -/
theorem Follows.call (h : Follows L s p) (hl : s.committed.isLoading = false) (he : s.committed.isEndReached = false)
    (hu : s.updates = []) : Follows L { s with
      updates := s.updates ++ [.setIsLoading true]
      inFlight := s.inFlight ++ [⟨30, 30 * s.committed.currentPage⟩]
      requests := s.requests ++ [⟨30, 30 * s.committed.currentPage⟩] } (p.ask 30) := by
  have hcells : s.committed = ⟨p.items, p.busy, p.done, p.pages⟩ := by
    rw [← h.pending, pending_of_settled hu]
  have hb : p.busy = false := by rw [hcells] at hl; exact hl
  have hd : p.done = false := by rw [hcells] at he; exact he
  have hin : s.inFlight = [] := h.phase.inFlight_iff.2 hb
  refine ⟨h.reachable.step (reliable_ask hb hd), ?_, ?_, h.committed, ?_⟩
  · simp only [App.pending, hu, hcells, List.nil_append, List.foldl_cons, List.foldl_nil, Update.apply, Pager.ask]
  · simp only [h.requests, hcells, Pager.ask, List.map_append, List.map_cons, List.map_nil]
    push_cast
    rfl
  · simp only [hu, hin, hcells, List.nil_append]
    exact .called _ rfl

/-- The answer: the pager gets its page, the cells get it at the next commit. -/
theorem Follows.complete {i : Nat} {r : Request} (h : Follows L s p) (hi : s.inFlight[i]? = some r) :
    r = ⟨30, 30 * p.pages⟩ ∧ Follows L { s with
      inFlight := s.inFlight.eraseIdx i
      updates := s.updates ++ afterFetch (some (slice L 30 (30 * p.pages))) } (p.page (slice L 30 (30 * p.pages))) := by
  have hwait : s.inFlight = [⟨30, 30 * p.pages⟩] ∧ p.busy = true ∧
      (s.committed.isLoading = true ∨ s.committed.currentPage = p.pages) := by
    have hpend := h.pending
    have hph := h.phase
    rw [App.pending] at hpend
    generalize s.committed = st, s.updates = us, s.inFlight = rs at hph hpend hi
    cases hph with
    | rest _ => cases hi
    | called hb => exact ⟨rfl, hb, .inr (congrArg Cells.currentPage hpend)⟩
    | loading hb => exact ⟨rfl, hb, .inl ((congrArg Cells.isLoading hpend).trans hb)⟩
    | answered _ _ => cases hi
  obtain ⟨hin, hb, hst⟩ := hwait
  rw [hin] at hi
  obtain ⟨rfl, rfl⟩ := of_getElem?_singleton hi
  have hd : p.done = false := h.good.idle hb
  refine ⟨rfl, h.reachable.step (reliable_page hb), ?_, h.requests, h.committed, ?_⟩
  · have hpend := h.pending
    rw [App.pending] at hpend
    simp only [App.pending, List.foldl_append, hpend, apply_afterFetch, hd, Bool.or_false, Pager.page]
  · simp only [hin, List.eraseIdx_cons_zero]
    refine .answered _ _ rfl (by simp [afterFetch]) (hst.imp id fun hc => ?_)
    have hasked := ((reliable_asked (by decide)).reachable h.reachable).2
    rw [hc]
    simp only [Pager.page, hasked, Pager.asks, hb, Bool.true_or, if_true]
    exact List.mem_map_of_mem (List.mem_range.2 (Nat.lt_succ_self _))

/-- A call too many is seen at once: two requests in flight, or the same page asked for again. -/
theorem Follows.not_safe_call (h : Follows L s p) (hl : s.committed.isLoading = false) (hu : s.updates ≠ []) :
    ¬ Safe L { s with
      updates := s.updates ++ [.setIsLoading true]
      inFlight := s.inFlight ++ [⟨30, 30 * s.committed.currentPage⟩]
      requests := s.requests ++ [⟨30, 30 * s.committed.currentPage⟩] } := by
  intro hsafe
  have hlen := hsafe.inFlight
  have hnodup := hsafe.skips
  simp only [List.map_append, List.map_cons, List.map_nil, List.length_append, List.length_singleton] at hlen hnodup
  have hph := h.phase
  generalize hst : s.committed = st, hus : s.updates = us, hrs : s.inFlight = rs at hph hl hu hlen hnodup
  cases hph with
  | rest _ => exact hu rfl
  | called _ => simp at hlen
  | loading _ => exact hu rfl
  | answered _ _ _ hor =>
    rcases hor with hl' | hmem
    · rw [hl] at hl'; cases hl'
    · have hm : (30 * st.currentPage : Int) ∈ s.requests.map (·.skip) := by
        rw [h.requests, List.map_map]
        exact List.mem_map.2 ⟨_, hmem, by simp⟩
      exact List.disjoint_of_nodup_append hnodup hm (.head _)

/-- **The React Native loader.** A run keeps at most one request in flight, asks for no offset twice and commits
only prefixes of `L` if and only if no call passes the guard while updates wait for their commit. -/
theorem loader_safe_iff (L : List α) (es : List (Event α)) :
    (loader L).Always (Safe L) {} es ↔ (loader L).Along Settled {} es := by
  refine Lts.always_iff_along (fun s => ∃ p, Follows L s p) ?_ ?_ ?_ es ?_
  · rintro s e t ⟨p, h⟩ hset hs
    obtain ⟨hok, hs⟩ := Lts.restrict_step.1 hs
    obtain ⟨rfl, -, rfl⟩ | ⟨rfl, hl, he, rfl⟩ | ⟨rfl, rfl⟩ | ⟨i, r, response, rfl, hi, rfl⟩ := step_cases hs
    · exact ⟨p, h⟩
    · exact ⟨_, h.call hl he (hset hl he)⟩
    · exact ⟨p, h.commit⟩
    · obtain ⟨hr, hf⟩ := h.complete hi
      match response, hok with
      | .body (some ps), hok =>
        have hps : ps = slice L 30 (30 * p.pages) := by
          have hps : ps = r.serve L := by simpa [serverHolds, hi] using hok
          rw [hps, serve_page L hr]
        rw [hps]
        exact ⟨_, hf⟩
  · rintro s ⟨p, h⟩
    exact h.safe
  · rintro s e ⟨p, h⟩ hset
    cases e with
    | call =>
      simp only [Settled, Classical.not_imp] at hset
      obtain ⟨hl, he, hu⟩ := hset
      refine ⟨_, Lts.restrict_step.2 ⟨rfl, ?_⟩, h.not_safe_call hl hu⟩
      simp only [app, App.step, loadMoreProducts_some.2 ⟨hl, he, rfl⟩]
    | commit => exact absurd trivial hset
    | complete i response => exact absurd trivial hset
  · exact ⟨{}, .init, rfl, rfl, List.nil_prefix, .rest _ rfl⟩

/-- One product, two calls before the first commit: two requests for it, and it is shown twice. -/
theorem calls_before_commit : ∃ s t, (loader [7]).run {} [.call, .call] = some s ∧ ¬ Safe [7] s ∧
    s.inFlight = [⟨30, 0⟩, ⟨30, 0⟩] ∧
    (loader [7]).run s [.complete 0 (.body (some [7])), .complete 0 (.body (some [7])), .commit] = some t ∧
    t.committed.products = [7, 7] ∧ ¬ Safe [7] t := by
  refine ⟨⟨{}, [.setIsLoading true, .setIsLoading true], [⟨30, 0⟩, ⟨30, 0⟩], [⟨30, 0⟩, ⟨30, 0⟩]⟩,
    ⟨⟨[7, 7], false, false, 2⟩, [], [], [⟨30, 0⟩, ⟨30, 0⟩]⟩, rfl, fun h => ?_, rfl, rfl, rfl, fun h => ?_⟩
  · exact absurd h.inFlight (by decide)
  · exact absurd h.products (by decide)

end CrossplatformBenchmark.ReactNative
