import CrossplatformBenchmark.Loader.ComposeFailures
import CrossplatformBenchmark.Loader.ComposeSafety

/-!
# What the Compose grid makes of a list, with failures and without (RemoteImage.kt:66-131)

On a FIFO UI thread, against a server with the fixed list `L`:

* `compose_completes` — while no fetch fails, the user can get the whole list from every state, and whatever is
  scrolled, the requests are a beginning of one for each page and one for the end, in order.
* `compose_deaf_after_throw` — once a fetch has failed, nothing is ever asked for or shown again.
-/

namespace CrossplatformBenchmark.Compose

open Transition Paging

variable {α : Type*} [DecidableEq α] {L : List α} {s t : Ui α}

/-! ## The thread runs out of tasks -/

theorem fifo_answered : Lts.Simulation (fifo L) (answered α) Eq where
  init := rfl
  step := by
    rintro s e t _ rfl hs
    obtain ⟨hok, hs⟩ := Lts.restrict_step.1 hs
    refine ⟨t, .single (e := e) (Lts.restrict_step.2 ⟨?_, hs⟩), rfl⟩
    cases e with
    | respond i o =>
      cases o with
      | returned ps => rfl
      | threw => cases hok
    | _ => rfl

/-- What a reachable grid is. -/
structure Served (L : List α) (s : Ui α) : Prop where
  reachable : (fifo L).Reachable s
  live : Live s

theorem Served.of_reachable (h : (fifo L).Reachable s) : Served L s := by
  obtain ⟨_, hs, rfl⟩ := fifo_answered.reachable h
  exact ⟨h, live_inductive.reachable hs⟩

theorem Served.steps (h : Served L s) (hst : (fifo L).Steps s t) : Served L t := .of_reachable (h.reachable.trans hst)

/-- An emission may launch a coroutine, which launches none. -/
def Task.weight : Task α → Nat
  | .emission _ => 2
  | _ => 1

def Ui.weight (s : Ui α) : Nat := (s.queue.map Task.weight).sum

theorem run_head (task : Task α) (rest : List (Task α)) (hq : s.queue = task :: rest) :
    (fifo L).step s (.run 0) = some (task.exec { s with queue := rest }) := by
  refine Lts.restrict_step.2 ⟨rfl, ?_⟩
  simp [ui, Ui.step, hq]

omit [DecidableEq α] in
theorem weight_exec (task : Task α) (s : Ui α) : (task.exec s).weight < s.weight + task.weight := by
  have hpos : 0 < task.weight := by cases task <;> exact Nat.succ_pos _
  obtain ⟨-, hx⟩ | ⟨ps, rfl, -, -, -, hx⟩ | ⟨o, -, hx⟩ | ⟨-, hx⟩ := exec_cases task s
  all_goals rw [hx]
  · exact Nat.lt_add_of_pos_right hpos
  · simp [Ui.weight, Task.weight]
  · exact Nat.lt_add_of_pos_right hpos
  · exact Nat.lt_add_of_pos_right hpos

theorem thread_drains (s : Ui α) : ∃ t, (fifo L).Steps s t ∧ t.queue = [] := by
  have hstep : ∀ u : Ui α, True → u.queue = [] ∨ ∃ v, (fifo L).Steps u v ∧ True ∧ v.weight < u.weight := by
    intro u _
    cases hq : u.queue with
    | nil => exact .inl rfl
    | cons task rest =>
      refine .inr ⟨_, .single (run_head task rest hq), trivial, ?_⟩
      have hweight : u.weight = ({ u with queue := rest } : Ui α).weight + task.weight := by
        simp [Ui.weight, hq, Nat.add_comm]
      rw [hweight]
      exact weight_exec task { u with queue := rest }
  obtain ⟨t, hst, -, hq⟩ := Lts.steps_of_variant Ui.weight hstep (s := s) trivial
  exact ⟨t, hst, hq⟩

/-! ## From an empty queue to the next page -/

/-- The request in flight is answered, and its coroutine runs to the end. -/
theorem answer_next {r : Request} (hq : s.queue = []) (hin : s.inFlight = [r]) : ∃ t, (fifo L).Steps s t ∧
    t.queue = [] ∧ (t.paginationState.isEndReached = true ∨
      s.paginationState.products.length < t.paginationState.products.length) := by
  let u : Ui α := { s with inFlight := [], queue := [.resumption (.returned (r.serve L))] }
  have hrespond : (fifo L).step s (.respond 0 (.returned (r.serve L))) = some u := by
    refine Lts.restrict_step.2 ⟨by simp [fifoServer, hin], ?_⟩
    simp [ui, Ui.step, hin, hq, u]
  have hrun := run_head (L := L) (s := u) (.resumption (.returned (r.serve L))) [] rfl
  refine ⟨_, (Lts.Steps.single hrespond).trans (.single hrun), rfl, ?_⟩
  by_cases hnil : r.serve L = []
  · exact .inl (by simp [Task.exec, finishLoad, hnil])
  · refine .inr ?_
    have hpos := List.length_pos_iff.2 hnil
    simp [Task.exec, finishLoad, u, hpos]

/-- Nothing is queued or in flight: the last product comes on screen, and its emission launches a load. -/
theorem Served.ask (h : Served L s) (hq : s.queue = []) (hin : s.inFlight = [])
    (hl : s.paginationState.isLoading = false) (he : s.paginationState.isEndReached = false) :
    ∃ t, (fifo L).Steps s t ∧ t.queue = [] ∧ t.inFlight ≠ [] ∧
      t.paginationState.products = s.paginationState.products := by
  have hp : s.paginationState.products ≠ [] := by
    intro hp
    rcases h.live.started hp he with (hne | ⟨task, hm, -⟩) | hm
    · exact hne hin
    · rw [hq] at hm
      cases hm
    · rw [hq] at hm
      cases hm
  -- the effect holds the current products, restarted if need be
  obtain ⟨u, hsu, hcaptured, hstate, huq, huin⟩ : ∃ u, (fifo L).Steps s u ∧
      u.captured = s.paginationState.products ∧ u.paginationState = s.paginationState ∧ u.queue = [] ∧
      u.inFlight = [] := by
    by_cases hc : s.captured = s.paginationState.products
    · exact ⟨s, .refl _ s, hc, rfl, hq, hin⟩
    · have hrestart : (fifo L).step s (.restart false) =
          some { s with captured := s.paginationState.products, changed := true, queue := s.queue } :=
        Lts.restrict_step.2 ⟨rfl, if_pos hc⟩
      exact ⟨_, .single hrestart, rfl, rfl, hq, hin⟩
  let last : Option Int := some (s.paginationState.products.length - 1)
  let v : Ui α := { u with lastVisible := last, changed := false, queue := [.emission u.captured] }
  have hlayout : (fifo L).step u (.layout last) = some { u with lastVisible := last, changed := true } :=
    Lts.restrict_step.2 ⟨rfl, rfl⟩
  have hemit : (fifo L).step { u with lastVisible := last, changed := true } .emit = some v := by
    refine Lts.restrict_step.2 ⟨rfl, ?_⟩
    simp [ui, Ui.step, huq, v]
  have hatEnd : atEnd u.captured v.lastVisible = true := by
    rw [hcaptured]
    simp [atEnd, hp, v, last]
  have hlaunch : (fifo L).step v (.run 0) = some { v with queue := [.loadBody] } := by
    rw [run_head (.emission u.captured) [] rfl]
    simp [Task.exec, hatEnd, Ui.onScrollToEnd, v, hstate, hl, he]
  have hbegin := run_head (L := L) (s := { v with queue := [.loadBody] }) .loadBody [] rfl
  refine ⟨_, hsu.trans ((Lts.Steps.single hlayout).trans ((Lts.Steps.single hemit).trans
    ((Lts.Steps.single hlaunch).trans (.single hbegin)))), rfl, ?_, ?_⟩
  · simp [Task.exec, Ui.beginLoad]
  · simp [Task.exec, Ui.beginLoad, beginLoad, v, hstate]

/-! ## To the end -/

theorem Served.advance (hL : L.length ≤ 2 ^ 31 - 30) (h : Served L s) (hq : s.queue = [])
    (he : s.paginationState.isEndReached = false) : ∃ t, (fifo L).Steps s t ∧ t.queue = [] ∧
      (t.paginationState.isEndReached = true ∨
        s.paginationState.products.length < t.paginationState.products.length) := by
  have hanswer : ∀ {u : Ui α}, Served L u → u.queue = [] → u.inFlight ≠ [] → ∃ t, (fifo L).Steps u t ∧ t.queue = [] ∧
      (t.paginationState.isEndReached = true ∨
        u.paginationState.products.length < t.paginationState.products.length) := by
    intro u hu huq hne
    obtain ⟨p, hf, -⟩ := follows_reachable hL hu.reachable
    have hload := hf.oneLoad.load
    rw [huq] at hload
    generalize hin : u.inFlight = rs, u.paginationState.isLoading = b at hload hne
    cases hload with
    | idle => exact absurd rfl hne
    | inFlight r => exact answer_next huq hin
  by_cases hin : s.inFlight = []
  · obtain ⟨p, hf, -⟩ := follows_reachable hL h.reachable
    have hl : s.paginationState.isLoading = false :=
      hf.oneLoad.load.isLoading_eq_false (by rw [hq]; rfl) hin
    obtain ⟨u, hsu, huq, hne, hp⟩ := h.ask hq hin hl he
    obtain ⟨t, hut, htq, hgrown⟩ := hanswer (h.steps hsu) huq hne
    exact ⟨t, hsu.trans hut, htq, hp ▸ hgrown⟩
  · exact hanswer h hq hin

/-- **The Compose grid gets to the end**: from any state reached without a failure some run ends with the whole list,
and the requests made are a beginning of those made then: one for each page and one for the end. -/
theorem compose_completes (hL : L.length ≤ 2 ^ 31 - 30) (h : (fifo L).Reachable s) :
    (∃ t, (fifo L).Steps s t ∧ t.paginationState.isEndReached = true ∧ t.paginationState.products = L ∧
      t.requests = pageRequests 30 ((L.length + 29) / 30 + 1)) ∧
    s.requests <+: pageRequests 30 ((L.length + 29) / 30 + 1) := by
  constructor
  · have hbound : ∀ u : Ui α, Served L u ∧ u.queue = [] → u.paginationState.products.length ≤ L.length := by
      rintro u ⟨hu, -⟩
      obtain ⟨p, hf, -⟩ := follows_reachable hL hu.reachable
      rw [hf.products, hf.good.items, List.length_take]
      exact Nat.min_le_right _ _
    have hstep : ∀ u : Ui α, Served L u ∧ u.queue = [] → u.paginationState.isEndReached = true ∨
        ∃ v, (fifo L).Steps u v ∧ (Served L v ∧ v.queue = []) ∧ (v.paginationState.isEndReached = true ∨
          u.paginationState.products.length < v.paginationState.products.length) := by
      rintro u ⟨hu, huq⟩
      cases he : u.paginationState.isEndReached with
      | true => exact .inl rfl
      | false =>
        obtain ⟨v, huv, hvq, hgrown⟩ := hu.advance hL huq he
        exact .inr ⟨v, huv, ⟨hu.steps huv, hvq⟩, hgrown⟩
    obtain ⟨u, hsu, huq⟩ := thread_drains (L := L) s
    obtain ⟨t, hut, ⟨ht, -⟩, he⟩ := Lts.steps_of_growth _ L.length hbound hstep
      ⟨(Served.of_reachable h).steps hsu, huq⟩
    obtain ⟨p, hf, hasked⟩ := follows_reachable hL ht.reachable
    have hd : p.done = true := hf.isEndReached.symm.trans he
    refine ⟨t, hsu.trans hut, he, hf.products.trans (hf.good.all hd), ?_⟩
    rw [requests_eq_pageRequests hf.requests hasked, hf.good.asks_eq (by decide) hd]
  · obtain ⟨p, hf, hasked⟩ := follows_reachable hL h
    rw [requests_eq_pageRequests hf.requests hasked]
    exact pageRequests_prefix 30 (hf.good.asks_le (by decide))

/-- Two products; the first page has arrived, nothing is visible yet. -/
theorem compose_completes_two :
    ∃ s t : Ui Nat, (fifo [7, 8]).run {} [.run 0, .respond 0 (.returned [7, 8]), .run 0] = some s ∧
      (fifo [7, 8]).Steps s t ∧ t.paginationState.products = [7, 8] ∧ t.requests = [⟨30, 0⟩, ⟨30, 30⟩] := by
  have hrun : ∃ s, (fifo [7, 8]).run {} [.run 0, .respond 0 (.returned [7, 8]), .run 0] = some s := ⟨_, rfl⟩
  obtain ⟨s, hs⟩ := hrun
  obtain ⟨⟨t, hst, -, hp, hr⟩, -⟩ := compose_completes (by decide) ⟨_, hs⟩
  exact ⟨s, t, hs, hst, hp, hr⟩

/-! ## After a failure -/

/-- The thread takes the oldest task; the network answers as it likes. -/
def fifoThread (_ : Ui α) : Event α → Bool
  | .run i => i == 0
  | _ => true

variable (α) in
def anyServer : Lts (Ui α) (Event α) := (ui α).restrict fifoThread

/-- One load at a time, until a failure. -/
theorem oneLoad_or_blocked : (anyServer α).Inductive fun s => OneLoad s ∨ Blocked s where
  init := .inl .init
  step := by
    intro s e t h hs
    obtain ⟨hok, hs⟩ := Lts.restrict_step.1 hs
    rcases h with h | h
    · have hfifo : ∀ i, e = .run i → i = 0 := by
        rintro i rfl
        simpa [fifoThread] using hok
      by_cases hthrow : ∃ i, e = .run i ∧ s.queue[i]? = some (.resumption .threw)
      · obtain ⟨i, rfl, hi⟩ := hthrow
        obtain rfl := hfifo i rfl
        obtain ⟨rest, hq⟩ := head_of_getElem? hi
        have ht : t = { s with queue := rest } := by
          simp only [ui, Ui.step, hq, List.getElem?_cons_zero, Option.map_some, List.eraseIdx_cons_zero, Task.exec,
            finishLoad, Option.some.injEq] at hs
          exact hs.symm
        rw [ht]
        exact .inr (blocked_after_throw h hq)
      · refine .inl (h.step hfifo (fun i hi ht => hthrow ⟨i, hi, ht⟩) hs)
    · exact .inr (blocked_step h hs).1

/-- **Deaf after a failure**: once the exception of a failed fetch has been thrown into its coroutine, the list, the page
and the flags stay as they are, `isLoading` among them, and no request is ever made again. -/
theorem compose_deaf_after_throw {u : Ui α} (h : (anyServer α).Reachable s) {rest : List (Task α)}
    (hq : s.queue = .resumption .threw :: rest) (ht : (anyServer α).step s (.run 0) = some t)
    (hu : (anyServer α).Steps t u) :
    u.paginationState = s.paginationState ∧ u.paginationState.isLoading = true ∧ u.requests = s.requests ∧
    u.loads = 0 := by
  have hone : OneLoad s := by
    refine (oneLoad_or_blocked.reachable h).resolve_right fun hb => ?_
    have hem := hb.emissions (.resumption .threw) (by rw [hq]; exact .head _)
    cases hem
  have ht' : t = { s with queue := rest } := by
    have hstep := (Lts.restrict_step.1 ht).2
    simp only [ui, Ui.step, hq, List.getElem?_cons_zero, Option.map_some, List.eraseIdx_cons_zero, Task.exec,
      finishLoad, Option.some.injEq] at hstep
    exact hstep.symm
  have hblocked : Blocked t := ht' ▸ blocked_after_throw hone hq
  obtain ⟨hbu, hstate, hrequests⟩ := blocked_steps hblocked hu.of_restrict
  rw [ht'] at hstate hrequests
  refine ⟨hstate, hbu.isLoading, hrequests, ?_⟩
  have hcount : u.queue.countP (·.isLoad) = 0 := by
    rw [List.countP_eq_zero]
    intro task hm
    have hem := hbu.emissions task hm
    cases task <;> simp [Task.isEmission, Task.isLoad] at hem ⊢
  rw [Ui.loads, hcount, hbu.inFlight]
  rfl

/-- The second page fails; a scroll to the end after it changes nothing. -/
theorem compose_deaf_second_page :
    ∃ s t u : Ui Nat, (anyServer Nat).run {} [.run 0, .respond 0 (.returned [7]), .run 0, .restart true,
        .layout (some 0), .emit, .run 0, .run 0, .respond 0 .threw] = some s ∧
      (anyServer Nat).step s (.run 0) = some t ∧
      (anyServer Nat).run t [.layout none, .layout (some 0), .emit, .run 0] = some u ∧
      u.requests = [⟨30, 0⟩, ⟨30, 30⟩] ∧ u.paginationState = s.paginationState := by
  have hrun : ∃ s t u : Ui Nat, (anyServer Nat).run {} [.run 0, .respond 0 (.returned [7]), .run 0, .restart true,
        .layout (some 0), .emit, .run 0, .run 0, .respond 0 .threw] = some s ∧
      s.queue = [.resumption .threw] ∧ (anyServer Nat).step s (.run 0) = some t ∧
      (anyServer Nat).run t [.layout none, .layout (some 0), .emit, .run 0] = some u ∧
      u.requests = [⟨30, 0⟩, ⟨30, 30⟩] := ⟨_, _, _, rfl, rfl, rfl, rfl, rfl⟩
  obtain ⟨s, t, u, hs, hq, ht, hu, hrequests⟩ := hrun
  exact ⟨s, t, u, hs, ht, hu, hrequests, (compose_deaf_after_throw ⟨_, hs⟩ hq ht ⟨_, hu⟩).1⟩

end CrossplatformBenchmark.Compose
