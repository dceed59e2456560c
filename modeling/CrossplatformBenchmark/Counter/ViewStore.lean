import CrossplatformBenchmark.Counter.Reducer
import CrossplatformBenchmark.Lib.Observer
import CrossplatformBenchmark.Lib.Transition

/-!
# The SwiftUI view stores (CounterApp.swift:94-122) over ReSwift

Everything runs on the main thread; a `newState` of a view store only enqueues a closure on the main queue, which
assigns `self.state` when its turn comes.

| source                                                        | here                    |
|---------------------------------------------------------------|-------------------------|
| `Subscription.skipRepeats` (Subscription.swift:131-147)       | `skipRepeats`           |
| `Store.subscribe` for an `Equatable` state (Store.swift:220-243) | `newValues`          |
| `Store.state.didSet`, `_subscribe` (Store.swift:20-30, 95-111) | `notifications`        |
| `ViewStore.init`, `deinit` (CounterApp.swift:104-107, 119-121) | `create`, `deinit`     |
| `_defaultDispatch` (Store.swift:158-173)                      | `dispatch`              |

`subscriptions` is a `Set`: each dispatch carries the order in which it is iterated. A closure on the queue keeps its
view store alive, so a view store goes away only when nothing is queued for it.
-/

namespace CrossplatformBenchmark.ViewStores

open Transition Observer

/-! ## ReSwift -/

section reswift

variable {S : Type} [DecidableEq S]

/-- What `skipRepeats(==)` forwards; a subscriber's first value comes without an old state. -/
def skipRepeats (oldState : Option S) (newState : S) : Option S :=
  match oldState with
  | some old => if old ≠ newState then some newState else none
  | none => some newState

/-- What a subscription forwards: `subscribe` applies `skipRepeats` (:242) and so does the overload it calls (:228). -/
def newValues (oldState : Option S) (newState : S) : Option S :=
  (skipRepeats oldState newState).bind (skipRepeats oldState)

theorem newValues_eq (oldState : Option S) (newState : S) :
    newValues oldState newState = skipRepeats oldState newState := by
  unfold newValues skipRepeats
  cases oldState with
  | none => rfl
  | some old => by_cases h : old = newState <;> simp [h]

/-- The closures that `newState` enqueues, one for each subscriber the value is forwarded to. -/
def notifications (oldState : Option S) (newState : S) (subscribers : List Nat) : List (Nat × S) :=
  match newValues oldState newState with
  | some state => subscribers.map fun subscriber => (subscriber, state)
  | none => []

theorem notifications_repeat (state : S) (subscribers : List Nat) :
    notifications (some state) state subscribers = [] := by
  simp [notifications, newValues_eq, skipRepeats]

theorem notifications_change {oldState : Option S} {newState : S} (h : oldState ≠ some newState)
    (subscribers : List Nat) :
    notifications oldState newState subscribers = subscribers.map fun subscriber => (subscriber, newState) := by
  cases oldState with
  | none => rfl
  | some old =>
    have hne : old ≠ newState := fun he => h (congrArg some he)
    simp [notifications, newValues_eq, skipRepeats, hne]

end reswift

/-! ## The main thread -/

/-- `CounterState`, with its `==` (CounterApp.swift:52-62). -/
abbrev State := CounterState ℤ ℚ

structure ViewStore where
  /-- The object's identity. -/
  id : Nat
  state : State
  /-- Every value of `state`, oldest first. -/
  shown : List State

/-- `self.state = state` -/
def ViewStore.receive (v : ViewStore) (state : State) : ViewStore :=
  { v with state := state, shown := v.shown ++ [state] }

structure MainThread where
  state : State := .initial
  /-- The boxes of the store, by their subscriber. -/
  subscriptions : List Nat := []
  viewStores : List ViewStore := []
  /-- The main queue: a view store and the state for it. -/
  queue : List (Nat × State) := []
  /-- View stores created so far. -/
  created : Nat := 0

inductive Event where
  | create
  /-- An action, the clock if it is read, and the order in which the subscribers are notified. -/
  | dispatch (action : Action) (currentTime : ℚ) (order : List Nat)
  | deliver
  | deinit (id : Nat)

def MainThread.step (s : MainThread) : Event → Option MainThread
  | .create => some { s with
      viewStores := s.viewStores ++ [⟨s.created, s.state, [s.state]⟩]
      subscriptions := s.subscriptions ++ [s.created]
      queue := s.queue ++ notifications none s.state [s.created]
      created := s.created + 1 }
  | .dispatch action currentTime order =>
    if order.Perm s.subscriptions then
      let newState := Swift.counterReducer s.state action currentTime
      some { s with state := newState, queue := s.queue ++ notifications (some s.state) newState order }
    else none
  | .deliver =>
    match s.queue with
    | [] => none
    | d :: queue => some { s with
        viewStores := s.viewStores.map fun v => if v.id = d.1 then v.receive d.2 else v
        queue := queue }
  | .deinit id =>
    if addressed s.queue id = [] then some { s with
      viewStores := s.viewStores.filter fun v => v.id ≠ id
      subscriptions := s.subscriptions.filter fun subscriber => subscriber ≠ id }
    else none

def mainThread : Lts MainThread Event := ⟨{}, MainThread.step⟩

/-! ## Convergence -/

/-- No increment has been undone between the two. -/
def NotAhead (s t : State) : Prop := s.counter ≤ t.counter

instance : IsPreorder State NotAhead where
  refl s := le_refl s.counter
  trans _ _ _ := le_trans

theorem notAhead_counterReducer (state : State) (action : Action) (currentTime : ℚ) :
    NotAhead state (Swift.counterReducer state action currentTime) := by
  cases action with
  | increment => simp [NotAhead, Swift.counterReducer, reduce, increment]
  | other => exact le_refl state.counter

/-- What every view store has shown and what is on its way to it are one chain up to the store's state. -/
structure Inv (s : MainThread) : Prop where
  subscriptions : s.subscriptions = s.viewStores.map (·.id)
  ids : (s.viewStores.map (·.id)).Nodup
  fresh : ∀ v ∈ s.viewStores, v.id < s.created
  queued : ∀ d ∈ s.queue, d.1 < s.created
  state : ∀ v ∈ s.viewStores, v.shown.getLast? = some v.state
  lagging : ∀ v ∈ s.viewStores, Lagging NotAhead v.shown (addressed s.queue v.id) s.state

theorem Inv.init : Inv {} := ⟨rfl, .nil, by simp, by simp, by simp, by simp⟩

theorem Inv.create {s : MainThread} (h : Inv s) : Inv { s with
    viewStores := s.viewStores ++ [⟨s.created, s.state, [s.state]⟩]
    subscriptions := s.subscriptions ++ [s.created]
    queue := s.queue ++ notifications none s.state [s.created]
    created := s.created + 1 } := by
  have hnot : notifications none s.state [s.created] = [(s.created, s.state)] :=
    notifications_change (by simp) [s.created]
  have hnew : addressed s.queue s.created = [] :=
    addressed_of_forall_ne fun d hd => Nat.ne_of_lt (h.queued d hd)
  refine ⟨by simp [h.subscriptions], ?_, ?_, ?_, ?_, ?_⟩
  · rw [List.map_append, List.nodup_append]
    refine ⟨h.ids, List.nodup_singleton _, ?_⟩
    rintro i hi j hj rfl
    obtain ⟨v, hv, rfl⟩ := List.mem_map.1 hi
    have he : v.id = s.created := by simpa using hj
    exact absurd he (Nat.ne_of_lt (h.fresh v hv))
  · intro v hv
    rcases List.mem_append.1 hv with hv | hv
    · exact Nat.lt_succ_of_lt (h.fresh v hv)
    · rw [List.mem_singleton.1 hv]
      exact Nat.lt_succ_self _
  · intro d hd
    rw [hnot] at hd
    rcases List.mem_append.1 hd with hd | hd
    · exact Nat.lt_succ_of_lt (h.queued d hd)
    · rw [List.mem_singleton.1 hd]
      exact Nat.lt_succ_self _
  · intro v hv
    rcases List.mem_append.1 hv with hv | hv
    · exact h.state v hv
    · rw [List.mem_singleton.1 hv]
      rfl
  · intro v hv
    simp only [hnot, addressed_append]
    rcases List.mem_append.1 hv with hv | hv
    · rw [addressed_cons_ne (Nat.ne_of_gt (h.fresh v hv)), addressed_nil, List.append_nil]
      exact h.lagging v hv
    · -- `init` copies the state, and the subscription delivers it once more
      rw [List.mem_singleton.1 hv, hnew, addressed_cons_self, addressed_nil]
      exact (Lagging.start s.state).notify (le_refl s.state.counter)

theorem Inv.dispatch {s : MainThread} (h : Inv s) {newState : State} (hr : NotAhead s.state newState) {order : List Nat}
    (ho : order.Perm s.subscriptions) :
    Inv { s with state := newState, queue := s.queue ++ notifications (some s.state) newState order } := by
  have hids : ∀ i, i ∈ order ↔ ∃ v ∈ s.viewStores, v.id = i := by
    intro i
    rw [ho.mem_iff, h.subscriptions, List.mem_map]
  have hnodup : order.Nodup := by
    rw [ho.nodup_iff, h.subscriptions]
    exact h.ids
  by_cases he : s.state = newState
  · subst he
    rw [notifications_repeat, List.append_nil]
    exact h
  · have hnot : notifications (some s.state) newState order = order.map fun subscriber => (subscriber, newState) :=
      notifications_change (fun hs => he (Option.some.inj hs)) order
    refine ⟨h.subscriptions, h.ids, h.fresh, ?_, h.state, ?_⟩
    · intro d hd
      rw [hnot] at hd
      rcases List.mem_append.1 hd with hd | hd
      · exact h.queued d hd
      · obtain ⟨i, hi, rfl⟩ := List.mem_map.1 hd
        obtain ⟨v, hv, rfl⟩ := (hids i).1 hi
        exact h.fresh v hv
    · intro v hv
      simp only [hnot, addressed_append, addressed_broadcast hnodup ((hids v.id).2 ⟨v, hv, rfl⟩)]
      exact (h.lagging v hv).notify hr

theorem Inv.deliver {s : MainThread} (h : Inv s) {d : Nat × State} {queue : List (Nat × State)}
    (hq : s.queue = d :: queue) : Inv { s with
      viewStores := s.viewStores.map fun v => if v.id = d.1 then v.receive d.2 else v
      queue := queue } := by
  have hid : ∀ v : ViewStore, (if v.id = d.1 then v.receive d.2 else v).id = v.id := by
    intro v
    split <;> rfl
  have hmap : (s.viewStores.map fun v => if v.id = d.1 then v.receive d.2 else v).map (·.id) =
      s.viewStores.map (·.id) := by
    rw [List.map_map]
    exact List.map_congr_left fun v _ => hid v
  refine ⟨by rw [hmap]; exact h.subscriptions, by rw [hmap]; exact h.ids, ?_, ?_, ?_, ?_⟩
  · intro v hv
    obtain ⟨w, hw, rfl⟩ := List.mem_map.1 hv
    rw [hid w]
    exact h.fresh w hw
  · intro e he
    exact h.queued e (hq ▸ List.mem_cons_of_mem d he)
  · intro v hv
    obtain ⟨w, hw, rfl⟩ := List.mem_map.1 hv
    split
    · exact List.getLast?_concat
    · exact h.state w hw
  · intro v hv
    obtain ⟨w, hw, rfl⟩ := List.mem_map.1 hv
    have hlag := h.lagging w hw
    rw [hq] at hlag
    by_cases he : w.id = d.1
    · obtain ⟨i, x⟩ := d
      obtain rfl : w.id = i := he
      rw [addressed_cons_self] at hlag
      simpa [ViewStore.receive] using hlag.deliver
    · rw [addressed_cons_ne (Ne.symm he)] at hlag
      simpa [he] using hlag

theorem Inv.deinit {s : MainThread} (h : Inv s) (id : Nat) : Inv { s with
    viewStores := s.viewStores.filter fun v => v.id ≠ id
    subscriptions := s.subscriptions.filter fun subscriber => subscriber ≠ id } where
  subscriptions := by
    simp only [h.subscriptions, List.filter_map]
    rfl
  ids := h.ids.sublist (List.filter_sublist.map _)
  fresh v hv := h.fresh v (List.mem_filter.1 hv).1
  queued := h.queued
  state v hv := h.state v (List.mem_filter.1 hv).1
  lagging v hv := h.lagging v (List.mem_filter.1 hv).1

theorem inv_inductive : mainThread.Inductive Inv where
  init := .init
  step := by
    intro s e t h ht
    cases e with
    | create =>
      cases ht
      exact h.create
    | dispatch action currentTime order =>
      obtain ⟨ho, ht⟩ := Option.ite_none_right_eq_some.1 ht
      cases ht
      exact h.dispatch (notAhead_counterReducer s.state action currentTime) ho
    | deliver =>
      simp only [mainThread, MainThread.step] at ht
      split at ht
      · cases ht
      · rename_i d queue hq
        cases ht
        exact h.deliver hq
    | deinit id =>
      obtain ⟨-, ht⟩ := Option.ite_none_right_eq_some.1 ht
      cases ht
      exact h.deinit id

/-- **Every view store converges to the store without going back.** -/
theorem viewStores_converge {s : MainThread} (h : mainThread.Reachable s) {v : ViewStore} (hv : v ∈ s.viewStores) :
    v.shown.getLast? = some v.state ∧
    (v.shown.map (·.counter)).Pairwise (· ≤ ·) ∧
    (∀ x ∈ v.shown, x.counter ≤ s.state.counter) ∧
    (addressed s.queue v.id = [] → v.state = s.state) := by
  have hi := inv_inductive.reachable h
  have hlag := hi.lagging v hv
  refine ⟨hi.state v hv, List.pairwise_map.2 hlag.sorted, hlag.below, ?_⟩
  intro hq
  rw [hq] at hlag
  exact Option.some.inj ((hi.state v hv).symm.trans hlag.caught_up)

/-- Two view stores, the second created after an increment: the first shows 0 twice, then 1. -/
theorem viewStores_converge_increment :
    ∃ s : MainThread, ∃ v ∈ s.viewStores,
      mainThread.run {} [.create, .deliver, .dispatch .increment 7 [0], .create, .deliver, .deliver] = some s ∧
      v.shown.map (·.counter) = [0, 0, 1] ∧ v.state = s.state := by
  let one : State := Swift.counterReducer .initial .increment 7
  let v : ViewStore := ⟨0, one, [.initial, .initial, one]⟩
  let s : MainThread := ⟨one, [0, 1], [v, ⟨1, one, [one, one]⟩], [], 2⟩
  have hrun : mainThread.run {} [.create, .deliver, .dispatch .increment 7 [0], .create, .deliver, .deliver] = some s :=
    rfl
  have hv : v ∈ s.viewStores := List.mem_cons_self
  exact ⟨s, v, hv, hrun, rfl, (viewStores_converge ⟨_, hrun⟩ hv).2.2.2 rfl⟩

end CrossplatformBenchmark.ViewStores
