import CrossplatformBenchmark.Counter.ViewStore
import CrossplatformBenchmark.Lib.Table

/-!
# ReSwift's subscription boxes under the view stores (Store.swift, Subscription.swift)

`Counter/ViewStore` lets a view store's subscription go with it. The store itself does not: `subscriptions` is a `Set`
of boxes that are hashed and compared by the address of their subscriber and hold it weakly.

| source                                                    | here                          |
|-----------------------------------------------------------|-------------------------------|
| `SubscriptionBox` (Subscription.swift:17-46, 67-77)       | `SubscriptionBox`             |
| `subscriptions.update(with:)` (Store.swift:106)           | `update`                      |
| `state.didSet` (Store.swift:20-30)                        | `Heap.didSet`                 |
| `unsubscribe`, from `ViewStore.deinit` (Store.swift:145-155) | `unsubscribe`              |
| `ViewStore.init` (CounterApp.swift:104-107)               | `Heap.create`                 |

A weak reference to an object that is being deallocated may read as `nil` already; then `unsubscribe(self)` finds no
box, and the box outlives its view store until the next dispatch. Meanwhile the address may be used again. Both
answers of the weak reference are allowed here, and so is every reuse of a free address.

* `reswift_refines` — the store is, all the same, the one of `Counter/ViewStore`.
* `reswift_boxes` — no live view store shares or lacks a box, and a dispatch leaves no dead box.
* `reswift_exact` — what a view store has shown and will show are the changes of the state, each once.
-/

namespace CrossplatformBenchmark.ReSwift

open Transition Observer ViewStores

/-! ## The store -/

structure SubscriptionBox where
  /-- The subscriber's address: what `==` and `hash` read. -/
  objectIdentifier : Nat
  /-- The weak reference, by an identity that is never used again. -/
  subscriber : Nat
  deriving DecidableEq

/-- A live view store. -/
structure Object where
  address : Nat
  viewStore : ViewStore
  /-- How many states the store had had when it was created, less one. -/
  since : Nat

structure Heap where
  state : State := .initial
  subscriptions : List SubscriptionBox := []
  objects : List Object := []
  /-- The main queue: a view store and the state for it. -/
  queue : List (Nat × State) := []
  /-- View stores created so far. -/
  created : Nat := 0
  /-- Every state the store has had, without repeats. -/
  changes : List State := [.initial]

/-- What the weak reference to `id` reads. -/
def Heap.isAlive (s : Heap) (id : Nat) : Bool := s.objects.any (·.viewStore.id = id)

/-- `subscriptions.update(with: box)` takes the place of an equal box. -/
def update (subscriptions : List SubscriptionBox) (box : SubscriptionBox) : List SubscriptionBox :=
  subscriptions.filter (·.objectIdentifier ≠ box.objectIdentifier) ++ [box]

/-- `unsubscribe(self)` in a `deinit`; `found` tells whether the weak references still read `self`. -/
def unsubscribe (subscriptions : List SubscriptionBox) (id : Nat) (found : Bool) : List SubscriptionBox :=
  if found then subscriptions.eraseP (·.subscriber = id) else subscriptions

/-- `ViewStore(store: store)`, allocated at `address`. -/
def Heap.create (s : Heap) (address : Nat) : Heap :=
  { s with
    objects := s.objects ++ [⟨address, ⟨s.created, s.state, [s.state]⟩, s.changes.length - 1⟩]
    subscriptions := update s.subscriptions ⟨address, s.created⟩
    queue := s.queue ++ notifications none s.state [s.created]
    created := s.created + 1 }

/-- The loop of `didSet`: a box without its subscriber is removed, the others hear of the state. -/
def Heap.didSet (oldState : State) : List SubscriptionBox → Heap → Heap
  | [], s => s
  | box :: boxes, s =>
    Heap.didSet oldState boxes <|
      if s.isAlive box.subscriber then
        { s with queue := s.queue ++ notifications (some oldState) s.state [box.subscriber] }
      else { s with subscriptions := s.subscriptions.filter (·.objectIdentifier ≠ box.objectIdentifier) }

/-- `_defaultDispatch`, with the boxes in the order in which the set is iterated. -/
def Heap.dispatch (s : Heap) (action : Action) (currentTime : ℚ) (order : List SubscriptionBox) : Heap :=
  let newState := Swift.counterReducer s.state action currentTime
  Heap.didSet s.state order { s with
    state := newState
    changes := if s.state = newState then s.changes else s.changes ++ [newState] }

def Heap.deliver (s : Heap) (d : Nat × State) (queue : List (Nat × State)) : Heap :=
  { s with
    objects := s.objects.map fun o =>
      if o.viewStore.id = d.1 then { o with viewStore := o.viewStore.receive d.2 } else o
    queue := queue }

def Heap.deinit (s : Heap) (id : Nat) (found : Bool) : Heap :=
  { s with
    objects := s.objects.filter (·.viewStore.id ≠ id)
    subscriptions := unsubscribe s.subscriptions id found }

inductive Event where
  /-- An address that no live object has. -/
  | create (address : Nat)
  | dispatch (action : Action) (currentTime : ℚ) (order : List SubscriptionBox)
  | deliver
  /-- The last reference is gone; a closure on the queue is one. -/
  | deinit (id : Nat) (found : Bool)

def Heap.step (s : Heap) : Event → Option Heap
  | .create address => if s.objects.any (·.address = address) then none else some (s.create address)
  | .dispatch action currentTime order =>
    if order.Perm s.subscriptions then some (s.dispatch action currentTime order) else none
  | .deliver =>
    match s.queue with
    | [] => none
    | d :: queue => some (s.deliver d queue)
  | .deinit id found => if s.isAlive id ∧ addressed s.queue id = [] then some (s.deinit id found) else none

def heap : Lts Heap Event := ⟨{}, Heap.step⟩

theorem heap_step_cases {s t : Heap} {e : Event} (h : heap.step s e = some t) :
    (∃ address, e = .create address ∧ (∀ o ∈ s.objects, o.address ≠ address) ∧ t = s.create address) ∨
    (∃ action currentTime order, e = .dispatch action currentTime order ∧ order.Perm s.subscriptions ∧
      t = s.dispatch action currentTime order) ∨
    (∃ d queue, e = .deliver ∧ s.queue = d :: queue ∧ t = s.deliver d queue) ∨
    (∃ id found, e = .deinit id found ∧ s.isAlive id ∧ addressed s.queue id = [] ∧ t = s.deinit id found) := by
  cases e with
  | create address =>
    obtain ⟨ha, ht⟩ := Option.ite_none_left_eq_some.1 h
    refine .inl ⟨address, rfl, ?_, (Option.some.inj ht).symm⟩
    intro o ho he
    exact ha (List.any_eq_true.2 ⟨o, ho, decide_eq_true he⟩)
  | dispatch action currentTime order =>
    obtain ⟨ho, ht⟩ := Option.ite_none_right_eq_some.1 h
    exact .inr (.inl ⟨action, currentTime, order, rfl, ho, (Option.some.inj ht).symm⟩)
  | deliver =>
    simp only [heap, Heap.step] at h
    split at h
    · cases h
    · rename_i d queue hq
      exact .inr (.inr (.inl ⟨d, queue, rfl, hq, (Option.some.inj h).symm⟩))
  | deinit id found =>
    obtain ⟨⟨ha, hq⟩, ht⟩ := Option.ite_none_right_eq_some.1 h
    exact .inr (.inr (.inr ⟨id, found, rfl, ha, hq, (Option.some.inj ht).symm⟩))

theorem isAlive_iff {s : Heap} {id : Nat} : s.isAlive id = true ↔ ∃ o ∈ s.objects, o.viewStore.id = id := by
  simp [Heap.isAlive]

/-! ## What a dispatch does to the boxes -/

section didSet

variable (oldState : State)

theorem notifications_cons (newState : State) (subscriber : Nat) (subscribers : List Nat) :
    notifications (some oldState) newState (subscriber :: subscribers) =
      notifications (some oldState) newState [subscriber] ++ notifications (some oldState) newState subscribers := by
  unfold notifications
  cases newValues (some oldState) newState <;> rfl

/-- The boxes whose weak reference still reads a view store, by their subscriber. -/
def Heap.heard (s : Heap) (boxes : List SubscriptionBox) : List Nat :=
  (boxes.filter fun box => s.isAlive box.subscriber).map (·.subscriber)

/-- No dead box of `boxes` has the subscriber address of `b`. -/
def Heap.kept (s : Heap) (boxes : List SubscriptionBox) (b : SubscriptionBox) : Bool :=
  boxes.all fun box => s.isAlive box.subscriber || decide (b.objectIdentifier ≠ box.objectIdentifier)

theorem didSet_eq (boxes : List SubscriptionBox) (s : Heap) :
    Heap.didSet oldState boxes s = { s with
      queue := s.queue ++ notifications (some oldState) s.state (s.heard boxes)
      subscriptions := s.subscriptions.filter (s.kept boxes) } := by
  induction boxes generalizing s with
  | nil =>
    have hnil : notifications (some oldState) s.state [] = [] := by
      unfold notifications
      cases newValues (some oldState) s.state <;> rfl
    have hkept : s.subscriptions.filter (s.kept []) = s.subscriptions :=
      List.filter_eq_self.2 fun b _ => rfl
    rw [hkept, show s.heard [] = [] from rfl, hnil, List.append_nil]
    rfl
  | cons box boxes ih =>
    rw [Heap.didSet, ih]
    by_cases ha : s.isAlive box.subscriber
    · have hheard : s.heard (box :: boxes) = box.subscriber :: s.heard boxes := by simp [Heap.heard, ha]
      have hkept : s.kept (box :: boxes) = s.kept boxes := by
        funext b
        simp [Heap.kept, ha]
      rw [if_pos ha, hheard, hkept, notifications_cons oldState s.state box.subscriber (s.heard boxes),
        ← List.append_assoc]
      rfl
    · have hheard : s.heard (box :: boxes) = s.heard boxes := by simp [Heap.heard, ha]
      have hkept : (s.subscriptions.filter fun b => b.objectIdentifier ≠ box.objectIdentifier).filter (s.kept boxes) =
          s.subscriptions.filter (s.kept (box :: boxes)) := by
        rw [List.filter_filter]
        refine List.filter_congr fun b _ => ?_
        simp [Heap.kept, ha, Bool.and_comm]
      rw [if_neg ha, hheard, ← hkept]
      rfl

end didSet

theorem dispatch_eq (s : Heap) (action : Action) (currentTime : ℚ) (order : List SubscriptionBox) :
    s.dispatch action currentTime order =
      let newState := Swift.counterReducer s.state action currentTime
      { s with
        state := newState
        queue := s.queue ++ notifications (some s.state) newState (s.heard order)
        subscriptions := s.subscriptions.filter (s.kept order)
        changes := if s.state = newState then s.changes else s.changes ++ [newState] } := by
  rw [Heap.dispatch, didSet_eq]
  rfl

/-! ## Every live view store has its own box -/

structure Inv (s : Heap) : Prop where
  addresses : (s.objects.map (·.address)).Nodup
  ids : (s.objects.map (·.viewStore.id)).Nodup
  fresh : ∀ o ∈ s.objects, o.viewStore.id < s.created
  queued : ∀ d ∈ s.queue, d.1 < s.created
  boxes : (s.subscriptions.map (·.objectIdentifier)).Nodup
  old : ∀ box ∈ s.subscriptions, box.subscriber < s.created
  subscribed : ∀ o ∈ s.objects, (⟨o.address, o.viewStore.id⟩ : SubscriptionBox) ∈ s.subscriptions
  own : ∀ box ∈ s.subscriptions, ∀ o ∈ s.objects, o.viewStore.id = box.subscriber → box.objectIdentifier = o.address

theorem Inv.init : Inv {} := by
  refine ⟨?_, ?_, ?_, ?_, ?_, ?_, ?_, ?_⟩ <;> simp

theorem Inv.create {s : Heap} (h : Inv s) {address : Nat} (ha : ∀ o ∈ s.objects, o.address ≠ address) :
    Inv (s.create address) := by
  have hnot : notifications none s.state [s.created] = [(s.created, s.state)] :=
    notifications_change (by simp) [s.created]
  refine ⟨?_, ?_, ?_, ?_, ?_, ?_, ?_, ?_⟩
  · exact Table.nodup_concat h.addresses ha
  · exact Table.nodup_concat h.ids fun o ho => Nat.ne_of_lt (h.fresh o ho)
  · intro o ho
    rcases List.mem_append.1 ho with ho | ho
    · exact Nat.lt_succ_of_lt (h.fresh o ho)
    · rw [List.mem_singleton.1 ho]
      exact Nat.lt_succ_self _
  · intro d hd
    simp only [Heap.create, hnot] at hd
    rcases List.mem_append.1 hd with hd | hd
    · exact Nat.lt_succ_of_lt (h.queued d hd)
    · rw [List.mem_singleton.1 hd]
      exact Nat.lt_succ_self _
  · refine Table.nodup_concat (h.boxes.sublist (List.filter_sublist.map _)) fun box hbox => ?_
    exact of_decide_eq_true (List.mem_filter.1 hbox).2
  · intro box hbox
    rcases List.mem_append.1 hbox with hbox | hbox
    · exact Nat.lt_succ_of_lt (h.old box (List.mem_filter.1 hbox).1)
    · rw [List.mem_singleton.1 hbox]
      exact Nat.lt_succ_self _
  · intro o ho
    rcases List.mem_append.1 ho with ho | ho
    · -- the box of another view store has another address, so it is not replaced
      exact List.mem_append_left _ (List.mem_filter.2 ⟨h.subscribed o ho, decide_eq_true (ha o ho)⟩)
    · rw [List.mem_singleton.1 ho]
      exact List.mem_append_right _ (List.mem_singleton.2 rfl)
  · intro box hbox o ho he
    rcases List.mem_append.1 hbox with hbox | hbox <;> rcases List.mem_append.1 ho with ho | ho
    · exact h.own box (List.mem_filter.1 hbox).1 o ho he
    · rw [List.mem_singleton.1 ho] at he
      exact absurd he.symm (Nat.ne_of_lt (h.old box (List.mem_filter.1 hbox).1))
    · rw [List.mem_singleton.1 hbox] at he
      exact absurd he (Nat.ne_of_lt (h.fresh o ho))
    · rw [List.mem_singleton.1 hbox, List.mem_singleton.1 ho]

theorem Inv.box_eq {s : Heap} (h : Inv s) {box : SubscriptionBox} (hb : box ∈ s.subscriptions) {o : Object}
    (ho : o ∈ s.objects) (he : o.viewStore.id = box.subscriber) : box = ⟨o.address, o.viewStore.id⟩ := by
  have hown := h.own box hb o ho he
  cases box
  simp only at hown he
  rw [hown, he]

/-- The box of a live view store is not taken for a dead one. -/
theorem Inv.kept {s : Heap} (h : Inv s) {box : SubscriptionBox} (hb : box ∈ s.subscriptions) {order : List SubscriptionBox}
    (ho : order.Perm s.subscriptions) : s.kept order box = s.isAlive box.subscriber := by
  rw [Bool.eq_iff_iff, Heap.kept, List.all_eq_true]
  constructor
  · intro hall
    simpa using hall box (ho.mem_iff.2 hb)
  · intro ha other hother
    by_cases he : box.objectIdentifier = other.objectIdentifier
    · obtain rfl : box = other := List.inj_on_of_nodup_map h.boxes hb (ho.mem_iff.1 hother) he
      simp [ha]
    · simp [he]

/-- The view stores that hear of a dispatch are the live ones, each once. -/
theorem Inv.heard {s : Heap} (h : Inv s) {order : List SubscriptionBox} (ho : order.Perm s.subscriptions) :
    (s.heard order).Perm (s.objects.map (·.viewStore.id)) := by
  have hmem : ∀ box ∈ order, s.isAlive box.subscriber →
      ∃ o ∈ s.objects, box = ⟨o.address, o.viewStore.id⟩ := by
    intro box hbox ha
    obtain ⟨o, hobj, he⟩ := isAlive_iff.1 ha
    exact ⟨o, hobj, h.box_eq (ho.mem_iff.1 hbox) hobj he⟩
  refine (List.perm_ext_iff_of_nodup ?_ h.ids).2 fun i => ⟨?_, ?_⟩
  · refine List.Nodup.map_on ?_ ((ho.nodup_iff.2 (List.Nodup.of_map _ h.boxes)).filter _)
    intro b hb b' hb' he
    obtain ⟨o, hobj, rfl⟩ := hmem b (List.mem_filter.1 hb).1 (List.mem_filter.1 hb).2
    obtain ⟨o', hobj', rfl⟩ := hmem b' (List.mem_filter.1 hb').1 (List.mem_filter.1 hb').2
    obtain rfl : o = o' := List.inj_on_of_nodup_map h.ids hobj hobj' he
    rfl
  · intro hi
    obtain ⟨box, hbox, rfl⟩ := List.mem_map.1 hi
    obtain ⟨o, hobj, rfl⟩ := hmem box (List.mem_filter.1 hbox).1 (List.mem_filter.1 hbox).2
    exact List.mem_map.2 ⟨o, hobj, rfl⟩
  · intro hi
    obtain ⟨o, hobj, rfl⟩ := List.mem_map.1 hi
    refine List.mem_map.2 ⟨⟨o.address, o.viewStore.id⟩, List.mem_filter.2 ⟨?_, ?_⟩, rfl⟩
    · exact ho.mem_iff.2 (h.subscribed o hobj)
    · exact isAlive_iff.2 ⟨o, hobj, rfl⟩

theorem mem_notifications {oldState : Option State} {newState : State} {subscribers : List Nat} {d : Nat × State}
    (hd : d ∈ notifications oldState newState subscribers) : d.1 ∈ subscribers := by
  unfold notifications at hd
  split at hd
  · obtain ⟨i, hi, rfl⟩ := List.mem_map.1 hd
    exact hi
  · cases hd

theorem Inv.dispatch {s : Heap} (h : Inv s) (action : Action) (currentTime : ℚ) {order : List SubscriptionBox}
    (ho : order.Perm s.subscriptions) : Inv (s.dispatch action currentTime order) := by
  rw [dispatch_eq]
  refine ⟨h.addresses, h.ids, h.fresh, ?_, ?_, ?_, ?_, ?_⟩
  · intro d hd
    rcases List.mem_append.1 hd with hd | hd
    · exact h.queued d hd
    · obtain ⟨o, hobj, he⟩ := List.mem_map.1 ((h.heard ho).mem_iff.1 (mem_notifications hd))
      exact he ▸ h.fresh o hobj
  · exact h.boxes.sublist (List.filter_sublist.map _)
  · exact fun box hbox => h.old box (List.mem_filter.1 hbox).1
  · intro o hobj
    refine List.mem_filter.2 ⟨h.subscribed o hobj, ?_⟩
    rw [h.kept (h.subscribed o hobj) ho]
    exact isAlive_iff.2 ⟨o, hobj, rfl⟩
  · exact fun box hbox => h.own box (List.mem_filter.1 hbox).1

/-- A delivery changes what an object has shown and nothing else. -/
theorem mem_deliver {s : Heap} {d : Nat × State} {queue : List (Nat × State)} {o : Object}
    (ho : o ∈ (s.deliver d queue).objects) : ∃ p ∈ s.objects, o.address = p.address ∧ o.since = p.since ∧
      o.viewStore = if p.viewStore.id = d.1 then p.viewStore.receive d.2 else p.viewStore := by
  obtain ⟨p, hp, rfl⟩ := List.mem_map.1 ho
  refine ⟨p, hp, ?_⟩
  split <;> exact ⟨rfl, rfl, rfl⟩

theorem Inv.deliver {s : Heap} (h : Inv s) {d : Nat × State} {queue : List (Nat × State)}
    (hq : s.queue = d :: queue) : Inv (s.deliver d queue) := by
  have haddress : (s.deliver d queue).objects.map (·.address) = s.objects.map (·.address) :=
    Table.map_update (f := fun o => { o with viewStore := o.viewStore.receive d.2 }) (fun _ _ => rfl) s.objects
  have hid : (s.deliver d queue).objects.map (·.viewStore.id) = s.objects.map (·.viewStore.id) :=
    Table.map_update (f := fun o => { o with viewStore := o.viewStore.receive d.2 }) (fun _ _ => rfl) s.objects
  have hpid : ∀ o ∈ (s.deliver d queue).objects, ∃ p ∈ s.objects,
      o.address = p.address ∧ o.viewStore.id = p.viewStore.id := by
    intro o ho
    obtain ⟨p, hp, ha, -, hv⟩ := mem_deliver ho
    refine ⟨p, hp, ha, ?_⟩
    rw [hv]
    split <;> rfl
  refine ⟨haddress ▸ h.addresses, hid ▸ h.ids, ?_, ?_, h.boxes, h.old, ?_, ?_⟩
  · intro o ho
    obtain ⟨p, hp, -, hi⟩ := hpid o ho
    exact hi ▸ h.fresh p hp
  · exact fun e he => h.queued e (hq ▸ List.mem_cons_of_mem d he)
  · intro o ho
    obtain ⟨p, hp, ha, hi⟩ := hpid o ho
    rw [ha, hi]
    exact h.subscribed p hp
  · intro box hbox o ho he
    obtain ⟨p, hp, ha, hi⟩ := hpid o ho
    rw [ha]
    exact h.own box hbox p hp (hi ▸ he)

theorem unsubscribe_sublist (subscriptions : List SubscriptionBox) (id : Nat) (found : Bool) :
    (unsubscribe subscriptions id found).Sublist subscriptions := by
  unfold unsubscribe
  split
  · exact List.eraseP_sublist
  · exact List.Sublist.refl subscriptions

theorem mem_unsubscribe {subscriptions : List SubscriptionBox} {box : SubscriptionBox} {id : Nat}
    (hb : box ∈ subscriptions) (hne : box.subscriber ≠ id) (found : Bool) :
    box ∈ unsubscribe subscriptions id found := by
  unfold unsubscribe
  split
  · exact (List.mem_eraseP_of_neg (by simpa using hne)).2 hb
  · exact hb

theorem Inv.deinit {s : Heap} (h : Inv s) (id : Nat) (found : Bool) : Inv (s.deinit id found) where
  addresses := h.addresses.sublist (List.filter_sublist.map _)
  ids := h.ids.sublist (List.filter_sublist.map _)
  fresh o ho := h.fresh o (List.mem_filter.1 ho).1
  queued := h.queued
  boxes := h.boxes.sublist ((unsubscribe_sublist s.subscriptions id found).map _)
  old box hbox := h.old box ((unsubscribe_sublist s.subscriptions id found).subset hbox)
  subscribed o ho := by
    obtain ⟨hobj, hne⟩ := List.mem_filter.1 ho
    exact mem_unsubscribe (h.subscribed o hobj) (of_decide_eq_true hne) found
  own box hbox o ho := h.own box ((unsubscribe_sublist s.subscriptions id found).subset hbox) o (List.mem_filter.1 ho).1

theorem inv_inductive : heap.Inductive Inv where
  init := .init
  step := by
    intro s e t h ht
    rcases heap_step_cases ht with ⟨address, -, ha, rfl⟩ | ⟨action, currentTime, order, -, ho, rfl⟩ |
      ⟨d, queue, -, hq, rfl⟩ | ⟨id, found, -, -, -, rfl⟩
    · exact h.create ha
    · exact h.dispatch action currentTime ho
    · exact h.deliver hq
    · exact h.deinit id found

theorem Inv.filter_subscriptions {s : Heap} (h : Inv s) {o : Object} (ho : o ∈ s.objects) :
    s.subscriptions.filter (·.subscriber = o.viewStore.id) = [⟨o.address, o.viewStore.id⟩] := by
  have hnodup : (s.subscriptions.filter (·.subscriber = o.viewStore.id)).Nodup :=
    (List.Nodup.of_map _ h.boxes).filter _
  refine List.perm_singleton.1 ((List.perm_ext_iff_of_nodup hnodup (List.nodup_singleton _)).2 fun box => ?_)
  rw [List.mem_filter, List.mem_singleton, decide_eq_true_iff]
  constructor
  · exact fun hb => h.box_eq hb.1 ho hb.2.symm
  · rintro rfl
    exact ⟨h.subscribed o ho, rfl⟩

theorem Inv.swept {s : Heap} (h : Inv s) (action : Action) (currentTime : ℚ) {order : List SubscriptionBox}
    (ho : order.Perm s.subscriptions) : (s.dispatch action currentTime order).subscriptions.Perm
      (s.objects.map fun o => ⟨o.address, o.viewStore.id⟩) := by
  have hobjects : (s.objects.map fun o => (⟨o.address, o.viewStore.id⟩ : SubscriptionBox)).Nodup :=
    List.Nodup.of_map (·.objectIdentifier) (by simpa [Function.comp_def] using h.addresses)
  rw [dispatch_eq]
  refine (List.perm_ext_iff_of_nodup ((List.Nodup.of_map _ h.boxes).filter _) hobjects).2 fun box => ⟨?_, ?_⟩
  · intro hbox
    obtain ⟨hb, hk⟩ := List.mem_filter.1 hbox
    rw [h.kept hb ho] at hk
    obtain ⟨o, hobj, he⟩ := isAlive_iff.1 hk
    exact List.mem_map.2 ⟨o, hobj, (h.box_eq hb hobj he).symm⟩
  · intro hbox
    obtain ⟨o, hobj, rfl⟩ := List.mem_map.1 hbox
    refine List.mem_filter.2 ⟨h.subscribed o hobj, ?_⟩
    rw [h.kept (h.subscribed o hobj) ho]
    exact isAlive_iff.2 ⟨o, hobj, rfl⟩

/-- **Each live view store has one box, which it shares with none, and a dispatch sweeps out all other boxes.** -/
theorem reswift_boxes {s : Heap} (h : heap.Reachable s) :
    (∀ o ∈ s.objects, s.subscriptions.filter (·.subscriber = o.viewStore.id) = [⟨o.address, o.viewStore.id⟩]) ∧
    (s.subscriptions.map (·.objectIdentifier)).Nodup ∧
    ∀ {t action currentTime order}, heap.step s (.dispatch action currentTime order) = some t →
      t.subscriptions.Perm (s.objects.map fun o => ⟨o.address, o.viewStore.id⟩) := by
  have hi := inv_inductive.reachable h
  refine ⟨fun o ho => hi.filter_subscriptions ho, hi.boxes, ?_⟩
  intro t action currentTime order ht
  obtain ⟨ho, ht⟩ := Option.ite_none_right_eq_some.1 ht
  cases ht
  exact hi.swept action currentTime ho

/-- A box outlives its view store, and the next one comes to the same address and to another. -/
theorem reswift_boxes_reused :
    ∃ s : Heap, heap.run {} [.create 5, .create 6, .deliver, .deliver, .deinit 0 false, .deinit 1 false, .create 5] =
        some s ∧
      s.subscriptions = [⟨6, 1⟩, ⟨5, 2⟩] ∧ (s.subscriptions.map (·.objectIdentifier)).Nodup := by
  let s : Heap := ⟨.initial, [⟨6, 1⟩, ⟨5, 2⟩], [⟨5, ⟨2, .initial, [.initial]⟩, 0⟩], [(2, .initial)], 3, [.initial]⟩
  have hrun : heap.run {} [.create 5, .create 6, .deliver, .deliver, .deinit 0 false, .deinit 1 false, .create 5] =
      some s := rfl
  exact ⟨s, hrun, rfl, (reswift_boxes ⟨_, hrun⟩).2.1⟩

/-! ## The store of the view stores -/

/-- The main thread of `Counter/ViewStore`, for which only the subscribers that are still there exist. -/
structure Refines (s : Heap) (t : MainThread) : Prop where
  state : t.state = s.state
  subscriptions : t.subscriptions = s.objects.map (·.viewStore.id)
  viewStores : t.viewStores = s.objects.map (·.viewStore)
  queue : t.queue = s.queue
  created : t.created = s.created

theorem Refines.eq {s : Heap} {t : MainThread} (h : Refines s t) : t = ⟨s.state, s.objects.map (·.viewStore.id),
    s.objects.map (·.viewStore), s.queue, s.created⟩ := by
  obtain ⟨h1, h2, h3, h4, h5⟩ := h
  rw [← h1, ← h2, ← h3, ← h4, ← h5]

theorem refines_step {s s' : Heap} {e : Event} {t : MainThread} (hi : Inv s) (hr : Refines s t)
    (h : heap.step s e = some s') : ∃ t', mainThread.Steps t t' ∧ Refines s' t' := by
  obtain rfl := hr.eq
  rcases heap_step_cases h with ⟨address, -, ha, rfl⟩ | ⟨action, currentTime, order, -, ho, rfl⟩ |
    ⟨d, queue, -, hq, rfl⟩ | ⟨id, found, -, -, ha, rfl⟩
  · refine ⟨_, Lts.Steps.single (e := ViewStores.Event.create) rfl, ⟨rfl, ?_, ?_, rfl, rfl⟩⟩ <;> simp [Heap.create]
  · refine ⟨_, Lts.Steps.single (e := ViewStores.Event.dispatch action currentTime (s.heard order))
      (if_pos (hi.heard ho)), ?_⟩
    rw [dispatch_eq]
    exact ⟨rfl, rfl, rfl, rfl, rfl⟩
  · have hstep : mainThread.step ⟨s.state, s.objects.map (·.viewStore.id), s.objects.map (·.viewStore), s.queue,
        s.created⟩ .deliver = some ⟨s.state, s.objects.map (·.viewStore.id),
          (s.objects.map (·.viewStore)).map fun v => if v.id = d.1 then v.receive d.2 else v, queue, s.created⟩ := by
      rw [hq]
      rfl
    refine ⟨_, Lts.Steps.single hstep, ⟨rfl, ?_, ?_, rfl, rfl⟩⟩ <;> simp only [Heap.deliver, List.map_map] <;>
      refine List.map_congr_left fun o _ => ?_ <;> simp only [Function.comp_apply] <;> split <;> rfl
  · refine ⟨_, Lts.Steps.single (e := ViewStores.Event.deinit id) (if_pos ha), ⟨rfl, ?_, ?_, rfl, rfl⟩⟩ <;>
      simp only [Heap.deinit, List.filter_map] <;> rfl

theorem refines_simulation : Lts.Simulation heap mainThread fun s t => Inv s ∧ Refines s t where
  init := ⟨.init, rfl, rfl, rfl, rfl, rfl⟩
  step := by
    intro s e s' t hr he
    obtain ⟨t', hs, hr'⟩ := refines_step hr.1 hr.2 he
    exact ⟨t', hs, inv_inductive.step s e s' hr.1 he, hr'⟩

/-- **The boxes do not show**: what a run makes of the view stores, a run without boxes makes of them. -/
theorem reswift_refines {s : Heap} (h : heap.Reachable s) : ∃ t, mainThread.Reachable t ∧ Refines s t := by
  obtain ⟨t, ht, hr⟩ := refines_simulation.reachable h
  exact ⟨t, ht, hr.2⟩

/-- A dead box is still in the set. -/
theorem reswift_refines_dead :
    ∃ s : Heap, ∃ t, heap.run {} [.create 5, .deliver, .deinit 0 false, .create 6] = some s ∧
      s.subscriptions = [⟨5, 0⟩, ⟨6, 1⟩] ∧ mainThread.Reachable t ∧ Refines s t := by
  have hrun : heap.run {} [.create 5, .deliver, .deinit 0 false, .create 6] =
      some ⟨.initial, [⟨5, 0⟩, ⟨6, 1⟩], [⟨6, ⟨1, .initial, [.initial]⟩, 0⟩], [(1, .initial)], 2, [.initial]⟩ := rfl
  obtain ⟨t, ht, hr⟩ := reswift_refines ⟨_, hrun⟩
  exact ⟨_, t, hrun, rfl, ht, hr⟩

/-- With nothing queued for it a view store shows the store's state. -/
theorem caught_up {s : Heap} (h : heap.Reachable s) {o : Object} (ho : o ∈ s.objects)
    (hq : addressed s.queue o.viewStore.id = []) : o.viewStore.state = s.state := by
  obtain ⟨t, ht, -, hr⟩ := refines_simulation.reachable h
  have hi := ViewStores.inv_inductive.reachable ht
  have hv : o.viewStore ∈ t.viewStores := by
    rw [hr.viewStores]
    exact List.mem_map.2 ⟨o, ho, rfl⟩
  have hlag := hi.lagging o.viewStore hv
  rw [hr.queue, hq, hr.state] at hlag
  exact Option.some.inj ((hi.state _ hv).symm.trans hlag.caught_up)

/-! ## One step of the store, for what is built on it -/

theorem state_of_dispatch {s t : Heap} {action : Action} {currentTime : ℚ} {order : List SubscriptionBox}
    (h : heap.step s (.dispatch action currentTime order) = some t) :
    t.state = Swift.counterReducer s.state action currentTime := by
  obtain ⟨-, ht⟩ := Option.ite_none_right_eq_some.1 h
  cases ht
  rw [dispatch_eq]

theorem state_of_step {s t : Heap} {e : Event} (h : heap.step s e = some t)
    (hn : ∀ action currentTime order, e ≠ .dispatch action currentTime order) : t.state = s.state := by
  rcases heap_step_cases h with ⟨address, -, -, rfl⟩ | ⟨action, currentTime, order, he, -, -⟩ |
    ⟨d, queue, -, -, rfl⟩ | ⟨id, found, -, -, -, rfl⟩
  · rfl
  · exact absurd he (hn action currentTime order)
  · rfl
  · rfl

theorem isAlive_step {s t : Heap} {e : Event} (h : heap.step s e = some t) {id : Nat} (ha : s.isAlive id)
    (hn : ∀ found, e ≠ .deinit id found) : t.isAlive id := by
  obtain ⟨o, ho, hid⟩ := isAlive_iff.1 ha
  refine isAlive_iff.2 ?_
  rcases heap_step_cases h with ⟨address, rfl, -, rfl⟩ | ⟨action, currentTime, order, rfl, -, rfl⟩ |
    ⟨d, queue, rfl, -, rfl⟩ | ⟨i, found, rfl, -, -, rfl⟩
  · exact ⟨o, List.mem_append_left _ ho, hid⟩
  · rw [dispatch_eq]
    exact ⟨o, ho, hid⟩
  · refine ⟨_, List.mem_map.2 ⟨o, ho, rfl⟩, ?_⟩
    split <;> exact hid
  · refine ⟨o, List.mem_filter.2 ⟨ho, decide_eq_true ?_⟩, hid⟩
    rintro rfl
    exact hn found (congrArg (Event.deinit · found) hid.symm ▸ rfl)

/-! ## Exactly once -/

/-- What each view store has shown and has queued are the changes since its creation; the first of them came twice. -/
structure Told (s : Heap) : Prop where
  last : s.changes.getLast? = some s.state
  told : ∀ o ∈ s.objects, ∃ first rest, s.changes.drop o.since = first :: rest ∧
    o.viewStore.shown ++ addressed s.queue o.viewStore.id = first :: first :: rest

theorem told_step {s t : Heap} {e : Event} (hi : Inv s) (h : Told s) (ht : heap.step s e = some t) : Told t := by
  rcases heap_step_cases ht with ⟨address, -, ha, rfl⟩ | ⟨action, currentTime, order, -, ho, rfl⟩ |
    ⟨d, queue, -, hq, rfl⟩ | ⟨id, found, -, -, ha, rfl⟩
  · refine ⟨h.last, ?_⟩
    intro o ho
    have hnot : notifications none s.state [s.created] = [(s.created, s.state)] :=
      notifications_change (by simp) [s.created]
    simp only [Heap.create, hnot, addressed_append]
    rcases List.mem_append.1 ho with ho | ho
    · rw [addressed_cons_ne (Nat.ne_of_gt (hi.fresh o ho)), addressed_nil, List.append_nil]
      exact h.told o ho
    · have hnew : addressed s.queue s.created = [] :=
        addressed_of_forall_ne fun d hd => Nat.ne_of_lt (hi.queued d hd)
      obtain ⟨pre, hpre⟩ := List.getLast?_eq_some_iff.1 h.last
      rw [List.mem_singleton.1 ho, hnew, addressed_cons_self]
      exact ⟨s.state, [], by simp [hpre], rfl⟩
  · rw [dispatch_eq]
    by_cases he : s.state = Swift.counterReducer s.state action currentTime
    · simp only [if_pos he]
      rw [← he, notifications_repeat, List.append_nil]
      exact ⟨h.last, h.told⟩
    · simp only [if_neg he]
      refine ⟨List.getLast?_concat, ?_⟩
      intro o hobj
      obtain ⟨first, rest, hdrop, hshown⟩ := h.told o hobj
      have hlen : o.since ≤ s.changes.length := by
        by_contra hlt
        rw [List.drop_eq_nil_of_le (by omega)] at hdrop
        cases hdrop
      have hmem : o.viewStore.id ∈ s.heard order :=
        (hi.heard ho).mem_iff.2 (List.mem_map.2 ⟨o, hobj, rfl⟩)
      have hnodup : (s.heard order).Nodup := (hi.heard ho).nodup_iff.2 hi.ids
      refine ⟨first, rest ++ [Swift.counterReducer s.state action currentTime], ?_, ?_⟩
      · simp only
        rw [List.drop_append_of_le_length hlen, hdrop, List.cons_append]
      · simp only
        rw [notifications_change (fun hs => he (Option.some.inj hs)), addressed_append, addressed_broadcast hnodup hmem,
          ← List.append_assoc, hshown]
        rfl
  · refine ⟨h.last, ?_⟩
    intro o ho
    obtain ⟨p, hp, -, hsince, hv⟩ := mem_deliver ho
    obtain ⟨first, rest, hdrop, hshown⟩ := h.told p hp
    rw [hq] at hshown
    refine ⟨first, rest, by rw [hsince]; exact hdrop, ?_⟩
    rw [← hshown, hv]
    by_cases he : p.viewStore.id = d.1
    · obtain ⟨i, x⟩ := d
      obtain rfl : p.viewStore.id = i := he
      simp [ViewStore.receive, Heap.deliver]
    · obtain ⟨i, x⟩ := d
      rw [if_neg he, addressed_cons_ne (Ne.symm he)]
      rfl
  · exact ⟨h.last, fun o ho => h.told o (List.mem_filter.1 ho).1⟩

theorem told_inductive : heap.Inductive fun s => Inv s ∧ Told s :=
  inv_inductive.strengthen ⟨rfl, by simp [heap]⟩ fun hi _ h ht => told_step hi h ht

/-- **Exactly once**: a view store is told the state at its creation twice and every later change once, in order. -/
theorem reswift_exact {s : Heap} (h : heap.Reachable s) {o : Object} (ho : o ∈ s.objects) :
    s.changes.getLast? = some s.state ∧
    ∃ first rest, s.changes.drop o.since = first :: rest ∧
      o.viewStore.shown ++ addressed s.queue o.viewStore.id = first :: first :: rest := by
  have htold := (told_inductive.reachable h).2
  exact ⟨htold.last, htold.told o ho⟩

/-- The second view store comes after the increment: 1 twice, and the other action changes nothing. -/
theorem reswift_exact_second :
    ∃ s : Heap, ∃ o ∈ s.objects,
      heap.run {} [.create 5, .dispatch .increment 7 [⟨5, 0⟩], .create 9, .dispatch .other 7 [⟨9, 1⟩, ⟨5, 0⟩],
        .deliver, .deliver] = some s ∧
      s.changes.getLast? = some s.state ∧
      ∃ first rest, s.changes.drop o.since = first :: rest ∧
        o.viewStore.shown ++ addressed s.queue o.viewStore.id = first :: first :: rest := by
  let one : State := Swift.counterReducer .initial .increment 7
  let o : Object := ⟨9, ⟨1, one, [one]⟩, 1⟩
  let s : Heap := ⟨one, [⟨5, 0⟩, ⟨9, 1⟩], [⟨5, ⟨0, one, [.initial, .initial, one]⟩, 0⟩, o], [(1, one)], 2,
    [.initial, one]⟩
  have hrun : heap.run {} [.create 5, .dispatch .increment 7 [⟨5, 0⟩], .create 9,
      .dispatch .other 7 [⟨9, 1⟩, ⟨5, 0⟩], .deliver, .deliver] = some s := rfl
  have ho : o ∈ s.objects := List.mem_cons_of_mem _ List.mem_cons_self
  exact ⟨s, o, ho, hrun, reswift_exact ⟨_, hrun⟩ ho⟩

end CrossplatformBenchmark.ReSwift
