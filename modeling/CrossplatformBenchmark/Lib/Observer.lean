import Mathlib

/-!
# Observers that lag behind a value

A value changes along a relation `r`; each observer is told of the changes through a queue shared by all of them, in
order. What an observer has shown, followed by what is still addressed to it, is a chain along `r` that ends in the
current value: nothing is lost, nothing overtakes, and with nothing left to deliver the observer has caught up.

* `Lagging.notify`, `Lagging.deliver` — kept by a change that is announced, and by its delivery.
* `Lagging.sorted`, `Lagging.below`, `Lagging.caught_up` — what it says about the observer.
* `addressed` — the part of a shared queue that goes to one observer.
-/

namespace Observer

variable {S ι : Type*} {r : S → S → Prop}

/-- An observer that has shown `shown`, with `queued` on its way, of a value that is now `current`. -/
structure Lagging (r : S → S → Prop) (shown queued : List S) (current : S) : Prop where
  chain : (shown ++ queued).IsChain r
  last : (shown ++ queued).getLast? = some current

variable {shown queued : List S} {x current new : S}

/-- A new observer shows the current value. -/
theorem Lagging.start (current : S) : Lagging r [current] [] current := ⟨.singleton current, rfl⟩

theorem Lagging.notify (h : Lagging r shown queued current) (hr : r current new) :
    Lagging r shown (queued ++ [new]) new where
  chain := by
    rw [← List.append_assoc, List.isChain_append]
    refine ⟨h.chain, .singleton new, ?_⟩
    intro y hy z hz
    obtain rfl : current = y := Option.some.inj (h.last.symm.trans hy)
    obtain rfl : new = z := by simpa using hz
    exact hr
  last := by rw [← List.append_assoc, List.getLast?_concat]

theorem Lagging.deliver (h : Lagging r shown (x :: queued) current) : Lagging r (shown ++ [x]) queued current where
  chain := by simpa using h.chain
  last := by simpa using h.last

theorem Lagging.caught_up (h : Lagging r shown [] current) : shown.getLast? = some current := by
  simpa using h.last

/-- An observer never goes back. -/
theorem Lagging.sorted [IsTrans S r] (h : Lagging r shown queued current) : shown.Pairwise r :=
  (List.pairwise_append.1 (List.isChain_iff_pairwise.1 h.chain)).1

/-- An observer is never ahead. -/
theorem Lagging.below [IsPreorder S r] (h : Lagging r shown queued current) : ∀ y ∈ shown, r y current := by
  intro y hy
  obtain ⟨pre, hpre⟩ := List.getLast?_eq_some_iff.1 h.last
  have hsorted := List.isChain_iff_pairwise.1 h.chain
  have hmem : y ∈ shown ++ queued := List.mem_append_left _ hy
  rw [hpre] at hsorted hmem
  rcases List.mem_append.1 hmem with hm | hm
  · exact (List.pairwise_append.1 hsorted).2.2 y hm current (List.mem_singleton.2 rfl)
  · rw [List.mem_singleton.1 hm]
    exact refl current

/-! ## A shared queue -/

variable [DecidableEq ι]

/-- What of the queue goes to `i`, oldest first. -/
def addressed (queue : List (ι × S)) (i : ι) : List S := (queue.filter fun d => d.1 = i).map Prod.snd

theorem addressed_append (q q' : List (ι × S)) (i : ι) : addressed (q ++ q') i = addressed q i ++ addressed q' i := by
  simp [addressed]

@[simp] theorem addressed_nil (i : ι) : addressed ([] : List (ι × S)) i = [] := rfl

@[simp] theorem addressed_cons_self (i : ι) (x : S) (q : List (ι × S)) :
    addressed ((i, x) :: q) i = x :: addressed q i := by
  simp [addressed]

theorem addressed_cons_ne {i j : ι} (h : j ≠ i) (x : S) (q : List (ι × S)) :
    addressed ((j, x) :: q) i = addressed q i := by
  simp [addressed, h]

/-- Nothing goes to an address that no entry carries. -/
theorem addressed_of_forall_ne {q : List (ι × S)} {i : ι} (h : ∀ d ∈ q, d.1 ≠ i) : addressed q i = [] := by
  rw [addressed, List.filter_eq_nil_iff.2 (by simpa using h), List.map_nil]

/-- A broadcast reaches each of its recipients once. -/
theorem addressed_broadcast {is : List ι} (hn : is.Nodup) {i : ι} (hi : i ∈ is) (x : S) :
    addressed (is.map fun j => (j, x)) i = [x] := by
  induction is with
  | nil => cases hi
  | cons j is ih =>
    obtain ⟨hj, hn⟩ := List.nodup_cons.1 hn
    rw [List.map_cons]
    rcases List.mem_cons.1 hi with rfl | hi
    · have hrest : addressed (is.map fun j => (j, x)) i = [] := by
        refine addressed_of_forall_ne fun d hd he => ?_
        obtain ⟨k, hk, rfl⟩ := List.mem_map.1 hd
        exact hj (he ▸ hk)
      rw [addressed_cons_self, hrest]
    · have hne : j ≠ i := fun he => hj (he ▸ hi)
      rw [addressed_cons_ne hne, ih hn hi]

end Observer
