import CrossplatformBenchmark.Lib.Transition

/-!
# Threads that take turns

A program is a shared state and what a thread does with it: an operation starts at a program point, and at each point
the thread runs one critical section, during which nothing else happens. It goes on from the points that the section
returns: one, none at its end, or several where it hands work to another queue. A pool is the shared state with the
points of the threads under way. Any of them may be the next to run, so that an event list is an interleaving.

* `pool_inductive` — an invariant of the shared state, and an assertion for each point that no critical section of
  another thread falsifies.
* `conserved` — a quantity that the threads hand to each other through the shared state is neither lost nor doubled.
-/

namespace Threads

open Transition

structure Program (σ π ι : Type*) where
  init : σ
  /-- What an operation does at once, and where it goes on. -/
  start : σ → ι → Option (σ × List π)
  /-- The critical section at a point. -/
  next : σ → π → Option (σ × List π)

/-- The shared state and the threads under way. -/
structure Pool (σ π : Type*) where
  shared : σ
  points : List π := []

inductive Event (ι : Type*) where
  | start (operation : ι)
  | turn (i : Nat)

variable {σ π ι : Type*} (P : Program σ π ι)

def Pool.step (s : Pool σ π) : Event ι → Option (Pool σ π)
  | .start operation => (P.start s.shared operation).map fun r => ⟨r.1, s.points ++ r.2⟩
  | .turn i => s.points[i]?.bind fun p => (P.next s.shared p).map fun r => ⟨r.1, s.points.eraseIdx i ++ r.2⟩

def pool : Lts (Pool σ π) (Event ι) := ⟨⟨P.init, []⟩, Pool.step P⟩

variable {P}

theorem step_cases {s t : Pool σ π} {e : Event ι} (h : (pool P).step s e = some t) :
    (∃ operation r, e = .start operation ∧ P.start s.shared operation = some r ∧ t = ⟨r.1, s.points ++ r.2⟩) ∨
    (∃ i p r, e = .turn i ∧ s.points[i]? = some p ∧ P.next s.shared p = some r ∧
      t = ⟨r.1, s.points.eraseIdx i ++ r.2⟩) := by
  cases e with
  | start operation =>
    obtain ⟨r, hr, rfl⟩ := Option.map_eq_some_iff.1 h
    exact .inl ⟨operation, r, rfl, hr, rfl⟩
  | turn i =>
    obtain ⟨p, hp, h⟩ := Option.bind_eq_some_iff.1 h
    obtain ⟨r, hr, rfl⟩ := Option.map_eq_some_iff.1 h
    exact .inr ⟨i, p, r, rfl, hp, hr, rfl⟩

theorem step_turn {s : Pool σ π} {i : Nat} {p : π} {r : σ × List π} (hp : s.points[i]? = some p)
    (hr : P.next s.shared p = some r) :
    (pool P).step s (.turn i) = some ⟨r.1, s.points.eraseIdx i ++ r.2⟩ := by
  simp [pool, Pool.step, hp, hr]

/-- The other threads. -/
theorem mem_or_mem_eraseIdx {l : List π} {i : Nat} {p q : π} (h : l[i]? = some p) (hq : q ∈ l) :
    q = p ∨ q ∈ l.eraseIdx i := by
  obtain ⟨hi, rfl⟩ := List.getElem?_eq_some_iff.1 h
  exact List.mem_cons.1 ((List.getElem_cons_eraseIdx_perm hi).mem_iff.2 hq)

/-- **Invariants of interleavings.** `I` holds of the shared state and `A` at each point, if every critical section
keeps `I`, establishes `A` where its own thread goes on, and keeps `A` where the others are. -/
theorem pool_inductive {I : σ → Prop} {A : σ → π → Prop} (init : I P.init)
    (start : ∀ {s operation r}, I s → P.start s operation = some r →
      I r.1 ∧ (∀ p ∈ r.2, A r.1 p) ∧ ∀ p, A s p → A r.1 p)
    (turn : ∀ {s p r}, I s → A s p → P.next s p = some r → I r.1 ∧ (∀ q ∈ r.2, A r.1 q) ∧ ∀ q, A s q → A r.1 q) :
    (pool P).Inductive fun s => I s.shared ∧ ∀ p ∈ s.points, A s.shared p where
  init := ⟨init, by simp [pool]⟩
  step := by
    rintro s e t ⟨hI, hA⟩ hs
    rcases step_cases hs with ⟨operation, r, -, hr, rfl⟩ | ⟨i, p, r, -, hp, hr, rfl⟩
    · obtain ⟨hI', hnew, hkeep⟩ := start hI hr
      refine ⟨hI', fun q hq => ?_⟩
      rcases List.mem_append.1 hq with hq | hq
      · exact hkeep q (hA q hq)
      · exact hnew q hq
    · obtain ⟨hI', hnew, hkeep⟩ := turn hI (hA p (List.mem_of_getElem? hp)) hr
      refine ⟨hI', fun q hq => ?_⟩
      rcases List.mem_append.1 hq with hq | hq
      · exact hkeep q (hA q (List.mem_of_mem_eraseIdx hq))
      · exact hnew q hq

section conserved

variable {M : Type*}

theorem sum_eraseIdx [AddCommMonoid M] (w : π → M) {l : List π} {i : Nat} {p : π} (h : l[i]? = some p) :
    w p + ((l.eraseIdx i).map w).sum = (l.map w).sum := by
  obtain ⟨hi, rfl⟩ := List.getElem?_eq_some_iff.1 h
  have hperm : (l[i] :: l.eraseIdx i).Perm l := List.getElem_cons_eraseIdx_perm hi
  rw [← (hperm.map w).sum_eq, List.map_cons, List.sum_cons]

/-- What the threads at these points hold. -/
def held [AddCommMonoid M] (w : π → M) (points : List π) : M := (points.map w).sum

/-- What the shared state and the threads hold together. -/
def Pool.total [AddCommMonoid M] (m : σ → M) (w : π → M) (s : Pool σ π) : M := m s.shared + held w s.points

variable [AddCancelCommMonoid M]

/-- **Conservation.** If operations bring in what `issued` counts and critical sections pass it on or give it back, then
what the shared state and the threads hold together is what has been issued and not given back. -/
theorem conserved {I : σ → Prop} {A : σ → π → Prop} {m issued : σ → M} {w : π → M}
    (hI : (pool P).Inductive fun s => I s.shared ∧ ∀ p ∈ s.points, A s.shared p) (init : m P.init = issued P.init)
    (start : ∀ {s operation r}, I s → P.start s operation = some r →
      ∃ d, m r.1 + held w r.2 = m s + d ∧ issued r.1 = issued s + d)
    (turn : ∀ {s p r}, I s → A s p → (∃ rest, issued s = w p + rest) → P.next s p = some r →
      ∃ c, m r.1 + held w r.2 + c = m s + w p ∧ issued r.1 + c = issued s) :
    (pool P).Inductive fun s =>
      (I s.shared ∧ ∀ p ∈ s.points, A s.shared p) ∧ s.total m w = issued s.shared := by
  refine hI.strengthen ?_ ?_
  · simpa [Pool.total, pool, held] using init
  · rintro s e t ⟨hs, hA⟩ - heq hstep
    unfold Pool.total held at heq ⊢
    rcases step_cases hstep with ⟨operation, r, -, hr, rfl⟩ | ⟨i, p, r, -, hp, hr, rfl⟩
    · obtain ⟨d, hm, hd⟩ := start hs hr
      calc m r.1 + ((s.points ++ r.2).map w).sum
          = (m r.1 + held w r.2) + (s.points.map w).sum := by
            rw [held, List.map_append, List.sum_append, add_comm (s.points.map w).sum, add_assoc]
        _ = (m s.shared + (s.points.map w).sum) + d := by rw [hm, add_right_comm]
        _ = issued r.1 := by rw [heq, hd]
    · have hothers : m s.shared + w p + ((s.points.eraseIdx i).map w).sum = issued s.shared := by
        rw [add_assoc, sum_eraseIdx w hp, heq]
      obtain ⟨c, hm, hd⟩ := turn hs (hA p (List.mem_of_getElem? hp))
        ⟨m s.shared + ((s.points.eraseIdx i).map w).sum, by rw [← hothers, add_left_comm, add_assoc]⟩ hr
      refine add_right_cancel (b := c) ?_
      calc m r.1 + ((s.points.eraseIdx i ++ r.2).map w).sum + c
          = (m r.1 + held w r.2 + c) + ((s.points.eraseIdx i).map w).sum := by
            rw [held, List.map_append, List.sum_append]
            ac_rfl
        _ = m s.shared + w p + ((s.points.eraseIdx i).map w).sum := by rw [hm]
        _ = issued r.1 + c := by rw [hothers, hd]

end conserved

end Threads
