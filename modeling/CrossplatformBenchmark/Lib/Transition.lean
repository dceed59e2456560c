import Mathlib

/-!
# Labelled transition systems with a partial step

A system is an initial state and a deterministic step on events; `none` means the event is
not enabled. Nondeterminism lives in the choice of events, so a claim about every
interleaving is a claim about every event list.

* `Inductive.reachable` — an inductive predicate holds of every reachable state.
* `steps_of_variant` — some run leads to a state wanted, by a variant that some run decreases.
* `Simulation.reachable` — every reachable state is related to a reachable abstract one.
* `run_tally` — a quantity that each event raises by what it counts is the sum of these along the run.
* `run_erase` — events that one side does not notice can be taken out of a run.
* `always_iff_along` — a property holds all along a run exactly when each event of the run
  meets a condition, for a condition whose failure is visible at once.
-/

namespace Transition

/-- A system over states `σ` and events `ε`. -/
structure Lts (σ ε : Type*) where
  init : σ
  step : σ → ε → Option σ

namespace Lts

variable {σ ε τ δ : Type*} (M : Lts σ ε)

/-! ## Runs -/

/-- The state after the events, in order; `none` if one of them is not enabled. -/
def run : σ → List ε → Option σ
  | s, [] => some s
  | s, e :: es => (M.step s e).bind (run · es)

/-- `t` comes after `s` in some run. -/
def Steps (s t : σ) : Prop := ∃ es, M.run s es = some t

def Reachable (s : σ) : Prop := M.Steps M.init s

@[simp] theorem run_nil (s : σ) : M.run s [] = some s := rfl

theorem run_cons (s : σ) (e : ε) (es : List ε) : M.run s (e :: es) = (M.step s e).bind (M.run · es) := rfl

theorem run_cons_some {s t : σ} {e : ε} (h : M.step s e = some t) (es : List ε) :
    M.run s (e :: es) = M.run t es := by
  rw [run_cons, h]; rfl

theorem run_append (es fs : List ε) (s : σ) : M.run s (es ++ fs) = (M.run s es).bind (M.run · fs) := by
  induction es generalizing s with
  | nil => rfl
  | cons e es ih =>
    rw [List.cons_append, run_cons, run_cons]
    cases M.step s e with
    | none => rfl
    | some t => exact ih t

theorem Steps.refl (s : σ) : M.Steps s s := ⟨[], rfl⟩

variable {M}

theorem Steps.trans {s t u : σ} (h : M.Steps s t) (h' : M.Steps t u) : M.Steps s u := by
  obtain ⟨es, he⟩ := h
  obtain ⟨fs, hf⟩ := h'
  exact ⟨es ++ fs, by rw [run_append, he]; exact hf⟩

theorem Steps.single {s t : σ} {e : ε} (h : M.step s e = some t) : M.Steps s t :=
  ⟨[e], by rw [run_cons_some M h]; rfl⟩

theorem Reachable.init : M.Reachable M.init := Steps.refl M _

theorem Reachable.step {s t : σ} {e : ε} (h : M.Reachable s) (he : M.step s e = some t) : M.Reachable t :=
  Steps.trans h (Steps.single he)

/-- A state without a step is the last one of its run. -/
theorem Steps.of_stuck {s t : σ} (h : ∀ e, M.step s e = none) (hst : M.Steps s t) : t = s := by
  obtain ⟨es, he⟩ := hst
  cases es with
  | nil => exact (Option.some.inj he).symm
  | cons e es =>
    rw [run_cons, h e] at he
    cases he

/-! ## Inductive predicates -/

/-- `I` is kept by every step. -/
def Preserved (M : Lts σ ε) (I : σ → Prop) : Prop := ∀ s e t, I s → M.step s e = some t → I t

/-- `I` holds initially and is kept by every step. -/
structure Inductive (M : Lts σ ε) (I : σ → Prop) : Prop where
  init : I M.init
  step : M.Preserved I

theorem Preserved.run {I : σ → Prop} (h : M.Preserved I) :
    ∀ {es : List ε} {s t : σ}, I s → M.run s es = some t → I t
  | [], s, t, hs, he => by cases he; exact hs
  | e :: es, s, t, hs, he => by
    obtain ⟨u, hu, ht⟩ := Option.bind_eq_some_iff.1 he
    exact h.run (h s e u hs hu) ht

theorem Preserved.steps {I : σ → Prop} (h : M.Preserved I) {s t : σ} (hs : I s) (hst : M.Steps s t) : I t := by
  obtain ⟨es, he⟩ := hst
  exact h.run hs he

theorem Inductive.reachable {I : σ → Prop} (h : M.Inductive I) {s : σ} (hs : M.Reachable s) : I s :=
  Preserved.steps h.step h.init hs

/-! ## Counting -/

/-- What the events of a run count together, each in the state where it happens. -/
def tally (M : Lts σ ε) (count : σ → ε → Nat) : σ → List ε → Nat
  | _, [] => 0
  | s, e :: es => count s e + (M.step s e).elim 0 (M.tally count · es)

theorem run_tally {f : σ → Nat} {count : σ → ε → Nat} (h : ∀ {s e t}, M.step s e = some t → f t = f s + count s e) :
    ∀ {es : List ε} {s t : σ}, M.run s es = some t → f t = f s + M.tally count s es
  | [], s, t, he => by cases he; rfl
  | e :: es, s, t, he => by
    obtain ⟨u, hu, ht⟩ := Option.bind_eq_some_iff.1 he
    have hrest := run_tally h ht
    rw [tally, hu, Option.elim_some]
    rw [hrest, h hu, Nat.add_assoc]

/-- Preservation that leans on facts already known of every reachable state. -/
theorem Inductive.strengthen {I J : σ → Prop} (hI : M.Inductive I) (h0 : J M.init)
    (hJ : ∀ {s e t}, I s → I t → J s → M.step s e = some t → J t) : M.Inductive (fun s => I s ∧ J s) where
  init := ⟨hI.init, h0⟩
  step s e t hs he := ⟨hI.step s e t hs.1 he, hJ hs.1 (hI.step s e t hs.1 he) hs.2 he⟩

/-- **Reachability by a variant**: if from each `I`-state some run leads to `P` or to a smaller `I`-state, some run leads
to `P`. -/
theorem steps_of_variant {I P : σ → Prop} (μ : σ → Nat)
    (h : ∀ s, I s → P s ∨ ∃ t, M.Steps s t ∧ I t ∧ μ t < μ s) {s : σ} (hs : I s) : ∃ t, M.Steps s t ∧ I t ∧ P t := by
  induction hn : μ s using Nat.strong_induction_on generalizing s with
  | _ n ih =>
    rcases h s hs with hp | ⟨t, hst, ht, hlt⟩
    · exact ⟨s, Steps.refl M s, hs, hp⟩
    · obtain ⟨u, htu, hu, hp⟩ := ih (μ t) (hn ▸ hlt) ht rfl
      exact ⟨u, hst.trans htu, hu, hp⟩

/-- **Reachability by growth**: if from each `I`-state some run leads to `P` or lets a bounded quantity grow, some run
leads to `P`. -/
theorem steps_of_growth {I P : σ → Prop} (f : σ → Nat) (bound : Nat) (hf : ∀ s, I s → f s ≤ bound)
    (h : ∀ s, I s → P s ∨ ∃ t, M.Steps s t ∧ I t ∧ (P t ∨ f s < f t)) {s : σ} (hs : I s) :
    ∃ t, M.Steps s t ∧ I t ∧ P t := by
  classical
  refine steps_of_variant (fun s => if P s then 0 else bound + 1 - f s) ?_ hs
  intro u hu
  by_cases hp : P u
  · exact .inl hp
  · obtain ⟨v, huv, hv, hgrown⟩ := (h u hu).resolve_left hp
    have hle := hf v hv
    have hle' := hf u hu
    refine .inr ⟨v, huv, hv, ?_⟩
    simp only [if_neg hp]
    split
    · omega
    · rename_i hpv
      have hlt := hgrown.resolve_left hpv
      omega

/-- What no step undoes, no run undoes. -/
theorem steps_mono {r : σ → σ → Prop} [IsPreorder σ r] (h : ∀ s e t, M.step s e = some t → r s t) {s t : σ}
    (hst : M.Steps s t) : r s t := by
  have hkeep : M.Preserved (r s) := fun u e v hu hv => IsTrans.trans s u v hu (h u e v hv)
  exact hkeep.steps (refl s) hst

/-! ## Restricting the environment -/

/-- The runs of `M` whose events are all allowed by `ok` where they are taken. -/
def restrict (M : Lts σ ε) (ok : σ → ε → Bool) : Lts σ ε where
  init := M.init
  step s e := if ok s e then M.step s e else none

theorem restrict_step {ok : σ → ε → Bool} {s t : σ} {e : ε} :
    (M.restrict ok).step s e = some t ↔ ok s e = true ∧ M.step s e = some t := by
  simp [restrict]

theorem Steps.of_restrict {ok : σ → ε → Bool} {s t : σ} (h : (M.restrict ok).Steps s t) : M.Steps s t := by
  have hkeep : (M.restrict ok).Preserved (M.Steps s) :=
    fun _ _ _ hu hv => hu.trans (.single (restrict_step.1 hv).2)
  exact hkeep.steps (Steps.refl M s) h

/-! ## Simulation -/

/-- Each step of `M` is matched by a finite run of `N`, along `R`. -/
structure Simulation (M : Lts σ ε) (N : Lts τ δ) (R : σ → τ → Prop) : Prop where
  init : R M.init N.init
  step : ∀ {s e s' t}, R s t → M.step s e = some s' → ∃ t', N.Steps t t' ∧ R s' t'

theorem Simulation.run {N : Lts τ δ} {R : σ → τ → Prop} (h : Simulation M N R) :
    ∀ {es : List ε} {s s' : σ} {t : τ}, R s t → M.run s es = some s' → ∃ t', N.Steps t t' ∧ R s' t'
  | [], s, s', t, hr, he => by cases he; exact ⟨t, Steps.refl N t, hr⟩
  | e :: es, s, s', t, hr, he => by
    obtain ⟨u, hu, hs'⟩ := Option.bind_eq_some_iff.1 he
    obtain ⟨t1, h1, r1⟩ := h.step hr hu
    obtain ⟨t2, h2, r2⟩ := h.run r1 hs'
    exact ⟨t2, h1.trans h2, r2⟩

theorem Simulation.reachable {N : Lts τ δ} {R : σ → τ → Prop} (h : Simulation M N R) {s : σ}
    (hs : M.Reachable s) : ∃ t, N.Reachable t ∧ R s t := by
  obtain ⟨es, he⟩ := hs
  exact h.run h.init he

/-! ## Erasing events -/

/-- **Erasure**: events that leave a state where it is, along `R`, can be taken out of a run. -/
theorem run_erase {N : Lts τ ε} {R : σ → τ → Prop} {silent : ε → Bool}
    (hsilent : ∀ {s e s' t}, R s t → silent e = true → M.step s e = some s' → R s' t)
    (hstep : ∀ {s e s' t}, R s t → silent e = false → M.step s e = some s' → ∃ t', N.step t e = some t' ∧ R s' t')
    {es : List ε} {s s' : σ} {t : τ} (hr : R s t) (he : M.run s es = some s') :
    ∃ t', N.run t (es.filter fun e => !silent e) = some t' ∧ R s' t' := by
  induction es generalizing s t with
  | nil =>
    cases he
    exact ⟨t, rfl, hr⟩
  | cons e es ih =>
    obtain ⟨u, hu, hs'⟩ := Option.bind_eq_some_iff.1 he
    cases hse : silent e with
    | true =>
      obtain ⟨t', ht', hr'⟩ := ih (hsilent hr hse hu) hs'
      exact ⟨t', by simpa [List.filter_cons, hse] using ht', hr'⟩
    | false =>
      obtain ⟨v, hv, hr'⟩ := hstep hr hse hu
      obtain ⟨t', ht', hr''⟩ := ih hr' hs'
      refine ⟨t', ?_, hr''⟩
      simpa [List.filter_cons, hse, run_cons_some N hv] using ht'

/-! ## Properties along one run -/

/-- `P` holds of every state the run visits. -/
def Always (M : Lts σ ε) (P : σ → Prop) : σ → List ε → Prop
  | s, [] => P s
  | s, e :: es => P s ∧ ∀ t, M.step s e = some t → Always M P t es

/-- Every event of the run meets `Q` in the state it is taken in. -/
def Along (M : Lts σ ε) (Q : σ → ε → Prop) : σ → List ε → Prop
  | _, [] => True
  | s, e :: es => Q s e ∧ ∀ t, M.step s e = some t → Along M Q t es

theorem Always.head {P : σ → Prop} {s : σ} {es : List ε} (h : M.Always P s es) : P s := by
  cases es with
  | nil => exact h
  | cons e es => exact h.1

/-- What a preserved predicate gives of each event holds all along the run. -/
theorem Preserved.along {I : σ → Prop} {Q : σ → ε → Prop} (h : M.Preserved I) (hQ : ∀ s e, I s → Q s e) :
    ∀ (es : List ε) {s : σ}, I s → M.Along Q s es
  | [], _, _ => trivial
  | e :: es, s, hs => ⟨hQ s e hs, fun t ht => h.along hQ es (h s e t hs ht)⟩

/-- Events meeting `Q` keep `I` all along the run, and `I` gives `P`. -/
theorem Along.always {I P : σ → Prop} {Q : σ → ε → Prop}
    (hstep : ∀ {s e t}, I s → Q s e → M.step s e = some t → I t) (hP : ∀ {s}, I s → P s) :
    ∀ {es : List ε} {s : σ}, I s → M.Along Q s es → M.Always P s es
  | [], _, hs, _ => hP hs
  | _ :: _, _, hs, h => ⟨hP hs, fun t ht => Along.always hstep hP (hstep hs h.1 ht) (h.2 t ht)⟩

/-- **Exact condition for a run** of allowed events. If events meeting `Q` keep `I`, `I` gives `P`, and an event that
misses `Q` leads at once to a state without `P`, then from an `I`-state the run has `P` throughout iff all its
events meet `Q`. -/
theorem always_iff_along_of (I : σ → Prop) {P : σ → Prop} {Q : σ → ε → Prop} {ok : ε → Prop}
    (hstep : ∀ {s e t}, I s → ok e → Q s e → M.step s e = some t → I t) (hP : ∀ {s}, I s → P s)
    (hbad : ∀ {s e}, I s → ok e → ¬ Q s e → ∃ t, M.step s e = some t ∧ ¬ P t) :
    ∀ (es : List ε) {s : σ}, (∀ e ∈ es, ok e) → I s → (M.Always P s es ↔ M.Along Q s es)
  | [], s, _, hs => by simp only [Always, Along, iff_true]; exact hP hs
  | e :: es, s, hok, hs => by
    obtain ⟨he, hes⟩ := List.forall_mem_cons.1 hok
    by_cases hq : Q s e
    · simp only [Always, Along, hP hs, hq, true_and]
      exact forall₂_congr fun t ht => always_iff_along_of I hstep hP hbad es hes (hstep hs he hq ht)
    · obtain ⟨t, ht, hn⟩ := hbad hs he hq
      simp only [Always, Along, hq, false_and, iff_false]
      exact fun h => hn (h.2 t ht).head

/-- The exact condition for any run. -/
theorem always_iff_along (I : σ → Prop) {P : σ → Prop} {Q : σ → ε → Prop}
    (hstep : ∀ {s e t}, I s → Q s e → M.step s e = some t → I t) (hP : ∀ {s}, I s → P s)
    (hbad : ∀ {s e}, I s → ¬ Q s e → ∃ t, M.step s e = some t ∧ ¬ P t) (es : List ε) {s : σ} (hs : I s) :
    M.Always P s es ↔ M.Along Q s es :=
  always_iff_along_of I (fun h (_ : True) => hstep h) hP (fun h (_ : True) => hbad h) es (fun _ _ => trivial) hs

end Lts

end Transition
