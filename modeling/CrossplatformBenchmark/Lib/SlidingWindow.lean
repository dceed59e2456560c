import Mathlib

/-!
# Windows kept by repeated filtering

Each reading `now` drops the readings it evicts from the window and is appended to it:
`push keep w now = w.filter (keep · now) ++ [now]`. The window is filtered again and again,
and only ever against the newest reading; nothing is assumed of `keep` or of the order of the
readings.

* `fill_eq_survivors` — the window after a run holds, in order, exactly the readings that
  every later reading keeps.
* `survivors_eq_map` — the same by position: `retained keep ts` are the surviving indices.
* `survivors_of_last` — when the newest reading evicts at least as much as any other, the
  window is one filter of the whole run.
* `bounded_fill_iff` — no window holds a reading ahead of the newest one exactly when no kept
  reading is ahead of the next one.
* `length_spaced` — how many readings a window holds when their gaps lie between two bounds.
* `length_survivors_blocks` — runs that repeat each reading a fixed number of times.
-/

namespace SlidingWindow

variable {τ ρ : Type*}

/-- One reading: evict, then append. -/
def push (keep : τ → τ → Bool) (window : List τ) (now : τ) : List τ := window.filter (keep · now) ++ [now]

/-- The window after the readings, from an empty one. -/
def fill (keep : τ → τ → Bool) (readings : List τ) : List τ := readings.foldl (push keep) []

/-- The readings that every later reading keeps. -/
def survivors (keep : τ → τ → Bool) : List τ → List τ
  | [] => []
  | t :: ts => if ts.all (keep t) then t :: survivors keep ts else survivors keep ts

/-- The positions of the readings that every later reading keeps. -/
def retained (keep : τ → τ → Bool) (ts : List τ) : List (Fin ts.length) :=
  (List.finRange ts.length).filter fun i => decide (∀ j, i < j → keep (ts.get i) (ts.get j) = true)

variable {keep : τ → τ → Bool}

/-! ## The run invariant -/

theorem survivors_concat (ts : List τ) (now : τ) :
    survivors keep (ts ++ [now]) = push keep (survivors keep ts) now := by
  induction ts with
  | nil => rfl
  | cons t ts ih =>
    simp only [push] at ih
    simp only [List.cons_append, survivors, List.all_append, List.all_cons, List.all_nil, Bool.and_true, push]
    by_cases ha : ts.all (keep t) = true
    · by_cases hk : keep t now = true <;> simp [ha, hk, ih]
    · simp [ha, ih]

theorem fill_concat (ts : List τ) (now : τ) : fill keep (ts ++ [now]) = push keep (fill keep ts) now := by
  simp [fill]

/-- **The incremental window is the window over the whole history.** -/
theorem fill_eq_survivors (ts : List τ) : fill keep ts = survivors keep ts := by
  induction ts using List.reverseRecOn with
  | nil => rfl
  | append_singleton ts now ih => rw [fill_concat, survivors_concat, ih]

/-! ## By position -/

theorem mem_retained {ts : List τ} {i : Fin ts.length} :
    i ∈ retained keep ts ↔ ∀ j, i < j → keep (ts.get i) (ts.get j) = true := by
  simp [retained]

/-- Positions after the head are the tail's, shifted. -/
theorem retained_cons (t : τ) (ts : List τ) :
    retained keep (t :: ts) =
      (if ts.all (keep t) then [0] else []) ++ (retained keep ts).map Fin.succ := by
  have hhead : (∀ j : Fin (t :: ts).length, 0 < j → keep ((t :: ts).get 0) ((t :: ts).get j) = true) ↔
      ts.all (keep t) = true := by
    rw [List.all_eq_true]
    constructor
    · intro h x hx
      obtain ⟨k, rfl⟩ := List.get_of_mem hx
      exact h k.succ (Fin.succ_pos k)
    · intro h j hj
      obtain ⟨k, rfl⟩ := Fin.exists_succ_eq.2 (Fin.pos_iff_ne_zero.1 hj)
      exact h _ (List.get_mem ts k)
  have htail : ∀ i : Fin ts.length,
      (∀ j : Fin (ts.length + 1), i.succ < j → keep ((t :: ts).get i.succ) ((t :: ts).get j) = true) ↔
        ∀ j, i < j → keep (ts.get i) (ts.get j) = true := by
    intro i
    constructor
    · intro h j hj
      exact h j.succ (Fin.succ_lt_succ_iff.2 hj)
    · intro h j hj
      obtain ⟨k, rfl⟩ := Fin.exists_succ_eq.2 (Fin.pos_iff_ne_zero.1 (lt_trans (Fin.succ_pos i) hj))
      exact h k (Fin.succ_lt_succ_iff.1 hj)
  have he : List.finRange (t :: ts).length = 0 :: (List.finRange ts.length).map Fin.succ :=
    List.finRange_succ
  unfold retained
  rw [he, List.filter_cons, List.filter_map]
  have hf : (List.finRange ts.length).filter
        ((fun i => decide (∀ j, i < j → keep ((t :: ts).get i) ((t :: ts).get j) = true)) ∘ Fin.succ) =
      (List.finRange ts.length).filter fun i => decide (∀ j, i < j → keep (ts.get i) (ts.get j) = true) :=
    List.filter_congr fun i _ => decide_eq_decide.2 (htail i)
  rw [hf]
  by_cases ha : ts.all (keep t) = true
  · rw [if_pos (decide_eq_true (hhead.2 ha)), if_pos ha]; rfl
  · rw [if_neg (fun h => ha (hhead.1 (of_decide_eq_true h))), if_neg ha]; rfl

theorem survivors_eq_map (ts : List τ) : survivors keep ts = (retained keep ts).map ts.get := by
  induction ts with
  | nil => rfl
  | cons t ts ih =>
    have hm : ((retained keep ts).map Fin.succ).map (t :: ts).get = (retained keep ts).map ts.get := by
      rw [List.map_map]; rfl
    rw [retained_cons, List.map_append, hm, survivors, ih]
    split <;> rfl

/-! ## Comparing windows -/

/-- Only the answers on readings of the run matter. -/
theorem survivors_congr {keep' : τ → τ → Bool} {ts : List τ}
    (h : ∀ a ∈ ts, ∀ b ∈ ts, keep a b = keep' a b) : survivors keep ts = survivors keep' ts := by
  induction ts with
  | nil => rfl
  | cons t ts ih =>
    have hall : ts.all (keep t) = ts.all (keep' t) := by
      rw [Bool.eq_iff_iff, List.all_eq_true, List.all_eq_true]
      exact forall₂_congr fun b hb => by rw [h t (by simp) b (by simp [hb])]
    simp only [survivors, hall, ih fun a ha b hb => h a (by simp [ha]) b (by simp [hb])]

theorem survivors_map (f : ρ → τ) (ts : List ρ) :
    survivors keep (ts.map f) = (survivors (fun a b => keep (f a) (f b)) ts).map f := by
  induction ts with
  | nil => rfl
  | cons t ts ih =>
    have hall : (ts.map f).all (keep (f t)) = ts.all fun b => keep (f t) (f b) := by rw [List.all_map]; rfl
    simp only [List.map_cons, survivors, hall, ih]
    split <;> rfl

/-- A reading kept by the stricter rule is kept by the laxer one. -/
theorem retained_sublist {keep' : τ → τ → Bool} {ts : List τ}
    (h : ∀ a ∈ ts, ∀ b ∈ ts, keep a b = true → keep' a b = true) : (retained keep ts).Sublist (retained keep' ts) := by
  refine List.monotone_filter_right _ fun i hi => ?_
  simp only [decide_eq_true_eq] at hi ⊢
  intro j hj
  exact h _ (List.get_mem ts i) _ (List.get_mem ts j) (hi j hj)

/-- In a run ordered by `r` every reading is `r`-below the last one. -/
theorem rel_last {r : τ → τ → Prop} {ts : List τ} {now : τ} (hs : ts.Pairwise r) (hlast : ts.getLast? = some now)
    (hrefl : r now now) : ∀ t ∈ ts, r t now := by
  intro t ht
  obtain ⟨pre, rfl⟩ := List.getLast?_eq_some_iff.1 hlast
  rcases List.mem_append.1 ht with ht | ht
  · exact (List.pairwise_append.1 hs).2.2 t ht now (List.mem_singleton.2 rfl)
  · rw [List.mem_singleton.1 ht]
    exact hrefl

/-- **One filter is enough** when the newest reading evicts at least as much as every later one. -/
theorem survivors_of_last {ts : List τ} {now : τ} (hlast : ts.getLast? = some now)
    (hself : keep now now = true) (h : ts.Pairwise fun a b => keep a now = true → keep a b = true) :
    survivors keep ts = ts.filter (keep · now) := by
  induction ts with
  | nil => rfl
  | cons t ts ih =>
    cases hts : ts with
    | nil =>
      have e : t = now := by simpa [hts] using hlast
      simp [survivors, e, hself]
    | cons u us =>
      have hl : ts.getLast? = some now := by rw [hts] at hlast ⊢; simpa using hlast
      obtain ⟨htail, hrest⟩ := List.pairwise_cons.1 h
      have hall : ts.all (keep t) = keep t now := by
        rw [Bool.eq_iff_iff, List.all_eq_true]
        exact ⟨fun ha => ha now (List.mem_of_getLast? hl), fun hk b hb => htail b hb hk⟩
      rw [← hts, survivors, hall, ih hl hrest, List.filter_cons]

/-- A test that stays true once true picks out a suffix. -/
theorem filter_suffix {p : τ → Bool} {ts : List τ} (h : ts.Pairwise fun a b => p a = true → p b = true) :
    ts.filter p <:+ ts := by
  induction ts with
  | nil => exact List.suffix_rfl
  | cons t ts ih =>
    obtain ⟨ht, hts⟩ := List.pairwise_cons.1 h
    by_cases hp : p t = true
    · have hall : ∀ x ∈ t :: ts, p x = true := by
        intro x hx
        rcases List.mem_cons.1 hx with rfl | hx
        · exact hp
        · exact ht x hx hp
      rw [List.filter_eq_self.2 hall]
    · rw [List.filter_cons_of_neg hp]
      exact (ih hts).trans (List.suffix_cons t ts)

/-! ## Repeated readings -/

/-- Each reading, `n` times in a row. -/
def blocks (n : Nat) (ts : List τ) : List τ := ts.flatMap (List.replicate n)

theorem survivors_replicate_append (t : τ) (ts : List τ) (n : Nat) :
    survivors keep (List.replicate (n + 1) t ++ ts) =
      (if ts.all (keep t) then List.replicate (if keep t t then n + 1 else 1) t else []) ++ survivors keep ts := by
  induction n with
  | zero =>
    simp only [Nat.zero_add, List.replicate_one, List.cons_append, List.nil_append, survivors, ite_self]
    split <;> rfl
  | succ n ih =>
    have hall : (List.replicate (n + 1) t ++ ts).all (keep t) = (keep t t && ts.all (keep t)) := by
      rw [List.all_append, List.all_replicate]; simp
    rw [List.replicate_succ, List.cons_append, survivors, hall, ih]
    by_cases ha : ts.all (keep t) = true <;> by_cases hk : keep t t = true <;>
      simp [ha, hk, List.replicate_succ]

theorem all_blocks (p : τ → Bool) (n : Nat) (ts : List τ) : (blocks (n + 1) ts).all p = ts.all p := by
  induction ts with
  | nil => rfl
  | cons t ts ih =>
    simp only [blocks, List.flatMap_cons, List.all_append, List.all_replicate, List.all_cons] at ih ⊢
    rw [ih]; simp

/-- **Blocks.** A surviving reading counts `n + 1` times if it keeps its own copies, once if not. -/
theorem length_survivors_blocks (n : Nat) (ts : List τ) :
    (survivors keep (blocks (n + 1) ts)).length =
      ((survivors keep ts).map fun t => if keep t t then n + 1 else 1).sum := by
  induction ts with
  | nil => rfl
  | cons t ts ih =>
    have e : blocks (n + 1) (t :: ts) = List.replicate (n + 1) t ++ blocks (n + 1) ts := by simp [blocks]
    rw [e, survivors_replicate_append, all_blocks, List.length_append, ih, survivors]
    by_cases ha : ts.all (keep t) = true <;> simp [ha]

/-! ## Windows bounded by their newest reading -/

/-- After every reading, the window is `r`-below it. -/
def Bounded (r : τ → τ → Prop) (keep : τ → τ → Bool) (ts : List τ) : Prop :=
  ∀ pre now, pre ++ [now] <+: ts → ∀ t ∈ fill keep (pre ++ [now]), r t now

theorem bounded_concat {r : τ → τ → Prop} {ts : List τ} {now : τ} :
    Bounded r keep (ts ++ [now]) ↔ Bounded r keep ts ∧ ∀ t ∈ fill keep (ts ++ [now]), r t now := by
  constructor
  · intro h
    exact ⟨fun pre last hp => h pre last (hp.trans (List.prefix_append ts [now])), h ts now List.prefix_rfl⟩
  · rintro ⟨h, hnow⟩ pre last hp
    rcases List.prefix_concat_iff.1 hp with he | hp
    · obtain ⟨rfl, hl⟩ := List.append_inj' he rfl
      obtain rfl := List.singleton_inj.1 hl
      exact hnow
    · exact h pre last hp

/-- **Bounded windows**, for an order that eviction respects: it is enough to look at each reading and the
one before it. -/
theorem bounded_fill_iff {r : τ → τ → Prop} (hrefl : ∀ a, r a a) (htrans : ∀ a b c, r a b → r b c → r a c)
    (hkeep : ∀ a b c, r a b → keep a c = true → keep b c = true) (ts : List τ) :
    Bounded r keep ts ↔ ts.IsChain fun a b => keep a b = true → r a b := by
  induction ts using List.reverseRecOn with
  | nil => exact iff_of_true (fun pre now hp => absurd (List.prefix_nil.1 hp) (by simp)) .nil
  | append_singleton ts now ih =>
    rw [bounded_concat, List.isChain_append, ← ih]
    simp only [List.isChain_singleton, List.head?_cons, Option.mem_some_iff, forall_eq', true_and]
    refine and_congr_right fun hb => ?_
    rw [fill_concat, push]
    constructor
    · intro h last hl hk
      obtain ⟨pre, rfl⟩ := List.getLast?_eq_some_iff.1 hl
      refine h last (List.mem_append_left _ (List.mem_filter.2 ⟨?_, hk⟩))
      rw [fill_concat]
      exact List.mem_append_right _ (List.mem_singleton.2 rfl)
    · intro h t ht
      rcases List.mem_append.1 ht with ht | ht
      · obtain ⟨hmem, hk⟩ := List.mem_filter.1 ht
        rcases List.eq_nil_or_concat' ts with rfl | ⟨pre, last, rfl⟩
        · cases hmem
        · have hle := hb pre last List.prefix_rfl t hmem
          exact htrans t last now hle (h last (by simp) (hkeep t last now hle hk))
      · rw [List.mem_singleton.1 ht]
        exact hrefl now

/-! ## Spaced readings -/

section spaced

variable {G : Type*} [AddCommGroup G] [LinearOrder G] [IsOrderedAddMonoid G] {a b w x now : G} {l ts : List G}

/-- Consecutive readings are at least `a` and at most `b` apart. -/
def Spaced (a b : G) : List G → Prop := List.IsChain fun s t => a ≤ t - s ∧ t - s ≤ b

/-- The span of spaced readings, by their number. -/
theorem Spaced.span (h : Spaced a b (x :: l)) (hlast : (x :: l).getLast? = some now) :
    l.length • a ≤ now - x ∧ now - x ≤ l.length • b := by
  induction l generalizing x with
  | nil =>
    obtain rfl : x = now := by simpa using hlast
    simp
  | cons y l ih =>
    obtain ⟨⟨ha, hb⟩, htail⟩ := List.isChain_cons_cons.1 h
    obtain ⟨iha, ihb⟩ := ih htail (by simpa using hlast)
    have e : now - x = (now - y) + (y - x) := by abel
    rw [e, List.length_cons, succ_nsmul, succ_nsmul]
    exact ⟨add_le_add iha ha, add_le_add ihb hb⟩

theorem Spaced.sorted (h : Spaced a b ts) (ha : 0 ≤ a) : ts.Pairwise (· ≤ ·) :=
  List.isChain_iff_pairwise.1 (h.imp fun _ _ hst => sub_nonneg.1 (ha.trans hst.1))

/-- **Counting spaced readings.** A window of length `w` that the readings have outlived holds `n + 1` of them,
where `n` gaps fit into it and `n + 1` fill it. -/
theorem length_spaced (h : Spaced a b (x :: l)) (ha : 0 ≤ a) (hw : 0 < w) (hlast : (x :: l).getLast? = some now)
    (hx : x ≤ now - w) : ∃ n : ℕ, ((x :: l).filter (now - w < ·)).length = n + 1 ∧ n • a < w ∧ w ≤ (n + 1) • b := by
  induction l generalizing x with
  | nil =>
    obtain rfl : x = now := by simpa using hlast
    exact absurd hx (not_le.2 (sub_lt_self x hw))
  | cons y l ih =>
    obtain ⟨-, htail⟩ := List.isChain_cons_cons.1 h
    have hl : (y :: l).getLast? = some now := by simpa using hlast
    rw [List.filter_cons_of_neg (by simpa using hx)]
    rcases le_or_gt y (now - w) with hy | hy
    · exact ih htail hl hy
    · -- `x` is the last reading before the window, `y` the first one in it
      have hall : ∀ t ∈ y :: l, decide (now - w < t) = true := by
        intro t ht
        rcases List.mem_cons.1 ht with rfl | ht
        · exact decide_eq_true hy
        · exact decide_eq_true (hy.trans_le ((List.pairwise_cons.1 (Spaced.sorted htail ha)).1 t ht))
      refine ⟨l.length, by rw [List.filter_eq_self.2 hall, List.length_cons], ?_, ?_⟩
      · exact (Spaced.span htail hl).1.trans_lt (sub_lt_comm.1 hy)
      · exact (le_sub_comm.1 hx).trans (Spaced.span h hlast).2

end spaced

end SlidingWindow
