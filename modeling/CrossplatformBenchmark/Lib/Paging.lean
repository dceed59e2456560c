import CrossplatformBenchmark.Lib.Transition

/-!
# Loading a list page by page

`Pager` is what a paginated loader is for: it holds the items received so far, has at most
one request outstanding, asks for page `pages` next, and stops at the first empty page. A
failed request changes nothing but `busy`, so the same page is asked for again.

* `Good.reachable` — against a server with a fixed list `L`, the items are always
  `L.take (size * pages)`, and all of `L` once the end is reached.
* `reliable_asked` — without failures the offsets asked for are `0, size, 2 * size, …`.
* `Sequential.drive_eq` — a loader driven one trigger at a time makes the pager's requests and shows
  its views, given a relation between their resting states.
-/

namespace Paging

open Transition

variable {α σ : Type*}

/-- A server with the fixed list `L` answers `(limit, skip)` with this slice. -/
def slice (L : List α) (limit skip : Nat) : List α := (L.drop skip).take limit

theorem take_add_slice (L : List α) (limit skip : Nat) :
    L.take skip ++ slice L limit skip = L.take (skip + limit) := List.take_add.symm

theorem slice_eq_nil {L : List α} {limit skip : Nat} (h : 0 < limit) : slice L limit skip = [] ↔ L.length ≤ skip := by
  rw [slice, List.take_eq_nil_iff, List.drop_eq_nil_iff]
  omega

structure Request where
  limit : Int
  skip : Int
  deriving DecidableEq, Repr

/-- How a request ends for the program that awaits it. -/
inductive Outcome (α : Type*) where
  | returned (items : List α)
  | threw

def Outcome.isThrew : Outcome α → Bool
  | .returned _ => false
  | .threw => true

def Request.serve (L : List α) (r : Request) : List α := slice L r.limit.toNat r.skip.toNat

/-- A request for page `n` is served that page. -/
theorem serve_page (L : List α) {size n : Nat} {r : Request} (h : r = ⟨size, size * (n : Int)⟩) :
    r.serve L = slice L size (size * n) := by
  rw [h, Request.serve, ← Nat.cast_mul, Int.toNat_natCast, Int.toNat_natCast]

/-- The only request in flight is the one that is answered. -/
theorem of_getElem?_singleton {a b : α} {i : Nat} (h : [a][i]? = some b) : i = 0 ∧ b = a := by
  rw [List.getElem?_singleton, Option.ite_none_right_eq_some] at h
  exact ⟨h.1, (Option.some.inj h.2).symm⟩

/-- What is still waiting when another item leaves. -/
theorem mem_eraseIdx_of_ne {q : List α} {i : Nat} {a b : α} (hi : q[i]? = some a) (hm : b ∈ q) (hne : b ≠ a) :
    b ∈ q.eraseIdx i := by
  obtain ⟨j, hj⟩ := List.getElem?_of_mem hm
  refine List.mem_eraseIdx_iff_getElem?.2 ⟨j, ?_, hj⟩
  rintro rfl
  rw [hi] at hj
  exact hne (Option.some.inj hj).symm

/-- What was waiting before an item joined. -/
theorem mem_of_mem_concat {q : List α} {a b : α} (hm : b ∈ q ++ [a]) (hne : b ≠ a) : b ∈ q := by
  rcases List.mem_append.1 hm with hm | hm
  · exact hm
  · exact absurd (List.mem_singleton.1 hm) hne

/-! ## The pager -/

structure Pager (α : Type*) where
  items : List α := []
  /-- Non-empty pages received. -/
  pages : Nat := 0
  busy : Bool := false
  done : Bool := false
  /-- The offset of every request, oldest first. -/
  asked : List Nat := []

inductive Event (α : Type*) where
  | ask
  | page (ps : List α)
  | fail

variable (size : Nat)

def Pager.ask (p : Pager α) : Pager α := { p with busy := true, asked := p.asked ++ [size * p.pages] }

def Pager.page (p : Pager α) (ps : List α) : Pager α :=
  { p with
    items := p.items ++ ps
    pages := if ps.isEmpty then p.pages else p.pages + 1
    busy := false
    done := ps.isEmpty }

/-- A request needs an idle pager before the end, an answer an outstanding request. -/
def Pager.step (p : Pager α) : Event α → Option (Pager α)
  | .ask => if p.busy || p.done then none else some (p.ask size)
  | .page ps => if p.busy then some (p.page ps) else none
  | .fail => if p.busy then some { p with busy := false } else none

def pager (α : Type*) (size : Nat) : Lts (Pager α) (Event α) := ⟨{}, Pager.step size⟩

variable {size}

theorem step_ask {p : Pager α} (hb : p.busy = false) (hd : p.done = false) :
    (pager α size).step p .ask = some (p.ask size) := by simp [pager, Pager.step, hb, hd]

theorem step_page {p : Pager α} (hb : p.busy = true) (ps : List α) :
    (pager α size).step p (.page ps) = some (p.page ps) := by simp [pager, Pager.step, hb]

theorem step_fail {p : Pager α} (hb : p.busy = true) :
    (pager α size).step p .fail = some { p with busy := false } := by simp [pager, Pager.step, hb]

/-- What a step can do. -/
theorem step_cases {p p' : Pager α} {e : Event α} (h : (pager α size).step p e = some p') :
    (e = .ask ∧ p.busy = false ∧ p.done = false ∧ p' = p.ask size) ∨
    (∃ ps, e = .page ps ∧ p.busy = true ∧ p' = p.page ps) ∨
    (e = .fail ∧ p.busy = true ∧ p' = { p with busy := false }) := by
  cases e with
  | ask =>
    simp only [pager, Pager.step, Bool.or_eq_true, Option.ite_none_left_eq_some, Option.some.injEq, not_or,
      Bool.not_eq_true] at h
    exact .inl ⟨rfl, h.1.1, h.1.2, h.2.symm⟩
  | page ps =>
    simp only [pager, Pager.step, Option.ite_none_right_eq_some, Option.some.injEq] at h
    exact .inr (.inl ⟨ps, rfl, h.1, h.2.symm⟩)
  | fail =>
    simp only [pager, Pager.step, Option.ite_none_right_eq_some, Option.some.injEq] at h
    exact .inr (.inr ⟨rfl, h.1, h.2.symm⟩)

/-! ## Against a fixed list -/

section served

variable (size : Nat) (L : List α)

/-- The items are a prefix of `L` cut at a page boundary, and every page counted was there. -/
structure Good (p : Pager α) : Prop where
  items : p.items = L.take (size * p.pages)
  nonempty : p.pages = 0 ∨ size * (p.pages - 1) < L.length
  done : p.done = true → L.length ≤ size * p.pages
  idle : p.busy = true → p.done = false

variable {size L}

theorem Good.ask {p : Pager α} (h : Good size L p) (hd : p.done = false) : Good size L (p.ask size) :=
  ⟨h.items, h.nonempty, h.done, fun _ => hd⟩

theorem Good.page (hsize : 0 < size) {p : Pager α} (h : Good size L p) :
    Good size L (p.page (slice L size (size * p.pages))) := by
  by_cases he : slice L size (size * p.pages) = []
  · have hle := (slice_eq_nil hsize).1 he
    refine ⟨?_, ?_, fun _ => ?_, fun hb => ?_⟩
    · simpa [Pager.page, he] using h.items
    · simpa [Pager.page, he] using h.nonempty
    · simpa [Pager.page, he] using hle
    · simp [Pager.page] at hb
  · have hlt : size * p.pages < L.length := by
      by_contra hle
      exact he ((slice_eq_nil hsize).2 (by omega))
    refine ⟨?_, .inr ?_, fun hd => ?_, fun hb => ?_⟩
    · simp only [Pager.page, List.isEmpty_iff, he, if_false, Nat.mul_add, Nat.mul_one]
      rw [h.items, take_add_slice]
    · simpa [Pager.page, he] using hlt
    · simp [Pager.page, he] at hd
    · simp [Pager.page] at hb

/-- At the end nothing is missing. -/
theorem Good.all {p : Pager α} (h : Good size L p) (hd : p.done = true) : p.items = L := by
  rw [h.items, List.take_of_length_le (h.done hd)]

/-- At the end nothing more happens. -/
theorem Good.stuck {p : Pager α} (h : Good size L p) (hd : p.done = true) (e : Event α) :
    (pager α size).step p e = none := by
  have hb : p.busy = false := by
    by_contra hb
    have := h.idle (eq_true_of_ne_false hb)
    rw [hd] at this
    cases this
  cases e <;> simp [pager, Pager.step, hb, hd]

/-- The next offset never passes the list by more than a page. -/
theorem Good.offset_lt {p : Pager α} (h : Good size L p) (hsize : 0 < size) : size * p.pages < L.length + size := by
  rcases h.nonempty with h0 | h1
  · rw [h0]; omega
  · have hp : size * p.pages ≤ size * (p.pages - 1) + size := by
      rw [← Nat.mul_succ]; exact Nat.mul_le_mul_left _ (by omega)
    omega

variable [DecidableEq α] (size L)

/-- The server answers from `L`. -/
def serves (p : Pager α) : Event α → Bool
  | .page ps => decide (ps = slice L size (size * p.pages))
  | _ => true

/-- The pager on a server with the list `L`; requests may fail. -/
def served : Lts (Pager α) (Event α) := (pager α size).restrict (serves size L)

variable {size L}

theorem good_inductive (hsize : 0 < size) : (served size L).Inductive (Good size L) where
  init := ⟨by simp [served, Lts.restrict, pager], .inl rfl, by simp [served, Lts.restrict, pager],
    by simp [served, Lts.restrict, pager]⟩
  step p e p' h hs := by
    obtain ⟨hok, hs⟩ := Lts.restrict_step.1 hs
    obtain ⟨-, hb, hd, rfl⟩ | ⟨ps, rfl, hb, rfl⟩ | ⟨-, hb, rfl⟩ := step_cases hs
    · exact h.ask hd
    · rw [of_decide_eq_true hok]
      exact h.page hsize
    · exact ⟨h.items, h.nonempty, h.done, fun hb' => by simp at hb'⟩

omit [DecidableEq α] in
theorem Good.final {ok : Pager α → Event α → Bool} {p p' : Pager α} (h : Good size L p) (hd : p.done = true)
    (hst : ((pager α size).restrict ok).Steps p p') : p' = p := by
  refine Lts.Steps.of_stuck (fun e => ?_) hst
  simp only [Lts.restrict, h.stuck hd e, ite_self]

theorem served_ask {p : Pager α} (hb : p.busy = false) (hd : p.done = false) :
    (served size L).step p .ask = some (p.ask size) := Lts.restrict_step.2 ⟨rfl, step_ask hb hd⟩

theorem served_page {p : Pager α} (hb : p.busy = true) :
    (served size L).step p (.page (slice L size (size * p.pages))) = some (p.page (slice L size (size * p.pages))) := by
  have hok : serves size L p (.page (slice L size (size * p.pages))) = true := decide_eq_true rfl
  exact Lts.restrict_step.2 ⟨hok, step_page hb _⟩

theorem served_fail {p : Pager α} (hb : p.busy = true) :
    (served size L).step p .fail = some { p with busy := false } := Lts.restrict_step.2 ⟨rfl, step_fail hb⟩

theorem Good.reachable (hsize : 0 < size) {p : Pager α} (h : (served size L).Reachable p) : Good size L p :=
  (good_inductive hsize).reachable h

end served

/-! ## Without failures -/

section reliable

variable {L : List α}

/-- Requests made: one per page received, and one more once a request is out or came back empty. -/
def Pager.asks (p : Pager α) : Nat := if p.busy || p.done then p.pages + 1 else p.pages

/-- The requests for the first `n` pages. -/
def pageRequests (size n : Nat) : List Request := (List.range n).map fun k => ⟨size, ((size * k : Nat) : Int)⟩

theorem pageRequests_prefix (size : Nat) {m n : Nat} (h : m ≤ n) : pageRequests size m <+: pageRequests size n := by
  rw [pageRequests, pageRequests, ← Nat.add_sub_of_le h, List.range_add, List.map_append]
  exact List.prefix_append _ _

/-- Requests made for the offsets asked for are those for the first pages. -/
theorem requests_eq_pageRequests {p : Pager α} {rs : List Request} (hrs : rs = p.asked.map fun k => ⟨size, (k : Int)⟩)
    (ha : p.asked = (List.range p.asks).map (size * ·)) : rs = pageRequests size p.asks := by
  rw [hrs, ha, List.map_map]
  rfl

/-- Never more than one request for each page of the list and one for its end. -/
theorem Good.asks_le (hsize : 0 < size) {p : Pager α} (h : Good size L p) :
    p.asks ≤ (L.length + (size - 1)) / size + 1 := by
  have hpages : p.pages ≤ (L.length + (size - 1)) / size := by
    rw [Nat.le_div_iff_mul_le hsize, Nat.mul_comm]
    have hlt := h.offset_lt hsize
    omega
  unfold Pager.asks
  split <;> omega

/-- At the end there have been exactly these. -/
theorem Good.asks_eq (hsize : 0 < size) {p : Pager α} (h : Good size L p) (hd : p.done = true) :
    p.asks = (L.length + (size - 1)) / size + 1 := by
  have hle := h.asks_le hsize
  have hpages : (L.length + (size - 1)) / size ≤ p.pages := by
    have hdone := h.done hd
    have hlt : L.length + (size - 1) < size * (p.pages + 1) := by
      rw [Nat.mul_succ]
      omega
    exact Nat.lt_succ_iff.1 ((Nat.div_lt_iff_lt_mul hsize).2 (Nat.mul_comm size _ ▸ hlt))
  simp only [Pager.asks, hd, Bool.or_true, if_true] at hle ⊢
  omega

theorem asked_nodup (hsize : 0 < size) {p : Pager α} (ha : p.asked = (List.range p.asks).map (size * ·)) :
    p.asked.Nodup := by
  rw [ha]
  exact List.nodup_range.map fun a b hab => Nat.eq_of_mul_eq_mul_left hsize hab

variable [DecidableEq α]

/-- The server answers from `L` and no request fails. -/
def reliably (size : Nat) (L : List α) (p : Pager α) (e : Event α) : Bool :=
  match e with
  | .fail => false
  | e => serves size L p e

def reliable (size : Nat) (L : List α) : Lts (Pager α) (Event α) := (pager α size).restrict (reliably size L)

theorem reliable_good (hsize : 0 < size) : (reliable size L).Inductive (Good size L) where
  init := (good_inductive hsize).init
  step p e p' h hs := by
    obtain ⟨hok, hs⟩ := Lts.restrict_step.1 hs
    refine (good_inductive hsize).step p e p' h (Lts.restrict_step.2 ⟨?_, hs⟩)
    cases e with
    | fail => cases hok
    | ask => exact hok
    | page ps => exact hok

theorem reliable_ask {p : Pager α} (hb : p.busy = false) (hd : p.done = false) :
    (reliable size L).step p .ask = some (p.ask size) := Lts.restrict_step.2 ⟨rfl, step_ask hb hd⟩

theorem reliable_page {p : Pager α} (hb : p.busy = true) :
    (reliable size L).step p (.page (slice L size (size * p.pages))) = some (p.page (slice L size (size * p.pages))) := by
  have hok : serves size L p (.page (slice L size (size * p.pages))) = true := decide_eq_true rfl
  exact Lts.restrict_step.2 ⟨hok, step_page hb _⟩

/-- **No offset is asked for twice** when no request fails: they are the multiples of `size`, in order. -/
theorem reliable_asked (hsize : 0 < size) : (reliable size L).Inductive fun p : Pager α =>
    Good size L p ∧ p.asked = (List.range p.asks).map (size * ·) := by
  refine (reliable_good hsize).strengthen rfl ?_
  intro p e p' h _ ha hs
  obtain ⟨hok, hs⟩ := Lts.restrict_step.1 hs
  obtain ⟨-, hb, hd, rfl⟩ | ⟨ps, rfl, hb, rfl⟩ | ⟨rfl, -, -⟩ := step_cases hs
  · have h0 : p.asks = p.pages := by simp [Pager.asks, hb, hd]
    have h1 : (p.ask size).asks = p.pages + 1 := by simp [Pager.asks, Pager.ask]
    rw [h1, List.range_succ, List.map_append, ← h0, ← ha, h0]
    rfl
  · have h0 : p.asks = p.pages + 1 := by simp [Pager.asks, hb]
    have h1 : (p.page ps).asks = p.pages + 1 := by
      by_cases hps : ps = [] <;> simp [Pager.asks, Pager.page, hps]
    rw [h1, ← h0, ← ha]; rfl
  · cases hok

end reliable

/-! ## One trigger at a time -/

/-- What a loader shows. -/
structure View (α : Type*) where
  items : List α
  busy : Bool
  done : Bool
  deriving DecidableEq, Repr

/-- A loader as a trigger sees it. `none` means the program traps. -/
structure Loader (σ α : Type*) where
  init : σ
  /-- A trigger, up to its request if it makes one; the flag marks the first one. -/
  fire : Bool → σ → Option σ
  /-- The request that waits for its answer. -/
  waiting : σ → Option Request
  /-- The answer, and everything it sets off. -/
  answer : List α → σ → Option σ
  view : σ → View α

/-- `n` triggers, each finished before the next: the request each makes, if any, and the view
after it. The answers are consumed one per request; a request without an answer ends the run. -/
def Loader.drive (l : Loader σ α) : Bool → σ → List (List α) → Nat → List (Option Request × Option (View α))
  | _, _, _, 0 => []
  | first, s, rs, n + 1 =>
    match l.fire first s with
    | none => []
    | some s1 =>
      match l.waiting s1, rs with
      | none, rs => (none, some (l.view s1)) :: l.drive false s1 rs n
      | some r, [] => [(some r, none)]
      | some r, ps :: rs =>
        match l.answer ps s1 with
        | none => [(some r, none)]
        | some s2 => (some r, some (l.view s2)) :: l.drive false s2 rs n

/-- The pager as a loader: a trigger asks unless the end is reached. -/
def sequential (α : Type*) (size : Nat) : Loader (Pager α) α where
  init := {}
  fire _ p := some (if p.busy || p.done then p else p.ask size)
  waiting p := if p.busy then some ⟨size, size * (p.pages : Int)⟩ else none
  answer ps p := some (p.page ps)
  view p := ⟨p.items, p.busy, p.done⟩

/-- Between two triggers, after at most `k` answers. -/
structure Resting (k : Nat) (first : Bool) (p : Pager α) : Prop where
  busy : p.busy = false
  answers : (if p.done then p.pages + 1 else p.pages) ≤ k
  start : first = true → p.items = [] ∧ p.done = false

theorem Resting.later {k : Nat} {first : Bool} {p : Pager α} (h : Resting k first p) (hd : p.done = true) :
    first = false := by
  cases first with
  | false => rfl
  | true => rw [(h.start rfl).2] at hd; cases hd

theorem Resting.page {k : Nat} {first : Bool} {p : Pager α} (h : Resting k first p) (hd : p.done = false) (ps : List α) :
    Resting (k + 1) false ((p.ask size).page ps) where
  busy := rfl
  answers := by
    have := h.answers
    rw [hd] at this
    cases ps <;> simp [Pager.ask, Pager.page] at this ⊢ <;> omega
  start := nofun

/-- A loader whose resting states `R` relates to the pager's: a trigger after the end changes
nothing, any other one makes the pager's request, and its answer leads back to `R`. Offsets and
counts stay in range as long as fewer than `bound` answers are consumed. -/
structure Sequential (l : Loader σ α) (size bound : Nat) (R : Bool → σ → Pager α → Prop) : Prop where
  init : R true l.init {}
  view : ∀ {first s p}, R first s p → p.busy = false → l.view s = ⟨p.items, false, p.done⟩
  ended : ∀ {s p}, R false s p → p.busy = false → p.done = true → l.fire false s = some s ∧ l.waiting s = none
  load : ∀ {k first s p}, R first s p → Resting k first p → k < bound → p.done = false →
    ∃ s1, l.fire first s = some s1 ∧ l.waiting s1 = some ⟨size, size * (p.pages : Int)⟩ ∧
      (k + 1 < bound → ∀ ps, ∃ s2, l.answer ps s1 = some s2 ∧ R false s2 ((p.ask size).page ps))

theorem Sequential.drive_eq_of_resting {l : Loader σ α} {size bound : Nat} {R : Bool → σ → Pager α → Prop}
    (h : Sequential l size bound R) : ∀ (n k : Nat) (first : Bool) (s : σ) (p : Pager α) (rs : List (List α)),
      R first s p → Resting k first p → k + rs.length < bound →
      l.drive first s rs n = (sequential α size).drive first p rs n
  | 0, _, _, _, _, _, _, _, _ => rfl
  | n + 1, k, first, s, p, rs, hr, hrest, hk => by
    have hb := hrest.busy
    cases hd : p.done with
    | true =>
      obtain rfl := hrest.later hd
      obtain ⟨hfire, hwait⟩ := h.ended hr hb hd
      have hfire' : (sequential α size).fire false p = some p := by simp [sequential, hd]
      have hwait' : (sequential α size).waiting p = none := by simp [sequential, hb]
      have hview : l.view s = (sequential α size).view p := by simp only [h.view hr hb, sequential, hb]
      simp only [Loader.drive, hfire, hwait, hfire', hwait', hview]
      rw [h.drive_eq_of_resting n k false s p rs hr hrest hk]
    | false =>
      obtain ⟨s1, hfire, hwait, hanswer⟩ := h.load hr hrest (by omega) hd
      have hfire' : (sequential α size).fire first p = some (p.ask size) := by simp [sequential, hb, hd]
      have hwait' : (sequential α size).waiting (p.ask size) = some ⟨size, size * (p.pages : Int)⟩ := by
        simp [sequential, Pager.ask]
      cases rs with
      | nil => simp only [Loader.drive, hfire, hwait, hfire', hwait']
      | cons ps rs =>
        rw [List.length_cons] at hk
        obtain ⟨s2, hs2, hr2⟩ := hanswer (by omega) ps
        have hanswer' : (sequential α size).answer ps (p.ask size) = some ((p.ask size).page ps) := rfl
        have hview : l.view s2 = (sequential α size).view ((p.ask size).page ps) := h.view hr2 rfl
        simp only [Loader.drive, hfire, hwait, hfire', hwait', hs2, hanswer', hview]
        rw [h.drive_eq_of_resting n (k + 1) false s2 _ rs hr2 (hrest.page hd ps) (by omega)]

/-- **Agreement.** The loader makes the pager's requests and shows the pager's views. -/
theorem Sequential.drive_eq {l : Loader σ α} {size bound : Nat} {R : Bool → σ → Pager α → Prop}
    (h : Sequential l size bound R) (n : Nat) {rs : List (List α)} (hrs : rs.length < bound) :
    l.drive true l.init rs n = (sequential α size).drive true {} rs n :=
  h.drive_eq_of_resting n 0 true l.init {} rs h.init ⟨rfl, le_rfl, fun _ => ⟨rfl, rfl⟩⟩ (by omega)

end Paging
