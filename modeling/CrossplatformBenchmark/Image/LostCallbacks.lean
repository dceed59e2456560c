import CrossplatformBenchmark.Image.Downloader

/-!
# When a shared download loses a callback (SessionDelegate.swift:57-148, 262-269)

Between looking a task up and appending to it, and between taking a task's callbacks and removing the task, the locks
are free. A callback appended to a task whose callbacks have been taken is dropped by `remove`, or stays in a task that
nobody will finish; a second task for a URL hides the first; `remove` clears the URL of whichever task has it; and what
is cancelled before `onTaskDone` is delegated is never called.

* `never_lost_iff` — no callback is lost in a run, exactly if no section of it takes one of these steps.
* `answered_once` — in a state where none is lost, with all threads through, every call is answered once when its task is
  removed, and the session can still bring every task to that.
-/

namespace CrossplatformBenchmark.Kingfisher

open Transition Threads

variable {U P I D R : Type*}

/-- A thread that has taken the callbacks of `T`, or found it without, and will remove it. -/
def Point.closes (T : Nat) : Point U P D R → Bool
  | .taken T' _ _ | .removing T' _ => T' == T
  | _ => false

/-- Every callback that waits is in the task of its URL, and no thread is about to remove that. -/
structure NoneLost (s : Pool (Downloader U P D R) (Point U P D R)) : Prop where
  dropped : s.shared.dropped = []
  waiting : ∀ (T : Nat) (task : SessionDataTask U P), s.shared.sessionTasks[T]? = some task → task.callbacks ≠ [] →
    s.shared.tasks task.originalURL = some T ∧ ∀ p ∈ s.points, p.closes T = false

/-- What must be so for the section at `p` not to lose a callback.
* A new task hides no task in which callbacks wait.
* A task that is appended to is in the table, and no thread is about to remove it.
* A task that is removed has no callbacks, nor has another one that has taken its place in the table.
* The task whose `onTaskDone` is called with callbacks is started. -/
def Harmless (s : Pool (Downloader U P D R) (Point U P D R)) : Point U P D R → Prop
  | .found url _ none => ∀ (T : Nat) (task : SessionDataTask U P), s.shared.tasks url = some T →
      s.shared.sessionTasks[T]? = some task → task.callbacks = []
  | .found url _ (some T) => s.shared.tasks url = some T ∧ ∀ q ∈ s.points, q.closes T = false
  | .removing T _ => ∀ task : SessionDataTask U P, s.shared.sessionTasks[T]? = some task → task.callbacks = [] ∧
      ∀ (T' : Nat) (task' : SessionDataTask U P), s.shared.tasks task.originalURL = some T' → T' ≠ T →
        s.shared.sessionTasks[T']? = some task' → task'.callbacks = []
  | .cancelled T _ _ _ => ∀ task : SessionDataTask U P, s.shared.sessionTasks[T]? = some task → task.started = true
  | .taken T _ callbacks => callbacks ≠ [] →
      ∀ task : SessionDataTask U P, s.shared.sessionTasks[T]? = some task → task.started = true
  | _ => True

/-- The section that runs is harmless. -/
def Careful (s : Pool (Downloader U P D R) (Point U P D R)) : Event (Operation U P D) → Prop
  | .start _ => True
  | .turn i => ∀ p, s.points[i]? = some p → Harmless s p

/-! ## What a careful section does -/

section step

variable {s t : Pool (Downloader U P D R) (Point U P D R)}

theorem callbacks_removeAllCallbacks (task : SessionDataTask U P) : task.removeAllCallbacks.callbacks = [] := rfl

/-- No task has got a callback, and no thread will remove a task that has one, unless one would before. -/
theorem NoneLost.mono (h : NoneLost s) (hd : t.shared.dropped = s.shared.dropped) (ht : t.shared.tasks = s.shared.tasks)
    (hc : ∀ (T : Nat) (task : SessionDataTask U P), t.shared.sessionTasks[T]? = some task → task.callbacks ≠ [] →
      (∃ task' : SessionDataTask U P, s.shared.sessionTasks[T]? = some task' ∧
        task'.originalURL = task.originalURL ∧ task'.callbacks ≠ []) ∧
      ∀ p ∈ t.points, p.closes T = true → ∃ q ∈ s.points, q.closes T = true) : NoneLost t where
  dropped := hd.trans h.dropped
  waiting T task hT hne := by
    obtain ⟨⟨task', hT', hu, hne'⟩, hp⟩ := hc T task hT hne
    obtain ⟨htable, hclose⟩ := h.waiting T task' hT' hne'
    refine ⟨by rw [ht, ← hu]; exact htable, fun p hpt => ?_⟩
    by_contra hcl
    obtain ⟨q, hq, hqc⟩ := hp p hpt (eq_true_of_ne_false hcl)
    rw [hclose q hq] at hqc
    cases hqc

/-- A thread that goes on from `p` to `qs` without touching the tasks. -/
theorem NoneLost.points (h : NoneLost s) {i : Nat} {qs : List (Point U P D R)}
    (hq : ∀ q ∈ qs, ∀ (T : Nat) (task : SessionDataTask U P), s.shared.sessionTasks[T]? = some task → task.callbacks ≠ [] →
      q.closes T = true → ∃ p ∈ s.points, p.closes T = true) (completed : List (Completion R)) :
    NoneLost ⟨{ s.shared with completed := completed }, s.points.eraseIdx i ++ qs⟩ := by
  refine h.mono rfl rfl fun T task hT hne => ⟨⟨task, hT, rfl, hne⟩, fun p hp hc => ?_⟩
  rcases List.mem_append.1 hp with hp | hp
  · exact ⟨p, List.mem_of_mem_eraseIdx hp, hc⟩
  · exact hq p hp T task hT hne hc

/-- A task is changed, and gets no callback if it has none. -/
theorem NoneLost.setTask (h : NoneLost s) {T : Nat} {task task' : SessionDataTask U P} {ps : List (Point U P D R)}
    (hT : s.shared.sessionTasks[T]? = some task) (hu : task'.originalURL = task.originalURL)
    (hne : task'.callbacks ≠ [] → task.callbacks ≠ [])
    (hp : ∀ p ∈ ps, ∀ T', p.closes T' = true → (T' = T ∧ task'.callbacks = []) ∨ ∃ q ∈ s.points, q.closes T' = true) :
    NoneLost ⟨s.shared.setTask T task', ps⟩ := by
  refine h.mono rfl rfl fun T' x hx hxne => ?_
  rcases Table.getElem?_set_of_some hT hx with ⟨rfl, rfl⟩ | ⟨hother, hx⟩
  · refine ⟨⟨task, hT, hu.symm, hne hxne⟩, fun p hpt hc => ?_⟩
    exact (hp p hpt T' hc).resolve_left fun hno => hxne hno.2
  · refine ⟨⟨x, hx, rfl, hxne⟩, fun p hpt hc => ?_⟩
    exact (hp p hpt T' hc).resolve_left fun hno => hother hno.1

theorem closes_rest (todo : List Cancel) : ∀ p ∈ (Point.rest todo : List (Point U P D R)), ∀ T, p.closes T = false := by
  intro p hp T
  unfold Point.rest at hp
  split at hp
  · cases hp
  · rw [List.mem_singleton.1 hp]
    rfl

theorem noneLost_start [DecidableEq U] (h : NoneLost s) {operation : Operation U P D}
    {r : Downloader U P D R × List (Point U P D R)} (hr : start s.shared operation = some r) :
    NoneLost ⟨r.1, s.points ++ r.2⟩ := by
  have hkeep : ∀ {qs : List (Point U P D R)}, (∀ q ∈ qs, ∀ T, q.closes T = false) → ∀ p ∈ s.points ++ qs, ∀ T,
      p.closes T = true → ∃ q ∈ s.points, q.closes T = true := by
    intro qs hqs p hp T hc
    rcases List.mem_append.1 hp with hp | hp
    · exact ⟨p, hp, hc⟩
    · rw [hqs p hp T] at hc
      cases hc
  have hsame : ∀ {d : Downloader U P D R} {qs : List (Point U P D R)}, d.dropped = s.shared.dropped →
      d.tasks = s.shared.tasks → d.sessionTasks = s.shared.sessionTasks → (∀ q ∈ qs, ∀ T, q.closes T = false) →
      NoneLost ⟨d, s.points ++ qs⟩ := by
    intro d qs hd ht hst hqs
    exact h.mono hd ht fun T task hT hne => ⟨⟨task, hst ▸ hT, rfl, hne⟩, fun p hp hc => hkeep hqs p hp T hc⟩
  cases operation with
  | downloadImage url options =>
    obtain rfl := Option.some.inj hr
    exact hsame rfl rfl rfl (by simp [Point.closes])
  | cancel T token =>
    obtain ⟨task, hT, hr⟩ := Option.bind_eq_some_iff.1 hr
    obtain ⟨-, hr⟩ := Option.ite_none_right_eq_some.1 hr
    obtain rfl := Option.some.inj hr
    exact hsame rfl rfl rfl (by simp [Point.closes])
  | cancelURL url =>
    obtain rfl := Option.some.inj hr
    exact hsame rfl rfl rfl (closes_rest _)
  | cancelAll taskValues =>
    obtain ⟨-, hr⟩ := Option.ite_none_right_eq_some.1 hr
    obtain rfl := Option.some.inj hr
    exact hsame rfl rfl rfl (closes_rest _)
  | report T result =>
    obtain ⟨task, hT, hr⟩ := Option.bind_eq_some_iff.1 hr
    obtain ⟨-, hr⟩ := Option.ite_none_right_eq_some.1 hr
    obtain rfl := Option.some.inj hr
    refine hsame rfl rfl rfl ?_
    by_cases he : s.shared.tasks task.originalURL = some T <;> simp [he, Point.closes]

variable {K : Processing P I D R}

theorem closes_lt {p : Point U P D R} (hp : At K s.shared p) {T : Nat} (hc : p.closes T = true) :
    T < s.shared.sessionTasks.length := by
  have hurl : ∃ url, s.shared.urls[T]? = some url := by
    cases p with
    | taken T' result callbacks =>
      obtain rfl : T' = T := by simpa [Point.closes] using hc
      exact ⟨hp.choose, hp.choose_spec.1⟩
    | removing T' todo =>
      obtain rfl : T' = T := by simpa [Point.closes] using hc
      exact hp
    | found url callback existingTask => cases hc
    | added T' => cases hc
    | cancelling todo => cases hc
    | cancelled T' token callback todo => cases hc
    | checking T' todo => cases hc
    | completing T' result => cases hc
    | reply T' callback result => cases hc
  obtain ⟨url, hu⟩ := hurl
  obtain ⟨task, hT, -⟩ := exists_task hu
  exact (List.getElem?_eq_some_iff.1 hT).1

variable [DecidableEq U] [DecidableEq I]

theorem noneLost_next (hA : ∀ p ∈ s.points, At K s.shared p) (h : NoneLost s) {i : Nat} {p : Point U P D R}
    {r : Downloader U P D R × List (Point U P D R)} (hi : s.points[i]? = some p) (he : Harmless s p)
    (hr : next K s.shared p = some r) : NoneLost ⟨r.1, s.points.eraseIdx i ++ r.2⟩ := by
  have hmem := List.mem_of_getElem? hi
  have hold : ∀ q ∈ s.points.eraseIdx i, q ∈ s.points := fun q hq => List.mem_of_mem_eraseIdx hq
  have hrest : ∀ todo : List Cancel, NoneLost ⟨s.shared, s.points.eraseIdx i ++ Point.rest todo⟩ := by
    intro todo
    refine h.points (fun q hq T task _ _ hc => ?_) s.shared.completed
    rw [closes_rest todo q hq T] at hc
    cases hc
  cases p with
  | found url callback existingTask =>
    cases existingTask with
    | none =>
      obtain rfl := Option.some.inj hr
      refine ⟨h.dropped, fun T task hT hne => ?_⟩
      have hpoints : ∀ q ∈ s.points.eraseIdx i ++ [.added s.shared.sessionTasks.length], q.closes T = true → q ∈ s.points := by
        intro q hq hc
        rcases List.mem_append.1 hq with hq | hq
        · exact hold q hq
        · rw [List.mem_singleton.1 hq] at hc
          cases hc
      rcases Table.getElem?_concat_eq_some.1 hT with hT' | ⟨rfl, rfl⟩
      · obtain ⟨htable, hclose⟩ := h.waiting T task hT' hne
        have hurl : task.originalURL ≠ url := by
          rintro rfl
          exact hne (he T task htable hT')
        refine ⟨by simpa [hurl] using htable, fun q hq => ?_⟩
        by_contra hc
        rw [hclose q (hpoints q hq (eq_true_of_ne_false hc))] at hc
        exact hc rfl
      · refine ⟨by simp [SessionDataTask.addCallback], fun q hq => ?_⟩
        by_contra hc
        have hlt := closes_lt (hA q (hpoints q hq (eq_true_of_ne_false hc))) (eq_true_of_ne_false hc)
        exact Nat.lt_irrefl _ hlt
    | some T =>
      obtain ⟨task, hT, rfl⟩ := Option.map_eq_some_iff.1 hr
      have hurl : task.originalURL = url := Option.some.inj ((url_of_task hT).symm.trans ((hA _ hmem).2 T rfl))
      refine ⟨h.dropped, fun T' x hx hne => ?_⟩
      have hpoints : ∀ {T'}, (∀ q ∈ s.points, q.closes T' = false) →
          ∀ q ∈ s.points.eraseIdx i ++ [.added T], q.closes T' = false := by
        intro T' hclose q hq
        rcases List.mem_append.1 hq with hq | hq
        · exact hclose q (hold q hq)
        · rw [List.mem_singleton.1 hq]
          rfl
      rcases Table.getElem?_set_of_some hT hx with ⟨rfl, rfl⟩ | ⟨-, hx⟩
      · exact ⟨(congrArg s.shared.tasks hurl).trans he.1, hpoints he.2⟩
      · obtain ⟨htable, hclose⟩ := h.waiting T' x hx hne
        exact ⟨htable, hpoints hclose⟩
  | added T =>
    obtain ⟨task, hT, rfl⟩ := Option.map_eq_some_iff.1 hr
    refine h.setTask hT rfl id fun q hq T' hc => .inr ⟨q, hold q (by simpa using hq), hc⟩
  | cancelling todo =>
    cases todo with
    | nil =>
      obtain rfl := Option.some.inj hr
      exact h.points (by simp) s.shared.completed
    | cons c todo =>
      cases c with
      | force T =>
        obtain ⟨task, hT, rfl⟩ := Option.map_eq_some_iff.1 hr
        exact hrest _
      | token T token =>
        obtain ⟨task, hT, rfl⟩ := Option.map_eq_some_iff.1 hr
        cases hremove : task.removeCallback token with
        | none => exact hrest _
        | some removed =>
          obtain ⟨callback, task'⟩ := removed
          obtain ⟨hu, -, hperm⟩ := callbacks_removeCallback hremove
          refine h.setTask hT hu (fun _ hnil => ?_) fun q hq T' hc => ?_
          · rw [hnil] at hperm
            exact List.cons_ne_nil _ _ hperm.eq_nil
          · rcases List.mem_append.1 hq with hq | hq
            · exact .inr ⟨q, hold q hq, hc⟩
            · rw [List.mem_singleton.1 hq] at hc
              cases hc
  | cancelled T token callback todo =>
    obtain ⟨task, hT, rfl⟩ := Option.map_eq_some_iff.1 hr
    rw [if_pos (he task hT)]
    exact h.points (by simp [Point.closes]) s.shared.completed
  | checking T todo =>
    obtain ⟨task, hT, rfl⟩ := Option.map_eq_some_iff.1 hr
    by_cases hempty : task.callbacksStore.isEmpty
    · rw [if_pos hempty]
      have hnone : task.callbacks = [] := by
        rw [SessionDataTask.callbacks, List.isEmpty_iff.1 hempty, List.map_nil]
      refine h.setTask hT rfl (fun hne => absurd hnone hne) fun q hq T' hc => ?_
      rcases List.mem_append.1 hq with hq | hq
      · exact .inr ⟨q, hold q hq, hc⟩
      · rw [List.mem_singleton.1 hq] at hc
        exact .inl ⟨(beq_iff_eq.1 hc).symm, hnone⟩
    · rw [if_neg hempty]
      exact hrest _
  | completing T result =>
    obtain ⟨task, hT, rfl⟩ := Option.map_eq_some_iff.1 hr
    refine h.setTask hT rfl (by simp [callbacks_removeAllCallbacks]) fun q hq T' hc => ?_
    rcases List.mem_append.1 hq with hq | hq
    · exact .inr ⟨q, hold q hq, hc⟩
    · rw [List.mem_singleton.1 hq] at hc
      exact .inl ⟨(beq_iff_eq.1 hc).symm, rfl⟩
  | taken T result callbacks =>
    obtain ⟨task, hT, rfl⟩ := Option.map_eq_some_iff.1 hr
    cases hst : task.started with
    | true =>
      refine h.points ?_ s.shared.completed
      intro q hq T task hT' hne hc
      rw [if_pos rfl] at hq
      rcases List.mem_append.1 hq with hq | hq
      · obtain ⟨reply, -, rfl⟩ := List.mem_map.1 hq
        cases hc
      · rw [List.mem_singleton.1 hq] at hc
        exact ⟨_, hmem, hc⟩
    | false =>
      -- nobody hears of it, but there is no callback
      have hnone : callbacks = [] := by
        by_contra hne
        rw [he hne task hT] at hst
        cases hst
      subst hnone
      refine h.mono (List.append_nil _) rfl fun T' x hx hne => ⟨⟨x, hx, rfl, hne⟩, fun q hq hc => ?_⟩
      rcases List.mem_append.1 hq with hq | hq
      · exact ⟨q, hold q hq, hc⟩
      · rw [List.mem_singleton.1 hq] at hc
        exact ⟨_, hmem, hc⟩
  | reply T callback result =>
    obtain rfl := Option.some.inj hr
    exact h.points (fun q hq => absurd hq List.not_mem_nil) _
  | removing T todo =>
    obtain ⟨task, hT, rfl⟩ := Option.map_eq_some_iff.1 hr
    obtain ⟨hnone, hothers⟩ := he task hT
    refine ⟨by simp [h.dropped, hnone], fun T' x hx hne => ?_⟩
    rcases Table.getElem?_set_of_some hT hx with ⟨rfl, rfl⟩ | ⟨hother, hx⟩
    · exact absurd (callbacks_removeAllCallbacks task) hne
    · obtain ⟨htable, hclose⟩ := h.waiting T' x hx hne
      have hurl : x.originalURL ≠ task.originalURL := by
        intro hu
        exact hne (hothers T' x (hu ▸ htable) hother hx)
      refine ⟨by simpa [hurl] using htable, fun q hq => ?_⟩
      rcases List.mem_append.1 hq with hq | hq
      · exact hclose q (hold q hq)
      · exact closes_rest todo q hq T'

/-- What a section that is not careful leaves behind. -/
theorem lost_next (hA : ∀ p ∈ s.points, At K s.shared p) (hs : Sound K s.shared) (h : NoneLost s) {i : Nat}
    {p : Point U P D R} (hi : s.points[i]? = some p) (he : ¬ Harmless s p) :
    ∃ r, next K s.shared p = some r ∧ ¬ NoneLost ⟨r.1, s.points.eraseIdx i ++ r.2⟩ := by
  have hAp := hA p (List.mem_of_getElem? hi)
  cases p with
  | found url callback existingTask =>
    cases existingTask with
    | none =>
      refine ⟨_, rfl, fun hn => he fun T task htable hT => ?_⟩
      -- the task of the URL before is hidden by the new one
      by_contra hne
      obtain ⟨x, hx, hu⟩ := exists_task (hs.tasks url T htable)
      obtain rfl := Option.some.inj (hT.symm.trans hx)
      have hlt := (List.getElem?_eq_some_iff.1 hT).1
      obtain ⟨htable', -⟩ := hn.waiting T task (Table.getElem?_concat_eq_some.2 (.inl hT)) hne
      have heq : s.shared.sessionTasks.length = T := by simpa [hu] using htable'
      omega
    | some T =>
      obtain ⟨task, hT, hu⟩ := exists_task (hAp.2 T rfl)
      have hr : next K s.shared (.found url callback (some T)) =
          some (s.shared.setTask T (task.addCallback callback), [.added T]) := by
        simp [next, hT]
      refine ⟨_, hr, fun hn => he ?_⟩
      -- the callback is in a task that is closed, or not in the table
      have hlt := (List.getElem?_eq_some_iff.1 hT).1
      obtain ⟨htable, hclose⟩ := hn.waiting T (task.addCallback callback) (List.getElem?_set_self hlt)
        (by simp [callbacks_addCallback])
      refine ⟨hu ▸ htable, fun q hq => ?_⟩
      rcases mem_or_mem_eraseIdx hi hq with rfl | hq
      · rfl
      · exact hclose q (List.mem_append_left _ hq)
  | removing T todo =>
    obtain ⟨url, hurl⟩ := hAp
    obtain ⟨task, hT, hu⟩ := exists_task hurl
    have hr : next K s.shared (.removing T todo) = some ({ s.shared.setTask T task.removeAllCallbacks with
        tasks := Function.update s.shared.tasks task.originalURL none
        dropped := s.shared.dropped ++ task.callbacks.map (·.id) }, Point.rest todo) := by
      simp [next, hT]
    refine ⟨_, hr, fun hn => he fun x hx => ?_⟩
    obtain rfl := Option.some.inj (hT.symm.trans hx)
    refine ⟨by simpa [h.dropped] using hn.dropped, fun T' task' htable hne hT' => ?_⟩
    -- the URL of another task is cleared
    by_contra hc
    have hT'' : (s.shared.sessionTasks.set T task.removeAllCallbacks)[T']? = some task' := by
      rw [List.getElem?_set_ne (Ne.symm hne), hT']
    obtain ⟨htable', -⟩ := hn.waiting T' task' hT'' hc
    obtain ⟨y, hy, hyu⟩ := exists_task (hs.tasks _ T' htable)
    obtain rfl := Option.some.inj (hT'.symm.trans hy)
    simp [hyu] at htable'
  | added T => exact absurd trivial he
  | cancelled T token callback todo =>
    obtain ⟨url, hurl⟩ := hAp
    obtain ⟨task, hT, -⟩ := exists_task hurl
    have hst : task.started = false := by
      by_contra hst
      refine he fun x hx => ?_
      obtain rfl := Option.some.inj (hT.symm.trans hx)
      exact eq_true_of_ne_false hst
    have hr : next K s.shared (.cancelled T token callback todo) =
        some ({ s.shared with dropped := s.shared.dropped ++ [callback.id] }, [.checking T todo]) := by
      simp [next, hT, hst]
    exact ⟨_, hr, fun hn => List.append_ne_nil_of_right_ne_nil _ (List.cons_ne_nil _ _) hn.dropped⟩
  | taken T result callbacks =>
    obtain ⟨url, hurl, -⟩ := hAp
    obtain ⟨task, hT, -⟩ := exists_task hurl
    have hne : callbacks ≠ [] := fun hnil => he fun hne => absurd hnil hne
    have hst : task.started = false := by
      by_contra hst
      refine he fun _ x hx => ?_
      obtain rfl := Option.some.inj (hT.symm.trans hx)
      exact eq_true_of_ne_false hst
    have hr : next K s.shared (.taken T result callbacks) =
        some ({ s.shared with dropped := s.shared.dropped ++ callbacks.map (·.id) }, [.removing T []]) := by
      simp [next, hT, hst]
    refine ⟨_, hr, fun hn => ?_⟩
    have hdropped : s.shared.dropped ++ callbacks.map (·.id) = [] := hn.dropped
    exact hne (by simpa using (List.append_eq_nil_iff.1 hdropped).2)
  | cancelling todo => exact absurd trivial he
  | checking T todo => exact absurd trivial he
  | completing T result => exact absurd trivial he
  | reply T callback result => exact absurd trivial he

end step

/-! ## Runs -/

section run

variable [DecidableEq U] [DecidableEq I] (K : Processing P I D R)

variable {K} in
theorem careful_step {s t : Pool (Downloader U P D R) (Point U P D R)} {e : Event (Operation U P D)}
    (h : (Sound K s.shared ∧ ∀ p ∈ s.points, At K s.shared p) ∧ NoneLost s) (hq : Careful s e)
    (ht : (pool (imageDownloader K)).step s e = some t) :
    (Sound K t.shared ∧ ∀ p ∈ t.points, At K t.shared p) ∧ NoneLost t := by
  refine ⟨sound_inductive.step s e t h.1 ht, ?_⟩
  rcases step_cases ht with ⟨operation, r, rfl, hr, rfl⟩ | ⟨i, p, r, rfl, hi, hr, rfl⟩
  · exact noneLost_start h.2 hr
  · exact noneLost_next h.1.2 h.2 hi (hq p hi) hr

/-- **The exact condition**: no callback is lost all along a run, if and only if every section of it is harmless where it
runs. -/
theorem never_lost_iff (es : List (Event (Operation U P D))) :
    (pool (imageDownloader K)).Always NoneLost ⟨{}, []⟩ es ↔ (pool (imageDownloader K)).Along Careful ⟨{}, []⟩ es := by
  refine Lts.always_iff_along (fun s : Pool (Downloader U P D R) (Point U P D R) =>
    (Sound K s.shared ∧ ∀ p ∈ s.points, At K s.shared p) ∧ NoneLost s) careful_step And.right ?_ es ?_
  · rintro s e ⟨hs, h⟩ hq
    cases e with
    | start operation => exact absurd trivial hq
    | turn i =>
      simp only [Careful, not_forall] at hq
      obtain ⟨p, hi, he⟩ := hq
      obtain ⟨r, hr, hlost⟩ := lost_next hs.2 hs.1 h hi he
      exact ⟨_, step_turn hi hr, hlost⟩
  · exact ⟨sound_inductive.init, rfl, by simp⟩

variable {K} {s : Pool (Downloader U P D R) (Point U P D R)}

/-- With nothing waiting, in hand or dropped, everything has been called. -/
theorem completed_perm (h : (pool (imageDownloader K)).Reachable s) (hp : s.points = []) (hd : s.shared.dropped = [])
    (hw : ∀ task ∈ s.shared.sessionTasks, task.callbacks = []) :
    (s.shared.completed.map (·.callback)).Perm (List.range s.shared.calls.length) := by
  have htotal := (accounted_inductive.reachable h).2
  have hsum : (s.shared.sessionTasks.map fun task => ids task.callbacks).sum = 0 := by
    refine List.sum_eq_zero fun x hx => ?_
    obtain ⟨task, ht, rfl⟩ := List.mem_map.1 hx
    rw [hw task ht]
    rfl
  simp only [Pool.total, Downloader.accounted, hp, hd, hsum, held, List.map_nil, List.sum_nil, zero_add, add_zero,
    Multiset.coe_nil] at htotal
  exact Multiset.coe_eq_coe.1 htotal

omit [DecidableEq U] [DecidableEq I] in
theorem sessionTasks_start [DecidableEq U] {d : Downloader U P D R} {operation : Operation U P D}
    {r : Downloader U P D R × List (Point U P D R)} (hr : start d operation = some r) :
    r.1.sessionTasks = d.sessionTasks := by
  cases operation with
  | downloadImage url options =>
    obtain rfl := Option.some.inj hr
    rfl
  | cancel T token =>
    obtain ⟨task, -, hr⟩ := Option.bind_eq_some_iff.1 hr
    obtain ⟨-, hr⟩ := Option.ite_none_right_eq_some.1 hr
    obtain rfl := Option.some.inj hr
    rfl
  | cancelURL url =>
    obtain rfl := Option.some.inj hr
    rfl
  | cancelAll taskValues =>
    obtain ⟨-, hr⟩ := Option.ite_none_right_eq_some.1 hr
    obtain rfl := Option.some.inj hr
    rfl
  | report T result =>
    obtain ⟨task, -, hr⟩ := Option.bind_eq_some_iff.1 hr
    obtain ⟨-, hr⟩ := Option.ite_none_right_eq_some.1 hr
    obtain rfl := Option.some.inj hr
    rfl

/-- A task that is not started yet has a thread that will start it. -/
theorem started_inductive : (pool (imageDownloader K)).Inductive fun s : Pool (Downloader U P D R) (Point U P D R) =>
    ∀ (T : Nat) (task : SessionDataTask U P), s.shared.sessionTasks[T]? = some task → task.started = false →
      .added T ∈ s.points where
  init := by simp [pool, imageDownloader]
  step := by
    intro s e t h ht
    have hset : ∀ (task' : SessionDataTask U P) {T : Nat} {task : SessionDataTask U P},
        s.shared.sessionTasks[T]? = some task → task'.started = task.started → ∀ {T' : Nat} {x : SessionDataTask U P},
        (s.shared.sessionTasks.set T task')[T']? = some x → x.started = false → .added T' ∈ s.points := by
      intro task' T task hT hst T' x hx hxs
      rcases Table.getElem?_set_of_some hT hx with ⟨rfl, rfl⟩ | ⟨-, hx⟩
      · exact h T' task hT (hst ▸ hxs)
      · exact h T' x hx hxs
    rcases step_cases ht with ⟨operation, r, rfl, hr, rfl⟩ | ⟨i, p, r, rfl, hi, hr, rfl⟩
    · intro T x hx hxs
      rw [sessionTasks_start hr] at hx
      exact List.mem_append_left _ (h T x hx hxs)
    · have hother : ∀ {T : Nat}, .added T ∈ s.points → p ≠ .added T → .added T ∈ s.points.eraseIdx i ++ r.2 := by
        intro T hm hne
        exact List.mem_append_left _ ((mem_or_mem_eraseIdx hi hm).resolve_left (Ne.symm hne))
      intro T x hx hxs
      cases p with
      | found url callback existingTask =>
        cases existingTask with
        | none =>
          obtain rfl := Option.some.inj hr
          rcases Table.getElem?_concat_eq_some.1 hx with hx | ⟨rfl, -⟩
          · exact hother (h T x hx hxs) (by simp)
          · simp
        | some T' =>
          obtain ⟨task, hT, rfl⟩ := Option.map_eq_some_iff.1 hr
          exact hother (hset (task.addCallback callback) hT rfl hx hxs) (by simp)
      | added T' =>
        obtain ⟨task, hT, rfl⟩ := Option.map_eq_some_iff.1 hr
        rcases Table.getElem?_set_of_some hT hx with ⟨-, rfl⟩ | ⟨hne, hx⟩
        · cases hxs
        · exact hother (h T x hx hxs) (by simpa using Ne.symm hne)
      | cancelling todo =>
        cases todo with
        | nil =>
          obtain rfl := Option.some.inj hr
          exact hother (h T x hx hxs) (by simp)
        | cons c todo =>
          cases c with
          | force T' =>
            obtain ⟨task, hT, rfl⟩ := Option.map_eq_some_iff.1 hr
            exact hother (h T x hx hxs) (by simp)
          | token T' token =>
            obtain ⟨task, hT, rfl⟩ := Option.map_eq_some_iff.1 hr
            cases hremove : task.removeCallback token with
            | none =>
              simp only [hremove] at hx hother ⊢
              exact hother (h T x hx hxs) (by simp)
            | some removed =>
              simp only [hremove] at hx hother ⊢
              exact hother (hset removed.2 hT (callbacks_removeCallback hremove).2.1 hx hxs) (by simp)
      | cancelled T' token callback todo =>
        obtain ⟨task, hT, rfl⟩ := Option.map_eq_some_iff.1 hr
        have hsame : (if task.started then (s.shared, [.reply T' callback (.error (.taskCancelled T' token)),
            .checking T' todo]) else ({ s.shared with dropped := s.shared.dropped ++ [callback.id] },
              [.checking T' todo]) : Downloader U P D R × List (Point U P D R)).1.sessionTasks = s.shared.sessionTasks := by
          split <;> rfl
        exact hother (h T x (hsame ▸ hx) hxs) (by simp)
      | checking T' todo =>
        obtain ⟨task, hT, rfl⟩ := Option.map_eq_some_iff.1 hr
        by_cases hempty : task.callbacksStore.isEmpty
        · simp only [if_pos hempty] at hx hother ⊢
          exact hother (hset { task with isCancelled := true } hT rfl hx hxs) (by simp)
        · simp only [if_neg hempty] at hx hother ⊢
          exact hother (h T x hx hxs) (by simp)
      | completing T' result =>
        obtain ⟨task, hT, rfl⟩ := Option.map_eq_some_iff.1 hr
        exact hother (hset task.removeAllCallbacks hT rfl hx hxs) (by simp)
      | taken T' result callbacks =>
        obtain ⟨task, hT, rfl⟩ := Option.map_eq_some_iff.1 hr
        cases hst : task.started with
        | true =>
          simp only [hst, if_true] at hx hother ⊢
          exact hother (h T x hx hxs) (by simp)
        | false =>
          simp only [hst] at hx hother ⊢
          exact hother (h T x hx hxs) (by simp)
      | reply T' callback result =>
        obtain rfl := Option.some.inj hr
        exact hother (h T x hx hxs) (by simp)
      | removing T' todo =>
        obtain ⟨task, hT, rfl⟩ := Option.map_eq_some_iff.1 hr
        exact hother (hset task.removeAllCallbacks hT rfl hx hxs) (by simp)

variable (K) in
/-- The replies go out one after the other. -/
theorem replies_run (T : Nat) (rest : List (Point U P D R)) : ∀ (replies : List (TaskCallback P × DownloadResult R))
    (d : Downloader U P D R), ∃ completed, (pool (imageDownloader K)).Steps
      ⟨d, replies.map (fun r => .reply T r.1 r.2) ++ rest⟩ ⟨{ d with completed := completed }, rest⟩
  | [], d => ⟨d.completed, .refl _ _⟩
  | r :: replies, d => by
    obtain ⟨completed, hrest⟩ := replies_run T rest replies { d with completed := d.completed ++ [⟨r.1.id, T, r.2⟩] }
    have hturn : (pool (imageDownloader K)).step
        ⟨d, (r :: replies).map (fun r => .reply T r.1 r.2) ++ rest⟩ (.turn 0) = some
          ⟨{ d with completed := d.completed ++ [⟨r.1.id, T, r.2⟩] }, replies.map (fun r => .reply T r.1 r.2) ++ rest ++ []⟩ :=
      rfl
    rw [List.append_nil] at hturn
    exact ⟨completed, (Lts.Steps.single hturn).trans hrest⟩

variable (K) in
/-- The session ends one task: everything that waits in it is called, and it leaves the table. -/
theorem answer_task (hn : NoneLost s) (hp : s.points = []) {T : Nat} {task : SessionDataTask U P}
    (hT : s.shared.sessionTasks[T]? = some task) (hs : task.started = true) (hne : task.callbacks ≠ []) :
    ∃ t, (pool (imageDownloader K)).Steps s t ∧ NoneLost t ∧ t.points = [] ∧ t.shared.calls = s.shared.calls ∧
      t.shared.sessionTasks = s.shared.sessionTasks.set T task.removeAllCallbacks := by
  obtain ⟨d, points⟩ := s
  obtain rfl : points = [] := hp
  obtain ⟨htable, -⟩ := hn.waiting T task hT hne
  let reported : Downloader U P D R := { d with reported := d.reported ++ [(T, .error .responseError)] }
  have hlt := (List.getElem?_eq_some_iff.1 hT).1
  have hreport : (pool (imageDownloader K)).step ⟨d, []⟩ (.start (.report T (.error .responseError))) =
      some ⟨reported, [.completing T (.error .responseError)]⟩ := by
    simp only at hT htable
    simp [pool, Pool.step, imageDownloader, start, hT, hs, htable, reported]
  have htake : (pool (imageDownloader K)).step ⟨reported, [.completing T (.error .responseError)]⟩ (.turn 0) =
      some ⟨reported.setTask T task.removeAllCallbacks, [.taken T (.error .responseError) task.callbacks]⟩ := by
    simp only at hT
    simp [pool, Pool.step, imageDownloader, next, hT, reported]
  have hget : (d.sessionTasks.set T task.removeAllCallbacks)[T]? = some task.removeAllCallbacks :=
    List.getElem?_set_self hlt
  have hreply : (pool (imageDownloader K)).step ⟨reported.setTask T task.removeAllCallbacks,
      [.taken T (.error .responseError) task.callbacks]⟩ (.turn 0) = some ⟨reported.setTask T task.removeAllCallbacks,
        (onTaskDone K (.error .responseError) task.callbacks).map (fun r => .reply T r.1 r.2) ++ [.removing T []]⟩ := by
    have hstarted : task.removeAllCallbacks.started = true := hs
    simp only [pool, Pool.step, imageDownloader, List.getElem?_cons_zero, Option.bind_some, next, Downloader.setTask, hget,
      Option.map_some, hstarted, if_true, reported, List.eraseIdx_cons_zero, List.nil_append]
  obtain ⟨completed, hreplies⟩ := replies_run K T [.removing T []]
    (onTaskDone K (.error .responseError) task.callbacks) (reported.setTask T task.removeAllCallbacks)
  let removed : Downloader U P D R := { reported.setTask T task.removeAllCallbacks with
    tasks := Function.update d.tasks task.originalURL none
    completed := completed }
  have hremove : (pool (imageDownloader K)).step
      ⟨{ reported.setTask T task.removeAllCallbacks with completed := completed }, [.removing T []]⟩ (.turn 0) =
        some ⟨removed, []⟩ := by
    simp only [pool, Pool.step, imageDownloader, List.getElem?_cons_zero, Option.bind_some, next, Downloader.setTask, hget,
      Option.map_some, removed, reported]
    simp [SessionDataTask.removeAllCallbacks, SessionDataTask.callbacks, Point.rest]
  refine ⟨⟨removed, []⟩, (Lts.Steps.single hreport).trans ((Lts.Steps.single htake).trans ((Lts.Steps.single hreply).trans
    (hreplies.trans (.single hremove)))), ⟨hn.dropped, fun T' x hx hxne => ?_⟩, rfl, rfl, rfl⟩
  rcases Table.getElem?_set_of_some hT hx with ⟨rfl, rfl⟩ | ⟨hother, hx⟩
  · exact absurd (callbacks_removeAllCallbacks task) hxne
  · obtain ⟨htable', -⟩ := hn.waiting T' x hx hxne
    have hurl : x.originalURL ≠ task.originalURL := by
      intro hu
      rw [hu, htable] at htable'
      exact hother (Option.some.inj htable').symm
    exact ⟨by simpa [removed, hurl] using htable', by simp⟩

/-- When nothing is lost and no thread under way, the session can answer every call. -/
theorem noneLost_answered (hr : (pool (imageDownloader K)).Reachable s) (hn : NoneLost s) (hp : s.points = []) :
    ∃ t, (pool (imageDownloader K)).Steps s t ∧ NoneLost t ∧ t.points = [] ∧ t.shared.calls = s.shared.calls ∧
      (t.shared.completed.map (·.callback)).Perm (List.range s.shared.calls.length) := by
  let waits : SessionDataTask U P → Nat := fun task => if task.callbacks.isEmpty then 0 else 1
  have hstep : ∀ u : Pool (Downloader U P D R) (Point U P D R),
      ((pool (imageDownloader K)).Reachable u ∧ NoneLost u ∧ u.points = [] ∧ u.shared.calls = s.shared.calls) →
      (∀ task ∈ u.shared.sessionTasks, task.callbacks = []) ∨ ∃ v, (pool (imageDownloader K)).Steps u v ∧
        ((pool (imageDownloader K)).Reachable v ∧ NoneLost v ∧ v.points = [] ∧ v.shared.calls = s.shared.calls) ∧
        (v.shared.sessionTasks.map waits).sum < (u.shared.sessionTasks.map waits).sum := by
    rintro u ⟨hu, hnu, hpu, hcu⟩
    by_cases hw : ∀ task ∈ u.shared.sessionTasks, task.callbacks = []
    · exact .inl hw
    · simp only [not_forall] at hw
      obtain ⟨task, ht, hne⟩ := hw
      obtain ⟨T, hT⟩ := List.getElem?_of_mem ht
      have hstarted : task.started = true := by
        by_contra hs
        have hm := started_inductive.reachable hu T task hT (eq_false_of_ne_true hs)
        rw [hpu] at hm
        cases hm
      obtain ⟨v, huv, hnv, hpv, hcv, hset⟩ := answer_task K hnu hpu hT hstarted hne
      refine .inr ⟨v, huv, ⟨hu.trans huv, hnv, hpv, hcv.trans hcu⟩, ?_⟩
      have hsum := Table.sum_set waits (b := task.removeAllCallbacks) hT
      have h0 : waits task.removeAllCallbacks = 0 := rfl
      have h1 : waits task = 1 := by simp [waits, hne]
      rw [hset]
      omega
  obtain ⟨t, hst, ⟨ht, hnt, hpt, hct⟩, hw⟩ := Lts.steps_of_variant
    (fun u : Pool (Downloader U P D R) (Point U P D R) => (u.shared.sessionTasks.map waits).sum) hstep ⟨hr, hn, hp, rfl⟩
  exact ⟨t, hst, hnt, hpt, hct, hct ▸ completed_perm ht hpt hnt.dropped hw⟩

/-- **Every call is answered once**: in a state where no callback is lost and all threads are through, the callbacks
called are those of all calls if no task is left in the table; and if one is left, the session can still bring it to
this. -/
theorem answered_once (hr : (pool (imageDownloader K)).Reachable s) (hn : NoneLost s) (hp : s.points = []) :
    ((∀ url, s.shared.tasks url = none) →
      (s.shared.completed.map (·.callback)).Perm (List.range s.shared.calls.length)) ∧
    ∃ t, (pool (imageDownloader K)).Steps s t ∧ t.points = [] ∧ t.shared.calls = s.shared.calls ∧
      (t.shared.completed.map (·.callback)).Perm (List.range s.shared.calls.length) := by
  constructor
  · intro hu
    refine completed_perm hr hp hn.dropped fun task ht => ?_
    obtain ⟨T, hT⟩ := List.getElem?_of_mem ht
    by_contra hne
    have htable := (hn.waiting T task hT hne).1
    rw [hu] at htable
    cases htable
  · obtain ⟨t, hst, -, hpt, hct, hperm⟩ := noneLost_answered hr hn hp
    exact ⟨t, hst, hpt, hct, hperm⟩

/-- Two calls wait in one task. -/
theorem answered_once_shared :
    ∃ s t : Pool (Downloader Nat Nat Nat Nat) (Point Nat Nat Nat Nat),
      (pool (imageDownloader sampleProcessing)).run ⟨{}, []⟩ [.start (.downloadImage 8 1), .turn 0, .turn 0,
        .start (.downloadImage 8 2), .turn 0, .turn 0] = some s ∧ s.shared.completed.length = 0 ∧
      (pool (imageDownloader sampleProcessing)).Steps s t ∧ (t.shared.completed.map (·.callback)).Perm [0, 1] := by
  have hrun : ∃ s : Pool (Downloader Nat Nat Nat Nat) (Point Nat Nat Nat Nat),
      (pool (imageDownloader sampleProcessing)).run ⟨{}, []⟩ [.start (.downloadImage 8 1), .turn 0, .turn 0,
        .start (.downloadImage 8 2), .turn 0, .turn 0] = some s ∧ s.shared.completed.length = 0 ∧ s.points = [] ∧
      s.shared.calls.length = 2 ∧ s.shared.dropped = [] ∧ s.shared.tasks 8 = some 0 ∧
      s.shared.sessionTasks.map (·.originalURL) = [8] := ⟨_, rfl, rfl, rfl, rfl, rfl, rfl, rfl⟩
  obtain ⟨s, hs, hc, hp, hl, hd, htable, hurls⟩ := hrun
  have hn : NoneLost s := by
    refine ⟨hd, fun T task hT _ => ?_⟩
    have hurl : (s.shared.sessionTasks.map (·.originalURL))[T]? = some task.originalURL := by
      rw [List.getElem?_map, hT, Option.map_some]
    rw [hurls] at hurl
    obtain ⟨hlt, hurl⟩ := List.getElem?_eq_some_iff.1 hurl
    obtain rfl : T = 0 := by simpa using hlt
    exact ⟨by rw [← hurl]; exact htable, by simp [hp]⟩
  obtain ⟨-, t, hst, -, -, hperm⟩ := answered_once ⟨_, hs⟩ hn hp
  rw [hl] at hperm
  exact ⟨s, t, hs, hc, hst, hperm⟩

end run

end CrossplatformBenchmark.Kingfisher
