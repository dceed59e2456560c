import CrossplatformBenchmark.Image.LoadsOnce
import CrossplatformBenchmark.Image.LostCallbacks

/-!
# How loads end, and what a lost callback costs

* `dropped_loads_forever` — a cell whose callback the downloader has dropped is loading in every later state: nobody
  calls its completion handler any more, and `onAppear` starts nothing for a cell that is loading.
* `cells_settle` — but from every state in which none is lost, every load can come to its end.
-/

namespace CrossplatformBenchmark.Kingfisher

open Transition Threads

variable {D R : Type*} {O : Options D R} {urls : List URL} {init : Pipeline D R}

/-! ## A dropped callback -/

/-- The call has no completion to come. -/
theorem dropped_waits {s : Pipeline D R} (h : Consistent O urls s) {call i : Nat} {url : URL}
    (hh : s.handlers[call]? = some (i, url)) (hd : call ∈ s.downloader.shared.dropped) : call ∈ s.asked i := by
  have hanswered : call ∉ s.answered := by
    intro hm
    obtain ⟨completion, hc, rfl⟩ := List.mem_map.1 hm
    have hnodup := (List.nodup_append.1 (settled_nodup h.downloader).1).2.2
    exact hnodup _ (List.mem_map_of_mem (List.mem_of_mem_take hc)) _ hd rfl
  have hlt := (List.getElem?_eq_some_iff.1 hh).1
  simp only [Pipeline.asked, Finset.mem_filter, Finset.mem_range, hlt, hh, hanswered, Option.map_some,
    not_false_eq_true, and_true]

/-- **A dropped callback is never made up for**: from then on its cell is loading, without an image. -/
theorem dropped_loads_forever (hl : Launched O urls init) {s t : Pool (Pipeline D R) (Block D R)}
    (h : (pool (kingfisherManager O urls init)).Reachable s) {call i : Nat} {url : URL}
    (hh : s.shared.handlers[call]? = some (i, url)) (hd : call ∈ s.shared.downloader.shared.dropped)
    (hst : (pool (kingfisherManager O urls init)).Steps s t) :
    ∃ cell, t.shared.cells[i]? = some cell ∧ cell.loading = true ∧ cell.loadedImage = none := by
  -- neither the handler nor the drop is taken back
  have hkept : (pool (kingfisherManager O urls init)).Preserved fun u : Pool (Pipeline D R) (Block D R) =>
      (pool (kingfisherManager O urls init)).Reachable u ∧ u.shared.handlers[call]? = some (i, url) ∧
        call ∈ u.shared.downloader.shared.dropped := by
    rintro u e v ⟨hu, hhandler, hdropped⟩ hv
    have hgrows := grows_step hl hu hv
    exact ⟨hu.step hv, getElem?_of_prefix hgrows.handlers hhandler, hgrows.dropped.subset hdropped⟩
  obtain ⟨ht, hhandler, hdropped⟩ := hkept.steps ⟨h, hh, hd⟩ hst
  obtain ⟨⟨hs, -⟩, htotal⟩ := (loads_inductive hl).reachable ht
  obtain ⟨⟨cell, hc, -⟩, -⟩ := hs.asking _ (List.mem_of_getElem? hhandler)
  have hloading : cell.loading = true := by
    have hpos := Finset.card_pos.2 ⟨call, dropped_waits hs hhandler hdropped⟩
    have hi := congrFun htotal i
    simp only [Pool.total, Pi.add_apply, Pipeline.loads, Pipeline.waiting, hc, Option.map_some, Option.some.injEq] at hi
    by_contra hn
    rw [if_neg hn] at hi
    omega
  refine ⟨cell, hc, hloading, ?_⟩
  by_contra hn
  have hidle := hs.idle cell (List.mem_of_getElem? hc) (Option.isSome_iff_ne_none.2 hn)
  rw [hloading] at hidle
  cases hidle

/-- Two cells of one URL: the second call is appended to the task whose callbacks have just been taken. -/
theorem dropped_loads_forever_late :
    ∃ s : Pool (Pipeline Nat Nat) (Block Nat Nat),
      (pool (kingfisherManager sampleOptions [sampleURL] {})).run ⟨{}, []⟩ [.start (.cell (some sampleURL)),
        .start (.cell (some sampleURL)), .start (.appear 0), .turn 0, .turn 0, .turn 0, .turn 0, .turn 0,
        .turn 0, .turn 0, .start (.network (.turn 0)), .start (.network (.turn 0)), .start (.appear 1), .turn 0, .turn 0,
        .turn 0, .turn 0, .turn 0, .turn 0, .turn 0, .start (.network (.start (.report 0 (.ok 7)))), .start (.network (.turn 1)), .start (.network (.turn 0)),
        .start (.network (.turn 0)), .start (.network (.turn 2))] = some s ∧
      ∀ t, (pool (kingfisherManager sampleOptions [sampleURL] {})).Steps s t →
        ∃ cell, t.shared.cells[1]? = some cell ∧ cell.loading = true ∧ cell.loadedImage = none := by
  have hrun : ∃ s : Pool (Pipeline Nat Nat) (Block Nat Nat),
      (pool (kingfisherManager sampleOptions [sampleURL] {})).run ⟨{}, []⟩ [.start (.cell (some sampleURL)),
        .start (.cell (some sampleURL)), .start (.appear 0), .turn 0, .turn 0, .turn 0, .turn 0, .turn 0,
        .turn 0, .turn 0, .start (.network (.turn 0)), .start (.network (.turn 0)), .start (.appear 1), .turn 0, .turn 0,
        .turn 0, .turn 0, .turn 0, .turn 0, .turn 0, .start (.network (.start (.report 0 (.ok 7)))), .start (.network (.turn 1)), .start (.network (.turn 0)),
        .start (.network (.turn 0)), .start (.network (.turn 2))] = some s ∧
      s.shared.handlers[1]? = some (1, sampleURL) ∧ s.shared.downloader.shared.dropped = [1] := ⟨_, rfl, rfl, rfl⟩
  obtain ⟨s, hs, hh, hd⟩ := hrun
  exact ⟨s, hs, fun t hst => dropped_loads_forever .install ⟨_, hs⟩ hh (by simp [hd]) hst⟩

/-! ## Without a loss -/

/-- Bounds what comes of the block. -/
def Block.rank : Block D R → Nat
  | .retrieve _ _ => 15
  | .checkDisk _ _ => 14
  | .checkDiskAt _ _ _ => 13
  | .checkOriginal _ _ => 12
  | .checkOriginalDisk _ _ => 11
  | .checkOriginalDiskAt _ _ _ => 10
  | .download _ _ => 9
  | .cached _ _ | .cacheImage _ _ _ => 7
  | .load _ _ => 6
  | .loadAt _ _ _ => 5
  | .store _ _ _ _ _ => 4
  | .loaded _ _ _ | .setAttributes _ _ _ _ => 3
  | .insertMaybeCached _ _ _ _ => 2
  | .stored _ _ _ _ | .extend _ _ _ => 1
  | .original _ _ => 0
  | .clean fileNames => fileNames.length + 3
  | .cleanAt fileNames _ => fileNames.length + 2
  | .removeFiles fileNames => fileNames.length + 1

/-- What is left to do: a call that is not answered yet will bring one more block. -/
def potential (s : Pool (Pipeline D R) (Block D R)) : Nat :=
  held Block.rank s.points + 8 * (s.shared.handlers.length - s.shared.received)

theorem next_lowers {s : Pipeline D R} (hsha : O.CollisionFree urls) {block : Block D R} (hb : Known O urls s block)
    (hne : ∀ i url, block ≠ .download i url) :
    ∃ r, s.next O block = some r ∧ held Block.rank r.2 < block.rank ∧ r.1.downloader = s.downloader ∧
      r.1.handlers = s.handlers ∧ r.1.received = s.received := by
  cases block with
  | retrieve i url =>
    refine ⟨_, rfl, ?_, rfl, rfl, rfl⟩
    dsimp only
    split <;> simp [held, Block.rank]
  | checkDisk i url => exact ⟨_, rfl, by simp [held, Block.rank], rfl, rfl, rfl⟩
  | checkDiskAt i url referenceDate =>
    refine ⟨_, rfl, ?_, rfl, rfl, rfl⟩
    dsimp only
    split <;> simp [held, Block.rank]
  | cached i url =>
    cases hv : (s.memoryStorage.value s.now (O.key url) .cacheTime).1 with
    | none => exact ⟨_, by simp only [Pipeline.next, hv]; rfl, by simp [held, Block.rank], rfl, rfl, rfl⟩
    | some image => exact ⟨_, by simp only [Pipeline.next, hv]; rfl, by simp [held, Block.rank], rfl, rfl, rfl⟩
  | load i url => exact ⟨_, rfl, by simp [held, Block.rank], rfl, rfl, rfl⟩
  | loadAt i url referenceDate =>
    cases hl : s.diskStorage.lookup referenceDate (O.fileName url) with
    | none => exact ⟨_, by simp only [Pipeline.next, hl]; rfl, by simp [held, Block.rank], rfl, rfl, rfl⟩
    | some file => exact ⟨_, by simp only [Pipeline.next, hl]; rfl, by simp [held, Block.rank], rfl, rfl, rfl⟩
  | loaded i url image =>
    cases image with
    | none => exact ⟨_, rfl, by simp [held, Block.rank], rfl, rfl, rfl⟩
    | some image => exact ⟨_, rfl, by simp [held, Block.rank], rfl, rfl, rfl⟩
  | checkOriginal i url =>
    refine ⟨_, rfl, ?_, rfl, rfl, rfl⟩
    dsimp only
    split <;> simp [held, Block.rank]
  | checkOriginalDisk i url => exact ⟨_, rfl, by simp [held, Block.rank], rfl, rfl, rfl⟩
  | checkOriginalDiskAt i url referenceDate =>
    refine ⟨_, rfl, ?_, rfl, rfl, rfl⟩
    dsimp only
    split <;> simp [held, Block.rank]
  | original i url => exact absurd hsha hb
  | download i url => exact absurd rfl (hne i url)
  | cacheImage i url result =>
    cases result with
    | error error => exact ⟨_, rfl, by simp [held, Block.rank], rfl, rfl, rfl⟩
    | ok loaded =>
      obtain ⟨image, original⟩ := loaded
      refine ⟨_, by simp only [Pipeline.next, apply_cacheInitiated]; rfl, by simp [held, Block.rank], ?_, ?_, ?_⟩
      all_goals
        dsimp only
        split <;> rfl
  | store i url image original coordinator =>
    cases hd : O.data image (some original) with
    | none => exact ⟨_, by simp only [Pipeline.next, hd]; rfl, by simp [held, Block.rank], rfl, rfl, rfl⟩
    | some data =>
      by_cases he : O.diskExpiration.isExpired s.now
      · exact ⟨_, by simp only [Pipeline.next, hd, he, if_true]; rfl, by simp [held, Block.rank], rfl, rfl, rfl⟩
      · exact ⟨_, by simp only [Pipeline.next, hd, he]; rfl, by simp [held, Block.rank], rfl, rfl, rfl⟩
  | setAttributes i url image coordinator =>
    cases hd : s.diskStorage.setAttributes s.now (O.fileName url) O.diskExpiration with
    | none => exact ⟨_, by simp only [Pipeline.next, hd]; rfl, by simp [held, Block.rank], rfl, rfl, rfl⟩
    | some diskStorage => exact ⟨_, by simp only [Pipeline.next, hd]; rfl, by simp [held, Block.rank], rfl, rfl, rfl⟩
  | insertMaybeCached i url image coordinator => exact ⟨_, rfl, by simp [held, Block.rank], rfl, rfl, rfl⟩
  | stored i url image coordinator =>
    obtain ⟨-, -, rfl⟩ := hb
    refine ⟨_, by simp only [Pipeline.next, apply_cachingImage]; rfl, by simp [held, Block.rank], ?_, ?_, ?_⟩
    all_goals
      dsimp only
      split <;> rfl
  | extend fileName last estimated => exact ⟨_, rfl, by simp [held, Block.rank], rfl, rfl, rfl⟩
  | clean fileNames => exact ⟨_, rfl, by simp [held, Block.rank], rfl, rfl, rfl⟩
  | cleanAt fileNames referenceDate =>
    have hle : (s.diskStorage.expiredFiles referenceDate fileNames).length ≤ fileNames.length := List.length_filter_le _ _
    exact ⟨_, rfl, by simp only [held, Block.rank, List.map_cons, List.map_nil, List.sum_cons, List.sum_nil]; omega, rfl, rfl,
      rfl⟩
  | removeFiles fileNames =>
    cases fileNames with
    | nil => exact ⟨_, rfl, by simp [held, Block.rank], rfl, rfl, rfl⟩
    | cons fileName fileNames =>
      by_cases hf : (s.diskStorage.files fileName).isNone
      · exact ⟨_, by simp only [Pipeline.next, hf, if_true]; rfl, by simp [held, Block.rank], rfl, rfl, rfl⟩
      · exact ⟨_, by simp only [Pipeline.next, hf]; rfl, by simp [held, Block.rank], rfl, rfl, rfl⟩

section download

variable {d d' : Pool (Downloader URL String D (R × D)) (Point URL String D (R × D))}

/-- A call that no other thread comes between is put into a task, and the task is started. -/
theorem download_through (hd : (pool O.download).Reachable d) (hn : NoneLost d) (hp : d.points = []) (url : URL)
    (processor : String) : ∃ d₁ d₂, (pool O.download).step d (.start (.downloadImage url processor)) = some d₁ ∧
      (pool O.download).Steps d₁ d₂ ∧ NoneLost d₂ ∧ d₂.points = [] ∧ d₁.shared.calls = d.shared.calls ++ [(url, processor)] ∧
      d₂.shared.calls = d₁.shared.calls := by
  obtain ⟨x, points⟩ := d
  obtain rfl : points = [] := hp
  have hsound := sound_inductive.reachable hd
  let y : Downloader URL String D (R × D) := { x with calls := x.calls ++ [(url, processor)] }
  let p : Point URL String D (R × D) := .found url ⟨x.calls.length, processor⟩ (x.tasks url)
  have hstart : (pool O.download).step ⟨x, []⟩ (.start (.downloadImage url processor)) = some ⟨y, [p]⟩ := rfl
  have hfound : ∃ (r : Downloader URL String D (R × D)) (T : Nat) (task : SessionDataTask URL String),
      O.download.next y p = some (r, [.added T]) ∧ r.sessionTasks[T]? = some task ∧ r.calls = y.calls := by
    cases ht : x.tasks url with
    | none =>
      refine ⟨{ y with
        sessionTasks := x.sessionTasks ++ [SessionDataTask.addCallback { originalURL := url } ⟨x.calls.length, processor⟩]
        tasks := Function.update x.tasks url (some x.sessionTasks.length) }, x.sessionTasks.length, _, ?_,
        List.getElem?_concat_length, rfl⟩
      simp only [p, ht]
      rfl
    | some T =>
      obtain ⟨task, hT, -⟩ := exists_task (hsound.1.tasks url T ht)
      have hlt := (List.getElem?_eq_some_iff.1 hT).1
      refine ⟨y.setTask T (task.addCallback ⟨x.calls.length, processor⟩), T, _, ?_, List.getElem?_set_self hlt, rfl⟩
      simp [Options.download, imageDownloader, next, p, ht, y, hT]
  obtain ⟨r, T, task, hr, hT, hcalls⟩ := hfound
  have hfirst : (pool O.download).step ⟨y, [p]⟩ (.turn 0) = some ⟨r, [.added T]⟩ :=
    step_turn (s := ⟨y, [p]⟩) rfl hr
  have hsecond : (pool O.download).step ⟨r, [.added T]⟩ (.turn 0) = some ⟨r.setTask T { task with started := true }, []⟩ := by
    simp [pool, Pool.step, Options.download, imageDownloader, next, hT]
  refine ⟨⟨y, [p]⟩, ⟨r.setTask T { task with started := true }, []⟩, hstart, (Lts.Steps.single hfirst).trans (.single hsecond),
    ?_, rfl, rfl, hcalls⟩
  -- each of the three sections is careful
  have hexpected : Careful (⟨y, [p]⟩ : Pool (Downloader URL String D (R × D)) (Point URL String D (R × D))) (.turn 0) := by
    rintro q hq
    obtain rfl := Option.some.inj hq
    cases ht : x.tasks url with
    | none =>
      simp only [p, ht]
      intro T' task' htable
      rw [show y.tasks url = none from ht] at htable
      cases htable
    | some T' =>
      simp only [p, ht]
      exact ⟨ht, by simp [Point.closes]⟩
  have hadded : Careful (⟨r, [.added T]⟩ : Pool (Downloader URL String D (R × D)) (Point URL String D (R × D))) (.turn 0) := by
    rintro q hq
    obtain rfl := Option.some.inj hq
    trivial
  have hcalled := careful_step ⟨hsound, hn⟩ (show Careful _ (.start _) from trivial) hstart
  exact (careful_step (careful_step hcalled hexpected hfirst) hadded hsecond).2

theorem calls_le (hr : (pool O.download).Reachable d) (hst : (pool O.download).Steps d d') :
    d.shared.calls.length ≤ d'.shared.calls.length := by
  have hkeep : (pool O.download).Preserved fun u : Pool (Downloader URL String D (R × D)) (Point URL String D (R × D)) =>
      (pool O.download).Reachable u ∧ d.shared.calls.length ≤ u.shared.calls.length := by
    rintro u e v ⟨hu, hle⟩ hv
    refine ⟨hu.step hv, hle.trans ?_⟩
    rcases (later_step hu hv).2.2.2 with hc | ⟨url, processor, -, hc⟩ <;> simp [hc]
  exact (hkeep.steps ⟨hr, Nat.le_refl _⟩ hst).2

/-- What the downloader does by itself, it also does in the pipeline. -/
theorem network_steps {init : Pipeline D R} (hr : (pool O.download).Reachable d) (hst : (pool O.download).Steps d d')
    (hc : d'.shared.calls.length ≤ d.shared.calls.length) {s : Pipeline D R} (hd : s.downloader = d)
    (points : List (Block D R)) :
    (pool (kingfisherManager O urls init)).Steps ⟨s, points⟩ ⟨{ s with downloader := d' }, points⟩ := by
  obtain ⟨es, hes⟩ := hst
  induction es generalizing d s with
  | nil =>
    obtain rfl := Option.some.inj hes
    obtain rfl := hd
    exact .refl _ _
  | cons e es ih =>
    obtain ⟨u, hu, hes⟩ := Option.bind_eq_some_iff.1 hes
    have hlater : u.shared.calls.length ≤ d'.shared.calls.length := calls_le (hr.step hu) ⟨es, hes⟩
    have hrequest : s.start O urls (.network e) = some ({ s with downloader := u }, []) := by
      have hne : ∀ url processor, e ≠ .start (.downloadImage url processor) := by
        rintro url processor rfl
        obtain rfl := Option.some.inj hu
        simp at hlater
        omega
      rw [start_network hne, hd, hu, Option.map_some]
    have hstep : (pool (kingfisherManager O urls init)).step ⟨s, points⟩ (.start (.network e)) =
        some ⟨{ s with downloader := u }, points⟩ := by
      simp [pool, Pool.step, kingfisherManager, hrequest]
    exact (Lts.Steps.single hstep).trans (ih (hr.step hu) (hc.trans (calls_le hr (.single hu))) rfl hes)

end download

/-- Every completion has been received: each call has been answered once. -/
theorem answered_perm {s : Pipeline D R} (hs : Consistent O urls s) (hr : s.handlers.length ≤ s.received) :
    s.answered.Perm (List.range s.handlers.length) := by
  have hnodup : s.answered.Nodup := (completed_nodup hs.downloader).sublist ((List.take_sublist _ _).map _)
  refine (hnodup.subperm fun call hc => List.mem_range.2 (answered_lt hs call hc)).perm_of_length_le ?_
  rw [List.length_range, Pipeline.answered, List.length_map, List.length_take, Nat.min_eq_left hs.received]
  exact hr

/-- And with no block under way, no cell is loading. -/
theorem received_all {init : Pipeline D R} (hl : Launched O urls init) {s : Pool (Pipeline D R) (Block D R)}
    (h : (pool (kingfisherManager O urls init)).Reachable s) (hp : s.points = [])
    (hr : s.shared.handlers.length ≤ s.shared.received) : ∀ cell ∈ s.shared.cells, cell.loading = false := by
  obtain ⟨⟨hs, -⟩, htotal⟩ := (loads_inductive hl).reachable h
  intro cell hc
  obtain ⟨i, hi⟩ := List.getElem?_of_mem hc
  have hasked : s.shared.asked i = ∅ := by
    refine Finset.filter_eq_empty_iff.2 fun call hcall hno => hno.2 ?_
    exact (answered_perm hs hr).mem_iff.2 (List.mem_range.2 (Finset.mem_range.1 hcall))
  have hloads := congrFun htotal i
  simp only [Pool.total, Pi.add_apply, held_weight, hp, List.countP_nil, Pipeline.waiting, hasked, Finset.card_empty,
    Pipeline.loads, hi, Option.map_some, Option.some.injEq] at hloads
  by_contra hn
  rw [if_pos (eq_true_of_ne_false hn)] at hloads
  omega

theorem shows_steps {init : Pipeline D R} (hl : Launched O urls init) {s t : Pool (Pipeline D R) (Block D R)}
    (h : (pool (kingfisherManager O urls init)).Reachable s) (hst : (pool (kingfisherManager O urls init)).Steps s t) (i : Nat)
    (url : URL) (hs : s.shared.Shows i url) : t.shared.Shows i url := by
  have hkept : (pool (kingfisherManager O urls init)).Preserved fun u : Pool (Pipeline D R) (Block D R) =>
      (pool (kingfisherManager O urls init)).Reachable u ∧ u.shared.Shows i url :=
    fun _ _ _ hu hv => ⟨hu.1.step hv, (grows_step hl hu.1 hv).shows i url hu.2⟩
  exact (hkept.steps ⟨h, hs⟩ hst).2

/-- Nothing is lost, and no thread of the downloader is under way. -/
def Quiet (s : Pool (Pipeline D R) (Block D R)) : Prop :=
  NoneLost s.shared.downloader ∧ s.shared.downloader.points = []

/-- The next block runs, a download up to the start of its task. -/
theorem block_turn (hsha : O.CollisionFree urls) {init : Pipeline D R} (hl : Launched O urls init)
    {s : Pool (Pipeline D R) (Block D R)} (h : (pool (kingfisherManager O urls init)).Reachable s) (hq : Quiet s)
    {block : Block D R} {rest : List (Block D R)} (hp : s.points = block :: rest) :
    ∃ t, (pool (kingfisherManager O urls init)).Steps s t ∧ Quiet t ∧ potential t < potential s := by
  obtain ⟨x, points⟩ := s
  obtain rfl : points = block :: rest := hp
  obtain ⟨hs, hk⟩ := (consistent_inductive (consistent_launched hl)).reachable h
  by_cases hb : ∃ i url, block = .download i url
  · obtain ⟨i, url, rfl⟩ := hb
    obtain ⟨d₁, d₂, hstart, hown, hn, hp, hcall, hcalls⟩ := download_through hs.downloader hq.1 hq.2 url O.identifier
    have hnext : x.next O (.download i url) =
        some ({ x with downloader := d₁, handlers := x.handlers ++ [(i, url)] }, []) := by
      simp only [Pipeline.next, hstart, Option.map_some]
    have hturn : (pool (kingfisherManager O urls init)).step ⟨x, .download i url :: rest⟩ (.turn 0) =
        some ⟨{ x with downloader := d₁, handlers := x.handlers ++ [(i, url)] }, rest⟩ := by
      simp [pool, Pool.step, kingfisherManager, hnext]
    refine ⟨_, (Lts.Steps.single hturn).trans (network_steps (hs.downloader.step hstart) hown
      (Nat.le_of_eq (congrArg List.length hcalls)) rfl _), ⟨hn, hp⟩, ?_⟩
    simp only [potential, held, List.map_cons, List.sum_cons, Block.rank, List.length_append, List.length_singleton]
    omega
  · obtain ⟨r, hr, hlt, hd, hh, hreceived⟩ := next_lowers hsha (hk block List.mem_cons_self)
      fun i url he => hb ⟨i, url, he⟩
    have hturn : (pool (kingfisherManager O urls init)).step ⟨x, block :: rest⟩ (.turn 0) = some ⟨r.1, rest ++ r.2⟩ :=
      step_turn (s := ⟨x, block :: rest⟩) rfl hr
    refine ⟨_, .single hturn, ⟨by rw [hd]; exact hq.1, by rw [hd]; exact hq.2⟩, ?_⟩
    simp only [held] at hlt
    simp only [potential, held, List.map_cons, List.map_append, List.sum_cons, List.sum_append, hh, hreceived]
    omega

/-- The session answers what it has been asked for, and a completion comes to the main queue. -/
theorem receive_turn {init : Pipeline D R} (hl : Launched O urls init) {s : Pool (Pipeline D R) (Block D R)}
    (h : (pool (kingfisherManager O urls init)).Reachable s) (hq : Quiet s) (hp : s.points = [])
    (hlt : s.shared.received < s.shared.handlers.length) :
    ∃ t, (pool (kingfisherManager O urls init)).Steps s t ∧ Quiet t ∧ potential t < potential s := by
  obtain ⟨x, points⟩ := s
  obtain rfl : points = [] := hp
  obtain ⟨hs, -⟩ := (consistent_inductive (consistent_launched hl)).reachable h
  obtain ⟨d, hown, hn, hnone, hcalls, hperm⟩ := noneLost_answered hs.downloader hq.1 hq.2
  have hlength : x.downloader.shared.calls.length = x.handlers.length := by rw [hs.handlers, List.length_map]
  have hanswered : x.received < d.shared.completed.length := by
    have hsame := hperm.length_eq
    rw [List.length_map, List.length_range, hlength] at hsame
    exact hsame ▸ hlt
  have hcompletion := List.getElem?_eq_getElem hanswered
  have hcallback : (d.shared.completed[x.received]).callback < x.handlers.length := by
    rw [← hlength, ← List.mem_range]
    exact hperm.subset (List.mem_map_of_mem (List.getElem_mem hanswered))
  have hhandler := List.getElem?_eq_getElem hcallback
  have hreceive : (pool (kingfisherManager O urls init)).step ⟨{ x with downloader := d }, []⟩ (.start .receive) =
      some ⟨{ x with downloader := d, received := x.received + 1 },
        [.cacheImage x.handlers[(d.shared.completed[x.received]).callback].1
          x.handlers[(d.shared.completed[x.received]).callback].2 (d.shared.completed[x.received]).result]⟩ := by
    simp only [pool, Pool.step, kingfisherManager, Pipeline.start, hcompletion, hhandler, Option.bind_some, Option.map_some,
      List.nil_append]
  refine ⟨_, (network_steps hs.downloader hown (Nat.le_of_eq (congrArg List.length hcalls)) rfl []).trans (.single hreceive),
    ⟨hn, hnone⟩, ?_⟩
  simp only at hlt
  simp only [potential, held, List.map_cons, List.map_nil, List.sum_cons, List.sum_nil, Block.rank]
  omega

/-- **Without a loss every load can come to its end**: from any state in which the downloader has dropped nothing and its
threads are through, the session can answer so that no block is left, every call has been answered once, and no cell is
loading. -/
theorem cells_settle (hsha : O.CollisionFree urls) {init : Pipeline D R} (hl : Launched O urls init)
    {s : Pool (Pipeline D R) (Block D R)} (h : (pool (kingfisherManager O urls init)).Reachable s)
    (hn : NoneLost s.shared.downloader) (hp : s.shared.downloader.points = []) :
    ∃ t, (pool (kingfisherManager O urls init)).Steps s t ∧ t.points = [] ∧
      t.shared.answered.Perm (List.range t.shared.handlers.length) ∧ (∀ cell ∈ t.shared.cells, cell.loading = false) ∧
      ∀ i url, s.shared.Shows i url →
        ∃ cell, t.shared.cells[i]? = some cell ∧ cell.url = some url ∧ cell.loading = false := by
  have hprogress : ∀ u : Pool (Pipeline D R) (Block D R), (pool (kingfisherManager O urls init)).Reachable u ∧ Quiet u →
      (u.points = [] ∧ u.shared.handlers.length ≤ u.shared.received) ∨
        ∃ v, (pool (kingfisherManager O urls init)).Steps u v ∧
          ((pool (kingfisherManager O urls init)).Reachable v ∧ Quiet v) ∧ potential v < potential u := by
    rintro u ⟨hu, hq⟩
    cases hpoints : u.points with
    | cons block rest =>
      obtain ⟨v, huv, hv, hlt⟩ := block_turn hsha hl hu hq hpoints
      exact .inr ⟨v, huv, ⟨hu.trans huv, hv⟩, hlt⟩
    | nil =>
      by_cases hr : u.shared.handlers.length ≤ u.shared.received
      · exact .inl ⟨rfl, hr⟩
      · obtain ⟨v, huv, hv, hlt⟩ := receive_turn hl hu hq hpoints (Nat.lt_of_not_le hr)
        exact .inr ⟨v, huv, ⟨hu.trans huv, hv⟩, hlt⟩
  obtain ⟨t, hst, ⟨ht, -⟩, hnone, hr⟩ := Lts.steps_of_variant potential hprogress ⟨h, hn, hp⟩
  obtain ⟨hconsistent, -⟩ := (consistent_inductive (consistent_launched hl)).reachable ht
  have hidle := received_all hl ht hnone hr
  refine ⟨t, hst, hnone, answered_perm hconsistent hr, hidle, fun i url hshows => ?_⟩
  obtain ⟨cell, hc, hu⟩ := shows_steps hl h hst i url hshows
  exact ⟨cell, hc, hu, hidle cell (List.mem_of_getElem? hc)⟩

/-- The first cell waits for the downloader, the retrieval of the second one is under way. -/
theorem cells_settle_two :
    ∃ s t : Pool (Pipeline Nat Nat) (Block Nat Nat),
      (pool (kingfisherManager sampleOptions [sampleURL] {})).run ⟨{}, []⟩ [.start (.cell (some sampleURL)),
        .start (.cell (some sampleURL)), .start (.appear 0), .turn 0, .turn 0, .turn 0, .turn 0, .turn 0,
        .turn 0, .turn 0, .start (.network (.turn 0)), .start (.network (.turn 0)), .start (.appear 1)] = some s ∧
      s.shared.cells.map (·.loading) = [true, true] ∧
      (pool (kingfisherManager sampleOptions [sampleURL] {})).Steps s t ∧ t.points = [] ∧
      t.shared.answered.Perm (List.range t.shared.handlers.length) ∧ (∀ cell ∈ t.shared.cells, cell.loading = false) ∧
      (∃ cell, t.shared.cells[0]? = some cell ∧ cell.url = some sampleURL ∧ cell.loading = false) ∧
      ∃ cell, t.shared.cells[1]? = some cell ∧ cell.url = some sampleURL ∧ cell.loading = false := by
  have hrun : ∃ s : Pool (Pipeline Nat Nat) (Block Nat Nat),
      (pool (kingfisherManager sampleOptions [sampleURL] {})).run ⟨{}, []⟩ [.start (.cell (some sampleURL)),
        .start (.cell (some sampleURL)), .start (.appear 0), .turn 0, .turn 0, .turn 0, .turn 0, .turn 0,
        .turn 0, .turn 0, .start (.network (.turn 0)), .start (.network (.turn 0)), .start (.appear 1)] = some s ∧
      s.shared.cells = [⟨some sampleURL, true, false, none⟩, ⟨some sampleURL, true, false, none⟩] ∧
      s.shared.downloader.points = [] ∧ s.shared.downloader.shared.dropped = [] ∧
      s.shared.downloader.shared.sessionTasks = [⟨sampleURL, [(0, ⟨0, sampleOptions.identifier⟩)], 1, true, false⟩] ∧
      s.shared.downloader.shared.tasks sampleURL = some 0 := ⟨_, rfl, rfl, rfl, rfl, rfl, rfl⟩
  obtain ⟨s, hs, hcells, hp, hd, htasks, htable⟩ := hrun
  have hn : NoneLost s.shared.downloader := by
    refine ⟨hd, fun T task hT _ => ?_⟩
    rw [htasks] at hT
    obtain rfl : T = 0 := by
      have hlt := (List.getElem?_eq_some_iff.1 hT).1
      simpa using hlt
    obtain rfl := Option.some.inj hT
    exact ⟨htable, by simp [hp]⟩
  obtain ⟨t, hst, hpoints, hanswered, hidle, hsettled⟩ := cells_settle (fun _ _ _ _ he => he) .install ⟨_, hs⟩ hn hp
  exact ⟨s, t, hs, by rw [hcells]; rfl, hst, hpoints, hanswered, hidle, hsettled 0 sampleURL ⟨_, by rw [hcells]; rfl, rfl⟩,
    hsettled 1 sampleURL ⟨_, by rw [hcells]; rfl, rfl⟩⟩

end CrossplatformBenchmark.Kingfisher
