import CrossplatformBenchmark.Image.Pictures

/-!
# No cell loads twice (ImageBinder.swift, KFImageRenderer.swift:55-66)

`onAppear` starts a retrieval unless the binder is `loadingOrSucceeded`. That is enough: `loads_once` — a cell that is
loading has exactly one retrieval, which is with a block of the manager or waits for the downloader, and the others have
none.
-/

namespace CrossplatformBenchmark.Kingfisher

open Transition Threads

variable {D R : Type*}

/-- The cell, if the completion handler has not been triggered. -/
def CacheCallbackCoordinator.State.pending (i : Nat) : CacheCallbackCoordinator.State → Option Nat
  | .done => none
  | _ => some i

/-- The cell whose completion handler the block still has to call. -/
def Block.retrieval : Block D R → Option Nat
  | .retrieve i _ | .checkDisk i _ | .checkDiskAt i _ _ | .cached i _ | .load i _ | .loadAt i _ _ | .loaded i _ _
  | .checkOriginal i _ | .checkOriginalDisk i _ | .checkOriginalDiskAt i _ _ | .original i _ | .download i _
  | .cacheImage i _ _ => some i
  | .store i _ _ _ coordinator | .setAttributes i _ _ coordinator | .insertMaybeCached i _ _ coordinator
  | .stored i _ _ coordinator => coordinator.pending i
  | .extend _ _ _ | .clean _ | .cleanAt _ _ | .removeFiles _ => none

namespace Pipeline

/-- The `downloadImage` calls whose completion has come to the main queue. -/
def answered (s : Pipeline D R) : List Nat := (s.downloader.shared.completed.take s.received).map (·.callback)

/-- The calls of the downloader that the cell waits for. -/
def asked (s : Pipeline D R) (i : Nat) : Finset Nat :=
  (Finset.range s.handlers.length).filter fun call => s.handlers[call]?.map Prod.fst = some i ∧ call ∉ s.answered

def waiting (s : Pipeline D R) (i : Nat) : Nat := (s.asked i).card

def loads (s : Pipeline D R) (i : Nat) : Nat := if s.cells[i]?.map Cell.loading = some true then 1 else 0

end Pipeline

/-- 1 at this cell. -/
def one (cell : Option Nat) (i : Nat) : Nat := if cell = some i then 1 else 0

def Block.weight (block : Block D R) : Nat → Nat := one block.retrieval

variable {O : Options D R} {urls : List URL} {s t : Pipeline D R}

/-- Nothing that counts has changed. -/
theorem waiting_eq (hh : t.handlers = s.handlers) (ha : t.answered = s.answered) : t.waiting = s.waiting := by
  funext i
  rw [Pipeline.waiting, Pipeline.waiting, Pipeline.asked, Pipeline.asked, hh, ha]

theorem waiting_download (s : Pipeline D R) (i : Nat) (url : URL)
    (d : Pool (Downloader URL String D (R × D)) (Point URL String D (R × D)))
    (hd : d.shared.completed = s.downloader.shared.completed) (hlt : ∀ call ∈ s.answered, call < s.handlers.length) :
    Pipeline.waiting { s with downloader := d, handlers := s.handlers ++ [(i, url)] } = s.waiting + one (some i) := by
  funext j
  have hanswered : Pipeline.answered { s with downloader := d, handlers := s.handlers ++ [(i, url)] } = s.answered := by
    simp [Pipeline.answered, hd]
  have hnew : s.handlers.length ∉ s.answered := fun hm => Nat.lt_irrefl _ (hlt _ hm)
  have hold : (Finset.range s.handlers.length).filter (fun call =>
      (s.handlers ++ [(i, url)])[call]?.map Prod.fst = some j ∧ call ∉ s.answered) = s.asked j := by
    refine Finset.filter_congr fun call hc => ?_
    rw [List.getElem?_append_left (Finset.mem_range.1 hc)]
  simp only [Pipeline.waiting, Pipeline.asked, hanswered, List.length_append, List.length_singleton, Pi.add_apply, one]
  rw [Finset.range_add_one, Finset.filter_insert, hold]
  by_cases he : i = j
  · subst he
    rw [if_pos (by simp [hnew]), Finset.card_insert_of_notMem (by simp [Pipeline.asked]), if_pos rfl]
    rfl
  · rw [if_neg (by simp [he]), if_neg (by simp [he]), add_zero]
    rfl

/-- A completion comes to the main queue. -/
theorem waiting_receive {completion : Completion (R × D)} {handler : Nat × URL}
    (hc : s.downloader.shared.completed[s.received]? = some completion)
    (hh : s.handlers[completion.callback]? = some handler)
    (hnodup : (s.downloader.shared.completed.map (·.callback)).Nodup) :
    Pipeline.waiting { s with received := s.received + 1 } + one (some handler.1) = s.waiting := by
  funext j
  have hanswered : Pipeline.answered { s with received := s.received + 1 } = s.answered ++ [completion.callback] := by
    simp [Pipeline.answered, List.take_add_one, hc]
  have hnew : completion.callback ∉ s.answered := by
    have hnodup' : (s.answered ++ [completion.callback]).Nodup := by
      rw [← hanswered]
      exact hnodup.sublist ((List.take_sublist _ _).map _)
    exact fun hm => (List.disjoint_of_nodup_append hnodup') hm (List.mem_singleton.2 rfl)
  have hasked : Pipeline.asked { s with received := s.received + 1 } j = (s.asked j).erase completion.callback := by
    ext call
    simp only [Pipeline.asked, hanswered, Finset.mem_filter, Finset.mem_erase, List.mem_append, List.mem_singleton, not_or]
    tauto
  have hmem : completion.callback ∈ s.asked j ↔ handler.1 = j := by
    have hlt := (List.getElem?_eq_some_iff.1 hh).1
    simp only [Pipeline.asked, Finset.mem_filter, Finset.mem_range, hlt, hh, hnew, Option.map_some, Option.some.injEq,
      true_and, not_false_eq_true, and_true]
  simp only [Pipeline.waiting, hasked, Pi.add_apply, one, Option.some.injEq]
  by_cases he : handler.1 = j
  · rw [if_pos he, Finset.card_erase_add_one (hmem.2 he)]
  · rw [if_neg he, Finset.erase_eq_of_notMem (fun hm => he (hmem.1 hm)), add_zero]

/-- A completion handler ends the load that it belongs to. -/
theorem loads_complete {i : Nat} (hl : s.loads i = 1) (image : Option R) :
    (s.complete i image).loads + one (some i) = s.loads := by
  funext j
  simp only [Pipeline.loads, Pi.add_apply, one] at hl ⊢
  have hcell : s.cells[i]?.map Cell.loading = some true := by
    by_contra hn
    rw [if_neg hn] at hl
    cases hl
  obtain ⟨cell, hc, hloading⟩ := Option.map_eq_some_iff.1 hcell
  by_cases he : i = j
  · subst he
    rw [if_pos rfl, if_pos hcell, Pipeline.complete, Table.getElem?_modify_of_some _ hc]
    simp
  · have hsame : (s.complete i image).cells[j]? = s.cells[j]? := by
      simp [Pipeline.complete, he]
    rw [hsame, if_neg (fun h => he (Option.some.inj h)), add_zero]

/-- A block that goes on with the same retrieval. -/
theorem held_singleton (block : Block D R) : held Block.weight [block] = one block.retrieval := by
  simp [held, Block.weight]

theorem answered_lt (h : Consistent O urls s) : ∀ call ∈ s.answered, call < s.handlers.length := by
  intro call hm
  obtain ⟨completion, hc, rfl⟩ := List.mem_map.1 hm
  have hlt := callback_lt h.downloader (List.mem_of_mem_take hc)
  rwa [h.handlers, List.length_map] at hlt

/-- A cell that is not loading starts. -/
theorem loads_set {i : Nat} {cell : Cell R} (hc : s.cells[i]? = some cell) (hl : cell.loading = false) (cell' : Cell R) :
    Pipeline.loads { s with cells := s.cells.set i cell' } =
      s.loads + if cell'.loading then one (some i) else 0 := by
  have hlt := (List.getElem?_eq_some_iff.1 hc).1
  funext j
  simp only [Pipeline.loads, Pi.add_apply]
  by_cases he : i = j
  · subst he
    cases hl' : cell'.loading <;> simp [List.getElem?_set_self hlt, hc, hl, hl', one]
  · have hj : (s.cells.set i cell')[j]? = s.cells[j]? := List.getElem?_set_ne he
    rw [hj]
    cases cell'.loading <;> simp [he, one]

theorem loads_start (h : Consistent O urls s) {request : Request D} {r : Pipeline D R × List (Block D R)}
    (hr : s.start O urls request = some r) :
    ∃ d, r.1.waiting + held Block.weight r.2 = s.waiting + d ∧ r.1.loads = s.loads + d := by
  cases request with
  | cell url =>
    obtain ⟨-, hr⟩ := Option.ite_none_right_eq_some.1 hr
    obtain rfl := Option.some.inj hr
    refine ⟨0, rfl, ?_⟩
    funext j
    simp only [Pipeline.loads, Pi.add_apply, Pi.zero_apply, add_zero]
    rcases Nat.lt_trichotomy j s.cells.length with hj | rfl | hj
    · rw [List.getElem?_append_left hj]
    · simp
    · rw [List.getElem?_eq_none (by simpa using hj), List.getElem?_eq_none (Nat.le_of_lt hj)]
  | appear i =>
    obtain ⟨cell, hc, rfl⟩ := Option.map_eq_some_iff.1 hr
    split
    · exact ⟨0, rfl, rfl⟩
    · rename_i hidle
      obtain ⟨source, loading, loaded, loadedImage⟩ := cell
      obtain ⟨rfl, rfl⟩ : loading = false ∧ loadedImage = none := by simpa using hidle
      cases source with
      | none => exact ⟨0, rfl, loads_set hc rfl ⟨none, false, true, none⟩⟩
      | some url => exact ⟨one (some i), by rw [held_singleton]; rfl, loads_set hc rfl ⟨some url, true, loaded, none⟩⟩
  | clock now =>
    obtain rfl := Option.some.inj hr
    exact ⟨0, rfl, rfl⟩
  | evict key =>
    obtain rfl := Option.some.inj hr
    exact ⟨0, rfl, rfl⟩
  | clearMemoryCache =>
    obtain rfl := Option.some.inj hr
    exact ⟨0, rfl, rfl⟩
  | removeExpired =>
    obtain rfl := Option.some.inj hr
    exact ⟨0, rfl, rfl⟩
  | cleanExpiredDiskCache fileNames =>
    obtain rfl := Option.some.inj hr
    exact ⟨0, by rw [held_singleton]; rfl, rfl⟩
  | prepareDirectory =>
    obtain rfl := Option.some.inj hr
    exact ⟨0, rfl, rfl⟩
  | check =>
    obtain rfl := Option.some.inj hr
    exact ⟨0, rfl, rfl⟩
  | network e =>
    obtain ⟨d, hd, rfl, -⟩ := network_start hr
    obtain ⟨-, hcompleted, -, -⟩ := later_step h.downloader hd
    obtain ⟨later, hlater⟩ := hcompleted
    have hanswered : Pipeline.answered { s with downloader := d } = s.answered := by
      simp only [Pipeline.answered, ← hlater, List.take_append_of_le_length h.received]
    exact ⟨0, congrArg (· + 0) (waiting_eq rfl hanswered), rfl⟩
  | receive =>
    obtain ⟨completion, hc, hr⟩ := Option.bind_eq_some_iff.1 hr
    obtain ⟨handler, hh, rfl⟩ := Option.map_eq_some_iff.1 hr
    refine ⟨0, ?_, rfl⟩
    rw [held_singleton, add_zero]
    exact waiting_receive hc hh (completed_nodup h.downloader)

theorem loads_next (h : Consistent O urls s) {block : Block D R} (hb : Known O urls s block)
    (hw : ∃ rest, s.loads = block.weight + rest) {r : Pipeline D R × List (Block D R)} (hr : s.next O block = some r) :
    ∃ c, r.1.waiting + held Block.weight r.2 + c = s.waiting + block.weight ∧ r.1.loads + c = s.loads := by
  have hone : ∀ {i}, block.retrieval = some i → s.loads i = 1 := by
    intro i hi
    obtain ⟨rest, hrest⟩ := hw
    have hle : s.loads i ≤ 1 := by
      unfold Pipeline.loads
      split <;> omega
    have hge := congrFun hrest i
    simp only [Block.weight, Pi.add_apply, hi, one, if_true] at hge
    omega
  cases block with
  | retrieve i url =>
    obtain rfl := Option.some.inj hr
    refine ⟨0, ?_, rfl⟩
    dsimp only
    split <;> rw [held_singleton] <;> rfl
  | checkDisk i url =>
    obtain rfl := Option.some.inj hr
    exact ⟨0, by rw [held_singleton]; rfl, rfl⟩
  | checkDiskAt i url referenceDate =>
    obtain rfl := Option.some.inj hr
    refine ⟨0, ?_, rfl⟩
    dsimp only
    split <;> rw [held_singleton] <;> rfl
  | cached i url =>
    cases hv : (s.memoryStorage.value s.now (O.key url) .cacheTime).1 with
    | none =>
      simp only [Pipeline.next, hv, Option.some.injEq] at hr
      subst hr
      exact ⟨0, by rw [held_singleton]; rfl, rfl⟩
    | some image =>
      simp only [Pipeline.next, hv, Option.some.injEq] at hr
      subst hr
      exact ⟨one (some i), rfl, loads_complete (hone rfl) (some image)⟩
  | load i url =>
    obtain rfl := Option.some.inj hr
    exact ⟨0, by rw [held_singleton]; rfl, rfl⟩
  | loadAt i url referenceDate =>
    cases hl : s.diskStorage.lookup referenceDate (O.fileName url) with
    | none =>
      simp only [Pipeline.next, hl, Option.some.injEq] at hr
      subst hr
      exact ⟨0, by rw [held_singleton]; rfl, rfl⟩
    | some file =>
      simp only [Pipeline.next, hl, Option.some.injEq] at hr
      subst hr
      exact ⟨0, rfl, rfl⟩
  | loaded i url image =>
    cases image with
    | none =>
      obtain rfl := Option.some.inj hr
      exact ⟨one (some i), rfl, loads_complete (hone rfl) none⟩
    | some image =>
      obtain rfl := Option.some.inj hr
      exact ⟨one (some i), rfl, loads_complete (hone rfl) (some image)⟩
  | checkOriginal i url =>
    obtain rfl := Option.some.inj hr
    refine ⟨0, ?_, rfl⟩
    dsimp only
    split <;> rw [held_singleton] <;> rfl
  | checkOriginalDisk i url =>
    obtain rfl := Option.some.inj hr
    exact ⟨0, by rw [held_singleton]; rfl, rfl⟩
  | checkOriginalDiskAt i url referenceDate =>
    obtain rfl := Option.some.inj hr
    refine ⟨0, ?_, rfl⟩
    dsimp only
    split <;> rw [held_singleton] <;> rfl
  | original i url => cases hr
  | download i url =>
    simp only [Pipeline.next, Option.map_eq_some_iff] at hr
    obtain ⟨d, hd, rfl⟩ := hr
    have hcompleted : d.shared.completed = s.downloader.shared.completed := by
      simp only [pool, Pool.step, Options.download, imageDownloader, start, Option.map_some, Option.some.injEq] at hd
      subst hd
      rfl
    refine ⟨0, ?_, rfl⟩
    exact waiting_download s i url d hcompleted (answered_lt h)
  | cacheImage i url result =>
    cases result with
    | error error =>
      obtain rfl := Option.some.inj hr
      exact ⟨one (some i), rfl, loads_complete (hone rfl) none⟩
    | ok loaded =>
      obtain ⟨image, original⟩ := loaded
      simp only [Pipeline.next, apply_cacheInitiated, Option.map_some, Option.some.injEq] at hr
      subst hr
      by_cases hwait : O.waitForCache
      · simp only [hwait, if_true]
        exact ⟨0, by rw [held_singleton]; rfl, rfl⟩
      · simp only [hwait]
        refine ⟨one (some i), by rw [held_singleton]; rfl, loads_complete (hone rfl) (some image)⟩
  | store i url image original coordinator =>
    cases hd : O.data image (some original) with
    | none =>
      simp only [Pipeline.next, hd, Option.some.injEq] at hr
      subst hr
      exact ⟨0, by rw [held_singleton]; rfl, rfl⟩
    | some data =>
      simp only [Pipeline.next, hd] at hr
      split at hr
      · obtain rfl := Option.some.inj hr
        exact ⟨0, by rw [held_singleton]; rfl, rfl⟩
      · obtain rfl := Option.some.inj hr
        exact ⟨0, by rw [held_singleton]; rfl, rfl⟩
  | setAttributes i url image coordinator =>
    cases hd : s.diskStorage.setAttributes s.now (O.fileName url) O.diskExpiration with
    | none =>
      simp only [Pipeline.next, hd, Option.some.injEq] at hr
      subst hr
      exact ⟨0, by rw [held_singleton]; rfl, rfl⟩
    | some diskStorage =>
      simp only [Pipeline.next, hd, Option.some.injEq] at hr
      subst hr
      exact ⟨0, by rw [held_singleton]; rfl, rfl⟩
  | insertMaybeCached i url image coordinator =>
    obtain rfl := Option.some.inj hr
    exact ⟨0, by rw [held_singleton]; rfl, rfl⟩
  | stored i url image coordinator =>
    obtain ⟨-, -, rfl⟩ := hb
    simp only [Pipeline.next, apply_cachingImage, Option.map_some, Option.some.injEq] at hr
    subst hr
    by_cases hwait : O.waitForCache
    · simp only [hwait, if_true] at hone ⊢
      exact ⟨one (some i), rfl, loads_complete (hone rfl) (some image)⟩
    · simp only [hwait]
      exact ⟨0, rfl, rfl⟩
  | extend fileName last estimated =>
    obtain rfl := Option.some.inj hr
    exact ⟨0, rfl, rfl⟩
  | clean fileNames =>
    obtain rfl := Option.some.inj hr
    exact ⟨0, by rw [held_singleton]; rfl, rfl⟩
  | cleanAt fileNames referenceDate =>
    obtain rfl := Option.some.inj hr
    exact ⟨0, by rw [held_singleton]; rfl, rfl⟩
  | removeFiles fileNames =>
    cases fileNames with
    | nil =>
      obtain rfl := Option.some.inj hr
      exact ⟨0, rfl, rfl⟩
    | cons fileName fileNames =>
      simp only [Pipeline.next] at hr
      split at hr
      · obtain rfl := Option.some.inj hr
        exact ⟨0, rfl, rfl⟩
      · obtain rfl := Option.some.inj hr
        exact ⟨0, by rw [held_singleton]; rfl, rfl⟩

theorem loads_inductive {init : Pipeline D R} (hl : Launched O urls init) :
    (pool (kingfisherManager O urls init)).Inductive fun s : Pool (Pipeline D R) (Block D R) =>
      (Consistent O urls s.shared ∧ ∀ block ∈ s.points, Known O urls s.shared block) ∧
        s.total Pipeline.waiting Block.weight = s.shared.loads := by
  refine conserved (consistent_inductive (consistent_launched hl)) ?_ (fun h hr => loads_start h hr)
    fun h hb hw hr => loads_next h hb hw hr
  -- a launch starts without cells and without calls
  have hstart : init.cells = [] ∧ init.handlers = [] := by
    cases hl with
    | install => exact ⟨rfl, rfl⟩
    | relaunch _ _ => exact ⟨rfl, rfl⟩
  funext i
  change init.waiting i = init.loads i
  simp [Pipeline.waiting, Pipeline.asked, Pipeline.loads, hstart]

theorem held_weight (points : List (Block D R)) (i : Nat) :
    held Block.weight points i = points.countP (fun block => block.retrieval = some i) := by
  induction points with
  | nil => rfl
  | cons block points ih =>
    have hcons : held Block.weight (block :: points) = block.weight + held Block.weight points := by
      simp [held]
    rw [hcons, Pi.add_apply, ih, List.countP_cons, Nat.add_comm]
    simp [Block.weight, one]

/-- **No cell loads twice**: the calls of the downloader that a cell waits for and the blocks that will call its
completion handler are one together while it is loading, and none otherwise; with an image it does not load. -/
theorem loads_once {init : Pipeline D R} (hl : Launched O urls init) {s : Pool (Pipeline D R) (Block D R)}
    (h : (pool (kingfisherManager O urls init)).Reachable s) {i : Nat} {cell : Cell R}
    (hc : s.shared.cells[i]? = some cell) :
    (s.shared.asked i).card + s.points.countP (fun block => block.retrieval = some i) = (if cell.loading then 1 else 0) ∧
    (cell.loadedImage.isSome → cell.loading = false) := by
  obtain ⟨⟨hs, -⟩, htotal⟩ := (loads_inductive hl).reachable h
  refine ⟨?_, hs.idle cell (List.mem_of_getElem? hc)⟩
  have hi := congrFun htotal i
  simp only [Pool.total, Pi.add_apply, held_weight, Pipeline.loads, hc, Option.map_some, Option.some.injEq] at hi
  exact hi

/-- The first cell waits for the downloader, the second one's retrieval has just begun. -/
theorem loads_once_two :
    ∃ s : Pool (Pipeline Nat Nat) (Block Nat Nat),
      (pool (kingfisherManager sampleOptions [sampleURL] {})).run ⟨{}, []⟩ [.start (.cell (some sampleURL)),
        .start (.cell (some sampleURL)), .start (.appear 0), .turn 0, .turn 0, .turn 0, .turn 0, .turn 0,
        .turn 0, .turn 0, .start (.appear 1), .start (.appear 0), .start (.appear 1)] = some s ∧
      (s.shared.asked 0).card + s.points.countP (fun block => block.retrieval = some 0) = 1 ∧
      (s.shared.asked 1).card + s.points.countP (fun block => block.retrieval = some 1) = 1 := by
  have hrun : ∃ s : Pool (Pipeline Nat Nat) (Block Nat Nat),
      (pool (kingfisherManager sampleOptions [sampleURL] {})).run ⟨{}, []⟩ [.start (.cell (some sampleURL)),
        .start (.cell (some sampleURL)), .start (.appear 0), .turn 0, .turn 0, .turn 0, .turn 0, .turn 0,
        .turn 0, .turn 0, .start (.appear 1), .start (.appear 0), .start (.appear 1)] = some s ∧
      s.shared.cells = [⟨some sampleURL, true, false, none⟩, ⟨some sampleURL, true, false, none⟩] := ⟨_, rfl, rfl⟩
  obtain ⟨s, hs, hcells⟩ := hrun
  have hfirst : s.shared.cells[0]? = some ⟨some sampleURL, true, false, none⟩ := by rw [hcells]; rfl
  have hsecond : s.shared.cells[1]? = some ⟨some sampleURL, true, false, none⟩ := by rw [hcells]; rfl
  exact ⟨s, hs, (loads_once .install ⟨_, hs⟩ hfirst).1, (loads_once .install ⟨_, hs⟩ hsecond).1⟩

end CrossplatformBenchmark.Kingfisher
