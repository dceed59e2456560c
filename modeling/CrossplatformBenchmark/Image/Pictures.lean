import CrossplatformBenchmark.Image.Manager

/-!
# Every cell shows its own picture

A launch starts from the files of the one before, so what a file holds may have been downloaded long ago.

* `cell_pictures` — an image in a cell is made of data downloaded for its own URL, in this launch or before, or of a URL
  whose file has the same name; and of no other, if no two keys have one hash.
* `storages_exact` — a look-up on disk finds only what is there, and misses no file but one that is just being stored;
  the sweep of the memory storage leaves neither an expired object nor a key without one.
-/

namespace CrossplatformBenchmark.Kingfisher

open Transition Threads

variable {D R : Type*}

/-! ## What images are made of -/

section made

variable (O : Options D R) (urls : List URL)

/-- The processor's image of data fetched for the URL. -/
def Processed (fetched : List (URL × D)) (url : URL) (original : D) (image : R) : Prop :=
  (url, original) ∈ fetched ∧ O.process O.identifier original = some image

/-- Such an image, serialized. -/
def Stored (fetched : List (URL × D)) (url : URL) (data : D) : Prop :=
  ∃ original image, Processed O fetched url original image ∧ O.data image (some original) = some data

/-- Such an image, as it was or read back from the file with its name. -/
def Made (fetched : List (URL × D)) (url : URL) (image : R) : Prop :=
  (∃ original, Processed O fetched url original image) ∨
    ∃ url' ∈ urls, ∃ data, O.fileName url' = O.fileName url ∧ Stored O fetched url' data ∧ O.image data = some image

/-- Such an image, as it was or read back from a file of its own. -/
def Own (fetched : List (URL × D)) (url : URL) (image : R) : Prop :=
  (∃ original, Processed O fetched url original image) ∨
    ∃ data, Stored O fetched url data ∧ O.image data = some image

variable {O urls} {fetched fetched' : List (URL × D)} {url : URL}

theorem Processed.mono {original : D} {image : R} (h : Processed O fetched url original image) (hf : fetched ⊆ fetched') :
    Processed O fetched' url original image := ⟨hf h.1, h.2⟩

theorem Stored.mono {data : D} (h : Stored O fetched url data) (hf : fetched ⊆ fetched') : Stored O fetched' url data := by
  obtain ⟨original, image, hp, hd⟩ := h
  exact ⟨original, image, hp.mono hf, hd⟩

theorem Made.mono {image : R} (h : Made O urls fetched url image) (hf : fetched ⊆ fetched') :
    Made O urls fetched' url image :=
  h.imp (fun ⟨original, hp⟩ => ⟨original, hp.mono hf⟩) fun ⟨url', hu, data, hn, hs, hi⟩ =>
    ⟨url', hu, data, hn, hs.mono hf, hi⟩

end made

/-- The data fetched for each URL, in earlier launches and in this one. -/
def Pipeline.fetched (s : Pipeline D R) : List (URL × D) :=
  s.history ++ s.downloader.shared.reported.filterMap fun report =>
    match report with
    | (T, .ok data) => s.downloader.shared.urls[T]?.map fun url => (url, data)
    | (_, .error _) => none

/-- What the next launch finds. -/
def Pipeline.relaunch (s : Pipeline D R) : Pipeline D R where
  now := s.now
  diskStorage := { directory := s.diskStorage.directory, files := s.diskStorage.files }
  history := s.fetched

/-- The states in which a launch can start. -/
inductive Launched (O : Options D R) (urls : List URL) : Pipeline D R → Prop
  | install : Launched O urls {}
  | relaunch {init : Pipeline D R} {s : Pool (Pipeline D R) (Block D R)} : Launched O urls init →
      (pool (kingfisherManager O urls init)).Reachable s → Launched O urls s.shared.relaunch

/-! ## Keys -/

namespace Options

variable {O : Options D R} {urls : List URL}

/-- No two keys of these URLs have one hash. -/
def CollisionFree (O : Options D R) (urls : List URL) : Prop :=
  Set.InjOn O.sha256 {key | ∃ url ∈ urls, key = O.key url ∨ key = url.absoluteString}

theorem key_injective {url url' : URL} (h : O.key url = O.key url') : url = url' := by
  obtain ⟨absoluteString, hblank⟩ := url
  obtain ⟨absoluteString', hblank'⟩ := url'
  obtain rfl : absoluteString = absoluteString' := computedKey_injective O.identifier h
  rfl

/-- The identifier of the processor tells a processed image from an original. -/
theorem key_ne (url url' : URL) : O.key url ≠ url'.absoluteString := by
  intro h
  have hmem : ' ' ∈ (O.key url).toList := mem_computedKey (blank_mem_identifier O.size)
  rw [h] at hmem
  exact url'.noBlank hmem

theorem CollisionFree.fileName_ne (h : O.CollisionFree urls) {url url' : URL} (hu : url ∈ urls) (hu' : url' ∈ urls) :
    O.fileName url ≠ O.sha256 url'.absoluteString :=
  fun he => key_ne url url' (h ⟨url, hu, .inl rfl⟩ ⟨url', hu', .inr rfl⟩ he)

theorem CollisionFree.fileName_inj (h : O.CollisionFree urls) {url url' : URL} (hu : url ∈ urls) (hu' : url' ∈ urls)
    (he : O.fileName url = O.fileName url') : url = url' :=
  key_injective (h ⟨url, hu, .inl rfl⟩ ⟨url', hu', .inl rfl⟩ he)

end Options

theorem Made.own {O : Options D R} {urls : List URL} {fetched : List (URL × D)} {url : URL} {image : R}
    (h : Made O urls fetched url image) (hsha : O.CollisionFree urls) (hu : url ∈ urls) : Own O fetched url image := by
  refine h.imp_right ?_
  rintro ⟨url', hu', data, hn, hs, hi⟩
  obtain rfl := hsha.fileName_inj hu' hu hn
  exact ⟨data, hs, hi⟩

/-! ## The invariant -/

/-- The cell has this URL. -/
def Pipeline.Shows (s : Pipeline D R) (i : Nat) (url : URL) : Prop := ∃ cell, s.cells[i]? = some cell ∧ cell.url = some url

/-- What is never taken back. -/
structure Pipeline.Grows (s t : Pipeline D R) : Prop where
  fetched : s.fetched ⊆ t.fetched
  shows : ∀ i url, s.Shows i url → t.Shows i url
  handlers : s.handlers <+: t.handlers
  dropped : s.downloader.shared.dropped <+: t.downloader.shared.dropped

variable (O : Options D R) (urls : List URL)

structure Consistent (s : Pipeline D R) : Prop where
  downloader : (pool O.download).Reachable s.downloader
  received : s.received ≤ s.downloader.shared.completed.length
  handlers : s.downloader.shared.calls = s.handlers.map fun handler => (handler.2, O.identifier)
  asking : ∀ handler ∈ s.handlers, s.Shows handler.1 handler.2 ∧ handler.2 ∈ urls
  tracked : s.memoryStorage.Tracked
  memory : ∀ key object, s.memoryStorage.storage key = some object →
    ∃ url, key = O.key url ∧ Made O urls s.fetched url object.value
  files : ∀ fileName file, s.diskStorage.files fileName = some file →
    ∃ url ∈ urls, fileName = O.fileName url ∧ Stored O s.fetched url file.data
  cells : ∀ cell ∈ s.cells, (∀ url ∈ cell.url, url ∈ urls) ∧
    ∀ image, cell.loadedImage = some image → ∃ url, cell.url = some url ∧ Made O urls s.fetched url image
  idle : ∀ cell ∈ s.cells, cell.loadedImage.isSome → cell.loading = false

/-- What is known in a block. -/
def Known (s : Pipeline D R) : Block D R → Prop
  | .retrieve i url | .checkDisk i url | .checkDiskAt i url _ | .cached i url | .load i url | .loadAt i url _
  | .checkOriginal i url | .checkOriginalDisk i url | .checkOriginalDiskAt i url _ | .download i url =>
    s.Shows i url ∧ url ∈ urls
  | .original _ _ => ¬ O.CollisionFree urls
  | .loaded i url image => (s.Shows i url ∧ url ∈ urls) ∧ ∀ x ∈ image, Made O urls s.fetched url x
  | .cacheImage i url result => (s.Shows i url ∧ url ∈ urls) ∧
      ∀ r, result = .ok r → Processed O s.fetched url r.2 r.1
  | .store i url image original coordinator => (s.Shows i url ∧ url ∈ urls) ∧ Processed O s.fetched url original image ∧
      coordinator = if O.waitForCache then .idle else .done
  | .setAttributes i url image coordinator | .insertMaybeCached i url image coordinator | .stored i url image coordinator =>
    (s.Shows i url ∧ url ∈ urls) ∧ Made O urls s.fetched url image ∧ coordinator = if O.waitForCache then .idle else .done
  | .extend _ _ _ | .clean _ | .cleanAt _ _ | .removeFiles _ => True

variable {O urls} {s t : Pipeline D R}

/-- Neither the cells nor the downloader have changed. -/
theorem Pipeline.Grows.of_eq (hc : t.cells = s.cells) (hd : t.downloader = s.downloader) (hh : t.history = s.history)
    (ha : t.handlers = s.handlers) : s.Grows t := by
  refine ⟨?_, fun i url => ?_, ha ▸ List.prefix_rfl, hd ▸ List.prefix_rfl⟩
  · rw [Pipeline.fetched, Pipeline.fetched, hd, hh]
    exact List.Subset.refl _
  · rw [Pipeline.Shows, Pipeline.Shows, hc]
    exact id

theorem Known.mono {block : Block D R} (h : Known O urls s block) (hg : s.Grows t) : Known O urls t block := by
  cases block with
  | retrieve i url => exact h.imp_left (hg.shows i url)
  | checkDisk i url => exact h.imp_left (hg.shows i url)
  | checkDiskAt i url referenceDate => exact h.imp_left (hg.shows i url)
  | cached i url => exact h.imp_left (hg.shows i url)
  | load i url => exact h.imp_left (hg.shows i url)
  | loadAt i url referenceDate => exact h.imp_left (hg.shows i url)
  | loaded i url image => exact ⟨h.1.imp_left (hg.shows i url), fun x hx => (h.2 x hx).mono hg.fetched⟩
  | checkOriginal i url => exact h.imp_left (hg.shows i url)
  | checkOriginalDisk i url => exact h.imp_left (hg.shows i url)
  | checkOriginalDiskAt i url referenceDate => exact h.imp_left (hg.shows i url)
  | original i url => exact h
  | download i url => exact h.imp_left (hg.shows i url)
  | cacheImage i url result => exact ⟨h.1.imp_left (hg.shows i url), fun r hr => (h.2 r hr).mono hg.fetched⟩
  | store i url image original coordinator =>
    exact ⟨h.1.imp_left (hg.shows i url), h.2.1.mono hg.fetched, h.2.2⟩
  | setAttributes i url image coordinator => exact ⟨h.1.imp_left (hg.shows i url), h.2.1.mono hg.fetched, h.2.2⟩
  | insertMaybeCached i url image coordinator => exact ⟨h.1.imp_left (hg.shows i url), h.2.1.mono hg.fetched, h.2.2⟩
  | stored i url image coordinator => exact ⟨h.1.imp_left (hg.shows i url), h.2.1.mono hg.fetched, h.2.2⟩
  | extend fileName lastAccessDate lastEstimatedExpiration => trivial
  | clean fileNames => trivial
  | cleanAt fileNames referenceDate => trivial
  | removeFiles fileNames => trivial

namespace Consistent

theorem setMemory (h : Consistent O urls s) {memory : MemoryStorage R} (ht : memory.Tracked)
    (hm : ∀ key object, memory.storage key = some object → ∃ url, key = O.key url ∧ Made O urls s.fetched url object.value) :
    Consistent O urls { s with memoryStorage := memory } :=
  { h with tracked := ht, memory := hm }

theorem setDisk (h : Consistent O urls s) {disk : DiskStorage D}
    (hf : ∀ fileName file, disk.files fileName = some file →
      ∃ url ∈ urls, fileName = O.fileName url ∧ Stored O s.fetched url file.data) :
    Consistent O urls { s with diskStorage := disk } :=
  { h with files := hf }

/-- The objects in memory are only moved or dropped. -/
theorem moveMemory (h : Consistent O urls s) {memory : MemoryStorage R} (ht : memory.Tracked)
    (hm : ∀ key object, memory.storage key = some object →
      ∃ object', s.memoryStorage.storage key = some object' ∧ object'.value = object.value) :
    Consistent O urls { s with memoryStorage := memory } := by
  refine h.setMemory ht fun key object hk => ?_
  obtain ⟨object', hobject, hv⟩ := hm key object hk
  exact hv ▸ h.memory key object' hobject

/-- The files are only touched or dropped. -/
theorem moveDisk (h : Consistent O urls s) {disk : DiskStorage D}
    (hf : ∀ fileName file, disk.files fileName = some file →
      ∃ file', s.diskStorage.files fileName = some file' ∧ file'.data = file.data) :
    Consistent O urls { s with diskStorage := disk } := by
  refine h.setDisk fun fileName file hk => ?_
  obtain ⟨file', hfile, hd⟩ := hf fileName file hk
  exact hd ▸ h.files fileName file' hfile

theorem storeNoThrow (h : Consistent O urls s) {url : URL} {image : R} (hm : Made O urls s.fetched url image) :
    Consistent O urls
      { s with memoryStorage := s.memoryStorage.storeNoThrow s.now image (O.key url) O.memoryExpiration } := by
  refine h.setMemory (h.tracked.storeNoThrow _ _) fun key object hk => ?_
  rcases MemoryStorage.storage_storeNoThrow hk with ⟨rfl, hv⟩ | hk
  · exact ⟨url, rfl, hv ▸ hm⟩
  · exact h.memory key object hk

theorem sync (h : Consistent O urls s) : Consistent O urls { s with diskStorage := s.diskStorage.sync } :=
  h.moveDisk fun fileName file hf => ⟨file, by rwa [DiskStorage.files_sync] at hf, rfl⟩

end Consistent

theorem grows_memory (s : Pipeline D R) (memory : MemoryStorage R) : s.Grows { s with memoryStorage := memory } :=
  .of_eq rfl rfl rfl rfl

theorem grows_complete (h : s.Grows t) (i : Nat) (image : Option R) : s.Grows (t.complete i image) := by
  refine ⟨h.fetched, fun j url hs => ?_, h.handlers, h.dropped⟩
  obtain ⟨cell, hc, hu⟩ := h.shows j url hs
  refine ⟨_, Table.getElem?_modify_of_some _ hc, ?_⟩
  split
  · exact hu
  · exact hu

theorem Consistent.complete (h : Consistent O urls s) {i : Nat} {url : URL} {image : Option R} (hs : s.Shows i url)
    (hm : ∀ x ∈ image, Made O urls s.fetched url x) : Consistent O urls (s.complete i image) := by
  have hcells : ∀ cell ∈ (s.complete i image).cells, (∀ url ∈ cell.url, url ∈ urls) ∧
      ∀ x, cell.loadedImage = some x → ∃ url, cell.url = some url ∧ Made O urls s.fetched url x := by
    intro cell hcell
    obtain ⟨j, hj⟩ := List.getElem?_of_mem hcell
    obtain ⟨old, hold, rfl⟩ := Table.getElem?_modify_eq_some hj
    obtain ⟨hurls, himage⟩ := h.cells old (List.mem_of_getElem? hold)
    by_cases he : i = j
    · subst he
      obtain ⟨cell', hc', hu⟩ := hs
      obtain rfl := Option.some.inj (hold.symm.trans hc')
      simp only [if_true]
      refine ⟨hurls, fun x hx => ?_⟩
      rcases Option.or_eq_some_iff.1 hx with hx | ⟨-, hx⟩
      · exact ⟨url, hu, hm x hx⟩
      · exact himage x hx
    · simp only [if_neg he]
      exact ⟨hurls, himage⟩
  refine { h with
    asking := fun handler hh => ?_
    cells := hcells
    idle := fun cell hcell hsome => ?_ }
  · exact (h.asking handler hh).imp_left ((grows_complete (.of_eq rfl rfl rfl rfl) i image).shows _ _)
  · obtain ⟨j, hj⟩ := List.getElem?_of_mem hcell
    obtain ⟨old, hold, rfl⟩ := Table.getElem?_modify_eq_some hj
    by_cases he : i = j
    · simp [he]
    · simp only [if_neg he] at hsome ⊢
      exact h.idle old (List.mem_of_getElem? hold) hsome

theorem mem_fetched {url : URL} {data : D} : (url, data) ∈ s.fetched ↔ (url, data) ∈ s.history ∨
    ∃ T, (T, .ok data) ∈ s.downloader.shared.reported ∧ s.downloader.shared.urls[T]? = some url := by
  simp only [Pipeline.fetched, List.mem_append, List.mem_filterMap]
  refine or_congr_right ⟨?_, ?_⟩
  · rintro ⟨⟨T, result⟩, hr, h⟩
    cases result with
    | ok data' =>
      obtain ⟨url', hu, he⟩ := Option.map_eq_some_iff.1 h
      obtain ⟨rfl, rfl⟩ := Prod.mk.inj he
      exact ⟨T, hr, hu⟩
    | error error => cases h
  · rintro ⟨T, hr, hu⟩
    exact ⟨_, hr, Option.map_eq_some_iff.2 ⟨url, hu, rfl⟩⟩

/-- The downloader goes on, perhaps with one more call. -/
theorem Consistent.setDownloader (h : Consistent O urls s) {e : Event (Operation URL String D)}
    {d : Pool (Downloader URL String D (R × D)) (Point URL String D (R × D))} {handlers : List (Nat × URL)}
    (hd : (pool O.download).step s.downloader e = some d)
    (hcalls : d.shared.calls = handlers.map fun handler => (handler.2, O.identifier)) (hh : s.handlers <+: handlers)
    (hask : ∀ handler ∈ handlers, s.Shows handler.1 handler.2 ∧ handler.2 ∈ urls) :
    Consistent O urls { s with downloader := d, handlers := handlers } ∧
      s.Grows { s with downloader := d, handlers := handlers } := by
  obtain ⟨hlater, hcompleted, hdropped, -⟩ := later_step h.downloader hd
  have hgrows : s.Grows { s with downloader := d, handlers := handlers } := by
    refine ⟨fun x hx => ?_, fun _ _ hs => hs, hh, hdropped⟩
    obtain ⟨url, data⟩ := x
    refine mem_fetched.2 ((mem_fetched.1 hx).imp id ?_)
    rintro ⟨T, hr, hu⟩
    exact ⟨T, hlater.reported.subset hr, hlater.url hu⟩
  refine ⟨{ h with
    downloader := h.downloader.step hd
    received := h.received.trans hcompleted.length_le
    handlers := hcalls
    asking := hask
    memory := fun key object hk => ?_
    files := fun fileName file hf => ?_
    cells := fun cell hc => ?_ }, hgrows⟩
  · obtain ⟨url, hkey, hmade⟩ := h.memory key object hk
    exact ⟨url, hkey, hmade.mono hgrows.fetched⟩
  · obtain ⟨url, hu, hname, hstored⟩ := h.files fileName file hf
    exact ⟨url, hu, hname, hstored.mono hgrows.fetched⟩
  · obtain ⟨hurls, himage⟩ := h.cells cell hc
    refine ⟨hurls, fun image hi => ?_⟩
    obtain ⟨url, hu, hmade⟩ := himage image hi
    exact ⟨url, hu, hmade.mono hgrows.fetched⟩

/-- A cell is touched, not its URL, nor its image. -/
theorem Consistent.setCell (h : Consistent O urls s) (cell' : Cell R) {i : Nat} {cell : Cell R} (hc : s.cells[i]? = some cell)
    (hu : cell'.url = cell.url) (hi : cell'.loadedImage = cell.loadedImage)
    (hidle : cell'.loadedImage.isSome → cell'.loading = false) :
    Consistent O urls { s with cells := s.cells.set i cell' } ∧ s.Grows { s with cells := s.cells.set i cell' } := by
  have hlt := (List.getElem?_eq_some_iff.1 hc).1
  have hgrows : s.Grows { s with cells := s.cells.set i cell' } := by
    refine ⟨List.Subset.refl _, ?_, List.prefix_rfl, List.prefix_rfl⟩
    rintro j url ⟨x, hx, hxu⟩
    by_cases he : j = i
    · subst he
      obtain rfl := Option.some.inj (hc.symm.trans hx)
      exact ⟨cell', List.getElem?_set_self hlt, hu.trans hxu⟩
    · exact ⟨x, by rw [List.getElem?_set_ne (Ne.symm he), hx], hxu⟩
  refine ⟨{ h with
    asking := fun handler hh => ⟨hgrows.shows _ _ (h.asking handler hh).1, (h.asking handler hh).2⟩
    cells := fun x hx => ?_
    idle := fun x hx hsome => ?_ }, hgrows⟩
  · rcases List.mem_or_eq_of_mem_set hx with hx | rfl
    · exact h.cells x hx
    · rw [hu, hi]
      exact h.cells cell (List.mem_of_getElem? hc)
  · rcases List.mem_or_eq_of_mem_set hx with hx | rfl
    · exact h.idle x hx hsome
    · exact hidle hsome

/-- The downloader goes on by itself. -/
theorem start_network {e : Event (Operation URL String D)}
    (hne : ∀ url processor, e ≠ .start (.downloadImage url processor)) :
    s.start O urls (.network e) =
      ((pool O.download).step s.downloader e).map fun downloader => ({ s with downloader := downloader }, []) := by
  cases e with
  | start operation =>
    cases operation with
    | downloadImage url processor => exact absurd rfl (hne url processor)
    | cancel T token => rfl
    | cancelURL url => rfl
    | cancelAll taskValues => rfl
    | report T result => rfl
  | turn i => rfl

theorem network_start {e : Event (Operation URL String D)} {r : Pipeline D R × List (Block D R)}
    (hr : s.start O urls (.network e) = some r) :
    ∃ d, (pool O.download).step s.downloader e = some d ∧ r = ({ s with downloader := d }, []) ∧
      ∀ url processor, e ≠ .start (.downloadImage url processor) := by
  have hne : ∀ url processor, e ≠ .start (.downloadImage url processor) := by
    rintro url processor rfl
    cases hr
  rw [start_network hne] at hr
  obtain ⟨d, hd, rfl⟩ := Option.map_eq_some_iff.1 hr
  exact ⟨d, hd, rfl, hne⟩

theorem consistent_start (h : Consistent O urls s) {request : Request D} {r : Pipeline D R × List (Block D R)}
    (hr : s.start O urls request = some r) :
    Consistent O urls r.1 ∧ (∀ block ∈ r.2, Known O urls r.1 block) ∧ s.Grows r.1 := by
  cases request with
  | cell url =>
    obtain ⟨hurl, hr⟩ := Option.ite_none_right_eq_some.1 hr
    obtain rfl := Option.some.inj hr
    have hgrows : s.Grows { s with cells := s.cells ++ [{ url := url }] } :=
      ⟨List.Subset.refl _, fun i u ⟨cell, hc, hu⟩ => ⟨cell, getElem?_of_prefix (List.prefix_append _ _) hc, hu⟩,
        List.prefix_rfl, List.prefix_rfl⟩
    refine ⟨{ h with
      asking := fun handler hh => ⟨hgrows.shows _ _ (h.asking handler hh).1, (h.asking handler hh).2⟩
      cells := fun cell hc => ?_
      idle := fun cell hc hsome => ?_ }, by simp, hgrows⟩
    · rcases List.mem_append.1 hc with hc | hc
      · exact h.cells cell hc
      · rw [List.mem_singleton.1 hc]
        exact ⟨hurl, by simp⟩
    · rcases List.mem_append.1 hc with hc | hc
      · exact h.idle cell hc hsome
      · rw [List.mem_singleton.1 hc]
  | appear i =>
    obtain ⟨cell, hc, rfl⟩ := Option.map_eq_some_iff.1 hr
    split
    · exact ⟨h, by simp, .of_eq rfl rfl rfl rfl⟩
    · rename_i hidle
      obtain ⟨source, loading, loaded, loadedImage⟩ := cell
      obtain ⟨rfl, rfl⟩ : loading = false ∧ loadedImage = none := by simpa using hidle
      cases source with
      | none =>
        obtain ⟨h', hgrows⟩ := h.setCell ⟨none, false, true, none⟩ hc rfl rfl (by simp)
        exact ⟨h', by simp, hgrows⟩
      | some url =>
        obtain ⟨h', hgrows⟩ := h.setCell ⟨some url, true, loaded, none⟩ hc rfl rfl (by simp)
        refine ⟨h', fun block hb => ?_, hgrows⟩
        rw [List.mem_singleton.1 hb]
        exact ⟨hgrows.shows i url ⟨_, hc, rfl⟩, (h.cells _ (List.mem_of_getElem? hc)).1 url rfl⟩
  | clock now =>
    obtain rfl := Option.some.inj hr
    exact ⟨{ h with }, by simp, .of_eq rfl rfl rfl rfl⟩
  | evict key =>
    obtain rfl := Option.some.inj hr
    exact ⟨h.moveMemory (h.tracked.evict key) fun k object hk => ⟨object, MemoryStorage.storage_evict hk, rfl⟩, by simp,
      .of_eq rfl rfl rfl rfl⟩
  | clearMemoryCache =>
    obtain rfl := Option.some.inj hr
    refine ⟨h.moveMemory (fun k object hk => ?_) fun k object hk => ?_, by simp, .of_eq rfl rfl rfl rfl⟩
    · cases hk
    · cases hk
  | removeExpired =>
    obtain rfl := Option.some.inj hr
    exact ⟨h.moveMemory h.tracked.removeExpired fun k object hk =>
      ⟨object, MemoryStorage.storage_removeExpired hk, rfl⟩, by simp, .of_eq rfl rfl rfl rfl⟩
  | cleanExpiredDiskCache fileNames =>
    obtain rfl := Option.some.inj hr
    exact ⟨h, by simp [Known], .of_eq rfl rfl rfl rfl⟩
  | prepareDirectory =>
    obtain rfl := Option.some.inj hr
    exact ⟨h.moveDisk fun fileName file hf => ⟨file, hf, rfl⟩, by simp, .of_eq rfl rfl rfl rfl⟩
  | check =>
    obtain rfl := Option.some.inj hr
    exact ⟨h.moveDisk fun fileName file hf => ⟨file, by rwa [DiskStorage.files_check] at hf, rfl⟩, by simp,
      .of_eq rfl rfl rfl rfl⟩
  | network e =>
    obtain ⟨d, hd, rfl, hne⟩ := network_start hr
    obtain ⟨-, -, -, hcalls | ⟨url, processor, he, -⟩⟩ := later_step h.downloader hd
    · obtain ⟨h', hgrows⟩ := h.setDownloader hd (hcalls.trans h.handlers) List.prefix_rfl h.asking
      exact ⟨h', by simp, hgrows⟩
    · exact absurd he (hne url processor)
  | receive =>
    obtain ⟨completion, hc, hr⟩ := Option.bind_eq_some_iff.1 hr
    obtain ⟨handler, hh, rfl⟩ := Option.map_eq_some_iff.1 hr
    have hlt := (List.getElem?_eq_some_iff.1 hc).1
    refine ⟨{ h with received := hlt }, fun block hb => ?_, .of_eq rfl rfl rfl rfl⟩
    rw [List.mem_singleton.1 hb]
    refine ⟨h.asking handler (List.mem_of_getElem? hh), fun x hx => ?_⟩
    obtain ⟨url, processor, data, hcall, hurl, hreported, processor', shared, -, hsame, hprocess, rfl⟩ :=
      (sound_inductive.reachable h.downloader).1.completed completion (List.mem_of_getElem? hc) x hx
    rw [h.handlers, List.getElem?_map, hh, Option.map_some, Option.some.injEq] at hcall
    obtain ⟨rfl, rfl⟩ := Prod.mk.inj hcall
    -- the options are the identifier, so that an image that is shared is the call's own
    obtain rfl : processor' = O.identifier := hsame
    obtain ⟨image, himage, rfl⟩ := Option.map_eq_some_iff.1 hprocess
    exact ⟨mem_fetched.2 (.inr ⟨completion.task, hreported, hurl⟩), himage⟩

theorem Consistent.extendExpiration (h : Consistent O urls s) (fileName : String) (last estimated : Int) :
    Consistent O urls
      { s with diskStorage := s.diskStorage.extendExpiration s.now fileName last estimated } :=
  h.moveDisk fun _ _ hf => DiskStorage.files_extendExpiration hf

/-- No original is ever cached. -/
theorem Consistent.original_not_cached (h : Consistent O urls s) (hsha : O.CollisionFree urls) {url : URL}
    (hu : url ∈ urls) (date : Int) : s.memoryStorage.isCached date url.absoluteString = false ∧
      s.diskStorage.isCached date (O.sha256 url.absoluteString) = false := by
  constructor
  · by_contra hc
    obtain ⟨object, hobject, -⟩ := MemoryStorage.isCached_eq_true.1 (eq_true_of_ne_false hc)
    obtain ⟨url', hkey, -⟩ := h.memory _ object hobject
    exact Options.key_ne url' url hkey.symm
  · by_contra hc
    obtain ⟨file, hfile⟩ := Option.isSome_iff_exists.1 (eq_true_of_ne_false hc)
    obtain ⟨url', hu', hname, -⟩ := h.files _ file (DiskStorage.lookup_eq_some hfile).1
    exact hsha.fileName_ne hu' hu hname.symm

theorem apply_cacheInitiated (s : Pipeline D R) (i : Nat) (image : Option R) :
    s.apply O .idle .cacheInitiated i image =
      some (if O.waitForCache then (s, .idle) else (s.complete i image, .done)) := by
  cases hw : O.waitForCache <;> simp [Pipeline.apply, CacheCallbackCoordinator.apply, hw]

theorem apply_cachingImage (s : Pipeline D R) (i : Nat) (image : Option R) :
    s.apply O (if O.waitForCache then .idle else .done) .cachingImage i image =
      some (if O.waitForCache then s.complete i image else s, .done) := by
  cases hw : O.waitForCache <;> simp [Pipeline.apply, CacheCallbackCoordinator.apply]

theorem consistent_next (h : Consistent O urls s) {block : Block D R}
    (hb : Known O urls s block) {r : Pipeline D R × List (Block D R)} (hr : s.next O block = some r) :
    Consistent O urls r.1 ∧ (∀ block ∈ r.2, Known O urls r.1 block) ∧ s.Grows r.1 := by
  cases block with
  | retrieve i url =>
    obtain rfl := Option.some.inj hr
    refine ⟨h, fun block hm => ?_, .of_eq rfl rfl rfl rfl⟩
    dsimp only at hm
    split at hm <;> rw [List.mem_singleton.1 hm] <;> exact hb
  | checkDisk i url =>
    obtain rfl := Option.some.inj hr
    exact ⟨h, List.forall_mem_singleton.2 hb, .of_eq rfl rfl rfl rfl⟩
  | checkDiskAt i url referenceDate =>
    obtain rfl := Option.some.inj hr
    refine ⟨h.sync, fun block hm => ?_, .of_eq rfl rfl rfl rfl⟩
    dsimp only at hm
    split at hm <;> rw [List.mem_singleton.1 hm] <;> exact hb
  | cached i url =>
    have hread : Consistent O urls
        { s with memoryStorage := (s.memoryStorage.value s.now (O.key url) .cacheTime).2 } :=
      h.moveMemory (h.tracked.value _) fun _ _ hk => MemoryStorage.storage_value hk
    cases hv : (s.memoryStorage.value s.now (O.key url) .cacheTime).1 with
    | none =>
      simp only [Pipeline.next, hv, Option.some.injEq] at hr
      subst hr
      exact ⟨hread, List.forall_mem_singleton.2 hb, .of_eq rfl rfl rfl rfl⟩
    | some image =>
      simp only [Pipeline.next, hv, Option.some.injEq] at hr
      subst hr
      refine ⟨hread.complete hb.1 fun x hx => ?_, by simp, grows_complete (grows_memory s _) i (some image)⟩
      obtain rfl := Option.mem_some.1 hx
      obtain ⟨object, hobject, -, rfl⟩ := MemoryStorage.value_eq_some hv
      obtain ⟨url', hkey, hmade⟩ := h.memory _ object hobject
      obtain rfl := Options.key_injective hkey
      exact hmade
  | load i url =>
    obtain rfl := Option.some.inj hr
    exact ⟨h, List.forall_mem_singleton.2 hb, .of_eq rfl rfl rfl rfl⟩
  | loadAt i url referenceDate =>
    cases hl : s.diskStorage.lookup referenceDate (O.fileName url) with
    | none =>
      simp only [Pipeline.next, hl, Option.some.injEq] at hr
      subst hr
      exact ⟨h.sync, List.forall_mem_singleton.2 ⟨hb, by simp⟩, .of_eq rfl rfl rfl rfl⟩
    | some file =>
      simp only [Pipeline.next, hl, Option.some.injEq] at hr
      subst hr
      refine ⟨h.sync, fun block hm => ?_, .of_eq rfl rfl rfl rfl⟩
      obtain ⟨url', hu', hname, hstored⟩ := h.files _ file (DiskStorage.lookup_eq_some hl).1
      simp only [List.mem_cons, List.not_mem_nil, or_false] at hm
      rcases hm with rfl | rfl
      · exact ⟨hb, fun image hi => .inr ⟨url', hu', file.data, hname.symm, hstored, hi⟩⟩
      · trivial
  | loaded i url image =>
    cases image with
    | none =>
      obtain rfl := Option.some.inj hr
      exact ⟨h.complete hb.1.1 (by simp), by simp, grows_complete (.of_eq rfl rfl rfl rfl) i none⟩
    | some image =>
      obtain rfl := Option.some.inj hr
      have hmade : Made O urls s.fetched url image := hb.2 image rfl
      refine ⟨(h.storeNoThrow hmade).complete hb.1.1 fun x hx => ?_, by simp,
        grows_complete (grows_memory s _) i (some image)⟩
      obtain rfl := Option.mem_some.1 hx
      exact hmade
  | checkOriginal i url =>
    obtain rfl := Option.some.inj hr
    refine ⟨h, fun block hm => ?_, .of_eq rfl rfl rfl rfl⟩
    dsimp only at hm
    split at hm
    · rename_i hcached
      rw [List.mem_singleton.1 hm]
      intro hsha
      rw [(h.original_not_cached hsha hb.2 s.now).1] at hcached
      cases hcached
    · rw [List.mem_singleton.1 hm]
      exact hb
  | checkOriginalDisk i url =>
    obtain rfl := Option.some.inj hr
    exact ⟨h, List.forall_mem_singleton.2 hb, .of_eq rfl rfl rfl rfl⟩
  | checkOriginalDiskAt i url referenceDate =>
    obtain rfl := Option.some.inj hr
    refine ⟨h.sync, fun block hm => ?_, .of_eq rfl rfl rfl rfl⟩
    dsimp only at hm
    split at hm
    · rename_i hcached
      rw [List.mem_singleton.1 hm]
      intro hsha
      rw [(h.original_not_cached hsha hb.2 referenceDate).2] at hcached
      cases hcached
    · rw [List.mem_singleton.1 hm]
      exact hb
  | original i url => cases hr
  | download i url =>
    simp only [Pipeline.next, Option.map_eq_some_iff] at hr
    obtain ⟨d, hd, rfl⟩ := hr
    have hcalls : d.shared.calls = s.downloader.shared.calls ++ [(url, O.identifier)] := by
      simp only [pool, Pool.step, Options.download, imageDownloader, start, Option.map_some, Option.some.injEq] at hd
      subst hd
      rfl
    have hask : ∀ handler ∈ s.handlers ++ [(i, url)], s.Shows handler.1 handler.2 ∧ handler.2 ∈ urls := by
      intro handler hh
      rcases List.mem_append.1 hh with hh | hh
      · exact h.asking handler hh
      · rw [List.mem_singleton.1 hh]
        exact hb
    obtain ⟨h', hgrows⟩ := h.setDownloader hd (by simp [hcalls, h.handlers]) (List.prefix_append _ _) hask
    exact ⟨h', by simp, hgrows⟩
  | cacheImage i url result =>
    cases result with
    | error error =>
      obtain rfl := Option.some.inj hr
      exact ⟨h.complete hb.1.1 (by simp), by simp, grows_complete (.of_eq rfl rfl rfl rfl) i none⟩
    | ok loaded =>
      obtain ⟨image, original⟩ := loaded
      have hprocessed : Processed O s.fetched url original image := hb.2 _ rfl
      have hstored := h.storeNoThrow (.inl ⟨original, hprocessed⟩)
      simp only [Pipeline.next, apply_cacheInitiated, Option.map_some, Option.some.injEq] at hr
      subst hr
      by_cases hw : O.waitForCache
      · simp only [hw, if_true]
        exact ⟨hstored, List.forall_mem_singleton.2 ⟨hb.1, hprocessed, by simp [hw]⟩, .of_eq rfl rfl rfl rfl⟩
      · simp only [hw]
        have hgrows : s.Grows (Pipeline.complete { s with
            memoryStorage := s.memoryStorage.storeNoThrow s.now image (O.key url) O.memoryExpiration } i (some image)) :=
          grows_complete (grows_memory s _) i (some image)
        refine ⟨hstored.complete hb.1.1 fun x hx => ?_, List.forall_mem_singleton.2 ?_, hgrows⟩
        · obtain rfl := Option.mem_some.1 hx
          exact .inl ⟨original, hprocessed⟩
        · exact ⟨⟨hgrows.shows i url hb.1.1, hb.1.2⟩, hprocessed.mono hgrows.fetched, by simp [hw]⟩
  | store i url image original coordinator =>
    obtain ⟨hcell, hprocessed, hcoordinator⟩ := hb
    have hnext : Known O urls s (.stored i url image coordinator) :=
      ⟨hcell, .inl ⟨original, hprocessed⟩, hcoordinator⟩
    cases hd : O.data image (some original) with
    | none =>
      simp only [Pipeline.next, hd, Option.some.injEq] at hr
      subst hr
      exact ⟨h, List.forall_mem_singleton.2 hnext, .of_eq rfl rfl rfl rfl⟩
    | some data =>
      simp only [Pipeline.next, hd] at hr
      split at hr
      · obtain rfl := Option.some.inj hr
        exact ⟨h, List.forall_mem_singleton.2 hnext, .of_eq rfl rfl rfl rfl⟩
      · obtain rfl := Option.some.inj hr
        refine ⟨h.setDisk fun fileName file hf => ?_, List.forall_mem_singleton.2 hnext, .of_eq rfl rfl rfl rfl⟩
        rcases DiskStorage.files_write hf with ⟨rfl, hdata⟩ | ⟨-, hf⟩
        · exact ⟨url, hcell.2, rfl, original, image, hprocessed, hdata ▸ hd⟩
        · exact h.files fileName file hf
  | setAttributes i url image coordinator =>
    cases hd : s.diskStorage.setAttributes s.now (O.fileName url) O.diskExpiration with
    | none =>
      simp only [Pipeline.next, hd, Option.some.injEq] at hr
      subst hr
      exact ⟨h, List.forall_mem_singleton.2 hb, .of_eq rfl rfl rfl rfl⟩
    | some diskStorage =>
      simp only [Pipeline.next, hd, Option.some.injEq] at hr
      subst hr
      exact ⟨h.moveDisk fun fileName file hf => DiskStorage.files_setAttributes hd hf, List.forall_mem_singleton.2 hb,
        .of_eq rfl rfl rfl rfl⟩
  | insertMaybeCached i url image coordinator =>
    obtain rfl := Option.some.inj hr
    exact ⟨h.moveDisk fun fileName file hf => ⟨file, hf, rfl⟩, List.forall_mem_singleton.2 hb, .of_eq rfl rfl rfl rfl⟩
  | stored i url image coordinator =>
    obtain ⟨hcell, hmade, hcoordinator⟩ := hb
    simp only [Pipeline.next, hcoordinator, apply_cachingImage, Option.map_some, Option.some.injEq] at hr
    subst hr
    by_cases hw : O.waitForCache
    · simp only [hw, if_true]
      refine ⟨h.complete hcell.1 fun x hx => ?_, by simp, grows_complete (.of_eq rfl rfl rfl rfl) i (some image)⟩
      obtain rfl := Option.mem_some.1 hx
      exact hmade
    · simp only [hw]
      exact ⟨h, by simp, .of_eq rfl rfl rfl rfl⟩
  | extend fileName last estimated =>
    obtain rfl := Option.some.inj hr
    exact ⟨h.extendExpiration fileName last estimated, by simp, .of_eq rfl rfl rfl rfl⟩
  | clean fileNames =>
    obtain rfl := Option.some.inj hr
    exact ⟨h, List.forall_mem_singleton.2 trivial, .of_eq rfl rfl rfl rfl⟩
  | cleanAt fileNames referenceDate =>
    obtain rfl := Option.some.inj hr
    exact ⟨h, List.forall_mem_singleton.2 trivial, .of_eq rfl rfl rfl rfl⟩
  | removeFiles fileNames =>
    cases fileNames with
    | nil =>
      obtain rfl := Option.some.inj hr
      exact ⟨h, by simp, .of_eq rfl rfl rfl rfl⟩
    | cons fileName fileNames =>
      simp only [Pipeline.next] at hr
      split at hr
      · obtain rfl := Option.some.inj hr
        exact ⟨h, by simp, .of_eq rfl rfl rfl rfl⟩
      · obtain rfl := Option.some.inj hr
        exact ⟨h.moveDisk fun name file hf => ⟨file, DiskStorage.files_removeFile hf, rfl⟩,
          List.forall_mem_singleton.2 trivial, .of_eq rfl rfl rfl rfl⟩

/-! ## Launches -/

theorem consistent_inductive {init : Pipeline D R} (hinit : Consistent O urls init) :
    (pool (kingfisherManager O urls init)).Inductive fun s : Pool (Pipeline D R) (Block D R) =>
      Consistent O urls s.shared ∧ ∀ block ∈ s.points, Known O urls s.shared block := by
  refine pool_inductive hinit ?_ ?_
  · intro s request r h hr
    obtain ⟨h', hnew, hgrows⟩ := consistent_start h hr
    exact ⟨h', hnew, fun block hb => hb.mono hgrows⟩
  · intro s block r h hb hr
    obtain ⟨h', hnew, hgrows⟩ := consistent_next h hb hr
    exact ⟨h', hnew, fun block' hb' => hb'.mono hgrows⟩

theorem fetched_relaunch (s : Pipeline D R) : s.relaunch.fetched = s.fetched := List.append_nil _

theorem consistent_launched {init : Pipeline D R} (h : Launched O urls init) :
    Consistent O urls init := by
  induction h with
  | install =>
    exact ⟨.init, Nat.le_refl _, rfl, by simp, by simp [MemoryStorage.Tracked], by simp, by simp, by simp, by simp⟩
  | relaunch _ hs ih =>
    have hlast := ((consistent_inductive ih).reachable hs).1
    refine ⟨.init, Nat.le_refl _, rfl, by simp [Pipeline.relaunch], by simp [Pipeline.relaunch, MemoryStorage.Tracked],
      by simp [Pipeline.relaunch], ?_, by simp [Pipeline.relaunch], by simp [Pipeline.relaunch]⟩
    rw [fetched_relaunch]
    exact hlast.files

/-- What one step of the pipeline never takes back. -/
theorem grows_step {init : Pipeline D R} (hl : Launched O urls init) {s t : Pool (Pipeline D R) (Block D R)}
    {e : Event (Request D)} (h : (pool (kingfisherManager O urls init)).Reachable s)
    (ht : (pool (kingfisherManager O urls init)).step s e = some t) : s.shared.Grows t.shared := by
  obtain ⟨hs, hk⟩ := (consistent_inductive (consistent_launched hl)).reachable h
  rcases step_cases ht with ⟨request, r, rfl, hr, rfl⟩ | ⟨i, block, r, rfl, hb, hr, rfl⟩
  · exact (consistent_start hs hr).2.2
  · exact (consistent_next hs (hk block (List.mem_of_getElem? hb)) hr).2.2

/-- No retrieval ever stops at an original, unless two keys have one hash. -/
theorem original_never (hsha : O.CollisionFree urls) {init : Pipeline D R} (hl : Launched O urls init)
    {s : Pool (Pipeline D R) (Block D R)} (h : (pool (kingfisherManager O urls init)).Reachable s) (i : Nat) (url : URL) :
    .original i url ∉ s.points :=
  fun hm => ((consistent_inductive (consistent_launched hl)).reachable h).2 _ hm hsha

/-- **Every cell shows its own picture**: through memory, files, relaunches and shared downloads, an image in a cell is
made of data that the session reported for the cell's URL, and so is what the storages have under the keys of a URL. If no
two keys have one hash, no retrieval stops at an original, and the image has not even been through a file of another URL. -/
theorem cell_pictures {init : Pipeline D R} (hl : Launched O urls init) {s : Pool (Pipeline D R) (Block D R)}
    (h : (pool (kingfisherManager O urls init)).Reachable s) :
    (∀ cell ∈ s.shared.cells, ∀ image, cell.loadedImage = some image →
      ∃ url, cell.url = some url ∧ Made O urls s.shared.fetched url image) ∧
    (∀ url object, s.shared.memoryStorage.storage (O.key url) = some object →
      Made O urls s.shared.fetched url object.value) ∧
    (∀ fileName file, s.shared.diskStorage.files fileName = some file →
      ∃ url ∈ urls, fileName = O.fileName url ∧ Stored O s.shared.fetched url file.data) ∧
    (O.CollisionFree urls → (∀ i url, .original i url ∉ s.points) ∧
      ∀ cell ∈ s.shared.cells, ∀ image, cell.loadedImage = some image →
        ∃ url, cell.url = some url ∧ Own O s.shared.fetched url image) := by
  obtain ⟨hs, -⟩ := (consistent_inductive (consistent_launched hl)).reachable h
  refine ⟨fun cell hc => (hs.cells cell hc).2, fun url object ho => ?_, hs.files, fun hsha =>
    ⟨original_never hsha hl h, fun cell hc image hi => ?_⟩⟩
  · obtain ⟨url', hkey, hmade⟩ := hs.memory _ object ho
    exact Options.key_injective hkey ▸ hmade
  · obtain ⟨hurls, himage⟩ := hs.cells cell hc
    obtain ⟨url, hu, hmade⟩ := himage image hi
    exact ⟨url, hu, hmade.own hsha (hurls url hu)⟩

/-- Processing adds 1, a file holds the double. -/
def sampleOptions : Options Nat Nat where
  size := ⟨384, 384⟩
  process _ data := some (data + 1)
  data image _ := some (image * 2)
  image data := some (data / 2)
  sha256 := id

def sampleURL : URL := ⟨"http://i", by decide⟩

/-- An image is downloaded and stored; after a relaunch the cell has it from its file. -/
theorem cell_pictures_relaunch :
    ∃ init s : Pool (Pipeline Nat Nat) (Block Nat Nat),
      (pool (kingfisherManager sampleOptions [sampleURL] {})).run ⟨{}, []⟩ ([.start (.cell (some sampleURL)),
        .start (.appear 0), .turn 0, .turn 0, .turn 0, .turn 0, .turn 0, .turn 0, .turn 0, .start (.network (.turn 0)),
        .start (.network (.turn 0)), .start (.network (.start (.report 0 (.ok 7)))), .start (.network (.turn 0)),
        .start (.network (.turn 0)), .start (.network (.turn 0)), .start .receive, .turn 0, .turn 0, .turn 0, .turn 0]) =
          some init ∧
      (pool (kingfisherManager sampleOptions [sampleURL] init.shared.relaunch)).run ⟨init.shared.relaunch, []⟩
        [.start (.cell (some sampleURL)), .start (.appear 0), .turn 0, .turn 0, .turn 0, .turn 0, .turn 0, .turn 0,
          .turn 0] = some s ∧
      s.shared.cells.map (·.loadedImage) = [some 8] ∧
      (∀ i url, .original i url ∉ s.points) ∧
      ∀ cell ∈ s.shared.cells, ∀ image, cell.loadedImage = some image →
        ∃ url, cell.url = some url ∧ Own sampleOptions s.shared.fetched url image := by
  have hrun : ∃ init s : Pool (Pipeline Nat Nat) (Block Nat Nat),
      (pool (kingfisherManager sampleOptions [sampleURL] {})).run ⟨{}, []⟩ ([.start (.cell (some sampleURL)),
        .start (.appear 0), .turn 0, .turn 0, .turn 0, .turn 0, .turn 0, .turn 0, .turn 0, .start (.network (.turn 0)),
        .start (.network (.turn 0)), .start (.network (.start (.report 0 (.ok 7)))), .start (.network (.turn 0)),
        .start (.network (.turn 0)), .start (.network (.turn 0)), .start .receive, .turn 0, .turn 0, .turn 0, .turn 0]) =
          some init ∧
      (pool (kingfisherManager sampleOptions [sampleURL] init.shared.relaunch)).run ⟨init.shared.relaunch, []⟩
        [.start (.cell (some sampleURL)), .start (.appear 0), .turn 0, .turn 0, .turn 0, .turn 0, .turn 0, .turn 0,
          .turn 0] = some s ∧
      s.shared.cells.map (·.loadedImage) = [some 8] := ⟨_, _, rfl, rfl, rfl⟩
  obtain ⟨init, s, hinit, hs, hcells⟩ := hrun
  exact ⟨init, s, hinit, hs, hcells,
    (cell_pictures (.relaunch .install ⟨_, hinit⟩) ⟨_, hs⟩).2.2.2 fun _ _ _ _ he => he⟩

/-! ## The storages -/

variable (O) in
/-- Every file is listed, or a block is just storing it. -/
def Announced (s : Pool (Pipeline D R) (Block D R)) : Prop :=
  ∀ fileName file, s.shared.diskStorage.files fileName = some file →
    s.shared.diskStorage.Listed fileName ∨ ∃ block ∈ s.points, block.writes O = some fileName

/-- No file is new, and what was listed is. -/
theorem announced_start {request : Request D} {r : Pipeline D R × List (Block D R)}
    (hr : s.start O urls request = some r) {fileName : String} {file : File D}
    (hf : r.1.diskStorage.files fileName = some file) :
    s.diskStorage.files fileName = some file ∧ (s.diskStorage.Listed fileName → r.1.diskStorage.Listed fileName) := by
  cases request with
  | cell url =>
    obtain ⟨-, hr⟩ := Option.ite_none_right_eq_some.1 hr
    obtain rfl := Option.some.inj hr
    exact ⟨hf, id⟩
  | appear i =>
    obtain ⟨cell, -, hr⟩ := Option.map_eq_some_iff.1 hr
    have hdisk : r.1.diskStorage = s.diskStorage := by
      rw [← hr]
      split
      · rfl
      · split <;> rfl
    rw [hdisk] at hf ⊢
    exact ⟨hf, id⟩
  | clock now =>
    obtain rfl := Option.some.inj hr
    exact ⟨hf, id⟩
  | evict key =>
    obtain rfl := Option.some.inj hr
    exact ⟨hf, id⟩
  | clearMemoryCache =>
    obtain rfl := Option.some.inj hr
    exact ⟨hf, id⟩
  | removeExpired =>
    obtain rfl := Option.some.inj hr
    exact ⟨hf, id⟩
  | cleanExpiredDiskCache fileNames =>
    obtain rfl := Option.some.inj hr
    exact ⟨hf, id⟩
  | prepareDirectory =>
    obtain rfl := Option.some.inj hr
    exact ⟨hf, id⟩
  | check =>
    obtain rfl := Option.some.inj hr
    have hfile : s.diskStorage.files fileName = some file := by rwa [DiskStorage.files_check] at hf
    exact ⟨hfile, fun h => h.check hfile⟩
  | network e =>
    obtain ⟨d, -, rfl, -⟩ := network_start hr
    exact ⟨hf, id⟩
  | receive =>
    obtain ⟨completion, -, hr⟩ := Option.bind_eq_some_iff.1 hr
    obtain ⟨handler, -, rfl⟩ := Option.map_eq_some_iff.1 hr
    exact ⟨hf, id⟩

/-- A file that the block has not found there is listed, or announced by the next one; and so is the one it was storing. -/
theorem announced_next {block : Block D R} {r : Pipeline D R × List (Block D R)} (hr : s.next O block = some r)
    {fileName : String} {file : File D} (hf : r.1.diskStorage.files fileName = some file) :
    (r.1.diskStorage.Listed fileName ∨ ∃ b ∈ r.2, b.writes O = some fileName) ∨
      (block.writes O ≠ some fileName ∧ (∃ file', s.diskStorage.files fileName = some file') ∧
        (s.diskStorage.Listed fileName → r.1.diskStorage.Listed fileName)) := by
  have hsame : r.1.diskStorage = s.diskStorage → (∃ file', s.diskStorage.files fileName = some file') ∧
      (s.diskStorage.Listed fileName → r.1.diskStorage.Listed fileName) := by
    intro hdisk
    rw [hdisk] at hf ⊢
    exact ⟨⟨file, hf⟩, id⟩
  have hsync : r.1.diskStorage = s.diskStorage.sync → (∃ file', s.diskStorage.files fileName = some file') ∧
      (s.diskStorage.Listed fileName → r.1.diskStorage.Listed fileName) := by
    intro hdisk
    rw [hdisk] at hf ⊢
    rw [DiskStorage.files_sync] at hf
    exact ⟨⟨file, hf⟩, fun h => h.sync hf⟩
  have hother : ∀ {name : String}, name ≠ fileName → some name ≠ some fileName := by
    intro name hne he
    exact hne (Option.some.inj he)
  cases block with
  | retrieve i url =>
    obtain rfl := Option.some.inj hr
    exact .inr ⟨by simp [Block.writes], hsame rfl⟩
  | checkDisk i url =>
    obtain rfl := Option.some.inj hr
    exact .inr ⟨by simp [Block.writes], hsame rfl⟩
  | checkDiskAt i url referenceDate =>
    obtain rfl := Option.some.inj hr
    exact .inr ⟨by simp [Block.writes], hsync rfl⟩
  | cached i url =>
    cases hv : (s.memoryStorage.value s.now (O.key url) .cacheTime).1 with
    | none =>
      simp only [Pipeline.next, hv, Option.some.injEq] at hr
      subst hr
      exact .inr ⟨by simp [Block.writes], hsame rfl⟩
    | some image =>
      simp only [Pipeline.next, hv, Option.some.injEq] at hr
      subst hr
      exact .inr ⟨by simp [Block.writes], hsame rfl⟩
  | load i url =>
    obtain rfl := Option.some.inj hr
    exact .inr ⟨by simp [Block.writes], hsame rfl⟩
  | loadAt i url referenceDate =>
    cases hl : s.diskStorage.lookup referenceDate (O.fileName url) with
    | none =>
      simp only [Pipeline.next, hl, Option.some.injEq] at hr
      subst hr
      exact .inr ⟨by simp [Block.writes], hsync rfl⟩
    | some file =>
      simp only [Pipeline.next, hl, Option.some.injEq] at hr
      subst hr
      exact .inr ⟨by simp [Block.writes], hsync rfl⟩
  | loaded i url image =>
    cases image with
    | none =>
      obtain rfl := Option.some.inj hr
      exact .inr ⟨by simp [Block.writes], hsame rfl⟩
    | some image =>
      obtain rfl := Option.some.inj hr
      exact .inr ⟨by simp [Block.writes], hsame rfl⟩
  | checkOriginal i url =>
    obtain rfl := Option.some.inj hr
    exact .inr ⟨by simp [Block.writes], hsame rfl⟩
  | checkOriginalDisk i url =>
    obtain rfl := Option.some.inj hr
    exact .inr ⟨by simp [Block.writes], hsame rfl⟩
  | checkOriginalDiskAt i url referenceDate =>
    obtain rfl := Option.some.inj hr
    exact .inr ⟨by simp [Block.writes], hsync rfl⟩
  | original i url => cases hr
  | download i url =>
    simp only [Pipeline.next, Option.map_eq_some_iff] at hr
    obtain ⟨d, -, rfl⟩ := hr
    exact .inr ⟨by simp [Block.writes], hsame rfl⟩
  | cacheImage i url result =>
    cases result with
    | error error =>
      obtain rfl := Option.some.inj hr
      exact .inr ⟨by simp [Block.writes], hsame rfl⟩
    | ok loaded =>
      obtain ⟨image, original⟩ := loaded
      simp only [Pipeline.next, apply_cacheInitiated, Option.map_some, Option.some.injEq] at hr
      have hdisk : r.1.diskStorage = s.diskStorage := by
        rw [← hr]
        dsimp only
        split <;> rfl
      exact .inr ⟨by simp [Block.writes], hsame hdisk⟩
  | store i url image original coordinator =>
    cases hd : O.data image (some original) with
    | none =>
      simp only [Pipeline.next, hd, Option.some.injEq] at hr
      subst hr
      exact .inr ⟨by simp [Block.writes], hsame rfl⟩
    | some data =>
      simp only [Pipeline.next, hd] at hr
      split at hr
      · obtain rfl := Option.some.inj hr
        exact .inr ⟨by simp [Block.writes], hsame rfl⟩
      · obtain rfl := Option.some.inj hr
        rcases DiskStorage.files_write hf with ⟨rfl, -⟩ | ⟨hne, hf'⟩
        · exact .inl (.inr ⟨_, List.mem_cons_self, rfl⟩)
        · exact .inr ⟨by simp [Block.writes], ⟨file, hf'⟩, id⟩
  | setAttributes i url image coordinator =>
    cases hd : s.diskStorage.setAttributes s.now (O.fileName url) O.diskExpiration with
    | none =>
      simp only [Pipeline.next, hd, Option.some.injEq] at hr
      subst hr
      refine .inr ⟨hother ?_, hsame rfl⟩
      rintro rfl
      rw [Option.map_eq_none_iff.1 hd] at hf
      cases hf
    | some diskStorage =>
      simp only [Pipeline.next, hd, Option.some.injEq] at hr
      subst hr
      by_cases he : O.fileName url = fileName
      · exact .inl (.inr ⟨_, List.mem_cons_self, congrArg some he⟩)
      · obtain ⟨file', hfile', -⟩ := DiskStorage.files_setAttributes hd hf
        obtain ⟨old, -, rfl⟩ := Option.map_eq_some_iff.1 hd
        exact .inr ⟨hother he, ⟨file', hfile'⟩, id⟩
  | insertMaybeCached i url image coordinator =>
    obtain rfl := Option.some.inj hr
    by_cases he : O.fileName url = fileName
    · exact .inl (.inl (he ▸ DiskStorage.listed_insertMaybeCached _ _))
    · exact .inr ⟨hother he, ⟨file, hf⟩, fun h => h.insertMaybeCached _⟩
  | stored i url image coordinator =>
    obtain ⟨⟨t, state⟩, ht, rfl⟩ := Option.map_eq_some_iff.1 hr
    obtain ⟨⟨state', trigger⟩, -, ht⟩ := Option.map_eq_some_iff.1 ht
    obtain ⟨rfl, -⟩ := Prod.mk.inj ht
    have hdisk : (if trigger then s.complete i (some image) else s).diskStorage = s.diskStorage := by
      split <;> rfl
    exact .inr ⟨by simp [Block.writes], hsame hdisk⟩
  | extend name last estimated =>
    obtain rfl := Option.some.inj hr
    obtain ⟨file', hfile', -⟩ := DiskStorage.files_extendExpiration hf
    exact .inr ⟨by simp [Block.writes], ⟨file', hfile'⟩, id⟩
  | clean fileNames =>
    obtain rfl := Option.some.inj hr
    exact .inr ⟨by simp [Block.writes], hsame rfl⟩
  | cleanAt fileNames referenceDate =>
    obtain rfl := Option.some.inj hr
    exact .inr ⟨by simp [Block.writes], hsame rfl⟩
  | removeFiles fileNames =>
    cases fileNames with
    | nil =>
      obtain rfl := Option.some.inj hr
      exact .inr ⟨by simp [Block.writes], hsame rfl⟩
    | cons name fileNames =>
      simp only [Pipeline.next] at hr
      split at hr
      · obtain rfl := Option.some.inj hr
        exact .inr ⟨by simp [Block.writes], hsame rfl⟩
      · obtain rfl := Option.some.inj hr
        exact .inr ⟨by simp [Block.writes], ⟨file, DiskStorage.files_removeFile hf⟩, id⟩

theorem announced_inductive {init : Pipeline D R} (hl : Launched O urls init) :
    (pool (kingfisherManager O urls init)).Inductive (Announced O) where
  init := by
    intro fileName file _
    cases hl with
    | install => exact .inl (.inl List.mem_cons_self)
    | relaunch _ _ => exact .inl (.inl List.mem_cons_self)
  step := by
    intro s e t h ht fileName file hf
    rcases step_cases ht with ⟨request, r, rfl, hr, rfl⟩ | ⟨i, p, r, rfl, hi, hr, rfl⟩
    · obtain ⟨hfile, hlisted⟩ := announced_start hr hf
      rcases h fileName file hfile with hold | ⟨block, hb, hw⟩
      · exact .inl (hlisted hold)
      · exact .inr ⟨block, List.mem_append_left _ hb, hw⟩
    · rcases announced_next hr hf with (hnew | ⟨block, hb, hw⟩) | ⟨hne, ⟨file', hfile⟩, hlisted⟩
      · exact .inl hnew
      · exact .inr ⟨block, List.mem_append_right _ hb, hw⟩
      · rcases h fileName file' hfile with hold | ⟨block, hb, hw⟩
        · exact .inl (hlisted hold)
        · rcases mem_or_mem_eraseIdx hi hb with rfl | hb
          · exact absurd hw hne
          · exact .inr ⟨block, List.mem_append_left _ hb, hw⟩

/-- **The storages see all they have**: a look-up finds only files of the folder that are not expired; unless a block is
between writing the file and having its name inserted, the shortcut through `maybeCached` and its queue does not hide it;
and the sweep of the memory storage never overlooks an expired object, nor keeps a key without one. -/
theorem storages_exact {init : Pipeline D R} (hl : Launched O urls init) {s : Pool (Pipeline D R) (Block D R)}
    (h : (pool (kingfisherManager O urls init)).Reachable s) (referenceDate now : Int) :
    (∀ fileName file, s.shared.diskStorage.lookup referenceDate fileName = some file →
      s.shared.diskStorage.files fileName = some file ∧ file.expired referenceDate = false) ∧
    (∀ fileName, (∀ block ∈ s.points, block.writes O ≠ some fileName) →
      s.shared.diskStorage.lookup referenceDate fileName =
        (s.shared.diskStorage.files fileName).filter fun file => !file.expired referenceDate) ∧
    (∀ key, key ∈ (s.shared.memoryStorage.removeExpired now).keys ↔
      ∃ object, (s.shared.memoryStorage.removeExpired now).storage key = some object) ∧
    ∀ key object, (s.shared.memoryStorage.removeExpired now).storage key = some object → object.isExpired now = false := by
  obtain ⟨hs, -⟩ := (consistent_inductive (consistent_launched hl)).reachable h
  refine ⟨fun fileName file => DiskStorage.lookup_eq_some, fun fileName hpoints => ?_,
    MemoryStorage.removeExpired_clean hs.tracked⟩
  refine DiskStorage.lookup_eq referenceDate fun file hf => ?_
  rcases (announced_inductive hl).reachable h fileName file hf with hlisted | ⟨block, hb, hw⟩
  · exact hlisted
  · exact absurd hw (hpoints block hb)

/-- The file is there with its attributes, and not found; and it is, when the insertion of its name is queued. -/
theorem storages_exact_stored :
    ∃ s t : Pool (Pipeline Nat Nat) (Block Nat Nat),
      (pool (kingfisherManager sampleOptions [sampleURL] {})).run ⟨{}, []⟩ [.start .prepareDirectory, .start (.cell (some sampleURL)),
        .start (.appear 0), .turn 0, .turn 0, .turn 0, .turn 0, .turn 0, .turn 0, .turn 0, .start (.network (.turn 0)),
        .start (.network (.turn 0)), .start (.network (.start (.report 0 (.ok 7)))), .start (.network (.turn 0)),
        .start (.network (.turn 0)), .start (.network (.turn 0)), .start .receive, .turn 0, .turn 0, .turn 0] = some s ∧
      (s.shared.diskStorage.files (sampleOptions.fileName sampleURL)).map (·.data) = some 16 ∧
      s.shared.diskStorage.isCached 5 (sampleOptions.fileName sampleURL) = false ∧
      (pool (kingfisherManager sampleOptions [sampleURL] {})).step s (.turn 0) = some t ∧
      t.shared.diskStorage.lookup 5 (sampleOptions.fileName sampleURL) =
        (t.shared.diskStorage.files (sampleOptions.fileName sampleURL)).filter fun file => !file.expired 5 := by
  have hrun : ∃ s t : Pool (Pipeline Nat Nat) (Block Nat Nat),
      (pool (kingfisherManager sampleOptions [sampleURL] {})).run ⟨{}, []⟩ [.start .prepareDirectory, .start (.cell (some sampleURL)),
        .start (.appear 0), .turn 0, .turn 0, .turn 0, .turn 0, .turn 0, .turn 0, .turn 0, .start (.network (.turn 0)),
        .start (.network (.turn 0)), .start (.network (.start (.report 0 (.ok 7)))), .start (.network (.turn 0)),
        .start (.network (.turn 0)), .start (.network (.turn 0)), .start .receive, .turn 0, .turn 0, .turn 0] = some s ∧
      (s.shared.diskStorage.files (sampleOptions.fileName sampleURL)).map (·.data) = some 16 ∧
      s.shared.diskStorage.isCached 5 (sampleOptions.fileName sampleURL) = false ∧
      (pool (kingfisherManager sampleOptions [sampleURL] {})).step s (.turn 0) = some t ∧
      t.points = [.stored 0 sampleURL 8 .done] := ⟨_, _, rfl, rfl, rfl, rfl, rfl⟩
  obtain ⟨s, t, hs, hfile, hcached, ht, hpoints⟩ := hrun
  have hreach : (pool (kingfisherManager sampleOptions [sampleURL] {})).Reachable t :=
    Lts.Reachable.step ⟨_, hs⟩ ht
  refine ⟨s, t, hs, hfile, hcached, ht, (storages_exact .install hreach 5 0).2.1 _ fun block hb => ?_⟩
  rw [hpoints] at hb
  rw [List.mem_singleton.1 hb]
  simp [Block.writes]

end CrossplatformBenchmark.Kingfisher
