import CrossplatformBenchmark.Lib.Table
import CrossplatformBenchmark.Lib.Threads

/-!
# Kingfisher's shared downloads (SessionDataTask.swift, SessionDelegate.swift, ImageDownloader.swift)

The cells of the SwiftUI grid load their images through one `ImageDownloader`. Downloads of one URL share a session
task; each `downloadImage` leaves a callback in it. Callers and the session's delegate queue meet in the locks of the
delegate and of the tasks, and only there: each section between two locks is a point of `Point`.

| source                                                        | here                                   |
|---------------------------------------------------------------|----------------------------------------|
| `addDownloadTask` (ImageDownloader.swift:368-383)             | `downloadImage`, then `.found`         |
| `SessionDelegate.add`, `append` (SessionDelegate.swift:57-99) | `.found`                               |
| `startDownloadTask` (ImageDownloader.swift:414-465)           | `.added`                               |
| `SessionDataTask.cancel` (SessionDataTask.swift:124-129)      | `cancel`, `.cancelling`                |
| `forceCancel` (SessionDataTask.swift:131-135)                 | `.cancelling` of `.force`              |
| `cancelAll`, `cancel(url:)` (SessionDelegate.swift:134-148)   | `cancelAll`, `cancelURL`               |
| `onCallbackCancelled` (SessionDelegate.swift:67-81)           | `.cancelled`, `.checking`              |
| `onCompleted` (SessionDelegate.swift:262-269)                 | `report`, `.completing`, `.taken`      |
| `remove` (SessionDelegate.swift:101-110)                      | `.removing`                            |
| `onTaskDone` (ImageDownloader.swift:425-458)                  | `onTaskDone`, `.reply`                 |
| `doProcess` (ImageDataProcessor.swift:54-75)                  | `doProcess`                            |

`startDownloadTask` delegates `onTaskDone` and then resumes the task, without a lock; it is one section, since all that
others see of it is that `onTaskDone` is delegated. Until then a call of `onTaskDone` does nothing. `forceCancel` reads
the keys without the lock; here in one section. A dictionary is read in the order of insertion.

`callbacks_once` — whatever the interleaving, a callback is called at most once, and with an image of its own URL by a
processor with its own identifier; what becomes of every callback is accounted for.
-/

namespace CrossplatformBenchmark.Kingfisher

open Transition Threads

/-! ## The objects -/

/-- What `ImageDataProcessor` reads of the options `P` of a call. -/
structure Processing (P I D R : Type*) where
  /-- `options.processor.identifier` -/
  identifier : P → I
  /-- `options.processor.process(item: .data(data), options: options)` -/
  process : P → D → Option R
  /-- `options.backgroundDecode ? image.kf.decoded : image` -/
  decoded : P → R → R

structure TaskCallback (P : Type*) where
  /-- The `downloadImage` call it belongs to. -/
  id : Nat
  options : P

structure SessionDataTask (U P : Type*) where
  originalURL : U
  callbacksStore : List (Nat × TaskCallback P) := []
  currentToken : Nat := 0
  /-- And `onTaskDone` is delegated. -/
  started : Bool := false
  /-- The `URLSessionDataTask` is cancelled. -/
  isCancelled : Bool := false

inductive KingfisherError where
  | taskCancelled (task token : Nat)
  | responseError
  | processingFailed

abbrev DownloadResult (R : Type*) := Except KingfisherError R

/-- A call of `onCompleted`. -/
structure Completion (R : Type*) where
  callback : Nat
  task : Nat
  result : DownloadResult R

structure Downloader (U P D R : Type*) where
  /-- `SessionDelegate.tasks`; a task is known by its place in `sessionTasks`. -/
  tasks : U → Option Nat := fun _ => none
  /-- Every task created. -/
  sessionTasks : List (SessionDataTask U P) := []
  /-- Every `downloadImage` call. -/
  calls : List (U × P) := []
  /-- What the session has reported of its tasks. -/
  reported : List (Nat × Except KingfisherError D) := []
  completed : List (Completion R) := []
  /-- Callbacks out of their task that nobody will call: `remove` has discarded them, or `onTaskDone` was not delegated. -/
  dropped : List Nat := []

variable {U P I D R : Type*}

namespace SessionDataTask

def callbacks (task : SessionDataTask U P) : List (TaskCallback P) := task.callbacksStore.map Prod.snd

def addCallback (task : SessionDataTask U P) (callback : TaskCallback P) : SessionDataTask U P :=
  { task with
    callbacksStore := task.callbacksStore ++ [(task.currentToken, callback)]
    currentToken := task.currentToken + 1 }

def removeCallback (task : SessionDataTask U P) (token : Nat) : Option (TaskCallback P × SessionDataTask U P) :=
  (task.callbacksStore.find? (·.1 = token)).map fun entry =>
    (entry.2, { task with callbacksStore := task.callbacksStore.eraseP (·.1 = token) })

def removeAllCallbacks (task : SessionDataTask U P) : SessionDataTask U P := { task with callbacksStore := [] }

end SessionDataTask

/-! ## What the callbacks are called with -/

section onTaskDone

variable [DecidableEq I] (K : Processing P I D R)

/-- The loop of `ImageDataProcessor`: an image is processed once for each processor identifier. -/
def doProcess (data : D) : List (TaskCallback P) → (I → Option R) → List (TaskCallback P × DownloadResult R)
  | [], _ => []
  | callback :: callbacks, processedImages =>
    let image := match processedImages (K.identifier callback.options) with
      | none => K.process callback.options data
      | some image => some image
    let result := match image with
      | some image => .ok (K.decoded callback.options image)
      | none => .error .processingFailed
    (callback, result) ::
      doProcess data callbacks (Function.update processedImages (K.identifier callback.options) image)

def onTaskDone (result : Except KingfisherError D) (callbacks : List (TaskCallback P)) :
    List (TaskCallback P × DownloadResult R) :=
  match result with
  | .ok data => doProcess K data callbacks fun _ => none
  | .error error => callbacks.map fun callback => (callback, .error error)

theorem doProcess_fst (data : D) : ∀ (callbacks : List (TaskCallback P)) (processedImages : I → Option R),
    (doProcess K data callbacks processedImages).map Prod.fst = callbacks
  | [], _ => rfl
  | callback :: callbacks, _ => by rw [doProcess, List.map_cons, doProcess_fst data callbacks]

theorem onTaskDone_fst (result : Except KingfisherError D) (callbacks : List (TaskCallback P)) :
    (onTaskDone K result callbacks).map Prod.fst = callbacks := by
  cases result with
  | ok data => exact doProcess_fst K data callbacks _
  | error error => simp [onTaskDone, Function.comp_def]

/-- With the options of one of the callbacks, of the same identifier. -/
def SharedImage (data : D) (callbacks : List (TaskCallback P)) (identifier : I) (image : R) : Prop :=
  ∃ callback ∈ callbacks, K.identifier callback.options = identifier ∧ K.process callback.options data = some image

/-- The images are shared by identifier: each has been processed with the options of one of the callbacks. -/
theorem ok_of_mem_doProcess {data : D} {all : List (TaskCallback P)} {callback : TaskCallback P} {image : R} :
    ∀ {callbacks : List (TaskCallback P)} {processedImages : I → Option R}, callbacks ⊆ all →
      (∀ identifier shared, processedImages identifier = some shared → SharedImage K data all identifier shared) →
      (callback, .ok image) ∈ doProcess K data callbacks processedImages →
      callback ∈ all ∧ ∃ shared, SharedImage K data all (K.identifier callback.options) shared ∧
        image = K.decoded callback.options shared
  | [], _, _, _, hm => absurd hm List.not_mem_nil
  | c :: callbacks, processedImages, hall, h, hm => by
    have hc : c ∈ all := hall List.mem_cons_self
    have hshared : ∀ shared, (match processedImages (K.identifier c.options) with
        | none => K.process c.options data
        | some image => some image) = some shared → SharedImage K data all (K.identifier c.options) shared := by
      intro shared hs
      cases hp : processedImages (K.identifier c.options) with
      | none => exact ⟨c, hc, rfl, by simpa only [hp] using hs⟩
      | some image => exact h _ _ (by simpa only [hp] using hs)
    rw [doProcess] at hm
    rcases List.mem_cons.1 hm with he | hm
    · obtain ⟨rfl, hr⟩ := Prod.mk.inj he
      split at hr
      · rename_i shared hs
        exact ⟨hc, shared, hshared shared hs, by simpa using hr⟩
      · cases hr
    · refine ok_of_mem_doProcess (fun x hx => hall (List.mem_cons_of_mem c hx)) (fun identifier shared hs => ?_) hm
      by_cases he : identifier = K.identifier c.options
      · subst he
        exact hshared shared (by simpa using hs)
      · exact h identifier shared (by simpa [he] using hs)

theorem ok_of_mem_onTaskDone {result : Except KingfisherError D} {callbacks : List (TaskCallback P)}
    {callback : TaskCallback P} {image : R} (h : (callback, .ok image) ∈ onTaskDone K result callbacks) :
    callback ∈ callbacks ∧ ∃ data, result = .ok data ∧ ∃ shared,
      SharedImage K data callbacks (K.identifier callback.options) shared ∧ image = K.decoded callback.options shared := by
  cases result with
  | ok data =>
    obtain ⟨hc, hshared⟩ := ok_of_mem_doProcess K (List.Subset.refl _) (by simp) h
    exact ⟨hc, data, rfl, hshared⟩
  | error error => simp [onTaskDone] at h

end onTaskDone

/-! ## The sections between the locks -/

inductive Operation (U P D : Type*) where
  | downloadImage (url : U) (options : P)
  /-- `DownloadTask.cancel`, by a caller that `startDownloadTask` has returned to. -/
  | cancel (task token : Nat)
  | cancelURL (url : U)
  /-- With `tasks.values` in the order of the dictionary. -/
  | cancelAll (taskValues : List Nat)
  /-- The session has finished a task, or its response is refused. -/
  | report (task : Nat) (result : Except KingfisherError D)

/-- What a thread still has to cancel. -/
inductive Cancel where
  | force (task : Nat)
  | token (task token : Nat)

inductive Point (U P D R : Type*) where
  /-- `addDownloadTask` after `sessionDelegate.task(for:)`. -/
  | found (url : U) (callback : TaskCallback P) (existingTask : Option Nat)
  /-- `startDownloadTask` after `addDownloadTask`. -/
  | added (task : Nat)
  | cancelling (todo : List Cancel)
  | cancelled (task token : Nat) (callback : TaskCallback P) (todo : List Cancel)
  /-- Before `!task.containsCallbacks`. -/
  | checking (task : Nat) (todo : List Cancel)
  /-- `onCompleted` after `task(for:)`. -/
  | completing (task : Nat) (result : Except KingfisherError D)
  /-- `onCompleted` after `removeAllCallbacks`. -/
  | taken (task : Nat) (result : Except KingfisherError D) (callbacks : List (TaskCallback P))
  /-- A callback on its queue. -/
  | reply (task : Nat) (callback : TaskCallback P) (result : DownloadResult R)
  | removing (task : Nat) (todo : List Cancel)

def Downloader.setTask (s : Downloader U P D R) (T : Nat) (task : SessionDataTask U P) : Downloader U P D R :=
  { s with sessionTasks := s.sessionTasks.set T task }

/-- Where a thread goes on that still has these to cancel. -/
def Point.rest (todo : List Cancel) : List (Point U P D R) := if todo.isEmpty then [] else [.cancelling todo]

section program

variable [DecidableEq U] [DecidableEq I] (K : Processing P I D R)

/-- The tasks of the table. -/
def Downloader.taskValues (s : Downloader U P D R) : List Nat :=
  (List.range s.sessionTasks.length).filter fun T =>
    (s.sessionTasks[T]?.bind fun task => s.tasks task.originalURL) = some T

def start (s : Downloader U P D R) : Operation U P D → Option (Downloader U P D R × List (Point U P D R))
  | .downloadImage url options =>
    some ({ s with calls := s.calls ++ [(url, options)] }, [.found url ⟨s.calls.length, options⟩ (s.tasks url)])
  | .cancel T token => s.sessionTasks[T]?.bind fun task =>
    if task.started then some (s, [.cancelling [.token T token]]) else none
  | .cancelURL url => some (s, Point.rest ((s.tasks url).toList.map .force))
  | .cancelAll taskValues =>
    if taskValues.Perm s.taskValues then some (s, Point.rest (taskValues.map .force)) else none
  | .report T result => s.sessionTasks[T]?.bind fun task =>
    if task.started || task.isCancelled then
      some ({ s with reported := s.reported ++ [(T, result)] },
        if s.tasks task.originalURL = some T then [.completing T result] else [])
    else none

def next (s : Downloader U P D R) : Point U P D R → Option (Downloader U P D R × List (Point U P D R))
  | .found url callback none =>
    some ({ s with
      sessionTasks := s.sessionTasks ++ [SessionDataTask.addCallback { originalURL := url } callback]
      tasks := Function.update s.tasks url (some s.sessionTasks.length) }, [.added s.sessionTasks.length])
  | .found _ callback (some T) => s.sessionTasks[T]?.map fun task =>
    (s.setTask T (task.addCallback callback), [.added T])
  | .added T => s.sessionTasks[T]?.map fun task => (s.setTask T { task with started := true }, [])
  | .cancelling [] => some (s, [])
  | .cancelling (.force T :: todo) => s.sessionTasks[T]?.map fun task =>
    (s, Point.rest (task.callbacksStore.map (fun entry => .token T entry.1) ++ todo))
  | .cancelling (.token T token :: todo) => s.sessionTasks[T]?.map fun task =>
    match task.removeCallback token with
    | none => (s, Point.rest todo)
    | some (callback, task) => (s.setTask T task, [.cancelled T token callback todo])
  | .cancelled T token callback todo => s.sessionTasks[T]?.map fun task =>
    if task.started then (s, [.reply T callback (.error (.taskCancelled T token)), .checking T todo])
    else ({ s with dropped := s.dropped ++ [callback.id] }, [.checking T todo])
  | .checking T todo => s.sessionTasks[T]?.map fun task =>
    if task.callbacksStore.isEmpty then (s.setTask T { task with isCancelled := true }, [.removing T todo])
    else (s, Point.rest todo)
  | .completing T result => s.sessionTasks[T]?.map fun task =>
    (s.setTask T task.removeAllCallbacks, [.taken T result task.callbacks])
  | .taken T result callbacks => s.sessionTasks[T]?.map fun task =>
    if task.started then
      (s, (onTaskDone K result callbacks).map (fun r => .reply T r.1 r.2) ++ [.removing T []])
    else ({ s with dropped := s.dropped ++ callbacks.map (·.id) }, [.removing T []])
  | .reply T callback result => some ({ s with completed := s.completed ++ [⟨callback.id, T, result⟩] }, [])
  | .removing T todo => s.sessionTasks[T]?.map fun task =>
    ({ s.setTask T task.removeAllCallbacks with
      tasks := Function.update s.tasks task.originalURL none
      dropped := s.dropped ++ task.callbacks.map (·.id) }, Point.rest todo)

def imageDownloader : Program (Downloader U P D R) (Point U P D R) (Operation U P D) := ⟨{}, start, next K⟩

end program

/-! ## Whose callbacks they are -/

section invariant

variable (K : Processing P I D R)

def Downloader.urls (s : Downloader U P D R) : List U := s.sessionTasks.map (·.originalURL)

/-- The callback of a call for this URL. -/
def Downloader.Belongs (s : Downloader U P D R) (url : U) (callback : TaskCallback P) : Prop :=
  s.calls[callback.id]? = some (url, callback.options)

/-- The image is made of data that the session has reported of the task, which is of the call's URL. It may have been
processed with the options of another call for that URL, if their processors have one identifier. -/
def Downloader.Right (s : Downloader U P D R) (callback T : Nat) (image : R) : Prop :=
  ∃ url options data, s.calls[callback]? = some (url, options) ∧ s.urls[T]? = some url ∧ (T, .ok data) ∈ s.reported ∧
    ∃ options' shared, (url, options') ∈ s.calls ∧ K.identifier options' = K.identifier options ∧
      K.process options' data = some shared ∧ image = K.decoded options shared

structure Sound (s : Downloader U P D R) : Prop where
  tasks : ∀ url T, s.tasks url = some T → s.urls[T]? = some url
  registered : ∀ task ∈ s.sessionTasks, ∀ callback ∈ task.callbacks, s.Belongs task.originalURL callback
  completed : ∀ c ∈ s.completed, ∀ image, c.result = .ok image → s.Right K c.callback c.task image

/-- What a thread knows at its point. -/
def At (s : Downloader U P D R) : Point U P D R → Prop
  | .found url callback existingTask => s.Belongs url callback ∧ ∀ T ∈ existingTask, s.urls[T]? = some url
  | .added T | .checking T _ | .removing T _ | .cancelled T _ _ _ => ∃ url, s.urls[T]? = some url
  | .cancelling _ => True
  | .completing T result => (∃ url, s.urls[T]? = some url) ∧ (T, result) ∈ s.reported
  | .taken T result callbacks => ∃ url, s.urls[T]? = some url ∧ (T, result) ∈ s.reported ∧
      ∀ callback ∈ callbacks, s.Belongs url callback
  | .reply T callback result => ∀ image, result = .ok image → s.Right K callback.id T image

/-- What is never taken back. -/
structure Later (s t : Downloader U P D R) : Prop where
  calls : s.calls <+: t.calls
  urls : s.urls <+: t.urls
  reported : s.reported <+: t.reported

variable {K} {s t : Downloader U P D R}

theorem Later.refl (s : Downloader U P D R) : Later s s := ⟨List.prefix_rfl, List.prefix_rfl, List.prefix_rfl⟩

theorem Later.of_eq (hc : t.calls = s.calls) (hu : t.sessionTasks = s.sessionTasks) (hr : t.reported = s.reported) :
    Later s t := ⟨hc ▸ List.prefix_rfl, by rw [Downloader.urls, Downloader.urls, hu], hr ▸ List.prefix_rfl⟩

theorem getElem?_of_prefix {α : Type*} {l l' : List α} {i : Nat} {a : α} (h : l <+: l') (ha : l[i]? = some a) :
    l'[i]? = some a := by
  obtain ⟨r, rfl⟩ := h
  rw [List.getElem?_append_left (List.getElem?_eq_some_iff.1 ha).1, ha]

theorem Later.belongs (h : Later s t) {url : U} {callback : TaskCallback P} (hb : s.Belongs url callback) :
    t.Belongs url callback := getElem?_of_prefix h.calls hb

theorem Later.url (h : Later s t) {T : Nat} {url : U} (hu : s.urls[T]? = some url) : t.urls[T]? = some url :=
  getElem?_of_prefix h.urls hu

theorem Later.right (h : Later s t) {callback T : Nat} {image : R} (hr : s.Right K callback T image) :
    t.Right K callback T image := by
  obtain ⟨url, options, data, hc, hu, hd, options', shared, hcall, hshared⟩ := hr
  exact ⟨url, options, data, getElem?_of_prefix h.calls hc, h.url hu, h.reported.subset hd, options', shared,
    h.calls.subset hcall, hshared⟩

theorem Later.at (h : Later s t) {p : Point U P D R} (hp : At K s p) : At K t p := by
  cases p with
  | found url callback existingTask => exact ⟨h.belongs hp.1, fun T hT => h.url (hp.2 T hT)⟩
  | added T => exact hp.imp fun _ => h.url
  | cancelling todo => trivial
  | cancelled T token callback todo => exact hp.imp fun _ => h.url
  | checking T todo => exact hp.imp fun _ => h.url
  | completing T result => exact ⟨hp.1.imp fun _ => h.url, h.reported.subset hp.2⟩
  | taken T result callbacks =>
    obtain ⟨url, hu, hr, hc⟩ := hp
    exact ⟨url, h.url hu, h.reported.subset hr, fun callback hm => h.belongs (hc callback hm)⟩
  | reply T callback result => exact fun image he => h.right (hp image he)
  | removing T todo => exact hp.imp fun _ => h.url

theorem at_rest {todo : List Cancel} : ∀ p ∈ (Point.rest todo : List (Point U P D R)), At K s p := by
  intro p hp
  unfold Point.rest at hp
  split at hp
  · cases hp
  · rw [List.mem_singleton.1 hp]
    trivial

theorem exists_task {T : Nat} {url : U} (h : s.urls[T]? = some url) :
    ∃ task, s.sessionTasks[T]? = some task ∧ task.originalURL = url := by
  rw [Downloader.urls, List.getElem?_map, Option.map_eq_some_iff] at h
  exact h

theorem url_of_task {T : Nat} {task : SessionDataTask U P} (h : s.sessionTasks[T]? = some task) :
    s.urls[T]? = some task.originalURL := by
  rw [Downloader.urls, List.getElem?_map, h]
  rfl

theorem urls_setTask {T : Nat} {task task' : SessionDataTask U P} (h : s.sessionTasks[T]? = some task)
    (hu : task'.originalURL = task.originalURL) : (s.setTask T task').urls = s.urls :=
  Table.map_set h hu

theorem Later.setTask {T : Nat} {task task' : SessionDataTask U P} (h : s.sessionTasks[T]? = some task)
    (hu : task'.originalURL = task.originalURL) : Later s (s.setTask T task') :=
  ⟨List.prefix_rfl, by rw [urls_setTask h hu], List.prefix_rfl⟩

/-- A task is changed: its callbacks still belong to it. -/
theorem Sound.setTask (hs : Sound K s) {T : Nat} {task task' : SessionDataTask U P}
    (h : s.sessionTasks[T]? = some task) (hu : task'.originalURL = task.originalURL)
    (hc : ∀ callback ∈ task'.callbacks, s.Belongs task.originalURL callback) : Sound K (s.setTask T task') where
  tasks url T' hT := by
    rw [urls_setTask h hu]
    exact hs.tasks url T' hT
  registered x hx callback hm := by
    rcases List.mem_or_eq_of_mem_set hx with hx | rfl
    · exact hs.registered x hx callback hm
    · rw [hu]
      exact hc callback hm
  completed c hm image he := (Later.setTask h hu).right (hs.completed c hm image he)

theorem callbacks_addCallback (task : SessionDataTask U P) (callback : TaskCallback P) :
    (task.addCallback callback).callbacks = task.callbacks ++ [callback] := by
  simp [SessionDataTask.addCallback, SessionDataTask.callbacks]

/-- The callback removed and those left. -/
theorem callbacks_removeCallback {task task' : SessionDataTask U P} {token : Nat} {callback : TaskCallback P}
    (h : task.removeCallback token = some (callback, task')) :
    task'.originalURL = task.originalURL ∧ task'.started = task.started ∧
      (callback :: task'.callbacks).Perm task.callbacks := by
  obtain ⟨entry, he, h⟩ := Option.map_eq_some_iff.1 h
  obtain ⟨rfl, rfl⟩ := Prod.mk.inj h
  refine ⟨rfl, rfl, ?_⟩
  obtain ⟨hp, as, bs, hstore, has⟩ := List.find?_eq_some_iff_append.1 he
  have herase : task.callbacksStore.eraseP (·.1 = token) = as ++ bs := by
    rw [hstore, List.eraseP_append_right _ (by simpa using has)]
    simp [of_decide_eq_true hp]
  change (entry.2 :: (task.callbacksStore.eraseP (·.1 = token)).map Prod.snd).Perm (task.callbacksStore.map Prod.snd)
  rw [herase, hstore, List.map_append, List.map_append, List.map_cons]
  exact List.perm_middle.symm

theorem sound_start [DecidableEq U] {r : Downloader U P D R × List (Point U P D R)} {operation : Operation U P D}
    (hs : Sound K s) (h : start s operation = some r) : Sound K r.1 ∧ (∀ p ∈ r.2, At K r.1 p) ∧ Later s r.1 := by
  cases operation with
  | downloadImage url options =>
    obtain rfl := Option.some.inj h
    have hlater : Later s { s with calls := s.calls ++ [(url, options)] } :=
      ⟨List.prefix_append _ _, List.prefix_rfl, List.prefix_rfl⟩
    refine ⟨⟨hs.tasks, ?_, ?_⟩, ?_, hlater⟩
    · exact fun task ht callback hc => hlater.belongs (hs.registered task ht callback hc)
    · exact fun c hc image he => hlater.right (hs.completed c hc image he)
    · intro p hp
      rw [List.mem_singleton.1 hp]
      exact ⟨by simp [Downloader.Belongs], fun T hT => hs.tasks url T hT⟩
  | cancel T token =>
    obtain ⟨task, ht, h⟩ := Option.bind_eq_some_iff.1 h
    obtain ⟨-, h⟩ := Option.ite_none_right_eq_some.1 h
    obtain rfl := Option.some.inj h
    exact ⟨hs, List.forall_mem_singleton.2 trivial, Later.refl s⟩
  | cancelURL url =>
    obtain rfl := Option.some.inj h
    exact ⟨hs, at_rest, Later.refl s⟩
  | cancelAll taskValues =>
    obtain ⟨-, h⟩ := Option.ite_none_right_eq_some.1 h
    obtain rfl := Option.some.inj h
    exact ⟨hs, at_rest, Later.refl s⟩
  | report T result =>
    obtain ⟨task, ht, h⟩ := Option.bind_eq_some_iff.1 h
    obtain ⟨-, h⟩ := Option.ite_none_right_eq_some.1 h
    obtain rfl := Option.some.inj h
    have hlater : Later s { s with reported := s.reported ++ [(T, result)] } :=
      ⟨List.prefix_rfl, List.prefix_rfl, List.prefix_append _ _⟩
    refine ⟨⟨hs.tasks, hs.registered, fun c hc image he => hlater.right (hs.completed c hc image he)⟩, ?_, hlater⟩
    intro p hp
    have hp' : p = .completing T result := by
      by_cases he : s.tasks task.originalURL = some T <;> simp [he] at hp
      exact hp
    subst hp'
    exact ⟨⟨_, hlater.url (url_of_task ht)⟩, by simp⟩

/-- Calls come from `downloadImage` alone; what has been called or dropped stays so. -/
theorem calls_start [DecidableEq U] {r : Downloader U P D R × List (Point U P D R)} {operation : Operation U P D}
    (h : start s operation = some r) : r.1.completed = s.completed ∧ r.1.dropped = s.dropped ∧
      (r.1.calls = s.calls ∨ ∃ url options, operation = .downloadImage url options ∧
        r.1.calls = s.calls ++ [(url, options)]) := by
  cases operation with
  | downloadImage url options =>
    obtain rfl := Option.some.inj h
    exact ⟨rfl, rfl, .inr ⟨url, options, rfl, rfl⟩⟩
  | cancel T token =>
    obtain ⟨task, -, h⟩ := Option.bind_eq_some_iff.1 h
    obtain ⟨-, h⟩ := Option.ite_none_right_eq_some.1 h
    obtain rfl := Option.some.inj h
    exact ⟨rfl, rfl, .inl rfl⟩
  | cancelURL url =>
    obtain rfl := Option.some.inj h
    exact ⟨rfl, rfl, .inl rfl⟩
  | cancelAll taskValues =>
    obtain ⟨-, h⟩ := Option.ite_none_right_eq_some.1 h
    obtain rfl := Option.some.inj h
    exact ⟨rfl, rfl, .inl rfl⟩
  | report T result =>
    obtain ⟨task, -, h⟩ := Option.bind_eq_some_iff.1 h
    obtain ⟨-, h⟩ := Option.ite_none_right_eq_some.1 h
    obtain rfl := Option.some.inj h
    exact ⟨rfl, rfl, .inl rfl⟩

variable [DecidableEq U] [DecidableEq I]

theorem sound_next {r : Downloader U P D R × List (Point U P D R)} {p : Point U P D R} (hs : Sound K s)
    (hp : At K s p) (h : next K s p = some r) :
    Sound K r.1 ∧ (∀ q ∈ r.2, At K r.1 q) ∧ Later s r.1 := by
  cases p with
  | found url callback existingTask =>
    obtain ⟨hcall, hurl⟩ := hp
    cases existingTask with
    | none =>
      obtain rfl := Option.some.inj h
      have hlater : Later s { s with
          sessionTasks := s.sessionTasks ++ [SessionDataTask.addCallback { originalURL := url } callback]
          tasks := Function.update s.tasks url (some s.sessionTasks.length) } :=
        ⟨List.prefix_rfl, by simp [Downloader.urls], List.prefix_rfl⟩
      have hnew : (Downloader.urls { s with
          sessionTasks := s.sessionTasks ++ [SessionDataTask.addCallback { originalURL := url } callback]
          tasks := Function.update s.tasks url (some s.sessionTasks.length) })[s.sessionTasks.length]? = some url := by
        simp [Downloader.urls, SessionDataTask.addCallback]
      refine ⟨⟨?_, ?_, fun c hc image he => hlater.right (hs.completed c hc image he)⟩, ?_, hlater⟩
      · intro url' T hT
        by_cases he : url' = url
        · subst he
          obtain rfl : s.sessionTasks.length = T := by simpa using hT
          exact hnew
        · exact hlater.url (hs.tasks url' T (by simpa [he] using hT))
      · intro task ht c hc
        rcases List.mem_append.1 ht with ht | ht
        · exact hs.registered task ht c hc
        · rw [List.mem_singleton.1 ht] at hc ⊢
          obtain rfl : c = callback := by simpa [SessionDataTask.addCallback, SessionDataTask.callbacks] using hc
          exact hcall
      · intro q hq
        rw [List.mem_singleton.1 hq]
        exact ⟨url, hnew⟩
    | some T =>
      obtain ⟨task, ht, rfl⟩ := Option.map_eq_some_iff.1 h
      have he := (hurl T rfl).symm.trans (url_of_task ht)
      have hlater : Later s (s.setTask T (task.addCallback callback)) := Later.setTask ht rfl
      refine ⟨hs.setTask ht rfl fun c hc => ?_, ?_, hlater⟩
      · rw [callbacks_addCallback] at hc
        rcases List.mem_append.1 hc with hc | hc
        · exact hs.registered task (List.mem_of_getElem? ht) c hc
        · rw [List.mem_singleton.1 hc, ← Option.some.inj he]
          exact hcall
      · intro q hq
        rw [List.mem_singleton.1 hq]
        exact ⟨_, hlater.url (url_of_task ht)⟩
  | added T =>
    obtain ⟨task, ht, rfl⟩ := Option.map_eq_some_iff.1 h
    refine ⟨hs.setTask ht rfl fun c hc => ?_, by simp, Later.setTask ht rfl⟩
    exact hs.registered task (List.mem_of_getElem? ht) c hc
  | cancelling todo =>
    cases todo with
    | nil =>
      obtain rfl := Option.some.inj h
      exact ⟨hs, by simp, Later.refl s⟩
    | cons c todo =>
      cases c with
      | force T =>
        obtain ⟨task, ht, rfl⟩ := Option.map_eq_some_iff.1 h
        exact ⟨hs, at_rest, Later.refl s⟩
      | token T token =>
        obtain ⟨task, ht, rfl⟩ := Option.map_eq_some_iff.1 h
        cases hr : task.removeCallback token with
        | none => exact ⟨hs, at_rest, Later.refl s⟩
        | some removed =>
          obtain ⟨callback, task'⟩ := removed
          obtain ⟨hu, -, hperm⟩ := callbacks_removeCallback hr
          have hlater : Later s (s.setTask T task') := Later.setTask ht hu
          refine ⟨hs.setTask ht hu fun c hc => ?_, List.forall_mem_singleton.2 ⟨_, hlater.url (url_of_task ht)⟩, hlater⟩
          exact hs.registered task (List.mem_of_getElem? ht) c (hperm.subset (List.mem_cons_of_mem _ hc))
  | cancelled T token callback todo =>
    obtain ⟨task, ht, rfl⟩ := Option.map_eq_some_iff.1 h
    cases hst : task.started with
    | true =>
      refine ⟨hs, ?_, Later.refl s⟩
      intro q hq
      simp only [if_true, List.mem_cons, List.not_mem_nil, or_false] at hq
      rcases hq with rfl | rfl
      · simp [At]
      · exact hp
    | false => exact ⟨⟨hs.tasks, hs.registered, hs.completed⟩, List.forall_mem_singleton.2 hp, .of_eq rfl rfl rfl⟩
  | checking T todo =>
    obtain ⟨task, ht, rfl⟩ := Option.map_eq_some_iff.1 h
    cases he : task.callbacksStore.isEmpty with
    | true =>
      have hlater : Later s (s.setTask T { task with isCancelled := true }) := Later.setTask ht rfl
      refine ⟨hs.setTask ht rfl fun c hc => ?_, List.forall_mem_singleton.2 (hp.imp fun _ => hlater.url), hlater⟩
      exact hs.registered task (List.mem_of_getElem? ht) c hc
    | false => exact ⟨hs, at_rest, Later.refl s⟩
  | completing T result =>
    obtain ⟨task, ht, rfl⟩ := Option.map_eq_some_iff.1 h
    have hlater : Later s (s.setTask T task.removeAllCallbacks) := Later.setTask ht rfl
    refine ⟨hs.setTask ht rfl (by simp [SessionDataTask.removeAllCallbacks, SessionDataTask.callbacks]), ?_, hlater⟩
    intro q hq
    rw [List.mem_singleton.1 hq]
    exact ⟨_, hlater.url (url_of_task ht), hp.2, hs.registered task (List.mem_of_getElem? ht)⟩
  | taken T result callbacks =>
    obtain ⟨url, hu, hr, hc⟩ := hp
    obtain ⟨task, ht, rfl⟩ := Option.map_eq_some_iff.1 h
    cases hst : task.started with
    | true =>
      refine ⟨hs, ?_, Later.refl s⟩
      intro q hq
      simp only [if_true] at hq
      rcases List.mem_append.1 hq with hq | hq
      · obtain ⟨⟨callback, result'⟩, hm, rfl⟩ := List.mem_map.1 hq
        rintro image rfl
        obtain ⟨hcb, data, rfl, shared, ⟨other, hother, hid, hprocess⟩, hi⟩ := ok_of_mem_onTaskDone K hm
        exact ⟨url, callback.options, data, hc callback hcb, hu, hr, other.options, shared,
          List.mem_of_getElem? (hc other hother), hid, hprocess, hi⟩
      · rw [List.mem_singleton.1 hq]
        exact ⟨url, hu⟩
    | false =>
      exact ⟨⟨hs.tasks, hs.registered, hs.completed⟩, List.forall_mem_singleton.2 ⟨url, hu⟩, .of_eq rfl rfl rfl⟩
  | reply T callback result =>
    obtain rfl := Option.some.inj h
    refine ⟨⟨hs.tasks, hs.registered, ?_⟩, by simp, ⟨List.prefix_rfl, List.prefix_rfl, List.prefix_rfl⟩⟩
    intro c hc image he
    rcases List.mem_append.1 hc with hc | hc
    · exact hs.completed c hc image he
    · rw [List.mem_singleton.1 hc] at he ⊢
      exact hp image he
  | removing T todo =>
    obtain ⟨task, ht, rfl⟩ := Option.map_eq_some_iff.1 h
    have hset : Sound K (s.setTask T task.removeAllCallbacks) :=
      hs.setTask ht rfl (by simp [SessionDataTask.removeAllCallbacks, SessionDataTask.callbacks])
    have hlater : Later s (s.setTask T task.removeAllCallbacks) := Later.setTask ht rfl
    refine ⟨⟨?_, hset.registered, hset.completed⟩, at_rest, ⟨hlater.calls, hlater.urls, hlater.reported⟩⟩
    intro url T' hT
    by_cases he : url = task.originalURL
    · subst he
      simp at hT
    · have hT' : s.tasks url = some T' := by simpa [he, Downloader.setTask] using hT
      exact hset.tasks url T' hT'

theorem sound_inductive : (pool (imageDownloader K)).Inductive fun s : Pool (Downloader U P D R) (Point U P D R) =>
    Sound K s.shared ∧ ∀ p ∈ s.points, At K s.shared p := by
  refine pool_inductive ⟨by simp [imageDownloader], by simp [imageDownloader], by simp [imageDownloader]⟩ ?_ ?_
  · intro s operation r hs h
    obtain ⟨hs', hnew, hlater⟩ := sound_start hs h
    exact ⟨hs', hnew, fun p hp => hlater.at hp⟩
  · intro s p r hs hp h
    obtain ⟨hs', hnew, hlater⟩ := sound_next hs hp h
    exact ⟨hs', hnew, fun q hq => hlater.at hq⟩

theorem calls_next {r : Downloader U P D R × List (Point U P D R)} {p : Point U P D R}
    (h : next K s p = some r) :
    s.completed <+: r.1.completed ∧ s.dropped <+: r.1.dropped ∧ r.1.calls = s.calls := by
  cases p with
  | found url callback existingTask =>
    cases existingTask with
    | none =>
      obtain rfl := Option.some.inj h
      exact ⟨List.prefix_rfl, List.prefix_rfl, rfl⟩
    | some T =>
      obtain ⟨task, -, rfl⟩ := Option.map_eq_some_iff.1 h
      exact ⟨List.prefix_rfl, List.prefix_rfl, rfl⟩
  | added T =>
    obtain ⟨task, -, rfl⟩ := Option.map_eq_some_iff.1 h
    exact ⟨List.prefix_rfl, List.prefix_rfl, rfl⟩
  | cancelling todo =>
    cases todo with
    | nil =>
      obtain rfl := Option.some.inj h
      exact ⟨List.prefix_rfl, List.prefix_rfl, rfl⟩
    | cons c todo =>
      cases c with
      | force T =>
        obtain ⟨task, -, rfl⟩ := Option.map_eq_some_iff.1 h
        exact ⟨List.prefix_rfl, List.prefix_rfl, rfl⟩
      | token T token =>
        obtain ⟨task, -, rfl⟩ := Option.map_eq_some_iff.1 h
        cases task.removeCallback token with
        | none => exact ⟨List.prefix_rfl, List.prefix_rfl, rfl⟩
        | some removed => exact ⟨List.prefix_rfl, List.prefix_rfl, rfl⟩
  | cancelled T token callback todo =>
    obtain ⟨task, -, rfl⟩ := Option.map_eq_some_iff.1 h
    cases task.started with
    | true => exact ⟨List.prefix_rfl, List.prefix_rfl, rfl⟩
    | false => exact ⟨List.prefix_rfl, List.prefix_append _ _, rfl⟩
  | checking T todo =>
    obtain ⟨task, -, rfl⟩ := Option.map_eq_some_iff.1 h
    cases task.callbacksStore.isEmpty with
    | true => exact ⟨List.prefix_rfl, List.prefix_rfl, rfl⟩
    | false => exact ⟨List.prefix_rfl, List.prefix_rfl, rfl⟩
  | completing T result =>
    obtain ⟨task, -, rfl⟩ := Option.map_eq_some_iff.1 h
    exact ⟨List.prefix_rfl, List.prefix_rfl, rfl⟩
  | taken T result callbacks =>
    obtain ⟨task, -, rfl⟩ := Option.map_eq_some_iff.1 h
    cases task.started with
    | true => exact ⟨List.prefix_rfl, List.prefix_rfl, rfl⟩
    | false => exact ⟨List.prefix_rfl, List.prefix_append _ _, rfl⟩
  | reply T callback result =>
    obtain rfl := Option.some.inj h
    exact ⟨List.prefix_append _ _, List.prefix_rfl, rfl⟩
  | removing T todo =>
    obtain ⟨task, -, rfl⟩ := Option.map_eq_some_iff.1 h
    exact ⟨List.prefix_rfl, List.prefix_append _ _, rfl⟩

/-- What one step of the pool never takes back. -/
theorem later_step {s t : Pool (Downloader U P D R) (Point U P D R)} {e : Event (Operation U P D)}
    (hs : (pool (imageDownloader K)).Reachable s) (h : (pool (imageDownloader K)).step s e = some t) :
    Later s.shared t.shared ∧ s.shared.completed <+: t.shared.completed ∧ s.shared.dropped <+: t.shared.dropped ∧
      (t.shared.calls = s.shared.calls ∨ ∃ url processor, e = .start (.downloadImage url processor) ∧
        t.shared.calls = s.shared.calls ++ [(url, processor)]) := by
  obtain ⟨hsound, hat⟩ := sound_inductive.reachable hs
  rcases step_cases h with ⟨operation, r, rfl, hr, rfl⟩ | ⟨i, p, r, rfl, hp, hr, rfl⟩
  · obtain ⟨hcompleted, hdropped, hcalls⟩ := calls_start hr
    refine ⟨(sound_start hsound hr).2.2, hcompleted ▸ List.prefix_rfl, hdropped ▸ List.prefix_rfl, hcalls.imp id ?_⟩
    rintro ⟨url, processor, rfl, hc⟩
    exact ⟨url, processor, rfl, hc⟩
  · obtain ⟨hcompleted, hdropped, hcalls⟩ := calls_next hr
    exact ⟨(sound_next hsound (hat p (List.mem_of_getElem? hp)) hr).2.2, hcompleted, hdropped, .inl hcalls⟩

end invariant

/-! ## Where the callbacks are -/

def ids (callbacks : List (TaskCallback P)) : Multiset Nat := (callbacks.map (·.id) : List Nat)

/-- Waiting in a task, called, or dropped. -/
def Downloader.accounted (s : Downloader U P D R) : Multiset Nat :=
  (s.sessionTasks.map fun task => ids task.callbacks).sum + (s.completed.map (·.callback) : List Nat) +
    (s.dropped : List Nat)

/-- In the hands of a thread. -/
def Point.carried : Point U P D R → Multiset Nat
  | .found _ callback _ | .cancelled _ _ callback _ | .reply _ callback _ => {callback.id}
  | .taken _ _ callbacks => ids callbacks
  | .added _ | .cancelling _ | .checking _ _ | .completing _ _ | .removing _ _ => 0

def Downloader.issued (s : Downloader U P D R) : Multiset Nat := Multiset.range s.calls.length

section accounted

variable {s : Downloader U P D R}

theorem accounted_setTask {T : Nat} {task : SessionDataTask U P} (h : s.sessionTasks[T]? = some task)
    (task' : SessionDataTask U P) :
    (s.setTask T task').accounted + ids task.callbacks = s.accounted + ids task'.callbacks := by
  have hsum := Table.sum_set (fun task : SessionDataTask U P => ids task.callbacks) (b := task') h
  simp only [Downloader.accounted, Downloader.setTask]
  rw [add_assoc _ _ (s.dropped : Multiset Nat), add_right_comm, hsum]
  abel

theorem accounted_removeCallback {T token : Nat} {task task' : SessionDataTask U P} {callback : TaskCallback P}
    (h : s.sessionTasks[T]? = some task) (hr : task.removeCallback token = some (callback, task')) :
    (s.setTask T task').accounted + {callback.id} = s.accounted := by
  have hset := accounted_setTask h task'
  have hids : ids task.callbacks = {callback.id} + ids task'.callbacks := by
    have hperm := (callbacks_removeCallback hr).2.2.map (·.id)
    rw [ids, ← Multiset.coe_eq_coe.2 hperm]
    rfl
  rw [hids, ← add_assoc] at hset
  exact add_right_cancel hset

theorem held_rest (todo : List Cancel) : held Point.carried (Point.rest todo : List (Point U P D R)) = 0 := by
  unfold Point.rest
  split <;> rfl

theorem accounted_start [DecidableEq U] {r : Downloader U P D R × List (Point U P D R)} {operation : Operation U P D}
    (h : start s operation = some r) :
    ∃ d, r.1.accounted + held Point.carried r.2 = s.accounted + d ∧ r.1.issued = s.issued + d := by
  cases operation with
  | downloadImage url options =>
    obtain rfl := Option.some.inj h
    refine ⟨{s.calls.length}, by simp [held, Point.carried, Downloader.accounted], ?_⟩
    rw [add_comm]
    simp [Downloader.issued, Multiset.range_succ]
  | cancel T token =>
    obtain ⟨task, ht, h⟩ := Option.bind_eq_some_iff.1 h
    obtain ⟨-, h⟩ := Option.ite_none_right_eq_some.1 h
    obtain rfl := Option.some.inj h
    exact ⟨0, by simp [held, Point.carried], (add_zero _).symm⟩
  | cancelURL url =>
    obtain rfl := Option.some.inj h
    exact ⟨0, by rw [held_rest], (add_zero _).symm⟩
  | cancelAll taskValues =>
    obtain ⟨-, h⟩ := Option.ite_none_right_eq_some.1 h
    obtain rfl := Option.some.inj h
    exact ⟨0, by rw [held_rest], (add_zero _).symm⟩
  | report T result =>
    obtain ⟨task, ht, h⟩ := Option.bind_eq_some_iff.1 h
    obtain ⟨-, h⟩ := Option.ite_none_right_eq_some.1 h
    obtain rfl := Option.some.inj h
    refine ⟨0, ?_, (add_zero _).symm⟩
    by_cases he : s.tasks task.originalURL = some T <;> simp [he, held, Point.carried, Downloader.accounted]

/-- Taken out of their task and not called. -/
theorem accounted_drop (callbacks : List (TaskCallback P)) :
    Downloader.accounted { s with dropped := s.dropped ++ callbacks.map (·.id) } = s.accounted + ids callbacks := by
  simp only [Downloader.accounted, ids, ← Multiset.coe_add]
  abel

theorem held_replies (T : Nat) (replies : List (TaskCallback P × DownloadResult R)) :
    held Point.carried (replies.map fun r => (.reply T r.1 r.2 : Point U P D R)) = ids (replies.map Prod.fst) := by
  induction replies with
  | nil => rfl
  | cons r replies ih =>
    simp only [held, List.map_cons, List.sum_cons] at ih ⊢
    rw [ih]
    rfl

variable [DecidableEq U] [DecidableEq I] {K : Processing P I D R}

theorem accounted_next {r : Downloader U P D R × List (Point U P D R)} {p : Point U P D R}
    (h : next K s p = some r) :
    r.1.accounted + held Point.carried r.2 = s.accounted + p.carried ∧ r.1.issued = s.issued := by
  cases p with
  | found url callback existingTask =>
    cases existingTask with
    | none =>
      obtain rfl := Option.some.inj h
      refine ⟨?_, rfl⟩
      simp only [Downloader.accounted, held, Point.carried, SessionDataTask.addCallback, SessionDataTask.callbacks, ids,
        List.map_append, List.sum_append, List.map_cons, List.map_nil, List.nil_append, List.sum_cons, List.sum_nil,
        Multiset.coe_singleton]
      abel
    | some T =>
      obtain ⟨task, ht, rfl⟩ := Option.map_eq_some_iff.1 h
      refine ⟨?_, rfl⟩
      have hset := accounted_setTask ht (task.addCallback callback)
      have hids : ids (task.addCallback callback).callbacks = {callback.id} + ids task.callbacks := by
        rw [callbacks_addCallback, ids, List.map_append, add_comm]
        rfl
      rw [hids, ← add_assoc] at hset
      simpa [held, Point.carried] using add_right_cancel hset
  | added T =>
    obtain ⟨task, ht, rfl⟩ := Option.map_eq_some_iff.1 h
    refine ⟨?_, rfl⟩
    simpa [held, Point.carried] using add_right_cancel (accounted_setTask ht { task with started := true })
  | cancelling todo =>
    cases todo with
    | nil =>
      obtain rfl := Option.some.inj h
      exact ⟨rfl, rfl⟩
    | cons c todo =>
      cases c with
      | force T =>
        obtain ⟨task, ht, rfl⟩ := Option.map_eq_some_iff.1 h
        exact ⟨by rw [held_rest]; rfl, rfl⟩
      | token T token =>
        obtain ⟨task, ht, rfl⟩ := Option.map_eq_some_iff.1 h
        cases hr : task.removeCallback token with
        | none => exact ⟨by rw [held_rest]; rfl, rfl⟩
        | some removed =>
          obtain ⟨callback, task'⟩ := removed
          refine ⟨?_, rfl⟩
          simpa [held, Point.carried] using accounted_removeCallback ht hr
  | cancelled T token callback todo =>
    obtain ⟨task, ht, rfl⟩ := Option.map_eq_some_iff.1 h
    cases task.started with
    | true => simp [held, Point.carried]
    | false =>
      have hdrop := accounted_drop (s := s) [callback]
      simpa [held, Point.carried, ids, Downloader.issued] using hdrop
  | checking T todo =>
    obtain ⟨task, ht, rfl⟩ := Option.map_eq_some_iff.1 h
    cases task.callbacksStore.isEmpty with
    | true =>
      refine ⟨?_, rfl⟩
      simpa [held, Point.carried] using add_right_cancel (accounted_setTask ht { task with isCancelled := true })
    | false => exact ⟨by rw [if_neg Bool.false_ne_true, held_rest]; rfl, rfl⟩
  | completing T result =>
    obtain ⟨task, ht, rfl⟩ := Option.map_eq_some_iff.1 h
    refine ⟨?_, rfl⟩
    simpa [held, Point.carried, SessionDataTask.removeAllCallbacks, SessionDataTask.callbacks, ids] using
      accounted_setTask ht task.removeAllCallbacks
  | taken T result callbacks =>
    obtain ⟨task, ht, rfl⟩ := Option.map_eq_some_iff.1 h
    cases task.started with
    | true =>
      refine ⟨?_, rfl⟩
      have hreplies := held_replies (U := U) (D := D) T (onTaskDone K result callbacks)
      rw [onTaskDone_fst] at hreplies
      simp only [if_true, held, List.map_append, List.sum_append] at hreplies ⊢
      rw [hreplies]
      simp [Point.carried]
    | false =>
      refine ⟨?_, rfl⟩
      simpa [held, Point.carried] using accounted_drop (s := s) callbacks
  | reply T callback result =>
    obtain rfl := Option.some.inj h
    refine ⟨?_, rfl⟩
    simp only [Downloader.accounted, held, Point.carried, List.map_append, ← Multiset.coe_add, List.map_cons, List.map_nil,
      List.sum_nil, Multiset.coe_singleton]
    abel
  | removing T todo =>
    obtain ⟨task, ht, rfl⟩ := Option.map_eq_some_iff.1 h
    refine ⟨?_, rfl⟩
    have hset := accounted_setTask ht task.removeAllCallbacks
    have hnone : ids task.removeAllCallbacks.callbacks = 0 := rfl
    rw [hnone, add_zero] at hset
    rw [held_rest, ← hset]
    simp only [Downloader.accounted, Downloader.setTask, ids, Point.carried, ← Multiset.coe_add]
    abel

theorem accounted_inductive : (pool (imageDownloader K)).Inductive fun s : Pool (Downloader U P D R) (Point U P D R) =>
    (Sound K s.shared ∧ ∀ p ∈ s.points, At K s.shared p) ∧
      s.total Downloader.accounted Point.carried = s.shared.issued :=
  conserved sound_inductive rfl (fun _ h => accounted_start h) fun _ _ _ h =>
    ⟨0, by rw [add_zero]; exact (accounted_next h).1, by rw [add_zero]; exact (accounted_next h).2⟩

/-- The callbacks called and those dropped are of calls made, each of another one. -/
theorem settled_nodup {s : Pool (Downloader U P D R) (Point U P D R)} (h : (pool (imageDownloader K)).Reachable s) :
    (s.shared.completed.map (·.callback) ++ s.shared.dropped).Nodup ∧
      ∀ call ∈ s.shared.completed.map (·.callback) ++ s.shared.dropped, call < s.shared.calls.length := by
  have htotal : s.total Downloader.accounted Point.carried = Multiset.range s.shared.calls.length :=
    (accounted_inductive.reachable h).2
  have hle : ((s.shared.completed.map (·.callback) ++ s.shared.dropped : List Nat) : Multiset Nat) ≤
      s.total Downloader.accounted Point.carried := by
    refine le_trans ?_ (Multiset.le_add_right _ _)
    rw [Downloader.accounted, ← Multiset.coe_add, add_assoc]
    exact Multiset.le_add_left _ _
  rw [htotal] at hle
  exact ⟨Multiset.coe_nodup.1 (Multiset.nodup_of_le hle (Multiset.nodup_range _)), fun call hc =>
    Multiset.mem_range.1 (Multiset.mem_of_le hle (Multiset.mem_coe.2 hc))⟩

theorem completed_nodup {s : Pool (Downloader U P D R) (Point U P D R)} (h : (pool (imageDownloader K)).Reachable s) :
    (s.shared.completed.map (·.callback)).Nodup := (List.nodup_append.1 (settled_nodup h).1).1

theorem callback_lt {s : Pool (Downloader U P D R) (Point U P D R)} (h : (pool (imageDownloader K)).Reachable s)
    {c : Completion R} (hc : c ∈ s.shared.completed) : c.callback < s.shared.calls.length :=
  (settled_nodup h).2 _ (List.mem_append_left _ (List.mem_map_of_mem hc))

end accounted

/-- The identifier is the last digit of the options. -/
def sampleProcessing : Processing Nat Nat Nat Nat := ⟨(· % 10), fun options data => some (options + data), fun _ image => image⟩

end CrossplatformBenchmark.Kingfisher
