import Mathlib

/-!
# Kingfisher's storages (MemoryStorage.swift, DiskStorage.swift, Storage.swift, ImageCache.swift)

| source                                                          | here                             |
|-----------------------------------------------------------------|----------------------------------|
| `StorageExpiration`, `ExpirationExtending` (Storage.swift:36-99) | the same                         |
| `MemoryStorage.Backend` (MemoryStorage.swift:54-198)            | `MemoryStorage`                  |
| `DiskStorage.Backend` (DiskStorage.swift:46-436)                | `DiskStorage`                    |
| `setupCacheChecking` (DiskStorage.swift:102-116)                | `CheckBlock.setup`               |
| `store` (DiskStorage.swift:149-213)                             | `write`, `setAttributes`, `insertMaybeCached` |
| `value` (DiskStorage.swift:237-275)                             | `DiskStorage.lookup`             |
| `maybeCachedCheckingQueue.sync` (DiskStorage.swift:252-254)     | `DiskStorage.sync`               |
| `removeExpiredValues` (DiskStorage.swift:412-436)               | `expiredFiles`, `removeFile`     |
| `FileMeta` (DiskStorage.swift:570-640)                          | `File.expired`, `extendExpiration` |
| `computedKey(with:)` (ImageCache.swift:1301-1307)               | `computedKey`                    |

`NSCache` may drop an object at any time (`evict`). `maybeCached` and its serial queue are here as they are. `store`
writes the file, sets its attributes and has the queue insert its name, each a step of its own. A reader may come in
between: it misses a file whose name is not queued yet, and finds one that is just written if its `referenceDate` is
older than the write. A step is done as a whole: launches do not end within one. The file system fails only on a file
that has gone. Dates are in seconds.

* `removeExpired_clean` — no expired object is overlooked: `keys` tracks all objects.
* `lookup_eq_some` — a look-up finds only what the folder has.
* `lookup_eq` — and the shortcut through `maybeCached` hides no file whose name is listed or will be.
-/

namespace CrossplatformBenchmark.Kingfisher

/-! ## Expiration, in seconds -/

def distantFuture : Int := 63113904000

def distantPast : Int := -63114076800

def isPast (date referenceDate : Int) : Bool := date - referenceDate ≤ 0

inductive StorageExpiration where
  | never
  | seconds (duration : Int)
  | days (duration : Int)
  | date (ref : Int)
  | expired

inductive ExpirationExtending where
  | none
  | cacheTime
  | expirationTime (expiration : StorageExpiration)

def secondsInOneDay : Int := 86400

def StorageExpiration.estimatedExpirationSince : StorageExpiration → Int → Int
  | .never, _ => distantFuture
  | .seconds duration, since => since + duration
  | .days duration, since => since + secondsInOneDay * duration
  | .date ref, _ => ref
  | .expired, _ => distantPast

/-- `timeInterval <= 0` -/
def StorageExpiration.isExpired : StorageExpiration → Int → Bool
  | .never, _ => false
  | .seconds duration, _ => duration ≤ 0
  | .days duration, _ => secondsInOneDay * duration ≤ 0
  | .date ref, now => ref - now ≤ 0
  | .expired, _ => true

/-! ## Keys -/

def computedKey (key identifier : String) : String :=
  if identifier.isEmpty then key else key ++ ("@" ++ identifier)

theorem computedKey_injective (identifier : String) : Function.Injective (computedKey · identifier) := by
  intro key key' h
  by_cases he : identifier.isEmpty
  · simpa [computedKey, he] using h
  · have hlist : key.toList ++ ("@" ++ identifier).toList = key'.toList ++ ("@" ++ identifier).toList := by
      simpa [computedKey, he] using congrArg String.toList h
    exact String.toList_injective (List.append_cancel_right hlist)

theorem mem_computedKey {key identifier : String} {c : Char} (h : c ∈ identifier.toList) :
    c ∈ (computedKey key identifier).toList := by
  have he : identifier.isEmpty = false := by
    rw [← Bool.not_eq_true, String.isEmpty_iff]
    rintro rfl
    simp at h
  simp [computedKey, he, h]

/-! ## The memory storage -/

structure StorageObject (R : Type*) where
  value : R
  expiration : StorageExpiration
  estimatedExpiration : Int

variable {R D : Type*}

def StorageObject.isExpired (object : StorageObject R) (now : Int) : Bool := isPast object.estimatedExpiration now

def StorageObject.extendExpiration (object : StorageObject R) (now : Int) : ExpirationExtending → StorageObject R
  | .none => object
  | .cacheTime => { object with estimatedExpiration := object.expiration.estimatedExpirationSince now }
  | .expirationTime expiration => { object with estimatedExpiration := expiration.estimatedExpirationSince now }

structure MemoryStorage (R : Type*) where
  storage : String → Option (StorageObject R) := fun _ => none
  keys : Finset String := ∅

namespace MemoryStorage

def storeNoThrow (s : MemoryStorage R) (now : Int) (value : R) (key : String) (expiration : StorageExpiration) :
    MemoryStorage R :=
  if expiration.isExpired now then s
  else
    { storage := Function.update s.storage key (some ⟨value, expiration, expiration.estimatedExpirationSince now⟩)
      keys := insert key s.keys }

def value (s : MemoryStorage R) (now : Int) (key : String) (extending : ExpirationExtending) :
    Option R × MemoryStorage R :=
  match s.storage key with
  | none => (none, s)
  | some object =>
    if object.isExpired now then (none, s)
    else (some object.value,
      { s with storage := Function.update s.storage key (some (object.extendExpiration now extending)) })

def isCached (s : MemoryStorage R) (now : Int) (key : String) : Bool := (s.value now key .none).1.isSome

/-- One key of `removeExpired`'s loop: the object is still there and not expired. -/
def keeps (s : MemoryStorage R) (now : Int) (key : String) : Bool :=
  match s.storage key with
  | none => false
  | some object => !object.isExpired now

def removeExpired (s : MemoryStorage R) (now : Int) : MemoryStorage R where
  storage key := if key ∈ s.keys ∧ s.keeps now key = false then none else s.storage key
  keys := s.keys.filter fun key => s.keeps now key

def removeAll (_ : MemoryStorage R) : MemoryStorage R := {}

/-- `NSCache` drops an object by its own rules. -/
def evict (s : MemoryStorage R) (key : String) : MemoryStorage R :=
  { s with storage := Function.update s.storage key none }

/-- Every object is known by its key. -/
def Tracked (s : MemoryStorage R) : Prop := ∀ key object, s.storage key = some object → key ∈ s.keys

variable {s : MemoryStorage R} {now : Int} {key : String}

theorem storage_storeNoThrow {value : R} {expiration : StorageExpiration} {k : String} {object : StorageObject R}
    (h : (s.storeNoThrow now value key expiration).storage k = some object) :
    (k = key ∧ object.value = value) ∨ s.storage k = some object := by
  unfold storeNoThrow at h
  split at h
  · exact .inr h
  · by_cases hk : k = key
    · subst hk
      simp only [Function.update_self, Option.some.injEq] at h
      exact .inl ⟨rfl, by rw [← h]⟩
    · exact .inr (by simpa [hk] using h)

theorem value_eq_some {extending : ExpirationExtending} {value : R} (h : (s.value now key extending).1 = some value) :
    ∃ object, s.storage key = some object ∧ object.isExpired now = false ∧ object.value = value := by
  unfold MemoryStorage.value at h
  split at h
  · cases h
  · rename_i object hobject
    split at h
    · cases h
    · rename_i hexpired
      exact ⟨object, hobject, by simpa using hexpired, Option.some.inj h⟩

/-- A reading changes no value. -/
theorem storage_value {extending : ExpirationExtending} {k : String} {object : StorageObject R}
    (h : (s.value now key extending).2.storage k = some object) :
    ∃ object', s.storage k = some object' ∧ object'.value = object.value := by
  unfold MemoryStorage.value at h
  split at h
  · exact ⟨object, h, rfl⟩
  · rename_i object' hobject
    split at h
    · exact ⟨object, h, rfl⟩
    · by_cases hk : k = key
      · subst hk
        simp only [Function.update_self, Option.some.injEq] at h
        refine ⟨object', hobject, ?_⟩
        rw [← h]
        cases extending <;> rfl
      · exact ⟨object, by simpa [hk] using h, rfl⟩

theorem keys_value (extending : ExpirationExtending) : (s.value now key extending).2.keys = s.keys := by
  unfold MemoryStorage.value
  split
  · rfl
  · split <;> rfl

theorem isCached_eq_true : s.isCached now key = true ↔
    ∃ object, s.storage key = some object ∧ object.isExpired now = false := by
  unfold isCached MemoryStorage.value
  cases s.storage key with
  | none => simp
  | some object => cases h : object.isExpired now <;> simp [h]

theorem storage_removeExpired {k : String} {object : StorageObject R} (h : (s.removeExpired now).storage k = some object) :
    s.storage k = some object := by
  simp only [removeExpired] at h
  split at h
  · cases h
  · exact h

theorem storage_evict {k : String} {object : StorageObject R} (h : (s.evict key).storage k = some object) :
    s.storage k = some object := by
  by_cases hk : k = key
  · subst hk
    simp [evict] at h
  · simpa [evict, hk] using h

theorem Tracked.storeNoThrow (h : s.Tracked) (value : R) (expiration : StorageExpiration) :
    (s.storeNoThrow now value key expiration).Tracked := by
  intro k object hk
  unfold MemoryStorage.storeNoThrow at hk ⊢
  split at hk
  · rw [if_pos (by assumption)]
    exact h k object hk
  · rw [if_neg (by assumption)]
    by_cases he : k = key
    · exact he ▸ Finset.mem_insert_self _ _
    · exact Finset.mem_insert_of_mem (h k object (by simpa [he] using hk))

theorem Tracked.value (h : s.Tracked) (extending : ExpirationExtending) : (s.value now key extending).2.Tracked := by
  intro k object hk
  obtain ⟨object', hobject, -⟩ := storage_value hk
  rw [keys_value]
  exact h k object' hobject

theorem Tracked.evict (h : s.Tracked) (key : String) : (s.evict key).Tracked :=
  fun k object hk => h k object (storage_evict hk)

/-- **Nothing expired is overlooked**, although evicted objects leave their keys behind. -/
theorem removeExpired_clean (h : s.Tracked) :
    (∀ k, k ∈ (s.removeExpired now).keys ↔ ∃ object, (s.removeExpired now).storage k = some object) ∧
    ∀ k object, (s.removeExpired now).storage k = some object → object.isExpired now = false := by
  have hkeeps : ∀ k object, (s.removeExpired now).storage k = some object →
      k ∈ s.keys ∧ s.storage k = some object ∧ object.isExpired now = false := by
    intro k object hk
    have hobject := storage_removeExpired hk
    have hmem := h k object hobject
    simp only [removeExpired, hmem, true_and] at hk
    split at hk
    · cases hk
    · rename_i hkeep
      exact ⟨hmem, hobject, by simpa [keeps, hobject] using hkeep⟩
  refine ⟨fun k => ⟨fun hk => ?_, fun ⟨object, hk⟩ => ?_⟩, fun k object hk => (hkeeps k object hk).2.2⟩
  · obtain ⟨hmem, hkeep⟩ := Finset.mem_filter.1 hk
    cases hobject : s.storage k with
    | none => simp [keeps, hobject] at hkeep
    | some object => exact ⟨object, by simp [removeExpired, hkeep, hobject]⟩
  · obtain ⟨hmem, hobject, hexpired⟩ := hkeeps k object hk
    exact Finset.mem_filter.2 ⟨hmem, by simp [keeps, hobject, hexpired]⟩

theorem Tracked.removeExpired (h : s.Tracked) : (s.removeExpired now).Tracked :=
  fun k object hk => ((removeExpired_clean h).1 k).2 ⟨object, hk⟩

end MemoryStorage

/-! ## The disk storage -/

structure File (D : Type*) where
  data : D
  /-- The last access date. -/
  creationDate : Int
  /-- The estimated expiration date. -/
  modificationDate : Int

def File.expired (file : File D) (referenceDate : Int) : Bool := isPast file.modificationDate referenceDate

/-- A block on `maybeCachedCheckingQueue`. -/
inductive CheckBlock where
  | setup
  | insert (fileName : String)

structure DiskStorage (D : Type*) where
  /-- The cache folder exists. -/
  directory : Bool := false
  files : String → Option (File D) := fun _ => none
  maybeCached : Option (String → Bool) := none
  /-- `maybeCachedCheckingQueue` -/
  checking : List CheckBlock := [.setup]

namespace DiskStorage

def prepareDirectory (s : DiskStorage D) : DiskStorage D := { s with directory := true }

def run (s : DiskStorage D) : CheckBlock → DiskStorage D
  | .setup => { s with maybeCached := if s.directory then some fun fileName => (s.files fileName).isSome else none }
  | .insert fileName => { s with maybeCached := s.maybeCached.map (Function.update · fileName true) }

/-- The queue runs its first block. -/
def check (s : DiskStorage D) : DiskStorage D :=
  match s.checking with
  | [] => s
  | block :: blocks => run { s with checking := blocks } block

/-- The blocks that are queued have run. -/
def sync (s : DiskStorage D) : DiskStorage D := check^[s.checking.length] s

/-- `data.write`; writing to a folder that is missing creates it. -/
def write (s : DiskStorage D) (now : Int) (data : D) (fileName : String) : DiskStorage D :=
  { s with
    directory := true
    files := Function.update s.files fileName (some
      { data := data
        creationDate := ((s.files fileName).map File.creationDate).getD now
        modificationDate := now }) }

/-- `none` if there is no such file. -/
def setAttributes (s : DiskStorage D) (now : Int) (fileName : String) (expiration : StorageExpiration) :
    Option (DiskStorage D) :=
  (s.files fileName).map fun file =>
    { s with
      files := Function.update s.files fileName (some
        { file with
          creationDate := now
          modificationDate := expiration.estimatedExpirationSince now }) }

/-- `maybeCachedCheckingQueue.async` -/
def insertMaybeCached (s : DiskStorage D) (fileName : String) : DiskStorage D :=
  { s with checking := s.checking ++ [.insert fileName] }

/-- `maybeCached?.contains(fileName) ?? true` -/
def fileMaybeCached (s : DiskStorage D) (fileName : String) : Bool :=
  match s.maybeCached with
  | none => true
  | some maybeCached => maybeCached fileName

/-- `value`, up to reading the file. -/
def lookup (s : DiskStorage D) (referenceDate : Int) (fileName : String) : Option (File D) :=
  if s.sync.fileMaybeCached fileName then (s.sync.files fileName).filter fun file => !file.expired referenceDate else none

def isCached (s : DiskStorage D) (referenceDate : Int) (fileName : String) : Bool :=
  (s.lookup referenceDate fileName).isSome

/-- `FileMeta.extendExpiration` for `.cacheTime`; the dates are those of the file when it was read. -/
def extendExpiration (s : DiskStorage D) (now : Int) (fileName : String)
    (lastAccessDate lastEstimatedExpiration : Int) : DiskStorage D :=
  { s with
    files := Function.update s.files fileName ((s.files fileName).map fun file =>
      { file with
        creationDate := now
        modificationDate := now + (lastEstimatedExpiration - lastAccessDate) }) }

/-- The filter in `removeExpiredValues`, over the names that the folder's enumerator gives. -/
def expiredFiles (s : DiskStorage D) (referenceDate : Int) (fileNames : List String) : List String :=
  fileNames.filter fun fileName =>
    match s.files fileName with
    -- `FileMeta` throws for a file that has gone
    | none => true
    | some file => file.expired referenceDate

def removeFile (s : DiskStorage D) (fileName : String) : DiskStorage D :=
  { s with files := Function.update s.files fileName none }

/-- A file of this name is in `maybeCached`, or will be when the queue is through. -/
def Listed (s : DiskStorage D) (fileName : String) : Prop :=
  .setup ∈ s.checking ∨ .insert fileName ∈ s.checking ∨ s.fileMaybeCached fileName = true

variable {s : DiskStorage D} {now referenceDate : Int} {fileName : String} {file : File D}

@[simp] theorem files_run (s : DiskStorage D) (block : CheckBlock) : (s.run block).files = s.files := by
  cases block <;> rfl

@[simp] theorem checking_run (s : DiskStorage D) (block : CheckBlock) : (s.run block).checking = s.checking := by
  cases block <;> rfl

theorem fileMaybeCached_setup (h : s.files fileName = some file) : (s.run .setup).fileMaybeCached fileName = true := by
  unfold fileMaybeCached run
  by_cases hd : s.directory <;> simp [hd, h]

theorem fileMaybeCached_insert (name : String) :
    (s.run (.insert name)).fileMaybeCached fileName = (decide (fileName = name) || s.fileMaybeCached fileName) := by
  unfold fileMaybeCached run
  cases s.maybeCached with
  | none => simp
  | some maybeCached => by_cases he : fileName = name <;> simp [he]

theorem Listed.run {block : CheckBlock} {blocks : List CheckBlock} (h : s.Listed fileName)
    (hf : s.files fileName = some file) (hs : s.checking = block :: blocks) :
    (DiskStorage.run { s with checking := blocks } block).Listed fileName := by
  unfold Listed at h ⊢
  rw [checking_run]
  cases block with
  | setup => exact .inr (.inr (fileMaybeCached_setup (s := { s with checking := blocks }) hf))
  | insert name =>
    rw [fileMaybeCached_insert, Bool.or_eq_true_iff, decide_eq_true_iff]
    rw [hs, List.mem_cons, List.mem_cons] at h
    rcases h with (h | h) | (h | h) | h
    · cases h
    · exact .inl h
    · exact .inr (.inr (.inl (CheckBlock.insert.inj h)))
    · exact .inr (.inl h)
    · exact .inr (.inr (.inr h))

theorem Listed.check (h : s.Listed fileName) (hf : s.files fileName = some file) : s.check.Listed fileName := by
  unfold DiskStorage.check
  split
  · exact h
  · rename_i block blocks hs
    exact h.run hf hs

@[simp] theorem files_check (s : DiskStorage D) : s.check.files = s.files := by
  unfold DiskStorage.check
  split <;> simp

@[simp] theorem checking_check (s : DiskStorage D) : s.check.checking = s.checking.tail := by
  unfold DiskStorage.check
  split <;> simp [*]

theorem files_iterate_check (n : Nat) (s : DiskStorage D) : (DiskStorage.check^[n] s).files = s.files := by
  induction n with
  | zero => rfl
  | succ n ih => rw [Function.iterate_succ_apply', files_check, ih]

@[simp] theorem files_sync (s : DiskStorage D) : s.sync.files = s.files := files_iterate_check _ s

theorem checking_sync (s : DiskStorage D) : s.sync.checking = [] := by
  have hdrop : ∀ n, (DiskStorage.check^[n] s).checking = s.checking.drop n := by
    intro n
    induction n with
    | zero => rfl
    | succ n ih => rw [Function.iterate_succ_apply', checking_check, ih, List.tail_drop]
  exact (hdrop _).trans List.drop_length

theorem Listed.sync (h : s.Listed fileName) (hf : s.files fileName = some file) : s.sync.Listed fileName := by
  have hiterate : ∀ n, (DiskStorage.check^[n] s).Listed fileName := by
    intro n
    induction n with
    | zero => exact h
    | succ n ih =>
      rw [Function.iterate_succ_apply']
      exact ih.check ((congrFun (files_iterate_check n s) fileName).trans hf)
  exact hiterate _

/-- **A look-up finds only what is there**, and not expired. -/
theorem lookup_eq_some (h : s.lookup referenceDate fileName = some file) :
    s.files fileName = some file ∧ file.expired referenceDate = false := by
  obtain ⟨-, hfile⟩ := Option.ite_none_right_eq_some.1 h
  simpa [Option.filter_eq_some_iff] using hfile

/-- **The shortcut hides nothing** that is listed, or will be. -/
theorem lookup_eq (referenceDate : Int) (h : ∀ file, s.files fileName = some file → s.Listed fileName) :
    s.lookup referenceDate fileName = (s.files fileName).filter fun file => !file.expired referenceDate := by
  unfold lookup
  rw [files_sync]
  cases hf : s.files fileName with
  | none => simp
  | some file =>
    have hlisted := (h file hf).sync hf
    unfold Listed at hlisted
    rw [checking_sync] at hlisted
    rw [if_pos ((hlisted.resolve_left List.not_mem_nil).resolve_left List.not_mem_nil)]

theorem Listed.insertMaybeCached (h : s.Listed fileName) (name : String) :
    (s.insertMaybeCached name).Listed fileName :=
  h.imp (List.mem_append_left _) (Or.imp_left (List.mem_append_left _))

theorem listed_insertMaybeCached (s : DiskStorage D) (fileName : String) : (s.insertMaybeCached fileName).Listed fileName :=
  .inr (.inl (List.mem_append_right _ List.mem_cons_self))

theorem files_write {data : D} {name : String} (h : (s.write now data name).files fileName = some file) :
    (fileName = name ∧ file.data = data) ∨ (fileName ≠ name ∧ s.files fileName = some file) := by
  by_cases he : fileName = name
  · subst he
    simp only [write, Function.update_self, Option.some.injEq] at h
    exact .inl ⟨rfl, by rw [← h]⟩
  · exact .inr ⟨he, by simpa [write, he] using h⟩

theorem files_setAttributes {t : DiskStorage D} {name : String} {expiration : StorageExpiration}
    (ht : s.setAttributes now name expiration = some t) (h : t.files fileName = some file) :
    ∃ file', s.files fileName = some file' ∧ file'.data = file.data := by
  obtain ⟨old, hold, rfl⟩ := Option.map_eq_some_iff.1 ht
  by_cases he : fileName = name
  · subst he
    simp only [Function.update_self, Option.some.injEq] at h
    exact ⟨old, hold, by rw [← h]⟩
  · exact ⟨file, by simpa [he] using h, rfl⟩

theorem files_extendExpiration {name : String} {last estimated : Int}
    (h : (s.extendExpiration now name last estimated).files fileName = some file) :
    ∃ file', s.files fileName = some file' ∧ file'.data = file.data := by
  by_cases he : fileName = name
  · subst he
    simp only [extendExpiration, Function.update_self, Option.map_eq_some_iff] at h
    obtain ⟨file', hfile', rfl⟩ := h
    exact ⟨file', hfile', rfl⟩
  · exact ⟨file, by simpa [extendExpiration, he] using h, rfl⟩

theorem files_removeFile {name : String} (h : (s.removeFile name).files fileName = some file) :
    s.files fileName = some file := by
  by_cases he : fileName = name
  · subst he
    simp [removeFile] at h
  · simpa [removeFile, he] using h

end DiskStorage

end CrossplatformBenchmark.Kingfisher
