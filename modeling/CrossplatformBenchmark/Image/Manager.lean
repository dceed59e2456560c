import CrossplatformBenchmark.Image.Downloader
import CrossplatformBenchmark.Image.ImageCache

/-!
# The pictures of the SwiftUI grid (RemoteImage.swift:94-97, KingfisherManager.swift, ImageBinder.swift)

Each cell of the grid has a `KFImage` of its product's thumbnail, downsampled. Its binder asks the manager for the image;
the manager looks into the memory storage and the disk storage, or has the image downloaded and stores it there.

| source                                                       | here                                             |
|--------------------------------------------------------------|--------------------------------------------------|
| `ImageBinder.start` (ImageBinder.swift:68-134)               | `.appear`, `Pipeline.complete`                   |
| `onAppear` (KFImageRenderer.swift:55-66)                     | `.appear`                                        |
| `imageCachedType` (ImageCache.swift:916-926)                 | `.retrieve`, `.checkDisk`, `.checkDiskAt`; with the default processor `.checkOriginal`, `.checkOriginalDisk`, `.checkOriginalDiskAt` |
| `retrieveImageFromCache` (KingfisherManager.swift:583-745)   | the same, then `.cached`, `.download`, `.original` |
| `ImageCache.retrieveImage` (ImageCache.swift:608-655)        | `.cached`, `.load`, `.loadAt`, `.loaded`         |
| `loadAndCacheImage` (KingfisherManager.swift:520-562)        | `.download`, `receive`                           |
| `cacheImage` (KingfisherManager.swift:457-517)               | `.cacheImage`, `.store`, `.setAttributes`, `.insertMaybeCached`, `.stored` |
| `CacheCallbackCoordinator` (KingfisherManager.swift:905-972) | `CacheCallbackCoordinator`                       |
| `cleanExpiredDiskCache` (ImageCache.swift:833-858)           | `cleanExpiredDiskCache`, `.clean`, `.cleanAt`, `.removeFiles` |

The options are those of `KFImage(url).downsampling(size:)`: no option asks for the original image to be cached, so an
original in the cache would be of another app version, or of a key with the same hash; `.original` stops there. Blocks
on the main queue and on `ioQueue` run in any order, as if both were many threads; a block that reads the clock and then
waits, or leaves the disk between two steps to readers, is several.
-/

namespace CrossplatformBenchmark.Kingfisher

open Transition Threads

/-! ## Keys of the grid -/

/-- In whole points. -/
structure CGSize where
  width : Nat
  height : Nat

def CGSize.description (size : CGSize) : String :=
  "(" ++ toString size.width ++ ".0, " ++ toString size.height ++ ".0)"

def DownsamplingImageProcessor.identifier (size : CGSize) : String :=
  "com.onevcat.Kingfisher.DownsamplingImageProcessor(" ++ size.description ++ ")"

/-- A `URL` has no blank in it. -/
structure URL where
  absoluteString : String
  noBlank : ' ' ∉ absoluteString.toList
  deriving DecidableEq

theorem blank_mem_identifier (size : CGSize) : ' ' ∈ (DownsamplingImageProcessor.identifier size).toList := by
  have hblank : ' ' ∈ ".0, ".toList := by decide
  unfold DownsamplingImageProcessor.identifier CGSize.description
  simp only [String.toList_append, List.mem_append, hblank, true_or, or_true]

/-! ## The coordinator of a store -/

namespace CacheCallbackCoordinator

inductive State where
  | idle
  | imageCached
  | originalImageCached
  | done

inductive Action where
  | cacheInitiated
  | cachingImage
  | cachingOriginalImage

/-- The next state, and whether `trigger` is called; `none` is the assertion failure. -/
def apply (shouldWaitForCache shouldCacheOriginal : Bool) : State → Action → Option (State × Bool)
  | .done, _ => some (.done, false)
  | .idle, .cacheInitiated => some (if shouldWaitForCache then (.idle, false) else (.done, true))
  | .idle, .cachingImage => some (if shouldCacheOriginal then (.imageCached, false) else (.done, true))
  | .idle, .cachingOriginalImage => some (.originalImageCached, false)
  | .imageCached, .cachingOriginalImage => some (.done, true)
  | .originalImageCached, .cachingImage => some (.done, true)
  | .imageCached, .cacheInitiated | .imageCached, .cachingImage => none
  | .originalImageCached, .cacheInitiated | .originalImageCached, .cachingOriginalImage => none

end CacheCallbackCoordinator

/-! ## The pipeline -/

/-- What the cells load with. -/
structure Options (D R : Type*) where
  size : CGSize
  /-- `process(item: .data)`, of the processor with this identifier. -/
  process : String → D → Option R
  /-- `cacheSerializer.data(with:original:)` -/
  data : R → Option D → Option D
  /-- `cacheSerializer.image(with:)` -/
  image : D → Option R
  sha256 : String → String
  waitForCache : Bool := false
  memoryExpiration : StorageExpiration := .seconds 300
  diskExpiration : StorageExpiration := .days 7

variable {D R : Type*}

namespace Options

variable (O : Options D R)

def identifier : String := DownsamplingImageProcessor.identifier O.size

def key (url : URL) : String := computedKey url.absoluteString O.identifier

def fileName (url : URL) : String := O.sha256 (O.key url)

/-- The downloader's part: an image with its original data. All that differs in the options of a call is the processor,
and `backgroundDecode` is off. -/
def download : Program (Downloader URL String D (R × D)) (Point URL String D (R × D)) (Operation URL String D) :=
  imageDownloader
    { identifier := id
      process := fun processor data => (O.process processor data).map fun image => (image, data)
      decoded := fun _ image => image }

end Options

/-- The binder of one `KFImage`. -/
structure Cell (R : Type*) where
  url : Option URL
  loading : Bool := false
  loaded : Bool := false
  loadedImage : Option R := none

structure Pipeline (D R : Type*) where
  now : Int := 0
  memoryStorage : MemoryStorage R := {}
  diskStorage : DiskStorage D := {}
  cells : List (Cell R) := []
  downloader : Pool (Downloader URL String D (R × D)) (Point URL String D (R × D)) := ⟨{}, []⟩
  /-- The completion handlers of the `downloadImage` calls: the binder and the source they are for. -/
  handlers : List (Nat × URL) := []
  /-- How many completions have come to the main queue. -/
  received : Nat := 0
  /-- The data that earlier launches were given. -/
  history : List (URL × D) := []

inductive Request (D : Type*) where
  | cell (url : Option URL)
  | appear (i : Nat)
  | clock (now : Int)
  | evict (key : String)
  | clearMemoryCache
  | removeExpired
  /-- With the names that the folder's enumerator will give. -/
  | cleanExpiredDiskCache (fileNames : List String)
  | prepareDirectory
  /-- `maybeCachedCheckingQueue` runs a block. -/
  | check
  /-- The downloader goes on by itself. -/
  | network (e : Event (Operation URL String D))
  | receive

inductive Block (D R : Type*) where
  | retrieve (i : Nat) (url : URL)
  | checkDisk (i : Nat) (url : URL)
  /-- `value` with the `referenceDate` taken. -/
  | checkDiskAt (i : Nat) (url : URL) (referenceDate : Int)
  | cached (i : Nat) (url : URL)
  | load (i : Nat) (url : URL)
  | loadAt (i : Nat) (url : URL) (referenceDate : Int)
  | loaded (i : Nat) (url : URL) (image : Option R)
  | checkOriginal (i : Nat) (url : URL)
  | checkOriginalDisk (i : Nat) (url : URL)
  | checkOriginalDiskAt (i : Nat) (url : URL) (referenceDate : Int)
  | original (i : Nat) (url : URL)
  | download (i : Nat) (url : URL)
  | cacheImage (i : Nat) (url : URL) (result : DownloadResult (R × D))
  | store (i : Nat) (url : URL) (image : R) (original : D) (coordinator : CacheCallbackCoordinator.State)
  /-- The file is written. -/
  | setAttributes (i : Nat) (url : URL) (image : R) (coordinator : CacheCallbackCoordinator.State)
  /-- And has its attributes. -/
  | insertMaybeCached (i : Nat) (url : URL) (image : R) (coordinator : CacheCallbackCoordinator.State)
  | stored (i : Nat) (url : URL) (image : R) (coordinator : CacheCallbackCoordinator.State)
  /-- `metaChangingQueue` -/
  | extend (fileName : String) (lastAccessDate lastEstimatedExpiration : Int)
  | clean (fileNames : List String)
  | cleanAt (fileNames : List String) (referenceDate : Int)
  | removeFiles (fileNames : List String)

/-- The file whose name the block still has to announce. -/
def Block.writes (O : Options D R) : Block D R → Option String
  | .setAttributes _ url _ _ | .insertMaybeCached _ url _ _ => some (O.fileName url)
  | _ => none

namespace Pipeline

/-- The completion handler of `ImageBinder.start`. -/
def complete (s : Pipeline D R) (i : Nat) (image : Option R) : Pipeline D R :=
  { s with cells := s.cells.modify i fun cell =>
      { cell with
        loading := false
        loaded := true
        loadedImage := image.or cell.loadedImage } }

/-- `coordinator.apply`, with the completion as its trigger. -/
def apply (s : Pipeline D R) (O : Options D R) (coordinator : CacheCallbackCoordinator.State)
    (action : CacheCallbackCoordinator.Action) (i : Nat) (image : Option R) :
    Option (Pipeline D R × CacheCallbackCoordinator.State) :=
  (CacheCallbackCoordinator.apply O.waitForCache false coordinator action).map fun r =>
    (if r.2 then s.complete i image else s, r.1)

def start (O : Options D R) (urls : List URL) (s : Pipeline D R) : Request D → Option (Pipeline D R × List (Block D R))
  | .cell url =>
    if ∀ u ∈ url, u ∈ urls then some ({ s with cells := s.cells ++ [{ url := url }] }, []) else none
  | .appear i => s.cells[i]?.map fun cell =>
    if cell.loading || cell.loadedImage.isSome then (s, [])
    else
      match cell.url with
      | none => ({ s with cells := s.cells.set i { cell with loaded := true } }, [])
      | some url => ({ s with cells := s.cells.set i { cell with loading := true } }, [.retrieve i url])
  | .clock now => some ({ s with now := now }, [])
  | .evict key => some ({ s with memoryStorage := s.memoryStorage.evict key }, [])
  | .clearMemoryCache => some ({ s with memoryStorage := s.memoryStorage.removeAll }, [])
  | .removeExpired => some ({ s with memoryStorage := s.memoryStorage.removeExpired s.now }, [])
  | .cleanExpiredDiskCache fileNames => some (s, [.clean fileNames])
  | .prepareDirectory => some ({ s with diskStorage := s.diskStorage.prepareDirectory }, [])
  | .check => some ({ s with diskStorage := s.diskStorage.check }, [])
  | .network (.start (.downloadImage _ _)) => none
  | .network e => ((pool O.download).step s.downloader e).map fun downloader => ({ s with downloader := downloader }, [])
  | .receive => s.downloader.shared.completed[s.received]?.bind fun completion =>
    s.handlers[completion.callback]?.map fun handler =>
      ({ s with received := s.received + 1 }, [.cacheImage handler.1 handler.2 completion.result])

def next (O : Options D R) (s : Pipeline D R) : Block D R → Option (Pipeline D R × List (Block D R))
  | .retrieve i url =>
    some (s, if s.memoryStorage.isCached s.now (O.key url) then [.cached i url] else [.checkDisk i url])
  | .checkDisk i url => some (s, [.checkDiskAt i url s.now])
  | .checkDiskAt i url referenceDate =>
    some ({ s with diskStorage := s.diskStorage.sync },
      if s.diskStorage.isCached referenceDate (O.fileName url) then [.cached i url] else [.checkOriginal i url])
  | .cached i url =>
    let s' := { s with memoryStorage := (s.memoryStorage.value s.now (O.key url) .cacheTime).2 }
    match (s.memoryStorage.value s.now (O.key url) .cacheTime).1 with
    | some image => some (s'.complete i (some image), [])
    | none => some (s', [.load i url])
  | .load i url => some (s, [.loadAt i url s.now])
  | .loadAt i url referenceDate =>
    let s' := { s with diskStorage := s.diskStorage.sync }
    match s.diskStorage.lookup referenceDate (O.fileName url) with
    | none => some (s', [.loaded i url none])
    | some file => some (s', [.loaded i url (O.image file.data),
        .extend (O.fileName url) file.creationDate file.modificationDate])
  -- no image any more: `imageNotExisting`
  | .loaded i _ none => some (s.complete i none, [])
  | .loaded i url (some image) =>
    let s' := { s with memoryStorage := s.memoryStorage.storeNoThrow s.now image (O.key url) O.memoryExpiration }
    some (s'.complete i (some image), [])
  | .checkOriginal i url =>
    some (s, if s.memoryStorage.isCached s.now url.absoluteString then [.original i url] else [.checkOriginalDisk i url])
  | .checkOriginalDisk i url => some (s, [.checkOriginalDiskAt i url s.now])
  | .checkOriginalDiskAt i url referenceDate =>
    some ({ s with diskStorage := s.diskStorage.sync },
      if s.diskStorage.isCached referenceDate (O.sha256 url.absoluteString) then [.original i url] else [.download i url])
  | .original _ _ => none
  | .download i url =>
    ((pool O.download).step s.downloader (.start (.downloadImage url O.identifier))).map fun downloader =>
      ({ s with downloader := downloader, handlers := s.handlers ++ [(i, url)] }, [])
  | .cacheImage i _ (.error _) => some (s.complete i none, [])
  | .cacheImage i url (.ok (image, original)) =>
    let s' := { s with memoryStorage := s.memoryStorage.storeNoThrow s.now image (O.key url) O.memoryExpiration }
    (s'.apply O .idle .cacheInitiated i (some image)).map fun r => (r.1, [.store i url image original r.2])
  | .store i url image original coordinator =>
    match O.data image (some original) with
    | none => some (s, [.stored i url image coordinator])
    | some data =>
      if O.diskExpiration.isExpired s.now then some (s, [.stored i url image coordinator])
      else
        some ({ s with diskStorage := s.diskStorage.write s.now data (O.fileName url) },
          [.setAttributes i url image coordinator])
  | .setAttributes i url image coordinator =>
    match s.diskStorage.setAttributes s.now (O.fileName url) O.diskExpiration with
    -- the file has gone, and `store` throws
    | none => some (s, [.stored i url image coordinator])
    | some diskStorage => some ({ s with diskStorage := diskStorage }, [.insertMaybeCached i url image coordinator])
  | .insertMaybeCached i url image coordinator =>
    some ({ s with diskStorage := s.diskStorage.insertMaybeCached (O.fileName url) }, [.stored i url image coordinator])
  | .stored i _ image coordinator =>
    (s.apply O coordinator .cachingImage i (some image)).map fun r => (r.1, [])
  | .extend fileName lastAccessDate lastEstimatedExpiration =>
    some ({ s with
      diskStorage := s.diskStorage.extendExpiration s.now fileName lastAccessDate lastEstimatedExpiration }, [])
  | .clean fileNames => some (s, [.cleanAt fileNames s.now])
  | .cleanAt fileNames referenceDate =>
    some (s, [.removeFiles (s.diskStorage.expiredFiles referenceDate fileNames)])
  | .removeFiles [] => some (s, [])
  | .removeFiles (fileName :: fileNames) =>
    -- removing a file that has gone throws
    if (s.diskStorage.files fileName).isNone then some (s, [])
    else some ({ s with diskStorage := s.diskStorage.removeFile fileName }, [.removeFiles fileNames])

end Pipeline

/-- One launch of the app, from what the last one has left. -/
def kingfisherManager (O : Options D R) (urls : List URL) (init : Pipeline D R) :
    Program (Pipeline D R) (Block D R) (Request D) := ⟨init, Pipeline.start O urls, Pipeline.next O⟩

end CrossplatformBenchmark.Kingfisher
