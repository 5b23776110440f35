import KmpApp.Coroutines.Suspend
import KmpApp.Flow.StateFlow

/-!
# Museum — objects, API, storage and repository

The data layer of the app: `MuseumObject`, `KtorMuseumApi.getData`, `InMemoryMuseumStorage` and
`MuseumRepository`.  Suspending functions are `Suspend` bodies over the operations `Op` that the
app asks of its libraries; nothing is assumed about how an HTTP fetch ends, except that it ends in
a decoded list or in an `Exception` (a cancellation being one of these).

`MuseumRepository.refresh` is used in two ways below: step by step, interleaved with other
coroutines (`KmpApp.Background`), and as a whole, once its fetch is known (`refreshCompletes`,
`saves`).
-/

namespace KmpApp
namespace Data

open Coroutines KmpApp.Flow

/-! ## Data classes -/

/-- `data class MuseumObject`; a Kotlin `Int` is a 32-bit integer. -/
structure MuseumObject where
  objectID : Int32
  title : String
  artistDisplayName : String
  medium : String
  dimensions : String
  objectURL : String
  objectDate : String
  primaryImage : String
  primaryImageSmall : String
  repository : String
  department : String
  creditLine : String
  deriving DecidableEq, Repr

/-- The first object of `list.json`. -/
def wheatField : MuseumObject :=
  { objectID := 436535
    title := "Wheat Field with Cypresses"
    artistDisplayName := "Vincent van Gogh"
    medium := "Oil on canvas"
    dimensions := "28 7/8 × 36 3/4 in. (73.2 × 93.4 cm)"
    objectURL := "https://www.metmuseum.org/art/collection/search/436535"
    objectDate := "1889"
    primaryImage := "https://images.metmuseum.org/CRDImages/ep/original/DT1567.jpg"
    primaryImageSmall := "https://images.metmuseum.org/CRDImages/ep/web-large/DT1567.jpg"
    repository := "Metropolitan Museum of Art, New York, NY"
    department := "European Paintings"
    creditLine := "Purchase, The Annenberg Foundation Gift, 1993" }

/-- Another one, under its own id. -/
def selfPortrait : MuseumObject :=
  { wheatField with
    objectID := 436532
    title := "Self-Portrait with a Straw Hat" }

/-- `message ChatMessage` of `chat.proto`. -/
structure ChatMessage where
  userId : String
  content : String
  timestamp : String
  deriving DecidableEq, Repr

/-- The statements of a `flow { … }` builder: log a line, emit a message. -/
inductive FlowStep
  | log (message : String)
  | emit (message : ChatMessage)
  deriving DecidableEq, Repr

/-! ## Operations -/

/-- What the app's coroutines ask of their libraries. -/
inductive Op
  | dispatch
  | get (url : String)
  | printStackTrace (e : Exception)
  | saveObjects (newObjects : List MuseumObject)
  | logI (message : String)
  | chatStream (request : List FlowStep)
  deriving DecidableEq, Repr

/-- `get` is `client.get(url).body()`; every other operation returns `Unit`. -/
@[reducible] def Op.Res : Op → Type
  | .get _ => List MuseumObject
  | .dispatch => Unit
  | .printStackTrace _ => Unit
  | .saveObjects _ => Unit
  | .logI _ => Unit
  | .chatStream _ => Unit

abbrev Program (α : Type) : Type := Suspend Op.Res α

/-- `scope.launch { block }`: the block waits for its dispatcher, and can be cancelled there. -/
def launch (block : Program Unit) : Program Unit := do
  Suspend.perform Op.dispatch
  block

/-! ## KtorMuseumApi -/

namespace KtorMuseumApi

def API_URL : String :=
  "https://raw.githubusercontent.com/Kotlin/KMP-App-Template/main/list.json"

def getData : Program (List MuseumObject) :=
  Suspend.catchException (Suspend.perform (Op.get API_URL)) fun e =>
    -- `if (e is CancellationException) throw e`
    if e.isCancellationException then
      .raise (.exception e)
    else do
      Suspend.perform (Op.printStackTrace e)
      pure []

end KtorMuseumApi

/-! ## InMemoryMuseumStorage -/

structure InMemoryMuseumStorage where
  storedObjects : MutableStateFlow (List MuseumObject)
  deriving DecidableEq, Repr

namespace InMemoryMuseumStorage

def empty : InMemoryMuseumStorage :=
  { storedObjects := { value := [] } }

def saveObjects (storage : InMemoryMuseumStorage) (newObjects : List MuseumObject) :
    InMemoryMuseumStorage :=
  { storedObjects := storage.storedObjects.setValue newObjects }

/-- The transformation that `storedObjects.map { … }` applies to each stored list. -/
def getObjectById (objectId : Int32) (objects : List MuseumObject) : Option MuseumObject :=
  -- The first match, as `find` has it; nothing here makes it the only one.
  objects.find? fun it => it.objectID == objectId

@[simp] theorem saveObjects_value (storage : InMemoryMuseumStorage)
    (newObjects : List MuseumObject) :
    (storage.saveObjects newObjects).storedObjects.value = newObjects := by
  simp [saveObjects]

end InMemoryMuseumStorage

/-! ## MuseumRepository -/

namespace MuseumRepository

def refresh : Program Unit := do
  let newObjects ← KtorMuseumApi.getData
  Suspend.perform (Op.saveObjects newObjects)

/-- The coroutine that `initialize()` launches in the repository's scope. -/
def initializeRepository : Program Unit :=
  launch refresh

end MuseumRepository

/-! ## A refresh as a whole -/

/-- How the fetch of one refresh ends: in a decoded list or in an exception. -/
abbrev FetchResult := Except Exception (List MuseumObject)

def FetchResult.outcome : FetchResult → Except Throwable (List MuseumObject)
  | .ok objects => .ok objects
  | .error e => .error (.exception e)

/-- Answer a fetch with `r` and carry saves out with `save`; everything else has no effect here. -/
def answer {σ : Type} (save : List MuseumObject → σ → σ) (r : FetchResult) :
    (op : Op) → σ → Except Throwable op.Res × σ
  | .get _, s => (r.outcome, s)
  | .saveObjects newObjects, s => (.ok (), save newObjects s)
  | .dispatch, s => (.ok (), s)
  | .printStackTrace _, s => (.ok (), s)
  | .logI _, s => (.ok (), s)
  | .chatStream _, s => (.ok (), s)

namespace MuseumRepository

/-- The storage after a refresh whose fetch ended in `r`. -/
def refreshCompletes (r : FetchResult) (storage : InMemoryMuseumStorage) : InMemoryMuseumStorage :=
  (refresh.runWith (answer (fun l st => st.saveObjects l) r) storage).2

/-- The lists that a refresh whose fetch ended in `r` passes to `saveObjects`, in order. -/
def saves (r : FetchResult) : List (List MuseumObject) :=
  (refresh.runWith (answer (fun l ls => ls ++ [l]) r) []).2

/-- What `getData` makes of a fetch: the list, the empty list in place of a failure, or the
cancellation thrown on. -/
theorem runWith_getData {σ : Type} (save : List MuseumObject → σ → σ) (r : FetchResult) (s : σ) :
    KtorMuseumApi.getData.runWith (answer save r) s =
      match r with
      | .ok objects => (.ok objects, s)
      | .error e =>
          if e.isCancellationException then (.error (.exception e), s) else (.ok [], s) := by
  rw [KtorMuseumApi.getData, Suspend.runWith_catchException, Suspend.runWith_perform]
  cases r with
  | ok objects =>
      rfl
  | error e =>
      -- The handler runs: it rethrows a cancellation and swallows everything else.
      by_cases he : e.isCancellationException = true
      · simp [answer, FetchResult.outcome, he, Suspend.runWith]
      · simp only [answer, FetchResult.outcome, he]
        rfl

theorem runWith_refresh {σ : Type} (save : List MuseumObject → σ → σ) (r : FetchResult) (s : σ) :
    refresh.runWith (answer save r) s =
      match r with
      | .ok objects => (.ok (), save objects s)
      | .error e =>
          if e.isCancellationException then (.error (.exception e), s)
          else (.ok (), save [] s) := by
  rw [refresh, Suspend.runWith_bind, runWith_getData]
  -- What is left is the save of the list that `getData` returned, if it returned one.
  cases r with
  | ok objects =>
      rfl
  | error e =>
      by_cases he : e.isCancellationException = true
      · simp [he]
      · simp only [he]
        rfl

@[simp] theorem saves_ok (objects : List MuseumObject) : saves (.ok objects) = [objects] := by
  simp [saves, runWith_refresh]

@[simp] theorem saves_cancelled : saves (.error .cancellationException) = [] := by
  simp [saves, runWith_refresh]

theorem saves_failed {e : Exception} (h : e ≠ .cancellationException) :
    saves (.error e) = [[]] := by
  simp [saves, runWith_refresh, h]

/-- Running a refresh as a whole is carrying out its saves. -/
theorem refreshCompletes_eq (r : FetchResult) (storage : InMemoryMuseumStorage) :
    refreshCompletes r storage = (saves r).foldl InMemoryMuseumStorage.saveObjects storage := by
  cases r with
  | ok objects =>
      simp [refreshCompletes, runWith_refresh]
  | error e =>
      by_cases he : e = .cancellationException
      · simp [refreshCompletes, runWith_refresh, he]
      · simp [refreshCompletes, runWith_refresh, he, saves_failed he]

theorem foldl_saveObjects_value (ls : List (List MuseumObject)) (storage : InMemoryMuseumStorage) :
    (ls.foldl InMemoryMuseumStorage.saveObjects storage).storedObjects.value =
      ls.getLastD storage.storedObjects.value := by
  induction ls generalizing storage with
  | nil =>
      rfl
  | cons l ls ih =>
      rw [List.foldl_cons, ih, InMemoryMuseumStorage.saveObjects_value, List.getLastD_cons]

/-- A sequence of whole refreshes is the sequence of all their saves. -/
theorem foldl_refreshCompletes (rs : List FetchResult) (storage : InMemoryMuseumStorage) :
    rs.foldl (fun storage r => refreshCompletes r storage) storage =
      (rs.flatMap saves).foldl InMemoryMuseumStorage.saveObjects storage := by
  induction rs generalizing storage with
  | nil =>
      rfl
  | cons r rs ih =>
      rw [List.foldl_cons, ih, refreshCompletes_eq, List.flatMap_cons, List.foldl_append]

end MuseumRepository

end Data
end KmpApp
