import KmpApp.Compose.Runtime
import KmpApp.Data.Museum

/-!
# Views — the list view models and the detail screens over one storage

The state that the screens show, and every step that can change it:

* `ListViewModel` — the `StateFlow` made by `stateIn(…, WhileSubscribed(5000), emptyList())`, whose
  sharing coroutine starts and stops and keeps the last value while it is stopped;
* `DetailScreen` — the `obj` state filled by the collector of `getObjectById(objectId)`, and the
  `AnimatedContent` whose slots read it;
* `machine` — any number of both, over one `InMemoryMuseumStorage`, with refreshes completing in
  between.

A refresh is taken as a whole here: `KmpApp.Background.storage_eq_completions` shows that
overlapping refreshes leave the storage as some sequence of whole ones does.
-/

namespace KmpApp
namespace Screens

open Coroutines Data KmpApp.Flow Compose Transition

/-! ## ListViewModel -/

structure ListViewModel where
  objects : MutableStateFlow (List MuseumObject)
  sharing : Collector (List MuseumObject)

inductive ListEvent
  | startSharing
  | stopSharing
  | take
  | deliver
  deriving DecidableEq, Repr

namespace ListViewModel

def create : ListViewModel :=
  { objects := { value := [] }
    sharing := .inactive }

/-- One step of the sharing coroutine, against the list that is stored now. -/
def step (stored : List MuseumObject) (vm : ListViewModel) : ListEvent → Option ListViewModel
  | .startSharing => vm.sharing.start.map fun c => { vm with sharing := c }
  -- The value of `objects` is kept while the sharing is stopped.
  | .stopSharing => vm.sharing.stop.map fun c => { vm with sharing := c }
  | .take => (vm.sharing.take stored).map fun c => { vm with sharing := c }
  | .deliver =>
      vm.sharing.deliver.map fun vc =>
        { objects := vm.objects.setValue vc.1
          sharing := vc.2 }

def observer (vm : ListViewModel) : Observer (List MuseumObject) (List MuseumObject) :=
  { shown := vm.objects.value
    collector := vm.sharing }

theorem observer_step {stored : List MuseumObject} {vm vm' : ListViewModel} {ev : ListEvent}
    (h : vm.step stored ev = some vm') : Observer.Step id stored vm.observer vm'.observer := by
  cases ev with
  | startSharing =>
      rcases Option.map_eq_some_iff.1 h with ⟨c, hc, rfl⟩
      exact Observer.step_start hc
  | stopSharing =>
      rcases Option.map_eq_some_iff.1 h with ⟨c, hc, rfl⟩
      exact Observer.step_stop hc
  | take =>
      rcases Option.map_eq_some_iff.1 h with ⟨c, hc, rfl⟩
      exact Observer.step_take hc
  | deliver =>
      rcases Option.map_eq_some_iff.1 h with ⟨⟨v, c⟩, hc, rfl⟩
      simp only [observer, MutableStateFlow.setValue_value]
      exact Observer.step_deliver hc

end ListViewModel

/-! ## DetailScreen -/

/-- What a slot of the detail screen puts on screen. -/
inductive Content
  | objectDetails (obj : MuseumObject)
  | emptyScreenContent
  deriving DecidableEq, Repr

structure DetailScreen where
  objectId : Int32
  obj : Option MuseumObject
  collector : Collector (List MuseumObject)
  content : AnimatedContent Bool
  crash : Option Exception

inductive DetailEvent
  | start
  | stop
  | take
  | deliver
  | recompose
  | compose (objectAvailable : Bool)
  | transitionEnds
  deriving DecidableEq, Repr

namespace DetailScreen

/-- The content lambda of the `AnimatedContent`: `obj!!` reads the state anew. -/
def slot (obj : Option MuseumObject) (objectAvailable : Bool) : Except Exception Content :=
  if objectAvailable then
    match obj with
    | some obj => .ok (.objectDetails obj)
    | none => .error .nullPointerException
  else
    .ok .emptyScreenContent

/-- The first composition: `initialValue = null`, and a content for `obj != null` being false. -/
def create (objectId : Int32) : DetailScreen :=
  { objectId := objectId
    obj := none
    collector := .inactive
    content := .initial false
    crash := none }

def step (stored : List MuseumObject) (d : DetailScreen) : DetailEvent → Option DetailScreen
  | .start => d.collector.start.map fun c => { d with collector := c }
  | .stop => d.collector.stop.map fun c => { d with collector := c }
  | .take => (d.collector.take stored).map fun c => { d with collector := c }
  | .deliver =>
      d.collector.deliver.map fun vc =>
        { d with
          obj := InMemoryMuseumStorage.getObjectById d.objectId vc.1
          collector := vc.2 }
  -- `getObject(objectId)` makes a new flow, so the effect that collects it is restarted.
  | .recompose =>
      some
        { d with
          collector := d.collector.restart
          content := d.content.updateTarget d.obj.isSome }
  | .compose objectAvailable =>
      -- Any slot on screen may be composed, also the one that is leaving.
      if objectAvailable ∈ d.content.currentlyVisible then
        match slot d.obj objectAvailable with
        | .ok _ => some d
        | .error e => some { d with crash := some e }
      else
        none
  | .transitionEnds => some { d with content := d.content.transitionEnds }

def observer (d : DetailScreen) : Observer (List MuseumObject) (Option MuseumObject) :=
  { shown := d.obj
    collector := d.collector }

/-- Composing a slot that is on screen either has no effect here or throws. -/
theorem step_compose {stored : List MuseumObject} {d d' : DetailScreen} {objectAvailable : Bool}
    (h : d.step stored (.compose objectAvailable) = some d') :
    objectAvailable ∈ d.content.currentlyVisible ∧
      (d' = d ∨
        ∃ e, slot d.obj objectAvailable = .error e ∧ d' = { d with crash := some e }) := by
  by_cases hvis : objectAvailable ∈ d.content.currentlyVisible
  · refine ⟨hvis, ?_⟩
    cases hslot : slot d.obj objectAvailable with
    | ok content =>
        have hd : d = d' := by
          simpa [step, hvis, hslot] using h
        exact Or.inl hd.symm
    | error e =>
        have hd : { d with crash := some e } = d' := by
          simpa [step, hvis, hslot] using h
        exact Or.inr ⟨e, rfl, hd.symm⟩
  · simp [step, hvis] at h

theorem step_objectId {stored : List MuseumObject} {d d' : DetailScreen} {ev : DetailEvent}
    (h : d.step stored ev = some d') : d'.objectId = d.objectId := by
  cases ev with
  | recompose =>
      rw [← Option.some.inj h]
  | transitionEnds =>
      rw [← Option.some.inj h]
  | compose objectAvailable =>
      rcases (step_compose h).2 with rfl | ⟨_, _, rfl⟩
      · rfl
      · rfl
  | _ =>
      rcases Option.map_eq_some_iff.1 h with ⟨_, _, rfl⟩
      rfl

theorem observer_step {stored : List MuseumObject} {d d' : DetailScreen} {ev : DetailEvent}
    (h : d.step stored ev = some d') :
    Observer.Step (InMemoryMuseumStorage.getObjectById d.objectId) stored
      d.observer d'.observer := by
  cases ev with
  | start =>
      rcases Option.map_eq_some_iff.1 h with ⟨c, hc, rfl⟩
      exact Observer.step_start hc
  | stop =>
      rcases Option.map_eq_some_iff.1 h with ⟨c, hc, rfl⟩
      exact Observer.step_stop hc
  | take =>
      rcases Option.map_eq_some_iff.1 h with ⟨c, hc, rfl⟩
      exact Observer.step_take hc
  | deliver =>
      rcases Option.map_eq_some_iff.1 h with ⟨⟨v, c⟩, hc, rfl⟩
      exact Observer.step_deliver hc
  | recompose =>
      rw [← Option.some.inj h]
      exact Observer.step_restart
  | compose objectAvailable =>
      have hobs : d'.observer = d.observer := by
        rcases (step_compose h).2 with rfl | ⟨_, _, rfl⟩
        · rfl
        · rfl
      rw [hobs]
      exact Observer.step_stay
  | transitionEnds =>
      rw [← Option.some.inj h]
      exact Observer.step_stay

end DetailScreen

/-! ## All views over one storage -/

structure State where
  storage : InMemoryMuseumStorage
  listViewModels : List ListViewModel
  detailScreens : List DetailScreen

inductive Event
  | refresh (r : FetchResult)
  | openList
  | list (k : ℕ) (ev : ListEvent)
  | openDetail (objectId : Int32)
  | detail (k : ℕ) (ev : DetailEvent)

def State.stored (s : State) : List MuseumObject :=
  s.storage.storedObjects.value

/-- An exception thrown in a composition ends the app. -/
def State.crashed (s : State) : Bool :=
  s.detailScreens.any fun d => d.crash.isSome

def step (s : State) (e : Event) : Option State :=
  if s.crashed then
    none
  else
    match e with
    | .refresh r => some { s with storage := MuseumRepository.refreshCompletes r s.storage }
    | .openList => some { s with listViewModels := s.listViewModels ++ [.create] }
    | .list k ev =>
        (updateAt s.listViewModels k fun vm => vm.step s.stored ev).map fun vms =>
          { s with listViewModels := vms }
    | .openDetail objectId =>
        some { s with detailScreens := s.detailScreens ++ [.create objectId] }
    | .detail k ev =>
        (updateAt s.detailScreens k fun d => d.step s.stored ev).map fun ds =>
          { s with detailScreens := ds }

def machine : Machine State Event :=
  { init := { storage := .empty, listViewModels := [], detailScreens := [] }
    step := step }

/-! ## What a step can do -/

/-- Everything an enabled event can do. -/
inductive Moved (s : State) : Event → State → Prop where
  | refresh (r : FetchResult) :
      Moved s (.refresh r) { s with storage := MuseumRepository.refreshCompletes r s.storage }
  | openList :
      Moved s .openList { s with listViewModels := s.listViewModels ++ [.create] }
  | list {k : ℕ} {ev : ListEvent} {vm vm' : ListViewModel} :
      s.listViewModels[k]? = some vm → vm.step s.stored ev = some vm' →
      Moved s (.list k ev) { s with listViewModels := s.listViewModels.set k vm' }
  | openDetail (objectId : Int32) :
      Moved s (.openDetail objectId)
        { s with detailScreens := s.detailScreens ++ [.create objectId] }
  | detail {k : ℕ} {ev : DetailEvent} {d d' : DetailScreen} :
      s.detailScreens[k]? = some d → d.step s.stored ev = some d' →
      Moved s (.detail k ev) { s with detailScreens := s.detailScreens.set k d' }

variable {s s' : State} {e : Event}

theorem moved_of_step (h : step s e = some s') : Moved s e s' := by
  cases hc : s.crashed with
  | true =>
      simp [step, hc] at h
  | false =>
      simp only [step, hc] at h
      cases e with
      | refresh r =>
          rw [← Option.some.inj h]
          exact Moved.refresh r
      | openList =>
          rw [← Option.some.inj h]
          exact Moved.openList
      | list k ev =>
          rcases Option.map_eq_some_iff.1 h with ⟨vms, hvms, rfl⟩
          rcases updateAt_eq_some.1 hvms with ⟨vm, vm', hvm, hstep, rfl⟩
          exact Moved.list hvm hstep
      | openDetail objectId =>
          rw [← Option.some.inj h]
          exact Moved.openDetail objectId
      | detail k ev =>
          rcases Option.map_eq_some_iff.1 h with ⟨ds, hds, rfl⟩
          rcases updateAt_eq_some.1 hds with ⟨d, d', hd, hstep, rfl⟩
          exact Moved.detail hd hstep

/-- A view model after a step is the one before, a new one, or the one that took the step. -/
theorem Moved.listViewModel {k : ℕ} {vm' : ListViewModel} (h : Moved s e s')
    (hvm' : s'.listViewModels[k]? = some vm') :
    (s.listViewModels[k]? = none ∧ vm' = .create) ∨
      ∃ vm, s.listViewModels[k]? = some vm ∧
        (vm' = vm ∨ ∃ ev, e = .list k ev ∧ vm.step s.stored ev = some vm') := by
  cases h with
  | openList =>
      rcases getElem?_concat_cases hvm' with ⟨hk, rfl⟩ | hold
      · exact Or.inl ⟨by simp [hk], rfl⟩
      · exact Or.inr ⟨vm', hold, Or.inl rfl⟩
  | list hvm hstep =>
      rename_i j ev vm vm₁
      rcases getElem?_set_cases hvm' with ⟨rfl, rfl⟩ | ⟨_, hold⟩
      · exact Or.inr ⟨vm, hvm, Or.inr ⟨ev, rfl, hstep⟩⟩
      · exact Or.inr ⟨vm', hold, Or.inl rfl⟩
  | _ =>
      exact Or.inr ⟨vm', hvm', Or.inl rfl⟩

/-- A detail screen after a step is the one before, a new one, or the one that took the step. -/
theorem Moved.detailScreen {k : ℕ} {d' : DetailScreen} (h : Moved s e s')
    (hd' : s'.detailScreens[k]? = some d') :
    (s.detailScreens[k]? = none ∧ ∃ objectId, d' = .create objectId) ∨
      ∃ d, s.detailScreens[k]? = some d ∧
        (d' = d ∨ ∃ ev, e = .detail k ev ∧ d.step s.stored ev = some d') := by
  cases h with
  | openDetail objectId =>
      rcases getElem?_concat_cases hd' with ⟨hk, rfl⟩ | hold
      · exact Or.inl ⟨by simp [hk], objectId, rfl⟩
      · exact Or.inr ⟨d', hold, Or.inl rfl⟩
  | detail hd hstep =>
      rename_i j ev d d₁
      rcases getElem?_set_cases hd' with ⟨rfl, rfl⟩ | ⟨_, hold⟩
      · exact Or.inr ⟨d, hd, Or.inr ⟨ev, rfl, hstep⟩⟩
      · exact Or.inr ⟨d', hold, Or.inl rfl⟩
  -- Refreshes and list events do not touch the detail screens.
  | _ =>
      exact Or.inr ⟨d', hd', Or.inl rfl⟩

/-- View models and detail screens stay. -/
theorem Moved.length_le (h : Moved s e s') :
    s.listViewModels.length ≤ s'.listViewModels.length ∧
      s.detailScreens.length ≤ s'.detailScreens.length := by
  cases h <;> simp

/-! ## The history of the storage -/

/-- The lists that an event passes to `saveObjects`. -/
def Event.saves : Event → List (List MuseumObject)
  | .refresh r => MuseumRepository.saves r
  | _ => []

def savedLists (es : List Event) : List (List MuseumObject) :=
  es.flatMap Event.saves

/-- `emptyList()`, followed by the lists passed to `saveObjects`, in order. -/
def history (es : List Event) : List (List MuseumObject) :=
  [] :: savedLists es

theorem Moved.storage_eq (h : Moved s e s') :
    s'.storage = e.saves.foldl InMemoryMuseumStorage.saveObjects s.storage := by
  cases h with
  | refresh r =>
      exact MuseumRepository.refreshCompletes_eq r s.storage
  | _ =>
      rfl

theorem savedLists_concat (es : List Event) (e : Event) :
    savedLists (es ++ [e]) = savedLists es ++ e.saves := by
  simp [savedLists]

theorem stored_eq {es : List Event} {tr : List State} (h : machine.Run es tr s) :
    s.stored = (savedLists es).getLastD [] := by
  -- The storage itself is the fold of all saves; its value is the last of them.
  have hstorage : s.storage =
      (savedLists es).foldl InMemoryMuseumStorage.saveObjects .empty := by
    induction h with
    | init =>
        rfl
    | step _hrun hstep ih =>
        rw [(moved_of_step hstep).storage_eq, ih, savedLists_concat, List.foldl_append]
  rw [State.stored, hstorage, MuseumRepository.foldl_saveObjects_value]
  rfl

/-- The stored list is the last one of the history. -/
theorem history_getLast? {es : List Event} {tr : List State} (h : machine.Run es tr s) :
    (history es).getLast? = some s.stored := by
  rw [stored_eq h, history, List.getLast?_cons, List.getLastD_eq_getLast?]

end Screens
end KmpApp
