import KmpApp.Background.Store
import KmpApp.Navigation.App
import KmpApp.Screens.Consistency
import KmpApp.Transition.Simulation

/-!
# Machine — the whole app

The background coroutines, the views and the navigation in one machine, over one storage:

* creating a `ListViewModel` also launches the coroutine of its `init` block;
* a card can be tapped only for an object that some list view model shows, and tapping it pushes a
  detail entry and opens the detail screen for it;
* the system's own back takes the top entry off the stack while there is one below it;
* an exception thrown in a composition stops everything.

The three parts are recovered by simulations: what was proved about each of them alone holds of
them inside the app.  For the views this is a refinement.  There a refresh is one step, here its
fetch and its save are interleaved with everything else, and the save is the step at which the
whole refresh happens.
-/

namespace KmpApp
namespace System

open Coroutines Data Transition
open Navigation (Nav)
open Screens (ListViewModel ListEvent DetailScreen DetailEvent)

/-! ## State and events -/

structure State where
  background : Background.State
  listViewModels : List ListViewModel
  detailScreens : List DetailScreen
  nav : Nav

inductive Event
  | background (e : Background.Event)
  | openList
  | list (k : ℕ) (ev : ListEvent)
  | detail (k : ℕ) (ev : DetailEvent)
  | navigation (e : Navigation.Event)
  | systemBack

/-- The part of the state that the views see. -/
def State.screens (s : State) : Screens.State :=
  { storage := s.background.world.storage
    listViewModels := s.listViewModels
    detailScreens := s.detailScreens }

def State.withScreens (s : State) (screens : Screens.State) : State :=
  { s with
    listViewModels := screens.listViewModels
    detailScreens := screens.detailScreens }

/-- There is a card for this object on some list screen. -/
def State.shows (s : State) (obj : MuseumObject) : Bool :=
  s.listViewModels.any fun vm => decide (obj ∈ vm.objects.value)

/-- What an event does in an app that is still running. -/
def react (s : State) : Event → Option State
  -- This coroutine is launched by the `init` block of a view model only.
  | .background (.launch .viewModelScope) => none
  | .background e =>
      (Background.step s.background e).map fun background => { s with background := background }
  | .openList =>
      (Background.step s.background (.launch .viewModelScope)).map fun background =>
        { s with
          background := background
          listViewModels := s.listViewModels ++ [.create] }
  | .list k ev => (Screens.step s.screens (.list k ev)).map s.withScreens
  | .detail k ev => (Screens.step s.screens (.detail k ev)).map s.withScreens
  | .navigation (.tapCard screen obj) =>
      if s.shows obj then
        (Navigation.step s.nav (.tapCard screen obj)).map fun nav =>
          { s with
            nav := nav
            detailScreens := s.detailScreens ++ [.create obj.objectID] }
      else
        none
  | .navigation e => (Navigation.step s.nav e).map fun nav => { s with nav := nav }
  -- `NavHost` handles the back gesture; on the last entry it leaves it to the platform.
  | .systemBack =>
      if 1 < s.nav.backStack.length then some { s with nav := s.nav.popBackStack } else none

def step (s : State) (e : Event) : Option State :=
  if s.screens.crashed then none else react s e

def machine : Machine State Event :=
  { init :=
      { background := Background.machine.init
        listViewModels := []
        detailScreens := []
        nav := Navigation.machine.init }
    step := step }

/-! ## What a step can do -/

/-- Everything an enabled event can do. -/
inductive Moved (s : State) : Event → State → Prop where
  | background {e : Background.Event} {background : Background.State} :
      Background.step s.background e = some background →
      Moved s (.background e) { s with background := background }
  | openList {background : Background.State} :
      Background.step s.background (.launch .viewModelScope) = some background →
      Moved s .openList
        { s with
          background := background
          listViewModels := s.listViewModels ++ [.create] }
  | list {k : ℕ} {ev : ListEvent} {screens : Screens.State} :
      Screens.step s.screens (.list k ev) = some screens →
      Moved s (.list k ev) (s.withScreens screens)
  | detail {k : ℕ} {ev : DetailEvent} {screens : Screens.State} :
      Screens.step s.screens (.detail k ev) = some screens →
      Moved s (.detail k ev) (s.withScreens screens)
  | tapCard {screen : ℕ} {obj : MuseumObject} {nav : Nav} :
      s.shows obj = true → Navigation.step s.nav (.tapCard screen obj) = some nav →
      Moved s (.navigation (.tapCard screen obj))
        { s with
          nav := nav
          detailScreens := s.detailScreens ++ [.create obj.objectID] }
  | navigation {e : Navigation.Event} {nav : Nav} :
      e.isCardTap = false → Navigation.step s.nav e = some nav →
      Moved s (.navigation e) { s with nav := nav }
  | systemBack :
      1 < s.nav.backStack.length → Moved s .systemBack { s with nav := s.nav.popBackStack }

variable {s s' : State} {e : Event}

theorem moved_of_react (h : react s e = some s') : Moved s e s' := by
  cases e with
  | background e =>
      -- The one launch that is ruled out belongs to `openList`.
      have hstep : ∃ background, Background.step s.background e = some background ∧
          { s with background := background } = s' := by
        cases e with
        | signal i sig =>
            exact Option.map_eq_some_iff.1 h
        | launch launcher =>
            cases launcher with
            | viewModelScope =>
                cases h
            | _ =>
                exact Option.map_eq_some_iff.1 h
      rcases hstep with ⟨background, hbackground, rfl⟩
      exact Moved.background hbackground
  | openList =>
      simp only [react, Option.map_eq_some_iff] at h
      rcases h with ⟨background, hbackground, rfl⟩
      exact Moved.openList hbackground
  | list k ev =>
      rcases Option.map_eq_some_iff.1 h with ⟨screens, hscreens, rfl⟩
      exact Moved.list hscreens
  | detail k ev =>
      rcases Option.map_eq_some_iff.1 h with ⟨screens, hscreens, rfl⟩
      exact Moved.detail hscreens
  | navigation e =>
      cases e with
      | tapCard screen obj =>
          by_cases hshows : s.shows obj = true
          · rw [react, if_pos hshows] at h
            rcases Option.map_eq_some_iff.1 h with ⟨nav, hnav, rfl⟩
            exact Moved.tapCard hshows hnav
          · rw [react, if_neg hshows] at h
            cases h
      | tapBack screen =>
          rcases Option.map_eq_some_iff.1 h with ⟨nav, hnav, rfl⟩
          exact Moved.navigation rfl hnav
      | transitionEnds screen =>
          simp only [react, Option.map_eq_some_iff] at h
          rcases h with ⟨nav, hnav, rfl⟩
          exact Moved.navigation rfl hnav
  | systemBack =>
      by_cases hlen : 1 < s.nav.backStack.length
      · rw [react, if_pos hlen] at h
        rw [← Option.some.inj h]
        exact Moved.systemBack hlen
      · rw [react, if_neg hlen] at h
        cases h

theorem moved_of_step (h : step s e = some s') : s.screens.crashed = false ∧ Moved s e s' := by
  cases hc : s.screens.crashed with
  | true =>
      simp [step, hc] at h
  | false =>
      have hreact : react s e = some s' := by
        simpa [step, hc] using h
      exact ⟨rfl, moved_of_react hreact⟩

/-! ## The parts inside the app -/

def Event.toBackground : Event → List Background.Event
  | .background e => [e]
  | .openList => [.launch .viewModelScope]
  | _ => []

/-- What an event does to the back stack. -/
def Event.stackOps : Event → List Navigation.StackOp
  | .navigation e => e.stackOps
  | .systemBack => [.pop]
  | _ => []

/-- The lists that an event passes to `saveObjects`. -/
def Event.saves : Event → List (List MuseumObject)
  | .background e => Background.savedLists [e]
  | _ => []

theorem background_simulation :
    Simulation machine Background.machine State.background Event.toBackground
      (fun e => [e]) where
  init := rfl
  step := by
    intro es tr s s' e _ hstep
    cases (moved_of_step hstep).2 with
    | background hbackground =>
        rename_i e background
        exact Or.inr ⟨e, hbackground, rfl⟩
    | openList hbackground =>
        exact Or.inr ⟨.launch .viewModelScope, hbackground, rfl⟩
    | _ =>
        exact Or.inl ⟨rfl, rfl⟩

variable {es : List Event} {tr : List State}

/-- The background coroutines of the app run by themselves. -/
theorem background_run (h : machine.Run es tr s) :
    ∃ tr', Background.machine.Run (es.flatMap Event.toBackground) tr' s.background := by
  rcases background_simulation.run h with ⟨es', tr', hrun, hobs⟩
  rw [List.flatMap_singleton'] at hobs
  subst hobs
  exact ⟨tr', hrun⟩

theorem detailsAbove (h : machine.Run es tr s) : Navigation.DetailsAbove s.nav.backStack := by
  induction h with
  | init =>
      exact Navigation.detailsAbove_start
  | step _hrun hstep ih =>
      cases (moved_of_step hstep).2 with
      | tapCard _hshows hnav =>
          exact ih.step (Navigation.moved_of_step hnav)
      | navigation _htap hnav =>
          exact ih.step (Navigation.moved_of_step hnav)
      | systemBack _ =>
          rw [Compose.NavController.popBackStack_backStack]
          exact ih.pop
      | _ =>
          exact ih

/-- The system's back is a tap on the arrow of the top entry, which is a detail. -/
theorem navigation_simulation :
    Simulation machine Navigation.machine State.nav Event.stackOps Navigation.Event.stackOps where
  init := rfl
  step := by
    intro es tr s s' e hrun hstep
    cases (moved_of_step hstep).2 with
    | tapCard _hshows hnav =>
        rename_i screen obj nav
        exact Or.inr ⟨.tapCard screen obj, hnav, rfl⟩
    | navigation _htap hnav =>
        rename_i e nav
        exact Or.inr ⟨e, hnav, rfl⟩
    | systemBack hlen =>
        rcases Navigation.tapBack_top (detailsAbove hrun) hlen with ⟨screen, htap⟩
        exact Or.inr ⟨.tapBack screen, htap, rfl⟩
    | _ =>
        exact Or.inl ⟨rfl, rfl⟩

/-! ## The views inside the app -/

/-- A step of a view leaves the storage alone. -/
theorem screens_withScreens {ev : Screens.Event} {screens : Screens.State}
    (h : Screens.step s.screens ev = some screens) (hsaves : ev.saves = []) :
    (s.withScreens screens).screens = screens := by
  -- Everything but the storage is taken over from `screens`.
  have hstorage := (Screens.moved_of_step h).storage_eq
  rw [hsaves] at hstorage
  cases screens with
  | mk storage listViewModels detailScreens =>
      have hstorage' : storage = s.background.world.storage := hstorage
      rw [hstorage']
      rfl

/-- Seen from the views, a background event is a whole refresh or nothing at all. -/
theorem screens_background {bs : List Background.Event} {trb : List Background.State}
    (hrun : Background.machine.Run bs trb s.background) (hcrashed : s.screens.crashed = false)
    {e : Background.Event} {background : Background.State}
    (h : Background.step s.background e = some background) :
    (({ s with background := background } : State).screens = s.screens ∧
      Event.saves (.background e) = []) ∨
    ∃ r, Screens.step s.screens (.refresh r) =
        some ({ s with background := background } : State).screens ∧
      Screens.Event.saves (.refresh r) = Event.saves (.background e) := by
  by_cases hsaved : ∃ i l, e = .signal i (.saved l)
  · -- The refresh behind the save takes effect here, as a whole.
    rcases hsaved with ⟨i, l, rfl⟩
    rcases Background.step_saved hrun h with ⟨⟨r, _, hr⟩, hstorage⟩
    refine Or.inr ⟨r, ?_, hr⟩
    have hrefresh : Screens.step s.screens (.refresh r) =
        some
          { s.screens with
            storage := MuseumRepository.refreshCompletes r s.screens.storage } := by
      simp [Screens.step, hcrashed]
    have hcompletes : MuseumRepository.refreshCompletes r s.screens.storage =
        background.world.storage := by
      rw [MuseumRepository.refreshCompletes_eq, hr, hstorage]
      rfl
    rw [hrefresh, hcompletes]
    rfl
  · have hne : ∀ i l, e ≠ .signal i (.saved l) := fun i l he => hsaved ⟨i, l, he⟩
    refine Or.inl ⟨?_, Background.savedLists_singleton hne⟩
    simp only [State.screens]
    rw [Background.step_storage h hne]

/-- The views inside the app refine the views over whole refreshes. -/
theorem screens_simulation :
    Simulation machine Screens.machine State.screens Event.saves Screens.Event.saves where
  init := rfl
  step := by
    intro es tr s s' e hrun hstep
    rcases moved_of_step hstep with ⟨hcrashed, hmoved⟩
    cases hmoved with
    | background hbackground =>
        rcases background_run hrun with ⟨trb, hrunb⟩
        rcases screens_background hrunb hcrashed hbackground with hstutter | ⟨r, hrefresh, hr⟩
        · exact Or.inl hstutter
        · exact Or.inr ⟨.refresh r, hrefresh, hr⟩
    | openList hbackground =>
        refine Or.inr ⟨.openList, ?_, rfl⟩
        have hopen : Screens.step s.screens .openList =
            some
              { s.screens with
                listViewModels := s.screens.listViewModels ++ [.create] } := by
          simp [Screens.step, hcrashed]
        rw [Background.step_launch hbackground]
        exact hopen
    | list hscreens =>
        rename_i k ev screens
        refine Or.inr ⟨.list k ev, ?_, rfl⟩
        rw [screens_withScreens hscreens rfl]
        exact hscreens
    | detail hscreens =>
        rename_i k ev screens
        refine Or.inr ⟨.detail k ev, ?_, rfl⟩
        rw [screens_withScreens hscreens rfl]
        exact hscreens
    | tapCard hshows hnav =>
        rename_i screen obj nav
        refine Or.inr ⟨.openDetail obj.objectID, ?_, rfl⟩
        have hopen : Screens.step s.screens (.openDetail obj.objectID) =
            some
              { s.screens with
                detailScreens := s.screens.detailScreens ++ [.create obj.objectID] } := by
          simp [Screens.step, hcrashed]
        exact hopen
    | navigation _ _ =>
        exact Or.inl ⟨rfl, rfl⟩
    | systemBack _ =>
        exact Or.inl ⟨rfl, rfl⟩

end System
end KmpApp
