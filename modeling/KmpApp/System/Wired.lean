import KmpApp.Background.Outputs
import KmpApp.Screens.ListScreen
import KmpApp.System.Safety

/-!
# Wired — the app as `Koin.kt` and `App.kt` put it together

The repository is a `single`: it is made when it is first asked for, and its `initialize()` is then
called once.  View models come from factories, which ask for the repository, so none of them exists
before it.  Nobody else calls `refresh()`.  Cards are tapped on the grid of a list screen, which
shows a copy of a copy of the stored list.

This file shows that the wired app is an instance of the app of `KmpApp.System.Machine`, in which
refreshes may come at any time and a card may be tapped for any object of a list view model:

* `saves_length_le_one` — in the wired app there is at most one save;
* `shows_of_card` — a card on screen is for an object that its view model still has;
* `app_run` — every run of the wired app is a run of the app.

The results that need the wiring follow: no composition ever throws, all cards are those of the one
list that was fetched, and a tapped card opens exactly its own object.
-/

namespace KmpApp
namespace System
namespace Wired

open Data Transition
open Screens (ListScreen ListScreenEvent ListViewModel DetailScreen)

/-! ## State and events -/

/-- `museumRepository` says whether the `single` has been made. -/
structure State where
  museumRepository : Bool
  app : System.State
  listScreens : List (Option ListScreen)

inductive Event
  | createRepository
  | openList
  | listScreen (k : ℕ) (ev : ListScreenEvent)
  | tapCard (k screen : ℕ) (obj : MuseumObject)
  | app (e : System.Event)

/-- Signals, views, back arrows and the system's back behave as in the app. -/
def direct : System.Event → Bool
  | .background (.signal _ _) => true
  | .background (.launch _) => false
  | .openList => false
  | .list _ _ => true
  | .detail _ _ => true
  | .navigation e => !e.isCardTap
  | .systemBack => true

def State.lists (s : State) : Screens.ListScreens.State :=
  { screens := s.app.screens
    listScreens := s.listScreens }

/-- What an event does in an app that is still running. -/
def react (s : State) : Event → Option State
  -- `single { MuseumRepository(get(), get()).apply { initialize() } }`
  | .createRepository =>
      if s.museumRepository then
        none
      else
        (System.step s.app (.background (.launch .repositoryScope))).map fun app =>
          { s with
            museumRepository := true
            app := app }
  -- `factoryOf(::ListViewModel)` needs the repository.
  | .openList =>
      if s.museumRepository then
        (System.step s.app .openList).map fun app =>
          { s with
            app := app
            listScreens := s.listScreens ++ Screens.ListScreens.composed .openList }
      else
        none
  | .listScreen k ev =>
      s.app.listViewModels[k]?.bind fun vm =>
        (updateAt s.listScreens k fun l => ListScreen.step vm.objects.value l ev).map fun ls =>
          { s with listScreens := ls }
  | .tapCard k screen obj =>
      if obj ∈ (Screens.ListScreens.cardsOn k s.lists).getD [] then
        (Navigation.step s.app.nav (.tapCard screen obj)).map fun nav =>
          { s with
            app :=
              { s.app with
                nav := nav
                detailScreens := s.app.detailScreens ++ [.create obj.objectID] } }
      else
        none
  | .app e =>
      if direct e then
        (System.step s.app e).map fun app => { s with app := app }
      else
        none

def step (s : State) (e : Event) : Option State :=
  if s.app.screens.crashed then none else react s e

def machine : Machine State Event :=
  { init :=
      { museumRepository := false
        app := System.machine.init
        listScreens := [] }
    step := step }

/-! ## What a step can do -/

/-- Everything an enabled event can do. -/
inductive Moved (s : State) : Event → State → Prop where
  | createRepository {app : System.State} :
      s.museumRepository = false →
      System.step s.app (.background (.launch .repositoryScope)) = some app →
      Moved s .createRepository
        { s with
          museumRepository := true
          app := app }
  | openList {app : System.State} :
      s.museumRepository = true → System.step s.app .openList = some app →
      Moved s .openList
        { s with
          app := app
          listScreens := s.listScreens ++ Screens.ListScreens.composed .openList }
  | listScreen {k : ℕ} {ev : ListScreenEvent} {vm : ListViewModel} {l l' : Option ListScreen} :
      s.app.listViewModels[k]? = some vm → s.listScreens[k]? = some l →
      ListScreen.step vm.objects.value l ev = some l' →
      Moved s (.listScreen k ev) { s with listScreens := s.listScreens.set k l' }
  | tapCard {k screen : ℕ} {obj : MuseumObject} {cards : List MuseumObject} {nav : Navigation.Nav} :
      Screens.ListScreens.cardsOn k s.lists = some cards → obj ∈ cards →
      Navigation.step s.app.nav (.tapCard screen obj) = some nav →
      Moved s (.tapCard k screen obj)
        { s with
          app :=
            { s.app with
              nav := nav
              detailScreens := s.app.detailScreens ++ [.create obj.objectID] } }
  | app {e : System.Event} {app : System.State} :
      direct e = true → System.step s.app e = some app →
      Moved s (.app e) { s with app := app }

variable {s s' : State} {e : Event}

theorem moved_of_react (h : react s e = some s') : Moved s e s' := by
  cases e with
  | createRepository =>
      by_cases hrep : s.museumRepository = true
      · rw [react, if_pos hrep] at h
        cases h
      · rw [react, if_neg hrep] at h
        rcases Option.map_eq_some_iff.1 h with ⟨app, happ, rfl⟩
        exact Moved.createRepository (by simpa using hrep) happ
  | openList =>
      by_cases hrep : s.museumRepository = true
      · rw [react, if_pos hrep] at h
        rcases Option.map_eq_some_iff.1 h with ⟨app, happ, rfl⟩
        exact Moved.openList hrep happ
      · rw [react, if_neg hrep] at h
        cases h
  | listScreen k ev =>
      rcases Option.bind_eq_some_iff.1 h with ⟨vm, hvm, hmap⟩
      rcases Option.map_eq_some_iff.1 hmap with ⟨ls, hls, rfl⟩
      rcases updateAt_eq_some.1 hls with ⟨l, l', hl, hstep, rfl⟩
      exact Moved.listScreen hvm hl hstep
  | tapCard k screen obj =>
      by_cases hmem : obj ∈ (Screens.ListScreens.cardsOn k s.lists).getD []
      · rw [react, if_pos hmem] at h
        rcases Option.map_eq_some_iff.1 h with ⟨nav, hnav, rfl⟩
        cases hcards : Screens.ListScreens.cardsOn k s.lists with
        | none =>
            simp [hcards] at hmem
        | some cards =>
            exact Moved.tapCard hcards (by simpa [hcards] using hmem) hnav
      · rw [react, if_neg hmem] at h
        cases h
  | app e =>
      by_cases hdirect : direct e = true
      · rw [react, if_pos hdirect] at h
        rcases Option.map_eq_some_iff.1 h with ⟨app, happ, rfl⟩
        exact Moved.app hdirect happ
      · rw [react, if_neg hdirect] at h
        cases h

theorem moved_of_step (h : step s e = some s') : s.app.screens.crashed = false ∧ Moved s e s' := by
  cases hc : s.app.screens.crashed with
  | true =>
      simp [step, hc] at h
  | false =>
      have hreact : react s e = some s' := by
        simpa [step, hc] using h
      exact ⟨rfl, moved_of_react hreact⟩

/-! ## The background of the wired app -/

/-- The event of the app behind an event of the wired app. -/
def Event.toApp : Event → List System.Event
  | .createRepository => [.background (.launch .repositoryScope)]
  | .openList => [.openList]
  | .listScreen _ _ => []
  | .tapCard _ screen obj => [.navigation (.tapCard screen obj)]
  | .app e => [e]

def Event.toBackground (e : Event) : List Background.Event :=
  e.toApp.flatMap System.Event.toBackground

/-- The lists that an event passes to `saveObjects`. -/
def Event.saves (e : Event) : List (List MuseumObject) :=
  e.toApp.flatMap System.Event.saves

theorem background_simulation :
    Simulation machine Background.machine (fun s => s.app.background) Event.toBackground
      (fun e => [e]) where
  init := rfl
  step := by
    intro es tr s s' e _ hstep
    cases (moved_of_step hstep).2 with
    | createRepository _ happ =>
        cases (System.moved_of_step happ).2 with
        | background hbackground =>
            exact Or.inr ⟨.launch .repositoryScope, hbackground, rfl⟩
    | openList _ happ =>
        cases (System.moved_of_step happ).2 with
        | openList hbackground =>
            exact Or.inr ⟨.launch .viewModelScope, hbackground, rfl⟩
    | listScreen _ _ _ =>
        exact Or.inl ⟨rfl, rfl⟩
    | tapCard _ _ _ =>
        exact Or.inl ⟨rfl, rfl⟩
    | app hdirect happ =>
        cases (System.moved_of_step happ).2 with
        | background hbackground =>
            rename_i e background
            exact Or.inr ⟨e, hbackground, rfl⟩
        | openList hbackground =>
            exact Or.inr ⟨.launch .viewModelScope, hbackground, rfl⟩
        | _ =>
            exact Or.inl ⟨rfl, rfl⟩

variable {es : List Event} {tr : List State}

theorem background_run (h : machine.Run es tr s) :
    ∃ tr', Background.machine.Run (es.flatMap Event.toBackground) tr' s.app.background := by
  rcases background_simulation.run h with ⟨es', tr', hrun, hobs⟩
  rw [List.flatMap_singleton'] at hobs
  subst hobs
  exact ⟨tr', hrun⟩

/-- A refresh is started only when the repository is made. -/
theorem refreshes_eq (h : machine.Run es tr s) :
    ((es.flatMap Event.toBackground).filterMap Background.Event.launch?).countP
      Background.Launcher.isRefresh = if s.museumRepository then 1 else 0 := by
  induction h with
  | init =>
      rfl
  | step _hrun hstep ih =>
      rename_i es tr s s' e
      rw [List.flatMap_append, List.filterMap_append, List.countP_append, ih]
      cases (moved_of_step hstep).2 with
      | createRepository hrep _ =>
          simp [hrep, Event.toBackground, Event.toApp, System.Event.toBackground,
            Background.Event.launch?, Background.Launcher.isRefresh]
      | openList _ _ =>
          simp [Event.toBackground, Event.toApp, System.Event.toBackground,
            Background.Event.launch?, Background.Launcher.isRefresh]
      | listScreen _ _ _ =>
          simp [Event.toBackground, Event.toApp]
      | tapCard _ _ _ =>
          simp [Event.toBackground, Event.toApp, System.Event.toBackground]
      | app hdirect happ =>
          rename_i e app
          cases e with
          | background e =>
              cases e with
              | launch launcher =>
                  cases hdirect
              | signal i sig =>
                  simp [Event.toBackground, Event.toApp, System.Event.toBackground,
                    Background.Event.launch?]
          | openList =>
              cases hdirect
          | _ =>
              simp [Event.toBackground, Event.toApp, System.Event.toBackground]

theorem savedLists_toBackground (es : List Event) :
    Background.savedLists (es.flatMap Event.toBackground) = es.flatMap Event.saves := by
  induction es with
  | nil =>
      rfl
  | cons e es ih =>
      have happ : Background.savedLists (e.toBackground ++ es.flatMap Event.toBackground) =
          Background.savedLists e.toBackground ++
            Background.savedLists (es.flatMap Event.toBackground) := List.filterMap_append
      rw [List.flatMap_cons, List.flatMap_cons, happ, ih]
      congr 1
      cases e with
      | app e =>
          cases e <;> simp [Event.toBackground, Event.saves, Event.toApp,
            System.Event.toBackground, System.Event.saves, Background.savedLists]
      | _ =>
          rfl

/-- The repository is made once, and its one refresh saves at most once. -/
theorem saves_length_le_one (h : machine.Run es tr s) : (es.flatMap Event.saves).length ≤ 1 := by
  rcases background_run h with ⟨tr', hrun⟩
  have hle := Background.saves_le_refreshes hrun
  rw [savedLists_toBackground, refreshes_eq h] at hle
  by_cases hrep : s.museumRepository = true
  · simpa [hrep] using hle
  · simp only [hrep] at hle
    exact le_trans hle (Nat.zero_le _)

/-- After the save nothing is saved any more. -/
theorem saves_eq_of_append {pre post : List Event} {l : List MuseumObject}
    (h : machine.Run (pre ++ post) tr s) (hpre : pre.flatMap Event.saves = [l]) :
    (pre ++ post).flatMap Event.saves = [l] := by
  have hle := saves_length_le_one h
  rw [List.flatMap_append, hpre, List.length_append, List.length_singleton] at hle
  have hpost : post.flatMap Event.saves = [] := List.length_eq_zero_iff.1 (by omega)
  rw [List.flatMap_append, hpre, hpost, List.append_nil]

/-- The stored list, read off the saves. -/
theorem stored_eq_saves (h : machine.Run es tr s) {l : List MuseumObject}
    (hsaves : es.flatMap Event.saves = [l]) : s.app.background.stored = l := by
  rcases background_run h with ⟨trb, hrunb⟩
  rw [Background.stored_eq_getLastD hrunb, savedLists_toBackground, hsaves]
  rfl

/-! ## The screens of the wired app -/

theorem lists_step (s : State) (ev : Screens.Event) :
    Screens.ListScreens.step s.lists (.screens ev) =
      (Screens.step s.app.screens ev).map fun screens =>
        { screens := screens
          listScreens := s.listScreens ++ Screens.ListScreens.composed ev } := rfl

/-- A background event whose effect is a refresh or nothing, seen from the list screens. -/
theorem lists_background {bs : List Background.Event} {trb : List Background.State}
    (hrun : Background.machine.Run bs trb s.app.background)
    (hcrashed : s.app.screens.crashed = false) {b : Background.Event}
    {background : Background.State} (h : Background.step s.app.background b = some background) :
    (({ s with app := { s.app with background := background } } : State).lists = s.lists ∧
      System.Event.saves (.background b) = []) ∨
    ∃ r, Screens.ListScreens.step s.lists (.screens (.refresh r)) =
        some ({ s with app := { s.app with background := background } } : State).lists ∧
      Screens.Event.saves (.refresh r) = System.Event.saves (.background b) := by
  rcases screens_background hrun hcrashed h with ⟨hsame, hnil⟩ | ⟨r, hrefresh, hr⟩
  · refine Or.inl ⟨?_, hnil⟩
    simp only [State.lists]
    rw [hsame]
  · refine Or.inr ⟨r, ?_, hr⟩
    rw [lists_step, hrefresh]
    simp [State.lists, Screens.ListScreens.composed]

/-- A step of a view is the same step under the list screens. -/
theorem lists_views {ev : Screens.Event} {screens : Screens.State}
    (h : Screens.step s.app.screens ev = some screens) (hsaves : ev.saves = [])
    (hcomposed : Screens.ListScreens.composed ev = []) :
    Screens.ListScreens.step s.lists (.screens ev) =
      some ({ s with app := s.app.withScreens screens } : State).lists := by
  have hscreens := screens_withScreens h hsaves
  rw [lists_step, h]
  simp [State.lists, hscreens, hcomposed]

theorem lists_simulation :
    Simulation machine Screens.ListScreens.machine State.lists Event.saves
      (fun e => e.toScreens.flatMap Screens.Event.saves) where
  init := rfl
  step := by
    intro es tr s s' e hrun hstep
    rcases moved_of_step hstep with ⟨hcrashed, hmoved⟩
    rcases background_run hrun with ⟨trb, hrunb⟩
    cases hmoved with
    | createRepository _ happ =>
        cases (System.moved_of_step happ).2 with
        | background hbackground =>
            -- Making the repository only launches its coroutine.
            refine Or.inl ⟨?_, rfl⟩
            simp only [State.lists, System.State.screens]
            rw [Background.step_storage hbackground (by simp)]
    | openList _ happ =>
        cases (System.moved_of_step happ).2 with
        | openList hbackground =>
            refine Or.inr ⟨.screens .openList, ?_, rfl⟩
            have hopen : Screens.step s.app.screens .openList =
                some
                  { s.app.screens with
                    listViewModels := s.app.screens.listViewModels ++ [.create] } := by
              simp [Screens.step, hcrashed]
            rw [Background.step_launch hbackground]
            refine (lists_step s .openList).trans ?_
            rw [hopen]
            rfl
    | listScreen hvm hl hev =>
        rename_i k ev vm l l'
        refine Or.inr ⟨.listScreen k ev, ?_, rfl⟩
        have hupdate : updateAt s.listScreens k (fun l => ListScreen.step vm.objects.value l ev) =
            some (s.listScreens.set k l') := updateAt_eq_some.2 ⟨l, l', hl, hev, rfl⟩
        have hcrashed' : s.lists.screens.crashed = false := hcrashed
        have hvm' : s.lists.screens.listViewModels[k]? = some vm := hvm
        have hlistScreens : s.lists.listScreens = s.listScreens := rfl
        simp only [Screens.ListScreens.machine, Screens.ListScreens.step, hcrashed', hvm',
          hlistScreens, Bool.false_eq_true, if_false, Option.bind_some, hupdate, Option.map_some]
        rfl
    | tapCard hcards hobj hnav =>
        rename_i k screen obj cards nav
        refine Or.inr ⟨.screens (.openDetail obj.objectID), ?_, rfl⟩
        have hopen : Screens.step s.app.screens (.openDetail obj.objectID) =
            some
              { s.app.screens with
                detailScreens := s.app.screens.detailScreens ++ [.create obj.objectID] } := by
          simp [Screens.step, hcrashed]
        refine (lists_step s (.openDetail obj.objectID)).trans ?_
        rw [hopen]
        simp [State.lists, System.State.screens, Screens.ListScreens.composed]
    | app hdirect happ =>
        cases (System.moved_of_step happ).2 with
        | background hbackground =>
            rename_i b background
            rcases lists_background hrunb hcrashed hbackground with
              ⟨hsame, hnil⟩ | ⟨r, hrefresh, hr⟩
            · exact Or.inl ⟨hsame, by simpa [Event.saves, Event.toApp] using hnil⟩
            · refine Or.inr ⟨.screens (.refresh r), hrefresh, ?_⟩
              simpa [Event.saves, Event.toApp, Screens.ListScreens.Event.toScreens] using hr
        | openList _ =>
            cases hdirect
        | list hscreens =>
            rename_i k ev screens
            exact Or.inr ⟨.screens (.list k ev), lists_views hscreens rfl rfl, rfl⟩
        | detail hscreens =>
            rename_i k ev screens
            exact Or.inr ⟨.screens (.detail k ev), lists_views hscreens rfl rfl, rfl⟩
        | tapCard _ _ =>
            cases hdirect
        | navigation _ _ =>
            exact Or.inl ⟨rfl, rfl⟩
        | systemBack _ =>
            exact Or.inl ⟨rfl, rfl⟩

/-- The list screens of the wired app run by themselves, over the same history. -/
theorem lists_run (h : machine.Run es tr s) :
    ∃ es' tr', Screens.ListScreens.machine.Run es' tr' s.lists ∧
      Screens.ListScreens.history es' = [] :: es.flatMap Event.saves := by
  rcases lists_simulation.run h with ⟨es', tr', hrun, hobs⟩
  refine ⟨es', tr', hrun, ?_⟩
  rw [← hobs, Screens.ListScreens.history, Screens.history, Screens.savedLists, List.flatMap_assoc]

/-! ## Cards -/

/-- With at most one save, the storage does not lose objects again. -/
theorem keepsObjects (h : machine.Run es tr s) :
    Screens.ListScreens.KeepsObjects ([] :: es.flatMap Event.saves) := by
  have hle := saves_length_le_one h
  cases hsaves : es.flatMap Event.saves with
  | nil =>
      simp [Screens.ListScreens.KeepsObjects]
  | cons l rest =>
      have hrest : rest = [] := by
        simpa [hsaves] using hle
      simp [Screens.ListScreens.KeepsObjects, hrest]

/-- Cards are never laid out for an empty list, and what they show is the one list that was
saved. -/
theorem saves_eq_of_card (h : machine.Run es tr s) {k : ℕ} {cards : List MuseumObject}
    (hcards : Screens.ListScreens.cardsOn k s.lists = some cards) :
    cards ≠ [] ∧ es.flatMap Event.saves = [cards] := by
  rcases lists_run h with ⟨es', tr', hrun, hhist⟩
  have hkeep := keepsObjects h
  rw [← hhist] at hkeep
  rcases Option.bind_eq_some_iff.1 hcards with ⟨l, hl, hgrid⟩
  rcases Option.bind_eq_some_iff.1 hl with ⟨_, hk, rfl⟩
  have hne := (Screens.ListScreens.gridSafe hrun hkeep hk).cards cards hgrid
  refine ⟨hne, ?_⟩
  -- The cards come from the history, and not from its empty start.
  have hlt := (List.getElem?_eq_some_iff.1 hk).1
  rw [Screens.ListScreens.length_eq hrun] at hlt
  have hmem : cards ∈ [] :: es.flatMap Event.saves := by
    rw [← hhist]
    refine (Screens.ListScreens.follows hrun (List.getElem?_eq_getElem hlt) hk).mem ?_
    simp [Screens.ListScreens.screenStages, hgrid]
  have hsaved : cards ∈ es.flatMap Event.saves := by
    rcases List.mem_cons.1 hmem with hnil | hsaved
    · exact absurd hnil hne
    · exact hsaved
  have hle := saves_length_le_one h
  rcases List.length_eq_one_iff.1 (le_antisymm hle (List.length_pos_of_mem hsaved)) with ⟨l', hl'⟩
  rw [hl'] at hsaved ⊢
  rw [List.mem_singleton.1 hsaved]

/-- A card on screen is for an object that the view model of the screen still has. -/
theorem shows_of_card (h : machine.Run es tr s) {k : ℕ} {cards : List MuseumObject}
    {obj : MuseumObject} (hcards : Screens.ListScreens.cardsOn k s.lists = some cards)
    (hobj : obj ∈ cards) : s.app.shows obj = true := by
  rcases saves_eq_of_card h hcards with ⟨hne, hsaves⟩
  rcases lists_run h with ⟨es', tr', hrun, hhist⟩
  rw [hsaves] at hhist
  rcases Option.bind_eq_some_iff.1 hcards with ⟨l, hl, hgrid⟩
  rcases Option.bind_eq_some_iff.1 hl with ⟨_, hk, rfl⟩
  have hlt := (List.getElem?_eq_some_iff.1 hk).1
  rw [Screens.ListScreens.length_eq hrun] at hlt
  have hvm := List.getElem?_eq_getElem hlt
  have hfollows := Screens.ListScreens.follows hrun hvm hk
  rw [hhist] at hfollows
  have hsub : List.Sublist [some (s.lists.screens.listViewModels[k].objects.value), some cards]
      (Screens.ListScreens.vmStages s.lists.screens.listViewModels[k] ++
        Screens.ListScreens.screenStages (some l)) := by
    simp [Screens.ListScreens.vmStages, Screens.ListScreens.screenStages, hgrid]
  rcases hfollows.older hsub with ⟨p, q, hpq, hq, hp⟩
  -- The cards stand at the second position, and the view model is not behind them.
  have hp1 : p = 1 := by
    rcases p with _ | _ | p
    · exact absurd (Option.some.inj hp).symm hne
    · rfl
    · simp at hp
  have hq1 : q = 1 := by
    have hlen := (List.getElem?_eq_some_iff.1 hq).1
    simp only [List.length_cons, List.length_nil] at hlen
    omega
  subst hq1
  have hvalue : cards = s.lists.screens.listViewModels[k].objects.value := Option.some.inj hq
  rw [hvalue] at hobj
  rw [System.State.shows, List.any_eq_true]
  exact ⟨_, List.getElem_mem hlt, by simpa using hobj⟩

/-! ## The wired app is an app -/

theorem app_simulation :
    Simulation machine System.machine State.app Event.toApp (fun e => [e]) where
  init := rfl
  step := by
    intro es tr s s' e hrun hstep
    rcases moved_of_step hstep with ⟨hcrashed, hmoved⟩
    cases hmoved with
    | createRepository _ happ =>
        exact Or.inr ⟨.background (.launch .repositoryScope), happ, rfl⟩
    | openList _ happ =>
        exact Or.inr ⟨.openList, happ, rfl⟩
    | listScreen _ _ _ =>
        exact Or.inl ⟨rfl, rfl⟩
    | tapCard hcards hobj hnav =>
        rename_i k screen obj cards nav
        refine Or.inr ⟨.navigation (.tapCard screen obj), ?_, rfl⟩
        -- The object is still in the view model, so the tap is one the app knows.
        have hshows := shows_of_card hrun hcards hobj
        simp [System.machine, System.step, hcrashed, System.react, hshows, hnav]
    | app hdirect happ =>
        rename_i e app
        exact Or.inr ⟨e, happ, rfl⟩

theorem app_run (h : machine.Run es tr s) :
    ∃ tr', System.machine.Run (es.flatMap Event.toApp) tr' s.app := by
  rcases app_simulation.run h with ⟨es', tr', hrun, hobs⟩
  rw [List.flatMap_singleton'] at hobs
  subst hobs
  exact ⟨tr', hrun⟩

theorem saves_toApp (es : List Event) :
    (es.flatMap Event.toApp).flatMap System.Event.saves = es.flatMap Event.saves := by
  rw [List.flatMap_assoc]
  rfl

/-! ## What the wiring buys -/

/-- **No composition throws.** Whatever the servers answer, whenever, and whatever the user taps,
`obj!!` is never evaluated on `null` in the app as it is wired. -/
theorem wired_not_crashed (h : machine.Run es tr s) : ∀ s' ∈ tr, s'.app.screens.crashed = false := by
  intro s' hs'
  rcases h.exists_of_mem hs' with ⟨pre, post, tr', rfl, hpre⟩
  rcases app_run hpre with ⟨tra, happ⟩
  refine not_crashed happ ?_
  intro objectId
  rw [saves_toApp]
  have hle := saves_length_le_one hpre
  cases hsaves : pre.flatMap Event.saves with
  | nil =>
      exact List.Pairwise.nil
  | cons l rest =>
      have hrest : rest = [] := by
        simpa [hsaves] using hle
      rw [hrest]
      exact List.pairwise_singleton _ _

/-- **One list of cards.** All cards that any list screen shows at any time of a run, before and
after any number of visits to detail screens, are the cards of one and the same list: it is not
empty, and it is the stored list from the time they appear to the end of the run. -/
theorem cards_eq_stored (h : machine.Run es tr s) :
    ∀ s' ∈ tr, ∀ k cards, Screens.ListScreens.cardsOn k s'.lists = some cards →
      cards ≠ [] ∧ s'.app.background.stored = cards ∧ s.app.background.stored = cards := by
  intro s' hs' k cards hcards
  rcases h.exists_of_mem hs' with ⟨pre, post, tr', rfl, hpre⟩
  rcases saves_eq_of_card hpre hcards with ⟨hne, hsaves⟩
  exact ⟨hne, stored_eq_saves hpre hsaves, stored_eq_saves h (saves_eq_of_append h hsaves)⟩

/-- The objects whose cards were tapped, in order. -/
def tapped (es : List Event) : List MuseumObject :=
  es.filterMap fun
    | .tapCard _ _ obj => some obj
    | _ => none

/-- Every tap opens the next detail screen, for the id of its card. -/
theorem detailScreens_ids (h : machine.Run es tr s) :
    s.app.detailScreens.map (fun d => d.objectId) = (tapped es).map fun it => it.objectID := by
  induction h with
  | init =>
      rfl
  | step _hrun hstep ih =>
      rename_i es tr s s' e
      have htapped : tapped (es ++ [e]) = tapped es ++ tapped [e] := List.filterMap_append
      rw [htapped, List.map_append, ← ih]
      cases (moved_of_step hstep).2 with
      | createRepository _ happ =>
          cases (System.moved_of_step happ).2
          simp [tapped]
      | openList _ happ =>
          cases (System.moved_of_step happ).2
          simp [tapped]
      | listScreen _ _ _ =>
          simp [tapped]
      | tapCard hcards hobj hnav =>
          simp [tapped, DetailScreen.create]
      | app hdirect happ =>
          cases (System.moved_of_step happ).2 with
          | detail hscreens =>
              -- A screen that moves keeps its id.
              rename_i k ev screens
              cases Screens.moved_of_step hscreens with
              | detail hd hev =>
                  rename_i d d'
                  have hid := Screens.DetailScreen.step_objectId hev
                  have hset := map_set_of_eq (f := fun d : DetailScreen => d.objectId) hd hid
                  simpa [tapped, System.State.withScreens, System.State.screens] using hset
          | list hscreens =>
              cases Screens.moved_of_step hscreens
              simp [tapped, System.State.withScreens, System.State.screens]
          | tapCard _ _ =>
              cases hdirect
          | _ =>
              simp [tapped]

/-- A tapped object is one of the list that was saved. -/
theorem saved_of_tapped (h : machine.Run es tr s) {obj : MuseumObject} (hobj : obj ∈ tapped es) :
    ∃ l, es.flatMap Event.saves = [l] ∧ obj ∈ l := by
  rcases List.mem_filterMap.1 hobj with ⟨e, he, htap⟩
  cases e with
  | tapCard k screen obj' =>
      cases htap
      rcases h.step_of_mem he with ⟨pre, post, tr', s₁, s₂, rfl, hpre, hstep, hs₂⟩
      cases (moved_of_step hstep).2 with
      | tapCard hcards hmem hnav =>
          rename_i cards nav
          exact ⟨cards, saves_eq_of_append h (saves_eq_of_card hpre hcards).2, hmem⟩
  | _ =>
      cases htap

/-- A signal that reaches the background part of the wired app is an event of the wired app. -/
theorem mem_of_mem_toBackground {i : ℕ} {sig : Background.Signal}
    (h : .signal i sig ∈ es.flatMap Event.toBackground) :
    .app (.background (.signal i sig)) ∈ es := by
  rcases List.mem_flatMap.1 h with ⟨e, he, hsig⟩
  cases e with
  | app e =>
      have hmem : .signal i sig ∈ [e].flatMap System.Event.toBackground := hsig
      have heq : .background (.signal i sig) = e := by
        simpa using System.mem_of_mem_toBackground hmem
      rw [heq]
      exact he
  | _ =>
      simp [Event.toBackground, Event.toApp, System.Event.toBackground] at hsig

/-- **A tapped card opens its own object.** When no decoded answer repeats an id, the `k`-th tap on a
card opens the `k`-th detail screen, and all that this screen ever shows is the object on the card
that was tapped: the whole record, not only its id. -/
theorem detail_shows_tapped (h : machine.Run es tr s)
    (hids : ∀ i l, .app (.background (.signal i (.fetchEnds (.ok l)))) ∈ es →
      (l.map fun it => it.objectID).Nodup) :
    s.app.detailScreens.length = (tapped es).length ∧
      ∀ (k : ℕ) (obj : MuseumObject) (d : DetailScreen),
        (tapped es)[k]? = some obj → s.app.detailScreens[k]? = some d →
          d.obj = none ∨ d.obj = some obj := by
  have hscreens := detailScreens_ids h
  refine ⟨by simpa using congrArg List.length hscreens, ?_⟩
  intro k obj d hobj hd
  cases hshown : d.obj with
  | none =>
      exact Or.inl rfl
  | some found =>
      -- Both objects are in the one list that was saved, under the same id.
      have hid : d.objectId = obj.objectID := by
        have hget := congrArg (fun ids => ids[k]?) hscreens
        simpa [hd, hobj] using hget
      rcases saved_of_tapped h (List.mem_of_getElem? hobj) with ⟨l, hsaves, hmem⟩
      rcases lists_run h with ⟨es', tr', hrun, hhist⟩
      rcases Screens.ListScreens.screens_run hrun with ⟨trs, hscreensRun⟩
      rcases Screens.obj_saved hscreensRun hd hshown with ⟨hfound, l', hl', hmem'⟩
      have hhist' : [] :: Screens.savedLists (es'.flatMap Screens.ListScreens.Event.toScreens) =
          [] :: es.flatMap Event.saves := hhist
      have hll : l' = l := by
        rw [(List.cons.inj hhist').2, hsaves] at hl'
        exact List.mem_singleton.1 hl'
      rw [hll] at hmem'
      rcases background_run h with ⟨trb, hrunb⟩
      have hidentified := Navigation.identified_of_answers_distinct hrunb fun i l hfetch _ =>
        hids i l (mem_of_mem_toBackground hfetch)
      rw [stored_eq_saves h hsaves, Navigation.identified_iff] at hidentified
      have heq : found = obj :=
        List.inj_on_of_nodup_map hidentified hmem' hmem (hfound.trans hid)
      exact Or.inr (by rw [heq])

/-- From the start of the app to the details of the second of two objects. -/
def firstVisit : List Event :=
  [ .createRepository
  , .openList
  , .app (.background (.signal 0 .dispatched))
  , .app (.list 0 .startSharing)
  , .listScreen 0 .start
  , .app (.background (.signal 0 (.fetchEnds (.ok [wheatField, selfPortrait]))))
  , .app (.background (.signal 0 (.saved [wheatField, selfPortrait])))
  , .app (.list 0 .take)
  , .app (.list 0 .deliver)
  , .listScreen 0 .take
  , .listScreen 0 .deliver
  , .listScreen 0 .recompose
  , .listScreen 0 (.compose true)
  , .tapCard 0 0 selfPortrait
  , .app (.detail 0 .start)
  , .app (.detail 0 .take)
  , .app (.detail 0 .deliver)
  , .app (.detail 0 .recompose)
  , .app (.detail 0 (.compose true)) ]

theorem firstVisit_not_crashed :
    ∃ tr s, machine.Run firstVisit tr s ∧ s.app.screens.crashed = false := by
  have hexec : (machine.exec machine.init firstVisit).map (fun s => s.museumRepository) =
      some true := by
    decide
  rcases Machine.exists_run_of_exec (fun s : State => s.museumRepository) hexec with
    ⟨tr, s, hrun, _⟩
  exact ⟨tr, s, hrun, wired_not_crashed hrun s hrun.last_mem⟩

theorem firstVisit_cards :
    ∃ tr s, machine.Run firstVisit tr s ∧
      s.app.background.stored = [wheatField, selfPortrait] := by
  have hexec : (machine.exec machine.init firstVisit).map
      (fun s => Screens.ListScreens.cardsOn 0 s.lists) =
        some (some [wheatField, selfPortrait]) := by
    decide
  rcases Machine.exists_run_of_exec (fun s : State => Screens.ListScreens.cardsOn 0 s.lists) hexec
    with ⟨tr, s, hrun, hcards⟩
  exact ⟨tr, s, hrun, (cards_eq_stored hrun s hrun.last_mem 0 _ hcards).2.1⟩

theorem firstVisit_details :
    ∃ tr s, machine.Run firstVisit tr s ∧
      s.app.detailScreens.map (fun d => d.obj) = [some selfPortrait] ∧
      s.app.detailScreens.length = 1 ∧
      ∀ d, s.app.detailScreens[0]? = some d → d.obj = none ∨ d.obj = some selfPortrait := by
  have hexec : (machine.exec machine.init firstVisit).map
      (fun s => s.app.detailScreens.map fun d => d.obj) = some [some selfPortrait] := by
    decide
  rcases Machine.exists_run_of_exec
    (fun s : State => s.app.detailScreens.map fun d : DetailScreen => d.obj) hexec with
    ⟨tr, s, hrun, hshown⟩
  have hids : ∀ i l, .app (.background (.signal i (.fetchEnds (.ok l)))) ∈ firstVisit →
      (l.map fun it => it.objectID).Nodup := by
    intro i l hmem
    have hl : i = 0 ∧ l = [wheatField, selfPortrait] := by
      simpa [firstVisit] using hmem
    rw [hl.2]
    decide
  have hdetails := detail_shows_tapped hrun hids
  exact ⟨tr, s, hrun, hshown, hdetails.1, fun d hd => hdetails.2 0 selfPortrait d rfl hd⟩

end Wired
end System
end KmpApp
