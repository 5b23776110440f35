import KmpApp.Screens.Consistency
import KmpApp.Transition.Pipeline
import KmpApp.Transition.Simulation

/-!
# ListScreen — from the storage to the cards on screen

A stored list reaches the user through a chain of copies, each made whenever its coroutine or its
composition happens to run:

* the sharing coroutine reads the storage and sets `objects` of the `ListViewModel`;
* the collector of `collectAsStateWithLifecycle()` reads that and sets the `objects` state of the
  `ListScreen`;
* a composition of the `ObjectGrid` slot reads the state and lays out the cards.

The screen leaves the composition when the user goes to a detail screen, and enters it again, with
fresh state, on the way back.  The view model stays in between.

`cards_nonRegressing` says that the cards never go back in the history of the storage, across all
of this.
-/

namespace KmpApp
namespace Screens

open Data KmpApp.Flow Compose Transition

/-! ## The screen -/

structure ListScreen where
  objects : List MuseumObject
  collector : Collector (List MuseumObject)
  content : AnimatedContent Bool
  grid : Option (List MuseumObject)

inductive ListScreenEvent
  | enter
  | leave
  | start
  | stop
  | take
  | deliver
  | recompose
  | compose (objectsAvailable : Bool)
  | transitionEnds
  deriving DecidableEq, Repr

namespace ListScreen

/-- `objects.isNotEmpty()`. -/
def objectsAvailable (objects : List MuseumObject) : Bool :=
  !objects.isEmpty

/-- The content lambda of the `AnimatedContent`: the `ObjectGrid` slot reads the state anew, the
other slot puts no cards on screen. -/
def slot (l : ListScreen) (objectsAvailable : Bool) : Option (List MuseumObject) :=
  if objectsAvailable then some l.objects else l.grid

/-- The first composition, with the value of the view model's flow as the initial value. -/
def entered (value : List MuseumObject) : ListScreen :=
  { objects := value
    collector := .inactive
    content := .initial (objectsAvailable value)
    grid := if objectsAvailable value then some value else none }

/-- One step of the screen of a view model whose `objects` is `value`; `none` is a screen that is
not in the composition. -/
def step (value : List MuseumObject) :
    Option ListScreen → ListScreenEvent → Option (Option ListScreen)
  | none, .enter => some (some (entered value))
  | none, _ => none
  | some _, .enter => none
  | some _, .leave => some none
  | some l, .start => l.collector.start.map fun c => some { l with collector := c }
  | some l, .stop => l.collector.stop.map fun c => some { l with collector := c }
  | some l, .take => (l.collector.take value).map fun c => some { l with collector := c }
  | some l, .deliver =>
      l.collector.deliver.map fun vc => some { l with objects := vc.1, collector := vc.2 }
  -- `objects` is one flow for the whole life of the view model: nothing is restarted here.
  | some l, .recompose =>
      some (some { l with content := l.content.updateTarget (objectsAvailable l.objects) })
  | some l, .compose available =>
      if available ∈ l.content.currentlyVisible then
        some (some { l with grid := l.slot available })
      else
        none
  -- With the slot for `true` the grid goes off screen.
  | some l, .transitionEnds =>
      some
        (some
          { l with
            content := l.content.transitionEnds
            grid := if l.content.targetState then l.grid else none })

end ListScreen

/-! ## All list screens over one storage -/

namespace ListScreens

/-- List screen `k` belongs to list view model `k`. -/
structure State where
  screens : Screens.State
  listScreens : List (Option ListScreen)

inductive Event
  | screens (e : Screens.Event)
  | listScreen (k : ℕ) (ev : ListScreenEvent)

/-- `koinViewModel<ListViewModel>()` is called by the first composition of its screen. -/
def composed : Screens.Event → List (Option ListScreen)
  | .openList => [some (.entered ListViewModel.create.objects.value)]
  | _ => []

def step (s : State) : Event → Option State
  | .screens e =>
      (Screens.step s.screens e).map fun screens =>
        { screens := screens
          listScreens := s.listScreens ++ composed e }
  | .listScreen k ev =>
      if s.screens.crashed then
        none
      else
        s.screens.listViewModels[k]?.bind fun vm =>
          (updateAt s.listScreens k fun l => ListScreen.step vm.objects.value l ev).map fun ls =>
            { s with listScreens := ls }

def machine : Machine State Event :=
  { init :=
      { screens := Screens.machine.init
        listScreens := [] }
    step := step }

/-! ## What a step can do -/

/-- Everything an enabled event can do. -/
inductive Moved (s : State) : Event → State → Prop where
  | screens {e : Screens.Event} {screens : Screens.State} :
      Screens.step s.screens e = some screens →
      Moved s (.screens e)
        { screens := screens
          listScreens := s.listScreens ++ composed e }
  | listScreen {k : ℕ} {ev : ListScreenEvent} {vm : ListViewModel} {l l' : Option ListScreen} :
      s.screens.listViewModels[k]? = some vm → s.listScreens[k]? = some l →
      ListScreen.step vm.objects.value l ev = some l' →
      Moved s (.listScreen k ev) { s with listScreens := s.listScreens.set k l' }

variable {s s' : State} {e : Event}

theorem moved_of_step (h : step s e = some s') : Moved s e s' := by
  cases e with
  | screens e =>
      rcases Option.map_eq_some_iff.1 h with ⟨screens, hscreens, rfl⟩
      exact Moved.screens hscreens
  | listScreen k ev =>
      cases hc : s.screens.crashed with
      | true =>
          simp [step, hc] at h
      | false =>
          simp only [step, hc, Bool.false_eq_true, if_false] at h
          rcases Option.bind_eq_some_iff.1 h with ⟨vm, hvm, hmap⟩
          rcases Option.map_eq_some_iff.1 hmap with ⟨ls, hls, rfl⟩
          rcases updateAt_eq_some.1 hls with ⟨l, l', hl, hstep, rfl⟩
          exact Moved.listScreen hvm hl hstep

/-- The events of the views and of the storage, as `KmpApp.Screens.Views` has them. -/
def Event.toScreens : Event → List Screens.Event
  | .screens e => [e]
  | .listScreen _ _ => []

theorem screens_simulation :
    Simulation machine Screens.machine State.screens Event.toScreens (fun e => [e]) where
  init := rfl
  step := by
    intro es tr s s' e _ hstep
    cases moved_of_step hstep with
    | screens hscreens =>
        rename_i e screens
        exact Or.inr ⟨e, hscreens, rfl⟩
    | listScreen _ _ _ =>
        exact Or.inl ⟨rfl, rfl⟩

variable {es : List Event} {tr : List State}

theorem screens_run (h : machine.Run es tr s) :
    ∃ tr', Screens.machine.Run (es.flatMap Event.toScreens) tr' s.screens := by
  rcases screens_simulation.run h with ⟨es', tr', hrun, hobs⟩
  rw [List.flatMap_singleton'] at hobs
  subst hobs
  exact ⟨tr', hrun⟩

/-- The history of the storage along a schedule. -/
def history (es : List Event) : List (List MuseumObject) :=
  Screens.history (es.flatMap Event.toScreens)

theorem history_grows (es : List Event) (e : Event) : history es <+: history (es ++ [e]) := by
  rw [history, history, List.flatMap_append]
  cases e with
  | screens e =>
      simpa [Event.toScreens] using Screens.history_grows (es.flatMap Event.toScreens) e
  | listScreen k ev =>
      simp [Event.toScreens]

theorem length_eq (h : machine.Run es tr s) :
    s.listScreens.length = s.screens.listViewModels.length := by
  induction h with
  | init =>
      rfl
  | step _hrun hstep ih =>
      cases moved_of_step hstep with
      | screens hscreens =>
          cases Screens.moved_of_step hscreens <;> simp [composed, ih]
      | listScreen _ _ _ =>
          simp [ih]

/-! ## The stages between the storage and the cards -/

/-- The value that a collector has read and not handed over yet, and the value after it. -/
def vmStages (vm : ListViewModel) : List (Option (List MuseumObject)) :=
  [vm.sharing.read?, some vm.objects.value]

def screenStages (l : Option ListScreen) : List (Option (List MuseumObject)) :=
  [l.bind fun l => l.collector.read?, l.map fun l => l.objects, l.bind fun l => l.grid]

/-- The view model reads the storage, sets its flow, or only starts and stops. -/
theorem follows_sharing {H vs : List (List MuseumObject)} {rest : List (Option (List MuseumObject))}
    {stored : List MuseumObject} {vm vm' : ListViewModel} {ev : ListEvent}
    (h : Follows H (vmStages vm ++ rest) vs) (hlast : H.getLast? = some stored)
    (hstep : vm.step stored ev = some vm') : Follows H (vmStages vm' ++ rest) vs := by
  cases ev with
  | startSharing =>
      rcases Option.map_eq_some_iff.1 hstep with ⟨c, hc, rfl⟩
      simp only [vmStages, Collector.start_read? hc]
      exact h.passes (Passes.clear _ _)
  | stopSharing =>
      rcases Option.map_eq_some_iff.1 hstep with ⟨c, hc, rfl⟩
      simp only [vmStages, Collector.stop_read? hc]
      exact h.passes (Passes.clear _ _)
  | take =>
      rcases Option.map_eq_some_iff.1 hstep with ⟨c, hc, rfl⟩
      rw [Collector.take_eq_some hc]
      exact h.load hlast
  | deliver =>
      rcases Option.map_eq_some_iff.1 hstep with ⟨⟨v, c⟩, hc, rfl⟩
      rcases Collector.deliver_eq_some hc with ⟨hv, rfl⟩
      simp only [vmStages, hv, Collector.read?, MutableStateFlow.setValue_value] at h ⊢
      exact h.passes ((Passes.copy _ _ _).trans (Passes.clear _ _))

/-- The screen copies from its view model or from itself, or forgets. -/
theorem passes_screen {value : List MuseumObject} {l l' : Option ListScreen} {ev : ListScreenEvent}
    (hstep : ListScreen.step value l ev = some l') :
    Passes (some value :: screenStages l) (some value :: screenStages l') := by
  cases l with
  | none =>
      cases ev with
      | enter =>
          rw [← Option.some.inj hstep]
          -- Through the collector's place, which is empty again afterwards.
          have hcopy : Passes [some value, none, none, none] [some value, none, some value, none] :=
            ((Passes.copy _ _ _).trans (Passes.cons _ (Passes.copy _ _ _))).trans
              (Passes.cons _ (Passes.clear _ _))
          by_cases hvalue : ListScreen.objectsAvailable value = true
          · simp only [screenStages, ListScreen.entered, hvalue]
            exact hcopy.trans (Passes.cons _ (Passes.cons _ (Passes.copy _ _ _)))
          · simp only [screenStages, ListScreen.entered, hvalue]
            exact hcopy
      | _ =>
          cases hstep
  | some l =>
      cases ev with
      | enter =>
          cases hstep
      | leave =>
          rw [← Option.some.inj hstep]
          exact Passes.cons _ ((Passes.clear _ _).trans (Passes.cons _ ((Passes.clear _ _).trans
            (Passes.cons _ (Passes.clear _ _)))))
      | start =>
          rcases Option.map_eq_some_iff.1 hstep with ⟨c, hc, rfl⟩
          simp only [screenStages, Option.bind_some, Option.map_some, Collector.start_read? hc]
          exact Passes.cons _ (Passes.clear _ _)
      | stop =>
          rcases Option.map_eq_some_iff.1 hstep with ⟨c, hc, rfl⟩
          simp only [screenStages, Option.bind_some, Option.map_some, Collector.stop_read? hc]
          exact Passes.cons _ (Passes.clear _ _)
      | take =>
          rcases Option.map_eq_some_iff.1 hstep with ⟨c, hc, rfl⟩
          rw [Collector.take_eq_some hc]
          exact Passes.copy _ _ _
      | deliver =>
          rcases Option.map_eq_some_iff.1 hstep with ⟨⟨v, c⟩, hc, rfl⟩
          rcases Collector.deliver_eq_some hc with ⟨hv, rfl⟩
          simp only [screenStages, Option.bind_some, Option.map_some, hv, Collector.read?]
          exact Passes.cons _ ((Passes.copy _ _ _).trans (Passes.clear _ _))
      | recompose =>
          rw [← Option.some.inj hstep]
          exact Passes.refl _
      | compose available =>
          by_cases hvis : available ∈ l.content.currentlyVisible
          · simp only [ListScreen.step, hvis, if_true, Option.some.injEq] at hstep
            subst hstep
            cases available with
            | true =>
                exact Passes.cons _ (Passes.cons _ (Passes.copy _ _ _))
            | false =>
                exact Passes.refl _
          · simp [ListScreen.step, hvis] at hstep
      | transitionEnds =>
          rw [← Option.some.inj hstep]
          cases l.content.targetState with
          | true =>
              exact Passes.refl _
          | false =>
              exact Passes.cons _ (Passes.cons _ (Passes.cons _ (Passes.clear _ _)))

/-! ## Runs -/

/-- The cards that list screen `k` shows, if its grid is on screen. -/
def cardsOn (k : ℕ) (s : State) : Option (List MuseumObject) :=
  (s.listScreens[k]?.bind id).bind fun l => l.grid

/-- The successive cards of list screen `k` along a run. -/
def cardsIn (k : ℕ) (tr : List State) : List (List MuseumObject) :=
  tr.filterMap (cardsOn k)

theorem cardsIn_nil (h : machine.Run es tr s) {k : ℕ} (hk : s.listScreens.length ≤ k) :
    cardsIn k tr = [] := by
  induction h with
  | init =>
      rfl
  | step _hrun hstep ih =>
      have hnone := List.getElem?_eq_none_iff.2 hk
      have hle : ∀ {s s' : State} {e : Event}, Moved s e s' →
          s.listScreens.length ≤ s'.listScreens.length := by
        intro s s' e hmoved
        cases hmoved <;> simp
      have hold := ih (le_trans (hle (moved_of_step hstep)) hk)
      simp only [cardsIn] at hold
      simp [cardsIn, hold, cardsOn, hnone]

/-- The cards are looked at after every step. -/
theorem follows_observe {H vs : List (List MuseumObject)} {vm : ListViewModel}
    {l : Option ListScreen} (h : Follows H (vmStages vm ++ screenStages l) vs) :
    Follows H (vmStages vm ++ screenStages l) (vs ++ (l.bind fun l => l.grid).toList) := by
  have hsplit : vmStages vm ++ screenStages l =
      (vmStages vm ++ (screenStages l).take 2) ++ [l.bind fun l => l.grid] := by
    simp [screenStages]
  rw [hsplit] at h ⊢
  cases hgrid : l.bind fun l => l.grid with
  | none =>
      rw [hgrid] at h
      simpa using h
  | some cards =>
      rw [hgrid] at h
      exact h.observe

theorem cardsIn_concat {k : ℕ} {l : Option ListScreen} (hl : s.listScreens[k]? = some l) :
    cardsIn k (tr ++ [s]) = cardsIn k tr ++ (l.bind fun l => l.grid).toList := by
  cases hgrid : l.bind fun l => l.grid <;> simp [cardsIn, cardsOn, hl, hgrid]

/-- Whatever the schedule, nothing older than the last cards is left between storage and screen. -/
theorem follows (h : machine.Run es tr s) {k : ℕ} {vm : ListViewModel} {l : Option ListScreen}
    (hvm : s.screens.listViewModels[k]? = some vm) (hl : s.listScreens[k]? = some l) :
    Follows (history es) (vmStages vm ++ screenStages l) ([] :: cardsIn k tr) := by
  induction h generalizing vm l with
  | init =>
      cases hvm
  | step hrun hstep ih =>
      rename_i es tr s s' e
      rw [cardsIn_concat hl, ← List.cons_append]
      refine follows_observe ?_
      have hlen := length_eq hrun
      cases moved_of_step hstep with
      | screens hscreens =>
          rename_i e screens
          rcases (Screens.moved_of_step hscreens).listViewModel hvm with
            ⟨hnone, rfl⟩ | ⟨vm₀, hvm₀, hmove⟩
          · -- A new view model, and the first composition of its screen.
            have hk : s.listScreens.length ≤ k := by
              rw [hlen]
              exact List.getElem?_eq_none_iff.1 hnone
            rw [cardsIn_nil hrun hk]
            have hentered : l = some (.entered []) := by
              rw [List.getElem?_append_right hk] at hl
              cases e with
              | openList =>
                  have hmem := List.mem_of_getElem? hl
                  simpa [composed, ListViewModel.create] using hmem
              | _ =>
                  simp [composed] at hl
            rw [hentered]
            exact ⟨0, ViewTo.first rfl, 0, Nat.zero_le _, rfl, 0, le_rfl, rfl, le_rfl⟩
          · have hk : k < s.listScreens.length := by
              rw [hlen]
              exact (List.getElem?_eq_some_iff.1 hvm₀).1
            rw [List.getElem?_append_left hk] at hl
            have hold := ih hvm₀ hl
            rcases hmove with rfl | ⟨ev, rfl, hev⟩
            · exact hold.mono (history_grows _ _)
            · -- A step of the sharing coroutine saves nothing.
              have hsame : history (es ++ [.screens (.list k ev)]) = history es := by
                simp [history, Event.toScreens, Screens.history, Screens.savedLists,
                  Screens.Event.saves]
              rw [hsame]
              rcases screens_run hrun with ⟨trs, hscreensRun⟩
              exact follows_sharing hold (history_getLast? hscreensRun) hev
      | listScreen hvm₁ hl₁ hev =>
          rename_i j ev vm₁ l₁ l₁'
          have hsame : history (es ++ [.listScreen j ev]) = history es := by
            simp [history, Event.toScreens]
          rw [hsame]
          rcases getElem?_set_cases hl with ⟨rfl, rfl⟩ | ⟨_, hold⟩
          · have hvmEq : vm₁ = vm := Option.some.inj (hvm₁.symm.trans hvm)
            subst hvmEq
            exact (ih hvm hl₁).passes (Passes.cons _ (passes_screen hev))
          · exact ih hvm hold

/-- **The cards never go back.** In every run, with any number of refreshes, view models, screens
that leave and come back, and any order of the copies in between, the cards on a list screen are
elements of the history of the storage at non-decreasing positions. -/
theorem cards_nonRegressing (h : machine.Run es tr s) (k : ℕ) :
    NonRegressing (history es) ([] :: cardsIn k tr) := by
  by_cases hk : k < s.listScreens.length
  · have hk' : k < s.screens.listViewModels.length := by
      rw [← length_eq h]
      exact hk
    exact (follows h (List.getElem?_eq_getElem hk') (List.getElem?_eq_getElem hk)).nonRegressing
  · rw [cardsIn_nil h (Nat.le_of_not_lt hk)]
    exact (ViewTo.first rfl).nonRegressing

/-- The objects arrive, the user goes to a detail screen and comes back. -/
def thereAndBack : List Event :=
  [ .screens .openList
  , .screens (.list 0 .startSharing)
  , .screens (.refresh (.ok [wheatField]))
  , .screens (.list 0 .take)
  , .screens (.list 0 .deliver)
  , .listScreen 0 .start
  , .listScreen 0 .take
  , .listScreen 0 .deliver
  , .listScreen 0 .recompose
  , .listScreen 0 (.compose true)
  , .listScreen 0 .leave
  , .screens (.openDetail 436535)
  , .listScreen 0 .enter ]

theorem thereAndBack_cards :
    ∃ tr s, machine.Run thereAndBack tr s ∧ cardsOn 0 s = some [wheatField] ∧
      NonRegressing [[], [wheatField]] ([] :: cardsIn 0 tr) := by
  have hexec : (machine.exec machine.init thereAndBack).map (cardsOn 0) =
      some (some [wheatField]) := by
    decide
  rcases Machine.exists_run_of_exec (cardsOn 0) hexec with ⟨tr, s, hrun, hcards⟩
  exact ⟨tr, s, hrun, hcards, cards_nonRegressing hrun 0⟩

/-! ## The grid and the empty screen -/

/-- Once the storage has objects it keeps having some. -/
def KeepsObjects (H : List (List MuseumObject)) : Prop :=
  H.Pairwise fun l l' => l ≠ [] → l' ≠ []

theorem KeepsObjects.ne_nil {H : List (List MuseumObject)} (h : KeepsObjects H) {p q : ℕ}
    (hpq : p ≤ q) {l l' : List MuseumObject} (hp : H[p]? = some l) (hq : H[q]? = some l')
    (hl : l ≠ []) : l' ≠ [] := by
  rcases Nat.lt_or_eq_of_le hpq with hlt | rfl
  · rcases List.getElem?_eq_some_iff.1 hp with ⟨hp', rfl⟩
    rcases List.getElem?_eq_some_iff.1 hq with ⟨hq', rfl⟩
    exact List.pairwise_iff_getElem.1 h p q hp' hq' hlt hl
  · have hll : l = l' := Option.some.inj (hp.symm.trans hq)
    rw [← hll]
    exact hl

/-- The slot for `true` is on screen only with objects, and so are the cards. -/
structure GridSafe (l : ListScreen) : Prop where
  visible : true ∈ l.content.currentlyVisible → l.objects ≠ []
  cards : ∀ cards, l.grid = some cards → cards ≠ []

theorem objectsAvailable_iff {objects : List MuseumObject} :
    ListScreen.objectsAvailable objects = true ↔ objects ≠ [] := by
  cases objects <;> simp [ListScreen.objectsAvailable]

theorem gridSafe_entered (value : List MuseumObject) : GridSafe (.entered value) where
  visible := by
    intro hvis
    have havail : ListScreen.objectsAvailable value = true := by
      simpa [ListScreen.entered, AnimatedContent.initial] using hvis
    exact objectsAvailable_iff.1 havail
  cards := by
    intro cards hcards
    by_cases havail : ListScreen.objectsAvailable value = true
    · have heq : value = cards := by
        simpa [ListScreen.entered, havail] using hcards
      rw [← heq]
      exact objectsAvailable_iff.1 havail
    · simp [ListScreen.entered, havail] at hcards

/-- One step of a screen whose collector reads nothing older than what the screen has. -/
theorem GridSafe.step {value : List MuseumObject} {l l' : ListScreen} {ev : ListScreenEvent}
    (h : GridSafe l)
    (hread : ∀ v, l.collector.read? = some v → l.objects ≠ [] → v ≠ [])
    (hstep : ListScreen.step value (some l) ev = some (some l')) : GridSafe l' := by
  cases ev with
  | enter =>
      cases hstep
  | leave =>
      cases hstep
  | deliver =>
      rcases Option.map_eq_some_iff.1 hstep with ⟨⟨v, c⟩, hc, heq⟩
      rcases Collector.deliver_eq_some hc with ⟨hv, rfl⟩
      cases heq
      exact ⟨fun hvis => hread v (by rw [hv]; rfl) (h.visible hvis), h.cards⟩
  | recompose =>
      cases hstep
      refine ⟨fun hvis => ?_, h.cards⟩
      rcases AnimatedContent.mem_updateTarget.1 hvis with hold | hnew
      · exact h.visible hold
      · exact objectsAvailable_iff.1 hnew.symm
  | compose available =>
      by_cases hvis : available ∈ l.content.currentlyVisible
      · simp only [ListScreen.step, hvis, if_true, Option.some.injEq] at hstep
        subst hstep
        refine ⟨h.visible, ?_⟩
        intro cards hcards
        cases available with
        | true =>
            cases hcards
            exact h.visible hvis
        | false =>
            exact h.cards cards hcards
      · simp [ListScreen.step, hvis] at hstep
  | transitionEnds =>
      cases hstep
      refine ⟨fun hvis => h.visible (AnimatedContent.mem_transitionEnds hvis), ?_⟩
      intro cards hcards
      cases htarget : l.content.targetState with
      | true =>
          exact h.cards cards (by simpa [htarget] using hcards)
      | false =>
          simp [htarget] at hcards
  | _ =>
      rcases Option.map_eq_some_iff.1 hstep with ⟨c, _, heq⟩
      cases heq
      exact ⟨h.visible, h.cards⟩

theorem gridSafe (h : machine.Run es tr s) (hkeep : KeepsObjects (history es)) {k : ℕ}
    {l : ListScreen} (hl : s.listScreens[k]? = some (some l)) : GridSafe l := by
  induction h generalizing k l with
  | init =>
      cases hl
  | step hrun hstep ih =>
      rename_i es tr s s' e
      have hkeep' : KeepsObjects (history es) := hkeep.sublist (history_grows es e).sublist
      cases moved_of_step hstep with
      | screens hscreens =>
          rename_i e screens
          by_cases hk : k < s.listScreens.length
          · rw [List.getElem?_append_left hk] at hl
            exact ih hkeep' hl
          · rw [List.getElem?_append_right (Nat.le_of_not_lt hk)] at hl
            cases e with
            | openList =>
                have hmem := List.mem_of_getElem? hl
                have heq : l = .entered ListViewModel.create.objects.value := by
                  simpa [composed] using hmem
                rw [heq]
                exact gridSafe_entered _
            | _ =>
                simp [composed] at hl
      | listScreen hvm hl₁ hev =>
          rename_i j ev vm l₁ l₁'
          rcases getElem?_set_cases hl with ⟨rfl, rfl⟩ | ⟨_, hold⟩
          · cases l₁ with
            | none =>
                cases ev with
                | enter =>
                    have heq : .entered vm.objects.value = l := by
                      simpa [ListScreen.step] using hev
                    rw [← heq]
                    exact gridSafe_entered _
                | _ =>
                    cases hev
            | some l₀ =>
                refine (ih hkeep' hl₁).step ?_ hev
                intro v hv hobjects
                -- What the collector has read is not older than what the screen shows.
                have hsub : List.Sublist [some v, some l₀.objects]
                    (vmStages vm ++ screenStages (some l₀)) := by
                  simp [vmStages, screenStages, hv]
                rcases (follows hrun hvm hl₁).older hsub with ⟨p, q, hpq, hq, hp⟩
                exact hkeep'.ne_nil hpq hp hq hobjects
          · exact ih hkeep' hold

end ListScreens

end Screens
end KmpApp
