import KmpApp.Background.Containment
import KmpApp.Navigation.Identity
import KmpApp.Screens.Detail
import KmpApp.System.Machine

/-!
# Safety — what holds of the whole app

Two results about runs of the whole app:

* `entry_shows_own_object` — the screen behind a detail entry, in the stack or still leaving, was
  opened for the id of that entry, and whatever it shows has that id and was saved by a refresh;
* `safe_of_run` — when the servers answer well and the user does not go back more often than forth,
  the app is safe in every state: exceptions are contained, the back stack is in order, ids identify
  objects, and no composition throws.

Both are put together from the parts by the simulations of `KmpApp.System.Machine`.
-/

namespace KmpApp
namespace System

open Data Compose Transition
open Navigation (Nav Destination)
open Screens (DetailScreen)

/-! ## Entries and their screens -/

/-- The entry with id `k + 1` belongs to detail screen `k`. -/
structure EntriesMatch (s : State) : Prop where
  nextId : s.nav.nextId = s.detailScreens.length + 1
  screen : ∀ entry ∈ s.nav.entries, ∀ objectId,
    entry.destination = .detailDestination objectId →
      ∃ k d, entry.id = k + 1 ∧ s.detailScreens[k]? = some d ∧ d.objectId = objectId

namespace EntriesMatch

variable {s : State}

theorem init : EntriesMatch machine.init where
  nextId := rfl
  screen := by
    intro entry hentry objectId hdest
    have hstart : entry = { id := 0, destination := .listDestination } := by
      simpa [machine, Navigation.machine, NavController.start, NavController.entries] using hentry
    rw [hstart] at hdest
    cases hdest

/-- Views that move, but keep their ids. -/
theorem withScreens (h : EntriesMatch s) {screens : Screens.State}
    (hlen : screens.detailScreens.length = s.detailScreens.length)
    (hkeep : ∀ (k : ℕ) (d : DetailScreen), s.detailScreens[k]? = some d →
      ∃ d', screens.detailScreens[k]? = some d' ∧ d'.objectId = d.objectId) :
    EntriesMatch (s.withScreens screens) where
  nextId := by
    rw [State.withScreens, hlen]
    exact h.nextId
  screen := by
    intro entry hentry objectId hdest
    rcases h.screen entry hentry objectId hdest with ⟨k, d, hid, hd, hobj⟩
    rcases hkeep k d hd with ⟨d', hd', hobj'⟩
    exact ⟨k, d', hid, hd', hobj'.trans hobj⟩

/-- A navigation step that brings no new entry. -/
theorem withNav (h : EntriesMatch s) {nav : Nav} (hnext : nav.nextId = s.nav.nextId)
    (hle : ∀ entry ∈ nav.entries, entry ∈ s.nav.entries) :
    EntriesMatch { s with nav := nav } where
  nextId := hnext.trans h.nextId
  screen := fun entry hentry => h.screen entry (hle entry hentry)

/-- The new entry gets the next id, and its screen the next place. -/
theorem tapCard (h : EntriesMatch s) (objectId : Int32) :
    EntriesMatch
      { s with
        nav := Navigation.App.navigateToDetails s.nav objectId
        detailScreens := s.detailScreens ++ [.create objectId] } where
  nextId := by
    simp [Navigation.App.navigateToDetails, NavController.navigate, h.nextId]
  screen := by
    intro entry hentry objectId' hdest
    rcases NavController.mem_entries_navigate hentry with rfl | hold
    · -- The new entry: its screen is the one that was just opened.
      cases hdest
      exact ⟨s.detailScreens.length, .create objectId, h.nextId, by simp, rfl⟩
    · rcases h.screen entry hold objectId' hdest with ⟨k, d, hid, hd, hobj⟩
      have hlt : k < s.detailScreens.length := (List.getElem?_eq_some_iff.1 hd).1
      refine ⟨k, d, hid, ?_, hobj⟩
      rw [List.getElem?_append_left hlt]
      exact hd

end EntriesMatch

variable {es : List Event} {tr : List State} {s s' : State}

theorem EntriesMatch.step {e : Event} (h : EntriesMatch s) (hmoved : Moved s e s') :
    EntriesMatch s' := by
  cases hmoved with
  | background _ =>
      exact ⟨h.nextId, h.screen⟩
  | openList _ =>
      exact ⟨h.nextId, h.screen⟩
  | list hscreens =>
      cases Screens.moved_of_step hscreens with
      | list _ _ =>
          exact h.withScreens rfl fun k d hd => ⟨d, hd, rfl⟩
  | detail hscreens =>
      cases Screens.moved_of_step hscreens with
      | detail hd hstep =>
          rename_i k ev d d'
          refine h.withScreens (by simp [State.screens]) ?_
          intro j d₀ hd₀
          by_cases hj : k = j
          · -- The screen that took the step: its id does not change.
            subst hj
            have hsame : d = d₀ := Option.some.inj (hd.symm.trans hd₀)
            subst hsame
            have hlt : k < s.screens.detailScreens.length := (List.getElem?_eq_some_iff.1 hd).1
            exact ⟨d', List.getElem?_set_self hlt, Screens.DetailScreen.step_objectId hstep⟩
          · refine ⟨d₀, ?_, rfl⟩
            rw [List.getElem?_set_ne hj]
            exact hd₀
  | tapCard _hshows hnav =>
      rename_i screen obj nav
      cases Navigation.moved_of_step hnav with
      | tapCard _ _ =>
          exact h.tapCard obj.objectID
  | navigation htap hnav =>
      cases Navigation.moved_of_step hnav with
      | tapCard obj _ =>
          cases htap
      | tapBack _ =>
          refine h.withNav ?_ fun entry hentry => NavController.mem_entries_popBackStack hentry
          exact NavController.popBackStack_nextId s.nav
      | transitionEnds screen =>
          exact h.withNav rfl fun entry hentry =>
            NavController.mem_entries_transitionEnds hentry
  | systemBack _ =>
      refine h.withNav ?_ fun entry hentry => NavController.mem_entries_popBackStack hentry
      exact NavController.popBackStack_nextId s.nav

theorem entriesMatch (h : machine.Run es tr s) : EntriesMatch s := by
  induction h with
  | init =>
      exact EntriesMatch.init
  | step _hrun hstep ih =>
      exact ih.step (moved_of_step hstep).2

/-- **From a card to its object.** In every run, a detail entry that is in the stack or still
leaving has its own detail screen, opened for the id of the entry; and the object on that screen, if
there is one, has this id and is an element of a list that a refresh saved. -/
theorem entry_shows_own_object (h : machine.Run es tr s) {entry : NavBackStackEntry Destination}
    {objectId : Int32} (hentry : entry ∈ s.nav.entries)
    (hdest : entry.destination = .detailDestination objectId) :
    ∃ k d, entry.id = k + 1 ∧ s.detailScreens[k]? = some d ∧ d.objectId = objectId ∧
      ∀ obj, d.obj = some obj →
        obj.objectID = objectId ∧ ∃ l ∈ es.flatMap Event.saves, obj ∈ l := by
  rcases (entriesMatch h).screen entry hentry objectId hdest with ⟨k, d, hid, hd, hobjectId⟩
  refine ⟨k, d, hid, hd, hobjectId, ?_⟩
  intro obj hobj
  rcases screens_simulation.run h with ⟨es', tr', hrun, hsaves⟩
  have hsaved := Screens.obj_saved hrun hd hobj
  rw [hobjectId, Screens.savedLists, hsaves] at hsaved
  exact hsaved

/-- The objects arrive, the list shows them, and the user opens the first one. -/
def visit : List Event :=
  [ .background (.launch .repositoryScope)
  , .openList
  , .background (.signal 0 .dispatched)
  , .list 0 .startSharing
  , .background (.signal 0 (.fetchEnds (.ok [wheatField])))
  , .background (.signal 0 (.saved [wheatField]))
  , .list 0 .take
  , .list 0 .deliver
  , .navigation (.tapCard 0 wheatField)
  , .detail 0 .start
  , .detail 0 .take
  , .detail 0 .deliver
  , .navigation (.transitionEnds 0) ]

example : (machine.exec machine.init visit).map (fun s => s.detailScreens.map fun d => d.obj) =
    some [some wheatField] := by
  decide

theorem visit_entry :
    ∃ tr s, machine.Run visit tr s ∧
      ∃ k d, 1 = k + 1 ∧ s.detailScreens[k]? = some d ∧ d.objectId = 436535 ∧
        ∀ obj, d.obj = some obj →
          obj.objectID = 436535 ∧ ∃ l ∈ visit.flatMap Event.saves, obj ∈ l := by
  have hexec : (machine.exec machine.init visit).map (fun s => s.nav.entries) =
      some
        [ { id := 1, destination := .detailDestination 436535 }
        , { id := 0, destination := .listDestination } ] := by
    decide
  rcases Machine.exists_run_of_exec (fun s : State => s.nav.entries) hexec with ⟨tr, s, hrun, hnav⟩
  have hentry : { id := 1, destination := .detailDestination 436535 } ∈ s.nav.entries := by
    rw [hnav]
    exact List.mem_cons_self
  exact ⟨tr, s, hrun, entry_shows_own_object hrun hentry rfl⟩

/-! ## The safe app -/

structure Safe (s : State) : Prop where
  contained : Background.Contained s.background
  wellFormed : Navigation.WellFormed s.nav.backStack
  identified : Navigation.Identified s.background.stored
  running : s.screens.crashed = false

/-- What the app relies on: chat streams end with `OK`, no decoded answer repeats an id, no save
drops an object of an earlier save, and the user never goes back, by an arrow or by the system's own
back, more often than cards were tapped. -/
structure GoodRun (es : List Event) : Prop where
  streams : ∀ i code, .background (.signal i (.streamEnds code)) ∈ es → code = .ok
  answers : ∀ i l, .background (.signal i (.fetchEnds (.ok l))) ∈ es →
    (l.map fun it => it.objectID).Nodup
  saves : ∀ objectId, (es.flatMap Event.saves).Pairwise fun l l' =>
    Screens.hasObject objectId l = true → Screens.hasObject objectId l' = true
  taps : ∀ ops, ops <+: es.flatMap Event.stackOps → ops.count .pop ≤ ops.count .push

theorem GoodRun.of_append {pre post : List Event} (h : GoodRun (pre ++ post)) : GoodRun pre where
  streams := fun i code hmem => h.streams i code (List.mem_append_left _ hmem)
  answers := fun i l hmem => h.answers i l (List.mem_append_left _ hmem)
  saves := by
    intro objectId
    have hall := h.saves objectId
    rw [List.flatMap_append, List.pairwise_append] at hall
    exact hall.1
  taps := by
    intro ops hops
    apply h.taps
    rw [List.flatMap_append]
    exact hops.trans (List.prefix_append _ _)

/-- A signal that reaches the background part of the app is an event of the app. -/
theorem mem_of_mem_toBackground {i : ℕ} {sig : Background.Signal}
    (h : .signal i sig ∈ es.flatMap Event.toBackground) :
    .background (.signal i sig) ∈ es := by
  rcases List.mem_flatMap.1 h with ⟨e, he, hsig⟩
  cases e with
  | background e =>
      have heq : .signal i sig = e := by
        simpa [Event.toBackground] using hsig
      rw [heq]
      exact he
  | openList =>
      simp [Event.toBackground] at hsig
  | _ =>
      cases hsig

theorem not_crashed (h : machine.Run es tr s)
    (hsaves : ∀ objectId, (es.flatMap Event.saves).Pairwise fun l l' =>
      Screens.hasObject objectId l = true → Screens.hasObject objectId l' = true) :
    s.screens.crashed = false := by
  rcases screens_simulation.run h with ⟨es', tr', hrun, hobs⟩
  rw [Screens.State.crashed, List.any_eq_false]
  intro d hd
  have hkeeps : Screens.KeepsObject d.objectId (Screens.refreshesOf es') := by
    apply Screens.keepsObject_of_pairwise
    rw [Screens.savedLists, hobs]
    exact hsaves d.objectId
  rcases List.getElem?_of_mem hd with ⟨k, hk⟩
  simp [(Screens.slotsSafe hrun hkeeps k d hk rfl).no_crash]

theorem backStack_wellFormed (h : machine.Run es tr s)
    (htaps : ∀ ops, ops <+: es.flatMap Event.stackOps → ops.count .pop ≤ ops.count .push) :
    Navigation.WellFormed s.nav.backStack := by
  rcases navigation_simulation.run h with ⟨es', tr', hrun, hobs⟩
  refine Navigation.wellFormed_of_taps hrun ?_ _ hrun.last_mem
  -- The taps that stand for the run do the same to the stack, up to every point.
  rintro pre ⟨post, rfl⟩
  rw [← Navigation.count_pop_stackOps, ← Navigation.count_push_stackOps]
  apply htaps
  rw [← hobs, List.flatMap_append]
  exact List.prefix_append _ _

/-- **The app is safe in good runs**, in every state on the way. -/
theorem safe_of_run (h : machine.Run es tr s) (hgood : GoodRun es) : ∀ s' ∈ tr, Safe s' := by
  intro s' hs'
  -- Each part runs by itself up to the state in question.
  rcases h.exists_of_mem hs' with ⟨pre, post, tr', rfl, hpre⟩
  have hgood' := hgood.of_append
  rcases background_run hpre with ⟨trb, hbackground⟩
  refine ⟨?_, backStack_wellFormed hpre hgood'.taps, ?_, not_crashed hpre hgood'.saves⟩
  · refine Background.contained_of_streams_ok hbackground ?_
    intro i code hmem
    exact hgood'.streams i code (mem_of_mem_toBackground hmem)
  · refine Navigation.identified_of_answers_distinct hbackground ?_
    intro i l hfetch _
    exact hgood'.answers i l (mem_of_mem_toBackground hfetch)

/-- Two refreshes that list the same objects and a chat that ends well; the user opens both objects,
and goes back by the arrow from one and by the system from the other. -/
def wholeVisit : List Event :=
  [ .background (.launch .repositoryScope)
  , .openList
  , .background (.signal 0 .dispatched)
  , .background (.signal 1 .dispatched)
  , .background (.signal 1 .logged)
  , .background (.signal 1 .requestPulled)
  , .list 0 .startSharing
  , .background (.signal 0 (.fetchEnds (.ok [wheatField, selfPortrait])))
  , .background (.signal 0 (.saved [wheatField, selfPortrait]))
  , .list 0 .take
  , .list 0 .deliver
  , .navigation (.tapCard 0 selfPortrait)
  , .detail 0 .start
  , .detail 0 .take
  , .detail 0 .deliver
  , .detail 0 .recompose
  , .detail 0 (.compose true)
  , .navigation (.transitionEnds 0)
  , .background (.launch .caller)
  , .background (.signal 2 (.fetchEnds (.ok [selfPortrait, wheatField])))
  , .background (.signal 2 (.saved [selfPortrait, wheatField]))
  , .detail 0 .take
  , .detail 0 .deliver
  , .navigation (.tapBack 1)
  , .background (.signal 1 (.streamEnds .ok))
  , .navigation (.tapCard 0 wheatField)
  , .systemBack ]

theorem wholeVisit_goodRun : GoodRun wholeVisit where
  streams := by
    intro i code hmem
    have hend : i = 1 ∧ code = .ok := by
      simpa [wholeVisit] using hmem
    exact hend.2
  answers := by
    intro i l hmem
    have hl : (i = 0 ∧ l = [wheatField, selfPortrait]) ∨
        (i = 2 ∧ l = [selfPortrait, wheatField]) := by
      simpa [wholeVisit] using hmem
    rcases hl with ⟨_, rfl⟩ | ⟨_, rfl⟩ <;> decide
  saves := by
    intro objectId
    have hsaves : wholeVisit.flatMap Event.saves =
        [[wheatField, selfPortrait], [selfPortrait, wheatField]] := by
      decide
    have hsame : Screens.hasObject objectId [wheatField, selfPortrait] = true →
        Screens.hasObject objectId [selfPortrait, wheatField] = true := by
      rw [Screens.hasObject_eq_true, Screens.hasObject_eq_true]
      rintro ⟨it, hit, hid⟩
      exact ⟨it, (List.Perm.swap _ _ _).mem_iff.1 hit, hid⟩
    rw [hsaves, List.pairwise_pair]
    exact hsame
  taps := by
    intro ops hops
    have hinits : ∀ ops ∈ (wholeVisit.flatMap Event.stackOps).inits,
        ops.count .pop ≤ ops.count .push := by
      decide
    exact hinits ops ((List.mem_inits _ _).2 hops)

theorem wholeVisit_safe :
    ∃ tr s, machine.Run wholeVisit tr s ∧ s.background.stored = [selfPortrait, wheatField] ∧
      ∀ s' ∈ tr, Safe s' := by
  have hexec : (machine.exec machine.init wholeVisit).map (fun s => s.background.stored) =
      some [selfPortrait, wheatField] := by
    decide
  rcases Machine.exists_run_of_exec (fun s : State => s.background.stored) hexec
    with ⟨tr, s, hrun, hstored⟩
  exact ⟨tr, s, hrun, hstored, safe_of_run hrun wholeVisit_goodRun⟩

end System
end KmpApp
