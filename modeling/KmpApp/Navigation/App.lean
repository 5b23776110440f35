import KmpApp.Compose.Runtime
import KmpApp.Data.Museum
import KmpApp.Transition.Run

/-!
# App — navigation between the list and the detail screens

`App` gives the list screen a callback that navigates to a detail destination, and every detail
screen a callback that pops the back stack.  The callbacks act on the stack as it is when they fire,
and a screen whose exit transition is still running can fire them too.

`popBackStack()` removes the top entry whichever it is, so a second tap on a back arrow that is
already leaving removes the entry below.  The main result says exactly when the back stack stays
what it should be, the list at the bottom and details above: as long as the back arrows have not
been tapped more often than cards.
-/

namespace KmpApp
namespace Navigation

open Data Compose Transition

/-! ## Destinations and callbacks -/

inductive Destination
  | listDestination
  | detailDestination (objectId : Int32)
  deriving DecidableEq, Repr

abbrev Nav := NavController Destination

namespace App

/-- `navigateToDetails = { objectId -> navController.navigate(DetailDestination(objectId)) }`. -/
def navigateToDetails (nav : Nav) (objectId : Int32) : Nav :=
  nav.navigate (.detailDestination objectId)

/-- `navigateBack = { navController.popBackStack() }`. -/
def navigateBack (nav : Nav) : Nav :=
  nav.popBackStack

end App

/-! ## User actions -/

/-- A tap on a card of the list screen shown for an entry, a tap on the back arrow of the detail
screen shown for an entry, or the end of the exit transition of an entry. -/
inductive Event
  | tapCard (screen : ℕ) (obj : MuseumObject)
  | tapBack (screen : ℕ)
  | transitionEnds (screen : ℕ)
  deriving DecidableEq, Repr

/-- The destination of a screen that is composed at the moment. -/
def screenAt (nav : Nav) (screen : ℕ) : Option Destination :=
  (nav.composed.find? fun entry => entry.id == screen).map fun entry => entry.destination

def step (nav : Nav) : Event → Option Nav
  -- A screen reacts as long as it is composed, also while it is leaving.
  | .tapCard screen obj =>
      match screenAt nav screen with
      | some .listDestination => some (App.navigateToDetails nav obj.objectID)
      | _ => none
  | .tapBack screen =>
      match screenAt nav screen with
      | some (.detailDestination _) => some (App.navigateBack nav)
      | _ => none
  | .transitionEnds screen => some (nav.transitionEnds screen)

def machine : Machine Nav Event :=
  { init := .start .listDestination
    step := step }

/-- Everything an enabled event can do. -/
inductive Moved (nav : Nav) : Event → Nav → Prop where
  | tapCard {screen : ℕ} (obj : MuseumObject) :
      screenAt nav screen = some .listDestination →
      Moved nav (.tapCard screen obj) (App.navigateToDetails nav obj.objectID)
  | tapBack {screen : ℕ} {objectId : Int32} :
      screenAt nav screen = some (.detailDestination objectId) →
      Moved nav (.tapBack screen) (App.navigateBack nav)
  | transitionEnds (screen : ℕ) :
      Moved nav (.transitionEnds screen) (nav.transitionEnds screen)

theorem moved_of_step {nav nav' : Nav} {e : Event} (h : step nav e = some nav') :
    Moved nav e nav' := by
  cases e with
  | tapCard screen obj =>
      cases hs : screenAt nav screen with
      | none =>
          simp [step, hs] at h
      | some destination =>
          cases destination with
          | listDestination =>
              have hnav : App.navigateToDetails nav obj.objectID = nav' := by
                simpa [step, hs] using h
              subst hnav
              exact Moved.tapCard obj hs
          | detailDestination objectId =>
              simp [step, hs] at h
  | tapBack screen =>
      cases hs : screenAt nav screen with
      | none =>
          simp [step, hs] at h
      | some destination =>
          cases destination with
          | listDestination =>
              simp [step, hs] at h
          | detailDestination objectId =>
              have hnav : App.navigateBack nav = nav' := by
                simpa [step, hs] using h
              subst hnav
              exact Moved.tapBack hs
  | transitionEnds screen =>
      rw [← Option.some.inj h]
      exact Moved.transitionEnds screen

/-! ## The back-stack invariant -/

/-- Not empty, the list at the bottom, and nothing but details above it. -/
def WellFormed (backStack : List (NavBackStackEntry Destination)) : Prop :=
  ∃ above : List Int32,
    backStack.map (fun entry => entry.destination) =
      above.map Destination.detailDestination ++ [.listDestination]

theorem wellFormed_start : WellFormed machine.init.backStack :=
  ⟨[], rfl⟩

theorem WellFormed.length_pos {backStack : List (NavBackStackEntry Destination)}
    (h : WellFormed backStack) : 0 < backStack.length := by
  rcases h with ⟨above, habove⟩
  have hlen := congrArg List.length habove
  simp only [List.length_map, List.length_append, List.length_singleton] at hlen
  omega

theorem WellFormed.push {backStack : List (NavBackStackEntry Destination)} (h : WellFormed backStack)
    (id : ℕ) (objectId : Int32) :
    WellFormed ({ id := id, destination := .detailDestination objectId } :: backStack) := by
  rcases h with ⟨above, habove⟩
  exact ⟨objectId :: above, by simp [habove]⟩

/-- Popping is harmless as long as there is something above the list. -/
theorem WellFormed.pop {backStack : List (NavBackStackEntry Destination)} (h : WellFormed backStack)
    (hlen : 2 ≤ backStack.length) : WellFormed backStack.tail := by
  rcases h with ⟨above, habove⟩
  cases above with
  | nil =>
      -- Only the list is there, so the stack is too low to be popped.
      have hone := congrArg List.length habove
      simp only [List.length_map, List.map_nil, List.nil_append, List.length_singleton] at hone
      omega
  | cons objectId above =>
      refine ⟨above, ?_⟩
      rw [List.map_tail, habove]
      rfl

/-- At most one entry, at the bottom, is not a detail. -/
def DetailsAbove (backStack : List (NavBackStackEntry Destination)) : Prop :=
  ∃ (above : List Int32) (bottom : List Destination), bottom.length ≤ 1 ∧
    backStack.map (fun entry => entry.destination) =
      above.map Destination.detailDestination ++ bottom

theorem detailsAbove_start : DetailsAbove machine.init.backStack :=
  ⟨[], [.listDestination], le_rfl, rfl⟩

theorem DetailsAbove.pop {backStack : List (NavBackStackEntry Destination)}
    (h : DetailsAbove backStack) : DetailsAbove backStack.tail := by
  rcases h with ⟨above, bottom, hbottom, hstack⟩
  cases above with
  | nil =>
      refine ⟨[], bottom.tail, ?_, ?_⟩
      · rw [List.length_tail]
        omega
      · rw [List.map_tail, hstack]
        rfl
  | cons objectId above =>
      refine ⟨above, bottom, hbottom, ?_⟩
      rw [List.map_tail, hstack]
      rfl

theorem DetailsAbove.step {nav nav' : Nav} {e : Event} (h : DetailsAbove nav.backStack)
    (hmoved : Moved nav e nav') : DetailsAbove nav'.backStack := by
  cases hmoved with
  | tapCard obj _ =>
      rcases h with ⟨above, bottom, hbottom, hstack⟩
      exact ⟨obj.objectID :: above, bottom, hbottom, by simp [App.navigateToDetails, hstack]⟩
  | tapBack _ =>
      rw [App.navigateBack, NavController.popBackStack_backStack]
      exact h.pop
  | transitionEnds screen =>
      exact h

/-- The top entry is on screen, so where it is a detail its arrow can be tapped. -/
theorem tapBack_top {nav : Nav} (h : DetailsAbove nav.backStack)
    (hlen : 1 < nav.backStack.length) :
    ∃ screen, step nav (.tapBack screen) = some nav.popBackStack := by
  rcases h with ⟨above, bottom, hbottom, hstack⟩
  cases hback : nav.backStack with
  | nil =>
      simp [hback] at hlen
  | cons top rest =>
      rw [hback] at hstack hlen
      refine ⟨top.id, ?_⟩
      cases above with
      | nil =>
          -- Then there is one entry at most.
          have hone := congrArg List.length hstack
          simp only [List.length_map, List.length_cons, List.map_nil, List.nil_append] at hone hlen
          omega
      | cons objectId above =>
          have htop : top.destination = .detailDestination objectId := (List.cons.inj hstack).1
          have hscreen : screenAt nav top.id = some (.detailDestination objectId) := by
            simp [screenAt, NavController.composed, NavController.currentBackStackEntry, hback, htop]
          simp [step, hscreen, App.navigateBack]

/-! ## Counting taps -/

def Event.isCardTap : Event → Bool
  | .tapCard _ _ => true
  | _ => false

def Event.isBackTap : Event → Bool
  | .tapBack _ => true
  | _ => false

def cardTaps (es : List Event) : ℕ :=
  es.countP Event.isCardTap

def backTaps (es : List Event) : ℕ :=
  es.countP Event.isBackTap

theorem cardTaps_concat (es : List Event) (e : Event) :
    cardTaps (es ++ [e]) = cardTaps es + if e.isCardTap then 1 else 0 := by
  simp [cardTaps, List.countP_append, List.countP_cons]

theorem backTaps_concat (es : List Event) (e : Event) :
    backTaps (es ++ [e]) = backTaps es + if e.isBackTap then 1 else 0 := by
  simp [backTaps, List.countP_append, List.countP_cons]

/-- An entry is put on the stack or taken off it. -/
inductive StackOp
  | push
  | pop
  deriving DecidableEq, Repr

def Event.stackOps : Event → List StackOp
  | .tapCard _ _ => [.push]
  | .tapBack _ => [.pop]
  | .transitionEnds _ => []

theorem count_push_stackOps (es : List Event) :
    (es.flatMap Event.stackOps).count .push = cardTaps es := by
  induction es with
  | nil =>
      rfl
  | cons e es ih =>
      rw [List.flatMap_cons, List.count_append, ih, cardTaps, cardTaps, List.countP_cons,
        Nat.add_comm]
      cases e <;> rfl

theorem count_pop_stackOps (es : List Event) :
    (es.flatMap Event.stackOps).count .pop = backTaps es := by
  induction es with
  | nil =>
      rfl
  | cons e es ih =>
      rw [List.flatMap_cons, List.count_append, ih, backTaps, backTaps, List.countP_cons,
        Nat.add_comm]
      cases e <;> rfl

variable {es : List Event} {tr : List Nav} {nav : Nav}

/-- While no state has an empty stack, the height of the stack counts the taps. -/
theorem length_add_backTaps (h : machine.Run es tr nav)
    (hne : ∀ nav' ∈ tr, 0 < nav'.backStack.length) :
    nav.backStack.length + backTaps es = 1 + cardTaps es := by
  induction h with
  | init =>
      rfl
  | step hrun hstep ih =>
      rename_i es tr nav nav' e
      have hbefore := ih fun nav₁ hnav₁ => hne nav₁ (List.mem_append_left _ hnav₁)
      have hpos := hne nav (List.mem_append_left _ hrun.last_mem)
      cases moved_of_step hstep with
      -- One entry more for a card, one less for a back arrow unless the stack is empty.
      | tapCard obj _ =>
          simp only [App.navigateToDetails, NavController.navigate_backStack, List.length_cons,
            backTaps_concat, cardTaps_concat, Event.isBackTap, Event.isCardTap]
          simp only [Bool.false_eq_true, if_false, if_true]
          omega
      | tapBack _ =>
          simp only [App.navigateBack, NavController.popBackStack_backStack, List.length_tail,
            backTaps_concat, cardTaps_concat, Event.isBackTap, Event.isCardTap]
          simp only [Bool.false_eq_true, if_false, if_true]
          omega
      | transitionEnds screen =>
          simpa [backTaps_concat, cardTaps_concat, Event.isBackTap, Event.isCardTap] using hbefore

/-- As long as the back arrows are not ahead of the cards, the stack is well formed. -/
theorem wellFormed_of_taps (h : machine.Run es tr nav)
    (htaps : ∀ pre, pre <+: es → backTaps pre ≤ cardTaps pre) :
    ∀ nav' ∈ tr, WellFormed nav'.backStack := by
  induction h with
  | init =>
      intro nav' hnav'
      have hstart : nav' = machine.init := by
        simpa using hnav'
      rw [hstart]
      exact wellFormed_start
  | step hrun hstep ih =>
      rename_i es tr nav nav' e
      have hnow := htaps (es ++ [e]) (List.prefix_refl _)
      have hbefore := ih fun pre hpre => htaps pre (hpre.trans (List.prefix_append _ _))
      have hwf := hbefore nav hrun.last_mem
      -- So far the stack was never empty, hence its height counts the taps.
      have hlen := length_add_backTaps hrun fun nav₁ hnav₁ => (hbefore nav₁ hnav₁).length_pos
      intro nav₁ hnav₁
      rcases List.mem_append.1 hnav₁ with hold | hnew
      · exact hbefore nav₁ hold
      · have hlast : nav₁ = nav' := by
          simpa using hnew
        rw [hlast]
        cases moved_of_step hstep with
        | tapCard obj _ =>
            exact hwf.push nav.nextId obj.objectID
        | tapBack _ =>
            -- The taps so far leave room for one more pop.
            rw [App.navigateBack, NavController.popBackStack_backStack]
            simp only [backTaps_concat, cardTaps_concat, Event.isBackTap, Event.isCardTap,
              Bool.false_eq_true, if_false, if_true] at hnow
            exact hwf.pop (by omega)
        | transitionEnds screen =>
            exact hwf

/-- **The back stack.** Along a run, the back stack is never empty, has the list at the bottom and
only details above, if and only if at no point the back arrows have been tapped more often than
cards. -/
theorem backStack_wellFormed_iff (h : machine.Run es tr nav) :
    (∀ nav' ∈ tr, WellFormed nav'.backStack) ↔
      ∀ pre, pre <+: es → backTaps pre ≤ cardTaps pre := by
  constructor
  · rintro hwf pre ⟨post, rfl⟩
    rcases h.split with ⟨tr', nav', hpre, hle⟩
    have hne : ∀ nav₁ ∈ tr', 0 < nav₁.backStack.length := fun nav₁ hnav₁ =>
      (hwf nav₁ (hle.subset hnav₁)).length_pos
    have hlen := length_add_backTaps hpre hne
    have hpos := hne nav' hpre.last_mem
    omega
  · exact wellFormed_of_taps h

/-- To a detail screen and back, waiting for the transition in between. -/
def thereAndBack : List Event :=
  [.tapCard 0 wheatField, .transitionEnds 0, .tapBack 1]

theorem thereAndBack_wellFormed :
    ∃ tr nav, machine.Run thereAndBack tr nav ∧ ∀ nav' ∈ tr, WellFormed nav'.backStack := by
  have hexec : (machine.exec machine.init thereAndBack).map (fun nav => nav.backStack.length) =
      some 1 := by
    decide
  rcases Machine.exists_run_of_exec _ hexec with ⟨tr, nav, hrun, _⟩
  refine ⟨tr, nav, hrun, (backStack_wellFormed_iff hrun).2 ?_⟩
  intro pre hpre
  have hinits : pre ∈ thereAndBack.inits := (List.mem_inits _ _).2 hpre
  simp only [thereAndBack, List.inits, List.map_cons, List.map_nil, List.mem_cons,
    List.not_mem_nil, or_false] at hinits
  rcases hinits with rfl | rfl | rfl | rfl <;> decide

/-- A double tap on the back arrow: the second tap comes while the detail screen is leaving. -/
theorem not_always_wellFormed :
    ¬ ∀ es tr nav, machine.Run es tr nav → ∀ nav' ∈ tr, WellFormed nav'.backStack := by
  intro hall
  have hexec : (machine.exec machine.init
      [.tapCard 0 wheatField, .tapBack 1, .tapBack 1]).map (fun nav => nav.backStack.length) =
        some 0 := by
    decide
  rcases Machine.exists_run_of_exec _ hexec with ⟨tr, nav, hrun, hempty⟩
  have hpos := (hall _ _ _ hrun nav hrun.last_mem).length_pos
  omega

end Navigation
end KmpApp
