import Mathlib.Data.List.Basic

/-!
# Runtime — the UI library pieces that keep old screens alive

Two library components decide which content is still on screen after the state moved on:

* `AnimatedContent` — keeps composing the content of an outgoing target until the transition ends,
  each content with the target value it was created for;
* `NavController` — a back stack of entries, together with the entries whose exit transition is
  still running and whose callbacks can therefore still fire.

Both are generic in the states (targets, destinations) they hold.
-/

namespace KmpApp
namespace Compose

universe u

/-! ## AnimatedContent -/

/-- The contents on screen, one for each target still visible; the current target is one of them. -/
structure AnimatedContent (S : Type u) where
  targetState : S
  currentlyVisible : List S
  target_mem : targetState ∈ currentlyVisible

namespace AnimatedContent

variable {S : Type u}

def initial (target : S) : AnimatedContent S :=
  { targetState := target
    currentlyVisible := [target]
    target_mem := by simp }

/-- A recomposition of the caller hands over a new target.  A target that is still visible keeps
its content, any other one enters beside the contents that now leave. -/
def updateTarget [DecidableEq S] (content : AnimatedContent S) (target : S) : AnimatedContent S :=
  if h : target ∈ content.currentlyVisible then
    { content with
      targetState := target
      target_mem := h }
  else
    { targetState := target
      currentlyVisible := content.currentlyVisible ++ [target]
      target_mem := by simp }

/-- The running transition ends: only the content of the target stays. -/
def transitionEnds (content : AnimatedContent S) : AnimatedContent S :=
  initial content.targetState

theorem mem_updateTarget [DecidableEq S] {content : AnimatedContent S} {target s : S} :
    s ∈ (content.updateTarget target).currentlyVisible ↔
      s ∈ content.currentlyVisible ∨ s = target := by
  by_cases h : target ∈ content.currentlyVisible
  · simp only [updateTarget, h, dif_pos]
    constructor
    · intro hs
      exact Or.inl hs
    · rintro (hs | rfl)
      · exact hs
      · exact h
  · simp [updateTarget, h]

theorem mem_transitionEnds {content : AnimatedContent S} {s : S}
    (h : s ∈ content.transitionEnds.currentlyVisible) : s ∈ content.currentlyVisible := by
  have hs : s = content.targetState := by
    simpa [transitionEnds, initial] using h
  subst hs
  exact content.target_mem

end AnimatedContent

/-! ## Navigation -/

/-- An entry of the back stack; the `id` tells two visits of one destination apart. -/
structure NavBackStackEntry (D : Type u) where
  id : ℕ
  destination : D
  deriving DecidableEq, Repr

/-- The back stack, top entry first, with the entries whose exit transition is still running. -/
structure NavController (D : Type u) where
  backStack : List (NavBackStackEntry D)
  outgoing : List (NavBackStackEntry D)
  nextId : ℕ
  deriving DecidableEq, Repr

namespace NavController

variable {D : Type u}

/-- `NavHost(startDestination = …)`. -/
def start (startDestination : D) : NavController D :=
  { backStack := [{ id := 0, destination := startDestination }]
    outgoing := []
    nextId := 1 }

def currentBackStackEntry (nav : NavController D) : Option (NavBackStackEntry D) :=
  nav.backStack.head?

/-- The entries that are on screen: the top of the stack and the ones still leaving. -/
def composed (nav : NavController D) : List (NavBackStackEntry D) :=
  nav.currentBackStackEntry.toList ++ nav.outgoing

/-- Push a new entry; the former top entry starts to leave. -/
def navigate (nav : NavController D) (d : D) : NavController D :=
  { backStack := { id := nav.nextId, destination := d } :: nav.backStack
    outgoing := nav.currentBackStackEntry.toList ++ nav.outgoing
    nextId := nav.nextId + 1 }

/-- Remove the top entry, whichever it is.  It starts to leave, and the entry below it comes back
on screen even if its own exit transition was still running. -/
def popBackStack (nav : NavController D) : NavController D :=
  match nav.backStack with
  | [] => nav
  | top :: rest =>
      -- An id belongs to one entry, so the filter takes out the entry that comes back.
      { backStack := rest
        outgoing := top :: nav.outgoing.filter fun e => rest.head?.map (·.id) ≠ some e.id
        nextId := nav.nextId }

/-- The exit transition of the entry with this `id` ends. -/
def transitionEnds (nav : NavController D) (id : ℕ) : NavController D :=
  { nav with outgoing := nav.outgoing.filter fun e => e.id ≠ id }

@[simp] theorem navigate_backStack (nav : NavController D) (d : D) :
    (nav.navigate d).backStack = { id := nav.nextId, destination := d } :: nav.backStack := rfl

@[simp] theorem popBackStack_backStack (nav : NavController D) :
    nav.popBackStack.backStack = nav.backStack.tail := by
  cases h : nav.backStack with
  | nil =>
      simp [popBackStack, h]
  | cons top rest =>
      simp [popBackStack, h]

@[simp] theorem transitionEnds_backStack (nav : NavController D) (id : ℕ) :
    (nav.transitionEnds id).backStack = nav.backStack := rfl

theorem popBackStack_nextId (nav : NavController D) : nav.popBackStack.nextId = nav.nextId := by
  cases h : nav.backStack with
  | nil =>
      simp [popBackStack, h]
  | cons top rest =>
      simp [popBackStack, h]

/-- All entries that are in the stack or still leaving. -/
def entries (nav : NavController D) : List (NavBackStackEntry D) :=
  nav.backStack ++ nav.outgoing

theorem mem_entries_navigate {nav : NavController D} {d : D} {entry : NavBackStackEntry D}
    (h : entry ∈ (nav.navigate d).entries) :
    entry = { id := nav.nextId, destination := d } ∨ entry ∈ nav.entries := by
  have htop : entry ∈ nav.currentBackStackEntry.toList → entry ∈ nav.entries := by
    intro htop
    have hhead : nav.backStack.head? = some entry := by
      simpa [currentBackStackEntry] using htop
    exact List.mem_append_left _ (List.mem_of_head? hhead)
  simp only [entries, navigate, List.cons_append, List.mem_cons, List.mem_append] at h
  rcases h with rfl | hstack | hleft | hout
  · exact Or.inl rfl
  · exact Or.inr (List.mem_append_left _ hstack)
  · exact Or.inr (htop hleft)
  · exact Or.inr (List.mem_append_right _ hout)

theorem mem_entries_popBackStack {nav : NavController D} {entry : NavBackStackEntry D}
    (h : entry ∈ nav.popBackStack.entries) : entry ∈ nav.entries := by
  cases hstack : nav.backStack with
  | nil =>
      simpa [popBackStack, hstack] using h
  | cons top rest =>
      -- The popped entry and what was leaving before it.
      simp only [entries, popBackStack, hstack, List.mem_append, List.mem_cons] at h ⊢
      rcases h with hrest | rfl | hout
      · exact Or.inl (Or.inr hrest)
      · exact Or.inl (Or.inl rfl)
      · exact Or.inr (List.mem_of_mem_filter hout)

theorem mem_entries_transitionEnds {nav : NavController D} {id : ℕ} {entry : NavBackStackEntry D}
    (h : entry ∈ (nav.transitionEnds id).entries) : entry ∈ nav.entries := by
  rcases List.mem_append.1 h with hstack | hout
  · exact List.mem_append_left _ hstack
  · exact List.mem_append_right _ (List.mem_of_mem_filter hout)

end NavController

end Compose
end KmpApp
