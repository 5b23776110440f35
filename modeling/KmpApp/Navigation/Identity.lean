import KmpApp.Background.Store
import KmpApp.Navigation.App

/-!
# Identity — an `objectID` from the server's answer to the screens

The grid uses the `objectID` of an object as the key of its card, and a tap on the card navigates
with that `objectID`, from which the detail screen looks the object up in the stored list.  Both
rest on the ids of a stored list being distinct.

Nothing between decoding and saving establishes that: `refresh` saves the decoded list as it is.
The main result follows the ids along every run of the background coroutines: keys and lookups are
right for every list the storage ever holds if and only if no decoded list that was saved repeats
an `objectID`.
-/

namespace KmpApp
namespace Navigation

open Coroutines Data Compose Transition

/-! ## Cards and lookups -/

/-- An item of the lazy grid: its key, the object on its card and what a tap on the card does. -/
structure GridItem where
  key : Int32
  obj : MuseumObject
  onClick : Nav → Nav

/-- `items(objects, key = { it.objectID }) { obj -> ObjectFrame(obj, onClick = …) }`. -/
def objectGrid (objects : List MuseumObject) (onObjectClick : Int32 → Nav → Nav) : List GridItem :=
  objects.map fun it =>
    { key := it.objectID
      obj := it
      onClick := onObjectClick it.objectID }

/-- The grid of `ListScreen(navigateToDetails = …)` as `App` sets it up. -/
def App.grid (objects : List MuseumObject) : List GridItem :=
  objectGrid objects fun objectId nav => App.navigateToDetails nav objectId

/-- What the detail screen of the current entry finds in the stored list. -/
def detailLookup (nav : Nav) (objects : List MuseumObject) : Option MuseumObject :=
  match nav.currentBackStackEntry with
  | some ⟨_, .detailDestination objectId⟩ => InMemoryMuseumStorage.getObjectById objectId objects
  | _ => none

@[simp] theorem detailLookup_navigateToDetails (nav : Nav) (objectId : Int32)
    (objects : List MuseumObject) :
    detailLookup (App.navigateToDetails nav objectId) objects =
      InMemoryMuseumStorage.getObjectById objectId objects := rfl

/-- The ids of a list do their two jobs: the grid accepts them as keys, and a tap on any card, from
whatever back stack, leads to exactly the object on that card. -/
structure Identified (objects : List MuseumObject) : Prop where
  keys_nodup : ((App.grid objects).map fun item => item.key).Nodup
  tap_finds : ∀ item ∈ App.grid objects, ∀ nav,
    detailLookup (item.onClick nav) objects = some item.obj

/-! ## One list -/

theorem grid_keys (objects : List MuseumObject) :
    (App.grid objects).map (fun item => item.key) = objects.map fun it => it.objectID := by
  simp [App.grid, objectGrid, Function.comp_def]

/-- With distinct ids the first match is the only one. -/
theorem getObjectById_of_mem {objects : List MuseumObject} {obj : MuseumObject}
    (h : (objects.map fun it => it.objectID).Nodup) (hobj : obj ∈ objects) :
    InMemoryMuseumStorage.getObjectById obj.objectID objects = some obj := by
  have hsome : (InMemoryMuseumStorage.getObjectById obj.objectID objects).isSome := by
    rw [InMemoryMuseumStorage.getObjectById, List.find?_isSome]
    exact ⟨obj, hobj, by simp⟩
  rcases Option.isSome_iff_exists.1 hsome with ⟨found, hfound⟩
  have hid : found.objectID = obj.objectID := by
    simpa using List.find?_some hfound
  have hmem : found ∈ objects := List.mem_of_find?_eq_some hfound
  have heq : found = obj := List.inj_on_of_nodup_map h hmem hobj hid
  rw [hfound, heq]

theorem identified_iff {objects : List MuseumObject} :
    Identified objects ↔ (objects.map fun it => it.objectID).Nodup := by
  constructor
  · intro h
    simpa [grid_keys] using h.keys_nodup
  · intro h
    refine ⟨by simpa [grid_keys] using h, ?_⟩
    -- A tap pushes the id of the card, whatever is on the stack, and the lookup goes by that id.
    intro item hitem nav
    rcases List.mem_map.1 hitem with ⟨obj, hobj, rfl⟩
    rw [detailLookup_navigateToDetails]
    exact getObjectById_of_mem h hobj

/-- The initial list and the list a failed refresh saves. -/
theorem identified_nil : Identified [] := by
  rw [identified_iff]
  exact List.nodup_nil

/-! ## Every list the storage ever holds -/

variable {es : List Background.Event} {tr : List Background.State} {s : Background.State}

/-- A stored list is the one of some save, unless it is the initial empty list. -/
theorem stored_eq_nil_or_saved (h : Background.machine.Run es tr s) :
    s.stored = [] ∨ ∃ i, .signal i (.saved s.stored) ∈ es := by
  have hmem : s.stored ∈ [] :: Background.savedLists es := by
    rw [Background.stored_eq_getLastD h]
    exact List.getLastD_mem_cons
  rcases List.mem_cons.1 hmem with hnil | hsaved
  · exact Or.inl hnil
  · exact Or.inr (Background.mem_savedLists.1 hsaved)

/-- Decoded lists with distinct ids are enough. -/
theorem identified_of_answers_distinct (h : Background.machine.Run es tr s)
    (hdistinct : ∀ i l, .signal i (.fetchEnds (.ok l)) ∈ es → .signal i (.saved l) ∈ es →
      (l.map fun it => it.objectID).Nodup) : Identified s.stored := by
  rcases stored_eq_nil_or_saved h with hnil | ⟨i, hsaved⟩
  · rw [hnil]
    exact identified_nil
  · rcases List.append_of_mem hsaved with ⟨pre, post, rfl⟩
    rcases Background.fetch_of_saved h with ⟨r, hr, hok | ⟨e, _, _, hempty⟩⟩
    · -- The list was decoded, and arrives in the storage as it is.
      subst hok
      exact identified_iff.2 (hdistinct i _ (by simp [hr]) hsaved)
    · rw [hempty]
      exact identified_nil

/-- **Identity.** Along a run of the background coroutines, for every list the storage holds the
grid keys are distinct and every card leads to its own object, if and only if no decoded list that
was saved repeats an `objectID`. -/
theorem identified_iff_answers_distinct (h : Background.machine.Run es tr s) :
    (∀ s' ∈ tr, Identified s'.stored) ↔
      ∀ i l, .signal i (.fetchEnds (.ok l)) ∈ es → .signal i (.saved l) ∈ es →
        (l.map fun it => it.objectID).Nodup := by
  constructor
  · intro hall i l _ hsaved
    -- Look at the state right after the save: there the list is the stored one.
    rcases h.step_of_mem hsaved with ⟨pre, post, tr', s₁, s₂, _, hpre, hstep, hmem⟩
    have hstored : s₂.stored = l := by
      rw [Background.State.stored, (Background.step_saved hpre hstep).2]
      simp
    have hident := hall s₂ hmem
    rw [hstored] at hident
    exact identified_iff.1 hident
  · intro hdistinct s' hs'
    rcases h.exists_of_mem hs' with ⟨pre, post, tr', rfl, hpre⟩
    refine identified_of_answers_distinct hpre ?_
    intro i l hfetch hsaved
    exact hdistinct i l (List.mem_append_left post hfetch) (List.mem_append_left post hsaved)

/-- A refresh whose fetch is answered with `l`, up to its save. -/
def refreshWith (l : List MuseumObject) : List Background.Event :=
  [.launch .caller, .signal 0 (.fetchEnds (.ok l)), .signal 0 (.saved l)]

theorem refreshWith_distinct_identified :
    ∃ tr s, Background.machine.Run (refreshWith [wheatField, selfPortrait]) tr s ∧
      s.stored = [wheatField, selfPortrait] ∧ ∀ s' ∈ tr, Identified s'.stored := by
  have hexec : (Background.machine.exec Background.machine.init
      (refreshWith [wheatField, selfPortrait])).map Background.State.stored =
        some [wheatField, selfPortrait] := rfl
  rcases Machine.exists_run_of_exec _ hexec with ⟨tr, s, hrun, hstored⟩
  refine ⟨tr, s, hrun, hstored, (identified_iff_answers_distinct hrun).2 ?_⟩
  intro i l hfetch _
  have hl : i = 0 ∧ l = [wheatField, selfPortrait] := by
    simpa [refreshWith] using hfetch
  rw [hl.2]
  decide

/-- Another object under the id of `wheatField`. -/
def wheatFieldStudy : MuseumObject :=
  { wheatField with title := "Wheat Field with Cypresses (study)" }

/-- An answer that lists one id twice ends up in the storage. -/
theorem not_always_identified :
    ¬ ∀ es tr s, Background.machine.Run es tr s → ∀ s' ∈ tr, Identified s'.stored := by
  intro hall
  have hexec : (Background.machine.exec Background.machine.init
      (refreshWith [wheatField, wheatFieldStudy])).map Background.State.stored =
        some [wheatField, wheatFieldStudy] := rfl
  rcases Machine.exists_run_of_exec _ hexec with ⟨tr, s, hrun, hs⟩
  have hident := hall _ _ _ hrun s hrun.last_mem
  rw [hs, identified_iff] at hident
  simp [wheatFieldStudy] at hident

end Navigation
end KmpApp
