import KmpApp.Screens.Views

/-!
# Consistency — the views never go back

Every list view model and every detail screen is an observer of the one storage: whatever the order
of saves, of collectors starting, stopping and restarting, and of deliveries, the values it shows
are taken from the history of the storage at non-decreasing positions.

For a detail screen this bounds how often `obj` changes by the number of saves.  A change of `obj`
makes the screen recompose, a recomposition restarts the collector, and the restarted collector
writes `obj`; since a run with finitely many saves changes `obj` finitely often, this loop dies out.
-/

namespace KmpApp
namespace Screens

open Data KmpApp.Flow Transition

/-- The successive values of `objects` of view model `k` along a run. -/
def objectsValues (k : ℕ) (tr : List State) : List (List MuseumObject) :=
  tr.filterMap fun s => s.listViewModels[k]?.map fun vm => vm.objects.value

/-- The `obj` state of detail screen `k`, if that screen is there. -/
def objAt (k : ℕ) (s : State) : Option (Option MuseumObject) :=
  s.detailScreens[k]?.map fun d => d.obj

/-- The successive values of `obj` of detail screen `k` along a run. -/
def objValues (k : ℕ) (tr : List State) : List (Option MuseumObject) :=
  tr.filterMap (objAt k)

/-! ## The views as observers -/

theorem history_grows (es : List Event) (e : Event) : history es <+: history (es ++ [e]) := by
  rw [history, history, savedLists_concat]
  exact List.prefix_append ([] :: savedLists es) e.saves

theorem listViewModel_observed (k : ℕ) :
    Observed machine history [] fun s : State =>
      s.listViewModels[k]?.map fun vm => (id, vm.observer) where
  head := fun _ => rfl
  grows := history_grows
  init := rfl
  gone := by
    intro s s' e hstep hnone
    have hle := (moved_of_step hstep).length_le.1
    simp only [Option.map_eq_none_iff, List.getElem?_eq_none_iff] at hnone ⊢
    exact le_trans hle hnone
  step := by
    intro es tr s s' e f o' hrun hstep hget
    rcases Option.map_eq_some_iff.1 hget with ⟨vm', hvm', heq⟩
    cases heq
    rcases (moved_of_step hstep).listViewModel hvm' with ⟨hnone, rfl⟩ | ⟨vm, hvm, hmove⟩
    · exact Or.inl ⟨by simp [hnone], rfl⟩
    · refine Or.inr ⟨vm.observer, by simp [hvm], ?_⟩
      rcases hmove with rfl | ⟨ev, rfl, hev⟩
      · exact Or.inl rfl
      · -- A step of the view model saves nothing.
        refine Or.inr ⟨by simp [history, savedLists_concat, Event.saves], s.stored, ?_, ?_⟩
        · exact history_getLast? hrun
        · exact ListViewModel.observer_step hev

theorem detailScreen_observed (k : ℕ) :
    Observed machine history [] fun s : State =>
      s.detailScreens[k]?.map fun d =>
        (InMemoryMuseumStorage.getObjectById d.objectId, d.observer) where
  head := fun _ => rfl
  grows := history_grows
  init := rfl
  gone := by
    intro s s' e hstep hnone
    have hle := (moved_of_step hstep).length_le.2
    simp only [Option.map_eq_none_iff, List.getElem?_eq_none_iff] at hnone ⊢
    exact le_trans hle hnone
  step := by
    intro es tr s s' e f o' hrun hstep hget
    rcases Option.map_eq_some_iff.1 hget with ⟨d', hd', heq⟩
    cases heq
    rcases (moved_of_step hstep).detailScreen hd' with ⟨hnone, objectId, rfl⟩ | ⟨d, hd, hmove⟩
    · exact Or.inl ⟨by simp [hnone], rfl⟩
    · rcases hmove with rfl | ⟨ev, rfl, hev⟩
      · exact Or.inr ⟨d'.observer, by simp [hd], Or.inl rfl⟩
      · -- Neither does a step of the screen, and it keeps the id it looks up.
        have hid := DetailScreen.step_objectId hev
        refine Or.inr ⟨d.observer, by simp [hd, hid], Or.inr ?_⟩
        refine ⟨by simp [history, savedLists_concat, Event.saves], s.stored, ?_, ?_⟩
        · exact history_getLast? hrun
        · rw [hid]
          exact DetailScreen.observer_step hev

/-! ## What they show -/

variable {es : List Event} {tr : List State} {s : State}

theorem objects_nonRegressing (h : machine.Run es tr s) (k : ℕ) :
    NonRegressing (history es) (objectsValues k tr) := by
  have hshown : shownIn (fun s : State =>
      s.listViewModels[k]?.map fun vm => (@id (List MuseumObject), vm.observer)) tr =
        objectsValues k tr := by
    simp only [shownIn, objectsValues, Option.map_map]
    rfl
  rw [← hshown]
  cases hvm : s.listViewModels[k]? with
  -- View models stay, so one that is not there at the end has never shown anything.
  | none =>
      rw [(listViewModel_observed k).shownIn_nil h (by simp [hvm])]
      exact nonRegressing_nil _
  | some vm =>
      have htracks := (listViewModel_observed k).tracks h (f := id) (o := vm.observer)
        (by simp [hvm])
      simpa using htracks.nonRegressing

theorem obj_tracks (h : machine.Run es tr s) {k : ℕ} {d : DetailScreen}
    (hd : s.detailScreens[k]? = some d) :
    d.observer.Tracks (InMemoryMuseumStorage.getObjectById d.objectId) (history es)
      (objValues k tr) := by
  have hshown : shownIn (fun s : State =>
      s.detailScreens[k]?.map fun d =>
        (InMemoryMuseumStorage.getObjectById d.objectId, d.observer)) tr = objValues k tr := by
    simp only [shownIn, objValues, Option.map_map]
    rfl
  rw [← hshown]
  exact (detailScreen_observed k).tracks h (by simp [hd])

/-- An object on a detail screen has the id of the screen and was saved by some refresh. -/
theorem obj_saved (h : machine.Run es tr s) {k : ℕ} {d : DetailScreen} {obj : MuseumObject}
    (hd : s.detailScreens[k]? = some d) (hobj : d.obj = some obj) :
    obj.objectID = d.objectId ∧ ∃ l ∈ savedLists es, obj ∈ l := by
  rcases (obj_tracks h hd).exists_mem with ⟨l, hl, hshown⟩
  have hfind : InMemoryMuseumStorage.getObjectById d.objectId l = some obj :=
    hshown.symm.trans hobj
  refine ⟨by simpa using List.find?_some hfind, ?_⟩
  rcases List.mem_cons.1 hl with rfl | hsaved
  · -- Nothing is found in the initial list.
    cases hfind
  · exact ⟨l, hsaved, List.mem_of_find?_eq_some hfind⟩

theorem changes_objValues_le (h : machine.Run es tr s) (k : ℕ) :
    changes (objValues k tr) ≤ (savedLists es).length := by
  cases hd : s.detailScreens[k]? with
  | none =>
      have hnil := (detailScreen_observed k).shownIn_nil h (by simp [hd])
      have hvalues : objValues k tr = [] := by
        simpa [shownIn, objValues, objAt, Option.map_map] using hnil
      simp [hvalues, changes]
  | some d =>
      have hle := (obj_tracks h hd).changes_le
      simpa [history] using hle

theorem isSome_objAt {k : ℕ} : (objAt k s).isSome ↔ k < s.detailScreens.length := by
  simp [objAt]

/-- In an infinite run with boundedly many saves, `obj` is the same from some time on. -/
theorem obj_settles (p : machine.Path) (k : ℕ) {n : ℕ}
    (hn : ∀ t, (savedLists (p.events t)).length ≤ n) :
    ∃ T, ∀ t, T ≤ t → objAt k (p.state t) = objAt k (p.state T) := by
  have hstay : ∀ t, (objAt k (p.state t)).isSome → (objAt k (p.state (t + 1))).isSome := by
    intro t hsome
    have hle := (moved_of_step (p.valid t)).length_le.2
    exact isSome_objAt.2 (lt_of_lt_of_le (isSome_objAt.1 hsome) hle)
  -- The changes up to time `t` are bounded by the saves up to then, hence by `n`.
  refine eventually_constant hstay (B := n) fun t => ?_
  have hvalues : objValues k (p.visited t) =
      (List.range (t + 1)).filterMap fun t => objAt k (p.state t) := by
    simp [objValues, Machine.Path.visited, List.filterMap_map]
  rw [← hvalues]
  exact le_trans (changes_objValues_le (p.run t) k) (hn t)

/-- **Consistent, never-regressing views of one store.** In every run, the values of every list view
model are elements of the history at non-decreasing positions, the values of every detail screen
are the lookups of its id in such elements, and `obj` changes at most once for each save; in an
infinite run with boundedly many saves it stops changing. -/
theorem views_nonRegressing :
    (∀ es tr s, machine.Run es tr s →
      (∀ k, NonRegressing (history es) (objectsValues k tr)) ∧
      (∀ k d, s.detailScreens[k]? = some d →
        NonRegressing
          ((history es).map fun objects => objects.find? fun it => it.objectID == d.objectId)
          (objValues k tr) ∧
        changes (objValues k tr) ≤ (savedLists es).length)) ∧
    (∀ (p : machine.Path) (k n : ℕ), (∀ t, (savedLists (p.events t)).length ≤ n) →
      ∃ T, ∀ t, T ≤ t → objAt k (p.state t) = objAt k (p.state T)) := by
  refine ⟨?_, fun p k n hn => obj_settles p k hn⟩
  intro es tr s h
  refine ⟨objects_nonRegressing h, ?_⟩
  intro k d hd
  exact ⟨(obj_tracks h hd).nonRegressing, changes_objValues_le h k⟩

/-- A detail screen that is opened before the objects arrive. -/
def openedEarly : List Event :=
  [ .openDetail 436535
  , .detail 0 .start
  , .detail 0 .take
  , .detail 0 .deliver
  , .refresh (.ok [wheatField])
  , .detail 0 .take
  , .detail 0 .deliver
  , .detail 0 .recompose
  , .detail 0 .take
  , .detail 0 .deliver ]

theorem openedEarly_changes :
    ∃ tr s, machine.Run openedEarly tr s ∧ objAt 0 s = some (some wheatField) ∧
      changes (objValues 0 tr) ≤ 1 := by
  have hexec : (machine.exec machine.init openedEarly).map (objAt 0) = some (some (some wheatField)) := by
    decide
  rcases Machine.exists_run_of_exec (objAt 0) hexec with ⟨tr, s, hrun, hobj⟩
  rcases Option.map_eq_some_iff.1 hobj with ⟨d, hd, _⟩
  have hle := ((views_nonRegressing.1 _ _ _ hrun).2 0 d hd).2
  have hsaves : (savedLists openedEarly).length = 1 := by
    decide
  rw [hsaves] at hle
  exact ⟨tr, s, hrun, hobj, hle⟩

end Screens
end KmpApp
