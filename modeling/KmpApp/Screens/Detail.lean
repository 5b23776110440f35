import KmpApp.Screens.Views

/-!
# Detail — when the detail screen dereferences a missing object

`DetailScreen` checks `obj != null` once, when it hands the target to `AnimatedContent`, and
dereferences `obj!!` later, each time the slot of that target is composed.  In between a refresh may
have dropped the object: the slot with `objectAvailable = true` is still on screen while its exit
transition runs, and `obj!!` throws.

The main result says for which sequences of refreshes this cannot happen, whatever the order of
deliveries, recompositions, slot compositions and transitions: exactly those in which no refresh
saves a list without the object after one has saved a list with it.
-/

namespace KmpApp
namespace Screens

open Coroutines Data KmpApp.Flow Compose Transition

/-- The list has an object with this id. -/
def hasObject (objectId : Int32) (objects : List MuseumObject) : Bool :=
  (InMemoryMuseumStorage.getObjectById objectId objects).isSome

/-- No refresh saves a list without the object after an earlier one saved a list with it. -/
def KeepsObject (objectId : Int32) (answers : List FetchResult) : Prop :=
  answers.Pairwise fun r r' =>
    ∀ l ∈ MuseumRepository.saves r, ∀ l' ∈ MuseumRepository.saves r',
      hasObject objectId l = true → hasObject objectId l' = true

theorem hasObject_eq_true {objectId : Int32} {objects : List MuseumObject} :
    hasObject objectId objects = true ↔ ∃ it ∈ objects, it.objectID = objectId := by
  rw [hasObject, InMemoryMuseumStorage.getObjectById, List.find?_isSome]
  simp

/-- The condition, on how the fetches end: after an answer with the object, a fetch is cancelled or
has the object in its answer too. -/
theorem keepsObject_iff {objectId : Int32} {answers : List FetchResult} :
    KeepsObject objectId answers ↔
      answers.Pairwise fun r r' =>
        (∃ l, r = .ok l ∧ ∃ it ∈ l, it.objectID = objectId) →
          r' = .error .cancellationException ∨
            ∃ l', r' = .ok l' ∧ ∃ it ∈ l', it.objectID = objectId := by
  refine List.Pairwise.iff fun r r' => ?_
  simp only [hasObject_eq_true]
  constructor
  · rintro h ⟨l, rfl, hl⟩
    have hsaved := h l (by simp)
    cases r' with
    | ok l' =>
        exact Or.inr ⟨l', rfl, hsaved l' (by simp) hl⟩
    | error e =>
        by_cases he : e = .cancellationException
        · exact Or.inl (by rw [he])
        · -- A fetch that fails saves the empty list.
          rw [MuseumRepository.saves_failed he] at hsaved
          simpa using hsaved [] (by simp) hl
  · intro h l hl l' hl' hhas
    cases r with
    | error e =>
        -- Nothing but the empty list is saved after a failure.
        by_cases he : e = .cancellationException
        · simp [he] at hl
        · rw [MuseumRepository.saves_failed he] at hl
          have hempty : l = [] := by
            simpa using hl
          simp [hempty] at hhas
    | ok objects =>
        have hsame : l = objects := by
          simpa using hl
        subst hsame
        rcases h ⟨l, rfl, hhas⟩ with rfl | ⟨objects', rfl, hhas'⟩
        · simp at hl'
        · have hsame' : l' = objects' := by
            simpa using hl'
          rw [hsame']
          exact hhas'

/-- The refreshes that complete along a schedule, in order, by how their fetches ended. -/
def refreshesOf (es : List Event) : List FetchResult :=
  es.filterMap fun
    | .refresh r => some r
    | _ => none

/-! ## Enough: the object is never dropped -/

/-- What holds of a detail screen as long as the storage never loses its object: every later copy
of the state still has the object, and the slot that needs it is only there when `obj` is. -/
structure SlotsSafe (stored : List MuseumObject) (d : DetailScreen) : Prop where
  no_crash : d.crash = none
  slot : true ∈ d.content.currentlyVisible → d.obj.isSome = true
  obj_stored : d.obj.isSome = true → hasObject d.objectId stored = true
  obj_read : d.obj.isSome = true → ∀ v, d.collector = .emitting v → hasObject d.objectId v = true
  read_stored : ∀ v, d.collector = .emitting v → hasObject d.objectId v = true →
    hasObject d.objectId stored = true

namespace SlotsSafe

variable {stored stored' : List MuseumObject} {d d' : DetailScreen}

theorem create (objectId : Int32) : SlotsSafe stored (.create objectId) where
  no_crash := rfl
  slot := by simp [DetailScreen.create, AnimatedContent.initial]
  obj_stored := by simp [DetailScreen.create]
  obj_read := by simp [DetailScreen.create]
  read_stored := by simp [DetailScreen.create]

theorem save (h : SlotsSafe stored d)
    (hkeep : hasObject d.objectId stored = true → hasObject d.objectId stored' = true) :
    SlotsSafe stored' d where
  no_crash := h.no_crash
  slot := h.slot
  obj_stored := fun hobj => hkeep (h.obj_stored hobj)
  obj_read := h.obj_read
  read_stored := fun v hv hhas => hkeep (h.read_stored v hv hhas)

/-- A collector that has not read anything is harmless. -/
theorem setCollector (h : SlotsSafe stored d) {c : Collector (List MuseumObject)}
    (hc : ∀ v, c ≠ .emitting v) : SlotsSafe stored { d with collector := c } where
  no_crash := h.no_crash
  slot := h.slot
  obj_stored := h.obj_stored
  obj_read := fun _ v hv => absurd hv (hc v)
  read_stored := fun v hv => absurd hv (hc v)

theorem setContent (h : SlotsSafe stored d) {content : AnimatedContent Bool}
    (hc : true ∈ content.currentlyVisible → d.obj.isSome = true) :
    SlotsSafe stored { d with content := content } where
  no_crash := h.no_crash
  slot := hc
  obj_stored := h.obj_stored
  obj_read := h.obj_read
  read_stored := h.read_stored

theorem step {ev : DetailEvent} (h : SlotsSafe stored d) (hstep : d.step stored ev = some d') :
    SlotsSafe stored d' := by
  cases ev with
  | start =>
      rcases Option.map_eq_some_iff.1 hstep with ⟨c, hc, rfl⟩
      exact h.setCollector (Collector.start_ne_emitting hc)
  | stop =>
      rcases Option.map_eq_some_iff.1 hstep with ⟨c, hc, rfl⟩
      exact h.setCollector (Collector.stop_ne_emitting hc)
  | take =>
      rcases Option.map_eq_some_iff.1 hstep with ⟨c, hc, rfl⟩
      have hread := Collector.take_eq_some hc
      subst hread
      refine ⟨h.no_crash, h.slot, h.obj_stored, ?_, ?_⟩
      -- What is read is what is stored, and the storage has the object if `obj` has it.
      · intro hobj v hv
        cases hv
        exact h.obj_stored hobj
      · intro v hv hhas
        cases hv
        exact hhas
  | deliver =>
      rcases Option.map_eq_some_iff.1 hstep with ⟨⟨v, c⟩, hc, rfl⟩
      rcases Collector.deliver_eq_some hc with ⟨hemit, rfl⟩
      refine ⟨h.no_crash, ?_, ?_, ?_, ?_⟩
      · -- The slot is there because `obj` was, and what was read after `obj` has the object too.
        intro hvis
        exact h.obj_read (h.slot hvis) v hemit
      · intro hobj
        exact h.read_stored v hemit hobj
      · intro _ w hw
        cases hw
      · intro w hw
        cases hw
  | recompose =>
      rw [← Option.some.inj hstep]
      refine (h.setCollector (Collector.restart_ne_emitting d.collector)).setContent ?_
      intro hvis
      -- The slot was there before, or it enters because `obj != null` was just checked.
      rcases AnimatedContent.mem_updateTarget.1 hvis with hold | hnew
      · exact h.slot hold
      · exact hnew.symm
  | compose objectAvailable =>
      rcases DetailScreen.step_compose hstep with ⟨hvis, rfl | ⟨e, he, rfl⟩⟩
      · exact h
      · -- Only the slot with `objectAvailable = true` can throw, and there `obj` is present.
        exfalso
        cases objectAvailable with
        | false =>
            simp [DetailScreen.slot] at he
        | true =>
            rcases Option.isSome_iff_exists.1 (h.slot hvis) with ⟨o, ho⟩
            simp [DetailScreen.slot, ho] at he
  | transitionEnds =>
      rw [← Option.some.inj hstep]
      exact h.setContent fun hvis => h.slot (AnimatedContent.mem_transitionEnds hvis)

end SlotsSafe

variable {es : List Event} {tr : List State} {s s' : State}

theorem refreshesOf_concat (es : List Event) (e : Event) :
    refreshesOf (es ++ [e]) = refreshesOf es ++ refreshesOf [e] := by
  simp [refreshesOf]

theorem savedLists_eq (es : List Event) :
    savedLists es = (refreshesOf es).flatMap MuseumRepository.saves := by
  induction es with
  | nil =>
      rfl
  | cons e es ih =>
      have hcons : savedLists (e :: es) = e.saves ++ savedLists es := rfl
      rw [hcons, ih]
      cases e <;> rfl

/-- The condition, on the saved lists themselves. -/
theorem keepsObject_of_pairwise {objectId : Int32}
    (h : (savedLists es).Pairwise fun l l' =>
      hasObject objectId l = true → hasObject objectId l' = true) :
    KeepsObject objectId (refreshesOf es) := by
  rw [savedLists_eq, List.pairwise_flatMap] at h
  exact h.2

/-- A stored list that has an object was saved by one of the refreshes. -/
theorem exists_refresh_of_hasObject (h : machine.Run es tr s) {objectId : Int32}
    (hhas : hasObject objectId s.stored = true) :
    ∃ r ∈ refreshesOf es, s.stored ∈ MuseumRepository.saves r := by
  have hmem : s.stored ∈ [] :: savedLists es := by
    rw [stored_eq h]
    exact List.getLastD_mem_cons
  rcases List.mem_cons.1 hmem with hnil | hsaves
  · -- The initial list has no object.
    rw [hnil] at hhas
    cases hhas
  · rcases List.mem_flatMap.1 hsaves with ⟨e, he, hsaved⟩
    cases e with
    | refresh r =>
        refine ⟨r, ?_, hsaved⟩
        exact List.mem_filterMap.2 ⟨.refresh r, he, rfl⟩
    | _ =>
        cases hsaved

/-- Under the condition, no step takes the object out of the storage. -/
theorem hasObject_step (h : machine.Run es tr s) {e : Event} (hstep : step s e = some s')
    {objectId : Int32} (hkeeps : KeepsObject objectId (refreshesOf (es ++ [e])))
    (hhas : hasObject objectId s.stored = true) : hasObject objectId s'.stored = true := by
  have hstored : s'.stored = e.saves.getLastD s.stored := by
    calc
      s'.stored = (e.saves.foldl InMemoryMuseumStorage.saveObjects s.storage).storedObjects.value :=
        congrArg (fun storage => storage.storedObjects.value) (moved_of_step hstep).storage_eq
      _ = e.saves.getLastD s.stored := MuseumRepository.foldl_saveObjects_value e.saves s.storage
  have hmem : s'.stored ∈ s.stored :: e.saves := by
    rw [hstored]
    exact List.getLastD_mem_cons
  rcases List.mem_cons.1 hmem with hsame | hnew
  · rw [hsame]
    exact hhas
  · cases e with
    | refresh r =>
        -- The list stored so far was saved by an earlier refresh: compare the two.
        rcases exists_refresh_of_hasObject h hhas with ⟨r₀, hr₀, hsaved⟩
        rw [KeepsObject, refreshesOf_concat, List.pairwise_append] at hkeeps
        have hr : r ∈ refreshesOf [.refresh r] := by
          simp [refreshesOf]
        exact hkeeps.2.2 r₀ hr₀ r hr _ hsaved _ hnew hhas
    | _ =>
        cases hnew

theorem slotsSafe (h : machine.Run es tr s) {objectId : Int32}
    (hkeeps : KeepsObject objectId (refreshesOf es)) :
    ∀ (k : ℕ) (d : DetailScreen), s.detailScreens[k]? = some d → d.objectId = objectId →
      SlotsSafe s.stored d := by
  induction h with
  | init =>
      intro k d hd _
      simp [machine] at hd
  | step hrun hstep ih =>
      rename_i es tr s s' e
      intro k d' hd' hid
      have hbefore : KeepsObject objectId (refreshesOf es) := by
        rw [KeepsObject, refreshesOf_concat, List.pairwise_append] at hkeeps
        exact hkeeps.1
      have hmoved := moved_of_step hstep
      rcases hmoved.detailScreen hd' with ⟨_, id, rfl⟩ | ⟨d, hd, hmove⟩
      · exact SlotsSafe.create id
      · rcases hmove with rfl | ⟨ev, rfl, hev⟩
        · -- Somebody else moved; it may have been a refresh.
          refine (ih hbefore k d' hd hid).save ?_
          rw [hid]
          exact hasObject_step hrun hstep hkeeps
        · -- A step of the screen itself, which saves nothing.
          have hid' : d.objectId = objectId := by
            rw [← DetailScreen.step_objectId hev]
            exact hid
          have hstored : s'.stored = s.stored := by
            rw [State.stored, hmoved.storage_eq]
            rfl
          rw [hstored]
          exact (ih hbefore k d hd hid').step hev

/-! ## Needed: a dropped object makes some order crash -/

/-- One detail screen over a storage. -/
def single (storage : InMemoryMuseumStorage) (d : DetailScreen) : State :=
  { storage := storage
    listViewModels := []
    detailScreens := [d] }

theorem step_single {storage : InMemoryMuseumStorage} {d d' : DetailScreen} {ev : DetailEvent}
    (hd : d.crash = none) (h : d.step storage.storedObjects.value ev = some d') :
    machine.step (single storage d) (.detail 0 ev) = some (single storage d') := by
  simp [machine, step, single, State.crashed, hd, updateAt, State.stored, h]

theorem exec_refreshes {d : DetailScreen} (hd : d.crash = none) (rs : List FetchResult)
    (storage : InMemoryMuseumStorage) :
    machine.exec (single storage d) (rs.map .refresh) =
      some (single (rs.foldl (fun st r => MuseumRepository.refreshCompletes r st) storage) d) := by
  induction rs generalizing storage with
  | nil =>
      rfl
  | cons r rs ih =>
      have hstep : machine.step (single storage d) (.refresh r) =
          some (single (MuseumRepository.refreshCompletes r storage) d) := by
        simp [machine, step, single, State.crashed, hd]
      rw [List.map_cons, Machine.exec_cons hstep, ih, List.foldl_cons]

/-- The stored list after refreshes the last of which saved `l`. -/
theorem stored_after {rs : List FetchResult} {r : FetchResult} {l : List MuseumObject}
    (hr : MuseumRepository.saves r = [l]) (storage : InMemoryMuseumStorage) :
    ((rs ++ [r]).foldl (fun st r => MuseumRepository.refreshCompletes r st)
      storage).storedObjects.value = l := by
  rw [MuseumRepository.foldl_refreshCompletes, MuseumRepository.foldl_saveObjects_value]
  simp [hr]

/-- A fresh collector reads the stored list and hands it over. -/
theorem exec_observe {storage : InMemoryMuseumStorage} {d : DetailScreen} (hd : d.crash = none)
    (hc : d.collector = .waiting none) (es : List Event) :
    machine.exec (single storage d) (.detail 0 .take :: .detail 0 .deliver :: es) =
      machine.exec
        (single storage
          { d with
            obj := InMemoryMuseumStorage.getObjectById d.objectId storage.storedObjects.value
            collector := .waiting (some storage.storedObjects.value) }) es := by
  have htake : machine.step (single storage d) (.detail 0 .take) =
      some (single storage { d with collector := .emitting storage.storedObjects.value }) :=
    step_single hd (by simp [DetailScreen.step, Collector.take, hc])
  rw [Machine.exec_cons htake]
  apply Machine.exec_cons
  apply step_single
  · exact hd
  · rfl

/-- The screen shows the object, a refresh drops it, and the slot, by then outgoing, is composed once
more. -/
def dropSchedule (objectId : Int32) (before after : List FetchResult) : List Event :=
  [.openDetail objectId, .detail 0 .start] ++
    (before.map .refresh ++
      ([.detail 0 .take, .detail 0 .deliver, .detail 0 .recompose] ++
        (after.map .refresh ++
          [.detail 0 .take, .detail 0 .deliver, .detail 0 .recompose, .detail 0 (.compose true)])))

theorem refreshesOf_dropSchedule (objectId : Int32) (before after : List FetchResult) :
    refreshesOf (dropSchedule objectId before after) = before ++ after := by
  simp [refreshesOf, dropSchedule, List.filterMap_append]

theorem exec_dropSchedule (objectId : Int32) {A B : List FetchResult} {r r' : FetchResult}
    {l l' : List MuseumObject} (hr : MuseumRepository.saves r = [l])
    (hr' : MuseumRepository.saves r' = [l']) (hl : hasObject objectId l = true)
    (hl' : hasObject objectId l' = false) :
    (machine.exec machine.init (dropSchedule objectId (A ++ [r]) (B ++ [r']))).map
        (fun s => s.detailScreens.map fun d => (d.objectId, d.crash)) =
      some [(objectId, some .nullPointerException)] := by
  rcases Option.isSome_iff_exists.1 hl with ⟨o, ho⟩
  have hnone : InMemoryMuseumStorage.getObjectById objectId l' = none := by
    simpa [hasObject] using hl'
  -- The screen: opened, showing `o` with the slot for it entering, and with `obj` gone again and
  -- that slot leaving.
  let d₀ : DetailScreen := { DetailScreen.create objectId with collector := .waiting none }
  let d₁ : DetailScreen :=
    { d₀ with
      obj := some o
      content := (AnimatedContent.initial false).updateTarget true }
  let d₂ : DetailScreen :=
    { d₁ with
      obj := none
      content := d₁.content.updateTarget false
      crash := some .nullPointerException }
  let st := (A ++ [r]).foldl (fun st r => MuseumRepository.refreshCompletes r st) .empty
  let st' := (B ++ [r']).foldl (fun st r => MuseumRepository.refreshCompletes r st) st
  have hst : st.storedObjects.value = l := stored_after hr _
  have hst' : st'.storedObjects.value = l' := stored_after hr' _
  have hopen : machine.exec machine.init [.openDetail objectId, .detail 0 .start] =
      some (single .empty d₀) := rfl
  have hshow : machine.exec (single st d₀)
      [.detail 0 .take, .detail 0 .deliver, .detail 0 .recompose] = some (single st d₁) := by
    rw [exec_observe rfl rfl, hst]
    change machine.exec (single st
      { d₀ with
        obj := InMemoryMuseumStorage.getObjectById objectId l
        collector := .waiting (some l) }) [.detail 0 .recompose] = some (single st d₁)
    rw [ho]
    rfl
  have hdrop : machine.exec (single st' d₁)
      [.detail 0 .take, .detail 0 .deliver, .detail 0 .recompose, .detail 0 (.compose true)] =
        some (single st' d₂) := by
    rw [exec_observe rfl rfl, hst']
    change machine.exec (single st'
      { d₁ with
        obj := InMemoryMuseumStorage.getObjectById objectId l'
        collector := .waiting (some l') }) [.detail 0 .recompose, .detail 0 (.compose true)] =
      some (single st' d₂)
    rw [hnone]
    rfl
  have hexec : machine.exec machine.init (dropSchedule objectId (A ++ [r]) (B ++ [r'])) =
      some (single st' d₂) :=
    Machine.exec_trans hopen (Machine.exec_trans (exec_refreshes rfl _ _)
      (Machine.exec_trans hshow (Machine.exec_trans (exec_refreshes rfl _ _) hdrop)))
  rw [hexec]
  rfl

theorem saves_eq_of_mem {r : FetchResult} {l : List MuseumObject}
    (h : l ∈ MuseumRepository.saves r) : MuseumRepository.saves r = [l] := by
  cases r with
  | ok objects =>
      have hl : l = objects := by
        simpa using h
      rw [hl, MuseumRepository.saves_ok]
  | error e =>
      by_cases he : e = .cancellationException
      · simp [he] at h
      · rw [MuseumRepository.saves_failed he] at h ⊢
        have hl : l = [] := by
          simpa using h
        rw [hl]

/-- **When the detail screen is safe.** For a sequence of refreshes, no order of deliveries,
recompositions, slot compositions and transition ends evaluates `obj!!` while `obj` is null, if and
only if no refresh saves a list without the object after one has saved a list with it. -/
theorem neverDereferencesNull_iff (objectId : Int32) (answers : List FetchResult) :
    (∀ es tr s, machine.Run es tr s → refreshesOf es <+: answers →
      ∀ d ∈ s.detailScreens, d.objectId = objectId → d.crash = none) ↔
    KeepsObject objectId answers := by
  constructor
  · intro hsafe
    refine List.pairwise_iff_forall_sublist.2 ?_
    intro r r' hsub l hl l' hl' hhas
    by_contra hdropped
    rw [Bool.not_eq_true] at hdropped
    -- Cut `answers` right after `r` and right after `r'`, and run up to there.
    rcases List.cons_sublist_iff.1 hsub with ⟨R₁, R₂, rfl, hr, hsub'⟩
    rcases List.append_of_mem hr with ⟨A, A', rfl⟩
    rcases List.append_of_mem (List.singleton_sublist.1 hsub') with ⟨B, C, rfl⟩
    have hexec := exec_dropSchedule objectId (A := A) (B := A' ++ B) (saves_eq_of_mem hl)
      (saves_eq_of_mem hl') hhas hdropped
    rcases Machine.exists_run_of_exec _ hexec with ⟨tr, s, hrun, hcrash⟩
    have hinitial : refreshesOf (dropSchedule objectId (A ++ [r]) ((A' ++ B) ++ [r'])) <+:
        (A ++ r :: A') ++ (B ++ r' :: C) := by
      rw [refreshesOf_dropSchedule]
      exact ⟨C, by simp⟩
    have hnone : ∀ p ∈ s.detailScreens.map (fun d => (d.objectId, d.crash)),
        p.1 = objectId → p.2 = none := by
      intro p hp
      rcases List.mem_map.1 hp with ⟨d, hd, rfl⟩
      exact hsafe _ _ _ hrun hinitial d hd
    -- The screen of this very run has crashed.
    rw [hcrash] at hnone
    have hfalse := hnone (objectId, some .nullPointerException) (by simp) rfl
    cases hfalse
  · intro hkeeps es tr s h hinitial d hd hid
    have hkeeps' : KeepsObject objectId (refreshesOf es) := hkeeps.sublist hinitial.sublist
    rcases List.getElem?_of_mem hd with ⟨k, hk⟩
    exact (slotsSafe h hkeeps' k d hk hid).no_crash

/-- A refresh fails after the object was shown: the empty list is saved over it. -/
theorem not_neverDereferencesNull :
    ¬ ∀ (objectId : Int32) (es : List Event) (tr : List State) (s : State), machine.Run es tr s →
      ∀ d ∈ s.detailScreens, d.objectId = objectId → d.crash = none := by
  intro hsafe
  have hexec : (machine.exec machine.init
      (dropSchedule 436535 [.ok [wheatField]] [.error (.ioException "timeout")])).map
        (fun s => s.detailScreens.map fun d => (d.objectId, d.crash)) =
          some [(436535, some .nullPointerException)] := by
    decide
  rcases Machine.exists_run_of_exec _ hexec with ⟨tr, s, hrun, hcrash⟩
  have hmem : (436535, some Exception.nullPointerException) ∈
      s.detailScreens.map fun d => (d.objectId, d.crash) := by
    rw [hcrash]
    simp
  rcases List.mem_map.1 hmem with ⟨d, hd, heq⟩
  cases (Prod.mk.inj heq).2.symm.trans (hsafe 436535 _ _ _ hrun d hd (Prod.mk.inj heq).1)

end Screens
end KmpApp
