import KmpApp.Background.Machine

/-!
# Store — what overlapping refreshes leave in the storage

Every refresh saves what `getData` returned, and `getData` returns the empty list in place of a
failed fetch.  A cancelled fetch saves nothing.  Over any interleaving this gives:

* `stored_eq_latest_save` — the stored list is the one written by the latest save, where each save
  writes the decoded list of its refresh, or the empty list when the fetch had failed, and a
  cancelled refresh never touches the storage;
* `storage_eq_completions` — the storage is the same as if the refreshes had run one after the
  other, each as a whole, in the order of their saves.
-/

namespace KmpApp
namespace Background

open Coroutines Data Transition

/-- The lists passed to `saveObjects` along a schedule, in order. -/
def savedLists (es : List Event) : List (List MuseumObject) :=
  es.filterMap fun
    | .signal _ (.saved newObjects) => some newObjects
    | _ => none

/-! ## One signal and the storage -/

/-- Only a save touches the storage. -/
theorem World.observe_storage (world : World) (body : Program Unit) {sig : Signal}
    (h : ∀ l, sig ≠ .saved l) : (world.observe body sig).storage = world.storage := by
  cases body with
  | done a =>
      rfl
  | raise e =>
      rfl
  | await op k =>
      cases op with
      | saveObjects l =>
          cases sig with
          | saved l' =>
              exact absurd rfl (h l')
          | _ =>
              rfl
      | chatStream request =>
          cases request with
          | nil =>
              cases sig <;> rfl
          | cons first rest =>
              cases first <;> cases sig <;> rfl
      | _ =>
          cases sig <;> rfl

/-- The body of a coroutine that is about to save. -/
theorem resume_saved {body body' : Program Unit} {l : List MuseumObject}
    (h : resume body (.saved l) = some body') : ∃ k, body = .await (.saveObjects l) k := by
  cases body with
  | done a =>
      cases h
  | raise e =>
      cases h
  | await op k =>
      cases op with
      | saveObjects l' =>
          have h' : (if l' = l then some (k (.ok ())) else none) = some body' := h
          by_cases hl : l' = l
          · subst hl
            exact ⟨k, rfl⟩
          · simp [hl] at h'
      | chatStream request =>
          cases request <;> cases h
      | _ =>
          cases h

/-- A refresh saves after its fetch has ended, and what it saves is decided by how it ended. -/
theorem RefreshPhase.saves_eq {rs : List FetchResult} {l : List MuseumObject}
    {k : Except Throwable (Op.saveObjects l).Res → Program Unit}
    (h : RefreshPhase rs (.await (.saveObjects l) k)) :
    ∃ r, rs = [r] ∧ MuseumRepository.saves r = [l] := by
  generalize hbody : Suspend.await (Op.saveObjects l) k = body at h
  cases h with
  | saving hr =>
      rename_i r newObjects
      have hop : Op.saveObjects l = Op.saveObjects newObjects := (Suspend.await.inj hbody).1
      cases hop
      exact ⟨r, rfl, hr⟩
  | _ =>
      cases hbody

/-- The chat coroutine never saves. -/
theorem ChatPhase.resume_saved {codes : List StatusCode} {body : Program Unit}
    (h : ChatPhase codes body) (l : List MuseumObject) : resume body (.saved l) = none := by
  cases h with
  | streaming request =>
      cases request <;> rfl
  | ended code =>
      exact resume_streamEnded code _
  | _ =>
      rfl

variable {es : List Event} {tr : List State} {s s' : State}

/-- Everything a save can do: it comes from a refresh whose one fetch has ended, and it writes what
that fetch makes a refresh save. -/
theorem step_saved (h : machine.Run es tr s) {i : ℕ} {l : List MuseumObject}
    (hstep : step s (.signal i (.saved l)) = some s') :
    (∃ r, fetchesOf i es = [r] ∧ MuseumRepository.saves r = [l]) ∧
      s'.world.storage = s.world.storage.saveObjects l := by
  rcases step_signal hstep with ⟨c, body, hc, hbody, rfl⟩
  rcases Background.resume_saved hbody with ⟨k, hk⟩
  by_cases hl : c.launcher = .viewModelScope
  · -- The chat coroutine does not save.
    rw [(chatPhase h hc hl).resume_saved] at hbody
    cases hbody
  · have hphase := refreshPhase h hc hl
    rw [hk] at hphase
    refine ⟨hphase.saves_eq, ?_⟩
    rw [hk]
    rfl

/-- Every other event leaves the storage alone. -/
theorem step_storage {e : Event} (hstep : step s e = some s') (h : ∀ i l, e ≠ .signal i (.saved l)) :
    s'.world.storage = s.world.storage := by
  cases e with
  | launch launcher =>
      rw [step_launch hstep]
  | signal i sig =>
      rcases step_signal hstep with ⟨c, body, _, _, rfl⟩
      refine World.observe_storage s.world c.body ?_
      intro l hsig
      exact h i l (by rw [hsig])

/-! ## Runs -/

theorem savedLists_concat_saved (es : List Event) (i : ℕ) (l : List MuseumObject) :
    savedLists (es ++ [.signal i (.saved l)]) = savedLists es ++ [l] := by
  simp [savedLists]

/-- Nothing but a save adds to the saved lists. -/
theorem savedLists_singleton {e : Event} (h : ∀ i l, e ≠ .signal i (.saved l)) :
    savedLists [e] = [] := by
  cases e with
  | launch launcher =>
      rfl
  | signal i sig =>
      cases sig with
      | saved l =>
          exact absurd rfl (h i l)
      | _ =>
          rfl

theorem savedLists_concat {e : Event} (h : ∀ i l, e ≠ .signal i (.saved l)) (es : List Event) :
    savedLists (es ++ [e]) = savedLists es := by
  have happ : savedLists (es ++ [e]) = savedLists es ++ savedLists [e] := List.filterMap_append
  rw [happ, savedLists_singleton h, List.append_nil]

theorem mem_savedLists {l : List MuseumObject} :
    l ∈ savedLists es ↔ ∃ i, .signal i (.saved l) ∈ es := by
  simp only [savedLists, List.mem_filterMap]
  constructor
  · rintro ⟨e, he, hl⟩
    cases e with
    | launch launcher =>
        cases hl
    | signal i sig =>
        cases sig with
        | saved l' =>
            cases hl
            exact ⟨i, he⟩
        | _ =>
            cases hl
  · rintro ⟨i, hi⟩
    exact ⟨.signal i (.saved l), hi, rfl⟩

/-- The interleaved refreshes have the effect of a sequence of whole refreshes, in the order of
their saves. -/
theorem storage_eq_completions (h : machine.Run es tr s) :
    ∃ rs : List FetchResult,
      (∀ r ∈ rs, ∃ i, .signal i (.fetchEnds r) ∈ es) ∧
      rs.flatMap MuseumRepository.saves = savedLists es ∧
      s.world.storage =
        rs.foldl (fun storage r => MuseumRepository.refreshCompletes r storage) .empty := by
  induction h with
  | init =>
      exact ⟨[], by simp, rfl, rfl⟩
  | step hrun hstep ih =>
      rename_i es tr s s' e
      rcases ih with ⟨rs, hfetch, hsaves, hstorage⟩
      have hfetch' : ∀ r ∈ rs, ∃ i, Event.signal i (.fetchEnds r) ∈ es ++ [e] := by
        intro r hr
        rcases hfetch r hr with ⟨i, hi⟩
        exact ⟨i, List.mem_append_left _ hi⟩
      by_cases hsaved : ∃ i l, e = .signal i (.saved l)
      · -- A save is the moment at which its refresh takes effect as a whole.
        rcases hsaved with ⟨i, l, rfl⟩
        rcases step_saved hrun hstep with ⟨⟨r, hr, hl⟩, hs'⟩
        refine ⟨rs ++ [r], ?_, ?_, ?_⟩
        · intro r' hr'
          rcases List.mem_append.1 hr' with hold | hnew
          · exact hfetch' r' hold
          · have hrr : r' = r := by
              simpa using hnew
            subst hrr
            have hmem : r' ∈ fetchesOf i es := by
              simp [hr]
            exact ⟨i, List.mem_append_left _ (mem_fetchesOf.1 hmem)⟩
        · rw [savedLists_concat_saved, List.flatMap_append, hsaves]
          simp [hl]
        · rw [hs', hstorage, List.foldl_append]
          simp [MuseumRepository.refreshCompletes_eq, hl]
      · -- Until then, a refresh leaves no mark on the storage.
        have hne : ∀ i l, e ≠ .signal i (.saved l) := fun i l he => hsaved ⟨i, l, he⟩
        refine ⟨rs, hfetch', ?_, ?_⟩
        · rw [savedLists_concat hne, hsaves]
        · rw [step_storage hstep hne, hstorage]

/-- The stored list is the last one passed to `saveObjects`. -/
theorem stored_eq_getLastD (h : machine.Run es tr s) : s.stored = (savedLists es).getLastD [] := by
  rcases storage_eq_completions h with ⟨rs, _, hsaves, hstorage⟩
  rw [State.stored, hstorage, MuseumRepository.foldl_refreshCompletes,
    MuseumRepository.foldl_saveObjects_value, hsaves]
  rfl

/-! ## Failed and cancelled refreshes -/

/-- What a refresh saves, by how its fetch ended. -/
theorem saves_eq_singleton {r : FetchResult} {l : List MuseumObject}
    (h : MuseumRepository.saves r = [l]) :
    r = .ok l ∨ ∃ e, e ≠ .cancellationException ∧ r = .error e ∧ l = [] := by
  cases r with
  | ok objects =>
      have hl : objects = l := by
        simpa using h
      exact Or.inl (by rw [hl])
  | error e =>
      by_cases he : e = .cancellationException
      · simp [he] at h
      · have hl : [] = l := by
          simpa [MuseumRepository.saves_failed he] using h
        exact Or.inr ⟨e, he, rfl, hl.symm⟩

/-- Where a saved list comes from: the refresh fetched it, or its fetch failed and it is empty. -/
theorem fetch_of_saved {pre post : List Event} {i : ℕ} {l : List MuseumObject}
    (h : machine.Run (pre ++ .signal i (.saved l) :: post) tr s) :
    ∃ r, .signal i (.fetchEnds r) ∈ pre ∧
      (r = .ok l ∨ ∃ e, e ≠ .cancellationException ∧ r = .error e ∧ l = []) := by
  rcases h.step_at with ⟨tr₁, s₁, s₂, hpre, hstep, _, _⟩
  rcases (step_saved hpre hstep).1 with ⟨r, hr, hl⟩
  have hmem : r ∈ fetchesOf i pre := by
    simp [hr]
  exact ⟨r, mem_fetchesOf.1 hmem, saves_eq_singleton hl⟩

/-- A refresh that saves in a run has no other fetch in it, before the save or after. -/
theorem fetchesOf_eq_of_saved {pre post : List Event} {i : ℕ} {l : List MuseumObject}
    {tr₁ : List State} {s₁ s₂ : State} (h : machine.Run (pre ++ post) tr s)
    (hpre : machine.Run pre tr₁ s₁) (hstep : step s₁ (.signal i (.saved l)) = some s₂) :
    ∃ r, fetchesOf i pre = [r] ∧ fetchesOf i (pre ++ post) = [r] ∧
      MuseumRepository.saves r = [l] := by
  rcases (step_saved hpre hstep).1 with ⟨r, hr, hl⟩
  -- One fetch before the save, and at most one in the whole run.
  have happ : fetchesOf i (pre ++ post) = [r] ++ fetchesOf i post := by
    simp [← hr, fetchesOf, signalsOf, List.filterMap_append]
  have hlen := fetchesOf_length_le h i
  rw [happ] at hlen
  have hpost : fetchesOf i post = [] := by
    simpa using hlen
  exact ⟨r, hr, by rw [happ, hpost, List.append_nil], hl⟩

/-- **The store after overlapping refreshes.** At every point of every run the stored list is the
one the latest save wrote (the empty list when there was none); each save writes the decoded list
of its refresh, or the empty list when the fetch failed; and a step of a refresh whose fetch ends in
an exception changes nothing, unless the exception is not a cancellation and the step writes the
empty list. -/
theorem stored_eq_latest_save (h : machine.Run es tr s) :
    s.stored = (savedLists es).getLastD [] ∧
    (∀ pre i l post, es = pre ++ .signal i (.saved l) :: post →
      ∃ r, .signal i (.fetchEnds r) ∈ pre ∧
        (r = .ok l ∨ ∃ e, e ≠ .cancellationException ∧ r = .error e ∧ l = [])) ∧
    (∀ pre i sig post e, es = pre ++ .signal i sig :: post →
      .signal i (.fetchEnds (.error e)) ∈ es →
      ∀ tr₁ s₁ s₂, machine.Run pre tr₁ s₁ → step s₁ (.signal i sig) = some s₂ →
        s₂.stored = s₁.stored ∨ (e ≠ .cancellationException ∧ s₂.stored = [])) := by
  refine ⟨stored_eq_getLastD h, ?_, ?_⟩
  · rintro pre i l post rfl
    exact fetch_of_saved h
  · rintro pre i sig post e rfl hfetch tr₁ s₁ s₂ hpre hstep
    by_cases hsaved : ∃ l, sig = .saved l
    · rcases hsaved with ⟨l, rfl⟩
      rcases fetchesOf_eq_of_saved h hpre hstep with ⟨r, _, hr, hl⟩
      -- The fetch that ended in `e` is the one fetch behind this save.
      have hre : .error e = r := by
        simpa [hr] using mem_fetchesOf.2 hfetch
      subst hre
      -- So the save writes the empty list, and the exception was not a cancellation.
      rcases saves_eq_singleton hl with hok | ⟨e', he', heq, rfl⟩
      · cases hok
      · cases heq
        refine Or.inr ⟨he', ?_⟩
        rw [State.stored, (step_saved hpre hstep).2]
        simp
    · refine Or.inl ?_
      have hne : ∀ j l, Event.signal i sig ≠ .signal j (.saved l) := by
        intro j l heq
        cases heq
        exact hsaved ⟨l, rfl⟩
      rw [State.stored, State.stored, step_storage hstep hne]

/-- Two overlapping refreshes: the first one fails while the second one, started later, succeeds
and saves; then the first one saves. -/
def overlapping : List Event :=
  [ .launch .repositoryScope
  , .signal 0 .dispatched
  , .launch .caller
  , .signal 1 (.fetchEnds (.ok [wheatField]))
  , .signal 0 (.fetchEnds (.error (.ioException "timeout")))
  , .signal 0 .printed
  , .signal 1 (.saved [wheatField])
  , .signal 0 (.saved []) ]

theorem overlapping_stored :
    ∃ tr s, machine.Run overlapping tr s ∧ s.stored = [] := by
  have hexec : (machine.exec machine.init overlapping).map State.uncaught = some [] := rfl
  rcases Machine.exists_run_of_exec State.uncaught hexec with ⟨tr, s, hrun, _⟩
  exact ⟨tr, s, hrun, (stored_eq_latest_save hrun).1⟩

/-- The late failure wiped out the list that the other refresh had stored. -/
theorem not_failure_keeps_store :
    ¬ ∀ es tr s, machine.Run es tr s →
      ∀ pre i sig post e, es = pre ++ .signal i sig :: post →
        .signal i (.fetchEnds (.error e)) ∈ es →
        ∀ tr₁ s₁ s₂, machine.Run pre tr₁ s₁ → step s₁ (.signal i sig) = some s₂ →
          s₂.stored = s₁.stored := by
  intro hall
  have hexec : (machine.exec machine.init overlapping).map State.stored = some [] := rfl
  have hexec₁ : (machine.exec machine.init overlapping.dropLast).map State.stored =
      some [wheatField] := rfl
  rcases Machine.exists_run_of_exec State.stored hexec with ⟨tr, s, hrun, hs⟩
  have hrun' : machine.Run (overlapping.dropLast ++ .signal 0 (.saved []) :: []) tr s := hrun
  rcases hrun'.step_at with ⟨tr₁, s₁, s₂, hpre, hstep, _, _⟩
  have hs₂ : s₂ = s := (Machine.Run.step hpre hstep).unique hrun
  have hs₁ : s₁.stored = [wheatField] := by
    rw [hpre.exec_eq] at hexec₁
    exact Option.some.inj hexec₁
  have hkeep := hall _ _ _ hrun' _ 0 _ _ (.ioException "timeout") rfl
    (by simp [overlapping]) _ _ _ hpre hstep
  rw [hs₂, hs, hs₁] at hkeep
  cases hkeep

end Background
end KmpApp
