import KmpApp.Background.Machine

/-!
# Containment — which exceptions leave a background coroutine

`getData` turns every exception other than a cancellation into an empty list, so nothing but a
cancellation ever leaves a refresh.  The `init` block of `ListViewModel` has no such `catch`: what
the response flow throws leaves the coroutine and reaches the uncaught-exception path.

The main result says exactly when the background work is contained: in a run, no exception other
than a cancellation has left a launched coroutine if and only if every chat stream that ended on
its own ended with status `OK`.
-/

namespace KmpApp
namespace Background

open Coroutines Data Transition

/-- Nothing but cancellations has left the coroutines launched in the two scopes, and the
uncaught-exception path was not reached. -/
structure Contained (s : State) : Prop where
  only_cancellation : ∀ c ∈ s.coroutines, c.launcher ≠ .caller →
    ∀ e, c.body = .raise e → e.isCancellationException = true
  uncaught_nil : s.uncaught = []

/-! ## What the phases let out -/

/-- Only a cancellation leaves a refresh. -/
theorem RefreshPhase.raise_eq {rs : List FetchResult} {e : Throwable}
    (h : RefreshPhase rs (.raise e)) : e = .exception .cancellationException := by
  generalize hbody : Suspend.raise e = body at h
  cases h with
  | cancelledDispatch =>
      exact Suspend.raise.inj hbody
  | cancelledFetch =>
      exact Suspend.raise.inj hbody
  | _ =>
      cases hbody

/-- A refresh is never waiting for a chat stream. -/
theorem RefreshPhase.resume_streamEnds {rs : List FetchResult} {body : Program Unit}
    (h : RefreshPhase rs body) (code : StatusCode) : resume body (.streamEnds code) = none := by
  cases h <;> rfl

/-- What leaves the chat coroutine is a cancellation, or the status its stream ended with. -/
theorem ChatPhase.raise_eq {codes : List StatusCode} {e : Throwable}
    (h : ChatPhase codes (.raise e)) :
    e = .exception .cancellationException ∨
      ∃ code, code ∈ codes ∧ code ≠ .ok ∧ e = .exception (.statusException code) := by
  generalize hbody : Suspend.raise e = body at h
  cases h with
  | ended code =>
      refine Or.inr ⟨code, by simp, ?_⟩
      cases code with
      | ok =>
          -- The flow completed and nothing was thrown.
          cases hbody
      | _ =>
          exact ⟨by simp, Suspend.raise.inj hbody⟩
  | cancelled =>
      exact Or.inl (Suspend.raise.inj hbody)
  | _ =>
      cases hbody

/-- A stream that ends with a status other than `OK` ends the chat coroutine with it. -/
theorem ChatPhase.body_eq {codes : List StatusCode} {body : Program Unit} {code : StatusCode}
    (h : ChatPhase codes body) (hmem : code ∈ codes) (hcode : code ≠ .ok) :
    body = .raise (.exception (.statusException code)) := by
  cases h with
  | ended code' =>
      have heq : code = code' := by
        simpa using hmem
      subst heq
      cases code with
      | ok =>
          exact absurd rfl hcode
      | _ =>
          rfl
  | _ =>
      cases hmem

/-! ## The uncaught-exception path -/

variable {es : List Event} {tr : List State} {s : State}

theorem mem_escaped {launcher : Launcher} {body : Program Unit} {e : Throwable}
    (h : e ∈ escaped launcher body) :
    launcher ≠ .caller ∧ body = .raise e ∧ e.isCancellationException = false := by
  cases body with
  | raise e' =>
      by_cases hc : (e'.isCancellationException || decide (launcher = .caller)) = true
      · simp [escaped, hc] at h
      · have hee : e = e' := by
          simpa [escaped, hc] using h
        subst hee
        simpa [and_comm] using hc
  | done a =>
      cases h
  | await op k =>
      cases h

/-- Whatever is on the uncaught-exception path left a launched coroutine, which ended with it. -/
theorem exists_coroutine_of_uncaught (h : machine.Run es tr s) {e : Throwable}
    (he : e ∈ s.uncaught) :
    ∃ (i : ℕ) (c : Coroutine), s.coroutines[i]? = some c ∧ c.launcher ≠ .caller ∧
      c.body = .raise e ∧ e.isCancellationException = false := by
  induction h with
  | init =>
      cases he
  | step hrun hstep ih =>
      rename_i s s' ev
      cases ev with
      | launch launcher =>
          have hs' := step_launch hstep
          subst hs'
          -- The coroutine is still at its place, the new one comes after it.
          rcases ih he with ⟨i, c, hc, hrest⟩
          have hlt : i < s.coroutines.length := (List.getElem?_eq_some_iff.1 hc).1
          refine ⟨i, c, ?_, hrest⟩
          rw [List.getElem?_append_left hlt]
          exact hc
      | signal j sig =>
          rcases step_signal hstep with ⟨d, body, hd, hbody, rfl⟩
          have hlt : j < s.coroutines.length := (List.getElem?_eq_some_iff.1 hd).1
          rcases List.mem_append.1 he with hold | hnew
          · rcases ih hold with ⟨i, c, hc, hl, hraise, hcan⟩
            -- A coroutine that has ended takes no further signal, so it is not the one at `j`.
            have hne : j ≠ i := by
              intro hji
              subst hji
              have hcd : c = d := Option.some.inj (hc.symm.trans hd)
              subst hcd
              rw [hraise] at hbody
              cases hbody
            refine ⟨i, c, ?_, hl, hraise, hcan⟩
            rw [List.getElem?_set_ne hne]
            exact hc
          · rcases mem_escaped hnew with ⟨hl, hraise, hcan⟩
            refine ⟨j, { d with body := body }, ?_, hl, hraise, hcan⟩
            rw [List.getElem?_set_self hlt]

/-! ## Containment -/

/-- Streams that end with `OK` are enough. -/
theorem contained_of_streams_ok (h : machine.Run es tr s)
    (hok : ∀ i code, .signal i (.streamEnds code) ∈ es → code = .ok) : Contained s := by
  have honly : ∀ (i : ℕ) (c : Coroutine), s.coroutines[i]? = some c → ∀ e, c.body = .raise e →
      e.isCancellationException = true := by
    intro i c hc e he
    by_cases hl : c.launcher = .viewModelScope
    · -- A chat coroutine throws what its stream ended with, and that was `OK`.
      have hphase := chatPhase h hc hl
      rw [he] at hphase
      rcases hphase.raise_eq with rfl | ⟨code, hmem, hcode, _⟩
      · rfl
      · exact absurd (hok i code (mem_streamEndsOf.1 hmem)) hcode
    · -- A refresh throws nothing but cancellations, however its fetch ended.
      have hphase := refreshPhase h hc hl
      rw [he] at hphase
      rw [hphase.raise_eq]
      rfl
  refine ⟨?_, ?_⟩
  · intro c hmem _ e he
    rcases List.getElem?_of_mem hmem with ⟨i, hc⟩
    exact honly i c hc e he
  · apply List.eq_nil_iff_forall_not_mem.2
    intro e he
    rcases exists_coroutine_of_uncaught h he with ⟨i, c, hc, _, hraise, hcan⟩
    rw [honly i c hc e hraise] at hcan
    cases hcan

/-- A stream that ends otherwise breaks containment on the spot. -/
theorem not_contained_of_stream_failure {i : ℕ} {code : StatusCode}
    (h : machine.Run es tr s) (hmem : .signal i (.streamEnds code) ∈ es) (hcode : code ≠ .ok) :
    ∃ s' ∈ tr, ¬ Contained s' := by
  rcases h.step_of_mem hmem with ⟨pre, post, tr', s₁, s₂, rfl, hrun, hstep, hs₂⟩
  refine ⟨s₂, hs₂, ?_⟩
  intro hcontained
  have hrun₂ := Machine.Run.step hrun hstep
  rcases step_signal hstep with ⟨c, body, hc, hbody, rfl⟩
  have hlt : i < s₁.coroutines.length := (List.getElem?_eq_some_iff.1 hc).1
  have hc₂ : (s₁.coroutines.set i { c with body := body })[i]? = some { c with body := body } := by
    rw [List.getElem?_set_self hlt]
  by_cases hl : c.launcher = .viewModelScope
  · have hphase := chatPhase hrun₂ hc₂ hl
    have hend : code ∈ streamEndsOf i (pre ++ [.signal i (.streamEnds code)]) :=
      mem_streamEndsOf.2 (by simp)
    have hraise : body = .raise (.exception (.statusException code)) := hphase.body_eq hend hcode
    have hcan := hcontained.only_cancellation _ (List.mem_of_getElem? hc₂) (by simp [hl]) _ hraise
    cases hcan
  · -- Only a chat coroutine has a stream.
    rw [(refreshPhase hrun hc hl).resume_streamEnds] at hbody
    cases hbody

/-- **Exception containment.** In every run, and in every state it visits, nothing but cancellations
leaves the launched coroutines, if and only if no chat stream ends with a status other than `OK`. -/
theorem contained_iff_streams_ok (h : machine.Run es tr s) :
    (∀ s' ∈ tr, Contained s') ↔ ∀ i code, .signal i (.streamEnds code) ∈ es → code = .ok := by
  constructor
  · intro hall i code hmem
    by_contra hcode
    rcases not_contained_of_stream_failure h hmem hcode with ⟨s', hs', hnot⟩
    exact hnot (hall s' hs')
  · intro hok s' hs'
    rcases h.exists_of_mem hs' with ⟨pre, post, tr', rfl, hpre⟩
    refine contained_of_streams_ok hpre fun i code hmem => ?_
    exact hok i code (List.mem_append_left _ hmem)

/-- A view model whose server answers and hangs up properly. -/
def polite : List Event :=
  [ .launch .viewModelScope
  , .signal 0 .dispatched
  , .signal 0 .logged
  , .signal 0 .requestPulled
  , .signal 0 (.messageReceived { userId := "SERVER", content := "Welcome", timestamp := "0" })
  , .signal 0 (.streamEnds .ok) ]

theorem polite_contained :
    ∃ tr s, machine.Run polite tr s ∧ ∀ s' ∈ tr, Contained s' := by
  have hexec : (machine.exec machine.init polite).map State.uncaught = some [] := rfl
  rcases Machine.exists_run_of_exec State.uncaught hexec with ⟨tr, s, hrun, _⟩
  refine ⟨tr, s, hrun, (contained_iff_streams_ok hrun).2 ?_⟩
  intro i code hmem
  have hend : i = 0 ∧ code = .ok := by
    simpa [polite] using hmem
  exact hend.2

/-- A view model whose server is not there: the call ends with `UNAVAILABLE`. -/
def unreachable : List Event :=
  [ .launch .viewModelScope
  , .signal 0 .dispatched
  , .signal 0 .logged
  , .signal 0 (.streamEnds .unavailable) ]

theorem not_always_contained :
    ¬ ∀ es tr s, machine.Run es tr s → ∀ s' ∈ tr, Contained s' := by
  intro hall
  have hexec : (machine.exec machine.init unreachable).map State.uncaught =
      some [.exception (.statusException .unavailable)] := rfl
  rcases Machine.exists_run_of_exec State.uncaught hexec with ⟨tr, s, hrun, huncaught⟩
  have hnil := (hall _ _ _ hrun s hrun.last_mem).uncaught_nil
  rw [huncaught] at hnil
  cases hnil

end Background
end KmpApp
