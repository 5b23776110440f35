import KmpApp.Transition.Run

/-!
# Simulation — one machine inside another

A `Simulation` maps the states of a machine to the states of a simpler one.  Each step is matched
by a step of the simpler machine or leaves the mapped state alone (it *stutters*), and the two
machines agree on what is observed of their events.

`Simulation.run` says that every run is mapped to a run with the same observations, so that what
is known of the runs of the simpler machine carries over.

The step condition may use the run that leads up to the step, so that one simulation can be built
on the results of another.
-/

namespace KmpApp
namespace Transition

universe u v w

variable {σ σ' : Type u} {ε ε' : Type v} {β : Type w}

structure Simulation (m : Machine σ ε) (m' : Machine σ' ε') (abs : σ → σ') (obs : ε → List β)
    (obs' : ε' → List β) : Prop where
  init : abs m.init = m'.init
  step : ∀ {es : List ε} {tr : List σ} {s s' : σ} {e : ε}, m.Run es tr s → m.step s e = some s' →
    (abs s' = abs s ∧ obs e = []) ∨
      ∃ e', m'.step (abs s) e' = some (abs s') ∧ obs' e' = obs e

namespace Simulation

variable {m : Machine σ ε} {m' : Machine σ' ε'} {abs : σ → σ'} {obs : ε → List β}
  {obs' : ε' → List β} {es : List ε} {tr : List σ} {s : σ}

/-- Every run is mapped to a run of the simpler machine with the same observations. -/
theorem run (h : Simulation m m' abs obs obs') (hrun : m.Run es tr s) :
    ∃ es' : List ε', ∃ tr' : List σ', m'.Run es' tr' (abs s) ∧
      es'.flatMap obs' = es.flatMap obs := by
  induction hrun with
  | init =>
      refine ⟨[], [m'.init], ?_, rfl⟩
      rw [h.init]
      exact Machine.Run.init
  | step hrun hstep ih =>
      rename_i es tr s s' e
      rcases ih with ⟨es', tr', hrun', hobs⟩
      rcases h.step hrun hstep with ⟨hstutter, hsilent⟩ | ⟨e', hstep', he'⟩
      · refine ⟨es', tr', ?_, ?_⟩
        · rw [hstutter]
          exact hrun'
        · simp [hobs, hsilent]
      · refine ⟨es' ++ [e'], tr' ++ [abs s'], Machine.Run.step hrun' hstep', ?_⟩
        simp [hobs, he']

end Simulation

end Transition
end KmpApp
