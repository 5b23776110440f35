import Mathlib.Data.List.Basic
import Mathlib.Data.List.Infix
import Mathlib.Data.List.Range

/-!
# Run — finite and infinite runs of guarded machines

A `Machine` is an initial state with a *guarded* step function: `step s e = none` says that the
event `e` is not enabled in `s`.  This file provides:

* `Machine.Run es tr s` — the events `es` are enabled one after the other from the initial state,
  visit the states `tr` (first and last included) and end in `s`;
* `Machine.exec` — the executable counterpart, used to replay concrete schedules;
* `Machine.Path` — infinite runs;
* `updateAt` — one step of one component in a pool of components.

Events are appended on the right, so that induction on a run is induction on its last step: the
step lemma of an invariant is exactly the `step` case of that induction.
-/

namespace KmpApp
namespace Transition

universe u v w

/-- A guarded, executable transition system. -/
structure Machine (σ : Type u) (ε : Type v) where
  init : σ
  step : σ → ε → Option σ

namespace Machine

variable {σ : Type u} {ε : Type v} (m : Machine σ ε)

/-! ## Runs -/

inductive Run : List ε → List σ → σ → Prop where
  | init : Run [] [m.init] m.init
  | step {es : List ε} {tr : List σ} {s s' : σ} {e : ε} :
      Run es tr s → m.step s e = some s' → Run (es ++ [e]) (tr ++ [s']) s'

/-- Replay a schedule from `s`; `none` as soon as an event is not enabled. -/
def exec (s : σ) : List ε → Option σ
  | [] => some s
  | e :: es => (m.step s e).bind fun s' => exec s' es

variable {m}

@[simp] theorem exec_nil (s : σ) : m.exec s [] = some s := rfl

theorem exec_cons {s s' : σ} {e : ε} (h : m.step s e = some s') (es : List ε) :
    m.exec s (e :: es) = m.exec s' es := by
  simp [exec, h]

theorem exec_append (s : σ) (es fs : List ε) :
    m.exec s (es ++ fs) = (m.exec s es).bind fun s' => m.exec s' fs := by
  induction es generalizing s with
  | nil =>
      rfl
  | cons e es ih =>
      cases h : m.step s e with
      | none =>
          simp [exec, h]
      | some s' =>
          simp [exec, h, ih]

theorem exec_trans {s s' s'' : σ} {es fs : List ε}
    (h : m.exec s es = some s') (h' : m.exec s' fs = some s'') :
    m.exec s (es ++ fs) = some s'' := by
  simp [exec_append, h, h']

theorem exec_concat {s s' s'' : σ} {es : List ε} {e : ε}
    (h : m.exec s es = some s') (hstep : m.step s' e = some s'') :
    m.exec s (es ++ [e]) = some s'' :=
  exec_trans h (by simp [exec, hstep])

namespace Run

variable {es : List ε} {tr : List σ} {s : σ}

theorem exec_eq (h : m.Run es tr s) : m.exec m.init es = some s := by
  induction h with
  | init =>
      rfl
  | step _ hstep ih =>
      exact exec_concat ih hstep

/-- A schedule that replays from the end of a run extends that run. -/
theorem append {fs : List ε} {s' : σ} (h : m.Run es tr s) (hexec : m.exec s fs = some s') :
    ∃ tr' : List σ, m.Run (es ++ fs) (tr ++ tr') s' := by
  induction fs generalizing es tr s with
  | nil =>
      have hs : s = s' := by
        simpa using hexec
      subst hs
      exact ⟨[], by simpa using h⟩
  | cons e fs ih =>
      cases hstep : m.step s e with
      | none =>
          simp [exec, hstep] at hexec
      | some s₁ =>
          have hexec' : m.exec s₁ fs = some s' := by
            simpa [exec, hstep] using hexec
          -- Take the step of `e` first: the rest of the schedule extends the longer run.
          rcases ih (Run.step h hstep) hexec' with ⟨tr', htr'⟩
          refine ⟨s₁ :: tr', ?_⟩
          simpa using htr'

theorem last_mem (h : m.Run es tr s) : s ∈ tr := by
  cases h with
  | init =>
      simp
  | step _ _ =>
      simp

/-- Every state a run visits is the end of a run of an initial part of its events. -/
theorem exists_of_mem {s' : σ} (h : m.Run es tr s) (hmem : s' ∈ tr) :
    ∃ pre post : List ε, ∃ tr' : List σ, es = pre ++ post ∧ m.Run pre tr' s' := by
  induction h with
  | init =>
      have hs : s' = m.init := by
        simpa using hmem
      subst hs
      exact ⟨[], [], [m.init], rfl, Run.init⟩
  | step hrun hstep ih =>
      rename_i es tr s s₁ e
      rcases List.mem_append.1 hmem with hold | hnew
      · -- Visited before the last step, which then belongs to the rest.
        rcases ih hold with ⟨pre, post, tr', rfl, hpre⟩
        exact ⟨pre, post ++ [e], tr', by simp, hpre⟩
      · have hs : s' = s₁ := by
          simpa using hnew
        subst hs
        exact ⟨es ++ [e], [], tr ++ [s'], by simp, Run.step hrun hstep⟩

/-- Any initial part of the events of a run is itself a run, through the first states of the longer
one. -/
theorem split {pre post : List ε} (h : m.Run (pre ++ post) tr s) :
    ∃ tr' : List σ, ∃ s' : σ, m.Run pre tr' s' ∧ tr' <+: tr := by
  generalize hes : pre ++ post = es at h
  induction h generalizing post with
  | init =>
      have hpre : pre = [] := (List.append_eq_nil_iff.1 hes).1
      subst hpre
      exact ⟨[m.init], m.init, Run.init, List.prefix_refl _⟩
  | step hrun hstep ih =>
      rename_i es tr s s₁ e
      rcases List.eq_nil_or_concat post with rfl | ⟨post', e', rfl⟩
      · -- Nothing is cut off.
        have hpre : pre = es ++ [e] := by
          simpa using hes
        subst hpre
        exact ⟨tr ++ [s₁], s₁, Run.step hrun hstep, List.prefix_refl _⟩
      · -- The last event is cut off, so the initial part lies in the shorter run.
        have hes' : pre ++ post' ++ [e'] = es ++ [e] := by
          simpa [List.concat_eq_append] using hes
        have hinit : pre ++ post' = es := (List.append_inj' hes' rfl).1
        rcases ih hinit with ⟨tr', s', hpre, hle⟩
        exact ⟨tr', s', hpre, hle.trans (List.prefix_append _ _)⟩

/-- A run with two ways to end agrees on the end state. -/
theorem unique {tr' : List σ} {s' : σ} (h : m.Run es tr s) (h' : m.Run es tr' s') : s = s' := by
  have hsome : some s = some s' := h.exec_eq.symm.trans h'.exec_eq
  exact Option.some.inj hsome

/-- The step that a given event of a run takes, between two visited states. -/
theorem step_at {pre post : List ε} {e : ε} (h : m.Run (pre ++ e :: post) tr s) :
    ∃ tr' : List σ, ∃ s₁ s₂ : σ, m.Run pre tr' s₁ ∧ m.step s₁ e = some s₂ ∧ s₁ ∈ tr ∧ s₂ ∈ tr := by
  have h' : m.Run ((pre ++ [e]) ++ post) tr s := by
    simpa using h
  rcases h'.split with ⟨trₑ, s₂, hrun₂, hle₂⟩
  rcases h.split with ⟨tr₁, s₁, hrun₁, hle₁⟩
  have hmem₁ : s₁ ∈ tr := hle₁.subset hrun₁.last_mem
  have hmem₂ : s₂ ∈ tr := hle₂.subset hrun₂.last_mem
  -- The longer of the two initial runs ends with the step we are looking for.
  generalize hes : pre ++ [e] = es at hrun₂
  cases hrun₂ with
  | init =>
      simp at hes
  | step hrun hstep =>
      rcases List.append_inj' hes rfl with ⟨rfl, hlast⟩
      cases hlast
      -- Both initial runs have the events `pre`, hence the same end.
      have hs := hrun.unique hrun₁
      subst hs
      exact ⟨tr₁, _, s₂, hrun₁, hstep, hmem₁, hmem₂⟩

/-- The step a given event takes, named by its position in the schedule. -/
theorem step_of_mem {e : ε} (h : m.Run es tr s) (hmem : e ∈ es) :
    ∃ pre post : List ε, ∃ tr' : List σ, ∃ s₁ s₂ : σ,
      es = pre ++ e :: post ∧ m.Run pre tr' s₁ ∧ m.step s₁ e = some s₂ ∧ s₂ ∈ tr := by
  rcases List.append_of_mem hmem with ⟨pre, post, rfl⟩
  rcases h.step_at with ⟨tr', s₁, s₂, hrun, hstep, _, hmem₂⟩
  exact ⟨pre, post, tr', s₁, s₂, rfl, hrun, hstep, hmem₂⟩

end Run

/-- A schedule that replays from the initial state is a run; `f` reads off the final state. -/
theorem exists_run_of_exec {α : Type w} (f : σ → α) {es : List ε} {a : α}
    (h : (m.exec m.init es).map f = some a) :
    ∃ tr : List σ, ∃ s : σ, m.Run es tr s ∧ f s = a := by
  rcases Option.map_eq_some_iff.1 h with ⟨s, hs, hf⟩
  rcases (Run.init (m := m)).append hs with ⟨tr, htr⟩
  exact ⟨_, s, by simpa using htr, hf⟩

/-! ## Infinite runs -/

variable (m) in
/-- An infinite run, as the sequences of its states and of its events. -/
structure Path where
  state : ℕ → σ
  event : ℕ → ε
  start : state 0 = m.init
  valid : ∀ t, m.step (state t) (event t) = some (state (t + 1))

namespace Path

/-- The first `n` events of an infinite run. -/
def events (p : m.Path) (n : ℕ) : List ε :=
  (List.range n).map p.event

/-- The states an infinite run visits up to time `n`. -/
def visited (p : m.Path) (n : ℕ) : List σ :=
  (List.range (n + 1)).map p.state

theorem run (p : m.Path) (n : ℕ) : m.Run (p.events n) (p.visited n) (p.state n) := by
  induction n with
  | zero =>
      simpa [events, visited, p.start] using Run.init (m := m)
  | succ n ih =>
      have hstep := Run.step ih (p.valid n)
      simpa [events, visited, List.range_succ] using hstep

end Path

end Machine

/-! ## Pools of components -/

section Pool

variable {α : Type u}

/-- Let component `i` of a pool take a step; `none` when there is no such component or when its
own step is not enabled. -/
def updateAt (xs : List α) (i : ℕ) (f : α → Option α) : Option (List α) :=
  xs[i]?.bind fun x => (f x).map fun y => xs.set i y

theorem updateAt_eq_some {xs ys : List α} {i : ℕ} {f : α → Option α} :
    updateAt xs i f = some ys ↔ ∃ x y, xs[i]? = some x ∧ f x = some y ∧ ys = xs.set i y := by
  constructor
  · intro h
    rcases Option.bind_eq_some_iff.1 h with ⟨x, hx, hy⟩
    rcases Option.map_eq_some_iff.1 hy with ⟨y, hfy, rfl⟩
    exact ⟨x, y, hx, hfy, rfl⟩
  · rintro ⟨x, y, hx, hfy, rfl⟩
    simp [updateAt, hx, hfy]

/-- Looking a component up after one component was replaced. -/
theorem getElem?_set_cases {xs : List α} {i j : ℕ} {y z : α} (h : (xs.set i y)[j]? = some z) :
    (j = i ∧ z = y) ∨ (j ≠ i ∧ xs[j]? = some z) := by
  by_cases hij : i = j
  · subst hij
    rw [List.getElem?_set_self'] at h
    rcases Option.map_eq_some_iff.1 h with ⟨_, _, hz⟩
    exact Or.inl ⟨rfl, by simpa using hz.symm⟩
  · rw [List.getElem?_set_ne hij] at h
    exact Or.inr ⟨fun hji => hij hji.symm, h⟩

/-- A component that moves keeps what `f` reads of it, and so does the pool. -/
theorem map_set_of_eq {β : Type v} {xs : List α} {i : ℕ} {x y : α} {f : α → β}
    (h : xs[i]? = some x) (hf : f y = f x) : (xs.set i y).map f = xs.map f := by
  rcases List.getElem?_eq_some_iff.1 h with ⟨hlt, rfl⟩
  have hmap : i < (xs.map f).length := by
    simpa using hlt
  rw [List.map_set, hf, ← List.getElem_map f (h := hmap)]
  exact List.set_getElem_self hmap

/-- Looking a component up after a new one joined the pool. -/
theorem getElem?_concat_cases {xs : List α} {y z : α} {j : ℕ} (h : (xs ++ [y])[j]? = some z) :
    (j = xs.length ∧ z = y) ∨ xs[j]? = some z := by
  by_cases hj : j < xs.length
  · rw [List.getElem?_append_left hj] at h
    exact Or.inr h
  · rw [List.getElem?_append_right (Nat.le_of_not_lt hj)] at h
    have hlt : j - xs.length < 1 := by
      simpa using (List.getElem?_eq_some_iff.1 h).1
    have hj' : j = xs.length := by
      omega
    subst hj'
    exact Or.inl ⟨rfl, by simpa using h.symm⟩

end Pool

end Transition
end KmpApp
