import KmpApp.Transition.Run
import KmpApp.Transition.View

/-!
# StateFlow — conflated state holders and their collectors

A `MutableStateFlow` holds one value; setting an equal value does nothing.  A collector repeats:
read the value, and if it is the first one or differs from the last one it handed over, hand it
over.  Reading and handing over are separate steps, so a value may be replaced in between and the
collector then hands over a value that is no longer current.

This file provides:

* `MutableStateFlow` and `Collector` with their operations;
* `Observer` — a collector together with the (transformed) value it last handed over;
* `Observer.Tracks` — the observer is a non-regressing view of the history of the state holder,
  kept by every step of the observer and by every growth of the history.

Starting, stopping and restarting a collector forgets what it had read; this is what keeps the
view from going back when one collector replaces another.
-/

namespace KmpApp
namespace Flow

open Transition

universe u v

/-! ## State holders -/

structure MutableStateFlow (α : Type u) where
  value : α
  deriving DecidableEq, Repr

namespace MutableStateFlow

variable {α : Type u} [DecidableEq α]

/-- The setter of `value`: conflated by equality. -/
def setValue (flow : MutableStateFlow α) (newValue : α) : MutableStateFlow α :=
  if flow.value = newValue then flow else { value := newValue }

@[simp] theorem setValue_value (flow : MutableStateFlow α) (newValue : α) :
    (flow.setValue newValue).value = newValue := by
  by_cases h : flow.value = newValue
  · simp [setValue, h]
  · simp [setValue, h]

end MutableStateFlow

/-! ## Collectors -/

/-- One collection of a state holder: not running, waiting for a value other than the last one it
handed over, or about to hand over the value it has read. -/
inductive Collector (α : Type u)
  | inactive
  | waiting (oldState : Option α)
  | emitting (newState : α)
  deriving DecidableEq, Repr

namespace Collector

variable {α : Type u}

def start : Collector α → Option (Collector α)
  | .inactive => some (.waiting none)
  | _ => none

def stop : Collector α → Option (Collector α)
  | .inactive => none
  | _ => some .inactive

/-- Cancel the running collection, if any, and begin a fresh one in its place. -/
def restart : Collector α → Collector α
  | .inactive => .inactive
  | _ => .waiting none

/-- Read the value of the state holder. -/
def take [DecidableEq α] (value : α) : Collector α → Option (Collector α)
  | .waiting oldState => if oldState = some value then none else some (.emitting value)
  | _ => none

/-- Hand the value that was read over. -/
def deliver : Collector α → Option (α × Collector α)
  | .emitting newState => some (newState, .waiting (some newState))
  | _ => none

/-- The value that was read and not handed over yet. -/
def read? : Collector α → Option α
  | .emitting newState => some newState
  | _ => none

theorem start_ne_emitting {c c' : Collector α} (h : c.start = some c') (v : α) :
    c' ≠ .emitting v := by
  cases c with
  | inactive =>
      rw [← Option.some.inj h]
      simp
  | waiting oldState =>
      cases h
  | emitting newState =>
      cases h

theorem stop_ne_emitting {c c' : Collector α} (h : c.stop = some c') (v : α) :
    c' ≠ .emitting v := by
  -- Whatever the collector was doing, it is inactive afterwards.
  cases c with
  | inactive =>
      cases h
  | waiting oldState =>
      rw [← Option.some.inj h]
      simp
  | emitting newState =>
      rw [← Option.some.inj h]
      simp

theorem restart_ne_emitting (c : Collector α) (v : α) : c.restart ≠ .emitting v := by
  cases c <;> simp [restart]

theorem take_eq_some [DecidableEq α] {value : α} {c c' : Collector α}
    (h : c.take value = some c') : c' = .emitting value := by
  cases c with
  | inactive =>
      simp [take] at h
  | waiting oldState =>
      by_cases hold : oldState = some value
      · simp [take, hold] at h
      · simpa [take, hold] using h.symm
  | emitting newState =>
      simp [take] at h

theorem deliver_eq_some {c c' : Collector α} {v : α} (h : c.deliver = some (v, c')) :
    c = .emitting v ∧ c' = .waiting (some v) := by
  cases c with
  | inactive =>
      simp [deliver] at h
  | waiting oldState =>
      simp [deliver] at h
  | emitting newState =>
      have hpair : newState = v ∧ Collector.waiting (some newState) = c' := by
        simpa [deliver] using h
      rcases hpair with ⟨rfl, rfl⟩
      exact ⟨rfl, rfl⟩

theorem start_read? {c c' : Collector α} (h : c.start = some c') : c'.read? = none := by
  cases c with
  | inactive =>
      rw [← Option.some.inj h]
      rfl
  | _ =>
      cases h

theorem stop_read? {c c' : Collector α} (h : c.stop = some c') : c'.read? = none := by
  cases c with
  | inactive =>
      cases h
  | _ =>
      rw [← Option.some.inj h]
      rfl

end Collector

/-! ## Observers -/

/-- A collector and the value downstream of it. -/
structure Observer (α : Type u) (β : Type v) where
  shown : β
  collector : Collector α

namespace Observer

variable {α : Type u} {β : Type v}

/-- The steps of an observer of a state holder with current value `value`, through `f`. -/
inductive Step (f : α → β) (value : α) : Observer α β → Observer α β → Prop where
  | control {shown : β} {c c' : Collector α} :
      (∀ v, c' = .emitting v → c = .emitting v) → Step f value ⟨shown, c⟩ ⟨shown, c'⟩
  | take {shown : β} {c : Collector α} :
      Step f value ⟨shown, c⟩ ⟨shown, .emitting value⟩
  | deliver {shown : β} {v : α} :
      Step f value ⟨shown, .emitting v⟩ ⟨f v, .waiting (some v)⟩

section Steps

variable {f : α → β} {value : α} {shown : β} {c c' : Collector α}

theorem step_start (h : c.start = some c') : Step f value ⟨shown, c⟩ ⟨shown, c'⟩ :=
  Step.control fun v hv => absurd hv (Collector.start_ne_emitting h v)

theorem step_stop (h : c.stop = some c') : Step f value ⟨shown, c⟩ ⟨shown, c'⟩ :=
  Step.control fun v hv => absurd hv (Collector.stop_ne_emitting h v)

theorem step_restart : Step f value ⟨shown, c⟩ ⟨shown, c.restart⟩ :=
  Step.control fun v hv => absurd hv (Collector.restart_ne_emitting c v)

theorem step_stay : Step f value ⟨shown, c⟩ ⟨shown, c⟩ :=
  Step.control fun _ hv => hv

theorem step_take [DecidableEq α] (h : c.take value = some c') :
    Step f value ⟨shown, c⟩ ⟨shown, c'⟩ := by
  rw [Collector.take_eq_some h]
  exact Step.take

theorem step_deliver {v : α} (h : c.deliver = some (v, c')) :
    Step f value ⟨shown, c⟩ ⟨f v, c'⟩ := by
  rcases Collector.deliver_eq_some h with ⟨rfl, rfl⟩
  exact Step.deliver

end Steps

/-- After showing `vs`, the observer is a view of `H` up to some position, and a value it has read
but not handed over yet does not lie before that position. -/
def Tracks (o : Observer α β) (f : α → β) (H : List α) (vs : List β) : Prop :=
  ∃ p, ViewTo (H.map f) vs p ∧ vs.getLast? = some o.shown ∧
    ∀ v, o.collector = .emitting v → ∃ q, p ≤ q ∧ H[q]? = some v

namespace Tracks

variable {f : α → β} {H H' : List α} {vs : List β} {o o' : Observer α β} {value : α}

theorem first (hH : H[0]? = some value) : Tracks ⟨f value, .inactive⟩ f H [f value] := by
  refine ⟨0, ViewTo.first (by simp [hH]), by simp, ?_⟩
  intro v hv
  cases hv

theorem mono (h : o.Tracks f H vs) (hH : H <+: H') : o.Tracks f H' vs := by
  rcases h with ⟨p, hview, hlast, hread⟩
  refine ⟨p, hview.mono (hH.map f), hlast, ?_⟩
  intro v hv
  rcases hread v hv with ⟨q, hpq, hq⟩
  exact ⟨q, hpq, getElem?_of_grown hH hq⟩

/-- One step of the observer, against the last value of the history. -/
theorem step (h : o.Tracks f H vs) (hstep : Step f value o o') (hvalue : H.getLast? = some value) :
    o'.Tracks f H (vs ++ [o'.shown]) := by
  rcases h with ⟨p, hview, hlast, hread⟩
  have hshown : (H.map f)[p]? = some o.shown := hview.getLast?_eq.symm.trans hlast
  cases hstep with
  | control hc =>
      -- The same value is shown once more, at the same position.
      refine ⟨p, hview.next le_rfl hshown, by simp, ?_⟩
      intro v hv
      exact hread v (hc v hv)
  | take =>
      refine ⟨p, hview.next le_rfl hshown, by simp, ?_⟩
      intro v hv
      cases hv
      -- What has just been read is the last value of the history.
      have hp : p < H.length := by
        simpa using hview.lt_length
      refine ⟨H.length - 1, by omega, ?_⟩
      rw [← List.getLast?_eq_getElem?]
      exact hvalue
  | deliver =>
      rename_i v
      -- The view moves on to the position at which the value was read.
      rcases hread v rfl with ⟨q, hpq, hq⟩
      refine ⟨q, hview.next hpq (by simp [hq]), by simp, ?_⟩
      intro w hw
      cases hw

/-- Nothing happened to the observer. -/
theorem stay (h : o.Tracks f H vs) : o.Tracks f H (vs ++ [o.shown]) := by
  rcases h with ⟨p, hview, hlast, hread⟩
  exact ⟨p, hview.next le_rfl (hview.getLast?_eq.symm.trans hlast), by simp, hread⟩

/-- What is shown comes from the history. -/
theorem exists_mem (h : o.Tracks f H vs) : ∃ v ∈ H, o.shown = f v := by
  rcases h with ⟨p, hview, hlast, _⟩
  have hshown : (H.map f)[p]? = some o.shown := hview.getLast?_eq.symm.trans hlast
  rw [List.getElem?_map] at hshown
  rcases Option.map_eq_some_iff.1 hshown with ⟨v, hv, heq⟩
  exact ⟨v, List.mem_of_getElem? hv, heq.symm⟩

theorem nonRegressing (h : o.Tracks f H vs) : NonRegressing (H.map f) vs := by
  rcases h with ⟨p, hview, _, _⟩
  exact hview.nonRegressing

/-- An observer changes at most once for each value after the first. -/
theorem changes_le [DecidableEq β] (h : o.Tracks f H vs) : changes vs ≤ H.length - 1 := by
  rcases h with ⟨p, hview, _, _⟩
  have hp : p < H.length := by
    simpa using hview.lt_length
  have hle := hview.changes_le
  omega

end Tracks

end Observer

/-! ## Observers in a run -/

section Observed

variable {σ : Type u} {ε : Type v} {α β : Type*}

/-- A machine writes the history `hist` of one state holder, with first value `first`, and `get`
reads off one observer of it (with its transformation) in each state.  The observer appears with
the first value, stays, and moves only by its own steps. -/
structure Observed (m : Machine σ ε) (hist : List ε → List α) (first : α)
    (get : σ → Option ((α → β) × Observer α β)) : Prop where
  head : ∀ es, (hist es)[0]? = some first
  grows : ∀ es e, hist es <+: hist (es ++ [e])
  init : get m.init = none
  gone : ∀ {s s' : σ} {e : ε}, m.step s e = some s' → get s' = none → get s = none
  step : ∀ {es : List ε} {tr : List σ} {s s' : σ} {e : ε} {f : α → β} {o' : Observer α β},
    m.Run es tr s → m.step s e = some s' → get s' = some (f, o') →
      (get s = none ∧ o' = ⟨f first, .inactive⟩) ∨
      ∃ o, get s = some (f, o) ∧
        (o' = o ∨
          hist (es ++ [e]) = hist es ∧
            ∃ value, (hist es).getLast? = some value ∧ Observer.Step f value o o')

/-- The values the observer shows in the states of a run. -/
def shownIn (get : σ → Option ((α → β) × Observer α β)) (tr : List σ) : List β :=
  tr.filterMap fun s => (get s).map fun fo => fo.2.shown

namespace Observed

variable {m : Machine σ ε} {hist : List ε → List α} {first : α}
  {get : σ → Option ((α → β) × Observer α β)} {es : List ε} {tr : List σ} {s : σ}

theorem shownIn_nil (h : Observed m hist first get) (hrun : m.Run es tr s) (hs : get s = none) :
    shownIn get tr = [] := by
  induction hrun with
  | init =>
      simp [shownIn, hs]
  | step _hrun hstep ih =>
      have hold := ih (h.gone hstep hs)
      simpa [shownIn, hs] using hold

/-- Whatever the schedule, the observer tracks the history. -/
theorem tracks (h : Observed m hist first get) (hrun : m.Run es tr s) {f : α → β}
    {o : Observer α β} (ho : get s = some (f, o)) : o.Tracks f (hist es) (shownIn get tr) := by
  induction hrun generalizing f o with
  | init =>
      rw [h.init] at ho
      cases ho
  | step hrun hstep ih =>
      rename_i es tr s s' e
      have hshown : shownIn get (tr ++ [s']) = shownIn get tr ++ [o.shown] := by
        simp [shownIn, ho]
      rw [hshown]
      rcases h.step hrun hstep ho with ⟨hnone, rfl⟩ | ⟨o₀, ho₀, hmove⟩
      · -- The observer has just appeared.
        rw [h.shownIn_nil hrun hnone]
        exact Observer.Tracks.first (h.head _)
      · have htracks := ih ho₀
        rcases hmove with rfl | ⟨hsame, value, hvalue, hobs⟩
        · -- Something else happened, and the history may have grown.
          exact (htracks.mono (h.grows es e)).stay
        · rw [hsame]
          exact htracks.step hobs hvalue

end Observed

end Observed

end Flow
end KmpApp
