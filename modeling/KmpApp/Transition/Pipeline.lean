import KmpApp.Transition.View

/-!
# Pipeline — views of views

A value of an append-only history may reach an observer through several holders, each of which
copies from the one before it whenever it likes.  The holders are the *stages* of a pipeline; an
empty stage is `none`.  This file provides:

* `Lagging H lo hi stages` — the stages hold elements of `H` at positions that do not increase from
  one stage to the next, all of them between `lo` and `hi`;
* `Passes` — what stages may do: copy the stage before, or forget;
* `Follows H stages vs` — after `vs` was observed at the last stage, nothing older than the last
  observation is left in the pipeline.

So however the copying is scheduled, the last stage is a non-regressing view of the history.
-/

namespace KmpApp
namespace Transition

universe u

variable {α : Type u}

/-! ## Stages that lag behind a history -/

def Lagging (H : List α) (lo : ℕ) : ℕ → List (Option α) → Prop
  | hi, [] => lo ≤ hi
  | hi, none :: stages => Lagging H lo hi stages
  | hi, some v :: stages => ∃ p ≤ hi, H[p]? = some v ∧ Lagging H lo p stages

/-- What the stages may do on their own: a stage copies the stage before it, or forgets. -/
inductive Passes : List (Option α) → List (Option α) → Prop where
  | refl (stages : List (Option α)) : Passes stages stages
  | trans {st st' st'' : List (Option α)} : Passes st st' → Passes st' st'' → Passes st st''
  | copy (v : α) (x : Option α) (stages : List (Option α)) :
      Passes (some v :: x :: stages) (some v :: some v :: stages)
  | clear (x : Option α) (stages : List (Option α)) : Passes (x :: stages) (none :: stages)
  | cons (x : Option α) {st st' : List (Option α)} : Passes st st' → Passes (x :: st) (x :: st')

namespace Lagging

variable {H H' : List α} {lo hi hi' : ℕ} {st st' : List (Option α)} {v : α}

theorem mono (h : Lagging H lo hi st) (hH : H <+: H') : Lagging H' lo hi st := by
  induction st generalizing hi with
  | nil =>
      exact h
  | cons x st ih =>
      cases x with
      | none =>
          exact ih h
      | some v =>
          rcases h with ⟨p, hp, hv, hrest⟩
          exact ⟨p, hp, getElem?_of_grown hH hv, ih hrest⟩

theorem raise (h : Lagging H lo hi st) (hle : hi ≤ hi') : Lagging H lo hi' st := by
  induction st generalizing hi hi' with
  | nil =>
      exact le_trans h hle
  | cons x st ih =>
      cases x with
      | none =>
          exact ih h hle
      | some v =>
          rcases h with ⟨p, hp, hv, hrest⟩
          exact ⟨p, le_trans hp hle, hv, hrest⟩

/-- The first stage may be filled with what stands at the upper end. -/
theorem load {x : Option α} (h : Lagging H lo hi (x :: st)) (hv : H[hi]? = some v) :
    Lagging H lo hi (some v :: st) := by
  cases x with
  | none =>
      exact ⟨hi, le_rfl, hv, h⟩
  | some w =>
      rcases h with ⟨p, hp, _, hrest⟩
      exact ⟨hi, le_rfl, hv, hrest.raise hp⟩

theorem passes (h : Passes st st') : ∀ {hi : ℕ}, Lagging H lo hi st → Lagging H lo hi st' := by
  induction h with
  | refl stages =>
      intro hi hlag
      exact hlag
  | trans _ _ ih ih' =>
      intro hi hlag
      exact ih' (ih hlag)
  | copy v x stages =>
      -- The copy stands where the original does, which is not before what it replaces.
      intro hi hlag
      rcases hlag with ⟨p, hp, hv, hrest⟩
      exact ⟨p, hp, hv, hrest.load hv⟩
  | clear x stages =>
      intro hi hlag
      cases x with
      | none =>
          exact hlag
      | some v =>
          rcases hlag with ⟨p, hp, _, hrest⟩
          exact Lagging.raise hrest hp
  | cons x _ ih =>
      intro hi hlag
      cases x with
      | none =>
          exact ih hlag
      | some v =>
          rcases hlag with ⟨p, hp, hv, hrest⟩
          exact ⟨p, hp, hv, ih hrest⟩

/-- Observing the last stage moves the lower end up to it. -/
theorem observe (h : Lagging H lo hi (st ++ [some v])) :
    ∃ p, lo ≤ p ∧ H[p]? = some v ∧ Lagging H p hi (st ++ [some v]) := by
  induction st generalizing hi with
  | nil =>
      rcases h with ⟨p, hp, hv, hlo⟩
      exact ⟨p, hlo, hv, p, hp, hv, le_rfl⟩
  | cons x st ih =>
      cases x with
      | none =>
          exact ih h
      | some w =>
          rcases h with ⟨q, hq, hw, hrest⟩
          rcases ih hrest with ⟨p, hlo, hv, hrest'⟩
          exact ⟨p, hlo, hv, q, hq, hw, hrest'⟩

/-- What a stage holds comes from the history, up to the upper end. -/
theorem exists_le (h : Lagging H lo hi st) (hv : some v ∈ st) : ∃ p ≤ hi, H[p]? = some v := by
  induction st generalizing hi with
  | nil =>
      cases hv
  | cons x st ih =>
      rcases List.mem_cons.1 hv with hx | hrest
      · subst hx
        rcases h with ⟨p, hp, hp', _⟩
        exact ⟨p, hp, hp'⟩
      · cases x with
        | none =>
            exact ih h hrest
        | some w =>
            rcases h with ⟨q, hq, _, h'⟩
            rcases ih h' hrest with ⟨p, hp, hp'⟩
            exact ⟨p, le_trans hp hq, hp'⟩

/-- Of two stages the later one holds the older element. -/
theorem older {w : α} (h : Lagging H lo hi st) (hsub : List.Sublist [some v, some w] st) :
    ∃ p q : ℕ, p ≤ q ∧ H[q]? = some v ∧ H[p]? = some w := by
  induction st generalizing hi with
  | nil =>
      cases hsub
  | cons x st ih =>
      cases hsub with
      | cons _ hsub =>
          cases x with
          | none =>
              exact ih h hsub
          | some _ =>
              rcases h with ⟨_, _, _, h'⟩
              exact ih h' hsub
      | cons_cons _ hsub =>
          rcases h with ⟨q, _, hq, h'⟩
          have hw : some w ∈ st := hsub.subset (by simp)
          rcases h'.exists_le hw with ⟨p, hp, hp'⟩
          exact ⟨p, q, hp, hq, hp'⟩

end Lagging

/-! ## Observing the last stage -/

def Follows (H : List α) (stages : List (Option α)) (vs : List α) : Prop :=
  ∃ p, ViewTo H vs p ∧ Lagging H p (H.length - 1) stages

namespace Follows

variable {H H' vs : List α} {st st' : List (Option α)} {v : α}

theorem mono (h : Follows H st vs) (hH : H <+: H') : Follows H' st vs := by
  rcases h with ⟨p, hview, hlag⟩
  refine ⟨p, hview.mono hH, (hlag.mono hH).raise ?_⟩
  have hlen := hH.length_le
  omega

theorem passes (h : Follows H st vs) (hpass : Passes st st') : Follows H st' vs := by
  rcases h with ⟨p, hview, hlag⟩
  exact ⟨p, hview, hlag.passes hpass⟩

/-- The first stage reads the newest element. -/
theorem load {x : Option α} (h : Follows H (x :: st) vs) (hv : H.getLast? = some v) :
    Follows H (some v :: st) vs := by
  rcases h with ⟨p, hview, hlag⟩
  rw [List.getLast?_eq_getElem?] at hv
  exact ⟨p, hview, hlag.load hv⟩

/-- The last stage is observed. -/
theorem observe (h : Follows H (st ++ [some v]) vs) : Follows H (st ++ [some v]) (vs ++ [v]) := by
  rcases h with ⟨p, hview, hlag⟩
  rcases hlag.observe with ⟨q, hpq, hv, hlag'⟩
  exact ⟨q, hview.next hpq hv, hlag'⟩

theorem older {w : α} (h : Follows H st vs) (hsub : List.Sublist [some v, some w] st) :
    ∃ p q : ℕ, p ≤ q ∧ H[q]? = some v ∧ H[p]? = some w := by
  rcases h with ⟨p, _, hlag⟩
  exact hlag.older hsub

theorem mem (h : Follows H st vs) (hv : some v ∈ st) : v ∈ H := by
  rcases h with ⟨_, _, hlag⟩
  rcases hlag.exists_le hv with ⟨p, _, hp⟩
  exact List.mem_of_getElem? hp

theorem nonRegressing (h : Follows H st vs) : NonRegressing H vs := by
  rcases h with ⟨p, hview, _⟩
  exact hview.nonRegressing

end Follows

end Transition
end KmpApp
