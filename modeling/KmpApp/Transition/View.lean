import Mathlib.Data.List.Basic
import Mathlib.Data.List.Infix
import Mathlib.Data.List.Range
import Mathlib.Order.Lattice.Nat
import Mathlib.Order.Monotone.Basic

/-!
# View — observers that never go back in an append-only history

An observer of a growing history `H` sees a sequence of values `vs`.  The observer is a
*non-regressing view* of `H` when the values it sees are elements of `H` at non-decreasing
positions, starting at the first element.  This file provides:

* `NonRegressing H vs` — the property itself, by a monotone position function;
* `ViewTo H vs p` — the same, built one observation at a time, with the current position `p`;
* `changes vs` — how often the observed value differs from the one before, and the bound of that
  number by the position reached;
* `eventually_constant` — an observer with a bounded number of changes settles.

The history only ever grows on the right, which is why all the notions are stable under `<+:`.
-/

namespace KmpApp
namespace Transition

universe u v

variable {α : Type u} {β : Type v}

/-! ## Non-regressing views -/

/-- The values `vs` are elements of `H` at non-decreasing positions, the first one at position `0`. -/
def NonRegressing (H vs : List α) : Prop :=
  ∃ pos : ℕ → ℕ, pos 0 = 0 ∧ Monotone pos ∧ ∀ t v, vs[t]? = some v → H[pos t]? = some v

/-- A view built one observation at a time; `p` is the position of the last observation. -/
inductive ViewTo (H : List α) : List α → ℕ → Prop where
  | first {v : α} : H[0]? = some v → ViewTo H [v] 0
  | next {vs : List α} {p q : ℕ} {v : α} :
      ViewTo H vs p → p ≤ q → H[q]? = some v → ViewTo H (vs ++ [v]) q

theorem getElem?_of_grown {H H' : List α} (h : H <+: H') {p : ℕ} {v : α}
    (hp : H[p]? = some v) : H'[p]? = some v := by
  rcases h with ⟨K, rfl⟩
  have hlt : p < H.length := (List.getElem?_eq_some_iff.1 hp).1
  rw [List.getElem?_append_left hlt]
  exact hp

namespace ViewTo

variable {H H' vs : List α} {p : ℕ}

theorem mono (h : ViewTo H vs p) (hH : H <+: H') : ViewTo H' vs p := by
  induction h with
  | first hv =>
      exact ViewTo.first (getElem?_of_grown hH hv)
  | next _ hle hv ih =>
      exact ViewTo.next ih hle (getElem?_of_grown hH hv)

theorem getLast?_eq (h : ViewTo H vs p) : vs.getLast? = H[p]? := by
  cases h with
  | first hv =>
      simp [hv]
  | next _ _ hv =>
      simp [hv]

theorem lt_length (h : ViewTo H vs p) : p < H.length := by
  cases h with
  | first hv =>
      exact (List.getElem?_eq_some_iff.1 hv).1
  | next _ _ hv =>
      exact (List.getElem?_eq_some_iff.1 hv).1

/-- The positions of a view, as one monotone function bounded by the last of them. -/
theorem exists_positions (h : ViewTo H vs p) :
    ∃ pos : ℕ → ℕ, pos 0 = 0 ∧ Monotone pos ∧ (∀ t, pos t ≤ p) ∧
      ∀ t v, vs[t]? = some v → H[pos t]? = some v := by
  induction h with
  | first hv =>
      rename_i v₀
      refine ⟨fun _ => 0, rfl, monotone_const, fun _ => le_rfl, ?_⟩
      intro t v ht
      have hlt : t < 1 := by
        simpa using (List.getElem?_eq_some_iff.1 ht).1
      have ht0 : t = 0 := by
        omega
      subst ht0
      have hvv : v₀ = v := by
        simpa using ht
      simpa [hvv] using hv
  | next hview hle hv ih =>
      rename_i vs p q w
      rcases ih with ⟨pos, hzero, hmono, hbound, hval⟩
      have hne : 0 < vs.length := by
        cases hview with
        | first _ =>
            simp
        | next _ _ _ =>
            simp
      -- Keep the old positions for the old values; everything later sits at `q`.
      refine ⟨fun t => if t < vs.length then pos t else q, ?_, ?_, ?_, ?_⟩
      · simp [hne, hzero]
      · intro a b hab
        by_cases hb : b < vs.length
        · have ha : a < vs.length := by
            omega
          simpa [ha, hb] using hmono hab
        · by_cases ha : a < vs.length
          · simpa [ha, hb] using le_trans (hbound a) hle
          · simp [ha, hb]
      · intro t
        by_cases ht : t < vs.length
        · simpa [ht] using le_trans (hbound t) hle
        · simp [ht]
      · intro t v hget
        by_cases ht : t < vs.length
        · rw [List.getElem?_append_left ht] at hget
          simpa [ht] using hval t v hget
        · rw [List.getElem?_append_right (Nat.le_of_not_lt ht)] at hget
          have hlt : t - vs.length < 1 := by
            simpa using (List.getElem?_eq_some_iff.1 hget).1
          have hzero' : t - vs.length = 0 := by
            omega
          have hvw : w = v := by
            simpa [hzero'] using hget
          simpa [ht, hvw] using hv

theorem nonRegressing (h : ViewTo H vs p) : NonRegressing H vs := by
  rcases h.exists_positions with ⟨pos, hzero, hmono, _, hval⟩
  exact ⟨pos, hzero, hmono, hval⟩

end ViewTo

theorem nonRegressing_nil (H : List α) : NonRegressing H [] :=
  ⟨fun _ => 0, rfl, monotone_const, by simp⟩

/-! ## Counting changes -/

section Changes

variable [DecidableEq α]

/-- How many times a value of the sequence differs from the value right before it. -/
def changes : List α → ℕ
  | a :: b :: vs => (if a = b then 0 else 1) + changes (b :: vs)
  | _ => 0

theorem changes_concat {vs : List α} {a : α} (h : vs.getLast? = some a) (b : α) :
    changes (vs ++ [b]) = changes vs + (if a = b then 0 else 1) := by
  induction vs with
  | nil =>
      simp at h
  | cons x vs ih =>
      cases vs with
      | nil =>
          have hx : x = a := by
            simpa using h
          simp [changes, hx]
      | cons y vs =>
          -- The first pair is the same on both sides; the new pair is at the other end.
          have hlast : (y :: vs).getLast? = some a := by
            simpa using h
          have hrec := ih hlast
          simp only [List.cons_append, changes] at hrec ⊢
          omega

/-- A view changes at most as often as the position moved: equal positions carry equal values. -/
theorem ViewTo.changes_le {H vs : List α} {p : ℕ} (h : ViewTo H vs p) : changes vs ≤ p := by
  induction h with
  | first _ =>
      simp [changes]
  | next hview hle hv ih =>
      rename_i vs p q v
      have hlast := hview.getLast?_eq
      cases hp : H[p]? with
      | none =>
          have hlt := hview.lt_length
          rw [List.getElem?_eq_none_iff] at hp
          omega
      | some a =>
          rw [hp] at hlast
          rw [changes_concat hlast]
          by_cases hav : a = v
          · simpa [hav] using le_trans ih hle
          · -- A change needs a new position, which pays for it.
            have hne : p ≠ q := by
              intro hpq
              subst hpq
              exact hav (Option.some.inj (hp.symm.trans hv))
            simp only [hav, if_false]
            omega

end Changes

/-! ## Observers that settle -/

/-- A bounded, non-decreasing sequence of numbers is constant from some time on. -/
theorem exists_stable_of_bounded {c : ℕ → ℕ} {B : ℕ} (hmono : Monotone c) (hB : ∀ n, c n ≤ B) :
    ∃ T, ∀ n, T ≤ n → c n = c T := by
  have hbdd : BddAbove (Set.range c) := by
    refine ⟨B, ?_⟩
    rintro _ ⟨n, rfl⟩
    exact hB n
  -- The largest value is attained, and from there on the sequence has nowhere to go.
  rcases Nat.sSup_mem (Set.range_nonempty c) hbdd with ⟨T, hT⟩
  refine ⟨T, fun n hn => le_antisymm ?_ (hmono hn)⟩
  rw [hT]
  exact le_csSup hbdd ⟨n, rfl⟩

section Settling

variable [DecidableEq α] {g : ℕ → Option α}

/-- While the observer is there, a step adds a change exactly when the value moves. -/
theorem changes_filterMap_range_succ {t : ℕ} (h : (g t).isSome) (h' : (g (t + 1)).isSome) :
    changes ((List.range (t + 1 + 1)).filterMap g) =
      changes ((List.range (t + 1)).filterMap g) + (if g t = g (t + 1) then 0 else 1) := by
  rcases Option.isSome_iff_exists.1 h with ⟨a, ha⟩
  rcases Option.isSome_iff_exists.1 h' with ⟨b, hb⟩
  have hlast : ((List.range (t + 1)).filterMap g).getLast? = some a := by
    simp [List.range_succ, List.filterMap_append, ha]
  have hconcat := changes_concat hlast b
  rw [List.range_succ, List.filterMap_append]
  simpa [ha, hb] using hconcat

/-- An observer that appears at some time, stays, and changes at most `B` times in every initial
part of an infinite run has one and the same value from some time on. -/
theorem eventually_constant {B : ℕ} (hstay : ∀ t, (g t).isSome → (g (t + 1)).isSome)
    (hB : ∀ n, changes ((List.range (n + 1)).filterMap g) ≤ B) :
    ∃ T, ∀ t, T ≤ t → g t = g T := by
  by_cases hsome : ∃ t₀, (g t₀).isSome
  · rcases hsome with ⟨t₀, ht₀⟩
    have hfrom : ∀ n, (g (t₀ + n)).isSome := by
      intro n
      induction n with
      | zero =>
          exact ht₀
      | succ n ih =>
          exact hstay (t₀ + n) ih
    -- Count from `t₀` on, where every step either changes the value or not.
    have hstep := fun n => changes_filterMap_range_succ (hfrom n) (hfrom (n + 1))
    have hmono : Monotone fun n => changes ((List.range (t₀ + n + 1)).filterMap g) := by
      refine monotone_nat_of_le_succ fun n => ?_
      have hn := hstep n
      simp only [← Nat.add_assoc]
      omega
    rcases exists_stable_of_bounded hmono (fun n => hB (t₀ + n)) with ⟨T, hT⟩
    -- From `T` on the number of changes stands still, so no step moves the value.
    refine ⟨t₀ + T, fun t ht => ?_⟩
    induction t, ht using Nat.le_induction with
    | base =>
        rfl
    | succ t ht ih =>
        rcases Nat.exists_eq_add_of_le ht with ⟨d, rfl⟩
        have hn := hstep (T + d)
        have h₁ := hT (T + d) (by omega)
        have h₂ := hT (T + d + 1) (by omega)
        simp only [← Nat.add_assoc] at hn h₁ h₂
        have hsame : g (t₀ + T + d) = g (t₀ + T + d + 1) := by
          by_contra hne
          simp only [hne, if_false] at hn
          omega
        exact hsame.symm.trans ih
  · -- The observer never appears.
    refine ⟨0, fun t _ => ?_⟩
    have hnone : ∀ t, g t = none := by
      intro t
      cases h : g t with
      | none =>
          rfl
      | some a =>
          exact absurd ⟨t, by simp [h]⟩ hsome
    rw [hnone t, hnone 0]

end Settling

end Transition
end KmpApp
