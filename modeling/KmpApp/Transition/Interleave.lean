import Mathlib.Algebra.BigOperators.Group.Finset.Piecewise
import Mathlib.Algebra.Order.BigOperators.Group.Finset
import Mathlib.Data.List.Basic

/-!
# Interleave — logs of many components

Components that run interleaved write one log, in which every entry carries the index of the
component that wrote it.  This file provides `partOf i log`, the entries of one component, and the
counting rule `countP_le_of_parts`: a comparison of counts that holds for every component alone
holds for the whole log.  What is under way in a pool, and ends in any order, is taken out of it by
its index (`countP_eraseIdx`).
-/

namespace KmpApp
namespace Transition

universe u

variable {β : Type u}

def partOf (i : ℕ) (log : List (ℕ × β)) : List β :=
  log.filterMap fun x => if x.1 = i then some x.2 else none

@[simp] theorem partOf_nil (i : ℕ) : partOf i ([] : List (ℕ × β)) = [] := rfl

theorem partOf_append (i : ℕ) (log log' : List (ℕ × β)) :
    partOf i (log ++ log') = partOf i log ++ partOf i log' := by
  simp [partOf]

/-- What component `i` adds to the log is its own. -/
theorem partOf_map_self (i : ℕ) (out : List β) : partOf i (out.map fun b => (i, b)) = out := by
  simp [partOf, List.filterMap_map]

theorem partOf_map_ne {i j : ℕ} (h : j ≠ i) (out : List β) :
    partOf i (out.map fun b => (j, b)) = [] := by
  simp [partOf, h]

/-- Counting in the log is counting in every part. -/
theorem countP_eq_sum (p : β → Bool) {log : List (ℕ × β)} {n : ℕ} (hn : ∀ x ∈ log, x.1 < n) :
    log.countP (fun x => p x.2) = ∑ i ∈ Finset.range n, (partOf i log).countP p := by
  induction log with
  | nil =>
      simp
  | cons x log ih =>
      rcases x with ⟨j, b⟩
      have hj : j ∈ Finset.range n := Finset.mem_range.2 (hn (j, b) (by simp))
      have hcons : ∀ i, (partOf i ((j, b) :: log)).countP p =
          (partOf i log).countP p + if j = i then (if p b then 1 else 0) else 0 := by
        intro i
        by_cases hij : j = i
        · simp [partOf, hij, List.countP_cons]
        · simp [partOf, hij]
      have hrest := ih fun y hy => hn y (List.mem_cons_of_mem _ hy)
      -- The first entry is counted in exactly one part.
      rw [List.countP_cons, hrest, Finset.sum_congr rfl fun i _ => hcons i,
        Finset.sum_add_distrib, Finset.sum_ite_eq, if_pos hj]

theorem exists_index_bound (log : List (ℕ × β)) : ∃ n, ∀ x ∈ log, x.1 < n := by
  induction log with
  | nil =>
      exact ⟨0, by simp⟩
  | cons x log ih =>
      rcases ih with ⟨n, hn⟩
      refine ⟨max n (x.1 + 1), ?_⟩
      intro y hy
      rcases List.mem_cons.1 hy with rfl | hy
      · exact lt_max_of_lt_right (Nat.lt_succ_self _)
      · exact lt_max_of_lt_left (hn y hy)

theorem countP_le_of_parts {p q : β → Bool} {log : List (ℕ × β)}
    (h : ∀ i, (partOf i log).countP p ≤ (partOf i log).countP q) :
    log.countP (fun x => p x.2) ≤ log.countP (fun x => q x.2) := by
  rcases exists_index_bound log with ⟨n, hn⟩
  rw [countP_eq_sum p hn, countP_eq_sum q hn]
  exact Finset.sum_le_sum fun i _ => h i

/-! ## Entries of a log -/

/-- An entry that comes nowhere before the last one is the last one. -/
theorem eq_nil_of_concat_eq {l l₁ l₂ : List β} {a b : β} (h : l ++ [b] = l₁ ++ a :: l₂)
    (ha : a ∉ l) : l₂ = [] := by
  rcases List.eq_nil_or_concat l₂ with rfl | ⟨init, last, rfl⟩
  · rfl
  · have hcat : l ++ [b] = (l₁ ++ a :: init) ++ [last] := by
      simpa [List.concat_eq_append] using h
    refine absurd ?_ ha
    rw [(List.append_inj' hcat rfl).1]
    simp

/-- An entry that is not among the new ones is among the old ones, at the same place. -/
theorem exists_split_of_append_eq {l l' l₁ l₂ : List β} {a : β} (h : l ++ l' = l₁ ++ a :: l₂)
    (ha : a ∉ l') : ∃ rest, l = l₁ ++ a :: rest := by
  rcases List.append_eq_append_iff.1 h with ⟨as, rfl, hl'⟩ | ⟨bs, rfl, hbs⟩
  · refine absurd ?_ ha
    rw [hl']
    simp
  · cases bs with
    | nil =>
        refine absurd ?_ ha
        have hl' : a :: l₂ = l' := by
          simpa using hbs
        rw [← hl']
        simp
    | cons b bs =>
        rcases List.cons_eq_cons.1 hbs with ⟨rfl, _⟩
        exact ⟨bs, rfl⟩

/-! ## Pools -/

/-- What is taken out of a pool by its index is no longer counted. -/
theorem countP_eraseIdx {l : List β} {i : ℕ} {b : β} (p : β → Bool) (h : l[i]? = some b) :
    l.countP p = (l.eraseIdx i).countP p + if p b then 1 else 0 := by
  rcases List.getElem?_eq_some_iff.1 h with ⟨hi, rfl⟩
  rw [← (List.getElem_cons_eraseIdx_perm hi).countP_eq, List.countP_cons]

end Transition
end KmpApp
