import KmpApp.Codec.Reader

/-!
# Writer — what a writer puts out

A writer is a fallible computation over a state that holds what has been put out so far.  `Emits`
says which word it adds whenever it returns, and that it does return where the word is sure to fit;
words of writers that run one after the other are appended.
-/

namespace KmpApp
namespace Codec

/-- What a state has put out, and how many further symbols are sure to be taken. -/
structure Sink (σ β : Type) where
  written : σ → List β
  Good : σ → Prop
  Fits : σ → ℕ → Prop

variable {σ β ε α : Type} {K : Sink σ β}

structure Emits (K : Sink σ β) (f : StateT σ (Except ε) Unit) (w : List β) : Prop where
  sound : ∀ {s s'}, K.Good s → f.run s = .ok ((), s') →
    K.written s' = K.written s ++ w ∧ K.Good s'
  complete : ∀ {s n}, K.Good s → K.Fits s (w.length + n) →
    ∃ s', f.run s = .ok ((), s') ∧ K.Fits s' n

theorem emits_pure : Emits K (pure () : StateT σ (Except ε) Unit) [] where
  sound := by
    intro s s' hs hrun
    cases hrun
    exact ⟨by simp, hs⟩
  complete := by
    intro s n _ hfits
    refine ⟨s, rfl, ?_⟩
    simpa using hfits

theorem Emits.seq {f g : StateT σ (Except ε) Unit} {w v : List β} (hf : Emits K f w)
    (hg : Emits K g v) : Emits K (f >>= fun _ => g) (w ++ v) where
  sound := by
    intro s s' hs hrun
    rcases run_bind_ok.mp hrun with ⟨⟨⟩, t, hfrun, hgrun⟩
    rcases hf.sound hs hfrun with ⟨hw, ht⟩
    rcases hg.sound ht hgrun with ⟨hv, hs'⟩
    refine ⟨?_, hs'⟩
    rw [hv, hw, List.append_assoc]
  complete := by
    intro s n hs hfits
    -- The first writer leaves room for the second.
    rw [List.length_append, Nat.add_assoc] at hfits
    rcases hf.complete hs hfits with ⟨t, hfrun, hfits'⟩
    rcases hg.complete (hf.sound hs hfrun).2 hfits' with ⟨s', hgrun, hfits''⟩
    exact ⟨s', run_bind_ok.mpr ⟨(), t, hfrun, hgrun⟩, hfits''⟩

/-- A writer run for each element of a list in turn. -/
theorem emits_forM {f : α → StateT σ (Except ε) Unit} {word : α → List β} {l : List α}
    (hf : ∀ a ∈ l, Emits K (f a) (word a)) : Emits K (l.forM f) (l.flatMap word) := by
  induction l with
  | nil => exact emits_pure
  | cons a l ih =>
      rw [List.flatMap_cons]
      -- Only the writers of the elements are assumed to emit.
      have hrest : Emits K (l.forM f) (l.flatMap word) :=
        ih fun b hb => hf b (List.mem_cons_of_mem a hb)
      exact (hf a List.mem_cons_self).seq hrest

/-- Where it returns, it has returned for each of them. -/
theorem run_of_run_forM {f : α → StateT σ (Except ε) Unit} {l : List α} {s s' : σ}
    (h : (l.forM f).run s = .ok ((), s')) {a : α} (ha : a ∈ l) :
    ∃ t t', (f a).run t = .ok ((), t') := by
  induction l generalizing s with
  | nil => cases ha
  | cons b l ih =>
      rcases run_bind_ok.mp h with ⟨⟨⟩, t, hfirst, hrest⟩
      rcases List.mem_cons.mp ha with rfl | ha
      · exact ⟨s, t, hfirst⟩
      · exact ih hrest ha

end Codec
end KmpApp
