import Mathlib.Data.List.Basic

/-!
# Reader — readers of a tape and the words they accept

A reader is a fallible computation over a state with a tape of symbols left to read.  `Reads` says
which words of the tape it accepts and what it makes of each; the rules below follow how readers are
put together.  A loop that runs to the end of the tape accepts the chains of the words one round
accepts (`Advances.loop`).
-/

namespace KmpApp
namespace Codec

/-- What is left to read in a state, and the states a reader may be started in. -/
structure Tape (σ β : Type) where
  rest : σ → List β
  Good : σ → Prop

section Reads

variable {σ β ε α γ : Type} {T : Tape σ β}

/-- `f` reads one word of `G` off the tape, and fails when the tape does not start with one. -/
structure Reads (T : Tape σ β) (f : StateT σ (Except ε) α) (G : List β → α → Prop) : Prop where
  sound : ∀ {s a s'}, T.Good s → f.run s = .ok (a, s') →
    ∃ w, G w a ∧ T.rest s = w ++ T.rest s' ∧ T.Good s'
  complete : ∀ {s w a r}, T.Good s → G w a → T.rest s = w ++ r →
    ∃ s', f.run s = .ok (a, s') ∧ T.rest s' = r

/-- Where a word is read, the state after it is good again. -/
theorem Reads.reads {f : StateT σ (Except ε) α} {G : List β → α → Prop} (h : Reads T f G)
    {s : σ} {w : List β} {a : α} {r : List β} (hs : T.Good s) (hw : G w a)
    (hr : T.rest s = w ++ r) :
    ∃ s', f.run s = .ok (a, s') ∧ T.rest s' = r ∧ T.Good s' := by
  rcases h.complete hs hw hr with ⟨s', hrun, hrest⟩
  rcases h.sound hs hrun with ⟨_, _, _, hgood⟩
  exact ⟨s', hrun, hrest, hgood⟩

/-- A tape starts with at most one word of what a reader accepts. -/
theorem Reads.unique {f : StateT σ (Except ε) α} {G : List β → α → Prop} (h : Reads T f G)
    {s : σ} {w w' : List β} {a a' : α} {r r' : List β} (hs : T.Good s) (hw : G w a)
    (hw' : G w' a') (hr : T.rest s = w ++ r) (hr' : T.rest s = w' ++ r') :
    w = w' ∧ a = a' := by
  rcases h.complete hs hw hr with ⟨t, hrun, hrest⟩
  rcases h.complete hs hw' hr' with ⟨t', hrun', hrest'⟩
  -- Two runs of one reader from one state are one run.
  rw [hrun] at hrun'
  cases hrun'
  rw [hrest] at hrest'
  subst hrest'
  rw [hr] at hr'
  exact ⟨List.append_cancel_right hr', rfl⟩

theorem Reads.of_iff {f : StateT σ (Except ε) α} {G H : List β → α → Prop} (h : Reads T f G)
    (hiff : ∀ w a, G w a ↔ H w a) : Reads T f H := by
  have hGH : G = H := by
    funext w a
    exact propext (hiff w a)
  exact hGH ▸ h

theorem reads_pure (a : α) :
    Reads T (pure a : StateT σ (Except ε) α) (fun w b => w = [] ∧ b = a) where
  sound := by
    intro s b s' hs hrun
    cases hrun
    exact ⟨[], ⟨rfl, rfl⟩, rfl, hs⟩
  complete := by
    rintro s w b r _ ⟨rfl, rfl⟩ hr
    exact ⟨s, rfl, hr⟩

theorem reads_throw (e : ε) :
    Reads T (throw e : StateT σ (Except ε) α) (fun _ _ => False) where
  sound := by
    intro s a s' _ hrun
    cases hrun
  complete := by
    intro s w a r _ hw
    exact hw.elim

theorem bind_eq_ok {x : Except ε α} {f : α → Except ε γ} {c : γ} :
    (x >>= f) = .ok c ↔ ∃ a, x = .ok a ∧ f a = .ok c := by
  cases x with
  | error e => simp [bind, Except.bind]
  | ok a => simp [bind, Except.bind]

theorem run_bind_ok {f : StateT σ (Except ε) α} {g : α → StateT σ (Except ε) γ} {s s' : σ} {c : γ} :
    (f >>= g).run s = .ok (c, s') ↔ ∃ a t, f.run s = .ok (a, t) ∧ (g a).run t = .ok (c, s') := by
  rw [StateT.run_bind, bind_eq_ok, Prod.exists]

theorem Reads.bind {f : StateT σ (Except ε) α} {g : α → StateT σ (Except ε) γ}
    {G : List β → α → Prop} {H : α → List β → γ → Prop} (hf : Reads T f G)
    (hg : ∀ a, Reads T (g a) (H a)) :
    Reads T (f >>= g) (fun w c => ∃ u v a, w = u ++ v ∧ G u a ∧ H a v c) where
  sound := by
    intro s c s' hs hrun
    rcases run_bind_ok.mp hrun with ⟨a, t, hfrun, hgrun⟩
    rcases hf.sound hs hfrun with ⟨u, hu, hsplit, ht⟩
    rcases (hg a).sound ht hgrun with ⟨v, hv, hsplit', hs'⟩
    refine ⟨u ++ v, ⟨u, v, a, rfl, hu, hv⟩, ?_, hs'⟩
    rw [hsplit, hsplit', List.append_assoc]
  complete := by
    rintro s w c r hs ⟨u, v, a, rfl, hu, hv⟩ hr
    rw [List.append_assoc] at hr
    rcases hf.reads hs hu hr with ⟨t, hfrun, hrest, ht⟩
    rcases (hg a).complete ht hv hrest with ⟨s', hgrun, hrest'⟩
    exact ⟨s', run_bind_ok.mpr ⟨a, t, hfrun, hgrun⟩, hrest'⟩

/-- The result of a reader passed on by `p`, which is undefined where the reader is to fail. -/
theorem Reads.filterMap {f : StateT σ (Except ε) α} {g : α → StateT σ (Except ε) γ}
    {G : List β → α → Prop} {p : α → Option γ} (hf : Reads T f G)
    (hok : ∀ a c, p a = some c → g a = pure c)
    (herr : ∀ a, p a = none → ∃ e, g a = throw e) :
    Reads T (f >>= g) (fun w c => ∃ a, G w a ∧ p a = some c) := by
  have hg : ∀ a, Reads T (g a) (fun v c => v = [] ∧ p a = some c) := by
    intro a
    cases hp : p a with
    | none =>
        rcases herr a hp with ⟨e, he⟩
        rw [he]
        exact (reads_throw e).of_iff (by simp)
    | some c =>
        rw [hok a c hp]
        exact (reads_pure c).of_iff (by simp [eq_comm])
  refine (hf.bind hg).of_iff ?_
  intro w c
  constructor
  · rintro ⟨u, v, a, rfl, hu, rfl, hp⟩
    exact ⟨a, by simpa using hu, hp⟩
  · rintro ⟨a, hw, hp⟩
    exact ⟨w, [], a, by simp, hw, rfl, hp⟩

theorem Reads.map {f : StateT σ (Except ε) α} {G : List β → α → Prop} (hf : Reads T f G)
    (p : α → γ) :
    Reads T (f >>= fun a => pure (p a)) (fun w c => ∃ a, G w a ∧ p a = c) := by
  refine (hf.filterMap (p := fun a => some (p a)) ?_ ?_).of_iff (by simp)
  · intro a c h
    cases h
    rfl
  · intro a h
    cases h

/-- The same tape in states with fewer than `n` symbols left. -/
def Tape.bounded (T : Tape σ β) (n : ℕ) : Tape σ β where
  rest := T.rest
  Good s := T.Good s ∧ (T.rest s).length < n

theorem Reads.bounded {f : StateT σ (Except ε) α} {G : List β → α → Prop} (h : Reads T f G)
    (n : ℕ) : Reads (T.bounded n) f G where
  sound := by
    rintro s a s' ⟨hs, hlen⟩ hrun
    rcases h.sound hs hrun with ⟨w, hw, hsplit, hs'⟩
    refine ⟨w, hw, hsplit, hs', ?_⟩
    rw [hsplit, List.length_append] at hlen
    omega
  complete := by
    rintro s w a r ⟨hs, _⟩ hw hr
    exact h.complete hs hw hr

end Reads

/-! ## Loops over a tape -/

section Loops

variable {σ β ε τ μ : Type} {T : Tape σ β}

/-- Rounds of `body` until it answers `none`; `exhausted` stands for more than `fuel` rounds. -/
def loop (exhausted : ε) (body : τ → StateT σ (Except ε) (Option τ)) :
    ℕ → τ → StateT σ (Except ε) τ
  | 0, _ => throw exhausted
  | fuel + 1, t => do
      match ← body t with
      | none => pure t
      | some t' => loop exhausted body fuel t'

/-- Words read one after the other, each taking the accumulator one step on. -/
inductive Chain (G : μ → List β → μ → Prop) : μ → List β → μ → Prop
  | nil (m : μ) : Chain G m [] m
  | cons {m m' m'' : μ} {w v : List β} : G m w m' → Chain G m' v m'' → Chain G m (w ++ v) m''

namespace Chain

variable {G : μ → List β → μ → Prop} {m m' m'' : μ} {v w : List β}

theorem single (h : G m w m') : Chain G m w m' := by
  simpa using Chain.cons h (Chain.nil m')

theorem append (h : Chain G m w m') (h' : Chain G m' v m'') : Chain G m (w ++ v) m'' := by
  induction h with
  | nil m => simpa using h'
  | cons hg _ ih => simpa [List.append_assoc] using Chain.cons hg (ih h')

/-- The words of a list, each of which is a chain. -/
theorem flatMap {α : Type} {word : α → List β} {step : μ → α → μ} {l : List α}
    (h : ∀ a ∈ l, ∀ m, Chain G m (word a) (step m a)) (m : μ) :
    Chain G m (l.flatMap word) (l.foldl step m) := by
  induction l generalizing m with
  | nil => exact .nil m
  | cons a l ih =>
      rw [List.flatMap_cons, List.foldl_cons]
      have hrest := ih (fun b hb => h b (List.mem_cons_of_mem a hb)) (step m a)
      exact (h a List.mem_cons_self m).append hrest

/-- What a chain keeps is kept by each of its words. -/
theorem invariant {P : μ → Prop} (hstep : ∀ {m w m'}, G m w m' → P m → P m')
    (h : Chain G m w m') (hm : P m) : P m' := by
  induction h with
  | nil m => exact hm
  | cons hg _ ih => exact ih (hstep hg hm)

/-- Two chains over the same symbols, where a word of one is always a word of the other, keep what
each pair of words keeps. -/
theorem lockstep {ν : Type} {H : ν → List β → ν → Prop} {R : μ → ν → Prop}
    (hG : ∀ {m w m'}, G m w m' → w ≠ []) (hH : ∀ {n w n'}, H n w n' → w ≠ [])
    (hstep : ∀ {m w m' n w' n' r r'}, R m n → G m w m' → H n w' n' → w ++ r = w' ++ r' →
      w = w' ∧ R m' n')
    (h : Chain G m w m') {n n' : ν} (h' : Chain H n w n') (hR : R m n) : R m' n' := by
  induction h generalizing n with
  | nil m =>
      generalize htape : ([] : List β) = tape at h'
      cases h' with
      | nil => exact hR
      | cons hx _ => exact absurd (List.append_eq_nil_iff.mp htape.symm).1 (hH hx)
  | @cons m k k' u u' hg _ ih =>
      generalize htape : u ++ u' = tape at h'
      cases h' with
      | nil => exact absurd (List.append_eq_nil_iff.mp htape).1 (hG hg)
      | cons hx hrest =>
          rcases hstep hR hg hx htape with ⟨rfl, hR'⟩
          have htail := List.append_cancel_left htape
          exact ih (htail ▸ hrest) hR'

/-- If no word of `G` starts another one, a chain splits only where its first part ends. -/
theorem of_append (hne : ∀ {m w m'}, G m w m' → w ≠ [])
    (hdet : ∀ {m w w' m' m'' r r'}, G m w m' → G m w' m'' → w ++ r = w' ++ r' → w = w' ∧ m' = m'')
    (h : Chain G m w m') (h' : Chain G m (w ++ v) m'') : Chain G m' v m'' := by
  induction h with
  | nil m => simpa using h'
  | @cons m n n' u u' hg _ ih =>
      -- The second chain is taken apart along with the first.
      generalize htape : u ++ u' ++ v = tape at h'
      cases h' with
      | nil =>
          exact absurd (List.append_eq_nil_iff.mp (List.append_eq_nil_iff.mp htape).1).1 (hne hg)
      | @cons _ k _ x x' hx hrest =>
          rw [List.append_assoc] at htape
          rcases hdet hg hx htape with ⟨rfl, rfl⟩
          have htail : u' ++ v = x' := List.append_cancel_left htape
          exact ih (htail ▸ hrest)

end Chain

/-- One round of a loop: it ends exactly at the end of the tape, and otherwise reads a word that
takes the accumulator, seen through `view`, one step on. -/
structure Advances (T : Tape σ β) (body : τ → StateT σ (Except ε) (Option τ)) (view : τ → μ)
    (G : μ → List β → μ → Prop) : Prop where
  nonempty : ∀ {m w m'}, G m w m' → w ≠ []
  finish : ∀ t {s}, T.Good s → T.rest s = [] →
    ∃ s', (body t).run s = .ok (none, s') ∧ T.rest s' = [] ∧ T.Good s'
  sound : ∀ t {s o s'}, T.Good s → T.rest s ≠ [] → (body t).run s = .ok (o, s') →
    ∃ t' w, o = some t' ∧ G (view t) w (view t') ∧ T.rest s = w ++ T.rest s' ∧ T.Good s'
  complete : ∀ t {s w m' r}, T.Good s → G (view t) w m' → T.rest s = w ++ r →
    ∃ t' s', (body t).run s = .ok (some t', s') ∧ view t' = m' ∧ T.rest s' = r

namespace Advances

variable {body : τ → StateT σ (Except ε) (Option τ)} {view : τ → μ} {G : μ → List β → μ → Prop}

/-- A tape starts with at most one word of what a round accepts. -/
theorem unique (h : Advances T body view G) {t : τ} {s : σ} {w w' r r' : List β} {m m' : μ}
    (hs : T.Good s) (hw : G (view t) w m) (hw' : G (view t) w' m') (hr : T.rest s = w ++ r)
    (hr' : T.rest s = w' ++ r') : w = w' ∧ m = m' := by
  rcases h.complete t hs hw hr with ⟨t₁, u, hrun, hview, hrest⟩
  rcases h.complete t hs hw' hr' with ⟨t₂, u', hrun', hview', hrest'⟩
  rw [hrun] at hrun'
  cases hrun'
  rw [hrest] at hrest'
  subst hrest'
  rw [hr] at hr'
  exact ⟨List.append_cancel_right hr', hview.symm.trans hview'⟩

theorem loop_sound (h : Advances T body view G) {e : ε} {fuel : ℕ} {t t' : τ} {s s' : σ}
    (hs : T.Good s) (hrun : (loop e body fuel t).run s = .ok (t', s')) :
    Chain G (view t) (T.rest s) (view t') ∧ T.rest s' = [] ∧ T.Good s' := by
  induction fuel generalizing t s with
  | zero => cases hrun
  | succ fuel ih =>
      rw [loop] at hrun
      rcases run_bind_ok.mp hrun with ⟨o, u, hbody, hnext⟩
      -- A round ends the loop at the end of the tape, and only there.
      by_cases hend : T.rest s = []
      · rcases h.finish t hs hend with ⟨u', hstop, hrest, hgood⟩
        rw [hstop] at hbody
        cases hbody
        cases hnext
        rw [hend]
        exact ⟨.nil _, hrest, hgood⟩
      · rcases h.sound t hs hend hbody with ⟨t₁, w, rfl, hw, hsplit, hu⟩
        rcases ih hu hnext with ⟨hchain, hrest, hgood⟩
        rw [hsplit]
        exact ⟨.cons hw hchain, hrest, hgood⟩

/-- As many rounds as there are symbols left, and one more, are enough. -/
theorem loop_complete (h : Advances T body view G) {e : ε} {fuel : ℕ} {t : τ} {m : μ} {s : σ}
    (hs : T.Good s) (hfuel : (T.rest s).length < fuel) (hchain : Chain G (view t) (T.rest s) m) :
    ∃ t' s', (loop e body fuel t).run s = .ok (t', s') ∧ view t' = m ∧ T.rest s' = [] ∧
      T.Good s' := by
  induction fuel generalizing t s with
  | zero => omega
  | succ fuel ih =>
      rw [loop]
      generalize htape : T.rest s = tape at hchain
      cases hchain with
      | nil =>
          rcases h.finish t hs htape with ⟨s', hstop, hrest, hgood⟩
          exact ⟨t, s', run_bind_ok.mpr ⟨none, s', hstop, rfl⟩, rfl, hrest, hgood⟩
      | @cons _ m' _ w v hw hrest =>
          rcases h.complete t hs hw htape with ⟨t', u, hbody, hview, hu⟩
          have hne : T.rest s ≠ [] := by
            rw [htape]
            exact List.append_ne_nil_of_left_ne_nil (h.nonempty hw) v
          have hgood : T.Good u := by
            rcases h.sound t hs hne hbody with ⟨_, _, _, _, _, hgood⟩
            exact hgood
          have hlen : (T.rest u).length < fuel := by
            have hpos : 0 < w.length := List.length_pos_of_ne_nil (h.nonempty hw)
            rw [htape, List.length_append] at hfuel
            rw [hu]
            omega
          subst hview
          rcases ih hgood hlen (hu ▸ hrest) with ⟨t'', s', hloop, hfin⟩
          exact ⟨t'', s', run_bind_ok.mpr ⟨some t', u, hbody, hloop⟩, hfin⟩

/-- Beyond one round for each symbol left, the bound on the rounds does not show. -/
theorem loop_fuel (h : Advances T body view G) {e e' : ε} {fuel fuel' : ℕ} {t : τ} {s : σ}
    (hs : T.Good s) (hfuel : (T.rest s).length < fuel) (hfuel' : (T.rest s).length < fuel') :
    (loop e body fuel t).run s = (loop e' body fuel' t).run s := by
  induction fuel generalizing fuel' t s with
  | zero => omega
  | succ fuel ih =>
      cases fuel' with
      | zero => omega
      | succ fuel' =>
          rw [loop, loop, StateT.run_bind, StateT.run_bind]
          cases hbody : (body t).run s with
          | error e => rfl
          | ok p =>
              rcases p with ⟨o, u⟩
              cases o with
              | none => rfl
              | some t' =>
                  -- A round that went on had something to read, and has taken at least one symbol.
                  have hne : T.rest s ≠ [] := by
                    intro hend
                    rcases h.finish t hs hend with ⟨u', hstop, _, _⟩
                    rw [hstop] at hbody
                    cases hbody
                  rcases h.sound t hs hne hbody with ⟨_, w, _, hw, hsplit, hu⟩
                  have hpos : 0 < w.length := List.length_pos_of_ne_nil (h.nonempty hw)
                  rw [hsplit, List.length_append] at hfuel hfuel'
                  have hlen : (T.rest u).length < fuel := by omega
                  have hlen' : (T.rest u).length < fuel' := by omega
                  exact ih hu hlen hlen'

end Advances

end Loops

end Codec
end KmpApp
