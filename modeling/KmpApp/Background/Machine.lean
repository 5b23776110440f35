import KmpApp.Background.Coroutine

/-!
# Machine — all background coroutines, interleaved

Any number of coroutines, launched at any time, share one storage.  An event either launches a
coroutine or sends a signal to one of them; a run of `machine` is therefore an arbitrary
interleaving.

* `State.uncaught` — the throwables that reached the uncaught-exception path: both scopes are
  `SupervisorJob` scopes without a handler, so a throwable that leaves a coroutine launched in one
  of them goes there, unless it is a `CancellationException`;
* `exists_coroutine_run` — in a run of the whole machine each coroutine makes a run of its own.

What the platform does with an uncaught throwable (it ends the process) is not modelled; the runs
considered here go on, which only makes more of them.
-/

namespace KmpApp
namespace Background

open Coroutines Data Transition

/-! ## State and events -/

/-- The lines the app logs; `message it` is the line `"Message $it"`. -/
inductive LogLine
  | text (message : String)
  | message (it : ChatMessage)
  deriving DecidableEq, Repr

/-- What the coroutines act on. -/
structure World where
  storage : InMemoryMuseumStorage
  log : List LogLine
  stackTraces : List Exception
  sent : List ChatMessage
  deriving DecidableEq, Repr

structure Coroutine where
  launcher : Launcher
  body : Program Unit

structure State where
  world : World
  coroutines : List Coroutine
  uncaught : List Throwable

inductive Event
  | launch (launcher : Launcher)
  | signal (i : ℕ) (sig : Signal)

/-- The list that `storedObjects` holds. -/
def State.stored (s : State) : List MuseumObject :=
  s.world.storage.storedObjects.value

/-! ## Steps -/

/-- The effect on the world of a signal to a coroutine with this body. -/
def World.observe (world : World) : Program Unit → Signal → World
  | .await (.saveObjects l) _, .saved _ =>
      { world with storage := world.storage.saveObjects l }
  | .await (.printStackTrace e) _, .printed =>
      { world with stackTraces := world.stackTraces ++ [e] }
  | .await (.logI message) _, .logged =>
      { world with log := world.log ++ [.text message] }
  | .await (.chatStream (.log message :: _)) _, .requestPulled =>
      { world with log := world.log ++ [.text message] }
  | .await (.chatStream (.emit message :: _)) _, .requestPulled =>
      { world with sent := world.sent ++ [message] }
  | .await (.chatStream _) _, .messageReceived it =>
      { world with log := world.log ++ [.message it] }
  | _, _ => world

/-- What leaves a coroutine towards the uncaught-exception path.  A throwable that leaves a direct
call of `refresh()` is the caller's. -/
def escaped (launcher : Launcher) : Program Unit → List Throwable
  | .raise e =>
      if e.isCancellationException || launcher = .caller then [] else [e]
  | _ => []

def step (s : State) : Event → Option State
  | .launch launcher =>
      some { s with coroutines := s.coroutines ++ [{ launcher := launcher, body := launcher.body }] }
  | .signal i sig =>
      s.coroutines[i]?.bind fun c =>
        (resume c.body sig).map fun body =>
          { world := s.world.observe c.body sig
            coroutines := s.coroutines.set i { c with body := body }
            uncaught := s.uncaught ++ escaped c.launcher body }

/-- No coroutine yet, and an empty storage. -/
def machine : Machine State Event :=
  { init :=
      { world := { storage := .empty, log := [], stackTraces := [], sent := [] }
        coroutines := []
        uncaught := [] }
    step := step }

/-- Everything a signal can do. -/
theorem step_signal {s s' : State} {i : ℕ} {sig : Signal}
    (h : step s (.signal i sig) = some s') :
    ∃ c body, s.coroutines[i]? = some c ∧ resume c.body sig = some body ∧
      s' =
        { world := s.world.observe c.body sig
          coroutines := s.coroutines.set i { c with body := body }
          uncaught := s.uncaught ++ escaped c.launcher body } := by
  rcases Option.bind_eq_some_iff.1 h with ⟨c, hc, hmap⟩
  rcases Option.map_eq_some_iff.1 hmap with ⟨body, hbody, rfl⟩
  exact ⟨c, body, hc, hbody, rfl⟩

theorem step_launch {s s' : State} {launcher : Launcher}
    (h : step s (.launch launcher) = some s') :
    s' =
      { s with
        coroutines := s.coroutines ++ [{ launcher := launcher, body := launcher.body }] } :=
  (Option.some.inj h).symm

/-! ## Each coroutine alone -/

/-- The signals that a schedule sends to coroutine `i`, in order. -/
def signalsOf (i : ℕ) (es : List Event) : List Signal :=
  es.filterMap fun
    | .signal j sig => if j = i then some sig else none
    | .launch _ => none

theorem signalsOf_launch (i : ℕ) (es : List Event) (launcher : Launcher) :
    signalsOf i (es ++ [.launch launcher]) = signalsOf i es := by
  simp [signalsOf]

theorem signalsOf_self (i : ℕ) (es : List Event) (sig : Signal) :
    signalsOf i (es ++ [.signal i sig]) = signalsOf i es ++ [sig] := by
  simp [signalsOf]

theorem signalsOf_ne {i j : ℕ} (h : j ≠ i) (es : List Event) (sig : Signal) :
    signalsOf i (es ++ [.signal j sig]) = signalsOf i es := by
  simp [signalsOf, h]

theorem mem_signalsOf {i : ℕ} {es : List Event} {sig : Signal} :
    sig ∈ signalsOf i es ↔ .signal i sig ∈ es := by
  simp only [signalsOf, List.mem_filterMap]
  constructor
  · rintro ⟨e, he, hsig⟩
    cases e with
    | launch launcher =>
        simp at hsig
    | signal j sig' =>
        by_cases hj : j = i
        · have hs : sig' = sig := by
            simpa [hj] using hsig
          simpa [hj, hs] using he
        · simp [hj] at hsig
  · intro h
    exact ⟨.signal i sig, h, by simp⟩

variable {es : List Event} {tr : List State} {s : State}

theorem signalsOf_eq_nil (h : machine.Run es tr s) {i : ℕ} (hi : s.coroutines.length ≤ i) :
    signalsOf i es = [] := by
  induction h with
  | init =>
      rfl
  | step _hrun hstep ih =>
      rename_i e
      cases e with
      | launch launcher =>
          have hs' := step_launch hstep
          subst hs'
          rw [signalsOf_launch]
          have hi' := hi
          simp only [List.length_append, List.length_singleton] at hi'
          exact ih (Nat.le_of_succ_le hi')
      | signal j sig =>
          rcases step_signal hstep with ⟨c, body, hc, _, rfl⟩
          have hi' := hi
          simp only [List.length_set] at hi'
          -- Only coroutines that are there can be signalled.
          have hj : j ≠ i := by
            intro hji
            have hlt := (List.getElem?_eq_some_iff.1 hc).1
            omega
          rw [signalsOf_ne hj]
          exact ih hi'

/-- In a run of the whole machine, coroutine `i` makes the run of its own signals. -/
theorem exists_coroutine_run (h : machine.Run es tr s) {i : ℕ} {c : Coroutine}
    (hc : s.coroutines[i]? = some c) :
    ∃ bodies, (coroutine c.launcher).Run (signalsOf i es) bodies c.body := by
  induction h generalizing i c with
  | init =>
      simp [machine] at hc
  | step hrun hstep ih =>
      rename_i e
      cases e with
      | launch launcher =>
          have hs' := step_launch hstep
          subst hs'
          rw [signalsOf_launch]
          rcases getElem?_concat_cases hc with ⟨hi, rfl⟩ | hold
          · -- The new coroutine has not been signalled yet.
            rw [signalsOf_eq_nil hrun (Nat.le_of_eq hi.symm)]
            exact ⟨_, Machine.Run.init⟩
          · exact ih hold
      | signal j sig =>
          rcases step_signal hstep with ⟨d, body, hd, hbody, rfl⟩
          rcases getElem?_set_cases hc with ⟨rfl, rfl⟩ | ⟨hne, hold⟩
          · -- Its own signal: one more step of its own run.
            rcases ih hd with ⟨bodies, hlocal⟩
            rw [signalsOf_self]
            exact ⟨_, Machine.Run.step hlocal hbody⟩
          · -- Somebody else's signal.
            rw [signalsOf_ne (Ne.symm hne)]
            exact ih hold

/-- How the fetches of coroutine `i` have ended. -/
def fetchesOf (i : ℕ) (es : List Event) : List FetchResult :=
  (signalsOf i es).filterMap Signal.fetch?

/-- How the chat streams of coroutine `i` have ended. -/
def streamEndsOf (i : ℕ) (es : List Event) : List StatusCode :=
  (signalsOf i es).filterMap Signal.streamEnd?

/-- What is read off the signals of coroutine `i` comes from one event of the schedule, when `sig?`
reads exactly the signals of the form `mk b`. -/
theorem mem_filterMap_signalsOf {β : Type} {sig? : Signal → Option β} {mk : β → Signal}
    (hmk : ∀ sig b, sig? sig = some b ↔ sig = mk b) {i : ℕ} {b : β} :
    b ∈ (signalsOf i es).filterMap sig? ↔ .signal i (mk b) ∈ es := by
  rw [List.mem_filterMap]
  constructor
  · rintro ⟨sig, hsig, hb⟩
    have heq := (hmk sig b).1 hb
    subst heq
    exact mem_signalsOf.1 hsig
  · intro h
    exact ⟨mk b, mem_signalsOf.2 h, (hmk (mk b) b).2 rfl⟩

theorem mem_fetchesOf {i : ℕ} {r : FetchResult} :
    r ∈ fetchesOf i es ↔ .signal i (.fetchEnds r) ∈ es := by
  refine mem_filterMap_signalsOf fun sig r => ?_
  cases sig <;> simp [Signal.fetch?]

theorem mem_streamEndsOf {i : ℕ} {code : StatusCode} :
    code ∈ streamEndsOf i es ↔ .signal i (.streamEnds code) ∈ es := by
  refine mem_filterMap_signalsOf fun sig code => ?_
  cases sig <;> simp [Signal.streamEnd?]

theorem refreshPhase (h : machine.Run es tr s) {i : ℕ} {c : Coroutine}
    (hc : s.coroutines[i]? = some c) (hl : c.launcher ≠ .viewModelScope) :
    RefreshPhase (fetchesOf i es) c.body := by
  rcases exists_coroutine_run h hc with ⟨bodies, hlocal⟩
  exact refreshPhase_of_run hl hlocal

/-- Whatever coroutine `i` is, it fetches at most once. -/
theorem fetchesOf_length_le (h : machine.Run es tr s) (i : ℕ) : (fetchesOf i es).length ≤ 1 := by
  cases hc : s.coroutines[i]? with
  | none =>
      have hnil := signalsOf_eq_nil h (List.getElem?_eq_none_iff.1 hc)
      simp [fetchesOf, hnil]
  | some c =>
      by_cases hl : c.launcher = .viewModelScope
      · rcases exists_coroutine_run h hc with ⟨bodies, hlocal⟩
        rw [hl] at hlocal
        simp [fetchesOf, chat_fetches_nil hlocal]
      · exact (refreshPhase h hc hl).length_le

theorem chatPhase (h : machine.Run es tr s) {i : ℕ} {c : Coroutine}
    (hc : s.coroutines[i]? = some c) (hl : c.launcher = .viewModelScope) :
    ChatPhase (streamEndsOf i es) c.body := by
  rcases exists_coroutine_run h hc with ⟨bodies, hlocal⟩
  rw [hl] at hlocal
  exact chatPhase_of_run hlocal

end Background
end KmpApp
