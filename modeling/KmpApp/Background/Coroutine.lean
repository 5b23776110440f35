import KmpApp.Data.Museum
import KmpApp.Transition.Run

/-!
# Coroutine — one background coroutine at a time

The app has three kinds of background work: the coroutine that `MuseumRepository.initialize()`
launches, a direct call of `MuseumRepository.refresh()`, and the coroutine that the `init` block of
`ListViewModel` launches to listen to the chat.  This file treats each of them alone:

* `Signal` — what a suspended body is resumed with, and `resume`, which does it;
* `coroutine launcher` — the machine of one such coroutine;
* `RefreshPhase` and `ChatPhase` — where a coroutine can be, given how its fetch or its stream has
  ended, with the step lemmas that keep them.

The phases are all that the later files use: the bodies are never unfolded there.
-/

namespace KmpApp
namespace Background

open Coroutines Data Transition

/-! ## The chat coroutine of `ListViewModel` -/

namespace ListViewModel

/-- The request flow handed to `ChatStream`. -/
def request : List FlowStep :=
  [ .log "emit chat message"
  , .emit { userId := "ios", content := "Hello", timestamp := "" } ]

/-- `stub.ChatStream(request).collectLatest { … }`: it ends with the response flow, and what the
response flow throws is thrown on. -/
def collectChat (request : List FlowStep) : Program Unit :=
  Suspend.perform (Op.chatStream request)

/-- The block that `init` launches in `viewModelScope`. -/
def listen : Program Unit := do
  Suspend.perform (Op.logI "viewModelScope.launch")
  collectChat request

def init : Program Unit :=
  launch listen

end ListViewModel

/-! ## Launchers and signals -/

/-- Where a coroutine was started: in the repository's scope, in a `viewModelScope`, or by somebody
who calls `refresh()` directly. -/
inductive Launcher
  | repositoryScope
  | viewModelScope
  | caller
  deriving DecidableEq, Repr

def Launcher.body : Launcher → Program Unit
  | .repositoryScope => MuseumRepository.initializeRepository
  | .viewModelScope => ListViewModel.init
  | .caller => MuseumRepository.refresh

/-- What happens to one suspended coroutine. -/
inductive Signal
  | dispatched
  | fetchEnds (r : FetchResult)
  | printed
  | saved (newObjects : List MuseumObject)
  | logged
  | requestPulled
  | messageReceived (it : ChatMessage)
  | streamEnds (code : StatusCode)
  | cancelled

/-- The response flow completes when the call ended with `OK` and throws otherwise. -/
def streamOutcome : StatusCode → Except Throwable Unit
  | .ok => .ok ()
  | code => .error (.exception (.statusException code))

/-- Resume a suspended body.  A fetch is cancelled by ending it in a `CancellationException`; the
operations that do not suspend (printing, saving, logging) cannot be cancelled. -/
def resume : Program Unit → Signal → Option (Program Unit)
  | .await .dispatch k, .dispatched => some (k (.ok ()))
  -- A coroutine that is cancelled before its dispatch does not run at all.
  | .await .dispatch k, .cancelled => some (k (.error (.exception .cancellationException)))
  | .await (.get _) k, .fetchEnds r => some (k r.outcome)
  | .await (.printStackTrace _) k, .printed => some (k (.ok ()))
  | .await (.saveObjects l) k, .saved l' => if l = l' then some (k (.ok ())) else none
  | .await (.logI _) k, .logged => some (k (.ok ()))
  -- The stub pulls the request flow while the response flow is being collected.
  | .await (.chatStream (_ :: rest)) k, .requestPulled => some (.await (.chatStream rest) k)
  | .await (.chatStream request) k, .messageReceived _ => some (.await (.chatStream request) k)
  -- `collectLatest` throws on what the response flow throws, and returns when it completes.
  | .await (.chatStream _) k, .streamEnds code => some (k (streamOutcome code))
  | .await (.chatStream _) k, .cancelled => some (k (.error (.exception .cancellationException)))
  | _, _ => none

/-- The machine of a single coroutine. -/
def coroutine (launcher : Launcher) : Machine (Program Unit) Signal :=
  { init := launcher.body
    step := resume }

/-! ## How the fetch and the stream of a coroutine ended -/

def Signal.fetch? : Signal → Option FetchResult
  | .fetchEnds r => some r
  | _ => none

def Signal.streamEnd? : Signal → Option StatusCode
  | .streamEnds code => some code
  | _ => none

/-! ## Phases of a refresh -/

/-- The rest of a refresh once `getData` has returned. -/
def refreshSaving (newObjects : List MuseumObject) : Program Unit :=
  Suspend.perform (Op.saveObjects newObjects)

/-- The rest of a refresh whose fetch failed: `getData` is in its `catch` block. -/
def refreshReporting (e : Exception) : Program Unit := do
  let newObjects ← (do
    Suspend.perform (Op.printStackTrace e)
    pure [])
  refreshSaving newObjects

/-- Where a refresh can be, given how its fetch has ended so far. -/
inductive RefreshPhase : List FetchResult → Program Unit → Prop where
  | dispatching : RefreshPhase [] MuseumRepository.initializeRepository
  | fetching : RefreshPhase [] MuseumRepository.refresh
  | reporting {e : Exception} :
      e ≠ .cancellationException → RefreshPhase [.error e] (refreshReporting e)
  | saving {r : FetchResult} {newObjects : List MuseumObject} :
      MuseumRepository.saves r = [newObjects] → RefreshPhase [r] (refreshSaving newObjects)
  | finished {r : FetchResult} {newObjects : List MuseumObject} :
      MuseumRepository.saves r = [newObjects] → RefreshPhase [r] (.done ())
  | cancelledDispatch : RefreshPhase [] (.raise (.exception .cancellationException))
  | cancelledFetch :
      RefreshPhase [.error .cancellationException] (.raise (.exception .cancellationException))

theorem refresh_afterFetch (r : FetchResult) {body : Program Unit}
    (h : resume MuseumRepository.refresh (.fetchEnds r) = some body) : RefreshPhase [r] body := by
  cases r with
  | ok objects =>
      have hbody : refreshSaving objects = body := Option.some.inj h
      subst hbody
      exact RefreshPhase.saving (by simp)
  | error e =>
      by_cases he : e = .cancellationException
      · -- `getData` rethrows.
        subst he
        have hbody : .raise (.exception .cancellationException) = body := Option.some.inj h
        subst hbody
        exact RefreshPhase.cancelledFetch
      · -- `getData` prints the stack trace and goes on with the empty list.
        have hcatch : resume MuseumRepository.refresh (.fetchEnds (.error e)) =
            some (refreshReporting e) := by
          have hfalse : e.isCancellationException = false := by
            cases hb : e.isCancellationException with
            | false =>
                rfl
            | true =>
                exact absurd (Exception.isCancellationException_iff.1 hb) he
          change some (Suspend.bind (if e.isCancellationException = true then _ else _) _) = _
          rw [hfalse]
          rfl
        have hbody : refreshReporting e = body := Option.some.inj (hcatch.symm.trans h)
        subst hbody
        exact RefreshPhase.reporting he

/-- One signal to a refresh. -/
theorem RefreshPhase.step {rs : List FetchResult} {body body' : Program Unit} {sig : Signal}
    (h : RefreshPhase rs body) (hresume : resume body sig = some body') :
    RefreshPhase (rs ++ sig.fetch?.toList) body' := by
  cases h with
  | dispatching =>
      cases sig with
      | dispatched =>
          have hbody : MuseumRepository.refresh = body' := Option.some.inj hresume
          subst hbody
          exact RefreshPhase.fetching
      | cancelled =>
          have hbody : .raise (.exception .cancellationException) = body' :=
            Option.some.inj hresume
          subst hbody
          exact RefreshPhase.cancelledDispatch
      | _ =>
          cases hresume
  | fetching =>
      cases sig with
      | fetchEnds r =>
          exact refresh_afterFetch r hresume
      | _ =>
          cases hresume
  | reporting he =>
      -- The fetch failed and the trace is being printed; the empty list is next.
      rename_i e
      cases sig with
      | printed =>
          have hbody : refreshSaving [] = body' := Option.some.inj hresume
          subst hbody
          exact RefreshPhase.saving (MuseumRepository.saves_failed he)
      | _ =>
          cases hresume
  | saving hr =>
      rename_i r newObjects
      cases sig with
      | saved l =>
          -- The signal carries the list that is saved, so only the right one is accepted.
          have hresume' : (if newObjects = l then some (.done ()) else none) = some body' := hresume
          by_cases hl : newObjects = l
          · have hbody : .done () = body' := by
              simpa [hl] using hresume'
            subst hbody
            exact RefreshPhase.finished hr
          · simp [hl] at hresume'
      | _ =>
          cases hresume
  -- A body that has ended takes no further signal.
  | finished _ =>
      cases sig <;> cases hresume
  | cancelledDispatch =>
      cases sig <;> cases hresume
  | cancelledFetch =>
      cases sig <;> cases hresume

/-- A refresh, launched or called, is always in one of its phases. -/
theorem refreshPhase_of_run {launcher : Launcher} (hl : launcher ≠ .viewModelScope)
    {sigs : List Signal} {tr : List (Program Unit)} {body : Program Unit}
    (h : (coroutine launcher).Run sigs tr body) :
    RefreshPhase (sigs.filterMap Signal.fetch?) body := by
  induction h with
  | init =>
      cases launcher with
      | repositoryScope =>
          exact RefreshPhase.dispatching
      | viewModelScope =>
          exact absurd rfl hl
      | caller =>
          exact RefreshPhase.fetching
  | step _hrun hstep ih =>
      rename_i sig
      have hphase := ih.step hstep
      rw [List.filterMap_append]
      cases hf : sig.fetch? <;> simpa [hf] using hphase

/-- A refresh fetches at most once. -/
theorem RefreshPhase.length_le {rs : List FetchResult} {body : Program Unit}
    (h : RefreshPhase rs body) : rs.length ≤ 1 := by
  cases h <;> simp

/-! ## Phases of the chat coroutine -/

/-- The rest of the chat coroutine once the stream has ended. -/
def streamEnded (code : StatusCode) : Program Unit :=
  match streamOutcome code with
  | .ok () => .done ()
  | .error e => .raise e

/-- Where the chat coroutine can be, given how its stream has ended so far. -/
inductive ChatPhase : List StatusCode → Program Unit → Prop where
  | dispatching : ChatPhase [] ListViewModel.init
  | logging : ChatPhase [] ListViewModel.listen
  | streaming (request : List FlowStep) : ChatPhase [] (ListViewModel.collectChat request)
  | ended (code : StatusCode) : ChatPhase [code] (streamEnded code)
  | cancelled : ChatPhase [] (.raise (.exception .cancellationException))

theorem resume_streamEnded (code : StatusCode) (sig : Signal) :
    resume (streamEnded code) sig = none := by
  cases code <;> cases sig <;> rfl

/-- Pulling the request flow leaves the collection of the response flow in place. -/
theorem resume_requestPulled (first : FlowStep) (rest : List FlowStep) :
    resume (ListViewModel.collectChat (first :: rest)) .requestPulled =
      some (ListViewModel.collectChat rest) := by
  refine congrArg (fun k => some (Suspend.await (Op.chatStream rest) k)) ?_
  funext r
  cases r with
  | ok a =>
      rfl
  | error e =>
      rfl

/-- One signal to the chat coroutine. -/
theorem ChatPhase.step {codes : List StatusCode} {body body' : Program Unit} {sig : Signal}
    (h : ChatPhase codes body) (hresume : resume body sig = some body') :
    ChatPhase (codes ++ sig.streamEnd?.toList) body' := by
  cases h with
  | dispatching =>
      cases sig with
      | dispatched =>
          have hbody : ListViewModel.listen = body' := Option.some.inj hresume
          subst hbody
          exact ChatPhase.logging
      | cancelled =>
          have hbody : .raise (.exception .cancellationException) = body' :=
            Option.some.inj hresume
          subst hbody
          exact ChatPhase.cancelled
      | _ =>
          cases hresume
  | logging =>
      cases sig with
      | logged =>
          have hbody : ListViewModel.collectChat ListViewModel.request = body' :=
            Option.some.inj hresume
          subst hbody
          exact ChatPhase.streaming ListViewModel.request
      | _ =>
          cases hresume
  | streaming request =>
      cases sig with
      | requestPulled =>
          cases request with
          | nil =>
              cases hresume
          | cons first rest =>
              have hbody : ListViewModel.collectChat rest = body' :=
                Option.some.inj ((resume_requestPulled first rest).symm.trans hresume)
              subst hbody
              exact ChatPhase.streaming rest
      | messageReceived it =>
          -- The action only logs: the collection goes on as it was.
          have hbody : ListViewModel.collectChat request = body' := by
            cases request <;> exact Option.some.inj hresume
          subst hbody
          exact ChatPhase.streaming request
      | streamEnds code =>
          have hbody : streamEnded code = body' := by
            cases request <;> cases code <;> exact Option.some.inj hresume
          subst hbody
          exact ChatPhase.ended code
      | cancelled =>
          have hbody : .raise (.exception .cancellationException) = body' := by
            cases request <;> exact Option.some.inj hresume
          subst hbody
          exact ChatPhase.cancelled
      | _ =>
          cases request <;> cases hresume
  | ended code =>
      rw [resume_streamEnded] at hresume
      cases hresume
  | cancelled =>
      cases sig <;> cases hresume

theorem chatPhase_of_run {sigs : List Signal} {tr : List (Program Unit)} {body : Program Unit}
    (h : (coroutine .viewModelScope).Run sigs tr body) :
    ChatPhase (sigs.filterMap Signal.streamEnd?) body := by
  induction h with
  | init =>
      exact ChatPhase.dispatching
  | step _hrun hstep ih =>
      rename_i sig
      have hphase := ih.step hstep
      rw [List.filterMap_append]
      cases hf : sig.streamEnd? <;> simpa [hf] using hphase

theorem ChatPhase.resume_fetchEnds {codes : List StatusCode} {body : Program Unit}
    (h : ChatPhase codes body) (r : FetchResult) : resume body (.fetchEnds r) = none := by
  cases h with
  | streaming request =>
      cases request <;> rfl
  | ended code =>
      exact resume_streamEnded code _
  | _ =>
      rfl

/-- The chat coroutine never fetches. -/
theorem chat_fetches_nil {sigs : List Signal} {tr : List (Program Unit)} {body : Program Unit}
    (h : (coroutine .viewModelScope).Run sigs tr body) : sigs.filterMap Signal.fetch? = [] := by
  induction h with
  | init =>
      rfl
  | step hrun hstep ih =>
      rename_i sigs tr body body' sig
      cases sig with
      | fetchEnds r =>
          -- In none of its phases does it wait for a fetch.
          have hsome : resume body (.fetchEnds r) = some body' := hstep
          rw [(chatPhase_of_run hrun).resume_fetchEnds] at hsome
          cases hsome
      | _ =>
          simp [List.filterMap_append, ih, Signal.fetch?]

end Background
end KmpApp
