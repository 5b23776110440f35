import KmpApp.Grpc.Call
import KmpApp.Transition.Interleave

/-!
# Sending — what the core is given to send

The core takes one write at a time: a batch with `SEND_MESSAGE` may only be started after the
previous one has completed.  `GRPCCall` keeps to that by pausing the pipe on every value and
resuming it on the completion, while user threads, the network thread and three queues interleave.

`Sending` is the half of the state that decides what is sent, and `Sending.Step` says once what any
event can do to it.  The invariants are about these steps; `sending_step` connects them to the
machine.
-/

namespace KmpApp
namespace Grpc

open Coroutines Transition

variable {α : Type}

/-! ## The sending half -/

def PipeBlock.value? : PipeBlock α → Option α
  | .value v => some v
  | .finished => none

def CallBlock.send? : CallBlock α → Option (PipeBlock α)
  | .writeMessage m => some (.value m)
  | .finishRequest => some .finished
  | _ => none

def GRPCOp.send? : GRPCOp α → Option (PipeBlock α)
  | .sendMessage m => some (.value m)
  | .sendClose => some .finished
  | _ => none

def GRPCOp.isSendMessage : GRPCOp α → Bool
  | .sendMessage _ => true
  | _ => false

/-- `queue` and `sent` are the writes and the end of the stream in `_callQueue` and in the batches
that were started; `outstanding` and `starting` count the writes in the core and the threads about
to start the pipe. -/
structure Sending (α : Type) where
  pipe : GRXBufferedPipe α
  hasPipe : Bool
  started : Bool
  ended : Bool
  connected : Bool
  queue : List (PipeBlock α)
  outstanding : ℕ
  sent : List (PipeBlock α)
  starting : ℕ
  written : List α

def State.sending (s : State α) : Sending α :=
  { pipe := s.pipe
    hasPipe := s.internal.hasPipe
    started := s.internal.started
    ended := s.call.state == .finished
    connected := s.connected
    queue := s.call.callQueue.filterMap CallBlock.send?
    outstanding := s.outstanding.countP GRPCOp.isSendMessage
    sent := s.batches.filterMap GRPCOp.send?
    starting := s.pending.count .startPipe
    written := s.written }

namespace Sending

def values (blocks : List (PipeBlock α)) : List α :=
  blocks.filterMap PipeBlock.value?

/-- Writes that left the pipe and are not completed. -/
def inFlight (x : Sending α) : ℕ :=
  x.outstanding + (values x.queue).length

inductive Step : Sending α → Sending α → Prop where
  | refl {x : Sending α} : Step x x
  | write {x : Sending α} (v : α) :
      x.hasPipe = true →
      Step x { x with pipe := x.pipe.writeValue v, written := x.written ++ [v] }
  | close {x : Sending α} :
      x.hasPipe = true →
      Step x { x with pipe := x.pipe.writesFinished, hasPipe := false }
  | release {x : Sending α} :
      Step x { x with hasPipe := false }
  | start {x : Sending α} :
      x.started = false →
      Step x { x with started := true, ended := false, queue := [], starting := x.starting + 1 }
  | startFailed {x : Sending α} :
      x.started = false →
      Step x { x with started := true, ended := true, queue := [] }
  | finishCall {x : Sending α} :
      Step x { x with ended := true }
  | startPipe {x : Sending α} {n : ℕ} :
      x.starting = n + 1 →
      Step x { x with pipe := x.pipe.startWithWriteable, starting := n }
  | finishPipe {x : Sending α} :
      Step x { x with pipe := x.pipe.setState .finished }
  | passValue {x : Sending α} {v : α} {pipe : GRXBufferedPipe α} :
      x.pipe.next? = some (.value v, pipe) → pipe.passes = true → x.ended = false →
      Step x { x with pipe := pipe.setState .paused, queue := x.queue ++ [.value v] }
  | passFinished {x : Sending α} {pipe : GRXBufferedPipe α} :
      x.pipe.next? = some (.finished, pipe) → pipe.passes = true →
      Step x { x with pipe := pipe, queue := x.queue ++ [.finished] }
  | drop {x : Sending α} {block : PipeBlock α} {pipe : GRXBufferedPipe α} :
      x.pipe.next? = some (block, pipe) → pipe.passes = false ∨ x.ended = true →
      Step x { x with pipe := pipe }
  | sendValue {x : Sending α} {v : α} {rest : List (PipeBlock α)} :
      x.queue = .value v :: rest → x.connected = true →
      Step x { x with
        queue := rest, outstanding := x.outstanding + 1, sent := x.sent ++ [.value v] }
  | sendFinished {x : Sending α} {rest : List (PipeBlock α)} :
      x.queue = .finished :: rest → x.connected = true →
      Step x { x with queue := rest, sent := x.sent ++ [.finished] }
  | lose {x : Sending α} {block : PipeBlock α} {rest : List (PipeBlock α)} :
      x.queue = block :: rest → x.connected = false →
      Step x { x with queue := rest }
  | written {x : Sending α} {n : ℕ} :
      x.outstanding = n + 1 →
      Step x { x with pipe := x.pipe.setState .started, outstanding := n }
  | writeFailed {x : Sending α} {n : ℕ} :
      x.outstanding = n + 1 →
      Step x { x with outstanding := n }
  | disconnect {x : Sending α} :
      Step x { x with connected := false }

end Sending

/-! ## Every event is a step of the sending half -/

namespace GRPCCall

theorem maybeStartNextRead_state (flow : Bool) (call : GRPCCall α) :
    (call.maybeStartNextRead flow).state = call.state := by
  unfold maybeStartNextRead
  split_ifs <;> rfl

theorem maybeStartNextRead_sends (flow : Bool) (call : GRPCCall α) :
    (call.maybeStartNextRead flow).callQueue.filterMap CallBlock.send? =
      call.callQueue.filterMap CallBlock.send? := by
  unfold maybeStartNextRead
  split_ifs <;> simp [CallBlock.send?]

theorem receiveNextMessages_state (flow : Bool) (call : GRPCCall α) (n : ℕ) :
    (call.receiveNextMessages flow n).state = call.state := by
  unfold receiveNextMessages
  dsimp only
  split_ifs <;> simp [maybeStartNextRead_state]

theorem receiveNextMessages_sends (flow : Bool) (call : GRPCCall α) (n : ℕ) :
    (call.receiveNextMessages flow n).callQueue.filterMap CallBlock.send? =
      call.callQueue.filterMap CallBlock.send? := by
  unfold receiveNextMessages
  dsimp only
  split_ifs <;> simp [maybeStartNextRead_sends]

end GRPCCall

namespace State

@[simp] theorem sending_dispatch (s : State α) (block : DispatchBlock α) :
    (s.dispatch block).sending = s.sending := rfl

@[simp] theorem sending_publishInitialMetadata (s : State α) :
    s.publishInitialMetadata.sending = s.sending := by
  unfold publishInitialMetadata
  dsimp only
  split_ifs <;> rfl

@[simp] theorem sending_forward (s : State α) (callback : Callback α) :
    (s.forward callback).sending = s.sending := by
  unfold forward
  split_ifs <;> rfl

@[simp] theorem sending_shutDown (s : State α) : s.shutDown.sending = s.sending := rfl

@[simp] theorem sending_forwardClose (s : State α) (errorOrNil : Option StatusCode) :
    (s.forwardClose errorOrNil).sending = s.sending := by
  unfold forwardClose
  split_ifs <;> rfl

theorem sending_later {c : Continuation} (s : State α) (hc : c ≠ .startPipe) :
    (s.later c).sending = s.sending := by
  simp [later, sending, List.count_append, hc]

theorem sending_finishWithError (s : State α) (errorOrNil : Option StatusCode) :
    (s.finishWithError errorOrNil).sending = { s.sending with ended := true } := by
  unfold finishWithError
  split_ifs with h
  · simp [sending, h]
  · cases s.call.responseWriteable with
    | none =>
        simp [sending]
    | some w =>
        cases errorOrNil <;> simp [sending]

theorem sending_completionHandler (s : State α) (errorOrNil : Option StatusCode) :
    Sending.Step s.sending (s.completionHandler errorOrNil).sending := by
  have hs : (s.publishInitialMetadata.dispatch (.forwardClose errorOrNil)).sending = s.sending := by
    simp
  unfold completionHandler
  dsimp only
  split_ifs with hcall hpipe
  · -- The pipe is still there: it is closed and released.
    have hstep := Sending.Step.close (x := s.sending) (by rw [← hs]; exact hpipe)
    rw [← hs] at hstep ⊢
    exact hstep
  · have hstep := Sending.Step.release (x := s.sending)
    rw [← hs] at hstep ⊢
    exact hstep
  · rw [hs]
    exact .refl

theorem sending_start (flow channelOk : Bool) (s : State α) :
    Sending.Step s.sending (s.start flow channelOk).sending := by
  unfold start
  dsimp only
  rw [GRPCCall.receiveNextMessages_init]
  split_ifs with hstarted hok
  · exact .refl
  · have hnot : s.internal.started = false := by
      simp_all
    have hstep := Sending.Step.start (x := s.sending) hnot
    have hended : (GRXWriterState.started == GRXWriterState.finished) = false := by
      decide
    simpa [sending, later, GRPCCall.dispatch, GRPCCall.init, CallBlock.send?, List.count_append,
      List.filterMap_cons, hended] using hstep
  · have hnot : s.internal.started = false := by
      simp_all
    have hstep := Sending.Step.startFailed (x := s.sending) hnot
    rw [sending_finishWithError]
    simpa [sending, GRPCCall.init] using hstep

theorem sending_writeData (s : State α) (data : α) :
    Sending.Step s.sending (s.writeData data).sending := by
  unfold writeData
  split_ifs with h
  · exact .refl
  · exact .write data (by simp_all [sending])

theorem sending_finish (s : State α) : Sending.Step s.sending s.finish.sending := by
  unfold finish
  split_ifs with h hpipe
  · exact .refl
  · exact .close hpipe
  · exact .release

theorem sending_cancel (s : State α) : Sending.Step s.sending s.cancel.sending := by
  unfold cancel
  dsimp only
  split_ifs with h hcall
  · exact .refl
  · rw [sending_later _ (by simp), sending_shutDown, sending_forwardClose]
    exact .release
  · rw [sending_shutDown, sending_forwardClose]
    exact .release

theorem sending_receiveNextMessages (flow : Bool) (s : State α) (n : ℕ) :
    (s.receiveNextMessages flow n).sending = s.sending := by
  unfold receiveNextMessages
  split_ifs
  · simp [sending, GRPCCall.receiveNextMessages_state, GRPCCall.receiveNextMessages_sends]
  · rfl

theorem sending_cancelCall (s : State α) : Sending.Step s.sending s.cancelCall.sending := by
  unfold cancelCall
  split_ifs
  · exact .refl
  · rw [sending_later _ (by simp), sending_finishWithError]
    exact .finishCall

theorem sending_runPipeBlock {s : State α} {block : PipeBlock α} {pipe : GRXBufferedPipe α}
    (h : s.pipe.next? = some (block, pipe)) :
    Sending.Step s.sending ({ s with pipe := pipe }.runPipeBlock block).sending := by
  unfold runPipeBlock
  split_ifs with hpasses
  · cases block with
    | value v =>
        simp only [writeValue]
        split_ifs with hended
        · exact .drop h (.inr (by simpa [sending] using hended))
        · have hstep := Sending.Step.passValue (x := s.sending) h hpasses
            (by simpa [sending] using hended)
          simpa [sending, GRPCCall.dispatch, CallBlock.send?] using hstep
    | finished =>
        have hstep := Sending.Step.passFinished (x := s.sending) h hpasses
        simpa [sending, writesFinished, GRPCCall.dispatch, CallBlock.send?] using hstep
  · exact .drop h (.inl (by simpa using hpasses))

theorem sending_runCallBlock {s : State α} {block : CallBlock α} {rest : List (CallBlock α)}
    (h : s.call.callQueue = block :: rest) :
    Sending.Step s.sending
      ({ s with call := { s.call with callQueue := rest } }.runCallBlock block).sending := by
  by_cases hconn : s.connected = true
  · cases block with
    | writeMessage m =>
        have hqueue : s.sending.queue = .value m :: rest.filterMap CallBlock.send? := by
          simp [sending, h, CallBlock.send?]
        have hstep := Sending.Step.sendValue hqueue hconn
        simpa [sending, runCallBlock, startBatch, hconn, GRPCOp.send?, GRPCOp.isSendMessage]
          using hstep
    | finishRequest =>
        have hqueue : s.sending.queue = .finished :: rest.filterMap CallBlock.send? := by
          simp [sending, h, CallBlock.send?]
        have hstep := Sending.Step.sendFinished hqueue hconn
        simpa [sending, runCallBlock, startBatch, hconn, GRPCOp.send?, GRPCOp.isSendMessage]
          using hstep
    | sendHeaders | invokeCall | startRead =>
        have hstep := Sending.Step.refl (x := s.sending)
        simpa [sending, runCallBlock, startBatch, hconn, h, List.filterMap_cons, CallBlock.send?,
          GRPCOp.send?, GRPCOp.isSendMessage] using hstep
  · -- Without a core call the block does nothing; a write or the end of the stream is lost.
    have hlost : ({ s with call := { s.call with callQueue := rest } }.runCallBlock block) =
        { s with call := { s.call with callQueue := rest } } := by
      cases block <;> simp [runCallBlock, startBatch, hconn]
    rw [hlost]
    cases hsend : block.send? with
    | none =>
        have hstep := Sending.Step.refl (x := s.sending)
        simpa [sending, h, List.filterMap_cons, hsend] using hstep
    | some b =>
        have hqueue : s.sending.queue = b :: rest.filterMap CallBlock.send? := by
          simp [sending, h, hsend]
        exact .lose hqueue (by simpa [sending] using hconn)

theorem sending_runDispatchBlock (flow : Bool) (s : State α) (block : DispatchBlock α) :
    Sending.Step s.sending (s.runDispatchBlock flow block).sending := by
  cases block with
  | value v =>
      simp only [runDispatchBlock]
      split
      · exact .refl
      · split_ifs
        · have hstep := Sending.Step.refl (x := s.sending)
          have hs : (s.valueHandler v).sending = s.sending := by
            simp [valueHandler]
          rw [← hs] at hstep ⊢
          simpa [sending, GRPCCall.readDone, GRPCCall.maybeStartNextRead_state,
            GRPCCall.maybeStartNextRead_sends] using hstep
        · exact .refl
  | successfulCompletion =>
      simp only [runDispatchBlock]
      split
      · exact .refl
      · split_ifs
        · exact sending_completionHandler s none
        · exact .refl
  | error code =>
      simp only [runDispatchBlock]
      split
      · exact .refl
      · split_ifs
        · exact .refl
        · exact sending_completionHandler s (some code)
  | forwardInitialMetadata | forwardData | forwardClose | forwardDidWriteData =>
      simp only [runDispatchBlock, sending_forward, sending_shutDown, sending_forwardClose]
      exact .refl

/-- Only the end of a write takes one out of the core. -/
theorem sending_eraseIdx {s : State α} {i : ℕ} {op : GRPCOp α} (hop : s.outstanding[i]? = some op)
    (hsend : op.isSendMessage = false) :
    { s with outstanding := s.outstanding.eraseIdx i }.sending = s.sending := by
  have hcount := countP_eraseIdx GRPCOp.isSendMessage hop
  simpa [sending, hsend] using hcount.symm

theorem sending_operationFinished {s : State α} {i : ℕ} {op : GRPCOp α}
    (hop : s.outstanding[i]? = some op) :
    Sending.Step s.sending { s with outstanding := s.outstanding.eraseIdx i }.sending := by
  cases hsend : op.isSendMessage with
  | false =>
      rw [sending_eraseIdx hop hsend]
      exact .refl
  | true =>
      have hcount := countP_eraseIdx GRPCOp.isSendMessage hop
      exact .writeFailed (by simpa [sending, hsend] using hcount)

theorem sending_proceed {s : State α} {i : ℕ} {c : Continuation} (h : s.pending[i]? = some c) :
    Sending.Step s.sending ({ s with pending := s.pending.eraseIdx i }.proceed c).sending := by
  have hcount := countP_eraseIdx (· == Continuation.startPipe) h
  cases c with
  | startPipe =>
      exact .startPipe (by simpa [sending, proceed, List.count] using hcount)
  | finishPipe =>
      have hpipe : ({ s with pending := s.pending.eraseIdx i }.proceed .finishPipe).sending =
          { s.sending with pipe := s.pipe.setState .finished } := by
        simpa [sending, proceed, List.count] using hcount.symm
      rw [hpipe]
      exact .finishPipe
  | cancelCall =>
      have hsame : { s with pending := s.pending.eraseIdx i }.sending = s.sending := by
        simpa [sending, List.count] using hcount.symm
      have hstep := sending_cancelCall { s with pending := s.pending.eraseIdx i }
      rw [hsame] at hstep
      exact hstep

end State

theorem sending_step {flow : Bool} {s s' : State α} {e : Event α} (h : step flow s e = some s') :
    Sending.Step s.sending s'.sending := by
  cases moved_of_step h with
  | ignored =>
      exact .refl
  | start channelOk =>
      exact s.sending_start flow channelOk
  | writeData data =>
      exact s.sending_writeData data
  | finish =>
      exact s.sending_finish
  | cancel =>
      exact s.sending_cancel
  | receiveNextMessages n =>
      rw [State.sending_receiveNextMessages]
      exact .refl
  | runPipe hnext =>
      exact State.sending_runPipeBlock hnext
  | runCall hqueue =>
      exact State.sending_runCallBlock hqueue
  | runDispatch hqueue =>
      rename_i block rest
      exact State.sending_runDispatchBlock flow { s with dispatchQueue := rest } block
  | operationFinished hop _ =>
      exact State.sending_operationFinished hop
  | messageSent hop =>
      have hcount := countP_eraseIdx GRPCOp.isSendMessage hop
      rw [State.sending_dispatch]
      exact .written (by simpa [State.sending, GRPCOp.isSendMessage] using hcount)
  | metadataReceived hop =>
      have hs := State.sending_eraseIdx hop rfl
      have hstep := Sending.Step.refl (x := s.sending)
      nth_rewrite 2 [← hs] at hstep
      simpa [State.sending, GRPCCall.readDone, GRPCCall.maybeStartNextRead_state,
        GRPCCall.maybeStartNextRead_sends] using hstep
  | statusReceived errorOrNil hop =>
      rw [State.sending_later _ (by simp), State.sending_finishWithError,
        State.sending_eraseIdx hop rfl]
      exact .finishCall
  | messageReceived v hop =>
      rw [State.sending_dispatch]
      exact State.sending_eraseIdx hop rfl ▸ .refl
  | noMemory hop =>
      rw [State.sending_later _ (by simp), State.sending_finishWithError]
      exact State.sending_eraseIdx hop rfl ▸ .finishCall
  | channelDisconnected =>
      exact .disconnect
  | proceed hc =>
      exact State.sending_proceed hc

/-! ## The pipe -/

namespace GRXBufferedPipe

/-- The queue of the pipe is suspended exactly while the pipe is not started or paused. -/
structure Sound (p : GRXBufferedPipe α) : Prop where
  suspended : p.suspensions = if p.state = .notStarted ∨ p.state = .paused then 1 else 0
  writeable : p.state = .started ∨ p.state = .paused → p.writeable = true

theorem next?_eq_some {p q : GRXBufferedPipe α} {block : PipeBlock α}
    (h : p.next? = some (block, q)) :
    p.suspensions = 0 ∧ ∃ rest, p.writeQueue = block :: rest ∧ q = { p with writeQueue := rest } := by
  unfold next? at h
  split_ifs at h with hsusp
  cases hqueue : p.writeQueue with
  | nil =>
      simp [hqueue] at h
  | cons b rest =>
      simp only [hqueue, Option.some.injEq, Prod.mk.injEq] at h
      rcases h with ⟨rfl, rfl⟩
      exact ⟨hsusp, rest, rfl, rfl⟩

@[simp] theorem setState_writeQueue (p : GRXBufferedPipe α) (newState : GRXWriterState) :
    (p.setState newState).writeQueue = p.writeQueue := by
  unfold setState
  cases newState <;> (dsimp only; split_ifs <;> rfl)

/-- The pipe never leaves its last state. -/
theorem setState_of_finished {p : GRXBufferedPipe α} (newState : GRXWriterState)
    (h : p.state = .finished) : p.setState newState = p := by
  simp [setState, h]

theorem setState_of_notStarted {p : GRXBufferedPipe α} (newState : GRXWriterState)
    (h : p.state = .notStarted) : p.setState newState = p := by
  simp [setState, h]

namespace Sound

variable {p q : GRXBufferedPipe α}

theorem setState (h : p.Sound) (newState : GRXWriterState) : (p.setState newState).Sound := by
  rcases p with ⟨state, writeable, writeQueue, suspensions⟩
  rcases h with ⟨hsusp, hwriteable⟩
  -- Sixteen transitions, most of them refused.
  cases state <;> cases newState <;> constructor <;> simp_all [GRXBufferedPipe.setState]

theorem startWithWriteable (h : p.Sound) (hstate : p.state = .notStarted) :
    p.startWithWriteable.Sound := by
  have hsusp := h.suspended
  constructor <;> simp_all [GRXBufferedPipe.startWithWriteable]

theorem next (h : p.Sound) {block : PipeBlock α} (hnext : p.next? = some (block, q)) :
    q.Sound := by
  rcases next?_eq_some hnext with ⟨_, rest, _, rfl⟩
  exact ⟨h.suspended, h.writeable⟩

/-- A queue that runs belongs to a pipe that is started or finished. -/
theorem state_of_next (h : p.Sound) {block : PipeBlock α} (hnext : p.next? = some (block, q)) :
    p.state = .started ∨ p.state = .finished := by
  rcases next?_eq_some hnext with ⟨hsusp, _⟩
  rcases p with ⟨state, writeable, writeQueue, suspensions⟩
  have hstate := h.suspended
  cases state <;> simp_all

end Sound

end GRXBufferedPipe

/-! ## One write at a time -/

namespace Sending

variable {x y : Sending α}

@[simp] theorem values_nil : values ([] : List (PipeBlock α)) = [] := rfl

@[simp] theorem values_append (l l' : List (PipeBlock α)) :
    values (l ++ l') = values l ++ values l' := by
  simp [values]

@[simp] theorem values_value (v : α) (l : List (PipeBlock α)) :
    values (.value v :: l) = v :: values l := rfl

@[simp] theorem values_map (vs : List α) : values (vs.map .value) = vs := by
  simp [values, List.filterMap_map, Function.comp_def, PipeBlock.value?]

@[simp] theorem values_finished (l : List (PipeBlock α)) : values (.finished :: l) = values l := rfl

/-- A pipe that takes values has no write in flight, and one that is paused waits for at most
one.  The pipe is started once, by the thread that has started the call. -/
structure Flight (x : Sending α) : Prop where
  sound : x.pipe.Sound
  starting : 0 < x.starting → x.starting = 1 ∧ x.pipe.state = .notStarted
  fresh : x.started = false → x.starting = 0 ∧ x.pipe.state = .notStarted ∧ x.queue = []
  idle : x.pipe.state = .notStarted ∨ x.pipe.state = .started → x.inFlight = 0
  atMostOne : x.inFlight ≤ 1

namespace Flight

/-- A step that leaves the state of the pipe alone keeps the invariant when it adds no write. -/
theorem of_state_eq (h : Flight x) (hstate : y.pipe.state = x.pipe.state) (hsound : y.pipe.Sound)
    (hstarting : y.starting = x.starting) (hflight : y.inFlight ≤ x.inFlight)
    (hfresh : y.started = false → x.started = false ∧ (x.queue = [] → y.queue = [])) :
    Flight y := by
  refine ⟨hsound, ?_, ?_, ?_, le_trans hflight h.atMostOne⟩
  · rw [hstarting, hstate]
    exact h.starting
  · intro hy
    rcases hfresh hy with ⟨hx, hqueue⟩
    rcases h.fresh hx with ⟨hzero, hnot, hnil⟩
    exact ⟨hstarting.trans hzero, hstate.trans hnot, hqueue hnil⟩
  -- The same pipe states are idle before and after.
  · intro hidle
    rw [hstate] at hidle
    have hzero := h.idle hidle
    omega

/-- Closing the pipe ends nothing that is in flight, and takes no further value. -/
theorem finishPipe (h : Flight x) : Flight { x with pipe := x.pipe.setState .finished } := by
  -- A pipe that was never started stays as it is.
  by_cases hnot : x.pipe.state = .notStarted
  · rw [GRXBufferedPipe.setState_of_notStarted _ hnot]
    exact h
  · have hfinished : (x.pipe.setState .finished).state = .finished := by
      unfold GRXBufferedPipe.setState
      split_ifs with hfixed hpaused <;> simp_all
    refine ⟨h.sound.setState .finished, ?_, ?_, by simp [hfinished], h.atMostOne⟩
    · intro hpos
      exact absurd (h.starting hpos).2 hnot
    · intro hstarted
      exact absurd (h.fresh hstarted).2.1 hnot

/-- The core is done with a write: the pipe, if it waits, waits for that one. -/
theorem written (h : Flight x) {n : ℕ} (hn : x.outstanding = n + 1) :
    Flight { x with pipe := x.pipe.setState .started, outstanding := n } := by
  have hone := h.atMostOne
  have hzero : n + (values x.queue).length = 0 := by
    unfold inFlight at hone
    omega
  -- A write in flight means that the pipe is paused, or has finished meanwhile.
  have hbusy : ¬(x.pipe.state = .notStarted ∨ x.pipe.state = .started) := by
    intro hidle
    have hnone := h.idle hidle
    unfold inFlight at hnone
    omega
  have hstate : (x.pipe.setState .started).state ≠ .notStarted := by
    unfold GRXBufferedPipe.setState
    split_ifs with hfixed hpaused <;> simp_all
  refine ⟨h.sound.setState .started, ?_, ?_, ?_, ?_⟩
  · intro hpos
    exact absurd (.inl (h.starting hpos).2) hbusy
  · intro hstarted
    exact absurd (.inl (h.fresh hstarted).2.1) hbusy
  · intro _
    exact hzero
  · exact le_of_eq_of_le hzero (Nat.zero_le 1)

/-- The pipe hands over a value and is paused in the same breath. -/
theorem passValue (h : Flight x) {v : α} {pipe : GRXBufferedPipe α}
    (hnext : x.pipe.next? = some (.value v, pipe)) (hpasses : pipe.passes = true) :
    Flight { x with pipe := pipe.setState .paused, queue := x.queue ++ [.value v] } := by
  have hsound := h.sound.next hnext
  have hstate := h.sound.state_of_next hnext
  rcases GRXBufferedPipe.next?_eq_some hnext with ⟨_, rest, _, rfl⟩
  -- The queue runs and the pipe passes the value on, so the pipe is started.
  have hstarted : x.pipe.state = .started := by
    rcases hstate with hstate | hstate
    · exact hstate
    · simp [GRXBufferedPipe.passes, hstate] at hpasses
  have hzero := h.idle (.inr hstarted)
  have hpaused : (GRXBufferedPipe.setState { x.pipe with writeQueue := rest } .paused).state =
      .paused := by
    simp [GRXBufferedPipe.setState, hstarted]
  refine ⟨hsound.setState .paused, ?_, ?_, by simp [hpaused], ?_⟩
  · intro hpos
    simp [(h.starting hpos).2] at hstarted
  · intro hnot
    simp [(h.fresh hnot).2.1] at hstarted
  · simp only [inFlight, values_append, List.length_append] at hzero ⊢
    simp only [values_value, values_nil, List.length_singleton]
    omega

theorem step (h : Flight x) (hstep : Step x y) : Flight y := by
  cases hstep with
  | refl =>
      exact h
  | write v hpipe =>
      exact h.of_state_eq rfl ⟨h.sound.suspended, h.sound.writeable⟩ rfl le_rfl
        fun hx => ⟨hx, id⟩
  | close hpipe =>
      exact h.of_state_eq rfl ⟨h.sound.suspended, h.sound.writeable⟩ rfl le_rfl
        fun hx => ⟨hx, id⟩
  | release | finishCall | disconnect =>
      exact h.of_state_eq rfl h.sound rfl le_rfl fun hx => ⟨hx, id⟩
  -- The thread that starts the call is the one that will start the pipe.
  | start hstarted =>
      rcases h.fresh hstarted with ⟨hzero, hstate, hqueue⟩
      have hflight : (values x.queue).length = 0 := by
        simp [hqueue]
      refine ⟨h.sound, ?_, by simp, ?_, ?_⟩
      · intro _
        exact ⟨by simp [hzero], hstate⟩
      · intro hidle
        have hnone := h.idle hidle
        simp only [inFlight, hflight] at hnone
        exact hnone
      · have hone := h.atMostOne
        simp only [inFlight, hflight] at hone
        exact hone
  | startFailed hstarted =>
      refine h.of_state_eq rfl h.sound rfl ?_ (by simp)
      exact Nat.add_le_add_left (Nat.zero_le _) _
  | startPipe hn =>
      rename_i n
      rcases h.starting (by omega) with ⟨hone, hstate⟩
      have hzero := h.idle (.inl hstate)
      refine ⟨h.sound.startWithWriteable hstate, ?_, ?_, fun _ => hzero, h.atMostOne⟩
      · intro hpos
        have hmore : 0 < n := hpos
        omega
      · intro hnot
        have hnone := (h.fresh hnot).1
        omega
  | finishPipe =>
      exact h.finishPipe
  | passValue hnext hpasses hended =>
      exact h.passValue hnext hpasses
  -- The end of the stream is no write, and the pipe is not paused for it.
  | passFinished hnext hpasses =>
      have hsound := h.sound.next hnext
      have hstate := h.sound.state_of_next hnext
      rcases GRXBufferedPipe.next?_eq_some hnext with ⟨_, rest, _, rfl⟩
      refine h.of_state_eq rfl hsound rfl ?_ ?_
      · simp [inFlight]
      · intro hnot
        rw [(h.fresh hnot).2.1] at hstate
        simp at hstate
  -- A block that runs without effect leaves the pipe in its state.
  | drop hnext hlost =>
      have hsound := h.sound.next hnext
      rcases GRXBufferedPipe.next?_eq_some hnext with ⟨_, rest, _, rfl⟩
      exact h.of_state_eq rfl hsound rfl le_rfl fun hx => ⟨hx, id⟩
  -- From the queue of the call to the core: the write stays the one in flight.
  | sendValue hqueue hconn =>
      refine h.of_state_eq rfl h.sound rfl ?_ fun hx => ⟨hx, by simp [hqueue]⟩
      simp only [inFlight, hqueue, values_value, List.length_cons]
      omega
  | sendFinished hqueue hconn =>
      refine h.of_state_eq rfl h.sound rfl ?_ fun hx => ⟨hx, by simp [hqueue]⟩
      simp [inFlight, hqueue]
  -- Without a call below, a write vanishes and the pipe stays paused.
  | lose hqueue hconn =>
      rename_i block rest
      refine h.of_state_eq rfl h.sound rfl ?_ fun hx => ⟨hx, by simp [hqueue]⟩
      cases block <;> simp [inFlight, hqueue]
  | written hn =>
      exact h.written hn
  | writeFailed hn =>
      refine h.of_state_eq rfl h.sound rfl ?_ fun hx => ⟨hx, id⟩
      simp only [inFlight, hn]
      omega

end Flight

/-! ## In the order of the user, and the end of the stream last -/

/-- Values, and after them at most one end of the stream, which nobody can follow up once the pipe
is released. -/
def Ends (hasPipe : Bool) (blocks : List (PipeBlock α)) : Prop :=
  ∃ vs : List α, blocks = vs.map .value ∨
    hasPipe = false ∧ blocks = vs.map .value ++ [.finished]

namespace Ends

variable {b : Bool} {l l' : List (PipeBlock α)}

theorem release (h : Ends b l) : Ends false l := by
  rcases h with ⟨vs, rfl | ⟨_, rfl⟩⟩
  · exact ⟨vs, .inl rfl⟩
  · exact ⟨vs, .inr ⟨rfl, rfl⟩⟩

theorem sublist (h : Ends b l) (hl : l'.Sublist l) : Ends b l' := by
  -- Dropping blocks leaves values with or without the end behind them.
  rcases h with ⟨vs, rfl | ⟨hb, rfl⟩⟩
  · rcases List.sublist_map_iff.1 hl with ⟨ws, _, rfl⟩
    exact ⟨ws, .inl rfl⟩
  · rcases List.sublist_append_iff.1 hl with ⟨l₁, l₂, rfl, hl₁, hl₂⟩
    rcases List.sublist_map_iff.1 hl₁ with ⟨ws, _, rfl⟩
    -- Of the end of the stream, all or nothing is left.
    rcases List.sublist_singleton.1 hl₂ with rfl | rfl
    · exact ⟨ws, .inl (by simp)⟩
    · exact ⟨ws, .inr ⟨hb, rfl⟩⟩

theorem write (h : Ends true l) (v : α) : Ends true (l ++ [.value v]) := by
  rcases h with ⟨vs, rfl | ⟨hb, _⟩⟩
  · exact ⟨vs ++ [v], .inl (by simp)⟩
  · cases hb

theorem close (h : Ends true l) : Ends false (l ++ [.finished]) := by
  rcases h with ⟨vs, rfl | ⟨hb, _⟩⟩
  · exact ⟨vs, .inr ⟨rfl, rfl⟩⟩
  · cases hb

/-- Nothing follows the end of the stream. -/
theorem eq_nil_of_finished (h : Ends b (l ++ .finished :: l')) : l' = [] := by
  rcases h with ⟨vs, hvs | ⟨_, hvs⟩⟩
  -- Among values alone there is no end.
  · have hmem : PipeBlock.finished ∈ vs.map PipeBlock.value := by
      rw [← hvs]
      simp
    simp at hmem
  · exact eq_nil_of_concat_eq hvs.symm (by simp)

end Ends

/-- Everything on its way to the core, the oldest first. -/
def line (x : Sending α) : List (PipeBlock α) :=
  x.sent ++ x.queue ++ x.pipe.writeQueue

/-- What was sent is the beginning of what was written; as long as nobody gives up, nothing is
lost on the way. -/
structure Ordered (x : Sending α) : Prop where
  ends : Ends x.hasPipe x.line
  sent : values x.sent <+: x.written
  handed : x.connected = true → values (x.sent ++ x.queue) <+: x.written
  kept : (x.started = true → x.ended = false) → x.connected = true → x.pipe.state ≠ .finished →
    values x.line = x.written

namespace Ordered

/-- A step that only moves the pipe from one state to another keeps the line as it is. -/
theorem of_line_eq (h : Ordered x) (hends : Ends y.hasPipe y.line) (hline : y.line = x.line)
    (hsent : y.sent = x.sent) (hqueue : y.queue = x.queue) (hwritten : y.written = x.written)
    (hconn : y.connected = true → x.connected = true)
    (halive : (y.started = true → y.ended = false) → y.pipe.state ≠ .finished →
      (x.started = true → x.ended = false) ∧ x.pipe.state ≠ .finished) : Ordered y := by
  refine ⟨hends, ?_, ?_, ?_⟩
  · rw [hsent, hwritten]
    exact h.sent
  · intro hc
    rw [hsent, hqueue, hwritten]
    exact h.handed (hconn hc)
  · intro hended hc hstate
    rcases halive hended hstate with ⟨hended', hstate'⟩
    rw [hline, hwritten]
    exact h.kept hended' (hconn hc) hstate'

theorem setState (h : Ordered x) (newState : GRXWriterState) (n : ℕ) :
    Ordered { x with pipe := x.pipe.setState newState, outstanding := n } := by
  have hline : ({ x with pipe := x.pipe.setState newState, outstanding := n } : Sending α).line =
      x.line := by
    simp [line]
  refine h.of_line_eq (by rw [hline]; exact h.ends) hline rfl rfl rfl id ?_
  intro hended hstate
  refine ⟨hended, ?_⟩
  -- A finished pipe would not have moved.
  intro hfinished
  rw [GRXBufferedPipe.setState_of_finished _ hfinished] at hstate
  exact hstate hfinished

/-- A value that the pipe hands over is the next one the user wrote. -/
theorem passValue (h : Ordered x) {v : α} {pipe : GRXBufferedPipe α}
    (hnext : x.pipe.next? = some (.value v, pipe)) (hpasses : pipe.passes = true)
    (hended : x.ended = false) :
    Ordered { x with pipe := pipe.setState .paused, queue := x.queue ++ [.value v] } := by
  rcases GRXBufferedPipe.next?_eq_some hnext with ⟨_, rest, hqueue, rfl⟩
  have hstate : x.pipe.state ≠ .finished := by
    intro hfinished
    simp [GRXBufferedPipe.passes, hfinished] at hpasses
  -- The block changes its queue, not its place in the line.
  have hline : (x.sent ++ (x.queue ++ [.value v])) ++ rest = x.line := by
    simp [line, hqueue]
  refine ⟨?_, h.sent, ?_, ?_⟩
  · simpa [line, hqueue] using h.ends
  -- Nothing is lost so far, so the line is all that was written.
  · intro hconn
    have hkept := h.kept (fun _ => hended) hconn hstate
    rw [← hline, values_append] at hkept
    exact ⟨values rest, hkept⟩
  · intro _ hconn _
    simpa [line, hqueue] using h.kept (fun _ => hended) hconn hstate

theorem drop (h : Ordered x) (hflight : Flight x) {block : PipeBlock α} {pipe : GRXBufferedPipe α}
    (hnext : x.pipe.next? = some (block, pipe)) (hlost : pipe.passes = false ∨ x.ended = true) :
    Ordered { x with pipe := pipe } := by
  have hstate := hflight.sound.state_of_next hnext
  have hsound := hflight.sound.next hnext
  rcases GRXBufferedPipe.next?_eq_some hnext with ⟨_, rest, hqueue, rfl⟩
  refine ⟨?_, h.sent, h.handed, ?_⟩
  · refine h.ends.sublist ?_
    simp [line, hqueue]
  · intro hended hconn hrunning
    -- Only a pipe or a call that has come to its end drops a block.
    exfalso
    rcases hlost with hclosed | hover
    · have hwriteable : x.pipe.writeable = true := by
        refine hsound.writeable (.inl ?_)
        rcases hstate with hstate | hstate
        · exact hstate
        · exact absurd hstate hrunning
      simp [GRXBufferedPipe.passes, hwriteable] at hclosed
      exact hrunning hclosed
    · cases hstarted : x.started with
      | false =>
          rw [(hflight.fresh hstarted).2.1] at hstate
          simp at hstate
      | true =>
          have hactive := hended hstarted
          simp [hover] at hactive

theorem send (h : Ordered x) {block : PipeBlock α} {rest : List (PipeBlock α)} {n : ℕ}
    (hqueue : x.queue = block :: rest) (hconn : x.connected = true) :
    Ordered { x with queue := rest, outstanding := n, sent := x.sent ++ [block] } := by
  have hhanded := h.handed hconn
  rw [hqueue] at hhanded
  refine ⟨?_, ?_, ?_, ?_⟩
  · simpa [line, hqueue] using h.ends
  -- What is sent now was handed over before, in this order.
  · refine List.IsPrefix.trans ⟨values rest, ?_⟩ hhanded
    rw [← values_append, List.append_assoc, List.singleton_append]
  · intro _
    simpa using hhanded
  · intro hended _ hstate
    simpa [line, hqueue] using h.kept hended hconn hstate

theorem step (h : Ordered x) (hflight : Flight x) (hstep : Step x y) : Ordered y := by
  cases hstep with
  | refl =>
      exact h
  -- Only while the user holds the pipe, so no end is in the line yet.
  | write v hpipe =>
      have hends := h.ends
      rw [hpipe] at hends
      refine ⟨?_, ?_, ?_, ?_⟩
      · simpa [line, GRXBufferedPipe.writeValue, hpipe] using hends.write v
      · exact h.sent.trans (List.prefix_append _ _)
      · intro hconn
        exact (h.handed hconn).trans (List.prefix_append _ _)
      · intro hended hconn hstate
        have hkept := h.kept hended hconn hstate
        simpa [line, GRXBufferedPipe.writeValue] using congrArg (· ++ [v]) hkept
  | close hpipe =>
      have hends := h.ends
      rw [hpipe] at hends
      refine ⟨?_, h.sent, h.handed, ?_⟩
      · simpa [line, GRXBufferedPipe.writesFinished] using hends.close
      · intro hended hconn hstate
        simpa [line, GRXBufferedPipe.writesFinished] using h.kept hended hconn hstate
  | release =>
      exact h.of_line_eq h.ends.release rfl rfl rfl rfl id fun hended hstate => ⟨hended, hstate⟩
  -- The queue of the new call is empty, as that of no call was.
  | start hstarted =>
      rcases hflight.fresh hstarted with ⟨_, hstate, hqueue⟩
      refine h.of_line_eq ?_ ?_ rfl hqueue.symm rfl id ?_
      · simpa [line, hqueue] using h.ends
      · simp [line, hqueue]
      · intro _ _
        exact ⟨by simp [hstarted], by simp [hstate]⟩
  | startFailed hstarted =>
      rcases hflight.fresh hstarted with ⟨_, hstate, hqueue⟩
      refine h.of_line_eq ?_ ?_ rfl hqueue.symm rfl id ?_
      · simpa [line, hqueue] using h.ends
      · simp [line, hqueue]
      · intro hended
        simp at hended
  -- From here on the call has ended, and nothing need be kept.
  | finishCall =>
      refine h.of_line_eq h.ends rfl rfl rfl rfl id ?_
      intro hended hstate
      refine ⟨?_, hstate⟩
      intro hstarted
      simp [hstarted] at hended
  | startPipe hn =>
      rcases hflight.starting (by omega) with ⟨_, hstate⟩
      exact h.of_line_eq h.ends rfl rfl rfl rfl id fun hended _ => ⟨hended, by simp [hstate]⟩
  | finishPipe =>
      exact h.setState .finished x.outstanding
  | passValue hnext hpasses hended =>
      exact h.passValue hnext hpasses hended
  | passFinished hnext hpasses =>
      rcases GRXBufferedPipe.next?_eq_some hnext with ⟨_, rest, hqueue, rfl⟩
      refine ⟨?_, h.sent, ?_, ?_⟩
      · simpa [line, hqueue] using h.ends
      · intro hconn
        simpa using h.handed hconn
      · intro hended hconn hstate
        simpa [line, hqueue] using h.kept hended hconn hstate
  | drop hnext hlost =>
      exact h.drop hflight hnext hlost
  | sendValue hqueue hconn =>
      exact h.send hqueue hconn
  | sendFinished hqueue hconn =>
      exact h.send hqueue hconn
  -- The connection is gone, and with it what was promised for connected calls.
  | lose hqueue hconn =>
      refine ⟨?_, h.sent, by simp [hconn], by simp [hconn]⟩
      refine h.ends.sublist ?_
      simp [line, hqueue]
  | written hn =>
      exact h.setState .started _
  | writeFailed hn =>
      exact h.of_line_eq h.ends rfl rfl rfl rfl id fun hended hstate => ⟨hended, hstate⟩
  | disconnect =>
      exact h.of_line_eq h.ends rfl rfl rfl rfl (by simp) fun hended hstate => ⟨hended, hstate⟩

end Ordered

end Sending

/-! ## Whole runs -/

/-- The writes and the ends of the stream the core was given. -/
def State.sends (s : State α) : List (PipeBlock α) :=
  s.batches.filterMap GRPCOp.send?

theorem sending_inv {flow : Bool} {es : List (Event α)} {tr : List (State α)} {s : State α}
    (hrun : (machine flow).Run es tr s) : s.sending.Flight ∧ s.sending.Ordered := by
  induction hrun with
  | init =>
      constructor
      · constructor <;> simp [machine, State.init, State.sending, GRPCCall.init,
          GRXBufferedPipe.pipe, Sending.inFlight]
        constructor <;> simp
      · constructor <;> simp [machine, State.init, State.sending, GRPCCall.init,
          GRXBufferedPipe.pipe, Sending.line]
        exact ⟨[], .inl rfl⟩
  | step _ hstep ih =>
      rcases ih with ⟨hflight, hordered⟩
      have hs := sending_step hstep
      exact ⟨hflight.step hs, hordered.step hflight hs⟩

/-- However the threads interleave, the core never has two writes at once, and is given the
messages in the order of the user with the end of the stream, once, after all of them. -/
theorem sends_in_order {flow : Bool} {es : List (Event α)} {tr : List (State α)} {s : State α}
    (hrun : (machine flow).Run es tr s) :
    s.outstanding.countP GRPCOp.isSendMessage ≤ 1 ∧
      ∃ messages : List α, messages <+: s.written ∧
        (s.sends = messages.map .value ∨
          s.sends = messages.map .value ++ [.finished] ∧
            (s.call.state ≠ .finished → s.connected = true → s.pipe.state ≠ .finished →
              messages = s.written)) := by
  rcases sending_inv hrun with ⟨hflight, hordered⟩
  refine ⟨le_trans (Nat.le_add_right _ _) hflight.atMostOne, ?_⟩
  have hsent : Sending.values s.sends <+: s.written := hordered.sent
  have hends : Sending.Ends s.sending.hasPipe s.sends :=
    hordered.ends.sublist (by simp [Sending.line, State.sends, State.sending])
  rcases hends with ⟨messages, hsends | ⟨_, hsends⟩⟩
  · refine ⟨messages, ?_, .inl hsends⟩
    simpa [hsends] using hsent
  · refine ⟨messages, by simpa [hsends] using hsent, .inr ⟨hsends, ?_⟩⟩
    intro hactive hconn hopen
    -- The end of the stream has left, so nothing is behind it.
    have hline : s.sending.line = messages.map .value ++
        .finished :: (s.sending.queue ++ s.pipe.writeQueue) := by
      have hsplit : s.sending.line = s.sends ++ s.sending.queue ++ s.pipe.writeQueue := rfl
      rw [hsplit, hsends]
      simp
    have hnothing := (hline ▸ hordered.ends).eq_nil_of_finished
    have hkept : Sending.values s.sending.line = s.written :=
      hordered.kept (by simpa [State.sending] using fun _ => hactive) hconn hopen
    simpa [hline, hnothing] using hkept

/-- The user writes twice and closes before the call has started to write. -/
def twoWrites : List (Event ℕ) :=
  [ .start true
  , .writeData 1
  , .writeData 2
  , .finish
  , .runCall
  , .runCall
  , .proceed 0
  , .runPipe
  , .runCall
  , .complete 3 .done
  , .runPipe
  , .runCall
  , .complete 3 .done
  , .runPipe
  , .runCall ]

theorem twoWrites_sends :
    ∃ tr, ∃ s : State ℕ, (machine false).Run twoWrites tr s ∧
      s.sends = [.value 1, .value 2, .finished] ∧
      s.outstanding.countP GRPCOp.isSendMessage ≤ 1 := by
  have hexec : (((machine false).exec (machine false).init twoWrites).map fun s : State ℕ =>
      s.sends) = some [.value 1, .value 2, .finished] := by
    decide
  rcases Machine.exists_run_of_exec _ hexec with ⟨tr, s, hrun, hsends⟩
  exact ⟨tr, s, hrun, hsends, (sends_in_order hrun).1⟩

end Grpc
end KmpApp
