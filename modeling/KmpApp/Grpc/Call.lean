import Mathlib.Algebra.Ring.Nat
import KmpApp.Coroutines.Suspend
import KmpApp.Grpc.Rx
import KmpApp.Transition.Run

/-!
# Call — one streaming call, from the user's thread to the core and back

On iOS the chat stream runs through `GRPCCall2Internal`, which writes the user's messages into a
`GRXBufferedPipe` and starts a `GRPCCall` on it; the `GRPCCall` hands operations to the core and
gets their completions on a network thread.  Four queues and any number of threads take part:

* the user's calls, which `GRPCCall2` runs on the dispatch queue of the transport;
* `_writeQueue` of the pipe, `_callQueue` of the `GRPCCall`, and the dispatch queue of the
  transport, which is also the response queue of the `GRPCCall`;
* the completions of the core, in any order.

An event is one block of a queue, one `@synchronized` section, or one completion.  Where the source
goes on after it has left a section, what is left to do is a `Continuation`, and other threads may
come in between.
-/

namespace KmpApp
namespace Grpc

open Coroutines Transition

/-! ## State -/

/-- The operations of a batch; the send operations of a streaming call are batches of their own. -/
inductive GRPCOp (α : Type)
  | sendMetadata
  | recvMetadata
  | recvStatus
  | sendMessage (message : α)
  | sendClose
  | recvMessage
  deriving DecidableEq, Repr

/-- The blocks of `_callQueue`. -/
inductive CallBlock (α : Type)
  | sendHeaders
  | invokeCall
  | writeMessage (message : α)
  | finishRequest
  | startRead
  deriving DecidableEq, Repr

/-- The blocks of the dispatch queue: those of the `GRXConcurrentWriteable`, and those with which
`GRPCCall2Internal` forwards to the previous interceptor. -/
inductive DispatchBlock (α : Type)
  | value (v : α)
  | successfulCompletion
  | error (code : StatusCode)
  | forwardInitialMetadata
  | forwardData (v : α)
  | forwardClose (errorOrNil : Option StatusCode)
  | forwardDidWriteData
  deriving DecidableEq, Repr

/-- What the previous interceptor, and in the end the user's handler, is told. -/
inductive Callback (α : Type)
  | didReceiveInitialMetadata
  | didReceiveData (v : α)
  | didClose (errorOrNil : Option StatusCode)
  | didWriteData
  deriving DecidableEq, Repr

/-- What a thread still has to do after it has left a `@synchronized` section. -/
inductive Continuation
  | startPipe
  | finishPipe
  | cancelCall
  deriving DecidableEq, Repr

structure GRPCCall (α : Type) where
  state : GRXWriterState
  pendingCoreRead : Bool
  pendingReceiveNextMessages : ℕ
  responseHeaders : Bool
  responseWriteable : Option GRXConcurrentWriteable
  callQueue : List (CallBlock α)
  deriving DecidableEq, Repr

/-- `hasCall` and `hasPipe` say whether `_call` and `_pipe` are set. -/
structure GRPCCall2Internal where
  started : Bool
  canceled : Bool
  finished : Bool
  initialMetadataPublished : Bool
  hasCall : Bool
  hasPipe : Bool
  pendingReceiveNextMessages : ℕ
  deriving DecidableEq, Repr

/-- `written` and `received` keep what was handed to the pipe and what the core has read. -/
structure State (α : Type) where
  internal : GRPCCall2Internal
  pipe : GRXBufferedPipe α
  call : GRPCCall α
  connected : Bool
  outstanding : List (GRPCOp α)
  batches : List (GRPCOp α)
  dispatchQueue : List (DispatchBlock α)
  transport : Bool
  previousInterceptor : Bool
  handler : List (Callback α)
  pending : List Continuation
  written : List α
  received : List α
  deriving DecidableEq, Repr

variable {α : Type}

/-! ## GRPCCall -/

/-- `NSUInteger` has 64 bits and wraps around. -/
def nsUIntegerDecrement (n : ℕ) : ℕ :=
  (n + (2 ^ 64 - 1)) % 2 ^ 64

namespace GRPCCall

def init : GRPCCall α :=
  { state := .notStarted
    -- Do not start a read until initial metadata is received.
    pendingCoreRead := true
    pendingReceiveNextMessages := 0
    responseHeaders := false
    responseWriteable := none
    callQueue := [] }

def dispatch (call : GRPCCall α) (block : CallBlock α) : GRPCCall α :=
  { call with callQueue := call.callQueue ++ [block] }

def maybeStartNextRead (flowControlEnabled : Bool) (call : GRPCCall α) : GRPCCall α :=
  -- If the call is not started or is over, this does nothing.
  if call.state ≠ .started then
    call
  else if flowControlEnabled &&
      (call.pendingCoreRead || call.pendingReceiveNextMessages == 0) then
    call
  else
    -- Without flow control this is reached with nothing asked for, and the count wraps around.
    { call with
      pendingCoreRead := true
      pendingReceiveNextMessages := nsUIntegerDecrement call.pendingReceiveNextMessages
      callQueue := call.callQueue ++ [.startRead] }

def receiveNextMessages (flowControlEnabled : Bool) (call : GRPCCall α) (numberOfMessages : ℕ) :
    GRPCCall α :=
  if numberOfMessages = 0 then
    call
  else
    let call' :=
      { call with
        pendingReceiveNextMessages :=
          (call.pendingReceiveNextMessages + numberOfMessages) % 2 ^ 64 }
    if call'.state ≠ .started || !flowControlEnabled then
      call'
    else
      maybeStartNextRead flowControlEnabled call'

/-- A call that was not started reads nothing, and keeps what it was asked for. -/
theorem receiveNextMessages_init (flowControlEnabled : Bool) (numberOfMessages : ℕ) :
    (init : GRPCCall α).receiveNextMessages flowControlEnabled numberOfMessages =
      { init with pendingReceiveNextMessages := numberOfMessages % 2 ^ 64 } := by
  unfold receiveNextMessages
  split_ifs with h
  · simp [init, h]
  · simp [init]

/-- The end of a read: the handlers for the headers and for a message that was delivered. -/
def readDone (flowControlEnabled : Bool) (call : GRPCCall α) : GRPCCall α :=
  maybeStartNextRead flowControlEnabled { call with pendingCoreRead := false }

end GRPCCall

namespace State

def finishWithError (s : State α) (errorOrNil : Option StatusCode) : State α :=
  if s.call.state = .finished then
    s
  else
    match s.call.responseWriteable with
    -- A message to `nil`: the state changes and nobody is told.
    | none => { s with call := { s.call with state := .finished } }
    | some w =>
        match errorOrNil with
        | some code =>
            -- The flag is set at once, the error itself waits for its turn in the queue.
            { s with
              call := { s.call with state := .finished, responseWriteable := some w.cancel }
              dispatchQueue := s.dispatchQueue ++ [.error code] }
        | none =>
            { s with
              call := { s.call with state := .finished }
              dispatchQueue := s.dispatchQueue ++ [.successfulCompletion] }

def later (s : State α) (c : Continuation) : State α :=
  { s with pending := s.pending ++ [c] }

/-- `-[GRPCCall cancel]`. -/
def cancelCall (s : State α) : State α :=
  if s.call.state = .finished then
    s
  else
    -- The request writer is not touched inside the section, for deadlock prevention.
    (s.finishWithError (some .cancelled)).later .finishPipe

end State

/-! ## GRPCCall2Internal -/

def GRPCCall2Internal.init : GRPCCall2Internal :=
  { started := false
    canceled := false
    finished := false
    initialMetadataPublished := false
    hasCall := false
    hasPipe := true
    pendingReceiveNextMessages := 0 }

namespace State

/-- The call is made and started in one go: nobody else knows it yet.  Only the writes start after
the section, once the RPC has been initiated. -/
def start (flowControlEnabled channelOk : Bool) (s : State α) : State α :=
  if s.internal.started || s.internal.canceled then
    s
  else
    -- What was asked for before the start is handed over to the new call.
    let call : GRPCCall α :=
      GRPCCall.receiveNextMessages flowControlEnabled .init s.internal.pendingReceiveNextMessages
    let s' :=
      { s with
        internal :=
          { s.internal with started := true, hasCall := true, pendingReceiveNextMessages := 0 }
        call :=
          { call with state := .started, responseWriteable := some .initWithWriteable } }
    if channelOk then
      { s' with call := (s'.call.dispatch .sendHeaders).dispatch .invokeCall }.later .startPipe
    else
      -- No call or channel could be made; the pipe is never started then.
      s'.finishWithError (some .unavailable)

def writeData (s : State α) (data : α) : State α :=
  if s.internal.canceled || s.internal.finished || !s.internal.hasPipe then
    s
  else
    -- The pipe buffers without end: there is no pressure back to the user.
    { s with
      pipe := s.pipe.writeValue data
      written := s.written ++ [data] }

def finish (s : State α) : State α :=
  if !s.internal.started || s.internal.canceled || s.internal.finished then
    s
  else
    { s with
      -- A call that has ended before may have taken the pipe away already.
      internal := { s.internal with finished := true, hasPipe := false }
      pipe := if s.internal.hasPipe then s.pipe.writesFinished else s.pipe }

/-- Forward a close to the previous interceptor, which is not told anything after it. -/
def forwardClose (s : State α) (errorOrNil : Option StatusCode) : State α :=
  if s.previousInterceptor then
    { s with
      handler := s.handler ++ [.didClose errorOrNil]
      previousInterceptor := false }
  else
    s

def shutDown (s : State α) : State α :=
  { s with
    transport := false
    previousInterceptor := false }

def cancel (s : State α) : State α :=
  if s.internal.canceled then
    s
  else
    let s' := ({ s with
      internal := { s.internal with canceled := true, hasCall := false, hasPipe := false } }
        |>.forwardClose (some .cancelled)).shutDown
    -- The call itself is cancelled after the section has been left.
    if s.internal.hasCall then s'.later .cancelCall else s'

def receiveNextMessages (flowControlEnabled : Bool) (s : State α) (numberOfMessages : ℕ) :
    State α :=
  -- Whether flow control is on is decided inside the call.
  if s.internal.hasCall then
    { s with call := s.call.receiveNextMessages flowControlEnabled numberOfMessages }
  else
    { s with
      internal :=
        { s.internal with
          pendingReceiveNextMessages :=
            (s.internal.pendingReceiveNextMessages + numberOfMessages) % 2 ^ 64 } }

def dispatch (s : State α) (block : DispatchBlock α) : State α :=
  { s with dispatchQueue := s.dispatchQueue ++ [block] }

/-- Initial metadata is published once, before the first message or the close. -/
def publishInitialMetadata (s : State α) : State α :=
  if s.internal.initialMetadataPublished then
    s
  else
    let s' := { s with internal := { s.internal with initialMetadataPublished := true } }
    -- A call that ended without headers has nothing to publish, and is not asked again.
    if s.internal.hasCall && s.call.responseHeaders then
      s'.dispatch .forwardInitialMetadata
    else
      s'

def valueHandler (s : State α) (value : α) : State α :=
  s.publishInitialMetadata.dispatch (.forwardData value)

def completionHandler (s : State α) (errorOrNil : Option StatusCode) : State α :=
  let s' := s.publishInitialMetadata.dispatch (.forwardClose errorOrNil)
  -- The call is let go after the close has been dispatched, which takes the trailers from it.
  if s'.internal.hasCall then
    { s' with
      pipe := if s'.internal.hasPipe then s'.pipe.writesFinished else s'.pipe
      internal := { s'.internal with hasCall := false, hasPipe := false } }
  else
    s'

/-! ## The blocks of the queues -/

/-- `-[GRPCCall writeValue:]`: pause the input, and only resume it when the core is done with the
write. -/
def writeValue (s : State α) (value : α) : State α :=
  if s.call.state = .finished then
    s
  else
    { s with
      pipe := s.pipe.setState .paused
      call := s.call.dispatch (.writeMessage value) }

/-- `-[GRPCCall writesFinishedWithError:]` without an error. -/
def writesFinished (s : State α) : State α :=
  { s with call := s.call.dispatch .finishRequest }

def runPipeBlock (s : State α) (block : PipeBlock α) : State α :=
  -- The blocks of a pipe that has finished run as well, and do nothing.
  if s.pipe.passes then
    match block with
    | .value v => s.writeValue v
    | .finished => s.writesFinished
  else
    s

def startBatch (s : State α) (op : GRPCOp α) : State α :=
  -- Without a call to the core below it the batch is dropped, and no handler of it runs.
  if s.connected then
    { s with
      outstanding := s.outstanding ++ [op]
      batches := s.batches ++ [op] }
  else
    s

def runCallBlock (s : State α) : CallBlock α → State α
  | .sendHeaders => s.startBatch .sendMetadata
  -- Two batches, which the core may complete in either order.
  | .invokeCall => (s.startBatch .recvMetadata).startBatch .recvStatus
  | .writeMessage m => s.startBatch (.sendMessage m)
  | .finishRequest => s.startBatch .sendClose
  | .startRead => s.startBatch .recvMessage

def forward (s : State α) (callback : Callback α) : State α :=
  if s.previousInterceptor then
    { s with handler := s.handler ++ [callback] }
  else
    s

/-- `writesFinishedWithError:` on the response writeable `w`, which is closed by it. -/
def closeWriteable (s : State α) (w : GRXConcurrentWriteable) (errorOrNil : Option StatusCode) :
    State α :=
  let s' := s.completionHandler errorOrNil
  { s' with call := { s'.call with responseWriteable := some w.finish } }

def runDispatchBlock (flowControlEnabled : Bool) (s : State α) : DispatchBlock α → State α
  | .value v =>
      match s.call.responseWriteable with
      | none => s
      | some w =>
          if w.isOpen then
            -- The handler of the writeable first, then the one that came with the value.
            let s' := s.valueHandler v
            { s' with call := s'.call.readDone flowControlEnabled }
          else
            s
  | .successfulCompletion =>
      match s.call.responseWriteable with
      | none => s
      | some w => if w.isOpen then s.closeWriteable w none else s
  | .error code =>
      match s.call.responseWriteable with
      | none => s
      -- A cancellation does not stop the error that came with it.
      | some w => if w.alreadyFinished then s else s.closeWriteable w (some code)
  | .forwardInitialMetadata => s.forward .didReceiveInitialMetadata
  | .forwardData v => s.forward (.didReceiveData v)
  -- After the close nothing of the user gets through to the call any more.
  | .forwardClose errorOrNil => (s.forwardClose errorOrNil).shutDown
  | .forwardDidWriteData => s.forward .didWriteData

end State

/-! ## The core -/

/-- How the core ends a batch.  The handlers of a batch that failed, or of a call that nobody holds
any more, are not run. -/
inductive Outcome (α : Type)
  | failed
  | done
  | message (message : Option α)
  | noMemory
  | status (errorOrNil : Option StatusCode)
  deriving DecidableEq, Repr

namespace State

/-- The handler of an operation; `none` where the core never ends that operation that way. -/
def operationFinished (flowControlEnabled : Bool) (s : State α) :
    GRPCOp α → Outcome α → Option (State α)
  -- A write that failed is not reported: the status of the call is.
  | _, .failed => some s
  | .sendMetadata, .done => some s
  | .sendClose, .done => some s
  | .sendMessage _, .done =>
      some ({ s with pipe := s.pipe.setState .started }.dispatch .forwardDidWriteData)
  | .recvMetadata, .done =>
      some { s with
        call := GRPCCall.readDone flowControlEnabled { s.call with responseHeaders := true } }
  | .recvStatus, .status errorOrNil =>
      -- The request writer is finished outside the section.
      some ((s.finishWithError errorOrNil).later .finishPipe)
  -- No more messages from the server: the read stays pending.
  | .recvMessage, .message none => some s
  | .recvMessage, .message (some v) =>
      some ({ s with received := s.received ++ [v] }.dispatch (.value v))
  | .recvMessage, .noMemory =>
      let s' := { s with call := { s.call with pendingCoreRead := false } }
      some ((s'.finishWithError (some .resourceExhausted)).later .finishPipe)
  | _, _ => none

def proceed (s : State α) : Continuation → State α
  | .startPipe => { s with pipe := s.pipe.startWithWriteable }
  | .finishPipe => { s with pipe := s.pipe.setState .finished }
  | .cancelCall => s.cancelCall

end State

/-! ## The machine -/

inductive Event (α : Type)
  | start (channelOk : Bool)
  | writeData (data : α)
  | finish
  | cancel
  | receiveNextMessages (numberOfMessages : ℕ)
  | runPipe
  | runCall
  | runDispatch
  | complete (i : ℕ) (outcome : Outcome α)
  | channelDisconnected
  | proceed (i : ℕ)
  deriving DecidableEq, Repr

def State.init : State α :=
  { internal := .init
    pipe := .pipe
    call := .init
    connected := true
    outstanding := []
    batches := []
    dispatchQueue := []
    transport := true
    previousInterceptor := true
    handler := []
    pending := []
    written := []
    received := [] }

/-- What the user asks for reaches the call through the transport manager. -/
def State.viaTransport (s : State α) (f : State α → State α) : State α :=
  if s.transport then f s else s

def step (flowControlEnabled : Bool) (s : State α) : Event α → Option (State α)
  | .start channelOk => some (s.viaTransport (·.start flowControlEnabled channelOk))
  | .writeData data => some (s.viaTransport (·.writeData data))
  | .finish => some (s.viaTransport (·.finish))
  | .cancel => some (s.viaTransport (·.cancel))
  -- The argument is an `NSUInteger`.
  | .receiveNextMessages n =>
      if n < 2 ^ 64 then
        some (s.viaTransport (·.receiveNextMessages flowControlEnabled n))
      else
        none
  -- A block is off its queue before it runs, as it may suspend the queue itself.
  | .runPipe => s.pipe.next?.map fun next => { s with pipe := next.2 }.runPipeBlock next.1
  | .runCall =>
      match s.call.callQueue with
      | [] => none
      | block :: rest =>
          some ({ s with call := { s.call with callQueue := rest } }.runCallBlock block)
  | .runDispatch =>
      match s.dispatchQueue with
      | [] => none
      | block :: rest =>
          some ({ s with dispatchQueue := rest }.runDispatchBlock flowControlEnabled block)
  -- The core completes what is outstanding in any order.
  | .complete i outcome =>
      match s.outstanding[i]? with
      | none => none
      | some op =>
          { s with outstanding := s.outstanding.eraseIdx i }.operationFinished
            flowControlEnabled op outcome
  | .channelDisconnected => some { s with connected := false }
  | .proceed i =>
      match s.pending[i]? with
      | none => none
      | some c => some ({ s with pending := s.pending.eraseIdx i }.proceed c)

def machine (flowControlEnabled : Bool) : Machine (State α) (Event α) :=
  { init := State.init
    step := step flowControlEnabled }

/-! ## What a step can do -/

/-- All that can happen in one step, with what is known of the state before it. -/
inductive Moved (flow : Bool) (s : State α) : Event α → State α → Prop where
  | ignored {e : Event α} :
      Moved flow s e s
  | start (channelOk : Bool) :
      Moved flow s (.start channelOk) (s.start flow channelOk)
  | writeData (data : α) :
      Moved flow s (.writeData data) (s.writeData data)
  | finish :
      Moved flow s .finish s.finish
  | cancel :
      Moved flow s .cancel s.cancel
  | receiveNextMessages (n : ℕ) :
      Moved flow s (.receiveNextMessages n) (s.receiveNextMessages flow n)
  | runPipe {block : PipeBlock α} {pipe : GRXBufferedPipe α} :
      s.pipe.next? = some (block, pipe) →
      Moved flow s .runPipe ({ s with pipe := pipe }.runPipeBlock block)
  | runCall {block : CallBlock α} {rest : List (CallBlock α)} :
      s.call.callQueue = block :: rest →
      Moved flow s .runCall
        ({ s with call := { s.call with callQueue := rest } }.runCallBlock block)
  | runDispatch {block : DispatchBlock α} {rest : List (DispatchBlock α)} :
      s.dispatchQueue = block :: rest →
      Moved flow s .runDispatch ({ s with dispatchQueue := rest }.runDispatchBlock flow block)
  | operationFinished {i : ℕ} {op : GRPCOp α} {outcome : Outcome α} :
      s.outstanding[i]? = some op →
      outcome = .failed ∨ op = .recvMessage ∧ outcome = .message none ∨
        (op = .sendMetadata ∨ op = .sendClose) ∧ outcome = .done →
      Moved flow s (.complete i outcome) { s with outstanding := s.outstanding.eraseIdx i }
  | messageSent {i : ℕ} {m : α} :
      s.outstanding[i]? = some (.sendMessage m) →
      Moved flow s (.complete i .done) ({ s with
        outstanding := s.outstanding.eraseIdx i
        pipe := s.pipe.setState .started }.dispatch .forwardDidWriteData)
  | metadataReceived {i : ℕ} :
      s.outstanding[i]? = some .recvMetadata →
      Moved flow s (.complete i .done) { s with
        outstanding := s.outstanding.eraseIdx i
        call := GRPCCall.readDone flow { s.call with responseHeaders := true } }
  | statusReceived {i : ℕ} (errorOrNil : Option StatusCode) :
      s.outstanding[i]? = some .recvStatus →
      Moved flow s (.complete i (.status errorOrNil))
        (({ s with outstanding := s.outstanding.eraseIdx i }.finishWithError
          errorOrNil).later .finishPipe)
  | messageReceived {i : ℕ} (v : α) :
      s.outstanding[i]? = some .recvMessage →
      Moved flow s (.complete i (.message (some v))) ({ s with
        outstanding := s.outstanding.eraseIdx i
        received := s.received ++ [v] }.dispatch (.value v))
  | noMemory {i : ℕ} :
      s.outstanding[i]? = some .recvMessage →
      Moved flow s (.complete i .noMemory)
        (({ s with
          outstanding := s.outstanding.eraseIdx i
          call := { s.call with pendingCoreRead := false } }.finishWithError
            (some .resourceExhausted)).later .finishPipe)
  | channelDisconnected :
      Moved flow s .channelDisconnected { s with connected := false }
  | proceed {i : ℕ} {c : Continuation} :
      s.pending[i]? = some c →
      Moved flow s (.proceed i) ({ s with pending := s.pending.eraseIdx i }.proceed c)

theorem moved_of_operationFinished {flow : Bool} {s s' : State α} {i : ℕ} {op : GRPCOp α}
    {outcome : Outcome α} (hop : s.outstanding[i]? = some op)
    (h : { s with outstanding := s.outstanding.eraseIdx i }.operationFinished flow op outcome =
      some s') :
    Moved flow s (.complete i outcome) s' := by
  cases outcome with
  | failed =>
      have hs : { s with outstanding := s.outstanding.eraseIdx i } = s' := by
        simpa [State.operationFinished] using h
      rw [← hs]
      exact .operationFinished hop (.inl rfl)
  | done =>
      cases op <;> simp only [State.operationFinished, Option.some.injEq, reduceCtorEq] at h <;>
        subst h
      · exact .operationFinished hop (.inr (.inr ⟨.inl rfl, rfl⟩))
      · exact .metadataReceived hop
      · exact .messageSent hop
      · exact .operationFinished hop (.inr (.inr ⟨.inr rfl, rfl⟩))
  | message v =>
      cases op <;> cases v <;>
        simp only [State.operationFinished, Option.some.injEq, reduceCtorEq] at h <;> subst h
      · exact .operationFinished hop (.inr (.inl ⟨rfl, rfl⟩))
      · exact .messageReceived _ hop
  | noMemory =>
      cases op <;> simp only [State.operationFinished, Option.some.injEq, reduceCtorEq] at h
      subst h
      exact .noMemory hop
  | status errorOrNil =>
      cases op <;> simp only [State.operationFinished, Option.some.injEq, reduceCtorEq] at h
      subst h
      exact .statusReceived errorOrNil hop

theorem moved_of_step {flow : Bool} {s s' : State α} {e : Event α} (h : step flow s e = some s') :
    Moved flow s e s' := by
  -- What the user asks for is ignored once the transport is shut down.
  have hvia : ∀ f : State α → State α, s.viaTransport f = s' → Moved flow s e (f s) →
      Moved flow s e s' := by
    intro f hf hmoved
    rw [← hf]
    unfold State.viaTransport
    split_ifs
    · exact hmoved
    · exact .ignored
  cases e with
  | start channelOk =>
      exact hvia _ (Option.some.inj h) (.start channelOk)
  | writeData data =>
      exact hvia _ (Option.some.inj h) (.writeData data)
  | finish =>
      exact hvia _ (Option.some.inj h) .finish
  | cancel =>
      exact hvia _ (Option.some.inj h) .cancel
  | receiveNextMessages n =>
      simp only [step] at h
      split_ifs at h
      exact hvia _ (Option.some.inj h) (.receiveNextMessages n)
  | runPipe =>
      simp only [step, Option.map_eq_some_iff] at h
      rcases h with ⟨⟨block, pipe⟩, hnext, rfl⟩
      exact .runPipe hnext
  | runCall =>
      simp only [step] at h
      split at h
      · cases h
      · rename_i block rest hqueue
        cases h
        exact .runCall hqueue
  | runDispatch =>
      simp only [step] at h
      split at h
      · cases h
      · rename_i block rest hqueue
        cases h
        exact .runDispatch hqueue
  | complete i outcome =>
      simp only [step] at h
      split at h
      · cases h
      · rename_i op hop
        exact moved_of_operationFinished hop h
  | channelDisconnected =>
      cases h
      exact .channelDisconnected
  | proceed i =>
      simp only [step] at h
      split at h
      · cases h
      · rename_i c hc
        cases h
        exact .proceed hc

end Grpc
end KmpApp
