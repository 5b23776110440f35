import KmpApp.Grpc.Reading

/-!
# Delivery — what the handler of a call is told

A message goes through the dispatch queue twice: the response writeable passes it to
`GRPCCall2Internal`, which enqueues a second block that forwards it to the handler.  Completions,
errors and cancellations come in from other threads meanwhile, and the core gives no guarantee on
their order.  Still the handler sees a *conversation*: the initial metadata at most once and before
the first message, the messages in the order of the core, and at most one close, which is last.

`Delivery` is the half of the state that decides what the handler is told, and `Delivery.Step` says
once what any event can do to it.
-/

namespace KmpApp
namespace Grpc

open Coroutines Transition

variable {α : Type}

/-! ## The delivery half -/

def DispatchBlock.value? : DispatchBlock α → Option α
  | .value v => some v
  | _ => none

def DispatchBlock.callback? : DispatchBlock α → Option (Callback α)
  | .forwardInitialMetadata => some .didReceiveInitialMetadata
  | .forwardData v => some (.didReceiveData v)
  | .forwardClose errorOrNil => some (.didClose errorOrNil)
  | .forwardDidWriteData => some .didWriteData
  | _ => none

namespace Callback

def data? : Callback α → Option α
  | .didReceiveData v => some v
  | _ => none

def isDidWriteData : Callback α → Bool
  | .didWriteData => true
  | _ => false

def isDidClose : Callback α → Bool
  | .didClose _ => true
  | _ => false

end Callback

structure Delivery (α : Type) where
  started : Bool
  hasCall : Bool
  headers : Bool
  published : Bool
  writeable : Option GRXConcurrentWriteable
  queue : List (DispatchBlock α)
  previousInterceptor : Bool
  handler : List (Callback α)
  received : List α

def State.delivery (s : State α) : Delivery α :=
  { started := s.internal.started
    hasCall := s.internal.hasCall
    headers := s.call.responseHeaders
    published := s.internal.initialMetadataPublished
    writeable := s.call.responseWriteable
    queue := s.dispatchQueue
    previousInterceptor := s.previousInterceptor
    handler := s.handler
    received := s.received }

namespace Delivery

def isOpen (d : Delivery α) : Bool :=
  match d.writeable with
  | none => false
  | some w => w.isOpen

def isFinished (d : Delivery α) : Bool :=
  match d.writeable with
  | none => false
  | some w => w.alreadyFinished

/-- The blocks that publish the initial metadata before the first message or the close. -/
def metadata (d : Delivery α) : List (DispatchBlock α) :=
  if !d.published && (d.hasCall && d.headers) then [.forwardInitialMetadata] else []

/-- The steps; `true` for the one in which the status of a call that went well arrives. -/
inductive Step : Bool → Delivery α → Delivery α → Prop where
  | start {d : Delivery α} :
      d.started = false →
      Step false d { d with
        started := true, hasCall := true, headers := false, writeable := some .initWithWriteable }
  | startFailed {d : Delivery α} (code : StatusCode) :
      d.started = false →
      Step false d { d with
        started := true, hasCall := true, headers := false,
        writeable := some (GRXConcurrentWriteable.cancel .initWithWriteable),
        queue := d.queue ++ [.error code] }
  | headers {d : Delivery α} :
      d.started = true →
      Step false d { d with headers := true }
  | receive {d : Delivery α} (v : α) :
      d.headers = true →
      Step false d { d with queue := d.queue ++ [.value v], received := d.received ++ [v] }
  | wrote {d : Delivery α} :
      Step false d { d with queue := d.queue ++ [.forwardDidWriteData] }
  | complete {d : Delivery α} {w : GRXConcurrentWriteable} :
      d.writeable = some w →
      Step true d { d with queue := d.queue ++ [.successfulCompletion] }
  | fail {d : Delivery α} {w : GRXConcurrentWriteable} (code : StatusCode) :
      d.writeable = some w →
      Step false d { d with writeable := some w.cancel, queue := d.queue ++ [.error code] }
  | deliver {d : Delivery α} {v : α} {rest : List (DispatchBlock α)} :
      d.queue = .value v :: rest → d.isOpen = true →
      Step false d { d with
        published := true, queue := rest ++ d.metadata ++ [.forwardData v] }
  | close {d : Delivery α} {block : DispatchBlock α} {rest : List (DispatchBlock α)}
      {w : GRXConcurrentWriteable} {errorOrNil : Option StatusCode} :
      d.queue = block :: rest → d.writeable = some w → w.alreadyFinished = false →
      block = .successfulCompletion ∧ errorOrNil = none ∧ w.isOpen = true ∨
        (∃ code, block = .error code ∧ errorOrNil = some code) →
      Step false d { d with
        published := true, queue := rest ++ d.metadata ++ [.forwardClose errorOrNil],
        writeable := some w.finish, hasCall := false }
  | discard {d : Delivery α} {block : DispatchBlock α} {rest : List (DispatchBlock α)} :
      d.queue = block :: rest → block.callback? = none → d.isOpen = false →
      Step false d { d with queue := rest }
  | forward {d : Delivery α} {block : DispatchBlock α} {rest : List (DispatchBlock α)}
      {callback : Callback α} :
      d.queue = block :: rest → block.callback? = some callback → d.previousInterceptor = true →
      Step false d { d with
        queue := rest, handler := d.handler ++ [callback],
        previousInterceptor := !callback.isDidClose }
  | forwardLost {d : Delivery α} {block : DispatchBlock α} {rest : List (DispatchBlock α)} :
      d.queue = block :: rest → d.previousInterceptor = false →
      Step false d { d with queue := rest }
  | cancel {d : Delivery α} :
      d.previousInterceptor = true →
      Step false d { d with
        hasCall := false, previousInterceptor := false,
        handler := d.handler ++ [.didClose (some .cancelled)] }
  | release {d : Delivery α} :
      d.previousInterceptor = false →
      Step false d { d with hasCall := false }

end Delivery

/-! ## Every event is a step of the delivery half -/

namespace State

theorem delivery_maybeStartNextRead (flow : Bool) (s : State α) :
    { s with call := s.call.maybeStartNextRead flow }.delivery = s.delivery := by
  unfold GRPCCall.maybeStartNextRead
  split_ifs <;> rfl

theorem delivery_readDone (flow : Bool) (s : State α) :
    { s with call := s.call.readDone flow }.delivery = s.delivery :=
  delivery_maybeStartNextRead flow { s with call := { s.call with pendingCoreRead := false } }

theorem delivery_publishInitialMetadata (s : State α) :
    s.publishInitialMetadata.delivery =
      { s.delivery with
        published := true, queue := s.dispatchQueue ++ s.delivery.metadata } := by
  unfold publishInitialMetadata Delivery.metadata
  dsimp only
  split_ifs <;> simp_all [delivery, dispatch]

/-- A completion handler that runs closes the writeable, and the call is released. -/
theorem delivery_closeWriteable (s : State α) (w : GRXConcurrentWriteable)
    (errorOrNil : Option StatusCode) :
    (s.closeWriteable w errorOrNil).delivery =
      { s.delivery with
        published := true
        queue := s.dispatchQueue ++ s.delivery.metadata ++ [.forwardClose errorOrNil]
        writeable := some w.finish
        hasCall := false } := by
  have hs := delivery_publishInitialMetadata s
  simp only [delivery, Delivery.mk.injEq] at hs
  unfold closeWriteable completionHandler
  dsimp only
  -- The call may have been released by a cancellation before.
  split_ifs with hcall hpipe
  · simp [delivery, dispatch, hs]
  · simp [delivery, dispatch, hs]
  · have hcall' : s.internal.hasCall = false := by
      simpa [dispatch, hs] using hcall
    simp [delivery, dispatch, hs, hcall']

theorem delivery_finishWithError (s : State α) (errorOrNil : Option StatusCode) :
    (s.finishWithError errorOrNil).delivery = s.delivery ∨
      Delivery.Step errorOrNil.isNone s.delivery (s.finishWithError errorOrNil).delivery := by
  unfold finishWithError
  split_ifs with h
  · exact .inl rfl
  · cases hw : s.call.responseWriteable with
    | none =>
        -- Before the call has started there is no writeable to tell.
        refine .inl ?_
        simp [delivery, hw]
    | some w =>
        cases errorOrNil with
        | none =>
            exact .inr (.complete hw)
        | some code =>
            exact .inr (.fail code hw)

theorem delivery_forwards {s : State α} {block : DispatchBlock α} {callback : Callback α}
    {rest : List (DispatchBlock α)} (h : s.dispatchQueue = block :: rest)
    (hblock : block.callback? = some callback) (hclose : callback.isDidClose = false) :
    Delivery.Step false s.delivery ({ s with dispatchQueue := rest }.forward callback).delivery := by
  unfold forward
  split_ifs with hprev
  · have hprev' : s.previousInterceptor = true := hprev
    have hstep := Delivery.Step.forward (d := s.delivery) h hblock hprev'
    simpa [delivery, hclose, hprev'] using hstep
  · have hprev' : s.previousInterceptor = false := by
      simpa using hprev
    exact .forwardLost h hprev'

theorem delivery_runDispatchBlock {flow : Bool} {s : State α} {block : DispatchBlock α}
    {rest : List (DispatchBlock α)} (h : s.dispatchQueue = block :: rest) :
    Delivery.Step false s.delivery
      ({ s with dispatchQueue := rest }.runDispatchBlock flow block).delivery := by
  cases block with
  | value v =>
      simp only [runDispatchBlock]
      split
      · rename_i hw
        exact .discard h rfl (by simp [Delivery.isOpen, delivery, hw])
      · rename_i w hw
        split_ifs with hopen
        · rw [delivery_readDone]
          have hstep := Delivery.Step.deliver (d := s.delivery) h
            (by simpa [Delivery.isOpen, delivery, hw] using hopen)
          have hs := delivery_publishInitialMetadata { s with dispatchQueue := rest }
          simp only [delivery, Delivery.mk.injEq] at hs
          simpa [delivery, valueHandler, dispatch, hs, Delivery.metadata] using hstep
        · exact .discard h rfl (by simpa [Delivery.isOpen, delivery, hw] using hopen)
  -- A cancellation has closed the writeable for values and completions, not for its error.
  | successfulCompletion =>
      simp only [runDispatchBlock]
      split
      · rename_i hw
        exact .discard h rfl (by simp [Delivery.isOpen, delivery, hw])
      · rename_i w hw
        split_ifs with hopen
        · rw [delivery_closeWriteable]
          refine .close h hw ?_ (.inl ⟨rfl, rfl, hopen⟩)
          simp_all [GRXConcurrentWriteable.isOpen]
        · exact .discard h rfl (by simpa [Delivery.isOpen, delivery, hw] using hopen)
  | error code =>
      simp only [runDispatchBlock]
      split
      · rename_i hw
        exact .discard h rfl (by simp [Delivery.isOpen, delivery, hw])
      · rename_i w hw
        split_ifs with hfinished
        -- An end of the call was issued already.
        · refine .discard h rfl ?_
          simp [Delivery.isOpen, delivery, hw, GRXConcurrentWriteable.isOpen, hfinished]
        · rw [delivery_closeWriteable]
          exact .close h hw (by simpa using hfinished) (.inr ⟨code, rfl, rfl⟩)
  -- Also the shutdown: the handler hears nothing after its close.
  | forwardClose errorOrNil =>
      simp only [runDispatchBlock, forwardClose]
      split_ifs with hprev
      · exact .forward (d := s.delivery) h rfl hprev
      · have hprev' : s.previousInterceptor = false := by
          simpa using hprev
        have hstep := Delivery.Step.forwardLost (d := s.delivery) h hprev'
        simpa [delivery, shutDown, hprev'] using hstep
  | forwardInitialMetadata =>
      exact delivery_forwards h rfl rfl
  | forwardData v =>
      exact delivery_forwards h rfl rfl
  | forwardDidWriteData =>
      exact delivery_forwards h rfl rfl

theorem delivery_start (flow channelOk : Bool) (s : State α) :
    (s.start flow channelOk).delivery = s.delivery ∨
      Delivery.Step false s.delivery (s.start flow channelOk).delivery := by
  unfold start
  dsimp only
  rw [GRPCCall.receiveNextMessages_init]
  split_ifs with hstarted hok
  · exact .inl rfl
  · have hnot : s.internal.started = false := by
      simp_all
    exact .inr (.start hnot)
  · have hnot : s.internal.started = false := by
      simp_all
    exact .inr (.startFailed .unavailable hnot)

theorem delivery_cancel (s : State α) :
    s.cancel.delivery = s.delivery ∨ Delivery.Step false s.delivery s.cancel.delivery := by
  unfold cancel forwardClose
  dsimp only
  -- With or without a call, and with the handler told of a close before or not.
  split_ifs with hcanceled hcall hprev hprev
  · exact .inl rfl
  · exact .inr (.cancel hprev)
  · have hprev' : s.previousInterceptor = false := by
      simpa using hprev
    have hstep := Delivery.Step.release (d := s.delivery) hprev'
    exact .inr (by simpa [delivery, shutDown, later, hprev'] using hstep)
  · exact .inr (.cancel hprev)
  · have hprev' : s.previousInterceptor = false := by
      simpa using hprev
    have hstep := Delivery.Step.release (d := s.delivery) hprev'
    exact .inr (by simpa [delivery, shutDown, hprev'] using hstep)

theorem delivery_receiveNextMessages (flow : Bool) (s : State α) (n : ℕ) :
    (s.receiveNextMessages flow n).delivery = s.delivery := by
  unfold receiveNextMessages GRPCCall.receiveNextMessages
  dsimp only
  split_ifs
  · rfl
  · rfl
  · exact delivery_maybeStartNextRead flow
      { s with call := { s.call with
        pendingReceiveNextMessages := (s.call.pendingReceiveNextMessages + n) % 2 ^ 64 } }
  · rfl

theorem delivery_writeData (s : State α) (data : α) :
    (s.writeData data).delivery = s.delivery := by
  unfold writeData
  split_ifs <;> rfl

theorem delivery_finish (s : State α) : s.finish.delivery = s.delivery := by
  unfold finish
  split_ifs <;> rfl

theorem delivery_runPipeBlock (s : State α) (block : PipeBlock α) (pipe : GRXBufferedPipe α) :
    ({ s with pipe := pipe }.runPipeBlock block).delivery = s.delivery := by
  unfold runPipeBlock
  split_ifs
  · cases block with
    | value v =>
        simp only [writeValue]
        split_ifs <;> rfl
    | finished =>
        rfl
  · rfl

theorem delivery_startBatch (s : State α) (op : GRPCOp α) :
    (s.startBatch op).delivery = s.delivery := by
  unfold startBatch
  split_ifs <;> rfl

theorem delivery_runCallBlock (s : State α) (block : CallBlock α) :
    (s.runCallBlock block).delivery = s.delivery := by
  cases block <;> simp [runCallBlock, delivery_startBatch]

theorem delivery_proceed (s : State α) (c : Continuation) :
    (s.proceed c).delivery = s.delivery ∨
      Delivery.Step false s.delivery (s.proceed c).delivery := by
  cases c with
  | startPipe =>
      exact .inl rfl
  | finishPipe =>
      exact .inl rfl
  | cancelCall =>
      simp only [proceed, cancelCall]
      split_ifs
      · exact .inl rfl
      · exact delivery_finishWithError s (some .cancelled)

end State

def Event.isCleanStatus : Event α → Bool
  | .complete _ (.status none) => true
  | _ => false

theorem delivery_step {flow : Bool} {s s' : State α} {e : Event α} (hsingle : s.reading.Single)
    (h : step flow s e = some s') :
    s'.delivery = s.delivery ∨ Delivery.Step e.isCleanStatus s.delivery s'.delivery := by
  cases moved_of_step h with
  | ignored =>
      exact .inl rfl
  | start channelOk =>
      exact s.delivery_start flow channelOk
  | writeData data =>
      exact .inl (s.delivery_writeData data)
  | finish =>
      exact .inl s.delivery_finish
  | cancel =>
      exact s.delivery_cancel
  | receiveNextMessages n =>
      exact .inl (s.delivery_receiveNextMessages flow n)
  | runPipe hnext =>
      exact .inl (s.delivery_runPipeBlock _ _)
  | runCall hqueue =>
      rename_i block rest
      exact .inl (State.delivery_runCallBlock
        { s with call := { s.call with callQueue := rest } } block)
  | runDispatch hqueue =>
      exact .inr (State.delivery_runDispatchBlock hqueue)
  -- Operations that ended without a handler tell nobody.
  | operationFinished hop _ =>
      exact .inl rfl
  | messageSent hop =>
      exact .inr .wrote
  | metadataReceived hop =>
      rename_i i
      rw [State.delivery_readDone flow { s with
        outstanding := s.outstanding.eraseIdx i
        call := { s.call with responseHeaders := true } }]
      refine .inr (.headers ?_)
      -- The core waits for the headers of a call that was started.
      rcases State.reading_eraseIdx_recvMetadata hop with ⟨n, hn, _⟩
      cases hstarted : s.internal.started with
      | false =>
          have hnone := (hsingle.fresh hstarted).1
          omega
      | true =>
          exact hstarted
  | statusReceived errorOrNil hop =>
      rename_i i
      have hfinish := State.delivery_finishWithError
        { s with outstanding := s.outstanding.eraseIdx i } errorOrNil
      cases errorOrNil <;> exact hfinish
  | messageReceived v hop =>
      refine .inr (.receive v ?_)
      -- A read that is under way followed the headers.
      rcases State.reading_eraseIdx_recvMessage hop with ⟨n, hn, _⟩
      cases hheaders : s.call.responseHeaders with
      | false =>
          have hnone := (hsingle.headers hheaders).1
          omega
      | true =>
          exact hheaders
  -- The message is lost; the handler gets the error in its place.
  | noMemory hop =>
      rename_i i
      exact State.delivery_finishWithError
        { s with
          outstanding := s.outstanding.eraseIdx i
          call := { s.call with pendingCoreRead := false } } (some .resourceExhausted)
  | channelDisconnected =>
      exact .inl rfl
  | proceed hc =>
      rename_i i c
      exact State.delivery_proceed { s with pending := s.pending.eraseIdx i } c

end Grpc
end KmpApp
