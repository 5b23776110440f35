import KmpApp.Grpc.Call
import KmpApp.Transition.Interleave

/-!
# Reading — when the core is asked to read

The core takes one read at a time.  The first one follows the initial metadata, and every other one
the delivery of the message before it; with flow control, a read also has to be paid for by
`receiveNextMessages:`, which any thread may call at any time.

`Reading` is the half of the state that decides about reads, and `Reading.Step` says once what any
event can do to it.  There is one token that allows a read: it lies in the queue of the call, in the
core, with a message on its way to the handler, or (with flow control) nowhere, while
`pendingCoreRead` is unset.
-/

namespace KmpApp
namespace Grpc

open Coroutines Transition

variable {α : Type}

/-! ## The reading half -/

def DispatchBlock.isValue : DispatchBlock α → Bool
  | .value _ => true
  | _ => false

def GRPCOp.isRecvMessage : GRPCOp α → Bool
  | .recvMessage => true
  | _ => false

def GRPCOp.isRecvMetadata : GRPCOp α → Bool
  | .recvMetadata => true
  | _ => false

def CallBlock.isStartRead : CallBlock α → Bool
  | .startRead => true
  | _ => false

def CallBlock.isInvokeCall : CallBlock α → Bool
  | .invokeCall => true
  | _ => false

/-- `invokes` and `queued` count the blocks in `_callQueue` that start the call and a read,
`invoking` and `reading` the operations of the core for them; `values` counts the messages that were
not yet handed to the response writeable. -/
structure Reading where
  started : Bool
  active : Bool
  headers : Bool
  pendingCoreRead : Bool
  requested : ℕ
  deferred : ℕ
  invokes : ℕ
  invoking : ℕ
  queued : ℕ
  reading : ℕ
  values : ℕ
  reads : ℕ
  received : ℕ

def State.reading (s : State α) : Reading :=
  { started := s.internal.started
    active := s.call.state == .started
    headers := s.call.responseHeaders
    pendingCoreRead := s.call.pendingCoreRead
    requested := s.call.pendingReceiveNextMessages
    deferred := s.internal.pendingReceiveNextMessages
    invokes := s.call.callQueue.countP CallBlock.isInvokeCall
    invoking := s.outstanding.countP GRPCOp.isRecvMetadata
    queued := s.call.callQueue.countP CallBlock.isStartRead
    reading := s.outstanding.countP GRPCOp.isRecvMessage
    values := s.dispatchQueue.countP DispatchBlock.isValue
    reads := s.batches.countP GRPCOp.isRecvMessage
    received := s.received.length }

namespace Reading

/-- `maybeStartNextRead`, on the half it touches. -/
def startNext (flow : Bool) (r : Reading) : Reading :=
  if !r.active then
    r
  else if flow && (r.pendingCoreRead || r.requested == 0) then
    r
  else
    { r with
      pendingCoreRead := true
      requested := nsUIntegerDecrement r.requested
      queued := r.queued + 1 }

def readDone (flow : Bool) (r : Reading) : Reading :=
  startNext flow { r with pendingCoreRead := false }

/-- The steps, each with the number of messages the user asks for in it. -/
inductive Step (flow : Bool) : ℕ → Reading → Reading → Prop where
  | refl {r : Reading} : Step flow 0 r r
  | start {r : Reading} :
      r.started = false →
      Step flow 0 r { r with
        started := true, active := true, headers := false, pendingCoreRead := true,
        requested := r.deferred % 2 ^ 64, deferred := 0, invokes := 1, queued := 0 }
  | startFailed {r : Reading} :
      r.started = false →
      Step flow 0 r { r with
        started := true, active := false, headers := false, pendingCoreRead := true,
        requested := r.deferred % 2 ^ 64, deferred := 0, invokes := 0, queued := 0 }
  | finishCall {r : Reading} :
      Step flow 0 r { r with active := false }
  | request {r : Reading} (n : ℕ) :
      Step flow n r { r with requested := (r.requested + n) % 2 ^ 64 }
  | requestNext {r : Reading} (n : ℕ) :
      flow = true →
      Step flow n r (startNext flow { r with requested := (r.requested + n) % 2 ^ 64 })
  | defer {r : Reading} (n : ℕ) :
      Step flow n r { r with deferred := (r.deferred + n) % 2 ^ 64 }
  | invoke {r : Reading} {n : ℕ} :
      r.invokes = n + 1 →
      Step flow 0 r { r with invokes := n, invoking := r.invoking + 1 }
  | invokeLost {r : Reading} {n : ℕ} :
      r.invokes = n + 1 →
      Step flow 0 r { r with invokes := n }
  | startRead {r : Reading} {n : ℕ} :
      r.queued = n + 1 →
      Step flow 0 r { r with queued := n, reading := r.reading + 1, reads := r.reads + 1 }
  | readLost {r : Reading} {n : ℕ} :
      r.queued = n + 1 →
      Step flow 0 r { r with queued := n }
  | metadata {r : Reading} {n : ℕ} :
      r.invoking = n + 1 →
      Step flow 0 r (readDone flow { r with headers := true, invoking := n })
  | metadataFailed {r : Reading} {n : ℕ} :
      r.invoking = n + 1 →
      Step flow 0 r { r with invoking := n }
  | message {r : Reading} {n : ℕ} :
      r.reading = n + 1 →
      Step flow 0 r { r with reading := n, values := r.values + 1, received := r.received + 1 }
  | noMessage {r : Reading} {n : ℕ} :
      r.reading = n + 1 →
      Step flow 0 r { r with reading := n }
  | noMemory {r : Reading} {n : ℕ} :
      r.reading = n + 1 →
      Step flow 0 r { r with reading := n, pendingCoreRead := false, active := false }
  | deliver {r : Reading} {n : ℕ} :
      r.values = n + 1 →
      Step flow 0 r (readDone flow { r with values := n })
  | discard {r : Reading} {n : ℕ} :
      r.values = n + 1 →
      Step flow 0 r { r with values := n }

end Reading

/-! ## Every event is a step of the reading half -/

namespace State

theorem reading_maybeStartNextRead (flow : Bool) (s : State α) :
    { s with call := s.call.maybeStartNextRead flow }.reading =
      Reading.startNext flow s.reading := by
  unfold GRPCCall.maybeStartNextRead Reading.startNext
  by_cases hactive : s.call.state = .started
  · simp only [reading, hactive, ne_eq, not_true_eq_false, if_false, beq_self_eq_true,
      Bool.not_true, Bool.false_eq_true]
    split_ifs
    · simp [hactive]
    · simp [CallBlock.isInvokeCall, CallBlock.isStartRead]
  · simp [reading, hactive]

theorem reading_readDone (flow : Bool) (s : State α) :
    { s with call := s.call.readDone flow }.reading = Reading.readDone flow s.reading :=
  reading_maybeStartNextRead flow { s with call := { s.call with pendingCoreRead := false } }

@[simp] theorem reading_publishInitialMetadata (s : State α) :
    s.publishInitialMetadata.reading = s.reading := by
  unfold publishInitialMetadata
  dsimp only
  split_ifs <;> simp [reading, dispatch, DispatchBlock.isValue]

@[simp] theorem reading_forward (s : State α) (callback : Callback α) :
    (s.forward callback).reading = s.reading := by
  unfold forward
  split_ifs <;> rfl

@[simp] theorem reading_shutDown (s : State α) : s.shutDown.reading = s.reading := rfl

@[simp] theorem reading_later (s : State α) (c : Continuation) :
    (s.later c).reading = s.reading := rfl

@[simp] theorem reading_forwardClose (s : State α) (errorOrNil : Option StatusCode) :
    (s.forwardClose errorOrNil).reading = s.reading := by
  unfold forwardClose
  split_ifs <;> rfl

/-- A block that is no value does not count. -/
theorem reading_dispatch (s : State α) {block : DispatchBlock α} (h : block.isValue = false) :
    (s.dispatch block).reading = s.reading := by
  simp [reading, dispatch, h]

theorem reading_finishWithError (s : State α) (errorOrNil : Option StatusCode) :
    (s.finishWithError errorOrNil).reading = { s.reading with active := false } := by
  have hover : (GRXWriterState.finished == GRXWriterState.started) = false := by
    decide
  unfold finishWithError
  split_ifs with h
  · simp [reading, h, hover]
  · cases s.call.responseWriteable with
    | none =>
        simp [reading, hover]
    | some w =>
        cases errorOrNil <;> simp [reading, hover, DispatchBlock.isValue]

@[simp] theorem reading_completionHandler (s : State α) (errorOrNil : Option StatusCode) :
    (s.completionHandler errorOrNil).reading = s.reading := by
  have hs : (s.publishInitialMetadata.dispatch (.forwardClose errorOrNil)).reading =
      s.reading := by
    rw [reading_dispatch _ rfl, reading_publishInitialMetadata]
  unfold completionHandler
  dsimp only
  rw [← hs]
  split_ifs <;> rfl

theorem reading_start (flow channelOk : Bool) (s : State α) :
    Reading.Step flow 0 s.reading (s.start flow channelOk).reading := by
  unfold start
  dsimp only
  rw [GRPCCall.receiveNextMessages_init]
  split_ifs with hstarted hok
  · exact .refl
  · have hnot : s.internal.started = false := by
      simp_all
    have hstep : Reading.Step flow 0 s.reading _ := .start hnot
    simpa [reading, later, GRPCCall.dispatch, GRPCCall.init, CallBlock.isInvokeCall,
      CallBlock.isStartRead] using hstep
  · have hnot : s.internal.started = false := by
      simp_all
    have hstep : Reading.Step flow 0 s.reading _ := .startFailed hnot
    rw [reading_finishWithError]
    simpa [reading, GRPCCall.init] using hstep

theorem reading_writeData (s : State α) (data : α) : (s.writeData data).reading = s.reading := by
  unfold writeData
  split_ifs <;> rfl

theorem reading_finish (s : State α) : s.finish.reading = s.reading := by
  unfold finish
  split_ifs <;> rfl

theorem reading_cancel (s : State α) : s.cancel.reading = s.reading := by
  unfold cancel
  dsimp only
  split_ifs
  · rfl
  · rw [reading_later, reading_shutDown, reading_forwardClose]
    rfl
  · rw [reading_shutDown, reading_forwardClose]
    rfl

theorem reading_receiveNextMessages (flow : Bool) (s : State α) (n : ℕ) :
    Reading.Step flow n s.reading (s.receiveNextMessages flow n).reading := by
  unfold receiveNextMessages GRPCCall.receiveNextMessages
  dsimp only
  split_ifs with hcall hzero hlater
  · subst hzero
    exact .refl
  · exact .request n
  · have hstep : Reading.Step flow n s.reading _ := .requestNext n (by simp_all)
    rw [reading_maybeStartNextRead flow
      { s with call := { s.call with
        pendingReceiveNextMessages := (s.call.pendingReceiveNextMessages + n) % 2 ^ 64 } }]
    exact hstep
  · exact .defer n

theorem reading_cancelCall (flow : Bool) (s : State α) :
    Reading.Step flow 0 s.reading s.cancelCall.reading := by
  unfold cancelCall
  split_ifs
  · exact .refl
  · rw [reading_later, reading_finishWithError]
    exact .finishCall

theorem reading_runPipeBlock (s : State α) (block : PipeBlock α) (pipe : GRXBufferedPipe α) :
    ({ s with pipe := pipe }.runPipeBlock block).reading = s.reading := by
  unfold runPipeBlock
  split_ifs
  · cases block with
    | value v =>
        simp only [writeValue]
        split_ifs
        · rfl
        · simp [reading, GRPCCall.dispatch, CallBlock.isInvokeCall, CallBlock.isStartRead]
    | finished =>
        simp [reading, writesFinished, GRPCCall.dispatch, CallBlock.isInvokeCall,
          CallBlock.isStartRead]
  · rfl

theorem reading_runCallBlock {flow : Bool} {s : State α} {block : CallBlock α}
    {rest : List (CallBlock α)} (h : s.call.callQueue = block :: rest) :
    Reading.Step flow 0 s.reading
      ({ s with call := { s.call with callQueue := rest } }.runCallBlock block).reading := by
  by_cases hconn : s.connected = true
  · cases block with
    | invokeCall =>
        have hstep : Reading.Step flow 0 s.reading _ :=
          .invoke (n := rest.countP CallBlock.isInvokeCall)
            (by simp [reading, h, List.countP_cons, CallBlock.isInvokeCall])
        simpa [reading, runCallBlock, startBatch, hconn, h, List.countP_cons, CallBlock.isStartRead,
          GRPCOp.isRecvMetadata, GRPCOp.isRecvMessage] using hstep
    | startRead =>
        have hstep : Reading.Step flow 0 s.reading _ :=
          .startRead (n := rest.countP CallBlock.isStartRead)
            (by simp [reading, h, List.countP_cons, CallBlock.isStartRead])
        simpa [reading, runCallBlock, startBatch, hconn, h, List.countP_cons, CallBlock.isInvokeCall,
          GRPCOp.isRecvMetadata, GRPCOp.isRecvMessage] using hstep
    | sendHeaders | writeMessage | finishRequest =>
        have hstep : Reading.Step flow 0 s.reading s.reading := .refl
        simpa [reading, runCallBlock, startBatch, hconn, h, List.countP_cons, CallBlock.isInvokeCall,
          CallBlock.isStartRead, GRPCOp.isRecvMetadata, GRPCOp.isRecvMessage] using hstep
  · -- Without a core call the block is lost.
    have hlost : ({ s with call := { s.call with callQueue := rest } }.runCallBlock block) =
        { s with call := { s.call with callQueue := rest } } := by
      cases block <;> simp [runCallBlock, startBatch, hconn]
    rw [hlost]
    cases block with
    | invokeCall =>
        have hstep : Reading.Step flow 0 s.reading _ :=
          .invokeLost (n := rest.countP CallBlock.isInvokeCall)
            (by simp [reading, h, List.countP_cons, CallBlock.isInvokeCall])
        simpa [reading, h, List.countP_cons, CallBlock.isStartRead] using hstep
    | startRead =>
        have hstep : Reading.Step flow 0 s.reading _ :=
          .readLost (n := rest.countP CallBlock.isStartRead)
            (by simp [reading, h, List.countP_cons, CallBlock.isStartRead])
        simpa [reading, h, List.countP_cons, CallBlock.isInvokeCall] using hstep
    | sendHeaders | writeMessage | finishRequest =>
        have hstep : Reading.Step flow 0 s.reading s.reading := .refl
        simpa [reading, h, List.countP_cons, CallBlock.isInvokeCall, CallBlock.isStartRead] using hstep

theorem reading_runDispatchBlock {flow : Bool} {s : State α} {block : DispatchBlock α}
    {rest : List (DispatchBlock α)} (h : s.dispatchQueue = block :: rest) :
    Reading.Step flow 0 s.reading
      ({ s with dispatchQueue := rest }.runDispatchBlock flow block).reading := by
  have hother : block.isValue = false → { s with dispatchQueue := rest }.reading = s.reading := by
    intro hvalue
    simp [reading, h, hvalue]
  cases block with
  | value v =>
      have hdiscard : Reading.Step flow 0 s.reading { s with dispatchQueue := rest }.reading :=
        .discard (by simp [reading, h, List.countP_cons, DispatchBlock.isValue])
      simp only [runDispatchBlock]
      split
      · exact hdiscard
      · split_ifs
        · rw [reading_readDone]
          have hs : ({ s with dispatchQueue := rest }.valueHandler v).reading =
              { s with dispatchQueue := rest }.reading := by
            rw [valueHandler, reading_dispatch _ rfl, reading_publishInitialMetadata]
          rw [hs]
          exact .deliver (by simp [reading, h, List.countP_cons, DispatchBlock.isValue])
        · exact hdiscard
  | successfulCompletion =>
      simp only [runDispatchBlock]
      split
      · exact hother rfl ▸ .refl
      · split_ifs
        · have hs := reading_completionHandler { s with dispatchQueue := rest } none
          rw [hother rfl] at hs
          exact hs ▸ .refl
        · exact hother rfl ▸ .refl
  | error code =>
      simp only [runDispatchBlock]
      split
      · exact hother rfl ▸ .refl
      · split_ifs
        · exact hother rfl ▸ .refl
        · have hs := reading_completionHandler { s with dispatchQueue := rest } (some code)
          rw [hother rfl] at hs
          exact hs ▸ .refl
  | forwardInitialMetadata | forwardData | forwardClose | forwardDidWriteData =>
      simp only [runDispatchBlock, reading_forward, reading_shutDown, reading_forwardClose]
      exact hother rfl ▸ .refl

/-- An operation that is no read and brings no metadata is not counted. -/
theorem reading_eraseIdx {s : State α} {i : ℕ} {op : GRPCOp α} (hop : s.outstanding[i]? = some op)
    (hmessage : op.isRecvMessage = false) (hmetadata : op.isRecvMetadata = false) :
    { s with outstanding := s.outstanding.eraseIdx i }.reading = s.reading := by
  have hmessages := countP_eraseIdx GRPCOp.isRecvMessage hop
  have hinvoked := countP_eraseIdx GRPCOp.isRecvMetadata hop
  simp only [hmessage, hmetadata, Bool.false_eq_true, if_false, Nat.add_zero] at hmessages hinvoked
  simp only [reading, hmessages, hinvoked]

/-- A read leaves the core, whatever its handler does. -/
theorem reading_eraseIdx_recvMessage {s : State α} {i : ℕ}
    (hop : s.outstanding[i]? = some .recvMessage) :
    ∃ n, s.reading.reading = n + 1 ∧
      { s with outstanding := s.outstanding.eraseIdx i }.reading =
        { s.reading with reading := n } := by
  have hmessages := countP_eraseIdx GRPCOp.isRecvMessage hop
  have hinvoked := countP_eraseIdx GRPCOp.isRecvMetadata hop
  refine ⟨(s.outstanding.eraseIdx i).countP GRPCOp.isRecvMessage, ?_, ?_⟩
  · simpa [reading, GRPCOp.isRecvMessage] using hmessages
  · simp only [GRPCOp.isRecvMetadata, Bool.false_eq_true, if_false, Nat.add_zero] at hinvoked
    simp only [reading, hinvoked]

theorem reading_eraseIdx_recvMetadata {s : State α} {i : ℕ}
    (hop : s.outstanding[i]? = some .recvMetadata) :
    ∃ n, s.reading.invoking = n + 1 ∧
      { s with outstanding := s.outstanding.eraseIdx i }.reading =
        { s.reading with invoking := n } := by
  have hmessages := countP_eraseIdx GRPCOp.isRecvMessage hop
  have hinvoked := countP_eraseIdx GRPCOp.isRecvMetadata hop
  refine ⟨(s.outstanding.eraseIdx i).countP GRPCOp.isRecvMetadata, ?_, ?_⟩
  · simpa [reading, GRPCOp.isRecvMetadata] using hinvoked
  · simp only [GRPCOp.isRecvMessage, Bool.false_eq_true, if_false, Nat.add_zero] at hmessages
    simp only [reading, hmessages]

theorem reading_operationFinished {flow : Bool} {s : State α} {i : ℕ} {op : GRPCOp α}
    (hop : s.outstanding[i]? = some op) :
    Reading.Step flow 0 s.reading { s with outstanding := s.outstanding.eraseIdx i }.reading := by
  cases op with
  | recvMessage =>
      rcases reading_eraseIdx_recvMessage hop with ⟨n, hn, hs⟩
      rw [hs]
      exact .noMessage hn
  | recvMetadata =>
      rcases reading_eraseIdx_recvMetadata hop with ⟨n, hn, hs⟩
      rw [hs]
      exact .metadataFailed hn
  | sendMetadata | recvStatus | sendMessage | sendClose =>
      rw [reading_eraseIdx hop rfl rfl]
      exact .refl

theorem reading_proceed (flow : Bool) (s : State α) (c : Continuation) :
    Reading.Step flow 0 s.reading (s.proceed c).reading := by
  cases c with
  | startPipe =>
      exact .refl
  | finishPipe =>
      exact .refl
  | cancelCall =>
      exact reading_cancelCall flow s

end State

/-- How many messages an event asks for. -/
def Event.asks : Event α → ℕ
  | .receiveNextMessages n => n
  | _ => 0

def asked (es : List (Event α)) : ℕ :=
  (es.map Event.asks).sum

theorem reading_step {flow : Bool} {s s' : State α} {e : Event α} (h : step flow s e = some s') :
    s'.reading = s.reading ∨ Reading.Step flow e.asks s.reading s'.reading := by
  cases moved_of_step h with
  | ignored =>
      exact .inl rfl
  | start channelOk =>
      exact .inr (s.reading_start flow channelOk)
  | writeData data =>
      exact .inl (s.reading_writeData data)
  | finish =>
      exact .inl s.reading_finish
  | cancel =>
      exact .inl s.reading_cancel
  | receiveNextMessages n =>
      exact .inr (s.reading_receiveNextMessages flow n)
  | runPipe hnext =>
      exact .inl (s.reading_runPipeBlock _ _)
  | runCall hqueue =>
      exact .inr (State.reading_runCallBlock hqueue)
  | runDispatch hqueue =>
      exact .inr (State.reading_runDispatchBlock hqueue)
  | operationFinished hop _ =>
      exact .inr (State.reading_operationFinished hop)
  -- A write that is done leaves the reads alone.
  | messageSent hop =>
      rw [State.reading_dispatch _ rfl]
      exact .inl (State.reading_eraseIdx hop rfl rfl)
  | metadataReceived hop =>
      rename_i i
      rcases State.reading_eraseIdx_recvMetadata hop with ⟨n, hn, hs⟩
      have hread := State.reading_readDone flow { s with
        outstanding := s.outstanding.eraseIdx i
        call := { s.call with responseHeaders := true } }
      -- The headers and the operation that brought them, seen as one change.
      have hheaders : { s with
          outstanding := s.outstanding.eraseIdx i
          call := { s.call with responseHeaders := true } }.reading =
          { s.reading with headers := true, invoking := n } :=
        congrArg (fun r : Reading => { r with headers := true }) hs
      rw [hheaders] at hread
      exact .inr (hread ▸ .metadata hn)
  | statusReceived errorOrNil hop =>
      rw [State.reading_later, State.reading_finishWithError, State.reading_eraseIdx hop rfl rfl]
      exact .inr .finishCall
  | messageReceived v hop =>
      rename_i i
      rcases State.reading_eraseIdx_recvMessage hop with ⟨n, hn, hs⟩
      -- The read is over, and its message is now one of the dispatch queue.
      have hreceived : ({ s with
          outstanding := s.outstanding.eraseIdx i
          received := s.received ++ [v] }.dispatch (.value v)).reading =
          { s.reading with
            reading := n
            values := s.reading.values + 1
            received := s.reading.received + 1 } := by
        have hmore := congrArg (fun r : Reading =>
          { r with values := r.values + 1, received := r.received + 1 }) hs
        simpa [State.reading, State.dispatch, DispatchBlock.isValue] using hmore
      rw [hreceived]
      exact .inr (.message hn)
  | noMemory hop =>
      rename_i i
      rcases State.reading_eraseIdx_recvMessage hop with ⟨n, hn, hs⟩
      rw [State.reading_later, State.reading_finishWithError]
      have hfree : { s with
          outstanding := s.outstanding.eraseIdx i
          call := { s.call with pendingCoreRead := false } }.reading =
          { s.reading with reading := n, pendingCoreRead := false } :=
        congrArg (fun r : Reading => { r with pendingCoreRead := false }) hs
      rw [hfree]
      exact .inr (.noMemory hn)
  | channelDisconnected =>
      exact .inl rfl
  | proceed hc =>
      rename_i i c
      exact .inr (State.reading_proceed flow { s with pending := s.pending.eraseIdx i } c)

/-! ## One read at a time, and no more than was asked for -/

namespace Reading

variable {flow : Bool} {n : ℕ} {r r' : Reading}

/-- Where the token is that allows a read. -/
def tokens (r : Reading) : ℕ :=
  r.invokes + r.invoking + r.queued + r.reading + r.values + if r.pendingCoreRead then 0 else 1

/-- Before the headers are there, nothing is read. -/
structure Single (r : Reading) : Prop where
  token : r.tokens ≤ 1
  fresh : r.started = false →
    r.invokes + r.invoking + r.queued + r.reading + r.values = 0 ∧ r.headers = false
  headers : r.headers = false → r.queued + r.reading + r.values = 0 ∧ r.pendingCoreRead = true
  counted : r.received + r.reading ≤ r.reads

/-- With flow control every read was asked for; `a` is how much the user asked for. -/
structure Paid (a : ℕ) (r : Reading) : Prop where
  bound : r.requested < 2 ^ 64
  paid : r.reads + r.queued + r.requested + r.deferred ≤ a

namespace Single

/-- Starting a read takes the token that `pendingCoreRead` stands for. -/
theorem startNext (h : Single r) (hfree : flow = true ∨ r.pendingCoreRead = false) :
    Single (startNext flow r) := by
  unfold Reading.startNext
  split_ifs with hactive hwait
  · exact h
  · exact h
  -- A read starts: with flow control the guard, and without it the caller, says it is free.
  · have hpending : r.pendingCoreRead = false := by
      rcases hfree with rfl | hpending
      · cases hp : r.pendingCoreRead <;> simp_all
      · exact hpending
    -- Until the headers are there the flag is set, from the initialiser on.
    have hheaders : r.headers = true := by
      cases hh : r.headers with
      | false =>
          have hnone := (h.headers hh).2
          simp [hpending] at hnone
      | true =>
          rfl
    have htoken := h.token
    refine ⟨?_, ?_, by simp [hheaders], h.counted⟩
    · simp only [tokens, hpending] at htoken ⊢
      simp only [Bool.false_eq_true, if_false, if_true] at htoken ⊢
      omega
    · intro hstarted
      have hnone := (h.fresh hstarted).2
      simp [hheaders] at hnone

/-- The token comes back, and may allow the next read at once. -/
theorem readDone (h : Single { r with pendingCoreRead := false }) : Single (r.readDone flow) :=
  h.startNext (.inr rfl)

/-- What is under way while the call starts shows that it was started. -/
theorem of_invoking (h : Single r) (hpos : 0 < r.invokes + r.invoking)
    (hstarted : r'.started = r.started) (htoken : r'.tokens ≤ 1)
    (hheaders : r'.headers = false →
      r'.queued + r'.reading + r'.values = 0 ∧ r'.pendingCoreRead = true)
    (hcounted : r'.received + r'.reading ≤ r'.reads) : Single r' := by
  refine ⟨htoken, ?_, hheaders, hcounted⟩
  intro hnot
  have hnone := (h.fresh (hstarted ▸ hnot)).1
  omega

/-- A read that is under way shows that the headers are there. -/
theorem of_reading (h : Single r) (hpos : 0 < r.queued + r.reading + r.values)
    (hstarted : r'.started = r.started) (hheaders : r'.headers = r.headers)
    (htoken : r'.tokens ≤ 1) (hcounted : r'.received + r'.reading ≤ r'.reads) : Single r' := by
  refine ⟨htoken, ?_, ?_, hcounted⟩
  · intro hnot
    have hnone := (h.fresh (hstarted ▸ hnot)).1
    omega
  · intro hnot
    have hnone := (h.headers (hheaders ▸ hnot)).1
    omega

theorem step (h : Single r) (hstep : Step flow n r r') : Single r' := by
  have htoken := h.token
  have hcounted := h.counted
  simp only [tokens] at htoken
  cases hstep with
  | refl =>
      exact h
  -- A call is made once, and starts without a read.
  | start hstarted | startFailed hstarted =>
      have hnone := (h.fresh hstarted).1
      refine ⟨?_, by simp, ?_, hcounted⟩
      · simp only [tokens, if_true]
        omega
      · intro _
        exact ⟨by simp only; omega, rfl⟩
  | finishCall | request | defer =>
      exact ⟨h.token, h.fresh, h.headers, hcounted⟩
  -- Only with flow control does a request start a read at once.
  | requestNext _ hflow =>
      refine startNext ?_ (.inl hflow)
      exact ⟨h.token, h.fresh, h.headers, hcounted⟩
  -- The token moves on with the metadata, or is lost with it.
  | invoke hn | invokeLost hn | metadataFailed hn =>
      refine h.of_invoking (by omega) rfl ?_ h.headers hcounted
      simp only [tokens]
      omega
  | metadata hn =>
      refine readDone (h.of_invoking (by omega) rfl ?_ (by simp) hcounted)
      simp only [tokens, Bool.false_eq_true, if_false]
      split_ifs at htoken <;> omega
  -- It moves on with the read and its message, or is lost with them.
  | startRead hn | readLost hn | message hn | noMessage hn | discard hn =>
      refine h.of_reading (by omega) rfl rfl ?_ ?_
      · simp only [tokens]
        omega
      · simp only
        omega
  | noMemory hn =>
      refine h.of_reading (by omega) rfl rfl ?_ ?_
      · simp only [tokens, Bool.false_eq_true, if_false]
        split_ifs at htoken <;> omega
      · simp only
        omega
  -- A message that was delivered gives it back.
  | deliver hn =>
      refine readDone (h.of_reading (by omega) rfl rfl ?_ hcounted)
      simp only [tokens, Bool.false_eq_true, if_false]
      split_ifs at htoken <;> omega

end Single

namespace Paid

variable {a : ℕ}

theorem startNext (h : Paid a r) : Paid a (startNext true r) := by
  unfold Reading.startNext
  split_ifs with hactive hwait
  · exact h
  · exact h
  · have hbound := h.bound
    have hpaid := h.paid
    -- The guard of flow control keeps the count from wrapping around.
    have hpos : 0 < r.requested := by
      rcases Nat.eq_zero_or_pos r.requested with hzero | hpos
      · simp [hzero] at hwait
      · exact hpos
    have hdecrement : nsUIntegerDecrement r.requested = r.requested - 1 := by
      unfold nsUIntegerDecrement
      omega
    refine ⟨?_, ?_⟩
    · simp only [hdecrement]
      omega
    · simp only [hdecrement]
      omega

theorem step (h : Paid a r) (hstep : Step true n r r') : Paid (a + n) r' := by
  have hbound := h.bound
  have hpaid := h.paid
  cases hstep with
  | refl =>
      exact h
  -- What was deferred becomes what is requested.
  | start hstarted | startFailed hstarted =>
      refine ⟨?_, ?_⟩
      · simp only
        omega
      · simp only
        omega
  | finishCall | invoke hn | invokeLost hn | metadataFailed hn | message hn | noMessage hn
  | noMemory hn | discard hn =>
      exact ⟨hbound, hpaid⟩
  -- A sum that wraps around is less than what was asked for, never more.
  | request | defer =>
      refine ⟨?_, ?_⟩
      · simp only
        omega
      · simp only
        omega
  | requestNext _ hflow =>
      refine startNext ⟨?_, ?_⟩
      · simp only
        omega
      · simp only
        omega
  | startRead hn | readLost hn =>
      refine ⟨hbound, ?_⟩
      simp only
      omega
  | metadata hn | deliver hn =>
      exact startNext ⟨hbound, hpaid⟩

end Paid

end Reading

/-! ## Whole runs -/

theorem reading_single {flow : Bool} {es : List (Event α)} {tr : List (State α)} {s : State α}
    (hrun : (machine flow).Run es tr s) : s.reading.Single := by
  induction hrun with
  -- Before any event the flag of the initialiser holds the only token back.
  | init =>
      constructor <;>
        simp [machine, State.init, State.reading, GRPCCall.init, Reading.tokens]
  | step _ hstep ih =>
      rcases reading_step hstep with hsame | hs
      · rw [hsame]
        exact ih
      · exact ih.step hs

theorem asked_concat (es : List (Event α)) (e : Event α) : asked (es ++ [e]) = asked es + e.asks := by
  simp [asked]

theorem reading_paid {es : List (Event α)} {tr : List (State α)} {s : State α}
    (hrun : (machine true).Run es tr s) : s.reading.Paid (asked es) := by
  induction hrun with
  | init =>
      constructor <;>
        simp [machine, State.init, State.reading, GRPCCall.init, GRPCCall2Internal.init, asked]
  | step _ hstep ih =>
      rw [asked_concat]
      rcases reading_step hstep with hsame | hs
      · rw [hsame]
        exact ⟨ih.bound, le_trans ih.paid (Nat.le_add_right _ _)⟩
      · exact ih.step hs

/-- However the threads interleave, the core never has two reads at once; with flow control the
messages it has read, and the one it may be reading, are within what the user asked for. -/
theorem reads_one_at_a_time {flow : Bool} {es : List (Event α)} {tr : List (State α)}
    {s : State α} (hrun : (machine flow).Run es tr s) :
    s.outstanding.countP GRPCOp.isRecvMessage ≤ 1 ∧
      (flow = true →
        s.received.length + s.outstanding.countP GRPCOp.isRecvMessage ≤ asked es) := by
  have hsingle := reading_single hrun
  have htoken := hsingle.token
  have hcounted := hsingle.counted
  constructor
  · have hle : s.reading.reading ≤ 1 := by
      unfold Reading.tokens at htoken
      omega
    exact hle
  · rintro rfl
    -- What the core has read was started, and what was started was asked for.
    have hpaid := (reading_paid hrun).paid
    have hle : s.reading.received + s.reading.reading ≤ asked es := by
      omega
    exact hle

/-- The user asks for one message before the call starts, and for another one while the first is
being delivered. -/
def twoReads : List (Event ℕ) :=
  [ .receiveNextMessages 1
  , .start true
  , .runCall
  , .runCall
  , .complete 1 .done
  , .runCall
  , .complete 2 (.message (some 7))
  , .receiveNextMessages 1
  , .runDispatch
  , .runCall ]

theorem twoReads_received :
    ∃ tr, ∃ s : State ℕ, (machine true).Run twoReads tr s ∧ s.received = [7] ∧
      s.outstanding.countP GRPCOp.isRecvMessage = 1 ∧
      s.received.length + s.outstanding.countP GRPCOp.isRecvMessage ≤ asked twoReads := by
  have hexec : (((machine true).exec (machine true).init twoReads).map fun s : State ℕ =>
      (s.received, s.outstanding.countP GRPCOp.isRecvMessage)) = some ([7], 1) := by
    decide
  rcases Machine.exists_run_of_exec _ hexec with ⟨tr, s, hrun, hs⟩
  have hreceived : s.received = [7] := congrArg Prod.fst hs
  have hreading : s.outstanding.countP GRPCOp.isRecvMessage = 1 := congrArg Prod.snd hs
  exact ⟨tr, s, hrun, hreceived, hreading, (reads_one_at_a_time hrun).2 rfl⟩

end Grpc
end KmpApp
