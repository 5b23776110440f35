import KmpApp.Grpc.Delivery

/-!
# Conversation — the order of what the handler is told

The invariant `Talks` follows the callbacks the handler was given together with those that are on
their way to it.  Two results rest on it: `handler_conversation`, on the order of the callbacks, and
`clean_close_complete`, that a call which closes without an error has delivered every message the
core had read when the status arrived.
-/

namespace KmpApp
namespace Grpc

open Coroutines Transition

variable {α : Type}

/-! ## Conversations -/

def signals (callbacks : List (Callback α)) : List (Callback α) :=
  callbacks.filter (!·.isDidWriteData)

def messages (callbacks : List (Callback α)) : List α :=
  callbacks.filterMap Callback.data?

/-- The initial metadata if any, the messages, and the close if any. -/
def conversation (metadata : Bool) (ms : List α) (close : Option (Option StatusCode)) :
    List (Callback α) :=
  (if metadata then [.didReceiveInitialMetadata] else []) ++ ms.map .didReceiveData ++
    close.toList.map .didClose

@[simp] theorem signals_append (l l' : List (Callback α)) :
    signals (l ++ l') = signals l ++ signals l' := by
  simp [signals]

@[simp] theorem messages_append (l l' : List (Callback α)) :
    messages (l ++ l') = messages l ++ messages l' := by
  simp [messages]

theorem messages_signals (l : List (Callback α)) : messages (signals l) = messages l := by
  rw [messages, signals, List.filterMap_filter]
  refine List.filterMap_congr fun c _ => ?_
  cases c <;> rfl

theorem messages_conversation (metadata : Bool) (ms : List α)
    (close : Option (Option StatusCode)) : messages (conversation metadata ms close) = ms := by
  have hmetadata : messages (if metadata then [.didReceiveInitialMetadata] else []) =
      ([] : List α) := by
    cases metadata <;> rfl
  have hdata : messages (ms.map .didReceiveData) = ms := by
    simp [messages, List.filterMap_map, Function.comp_def, Callback.data?]
  have hclose : messages (close.toList.map .didClose) = ([] : List α) := by
    cases close <;> rfl
  simp [conversation, hmetadata, hdata, hclose]

theorem conversation_close (metadata : Bool) (ms : List α) (errorOrNil : Option StatusCode) :
    conversation metadata ms (some errorOrNil) =
      conversation metadata ms none ++ [.didClose errorOrNil] := by
  simp [conversation]

theorem didClose_not_mem_conversation (metadata : Bool) (ms : List α)
    (errorOrNil : Option StatusCode) :
    Callback.didClose errorOrNil ∉ conversation metadata ms none := by
  cases metadata <;> simp [conversation]

/-- What was said before the close of a conversation is a conversation that is not closed. -/
theorem conversation_of_prefix {metadata : Bool} {ms : List α}
    {close : Option (Option StatusCode)} {l : List (Callback α)}
    (horder : ms ≠ [] → metadata = true) (hl : l <+: conversation metadata ms close)
    (hopen : ∀ errorOrNil, Callback.didClose errorOrNil ∉ l) :
    ∃ metadata' : Bool, ∃ ms' : List α, l = conversation metadata' ms' none ∧
      (ms' ≠ [] → metadata' = true) ∧ ms' <+: ms := by
  -- Without a close in it, the prefix ends before the close.
  have hl' : l <+: conversation metadata ms none := by
    cases close with
    | none =>
        exact hl
    | some errorOrNil =>
        rw [conversation_close, List.prefix_concat_iff] at hl
        rcases hl with rfl | hl
        · exact absurd (by simp) (hopen errorOrNil)
        · exact hl
  cases metadata with
  | false =>
      have hms : ms = [] := by
        by_contra hne
        exact absurd (horder hne) (by simp)
      subst hms
      have hnil : l = [] := by
        simpa [conversation] using hl'
      exact ⟨false, [], by simp [hnil, conversation], by simp, List.prefix_refl _⟩
  | true =>
      cases l with
      | nil =>
          exact ⟨false, [], rfl, by simp, List.nil_prefix⟩
      | cons c l =>
          have hcons : c = .didReceiveInitialMetadata ∧ l <+: ms.map .didReceiveData := by
            simpa [conversation, List.cons_prefix_cons] using hl'
          rcases hcons with ⟨rfl, htail⟩
          -- After the metadata it is some of the messages, from the first on.
          rw [List.prefix_iff_eq_take, ← List.map_take] at htail
          refine ⟨true, ms.take l.length, ?_, by simp, List.take_prefix _ _⟩
          nth_rewrite 1 [htail]
          simp [conversation]

/-! ## The line to the handler -/

namespace Delivery

variable {b : Bool} {d d' : Delivery α}

/-- What the handler was told, and what is on its way. -/
def log (d : Delivery α) : List (Callback α) :=
  d.handler ++ d.queue.filterMap DispatchBlock.callback?

/-- The messages that were not yet passed on. -/
def values (d : Delivery α) : List α :=
  d.queue.filterMap DispatchBlock.value?

/-- The log is the conversation `metadata`, `ms`, `close`.  As long as the writeable is open nothing
of what was received is missing. -/
structure Line (d : Delivery α) (metadata : Bool) (ms : List α)
    (close : Option (Option StatusCode)) : Prop where
  log : signals d.log = conversation metadata ms close
  order : ms ≠ [] → metadata = true
  published : metadata = true → d.published = true
  publishes : d.published = true → d.isFinished = false → metadata = true
  closed : close.isSome = d.isFinished
  given : ms <+: d.received
  all : d.isOpen = true → ms ++ d.values = d.received
  unclosed : ∀ errorOrNil, Callback.didClose errorOrNil ∉ d.handler

structure Talks (d : Delivery α) : Prop where
  fresh : d.started = false → d.writeable = none ∧ d.headers = false ∧ d.published = false
  waiting : d.headers = false → d.received = [] ∧ d.values = []
  held : d.started = true → d.previousInterceptor = true → d.isFinished = false →
    d.hasCall = true
  told : d.previousInterceptor = true → ∃ metadata ms close, Line d metadata ms close
  ended : d.previousInterceptor = false → ∃ metadata ms errorOrNil callbacks,
    d.handler = callbacks ++ [.didClose errorOrNil] ∧
      signals callbacks = conversation metadata ms none ∧
      (ms ≠ [] → metadata = true) ∧ ms <+: d.received

theorem isFinished_of_isOpen (h : d.isOpen = true) : d.isFinished = false := by
  unfold isOpen at h
  unfold isFinished
  cases hw : d.writeable with
  | none =>
      rfl
  | some w =>
      simp_all [GRXConcurrentWriteable.isOpen]

theorem Line.close_eq_none {metadata : Bool} {ms : List α} {close : Option (Option StatusCode)}
    (h : Line d metadata ms close) (hfinished : d.isFinished = false) : close = none := by
  have hclosed := h.closed
  rw [hfinished] at hclosed
  simpa using hclosed

/-- Whatever closes the handler, it closes a conversation. -/
theorem Line.close {metadata : Bool} {ms : List α} {close : Option (Option StatusCode)}
    (h : Line d metadata ms close) :
    ∃ metadata' ms', signals d.handler = conversation metadata' ms' none ∧
      (ms' ≠ [] → metadata' = true) ∧ ms' <+: d.received := by
  have hprefix : signals d.handler <+: conversation metadata ms close := by
    rw [← h.log, Delivery.log, signals_append]
    exact List.prefix_append _ _
  have hopen : ∀ errorOrNil, Callback.didClose errorOrNil ∉ signals d.handler := by
    intro errorOrNil hmem
    exact h.unclosed errorOrNil (List.mem_filter.1 hmem).1
  rcases conversation_of_prefix h.order hprefix hopen with ⟨metadata', ms', hsignals, horder, hms⟩
  exact ⟨metadata', ms', hsignals, horder, hms.trans h.given⟩

/-- A step that tells the handler nothing new and puts nothing on the way keeps the line. -/
theorem Line.of_log_eq {metadata : Bool} {ms : List α} {close : Option (Option StatusCode)}
    (h : Line d metadata ms close) (hlog : signals d'.log = signals d.log)
    (hhandler : d'.handler = d.handler) (hpublished : d'.published = d.published)
    (hfinished : d'.isFinished = d.isFinished) (hreceived : d.received <+: d'.received)
    (hall : d'.isOpen = true → ms ++ d'.values = d'.received) : Line d' metadata ms close := by
  refine ⟨hlog.trans h.log, h.order, ?_, ?_, ?_, h.given.trans hreceived, hall, ?_⟩
  · rw [hpublished]
    exact h.published
  · rw [hpublished, hfinished]
    exact h.publishes
  · rw [hfinished]
    exact h.closed
  · rw [hhandler]
    exact h.unclosed

/-- Publishing the initial metadata keeps the conversation one: it is the first to be told. -/
theorem Line.publish {metadata : Bool} {ms : List α} (h : Line d metadata ms none) :
    ∃ metadata', conversation metadata ms none ++
        signals (d.metadata.filterMap DispatchBlock.callback?) = conversation metadata' ms none ∧
      (ms ≠ [] → metadata' = true) ∧ (d.hasCall = true → d.headers = true → metadata' = true) := by
  have hfinished : d.isFinished = false := by
    simpa using h.closed.symm
  cases hpublished : d.published with
  | true =>
      have hmetadata := h.publishes hpublished hfinished
      refine ⟨true, ?_, by simp, by simp⟩
      simp [Delivery.metadata, hpublished, hmetadata, signals]
  | false =>
      -- Nothing was told before the metadata.
      have hmetadata : metadata = false := by
        cases metadata with
        | false =>
            rfl
        | true =>
            rw [h.published rfl] at hpublished
            exact absurd hpublished (by simp)
      have hms : ms = [] := by
        by_contra hne
        rw [h.order hne] at hmetadata
        exact absurd hmetadata (by simp)
      subst hmetadata hms
      refine ⟨d.hasCall && d.headers, ?_, by simp, by simp_all⟩
      cases hpublish : d.hasCall && d.headers <;>
        simp [Delivery.metadata, hpublished, hpublish, signals, conversation,
          DispatchBlock.callback?, Callback.isDidWriteData]

theorem signals_push {handler : List (Callback α)} {rest blocks : List (DispatchBlock α)}
    {block : DispatchBlock α} {callback : Callback α} (hblock : block.callback? = some callback)
    (hcallback : callback.isDidWriteData = false) :
    signals (handler ++ (rest ++ blocks ++ [block]).filterMap DispatchBlock.callback?) =
      signals (handler ++ rest.filterMap DispatchBlock.callback?) ++
        signals (blocks.filterMap DispatchBlock.callback?) ++ [callback] := by
  simp [hblock, signals, hcallback]

/-- A message is passed on: it follows the metadata, which is published now if it was not before. -/
theorem Line.deliver {metadata : Bool} {ms : List α} {close : Option (Option StatusCode)} {v : α}
    {rest : List (DispatchBlock α)} (h : Line d metadata ms close)
    (hqueue : d.queue = .value v :: rest) (hopen : d.isOpen = true) (hcall : d.hasCall = true)
    (hheaders : d.headers = true) :
    Line { d with published := true, queue := rest ++ d.metadata ++ [.forwardData v] }
      true (ms ++ [v]) none := by
  have hfinished := isFinished_of_isOpen hopen
  obtain rfl := h.close_eq_none hfinished
  -- The message is the first of those not yet passed on.
  have hall : ms ++ v :: rest.filterMap DispatchBlock.value? = d.received := by
    simpa [Delivery.values, hqueue, DispatchBlock.value?] using h.all hopen
  have hlog : signals (d.handler ++ rest.filterMap DispatchBlock.callback?) =
      conversation metadata ms none := by
    rw [← h.log, Delivery.log, hqueue]
    rfl
  rcases h.publish with ⟨metadata', hpublish, _, hmetadata'⟩
  have hmetadata := hmetadata' hcall hheaders
  subst hmetadata
  refine ⟨?_, by simp, by simp, by simp, hfinished.symm, ?_, ?_, h.unclosed⟩
  · rw [Delivery.log, signals_push rfl rfl, hlog, hpublish]
    simp [conversation]
  · rw [← hall]
    exact ⟨rest.filterMap DispatchBlock.value?, by simp⟩
  · intro _
    have hmore : d.metadata.filterMap DispatchBlock.value? = [] := by
      unfold Delivery.metadata
      split_ifs <;> rfl
    simp only [Delivery.values, List.filterMap_append, hmore]
    rw [← hall]
    simp [DispatchBlock.value?]

/-- The close is put on the way: nothing can follow it. -/
theorem Line.finish {metadata : Bool} {ms : List α} {close : Option (Option StatusCode)}
    {block : DispatchBlock α} {rest : List (DispatchBlock α)} {w : GRXConcurrentWriteable}
    (h : Line d metadata ms close) (errorOrNil : Option StatusCode)
    (hqueue : d.queue = block :: rest) (hblock : block.callback? = none)
    (hw : d.writeable = some w) (hfinished : w.alreadyFinished = false) :
    ∃ metadata', Line { d with
      published := true, queue := rest ++ d.metadata ++ [.forwardClose errorOrNil],
      writeable := some w.finish, hasCall := false } metadata' ms (some errorOrNil) := by
  have hfinished' : d.isFinished = false := by
    simp [isFinished, hw, hfinished]
  obtain rfl := h.close_eq_none hfinished'
  have hlog : signals (d.handler ++ rest.filterMap DispatchBlock.callback?) =
      conversation metadata ms none := by
    rw [← h.log, Delivery.log, hqueue, List.filterMap_cons, hblock]
  rcases h.publish with ⟨metadata', hpublish, horder, _⟩
  refine ⟨metadata', ?_, horder, by simp, ?_, rfl, h.given, ?_, h.unclosed⟩
  · rw [Delivery.log, signals_push rfl rfl, hlog, hpublish, conversation_close]
  -- From now on the writeable is finished, and nothing is promised for an open one.
  · intro _ hopen
    simp [isFinished, GRXConcurrentWriteable.finish] at hopen
  · intro hopen
    simp [isOpen, GRXConcurrentWriteable.isOpen, GRXConcurrentWriteable.finish] at hopen

theorem values_of_queue {block : DispatchBlock α} {rest : List (DispatchBlock α)}
    (hqueue : d.queue = block :: rest) (hblock : block.value? = none) :
    d.values = rest.filterMap DispatchBlock.value? := by
  simp [values, hqueue, hblock]

theorem value?_of_callback? {block : DispatchBlock α} {callback : Callback α}
    (h : block.callback? = some callback) : block.value? = none := by
  cases block <;> simp_all [DispatchBlock.callback?, DispatchBlock.value?]

namespace Talks

/-- Before the headers nothing was received, so nothing waits to be passed on either. -/
theorem waiting_pop (h : Talks d) {block : DispatchBlock α} {rest : List (DispatchBlock α)}
    (hqueue : d.queue = block :: rest) (hheaders : d.headers = false) :
    d.received = [] ∧ rest.filterMap DispatchBlock.value? = [] := by
  rcases h.waiting hheaders with ⟨hreceived, hvalues⟩
  refine ⟨hreceived, ?_⟩
  rw [values, hqueue, List.filterMap_cons] at hvalues
  cases hblock : block.value? <;> simp_all

/-- The handler is not told anything in this step. -/
theorem of_handler_eq (h : Talks d) (hprev : d'.previousInterceptor = d.previousInterceptor)
    (hhandler : d'.handler = d.handler) (hreceived : d.received <+: d'.received)
    (hfresh : d'.started = false → d'.writeable = none ∧ d'.headers = false ∧ d'.published = false)
    (hwaiting : d'.headers = false → d'.received = [] ∧ d'.values = [])
    (hheld : d'.started = true → d.previousInterceptor = true → d'.isFinished = false →
      d'.hasCall = true)
    (hline : d.previousInterceptor = true → ∀ metadata ms close, Line d metadata ms close →
      ∃ metadata' ms' close', Line d' metadata' ms' close') : Talks d' := by
  refine ⟨hfresh, hwaiting, by rw [hprev]; exact hheld, ?_, ?_⟩
  · intro hopen
    rw [hprev] at hopen
    rcases h.told hopen with ⟨metadata, ms, close, hd⟩
    exact hline hopen metadata ms close hd
  · intro hclosed
    rw [hprev] at hclosed
    rcases h.ended hclosed with ⟨metadata, ms, errorOrNil, callbacks, hd, hsignals, horder, hms⟩
    exact ⟨metadata, ms, errorOrNil, callbacks, hhandler.trans hd, hsignals, horder,
      hms.trans hreceived⟩

/-- The handler is closed in this step. -/
theorem close (h : Talks d) (hprev : d.previousInterceptor = true)
    (errorOrNil : Option StatusCode) (hprev' : d'.previousInterceptor = false)
    (hhandler : d'.handler = d.handler ++ [.didClose errorOrNil])
    (hreceived : d'.received = d.received)
    (hfresh : d'.started = false → d'.writeable = none ∧ d'.headers = false ∧ d'.published = false)
    (hwaiting : d'.headers = false → d'.received = [] ∧ d'.values = []) : Talks d' := by
  refine ⟨hfresh, hwaiting, by simp [hprev'], by simp [hprev'], ?_⟩
  intro _
  rcases h.told hprev with ⟨metadata, ms, close, hline⟩
  -- What is on its way to the handler is dropped, so what was told so far counts.
  rcases hline.close with ⟨metadata', ms', hsignals, horder, hms⟩
  refine ⟨metadata', ms', errorOrNil, d.handler, hhandler, hsignals, horder, ?_⟩
  rw [hreceived]
  exact hms

theorem start (h : Talks d) (hstarted : d.started = false) (w : GRXConcurrentWriteable)
    (hw : w.alreadyFinished = false) (blocks : List (DispatchBlock α))
    (hcallbacks : blocks.filterMap DispatchBlock.callback? = [])
    (hvalues : blocks.filterMap DispatchBlock.value? = []) :
    Talks { d with
      started := true, hasCall := true, headers := false, writeable := some w,
      queue := d.queue ++ blocks } := by
  -- A fresh call has an empty log, whatever is queued for the writes.
  rcases h.fresh hstarted with ⟨hnone, hheaders, hpublished⟩
  rcases h.waiting hheaders with ⟨hreceived, hqueue⟩
  refine h.of_handler_eq rfl rfl (List.prefix_refl _) (by simp) ?_ (by simp) ?_
  · intro _
    refine ⟨hreceived, ?_⟩
    simpa [values, hvalues] using hqueue
  · intro _ metadata ms close hline
    refine ⟨metadata, ms, close, hline.of_log_eq ?_ rfl rfl ?_ (List.prefix_refl _) ?_⟩
    · simp [log, hcallbacks]
    · simp [isFinished, hnone, hw]
    · intro _
      have hms : ms = [] := by
        have hgiven := hline.given
        rw [hreceived] at hgiven
        simpa using hgiven
      have hqueue' : d.queue.filterMap DispatchBlock.value? = [] := hqueue
      simp [values, hms, hvalues, hqueue', hreceived]

/-- A block joins the queue that is no message and that the handler will not hear of, or only as
the end of a write. -/
theorem push (h : Talks d) {writeable : Option GRXConcurrentWriteable} {block : DispatchBlock α}
    (hvalue : block.value? = none)
    (hsilent : signals ([block].filterMap DispatchBlock.callback?) = [])
    (hnone : d.writeable = none → writeable = none)
    (hfinished : ({ d with writeable := writeable } : Delivery α).isFinished = d.isFinished)
    (hopen : ({ d with writeable := writeable } : Delivery α).isOpen = true → d.isOpen = true) :
    Talks { d with writeable := writeable, queue := d.queue ++ [block] } := by
  have hvalues : (d.queue ++ [block]).filterMap DispatchBlock.value? = d.values := by
    simp [values, hvalue]
  refine h.of_handler_eq rfl rfl (List.prefix_refl _) ?_ ?_ ?_ ?_
  · intro hstarted
    rcases h.fresh hstarted with ⟨hw, hrest⟩
    exact ⟨hnone hw, hrest⟩
  · intro hheaders
    rcases h.waiting hheaders with ⟨hreceived, hqueue⟩
    exact ⟨hreceived, hvalues.trans hqueue⟩
  · intro hstarted hprev hopen'
    exact h.held hstarted hprev (hfinished ▸ hopen')
  -- The line keeps its conversation.
  · intro _ metadata ms close hline
    refine ⟨metadata, ms, close,
      hline.of_log_eq ?_ rfl rfl hfinished (List.prefix_refl _) ?_⟩
    · simp only [log, List.filterMap_append, signals_append, hsilent, List.append_nil]
    · intro hopen'
      have hall := hline.all (hopen hopen')
      rw [← hvalues] at hall
      exact hall

theorem step (h : Talks d) (hstep : Step b d d') : Talks d' := by
  cases hstep with
  | start hstarted =>
      simpa using h.start hstarted .initWithWriteable rfl [] rfl rfl
  | startFailed code hstarted =>
      exact h.start hstarted (GRXConcurrentWriteable.cancel .initWithWriteable) rfl [.error code]
        rfl rfl
  | headers hstarted =>
      refine h.of_handler_eq rfl rfl (List.prefix_refl _) (by simp [hstarted]) (by simp) h.held ?_
      intro _ metadata ms close hline
      exact ⟨metadata, ms, close,
        hline.of_log_eq rfl rfl rfl rfl (List.prefix_refl _) hline.all⟩
  -- The message joins both ends of the equation at once: received, and waiting.
  | receive v hheaders =>
      refine h.of_handler_eq rfl rfl (List.prefix_append _ _) h.fresh (by simp [hheaders]) h.held ?_
      intro _ metadata ms close hline
      refine ⟨metadata, ms, close,
        hline.of_log_eq ?_ rfl rfl rfl (List.prefix_append _ _) ?_⟩
      · simp [log, DispatchBlock.callback?, List.filterMap_cons, signals]
      · intro hopen
        have hall := hline.all hopen
        simp only [values] at hall
        simp [values, DispatchBlock.value?, ← hall]
  | wrote =>
      exact h.push rfl rfl id rfl id
  | complete hw =>
      exact h.push rfl rfl id rfl id
  | fail code hw =>
      refine h.push rfl rfl (by simp [hw]) ?_ ?_
      · simp [isFinished, hw, GRXConcurrentWriteable.cancel]
      · simp [isOpen, GRXConcurrentWriteable.isOpen, GRXConcurrentWriteable.cancel]
  | deliver hqueue hopen =>
      rename_i v rest
      -- A value waits in the queue, so the headers are there and the call was started.
      have hheaders : d.headers = true := by
        cases hh : d.headers with
        | false =>
            have hvalues := (h.waiting hh).2
            simp [values, hqueue, DispatchBlock.value?] at hvalues
        | true =>
            rfl
      have hstarted : d.started = true := by
        cases hs : d.started with
        | false =>
            rw [(h.fresh hs).2.1] at hheaders
            exact absurd hheaders (by simp)
        | true =>
            rfl
      refine h.of_handler_eq rfl rfl (List.prefix_refl _) (by simp [hstarted])
        (by simp [hheaders]) h.held ?_
      intro hprev metadata ms close hline
      exact ⟨true, ms ++ [v], none, hline.deliver hqueue hopen
        (h.held hstarted hprev (isFinished_of_isOpen hopen)) hheaders⟩
  | close hqueue hw hfinished hblock =>
      rename_i block rest w errorOrNil
      have hcallback : block.callback? = none := by
        rcases hblock with ⟨rfl, _⟩ | ⟨code, rfl, _⟩ <;> rfl
      have hmore : d.metadata.filterMap DispatchBlock.value? = [] := by
        unfold metadata
        split_ifs <;> rfl
      refine h.of_handler_eq rfl rfl (List.prefix_refl _) ?_ ?_ ?_ ?_
      · intro hstarted
        rw [(h.fresh hstarted).1] at hw
        cases hw
      · intro hheaders
        rcases h.waiting_pop hqueue hheaders with ⟨hreceived, hrest⟩
        refine ⟨hreceived, ?_⟩
        simp [values, hrest, hmore, DispatchBlock.value?]
      · intro _ _ hopen
        simp [isFinished, GRXConcurrentWriteable.finish] at hopen
      · intro _ metadata ms close hline
        rcases hline.finish errorOrNil hqueue hcallback hw hfinished with ⟨metadata', hline'⟩
        exact ⟨metadata', ms, some errorOrNil, hline'⟩
  -- A closed writeable may lose messages, which is why `all` asks for an open one.
  | discard hqueue hblock hopen =>
      refine h.of_handler_eq rfl rfl (List.prefix_refl _) h.fresh (h.waiting_pop hqueue) h.held ?_
      intro _ metadata ms close hline
      refine ⟨metadata, ms, close,
        hline.of_log_eq ?_ rfl rfl rfl (List.prefix_refl _) ?_⟩
      · simp [log, hqueue, hblock]
      · intro hopen'
        exact absurd (hopen ▸ hopen') (by simp)
  | forward hqueue hblock hprev =>
      rename_i block rest callback
      -- A close moves the invariant from `told` to `ended`.
      cases hclose : callback.isDidClose with
      | true =>
          cases callback with
          | didClose errorOrNil =>
              exact h.close hprev errorOrNil rfl rfl rfl h.fresh (h.waiting_pop hqueue)
          | didReceiveInitialMetadata | didReceiveData | didWriteData =>
              simp [Callback.isDidClose] at hclose
      | false =>
          have hvalue := value?_of_callback? hblock
          refine ⟨h.fresh, h.waiting_pop hqueue, fun hs _ => h.held hs hprev, ?_, by simp⟩
          intro _
          rcases h.told hprev with ⟨metadata, ms, close, hline⟩
          -- The callback moves from the queue to the handler; the log is the same.
          refine ⟨metadata, ms, close, ?_, hline.order, hline.published, hline.publishes,
            hline.closed, hline.given, ?_, ?_⟩
          · rw [← hline.log]
            simp [log, hqueue, hblock]
          · intro hopen
            have hall := hline.all hopen
            rw [values_of_queue hqueue hvalue] at hall
            exact hall
          · intro errorOrNil hmem
            rcases List.mem_append.1 hmem with hold | hnew
            · exact hline.unclosed errorOrNil hold
            · obtain rfl := List.mem_singleton.1 hnew
              simp [Callback.isDidClose] at hclose
  | forwardLost hqueue hprev =>
      refine h.of_handler_eq rfl rfl (List.prefix_refl _) h.fresh (h.waiting_pop hqueue) h.held ?_
      simp [hprev]
  -- The user's cancellation closes the handler at once, past the queue.
  | cancel hprev =>
      exact h.close hprev (some .cancelled) rfl rfl rfl h.fresh h.waiting
  | release hprev =>
      refine h.of_handler_eq rfl rfl (List.prefix_refl _) h.fresh h.waiting ?_ ?_
      · simp [hprev]
      · simp [hprev]

end Talks

end Delivery

/-! ## A clean close -/

namespace Delivery

variable {P P' : List α → Prop} {b : Bool} {d d' : Delivery α}

/-- `P` holds of what had been read when the status of a call that went well arrived.  From then on
the end of the call follows the last of these messages, through both rounds in the queue. -/
structure Clean (P : List α → Prop) (d : Delivery α) : Prop where
  fresh : d.started = false → .successfulCompletion ∉ d.queue
  queued : d.previousInterceptor = true → d.isOpen = true →
    ∀ q q', d.queue = q ++ .successfulCompletion :: q' →
      P (messages d.log ++ q.filterMap DispatchBlock.value?)
  forwarding : d.previousInterceptor = true → .forwardClose none ∈ d.queue → P (messages d.log)
  closed : .didClose none ∈ d.handler → P (messages d.handler)

/-- The messages of a line are those of its conversation. -/
theorem Line.messages_log {metadata : Bool} {ms : List α} {close : Option (Option StatusCode)}
    (h : Line d metadata ms close) : messages d.log = ms := by
  rw [← messages_signals, h.log, messages_conversation]

/-- A close that is on its way is the end of the line. -/
theorem Line.close_last {metadata : Bool} {ms : List α} {close : Option (Option StatusCode)}
    {errorOrNil : Option StatusCode} {rest : List (DispatchBlock α)}
    (h : Line d metadata ms close) (hqueue : d.queue = .forwardClose errorOrNil :: rest) :
    messages d.log = messages d.handler := by
  have hlog := h.log
  rw [Delivery.log, hqueue, List.filterMap_cons] at hlog
  simp only [DispatchBlock.callback?, signals_append] at hlog
  have hsplit : signals d.handler ++ .didClose errorOrNil ::
      signals (rest.filterMap DispatchBlock.callback?) = conversation metadata ms close := hlog
  have hnil : signals (rest.filterMap DispatchBlock.callback?) = [] := by
    -- Otherwise a close would be in an open conversation, or stand twice in a closed one.
    cases close with
    | none =>
        refine absurd ?_ (didClose_not_mem_conversation metadata ms errorOrNil)
        rw [← hsplit]
        simp
    | some errorOrNil' =>
        rw [conversation_close] at hsplit
        exact eq_nil_of_concat_eq hsplit.symm (didClose_not_mem_conversation _ _ _)
  have hrest : messages (rest.filterMap DispatchBlock.callback?) = [] := by
    rw [← messages_signals, hnil]
    rfl
  rw [Delivery.log, hqueue, messages_append, List.filterMap_cons]
  simp only [DispatchBlock.callback?]
  have hcons : messages (.didClose errorOrNil :: rest.filterMap DispatchBlock.callback?) =
      messages (rest.filterMap DispatchBlock.callback?) := rfl
  rw [hcons, hrest, List.append_nil]

/-- No close is on its way while the writeable is open. -/
theorem Line.forwardClose_not_mem {metadata : Bool} {ms : List α}
    {close : Option (Option StatusCode)} (h : Line d metadata ms close) (hopen : d.isOpen = true)
    (errorOrNil : Option StatusCode) : .forwardClose errorOrNil ∉ d.queue := by
  intro hmem
  have hfinished := isFinished_of_isOpen hopen
  obtain rfl := h.close_eq_none hfinished
  refine didClose_not_mem_conversation metadata ms errorOrNil ?_
  rw [← h.log]
  refine List.mem_filter.2 ⟨?_, rfl⟩
  exact List.mem_append_right _ (List.mem_filterMap.2 ⟨_, hmem, rfl⟩)

namespace Clean

/-- A step that leaves the queue, the handler and the line alone. -/
theorem of_queue_eq (h : Clean P d) (hP : ∀ ms, P ms → P' ms) (hqueue : d'.queue = d.queue)
    (hhandler : d'.handler = d.handler)
    (hprev : d'.previousInterceptor = true → d.previousInterceptor = true)
    (hopen : d'.isOpen = true → d.isOpen = true ∨ .successfulCompletion ∉ d.queue)
    (hfresh : d'.started = false → d.started = false) : Clean P' d' := by
  have hlog : d'.log = d.log := by
    rw [log, log, hqueue, hhandler]
  refine ⟨?_, ?_, ?_, ?_⟩
  · intro hstarted
    rw [hqueue]
    exact h.fresh (hfresh hstarted)
  · intro hp ho q q' hq
    rw [hqueue] at hq
    rw [hlog]
    rcases hopen ho with ho | hnot
    · exact hP _ (h.queued (hprev hp) ho q q' hq)
    · exact absurd (by simp [hq]) hnot
  · intro hp hmem
    rw [hqueue] at hmem
    rw [hlog]
    exact hP _ (h.forwarding (hprev hp) hmem)
  · rw [hhandler]
    exact fun hmem => hP _ (h.closed hmem)

/-- A block joins the queue that is neither an end of the call nor a message on its second
round. -/
theorem push (h : Clean P d) (hP : ∀ ms, P ms → P' ms) (block : DispatchBlock α)
    (hblock : block ≠ .successfulCompletion ∧ block ≠ .forwardClose none)
    (hsilent : messages ([block].filterMap DispatchBlock.callback?) = [])
    (hqueue : d'.queue = d.queue ++ [block]) (hhandler : d'.handler = d.handler)
    (hprev : d'.previousInterceptor = d.previousInterceptor)
    (hopen : d'.isOpen = true → d.isOpen = true ∨ .successfulCompletion ∉ d.queue)
    (hfresh : d'.started = false → d.started = false) : Clean P' d' := by
  have hlog : messages d'.log = messages d.log := by
    rw [log, log, hqueue, hhandler, List.filterMap_append, messages_append, messages_append,
      messages_append, hsilent, List.append_nil]
  refine ⟨?_, ?_, ?_, ?_⟩
  · intro hstarted hmem
    rw [hqueue] at hmem
    rcases List.mem_append.1 hmem with hold | hnew
    · exact h.fresh (hfresh hstarted) hold
    · exact hblock.1 (List.mem_singleton.1 hnew).symm
  · intro hp ho q q' hq
    rw [hqueue] at hq
    rcases exists_split_of_append_eq hq (by simpa using hblock.1.symm) with ⟨rest, hrest⟩
    rw [hlog]
    rcases hopen ho with ho | hnot
    · exact hP _ (h.queued (hprev ▸ hp) ho q rest hrest)
    · exact absurd (by simp [hrest]) hnot
  · intro hp hmem
    rw [hqueue] at hmem
    rw [hlog]
    rcases List.mem_append.1 hmem with hold | hnew
    · exact hP _ (h.forwarding (hprev ▸ hp) hold)
    · exact absurd (List.mem_singleton.1 hnew).symm hblock.2
  · rw [hhandler]
    exact fun hmem => hP _ (h.closed hmem)

theorem mono (h : Clean P d) (hP : ∀ ms, P ms → P' ms) : Clean P' d :=
  h.of_queue_eq hP rfl rfl id .inl id

/-- The status arrives: everything that was read so far is before it. -/
theorem complete (h : Clean P d) (ht : Talks d) (hP : ∀ ms, P ms → P' ms) (hnew : P' d.received)
    {w : GRXConcurrentWriteable} (hw : d.writeable = some w) :
    Clean P' { d with queue := d.queue ++ [.successfulCompletion] } := by
  have hlog : messages ({ d with queue := d.queue ++ [.successfulCompletion] } : Delivery α).log =
      messages d.log := by
    simp [log, DispatchBlock.callback?, List.filterMap_cons, messages]
  refine ⟨?_, ?_, ?_, ?_⟩
  -- No status arrives for a call without a writeable.
  · intro hstarted
    rw [(ht.fresh hstarted).1] at hw
    cases hw
  · intro hprev hopen q q' hq
    rw [hlog]
    rcases List.eq_nil_or_concat q' with rfl | ⟨init, last, rfl⟩
    · -- The completion that has just arrived.
      have hqueue : d.queue = q := (List.append_inj' hq rfl).1
      rcases ht.told hprev with ⟨metadata, ms, close, hline⟩
      have hall := hline.all hopen
      rw [hline.messages_log, ← hqueue]
      rw [values] at hall
      rw [hall]
      exact hnew
    · have hcat : d.queue ++ [.successfulCompletion] =
          (q ++ .successfulCompletion :: init) ++ [last] := by
        simpa [List.concat_eq_append] using hq
      exact hP _ (h.queued hprev hopen q init (List.append_inj' hcat rfl).1)
  · intro hprev hmem
    rw [hlog]
    rcases List.mem_append.1 hmem with hold | hend
    · exact hP _ (h.forwarding hprev hold)
    · exact absurd (List.mem_singleton.1 hend) (by simp)
  · exact fun hmem => hP _ (h.closed hmem)

/-- A message starts its second round, which ends before the close does. -/
theorem deliver (h : Clean P d) (ht : Talks d) {v : α} {rest : List (DispatchBlock α)}
    (hqueue : d.queue = .value v :: rest) (hopen : d.isOpen = true) :
    Clean P { d with published := true, queue := rest ++ d.metadata ++ [.forwardData v] } := by
  have hmetadata : messages (d.metadata.filterMap DispatchBlock.callback?) = [] := by
    unfold metadata
    split_ifs <;> rfl
  have hlog : messages ({ d with
      published := true, queue := rest ++ d.metadata ++ [.forwardData v] } : Delivery α).log =
      messages d.log ++ [v] := by
    simp only [log, hqueue, List.filterMap_append, messages_append, hmetadata,
      List.filterMap_cons]
    simp [DispatchBlock.callback?, messages, Callback.data?]
  -- The new blocks are behind any completion that is queued.
  have hnew : ∀ block : DispatchBlock α,
      block = .successfulCompletion ∨ block = .forwardClose none →
      block ∉ d.metadata ++ [.forwardData v] := by
    rintro block (rfl | rfl) hmem <;> unfold metadata at hmem <;> split_ifs at hmem <;>
      simp at hmem
  refine ⟨?_, ?_, ?_, h.closed⟩
  · intro hstarted hmem
    rw [List.append_assoc] at hmem
    rcases List.mem_append.1 hmem with hold | hmore
    · exact h.fresh hstarted (by simp [hqueue, hold])
    · exact hnew _ (.inl rfl) hmore
  · intro hprev _ q q' hq
    rw [List.append_assoc] at hq
    rcases exists_split_of_append_eq hq (hnew _ (.inl rfl)) with ⟨q'', hrest⟩
    -- The message leaves the part before the completion and joins the log.
    have hP := h.queued hprev hopen (.value v :: q) q'' (by rw [hqueue, hrest]; rfl)
    rw [hlog]
    simpa [DispatchBlock.value?] using hP
  · intro hprev hmem
    rw [List.append_assoc] at hmem
    rcases ht.told hprev with ⟨metadata, ms, close, hline⟩
    rcases List.mem_append.1 hmem with hold | hmore
    · refine absurd ?_ (hline.forwardClose_not_mem hopen none)
      simp [hqueue, hold]
    · exact absurd hmore (hnew _ (.inr rfl))

/-- The writeable is closed: by the status, or by an error. -/
theorem finish (h : Clean P d) (ht : Talks d) {block : DispatchBlock α}
    {rest : List (DispatchBlock α)} {w : GRXConcurrentWriteable} {errorOrNil : Option StatusCode}
    (hqueue : d.queue = block :: rest) (hw : d.writeable = some w)
    (hblock : block = .successfulCompletion ∧ errorOrNil = none ∧ w.isOpen = true ∨
      ∃ code, block = .error code ∧ errorOrNil = some code) :
    Clean P { d with
      published := true, queue := rest ++ d.metadata ++ [.forwardClose errorOrNil],
      writeable := some w.finish, hasCall := false } := by
  have hmetadata : messages (d.metadata.filterMap DispatchBlock.callback?) = [] := by
    unfold metadata
    split_ifs <;> rfl
  have hcallback : block.callback? = none := by
    rcases hblock with ⟨rfl, _⟩ | ⟨code, rfl, _⟩ <;> rfl
  have hlog : messages ({ d with
      published := true, queue := rest ++ d.metadata ++ [.forwardClose errorOrNil],
      writeable := some w.finish, hasCall := false } : Delivery α).log = messages d.log := by
    simp only [log, hqueue, List.filterMap_append, messages_append, hmetadata,
      List.filterMap_cons, hcallback]
    simp [DispatchBlock.callback?, messages, Callback.data?]
  refine ⟨?_, ?_, ?_, h.closed⟩
  · intro hstarted
    rw [(ht.fresh hstarted).1] at hw
    cases hw
  · intro _ hopen
    simp [isOpen, GRXConcurrentWriteable.isOpen, GRXConcurrentWriteable.finish] at hopen
  · intro hprev hmem
    rw [hlog]
    rw [List.append_assoc] at hmem
    rcases List.mem_append.1 hmem with hold | hmore
    · exact h.forwarding hprev (by simp [hqueue, hold])
    · have hclose : errorOrNil = none := by
        unfold metadata at hmore
        split_ifs at hmore <;> simp at hmore <;> exact hmore.symm
      -- Only the status closes without an error, and everything before it was passed on.
      rcases hblock with ⟨rfl, _, hopen⟩ | ⟨code, _, hcode⟩
      · have hP := h.queued hprev (by simpa [isOpen, hw] using hopen) [] rest hqueue
        simpa using hP
      · rw [hcode] at hclose
        cases hclose

/-- The handler hears of the next block, which may be the close. -/
theorem forward (h : Clean P d) (ht : Talks d) {block : DispatchBlock α}
    {rest : List (DispatchBlock α)} {callback : Callback α} (hqueue : d.queue = block :: rest)
    (hblock : block.callback? = some callback) (hprev : d.previousInterceptor = true) :
    Clean P { d with
      queue := rest, handler := d.handler ++ [callback],
      previousInterceptor := !callback.isDidClose } := by
  have hvalue := value?_of_callback? hblock
  have hlog : ({ d with
      queue := rest, handler := d.handler ++ [callback],
      previousInterceptor := !callback.isDidClose } : Delivery α).log = d.log := by
    simp [log, hqueue, hblock]
  rcases ht.told hprev with ⟨metadata, ms, close, hline⟩
  refine ⟨?_, ?_, ?_, ?_⟩
  · intro hstarted hmem
    exact h.fresh hstarted (by rw [hqueue]; exact List.mem_cons_of_mem _ hmem)
  · intro _ hopen q q' hq
    have hP := h.queued hprev hopen (block :: q) q' (by rw [hqueue]; exact congrArg _ hq)
    rw [hlog]
    simpa [hvalue] using hP
  · intro _ hmem
    rw [hlog]
    exact h.forwarding hprev (by rw [hqueue]; exact List.mem_cons_of_mem _ hmem)
  · intro hmem
    rcases List.mem_append.1 hmem with hold | hnew
    · exact absurd hold (hline.unclosed none)
    · obtain rfl := List.mem_singleton.1 hnew
      -- The handler is told of the close, behind all that was in the log.
      have hforward : block = .forwardClose none := by
        cases block <;> simp_all [DispatchBlock.callback?]
      subst hforward
      have hP := h.forwarding hprev (by simp [hqueue])
      rw [hline.close_last hqueue] at hP
      simpa [messages, Callback.data?, List.filterMap_cons] using hP

theorem step (h : Clean P d) (ht : Talks d) (hP : ∀ ms, P ms → P' ms)
    (hnew : b = true → P' d.received) (hstep : Step b d d') : Clean P' d' := by
  cases hstep with
  | start hstarted =>
      exact h.of_queue_eq hP rfl rfl id (fun _ => .inr (h.fresh hstarted)) (by simp)
  | startFailed code hstarted =>
      exact h.push hP (.error code) (by simp) rfl rfl rfl rfl
        (fun _ => .inr (h.fresh hstarted)) (by simp)
  | headers hstarted =>
      exact h.of_queue_eq hP rfl rfl id .inl id
  | receive v hheaders =>
      exact h.push hP (.value v) (by simp) rfl rfl rfl rfl .inl id
  | wrote =>
      exact h.push hP .forwardDidWriteData (by simp) rfl rfl rfl rfl .inl id
  | complete hw =>
      exact h.complete ht hP (hnew rfl) hw
  -- An error of this side closes the writeable: a status behind it is not heard.
  | fail code hw =>
      refine h.push hP (.error code) (by simp) rfl rfl rfl rfl ?_ id
      simp [isOpen, GRXConcurrentWriteable.isOpen, GRXConcurrentWriteable.cancel]
  | deliver hqueue hopen =>
      exact (h.deliver ht hqueue hopen).mono hP
  | close hqueue hw hfinished hblock =>
      exact (h.finish ht hqueue hw hblock).mono hP
  | discard hqueue hblock hopen =>
      refine ⟨?_, ?_, ?_, fun hmem => hP _ (h.closed hmem)⟩
      · intro hstarted hmem
        exact h.fresh hstarted (by rw [hqueue]; exact List.mem_cons_of_mem _ hmem)
      · intro _ hopen'
        exact absurd (hopen ▸ hopen') (by simp)
      · intro hprev hmem
        have hold := h.forwarding hprev (by rw [hqueue]; exact List.mem_cons_of_mem _ hmem)
        rw [log, hqueue, List.filterMap_cons, hblock] at hold
        exact hP _ hold
  | forward hqueue hblock hprev =>
      exact (h.forward ht hqueue hblock hprev).mono hP
  | forwardLost hqueue hprev =>
      refine ⟨?_, by simp [hprev], by simp [hprev], fun hmem => hP _ (h.closed hmem)⟩
      intro hstarted hmem
      exact h.fresh hstarted (by rw [hqueue]; exact List.mem_cons_of_mem _ hmem)
  -- A cancelled call does not close cleanly.
  | cancel hprev =>
      rcases ht.told hprev with ⟨metadata, ms, close, hline⟩
      refine ⟨h.fresh, by simp, by simp, ?_⟩
      intro hmem
      rcases List.mem_append.1 hmem with hold | hcancelled
      · exact absurd hold (hline.unclosed none)
      · exact absurd (List.mem_singleton.1 hcancelled) (by simp)
  | release hprev =>
      exact h.of_queue_eq hP rfl rfl id .inl id

end Clean

end Delivery

/-! ## Whole runs -/

theorem talks_of_run {flow : Bool} {es : List (Event α)} {tr : List (State α)} {s : State α}
    (hrun : (machine flow).Run es tr s) : s.delivery.Talks := by
  induction hrun with
  | init =>
      refine ⟨?_, ?_, ?_, ?_, ?_⟩
      · intro _
        exact ⟨rfl, rfl, rfl⟩
      · intro _
        exact ⟨rfl, rfl⟩
      · intro hstarted
        cases hstarted
      · intro _
        refine ⟨false, [], none, rfl, by simp, by simp, ?_, rfl, List.prefix_refl _, ?_, ?_⟩
        · intro hpublished
          cases hpublished
        · intro hopen
          cases hopen
        · intro _ hmem
          cases hmem
      · intro hprev
        cases hprev
  | step hrun hstep ih =>
      rcases delivery_step (reading_single hrun) hstep with hsame | hs
      · rw [hsame]
        exact ih
      · exact ih.step hs

/-- A call with one message; the status arrives while the message is on its first round. -/
def oneMessage : List (Event ℕ) :=
  [ .start true
  , .runCall
  , .runCall
  , .complete 1 .done
  , .runCall
  , .complete 2 (.message (some 7))
  , .complete 1 (.status none)
  , .runDispatch
  , .runDispatch
  , .runDispatch
  , .runDispatch
  , .runDispatch ]

theorem oneMessage_run :
    ∃ tr : List (State ℕ), ∃ s : State ℕ, (machine false).Run oneMessage tr s ∧
      s.handler = [.didReceiveInitialMetadata, .didReceiveData 7, .didClose none] := by
  refine Machine.exists_run_of_exec (fun s : State ℕ => s.handler) ?_
  decide

/-- However the threads interleave, the handler sees a conversation: the metadata at most once and
before any message, the messages in the order the core has read them and without a gap, and nothing
at all after a close. -/
theorem handler_conversation {flow : Bool} {es : List (Event α)} {tr : List (State α)}
    {s : State α} (hrun : (machine flow).Run es tr s) :
    (∃ metadata ms close, signals s.handler = conversation metadata ms close ∧
      (ms ≠ [] → metadata = true) ∧ ms <+: s.received) ∧
    ∀ callbacks errorOrNil rest, s.handler = callbacks ++ .didClose errorOrNil :: rest →
      rest = [] := by
  have htalks := talks_of_run hrun
  cases hprev : s.previousInterceptor with
  | true =>
      rcases htalks.told hprev with ⟨metadata, ms, close, hline⟩
      rcases hline.close with ⟨metadata', ms', hsignals, horder, hms⟩
      refine ⟨⟨metadata', ms', none, hsignals, horder, hms⟩, ?_⟩
      intro callbacks errorOrNil rest hhandler
      -- A handler that is still served was not told of a close.
      refine absurd ?_ (hline.unclosed errorOrNil)
      have hmem : Callback.didClose errorOrNil ∈ s.handler := by
        simp [hhandler]
      exact hmem
  | false =>
      rcases htalks.ended hprev with
        ⟨metadata, ms, errorOrNil, callbacks, hhandler, hsignals, horder, hms⟩
      have hhandler' : s.handler = callbacks ++ [.didClose errorOrNil] := hhandler
      refine ⟨⟨metadata, ms, some errorOrNil, ?_, horder, hms⟩, ?_⟩
      · rw [hhandler', signals_append, hsignals, conversation_close]
        rfl
      · intro callbacks' errorOrNil' rest hsplit
        refine eq_nil_of_concat_eq (hhandler'.symm.trans hsplit) ?_
        intro hmem
        have hsignal : Callback.didClose errorOrNil' ∈ signals callbacks :=
          List.mem_filter.2 ⟨hmem, rfl⟩
        rw [hsignals] at hsignal
        exact didClose_not_mem_conversation _ _ _ hsignal

theorem oneMessage_conversation :
    ∃ tr, ∃ s : State ℕ, (machine false).Run oneMessage tr s ∧
      s.handler = [.didReceiveInitialMetadata, .didReceiveData 7, .didClose none] ∧
      ∃ metadata ms close, signals s.handler = conversation metadata ms close ∧
        (ms ≠ [] → metadata = true) ∧ ms <+: s.received := by
  rcases oneMessage_run with ⟨tr, s, hrun, hhandler⟩
  exact ⟨tr, s, hrun, hhandler, (handler_conversation hrun).1⟩

/-- The messages `ms` had been read when the status of a call that went well arrived. -/
def ReadAtStatus (flow : Bool) (es : List (Event α)) (ms : List α) : Prop :=
  ∃ before i after tr s, es = before ++ .complete i (.status none) :: after ∧
    (machine flow).Run before tr s ∧ s.received = ms

theorem clean_of_run {flow : Bool} {es : List (Event α)} {tr : List (State α)} {s : State α}
    (hrun : (machine flow).Run es tr s) : s.delivery.Clean (ReadAtStatus flow es) := by
  induction hrun with
  | init =>
      refine ⟨?_, ?_, ?_, ?_⟩
      · intro _ hmem
        cases hmem
      · intro _ hopen
        cases hopen
      · intro _ hmem
        cases hmem
      · intro hmem
        cases hmem
  | step hrun hstep ih =>
      rename_i es tr s s' e
      -- What had been read when the status arrived stays so as the run goes on.
      have hmono : ∀ ms, ReadAtStatus flow es ms → ReadAtStatus flow (es ++ [e]) ms := by
        rintro ms ⟨before, i, after, tr', s₁, rfl, hbefore, hms⟩
        exact ⟨before, i, after ++ [e], tr', s₁, by simp, hbefore, hms⟩
      rcases delivery_step (reading_single hrun) hstep with hsame | hs
      · rw [hsame]
        exact ih.mono hmono
      · refine ih.step (talks_of_run hrun) hmono ?_ hs
        intro hstatus
        -- The event of this step is the arrival of the status.
        cases e with
        | complete i outcome =>
            cases outcome with
            | status errorOrNil =>
                cases errorOrNil with
                | none =>
                    exact ⟨es, i, [], tr, s, rfl, hrun, rfl⟩
                | some code =>
                    cases hstatus
            | failed | done | message | noMemory =>
                cases hstatus
        | start | writeData | finish | cancel | receiveNextMessages | runPipe | runCall
        | runDispatch | channelDisconnected | proceed =>
            cases hstatus

/-- A handler that is told that the call closed without an error was given, before that, every
message the core had read when the status arrived. -/
theorem clean_close_complete {flow : Bool} {es : List (Event α)} {tr : List (State α)}
    {s : State α} (hrun : (machine flow).Run es tr s) (hclose : .didClose none ∈ s.handler) :
    ∃ before i after tr' s₁, es = before ++ .complete i (.status none) :: after ∧
      (machine flow).Run before tr' s₁ ∧ messages s.handler = s₁.received := by
  rcases (clean_of_run hrun).closed hclose with ⟨before, i, after, tr', s₁, hes, hbefore, hms⟩
  exact ⟨before, i, after, tr', s₁, hes, hbefore, hms.symm⟩

theorem oneMessage_complete :
    ∃ before i after tr, ∃ s₁ : State ℕ, oneMessage = before ++ .complete i (.status none) :: after ∧
      (machine false).Run before tr s₁ ∧ s₁.received = [7] := by
  rcases oneMessage_run with ⟨tr, s, hrun, hhandler⟩
  rcases clean_close_complete hrun (by simp [hhandler]) with
    ⟨before, i, after, tr', s₁, hes, hbefore, hms⟩
  refine ⟨before, i, after, tr', s₁, hes, hbefore, ?_⟩
  rw [← hms, hhandler]
  rfl

end Grpc
end KmpApp
