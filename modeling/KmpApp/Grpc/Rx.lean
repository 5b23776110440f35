import Mathlib.Data.List.Basic

/-!
# Rx — the writers and writeables under a streaming call

A streaming call buffers what the user writes in a `GRXBufferedPipe`, a serial dispatch queue of
blocks that is suspended while the pipe is not started or paused; the responses go through a
`GRXConcurrentWriteable`, whose flags decide which of the enqueued blocks still have an effect.

Each operation here is the body of one `@synchronized` section or of one block of a queue.  A queue
that is suspended starts no further block; a block that has been started runs to its end.
-/

namespace KmpApp
namespace Grpc

inductive GRXWriterState
  | notStarted
  | started
  | paused
  | finished
  deriving DecidableEq, Repr

/-! ## GRXBufferedPipe -/

/-- The blocks of `_writeQueue`: `writeValue:` and `writesFinishedWithError:nil`. -/
inductive PipeBlock (α : Type)
  | value (v : α)
  | finished
  deriving DecidableEq, Repr

/-- `suspensions` counts the calls of `dispatch_suspend` on `_writeQueue` that were not undone. -/
structure GRXBufferedPipe (α : Type) where
  state : GRXWriterState
  writeable : Bool
  writeQueue : List (PipeBlock α)
  suspensions : ℕ
  deriving DecidableEq, Repr

namespace GRXBufferedPipe

variable {α : Type}

def pipe : GRXBufferedPipe α :=
  { state := .notStarted
    writeable := false
    writeQueue := []
    suspensions := 1 }

def writeValue (p : GRXBufferedPipe α) (value : α) : GRXBufferedPipe α :=
  { p with writeQueue := p.writeQueue ++ [.value value] }

def writesFinished (p : GRXBufferedPipe α) : GRXBufferedPipe α :=
  { p with writeQueue := p.writeQueue ++ [.finished] }

/-- Manual transitions are only allowed from the started or paused states. -/
def setState (p : GRXBufferedPipe α) (newState : GRXWriterState) : GRXBufferedPipe α :=
  if p.state = .notStarted ∨ p.state = .finished then
    p
  else
    match newState with
    -- The queue of a paused pipe is let go, so that its blocks can run out.
    | .finished =>
        { p with
          writeable := false
          suspensions := if p.state = .paused then p.suspensions - 1 else p.suspensions
          state := .finished }
    -- A second pause does not suspend the queue a second time.
    | .paused =>
        if p.state = .started then
          { p with
            state := .paused
            suspensions := p.suspensions + 1 }
        else
          p
    | .started =>
        if p.state = .paused then
          { p with
            state := .started
            suspensions := p.suspensions - 1 }
        else
          p
    | .notStarted => p

def startWithWriteable (p : GRXBufferedPipe α) : GRXBufferedPipe α :=
  { p with
    writeable := true
    state := .started
    -- Undoes the suspension the pipe was made with.
    suspensions := p.suspensions - 1 }

/-- The queue starts its next block, unless it is suspended. -/
def next? (p : GRXBufferedPipe α) : Option (PipeBlock α × GRXBufferedPipe α) :=
  if p.suspensions = 0 then
    match p.writeQueue with
    | [] => none
    | block :: rest => some (block, { p with writeQueue := rest })
  else
    none

/-- Whether a block that runs still reaches the writeable. -/
def passes (p : GRXBufferedPipe α) : Bool :=
  -- A finished pipe has also let its writeable go; the source tests the state.
  p.state ≠ .finished && p.writeable

end GRXBufferedPipe

/-! ## GRXConcurrentWriteable -/

structure GRXConcurrentWriteable where
  writeable : Bool
  alreadyFinished : Bool
  cancelled : Bool
  deriving DecidableEq, Repr

namespace GRXConcurrentWriteable

def initWithWriteable : GRXConcurrentWriteable :=
  { writeable := true
    alreadyFinished := false
    cancelled := false }

/-- The first part of `cancelWithError:`, outside the queue. -/
def cancel (w : GRXConcurrentWriteable) : GRXConcurrentWriteable :=
  { w with cancelled := true }

/-- Skip any possible message to the wrapped writeable enqueued after this one. -/
def finish (w : GRXConcurrentWriteable) : GRXConcurrentWriteable :=
  { w with
    alreadyFinished := true
    writeable := false }

/-- Whether a value or a successful completion that runs now has an effect. -/
def isOpen (w : GRXConcurrentWriteable) : Bool :=
  !w.alreadyFinished && !w.cancelled

end GRXConcurrentWriteable

end Grpc
end KmpApp
