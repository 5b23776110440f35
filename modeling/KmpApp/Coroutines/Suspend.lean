import Mathlib.Init

/-!
# Suspend — suspending functions as resumption trees

A Kotlin `suspend fun` runs until it needs something from outside (an answer of a server, a store,
a dispatcher), and is resumed later with a value or with an exception.  `Suspend` is the tree of
these points: `await op resume` is a body that waits for the outcome of `op`.

This file provides:

* the part of Kotlin's `Throwable` hierarchy that `catch (e: Exception)` and the coroutine
  machinery look at;
* `Suspend` with sequencing, `try`/`catch` and `catchException`;
* `Suspend.runWith` — running a body to its end against a handler that answers every operation at
  once, with the rules by which it composes.
-/

namespace KmpApp
namespace Coroutines

/-! ## Throwables -/

/-- The status a gRPC call ends with. -/
inductive StatusCode
  | ok
  | cancelled
  | unknown
  | invalidArgument
  | deadlineExceeded
  | notFound
  | alreadyExists
  | permissionDenied
  | resourceExhausted
  | failedPrecondition
  | aborted
  | outOfRange
  | unimplemented
  | internal
  | unavailable
  | dataLoss
  | unauthenticated
  deriving DecidableEq, Repr

/-- Subclasses of `kotlin.Exception`. -/
inductive Exception
  | cancellationException
  | statusException (code : StatusCode)
  | nullPointerException
  | ioException (message : String)
  | responseException (status : Nat)
  | serializationException (message : String)
  | other (message : String)
  deriving DecidableEq, Repr

/-- `kotlin.Throwable`: what `catch (e: Exception)` catches, and what it lets through. -/
inductive Throwable
  | exception (e : Exception)
  | error (message : String)
  deriving DecidableEq, Repr

/-- `e is CancellationException`. -/
def Exception.isCancellationException : Exception → Bool
  | .cancellationException => true
  | _ => false

def Throwable.isCancellationException : Throwable → Bool
  | .exception e => e.isCancellationException
  | .error _ => false

@[simp] theorem Exception.isCancellationException_iff {e : Exception} :
    e.isCancellationException = true ↔ e = .cancellationException := by
  cases e <;> simp [Exception.isCancellationException]

/-! ## Suspending bodies -/

/-- A suspending body with operations `Op`, whose outcomes are values of `Res op` or throwables. -/
inductive Suspend {Op : Type} (Res : Op → Type) (α : Type) : Type
  | done (a : α)
  | raise (e : Throwable)
  | await (op : Op) (resume : Except Throwable (Res op) → Suspend Res α)

namespace Suspend

variable {Op : Type} {Res : Op → Type} {α β σ : Type}

def bind : Suspend Res α → (α → Suspend Res β) → Suspend Res β
  | .done a, f => f a
  | .raise e, _ => .raise e
  | .await op resume, f => .await op fun r => bind (resume r) f

def tryCatch : Suspend Res α → (Throwable → Suspend Res α) → Suspend Res α
  | .done a, _ => .done a
  | .raise e, handler => handler e
  | .await op resume, handler => .await op fun r => tryCatch (resume r) handler

instance : Monad (Suspend Res) where
  pure := .done
  bind := bind

/-- A single operation: its value is returned, its throwable is thrown. -/
def perform (op : Op) : Suspend Res (Res op) :=
  .await op fun
    | .ok a => .done a
    | .error e => .raise e

/-- `try { body } catch (e: Exception) { handler }`: an `Error` passes through. -/
def catchException (body : Suspend Res α) (handler : Exception → Suspend Res α) : Suspend Res α :=
  tryCatch body fun
    | .exception e => handler e
    | .error message => .raise (.error message)

/-! ## Running a body against a handler -/

/-- Run a body to its end; `answer` gives the outcome of each operation and the next world. -/
def runWith (answer : (op : Op) → σ → Except Throwable (Res op) × σ) :
    Suspend Res α → σ → Except Throwable α × σ
  | .done a, s => (.ok a, s)
  | .raise e, s => (.error e, s)
  | .await op resume, s => runWith answer (resume (answer op s).1) (answer op s).2

variable (answer : (op : Op) → σ → Except Throwable (Res op) × σ)

-- In both rules the induction is on the body: at an `await` the answer picks the branch, and the
-- hypothesis for that branch is the goal.

theorem runWith_bind (p : Suspend Res α) (f : α → Suspend Res β) (s : σ) :
    runWith answer (p >>= f) s =
      match runWith answer p s with
      | (.ok a, s') => runWith answer (f a) s'
      | (.error e, s') => (.error e, s') := by
  induction p generalizing s with
  | done a =>
      rfl
  | raise e =>
      rfl
  | await op resume ih =>
      exact ih _ _

theorem runWith_catchException (p : Suspend Res α) (handler : Exception → Suspend Res α) (s : σ) :
    runWith answer (catchException p handler) s =
      match runWith answer p s with
      | (.error (.exception e), s') => runWith answer (handler e) s'
      | r => r := by
  induction p generalizing s with
  | done a =>
      rfl
  | raise e =>
      cases e with
      | exception e =>
          rfl
      | error message =>
          rfl
  | await op resume ih =>
      exact ih _ _

theorem runWith_perform (op : Op) (s : σ) :
    runWith answer (perform op) s = answer op s := by
  cases h : answer op s with
  | mk r s' =>
      cases r <;> simp [perform, runWith, h]

end Suspend

end Coroutines
end KmpApp
