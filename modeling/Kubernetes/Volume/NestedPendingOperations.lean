import Kubernetes.Basic.SwapRemove
import Kubernetes.Basic.Transition

/-!
# Nested pending operations

Operations on volumes run in goroutines of their own.  A list has a record for every operation that
runs, and for every one that failed and is to be delayed when it is tried again.  A lookup takes the
first record with the same volume name whose pod name is the same, or if one of the two pod names is
empty, as that of an operation for the whole volume is.

Times are in nanoseconds.  An operation on no volume in particular is never looked up.
-/

namespace Kubernetes.Volume

def initialDurationBeforeRetry : ℕ := 500 * 1000000

def maxDurationBeforeRetry : ℕ := 2 * 60 * 1000000000

structure ExponentialBackoff where
  lastError : Option String
  lastErrorTime : ℕ
  durationBeforeRetry : ℕ
  deriving DecidableEq, Repr

namespace ExponentialBackoff

def new : ExponentialBackoff := ⟨none, 0, 0⟩

def safeToRetry (backoff : ExponentialBackoff) (now : ℕ) : Bool :=
  backoff.durationBeforeRetry < now - backoff.lastErrorTime

def update (backoff : ExponentialBackoff) (err : String) (now : ℕ) : ExponentialBackoff where
  lastError := some err
  lastErrorTime := now
  durationBeforeRetry :=
    if backoff.durationBeforeRetry = 0 then initialDurationBeforeRetry
    else min (2 * backoff.durationBeforeRetry) maxDurationBeforeRetry

end ExponentialBackoff

structure Key where
  volumeName : String
  podName : String
  deriving DecidableEq, Repr

structure Operation where
  key : Key
  operationPending : Bool
  expBackoff : ExponentialBackoff
  deriving DecidableEq, Repr

/-- Operations for the same volume must not run at the same time, unless they are for two pods. -/
def Key.Matches (previous key : Key) : Prop :=
  previous.volumeName = key.volumeName ∧
    (previous.podName = "" ∨ key.podName = "" ∨ previous.podName = key.podName)

instance (previous key : Key) : Decidable (previous.Matches key) :=
  inferInstanceAs (Decidable (_ ∧ _))

structure NestedPendingOperations where
  operations : List Operation
  exponentialBackOffOnError : Bool
  deriving DecidableEq, Repr

def getOperationName (key : Key) : String :=
  let podNameStr := if key.podName ≠ "" then " (" ++ key.podName.quote ++ ")" else ""
  key.volumeName.quote ++ podNameStr

inductive RunError
  | alreadyExists (operationName : String)
  | exponentialBackoff (operationName : String) (expBackoff : ExponentialBackoff)
  deriving DecidableEq, Repr

namespace NestedPendingOperations

variable (grm : NestedPendingOperations)

section

variable (key : Key)

def isOperationExists : Option ℕ :=
  if key.volumeName = "" then none
  else grm.operations.findIdx? fun previousOp ↦ previousOp.key.Matches key

/-- The list after `Run`, which starts a goroutine if there is no error. -/
def run (now : ℕ) : Except RunError NestedPendingOperations :=
  match grm.isOperationExists key with
  | some previousOpIndex =>
    match grm.operations[previousOpIndex]? with
    | some previousOp =>
      if previousOp.operationPending then .error (.alreadyExists (getOperationName key))
      else if previousOp.expBackoff.safeToRetry now then
        .ok { grm with
          operations := grm.operations.set previousOpIndex
            { previousOp with operationPending := true, key := key } }
      else .error (.exponentialBackoff (getOperationName key) previousOp.expBackoff)
    | none => .ok grm
  | none => .ok { grm with operations := grm.operations ++ [⟨key, true, .new⟩] }

def isOperationPending : Bool :=
  match grm.isOperationExists key with
  | some previousOpIndex => (grm.operations[previousOpIndex]?).any (·.operationPending)
  | none => false

/-- Delete the first record with this key.  There is no result if there is none: the list is then
indexed with -1. -/
def deleteOperation : Option NestedPendingOperations :=
  (SwapRemove.swapRemoveFirst (fun op ↦ op.key = key) grm.operations).map fun operations ↦
    { grm with operations := operations }

def getOperation : Option ℕ := grm.operations.findIdx? fun op ↦ op.key = key

def operationComplete (err : Option String) (now : ℕ) : Option NestedPendingOperations :=
  match err with
  | none => grm.deleteOperation key
  | some err =>
    if grm.exponentialBackOffOnError = false then grm.deleteOperation key
    else
      match grm.getOperation key with
      | none => some grm
      | some existingOpIndex =>
        some { grm with
          operations := grm.operations.modify existingOpIndex fun op ↦
            { op with operationPending := false, expBackoff := op.expBackoff.update err now } }

end

end NestedPendingOperations

structure Executor where
  grm : NestedPendingOperations
  running : List Key
  deriving DecidableEq, Repr

inductive Op
  | run (key : Key)
  | runError (key : Key)
  | complete (key : Key) (failed : Bool)
  deriving DecidableEq, Repr

/-- A call of `Run`, which starts an operation or fails, or the completion of an operation. -/
inductive Step : Executor → Op → Executor → Prop
  | run (e : Executor) (key : Key) (now : ℕ) (grm : NestedPendingOperations)
      (hrun : e.grm.run key now = .ok grm) : Step e (.run key) ⟨grm, key :: e.running⟩
  | runError (e : Executor) (key : Key) (now : ℕ) (err : RunError)
      (hrun : e.grm.run key now = .error err) : Step e (.runError key) e
  | complete (e : Executor) (key : Key) (err : Option String) (now : ℕ)
      (grm : NestedPendingOperations) (hrunning : key ∈ e.running)
      (hcomplete : e.grm.operationComplete key err now = some grm) :
      Step e (.complete key err.isSome) ⟨grm, e.running.erase key⟩

def Init (e : Executor) : Prop := e.grm.operations = [] ∧ e.running = []

def Key.Compatible (key other : Key) : Prop := key.volumeName ≠ "" → ¬ key.Matches other

/-- At the completion of an operation one pending record with its key is deleted, or no longer
pending since the operation failed. -/
inductive Completes (grm : NestedPendingOperations) (key : Key) (failed : Bool) :
    NestedPendingOperations → Prop
  | deleted (op : Operation) (operations : List Operation) (hkey : op.key = key)
      (hpend : op.operationPending = true) (hperm : grm.operations.Perm (op :: operations)) :
      Completes grm key failed { grm with operations := operations }
  | updated (op : Operation) (before after : List Operation) (expBackoff : ExponentialBackoff)
      (hfailed : failed = true) (hkey : op.key = key) (hpend : op.operationPending = true)
      (hops : grm.operations = before ++ op :: after) :
      Completes grm key failed
        { grm with operations := before ++ { op with operationPending := false, expBackoff } :: after }

/-- The pending records are those of the running operations, and an operation on a volume has one.
The completion of an operation finds a record, a pending one. -/
structure Exclusive (e : Executor) : Prop where
  compatible : e.running.Pairwise Key.Compatible
  pending : ((e.grm.operations.filter (·.operationPending)).map (·.key)).Perm e.running
  unique : ∀ key ∈ e.running, key.volumeName ≠ "" →
    e.grm.operations.countP (fun op ↦ op.key = key ∧ op.operationPending = true) = 1
  completes : ∀ key ∈ e.running, ∀ err now, ∃ grm,
    e.grm.operationComplete key err now = some grm ∧ Completes e.grm key err.isSome grm

end Kubernetes.Volume
