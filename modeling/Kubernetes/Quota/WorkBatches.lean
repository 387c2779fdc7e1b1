import Kubernetes.Basic.Transition
import Kubernetes.Workqueue.Queue

/-!
# Batches of admission waiters

The quota evaluator collects the waiters of a namespace in `work` while nobody works on the
namespace, and in `dirtyWork` while somebody does.  A worker gets a namespace from a work queue,
takes the collected waiters, checks them and completes the namespace.

`addWork`, `completeWork` and the part of `getWork` behind `queue.Get` each hold `workLock`, so each
is one step; `queue.Get` has the same effect before and after it.
-/

namespace Kubernetes.Quota.Batching

open Workqueue Function

variable {Ns Worker AdmissionWaiter : Type} [DecidableEq Ns]

/-- The shared state of the evaluator.  A missing entry of a map reads as the empty list. -/
structure QuotaEvaluator (Ns AdmissionWaiter : Type) where
  queue : Queue Ns
  work : Ns → List AdmissionWaiter
  dirtyWork : Ns → List AdmissionWaiter
  inProgress : Finset Ns

namespace QuotaEvaluator

def new : QuotaEvaluator Ns AdmissionWaiter where
  queue := .new
  work := fun _ ↦ []
  dirtyWork := fun _ ↦ []
  inProgress := ∅

section

variable (e : QuotaEvaluator Ns AdmissionWaiter) (ns : Ns)

def addWork (a : AdmissionWaiter) : QuotaEvaluator Ns AdmissionWaiter :=
  let e := { e with queue := (e.queue.add ns).1 }
  if ns ∈ e.inProgress then
    { e with dirtyWork := update e.dirtyWork ns (e.dirtyWork ns ++ [a]) }
  else { e with work := update e.work ns (e.work ns ++ [a]) }

def completeWork : QuotaEvaluator Ns AdmissionWaiter where
  queue := (e.queue.done ns).1
  work := update e.work ns (e.dirtyWork ns)
  dirtyWork := update e.dirtyWork ns []
  inProgress := e.inProgress.erase ns

/-- `getWork` after `queue.Get` returned the namespace. -/
def getWork : List AdmissionWaiter × QuotaEvaluator Ns AdmissionWaiter :=
  let work := e.work ns
  let e := { e with
    work := update e.work ns []
    dirtyWork := update e.dirtyWork ns [] }
  if work ≠ [] then (work, { e with inProgress := insert ns e.inProgress })
  else ([], { e with queue := (e.queue.done ns).1, inProgress := e.inProgress.erase ns })

end

end QuotaEvaluator

inductive Phase (Ns AdmissionWaiter : Type)
  | idle
  | got (ns : Ns)
  | checking (ns : Ns) (batch : List AdmissionWaiter)
  | checked (ns : Ns)
  | emptied (ns : Ns)
  deriving DecidableEq

def Phase.batch : Phase Ns AdmissionWaiter → List AdmissionWaiter
  | .checking _ batch => batch
  | .idle | .got _ | .checked _ | .emptied _ => []

/-- The evaluator with its workers, and the waiters that were added and finished. -/
structure System (Ns Worker AdmissionWaiter : Type) where
  evaluator : QuotaEvaluator Ns AdmissionWaiter
  phase : Worker → Phase Ns AdmissionWaiter
  added : List AdmissionWaiter
  finished : List AdmissionWaiter

inductive Op (Worker AdmissionWaiter : Type)
  | addWork (a : AdmissionWaiter)
  | get (worker : Worker)
  | getWork (worker : Worker)
  | checkAttributes (worker : Worker)
  | completeWork (worker : Worker)

namespace System

variable [DecidableEq Worker]

def new : System Ns Worker AdmissionWaiter where
  evaluator := .new
  phase := fun _ ↦ .idle
  added := []
  finished := []

def enter (state : System Ns Worker AdmissionWaiter) (worker : Worker)
    (phase : Phase Ns AdmissionWaiter) : System Ns Worker AdmissionWaiter :=
  { state with phase := update state.phase worker phase }

def getWork (state : System Ns Worker AdmissionWaiter) (worker : Worker) (ns : Ns) :
    System Ns Worker AdmissionWaiter :=
  match state.evaluator.getWork ns with
  | ([], evaluator) => { state with evaluator := evaluator }.enter worker (.emptied ns)
  | (batch, evaluator) => { state with evaluator := evaluator }.enter worker (.checking ns batch)

variable {state : System Ns Worker AdmissionWaiter}

theorem getWork_of_ne_nil {ns : Ns} (hwork : state.evaluator.work ns ≠ []) (worker : Worker) :
    state.getWork worker ns = { state with
      evaluator.work := update state.evaluator.work ns []
      evaluator.dirtyWork := update state.evaluator.dirtyWork ns []
      evaluator.inProgress := insert ns state.evaluator.inProgress }.enter worker
        (.checking ns (state.evaluator.work ns)) := by
  obtain ⟨first, rest, hcons⟩ := List.exists_cons_of_ne_nil hwork
  simp [getWork, QuotaEvaluator.getWork, hcons]

theorem getWork_of_nil {ns : Ns} (hwork : state.evaluator.work ns = []) (worker : Worker) :
    state.getWork worker ns = { state with
      evaluator.queue := (state.evaluator.queue.done ns).1
      evaluator.work := update state.evaluator.work ns []
      evaluator.dirtyWork := update state.evaluator.dirtyWork ns []
      evaluator.inProgress := state.evaluator.inProgress.erase ns }.enter worker
        (.emptied ns) := by
  simp [getWork, QuotaEvaluator.getWork, hwork]

end System

variable [DecidableEq Worker] (nsOf : AdmissionWaiter → Ns)

/-- One step.  Every waiter is passed to `addWork` once. -/
inductive Step : System Ns Worker AdmissionWaiter → Op Worker AdmissionWaiter →
    System Ns Worker AdmissionWaiter → Prop
  | addWork (state : System Ns Worker AdmissionWaiter) (a : AdmissionWaiter)
      (hfresh : a ∉ state.added) :
      Step state (.addWork a)
        { state with
          evaluator := state.evaluator.addWork (nsOf a) a
          added := a :: state.added }
  | get (state : System Ns Worker AdmissionWaiter) (worker : Worker) (ns : Ns)
      (hidle : state.phase worker = .idle) (hitem : state.evaluator.queue.get.1 = .item ns) :
      Step state (.get worker)
        ({ state with evaluator.queue := state.evaluator.queue.get.2 }.enter worker (.got ns))
  | getWork (state : System Ns Worker AdmissionWaiter) (worker : Worker) (ns : Ns)
      (hgot : state.phase worker = .got ns) :
      Step state (.getWork worker) (state.getWork worker ns)
  | checkAttributes (state : System Ns Worker AdmissionWaiter) (worker : Worker) (ns : Ns)
      (batch : List AdmissionWaiter) (hchecking : state.phase worker = .checking ns batch) :
      Step state (.checkAttributes worker)
        ({ state with finished := batch ++ state.finished }.enter worker (.checked ns))
  | completeWork (state : System Ns Worker AdmissionWaiter) (worker : Worker) (ns : Ns)
      (hdone : state.phase worker = .checked ns ∨ state.phase worker = .emptied ns) :
      Step state (.completeWork worker)
        ({ state with evaluator := state.evaluator.completeWork ns }.enter worker .idle)

def exec [DecidableEq AdmissionWaiter] (state : System Ns Worker AdmissionWaiter) :
    Op Worker AdmissionWaiter → Option (System Ns Worker AdmissionWaiter)
  | .addWork a =>
    if a ∈ state.added then none
    else some { state with
      evaluator := state.evaluator.addWork (nsOf a) a
      added := a :: state.added }
  | .get worker =>
    match state.phase worker, state.evaluator.queue.get with
    | .idle, (.item ns, queue) =>
      some ({ state with evaluator.queue := queue }.enter worker (.got ns))
    | _, _ => none
  | .getWork worker =>
    match state.phase worker with
    | .got ns => some (state.getWork worker ns)
    | _ => none
  | .checkAttributes worker =>
    match state.phase worker with
    | .checking ns batch =>
      some ({ state with finished := batch ++ state.finished }.enter worker (.checked ns))
    | _ => none
  | .completeWork worker =>
    match state.phase worker with
    | .checked ns | .emptied ns =>
      some ({ state with evaluator := state.evaluator.completeWork ns }.enter worker .idle)
    | _ => none

theorem exec_step [DecidableEq AdmissionWaiter] {state target : System Ns Worker AdmissionWaiter}
    {op : Op Worker AdmissionWaiter} (hexec : exec nsOf state op = some target) :
    Step nsOf state op target := by
  cases op <;> simp only [exec] at hexec
  case addWork a =>
    split_ifs at hexec with hfresh
    exact Option.some.inj hexec ▸ .addWork state a hfresh
  case get worker =>
    split at hexec
    · rename_i ns queue hidle hget
      rw [← Option.some.inj hexec, show queue = state.evaluator.queue.get.2 by rw [hget]]
      exact .get state worker ns hidle (by rw [hget])
    · exact absurd hexec (by simp)
  case getWork worker =>
    split at hexec
    · rename_i ns hgot
      exact Option.some.inj hexec ▸ .getWork state worker ns hgot
    · exact absurd hexec (by simp)
  case checkAttributes worker =>
    split at hexec
    · rename_i ns batch hchecking
      exact Option.some.inj hexec ▸ .checkAttributes state worker ns batch hchecking
    · exact absurd hexec (by simp)
  case completeWork worker =>
    split at hexec
    · rename_i ns hchecked
      exact Option.some.inj hexec ▸ .completeWork state worker ns (.inl hchecked)
    · rename_i ns hemptied
      exact Option.some.inj hexec ▸ .completeWork state worker ns (.inr hemptied)
    · exact absurd hexec (by simp)

end Kubernetes.Quota.Batching
