import Kubernetes.Basic.Transition
import Kubernetes.Disruption.Budget

/-!
# The disruption controller and the eviction handler

The controller has one worker.  It takes the budget and the pods from two caches that may be behind,
and writes the status that it computed.  If the write fails, it gets the budget again and writes the
same status over it, and then the old status without any allowed disruptions.  Eviction requests run
concurrently.  A write is stored if its version of the budget is the current one.

All versions of the pods and of the budget are kept.  Three more fields record the pods that a
status was computed from, the approved evictions, and the evicted pods that were given up.
-/

namespace Kubernetes.Disruption

structure Approval where
  name : String
  uid : UID
  time : Time
  /-- The version of the budget that lists the pod first. -/
  version : ℕ
  /-- The latest version of the pods. -/
  latest : ℕ
  desiredHealthy : ℤ
  deriving DecidableEq, Repr

structure Write where
  /-- The budget that the sync took from the cache. -/
  origin : PodDisruptionBudget
  st : PodDisruptionBudgetStatus
  basis : ℕ
  failSafe : Bool
  attempt : ℕ
  /-- The version that the next update is for. -/
  resourceVersion : ℕ
  deriving DecidableEq

inductive Sync
  | idle
  | started (pdb : PodDisruptionBudget)
  | writing (write : Write)
  | refreshing (write : Write)
  deriving DecidableEq

inductive Result
  | success
  | tooManyRequests
  | failure
  deriving DecidableEq, Repr

inductive Request
  | waiting
  | checking (pod : Pod) (attempt : ℕ)
  | deciding (pod : Pod) (attempt : ℕ) (pdb : PodDisruptionBudget)
  | deleting (pod : Pod)
  | finished (result : Result)
  deriving DecidableEq

structure Cluster where
  clock : Time
  /-- All versions of the pods up to the latest one. -/
  pods : ℕ → List Pod
  latest : ℕ
  /-- All versions of the budget up to the stored one. -/
  budgets : ℕ → PodDisruptionBudget
  version : ℕ
  /-- The version of the pods that the cache of the controller has. -/
  podsSeen : ℕ
  budgetSeen : ℕ
  sync : Sync
  requests : ℕ → Request
  basis : ℕ → ℕ
  approved : List Approval
  gaveUp : List (UID × Time)

namespace Cluster

def stored (c : Cluster) : PodDisruptionBudget := c.budgets c.version

/-- The caches are up to date, and the budget was just created. -/
def new (clock : Time) (pods : List Pod) (minAvailable : MinAvailable) : Cluster where
  clock := clock
  pods := fun _ ↦ pods
  latest := 0
  budgets := fun _ ↦ ⟨0, 1, minAvailable, ⟨0, ∅, 0, 0, 0, 0⟩⟩
  version := 0
  podsSeen := 0
  budgetSeen := 0
  sync := .idle
  requests := fun _ ↦ .waiting
  basis := fun _ ↦ 0
  approved := []
  gaveUp := []

def changePods (c : Cluster) (pods : List Pod) : Cluster :=
  { c with pods := Function.update c.pods (c.latest + 1) pods, latest := c.latest + 1 }

def updateStatus (c : Cluster) (st : PodDisruptionBudgetStatus) (basis : ℕ) : Cluster :=
  { c with
    budgets := Function.update c.budgets (c.version + 1)
      { c.stored with resourceVersion := c.version + 1, status := st }
    basis := Function.update c.basis (c.version + 1) basis
    version := c.version + 1 }

def setRequest (c : Cluster) (r : ℕ) (request : Request) : Cluster :=
  { c with requests := Function.update c.requests r request }

def writePdbStatus (pdb : PodDisruptionBudget) (st : PodDisruptionBudgetStatus) (basis : ℕ)
    (failSafe : Bool) : Sync :=
  .writing ⟨pdb, st, basis, failSafe, 0, pdb.resourceVersion⟩

/-- Write the status that the sync took from the cache, without any allowed disruptions. -/
def failSafe (c : Cluster) (pdb : PodDisruptionBudget) : Sync :=
  writePdbStatus pdb { pdb.status with podDisruptionsAllowed := 0 } (c.basis pdb.resourceVersion)
    true

/-- The listed pods that are seen alive although they should have been deleted by now. -/
def overdue (pdb : PodDisruptionBudget) (listed : List Pod) (currentTime : Time) :
    List (UID × Time) :=
  listed.filterMap fun pod ↦
    (Finmap.lookup pod.name pdb.status.disruptedPods).bind fun disruptionTime ↦
      if pod.deleting = false ∧ disruptionTime + deletionTimeout ≤ currentTime then
        some (pod.uid, disruptionTime)
      else none

def syncPods (c : Cluster) (finders : List Finder) (pdb : PodDisruptionBudget) (isNil : Bool)
    (listed : List Pod) : Cluster :=
  match trySync finders pdb isNil listed c.clock with
  | .error _ => { c with sync := c.failSafe pdb }
  | .ok none => { c with sync := .idle, gaveUp := c.gaveUp ++ overdue pdb listed c.clock }
  | .ok (some st) =>
    { c with
      sync := writePdbStatus pdb st c.podsSeen false
      gaveUp := c.gaveUp ++ overdue pdb listed c.clock }

def statusUpdateRetries : ℕ := 2

/-- After a failed update and a refresh, the loop goes on with the version that it got. -/
def retry (c : Cluster) (write : Write) (resourceVersion : ℕ) : Sync :=
  if write.attempt + 1 < statusUpdateRetries then
    .writing { write with attempt := write.attempt + 1, resourceVersion := resourceVersion }
  else if write.failSafe then .idle
  else c.failSafe write.origin

def evictionsRetrySteps : ℕ := 20

/-- After a conflict, the eviction request starts again, unless it has done so often enough. -/
def retryOnConflict (pod : Pod) (attempt : ℕ) : Request :=
  if attempt + 1 < evictionsRetrySteps then .checking pod (attempt + 1) else .finished .failure

def approve (c : Cluster) (r : ℕ) (pod : Pod) (pdb : PodDisruptionBudget) : Cluster :=
  { (c.updateStatus pdb.status (c.basis c.version)).setRequest r (.deleting pod) with
    approved := ⟨pod.name, pod.uid, c.clock.stored, c.version + 1, c.latest,
      pdb.status.desiredHealthy⟩ :: c.approved }

end Cluster

/-- What may happen to the pods.  A pod that is created has a UID that was never used. -/
inductive Change (used : UID → Prop) : List Pod → List Pod → Prop
  | create (pods : List Pod) (name : String) (uid : UID) (ready : Bool)
      (hname : ∀ pod ∈ pods, pod.name ≠ name) (huid : ¬ used uid) :
      Change used pods (pods ++ [⟨name, uid, ready, false⟩])
  | setReady (pods : List Pod) (uid : UID) (ready : Bool) :
      Change used pods (pods.map fun pod ↦ if pod.uid = uid then { pod with ready } else pod)
  | markDeleted (pods : List Pod) (uid : UID) :
      Change used pods
        (pods.map fun pod ↦ if pod.uid = uid then { pod with deleting := true } else pod)
  | remove (pods : List Pod) (uid : UID) :
      Change used pods (pods.filter fun pod ↦ pod.uid ≠ uid)

/-- A pod with this UID was there at or before a version. -/
def Cluster.Known (c : Cluster) (k : ℕ) (uid : UID) : Prop :=
  ∃ j ≤ k, ∃ pod ∈ c.pods j, pod.uid = uid

inductive Op
  | tick
  | changePods
  | observePods
  | observeBudget
  | startSync
  | syncPods
  | listError
  | writeStatus
  | writeError
  | refresh
  | getPod (r : ℕ)
  | listBudgets (r : ℕ)
  | refuse (r : ℕ)
  | approve (r : ℕ)
  | conflict (r : ℕ)
  | evictionError (r : ℕ)
  | delete (r : ℕ)
  deriving DecidableEq, Repr

open Cluster in
/-- One step.  Any call to the API server may fail. -/
inductive Step (c : Cluster) : Op → Cluster → Prop
  | tick (clock : Time) (hclock : c.clock ≤ clock) : Step c .tick { c with clock := clock }
  | changePods (pods : List Pod) (hchange : Change (c.Known c.latest) (c.pods c.latest) pods) :
      Step c .changePods (c.changePods pods)
  | observePods (seen : ℕ) (hle : c.podsSeen ≤ seen) (hseen : seen ≤ c.latest) :
      Step c .observePods { c with podsSeen := seen }
  | observeBudget (seen : ℕ) (hle : c.budgetSeen ≤ seen) (hseen : seen ≤ c.version) :
      Step c .observeBudget { c with budgetSeen := seen }
  | startSync (hsync : c.sync = .idle) :
      Step c .startSync { c with sync := .started (c.budgets c.budgetSeen) }
  | syncPods (pdb : PodDisruptionBudget) (isNil : Bool) (finders : List Finder)
      (listed : List Pod) (hsync : c.sync = .started pdb)
      (hnil : isNil = true → pdb.status.disruptedPods = ∅)
      (hlist : listed.Perm (c.pods c.podsSeen)) :
      Step c .syncPods (c.syncPods finders pdb isNil listed)
  | listError (pdb : PodDisruptionBudget) (hsync : c.sync = .started pdb) :
      Step c .listError { c with sync := c.failSafe pdb }
  | writeStatus (write : Write) (hsync : c.sync = .writing write)
      (hver : write.resourceVersion = c.version) :
      Step c .writeStatus { c.updateStatus write.st write.basis with sync := .idle }
  | writeError (write : Write) (hsync : c.sync = .writing write) :
      Step c .writeError { c with sync := .refreshing write }
  | refresh (write : Write) (resourceVersion : ℕ) (hsync : c.sync = .refreshing write)
      (hget : resourceVersion = c.version ∨ resourceVersion = write.resourceVersion) :
      Step c .refresh { c with sync := c.retry write resourceVersion }
  | getPod (r : ℕ) (pod : Pod) (hreq : c.requests r = .waiting) (hpod : pod ∈ c.pods c.latest) :
      Step c (.getPod r) (c.setRequest r (.checking pod 0))
  | listBudgets (r : ℕ) (pod : Pod) (attempt : ℕ) (hreq : c.requests r = .checking pod attempt) :
      Step c (.listBudgets r) (c.setRequest r (.deciding pod attempt c.stored))
  | refuse (r : ℕ) (pod : Pod) (attempt : ℕ) (pdb : PodDisruptionBudget)
      (hreq : c.requests r = .deciding pod attempt pdb)
      (hrefused : checkAndDecrement pod.name pdb c.clock = .refused) :
      Step c (.refuse r) (c.setRequest r (.finished .tooManyRequests))
  | approve (r : ℕ) (pod : Pod) (attempt : ℕ) (pdb newPdb : PodDisruptionBudget)
      (hreq : c.requests r = .deciding pod attempt pdb)
      (hupd : checkAndDecrement pod.name pdb c.clock = .update newPdb)
      (hver : newPdb.resourceVersion = c.version) :
      Step c (.approve r) (c.approve r pod newPdb)
  | conflict (r : ℕ) (pod : Pod) (attempt : ℕ) (pdb newPdb : PodDisruptionBudget)
      (hreq : c.requests r = .deciding pod attempt pdb)
      (hupd : checkAndDecrement pod.name pdb c.clock = .update newPdb)
      (hver : newPdb.resourceVersion ≠ c.version) :
      Step c (.conflict r) (c.setRequest r (retryOnConflict pod attempt))
  | evictionError (r : ℕ) (hreq : ∀ result, c.requests r ≠ .finished result) :
      Step c (.evictionError r) (c.setRequest r (.finished .failure))
  | delete (r : ℕ) (pod found : Pod) (pods : List Pod)
      (hreq : c.requests r = .deleting pod) (hfound : found ∈ c.pods c.latest)
      (hname : found.name = pod.name)
      (hpods : pods = (c.pods c.latest).map
          (fun pod ↦ if pod.uid = found.uid then { pod with deleting := true } else pod) ∨
        pods = (c.pods c.latest).filter fun pod ↦ pod.uid ≠ found.uid) :
      Step c (.delete r) ((c.changePods pods).setRequest r (.finished .success))

/-- The informers are synced, the budget was just created, and the pods differ in names and UIDs. -/
def Init (c : Cluster) : Prop :=
  ∃ clock pods minAvailable, c = .new clock pods minAvailable ∧
    (pods.map (·.name)).Nodup ∧ (pods.map (·.uid)).Nodup

/-- The pods that are ready and not being deleted. -/
def healthy (pods : List Pod) : Finset UID :=
  ((pods.filter fun pod ↦ pod.ready && !pod.deleting).map (·.uid)).toFinset

namespace Cluster

def Alive (c : Cluster) (k : ℕ) (uid : UID) : Prop :=
  ∃ pod ∈ c.pods k, pod.uid = uid ∧ pod.deleting = false

/-- A pod was there, and is deleted or being deleted. -/
def Gone (c : Cluster) (k : ℕ) (uid : UID) : Prop := c.Known k uid ∧ ¬ c.Alive k uid

/-- The controller no longer waits for the deletion of an evicted pod. -/
def GivenUp (c : Cluster) (a : Approval) : Prop :=
  ∃ entry ∈ c.gaveUp, entry.1 = a.uid ∧ a.time ≤ entry.2

instance (c : Cluster) (a : Approval) : Decidable (c.GivenUp a) :=
  inferInstanceAs (Decidable (∃ entry ∈ c.gaveUp, entry.1 = a.uid ∧ a.time ≤ entry.2))

/-- The pods whose evictions were approved and are not overdue. -/
def evicted (c : Cluster) : Finset UID :=
  ((c.approved.filter fun a ↦ c.clock < a.time + deletionTimeout).map (·.uid)).toFinset

/-- No pod became healthy after a version of the pods. -/
def Quiet (c : Cluster) (start : ℕ) : Prop :=
  ∀ k, start ≤ k → k < c.latest → healthy (c.pods (k + 1)) ⊆ healthy (c.pods k)

/-- The evictions that were approved at a version of the pods or later. -/
def approvedSince (c : Cluster) (start : ℕ) : List Approval :=
  c.approved.filter fun a ↦ start ≤ a.latest

/-- The evictions approved while no pod becomes healthy and none is given up are at most the healthy
pods that are not needed. -/
def Bounded (c : Cluster) : Prop :=
  ∀ start desiredHealthy, c.Quiet start →
    (∀ a ∈ c.approvedSince start, a.desiredHealthy = desiredHealthy ∧ ¬ c.GivenUp a) →
    ((c.approvedSince start).length : ℤ) ≤ max 0 ((healthy (c.pods start)).card - desiredHealthy)

end Cluster

/-- No approved eviction is forgotten: the stored status lists the pod until the cache has shown
that it is gone or the timeout has passed, and allows no disruption that an evicted pod has
consumed. -/
structure NoEvictionForgotten (c : Cluster) : Prop where
  listed : ∀ a ∈ c.approved, a.name ∈ c.stored.status.disruptedPods ∨
    (∃ k ≤ c.podsSeen, c.Gone k a.uid) ∨ a.time + deletionTimeout < c.clock
  consumed : c.stored.status.podDisruptionsAllowed ≤
    max 0 ((healthy (c.pods (c.basis c.version)) \ c.evicted).card - c.stored.status.desiredHealthy)
  bounded : c.Bounded

end Kubernetes.Disruption
