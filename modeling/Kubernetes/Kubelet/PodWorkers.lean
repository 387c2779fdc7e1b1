import Kubernetes.Basic.Map
import Kubernetes.Basic.Transition

/-!
# The pod workers of the kubelet

Every pod has a goroutine that receives updates from a channel with one slot and syncs the pod.
While it is busy, only the last update is kept.  A worker is forgotten by closing its channel; it
finishes what it has, and a later update gets another channel and goroutine.

The parts under the lock are one step each.  A send on a channel that is closed or full has no
result.  Updates carry the number of the call of `UpdatePod`.
-/

namespace Kubernetes.Kubelet

open Finmap

variable {UID Payload : Type}

inductive SyncPodType
  | sync
  | update
  | create
  | kill
  deriving DecidableEq, Repr

structure UpdatePodOptions (UID Payload : Type) where
  uid : UID
  updateType : SyncPodType
  payload : Payload
  serial : ℕ
  deriving DecidableEq, Repr

/-- A channel is named by the pod it was made for. -/
structure Chan (UID : Type) where
  uid : UID
  number : ℕ
  deriving DecidableEq, Repr

inductive Loop (UID Payload : Type)
  | receiving
  | received (update : UpdatePodOptions UID Payload)
  | syncing (update : UpdatePodOptions UID Payload)
  | wrapping (uid : UID)
  | exited
  deriving DecidableEq, Repr

structure Cell (UID Payload : Type) where
  buffer : Option (UpdatePodOptions UID Payload)
  closed : Bool
  loop : Loop UID Payload
  deriving DecidableEq, Repr

/-- The pod workers.  The updates that reached `syncPodFn` are kept, the last one first. -/
structure PodWorkers (UID Payload : Type) where
  podUpdates : Map UID (Chan UID)
  isWorking : UID → Bool
  lastUndeliveredWorkUpdate : Map UID (UpdatePodOptions UID Payload)
  cells : Chan UID → Cell UID Payload
  next : ℕ
  submitted : ℕ
  started : List (UpdatePodOptions UID Payload)

namespace Cell

def new : Cell UID Payload := ⟨none, false, .receiving⟩

/-- Something is in the channel, or the goroutine has received something. -/
def Busy (cell : Cell UID Payload) : Prop :=
  cell.buffer ≠ none ∨ cell.loop ≠ .receiving ∧ cell.loop ≠ .exited

end Cell

namespace PodWorkers

def new : PodWorkers UID Payload where
  podUpdates := ∅
  isWorking := fun _ ↦ false
  lastUndeliveredWorkUpdate := ∅
  cells := fun _ ↦ .new
  next := 0
  submitted := 0
  started := []

variable [DecidableEq UID]

section

variable (p : PodWorkers UID Payload)

def setCell (ch : Chan UID) (cell : Cell UID Payload) : PodWorkers UID Payload :=
  { p with cells := Function.update p.cells ch cell }

def setLoop (ch : Chan UID) (loop : Loop UID Payload) : PodWorkers UID Payload :=
  p.setCell ch { p.cells ch with loop := loop }

/-- Send on a channel.  This panics on a closed channel and blocks on a full one. -/
def send (ch : Chan UID) (update : UpdatePodOptions UID Payload) :
    Option (PodWorkers UID Payload) :=
  if (p.cells ch).closed = false ∧ (p.cells ch).buffer = none then
    some (p.setCell ch { p.cells ch with buffer := some update })
  else none

def startWorker (uid : UID) : PodWorkers UID Payload :=
  { p.setCell ⟨uid, p.next⟩ .new with
    podUpdates := insert uid ⟨uid, p.next⟩ p.podUpdates
    next := p.next + 1 }

def setWorking (uid : UID) (working : Bool) : PodWorkers UID Payload :=
  { p with isWorking := Function.update p.isWorking uid working }

/-- Give the update to the worker of a channel, or keep it if the pod is worked on, but not over a
pending request to kill the pod. -/
def submit (ch : Chan UID) (options : UpdatePodOptions UID Payload) : Option (PodWorkers UID
    Payload) :=
  if p.isWorking options.uid = false then (p.setWorking options.uid true).send ch options
  else if ∃ update ∈ lookup options.uid p.lastUndeliveredWorkUpdate,
      update.updateType = .kill then some p
  else
    some { p with
      lastUndeliveredWorkUpdate := insert options.uid options p.lastUndeliveredWorkUpdate }

def updatePod (uid : UID) (updateType : SyncPodType) (payload : Payload) : Option (PodWorkers UID
    Payload) :=
  let options : UpdatePodOptions UID Payload := ⟨uid, updateType, payload, p.submitted⟩
  let p := { p with submitted := p.submitted + 1 }
  match lookup uid p.podUpdates with
  | some ch => p.submit ch options
  | none => (p.startWorker uid).submit ⟨uid, p.next⟩ options

def close (ch : Chan UID) : PodWorkers UID Payload :=
  p.setCell ch { p.cells ch with closed := true }

def removeWorker (uid : UID) : PodWorkers UID Payload :=
  match lookup uid p.podUpdates with
  | some ch =>
    { p.close ch with
      podUpdates := erase uid p.podUpdates
      lastUndeliveredWorkUpdate := erase uid p.lastUndeliveredWorkUpdate }
  | none => p

/-- The order is the one in which the loop visits the pods. -/
def forgetNonExistingPodWorkers (desiredPods : Finset UID) (order : List UID) : PodWorkers UID
    Payload :=
  (order.filter (· ∉ desiredPods)).foldl removeWorker p

/-- Send the pending update to the channel that the pod has now, or become idle.  There is no result
without a channel: a send on a nil channel blocks. -/
def checkForUpdates (uid : UID) : Option (PodWorkers UID Payload) :=
  match lookup uid p.lastUndeliveredWorkUpdate with
  | some workUpdate =>
    (lookup uid p.podUpdates).bind fun ch ↦
      (p.send ch workUpdate).map fun p ↦
        { p with lastUndeliveredWorkUpdate := erase uid p.lastUndeliveredWorkUpdate }
  | none => some (p.setWorking uid false)

end

end PodWorkers

inductive Op (UID Payload : Type)
  | updatePod (uid : UID) (updateType : SyncPodType) (payload : Payload)
  | forgetWorker (uid : UID)
  | forgetNonExistingPodWorkers (desiredPods : Finset UID) (order : List UID)
  | receive (ch : Chan UID)
  | exit (ch : Chan UID)
  | sync (ch : Chan UID)
  | skip (ch : Chan UID)
  | finish (ch : Chan UID)
  | wrapUp (ch : Chan UID)

variable [DecidableEq UID]

/-- A goroutine receives what is in its channel also after the channel was closed.  If the status of
the pod is an error, `syncPodFn` is not called. -/
inductive Step (p : PodWorkers UID Payload) : Op UID Payload → PodWorkers UID Payload → Prop
  | updatePod (target : PodWorkers UID Payload) (uid : UID) (updateType : SyncPodType)
      (payload : Payload) (hsent : p.updatePod uid updateType payload = some target) :
      Step p (.updatePod uid updateType payload) target
  | forgetWorker (uid : UID) : Step p (.forgetWorker uid) (p.removeWorker uid)
  | forgetNonExistingPodWorkers (desiredPods : Finset UID)
      (order : List UID) (horder : Map.IsOrder order p.podUpdates) :
      Step p (.forgetNonExistingPodWorkers desiredPods order)
        (p.forgetNonExistingPodWorkers desiredPods order)
  | receive (ch : Chan UID) (update : UpdatePodOptions UID Payload)
      (hloop : (p.cells ch).loop = .receiving) (hbuf : (p.cells ch).buffer = some update) :
      Step p (.receive ch) (p.setCell ch ⟨none, (p.cells ch).closed, .received update⟩)
  | exit (ch : Chan UID) (hloop : (p.cells ch).loop = .receiving)
      (hbuf : (p.cells ch).buffer = none) (hclosed : (p.cells ch).closed = true) :
      Step p (.exit ch) (p.setLoop ch .exited)
  | sync (ch : Chan UID) (update : UpdatePodOptions UID Payload)
      (hloop : (p.cells ch).loop = .received update) :
      Step p (.sync ch) { p.setLoop ch (.syncing update) with started := update :: p.started }
  | skip (ch : Chan UID) (update : UpdatePodOptions UID Payload)
      (hloop : (p.cells ch).loop = .received update) :
      Step p (.skip ch) (p.setLoop ch (.wrapping update.uid))
  | finish (ch : Chan UID) (update : UpdatePodOptions UID Payload)
      (hloop : (p.cells ch).loop = .syncing update) :
      Step p (.finish ch) (p.setLoop ch (.wrapping update.uid))
  | wrapUp (target : PodWorkers UID Payload) (ch : Chan UID) (uid : UID)
      (hloop : (p.cells ch).loop = .wrapping uid) (hsent : p.checkForUpdates uid = some target) :
      Step p (.wrapUp ch) (target.setLoop ch .receiving)

/-- At most one `syncPodFn` runs for a pod, no send panics or blocks, a pending update has an open
channel and a busy worker, and updates are synced in the order of submission. -/
structure WellBehaved (p : PodWorkers UID Payload) : Prop where
  exclusive : ∀ ch other update otherUpdate, (p.cells ch).loop = .syncing update →
    (p.cells other).loop = .syncing otherUpdate → update.uid = otherUpdate.uid → ch = other
  updatePod : ∀ uid updateType payload, (p.updatePod uid updateType payload).isSome
  wrapUp : ∀ ch uid, (p.cells ch).loop = .wrapping uid → (p.checkForUpdates uid).isSome
  pending : ∀ uid update, lookup uid p.lastUndeliveredWorkUpdate = some update →
    (∃ ch, lookup uid p.podUpdates = some ch ∧ (p.cells ch).closed = false) ∧
      p.isWorking uid = true ∧ ∃ ch, ch.uid = uid ∧ (p.cells ch).Busy
  ordered : p.started.Pairwise fun later earlier ↦
    later.uid = earlier.uid → earlier.serial < later.serial

end Kubernetes.Kubelet
