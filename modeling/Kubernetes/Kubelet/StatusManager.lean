import Kubernetes.Basic.Map
import Kubernetes.Basic.Transition

/-!
# The status manager of the kubelet

The kubelet caches the newest status of every pod under a growing version, and queues a request to
write it to the API server.  One goroutine takes the requests, and now and then goes over the whole
cache.  It remembers the version it has last written and skips requests that are not newer.  The
status of a static pod is written to its mirror pod, and the version remembered under the UID of
that.

The functions that change the cache hold a lock and are one step each.  So is a run of `syncPod`:
the versions written are used by this goroutine only, and it does not read what the others change
meanwhile.  The API server and the pod manager answer anything.
-/

namespace Kubernetes.Kubelet.Status

variable {UID Status Container : Type} [DecidableEq UID]

structure VersionedPodStatus (Status : Type) where
  status : Status
  version : ℕ
  deriving DecidableEq, Repr

structure PodStatusSyncRequest (UID Status : Type) where
  podUID : UID
  status : VersionedPodStatus Status
  deriving DecidableEq, Repr

structure Pod (UID Status : Type) where
  uid : UID
  status : Status
  deletionTimestamp : Option ℤ
  deriving DecidableEq, Repr

/-- How the manager treats statuses.  `complete` sets and normalises times; `setReadiness` is `none`
if there is no container or no change. -/
structure StatusContents (UID Status Container : Type) where
  isStatusEqual : Status → Status → Bool
  complete : (now : ℤ) → (oldStatus status : Status) → Status
  setReadiness : Pod UID Status → (oldStatus : Status) → Container → Bool → Option Status

structure Manager (UID Status : Type) where
  podStatuses : Map UID (VersionedPodStatus Status)
  podStatusChannel : List (PodStatusSyncRequest UID Status)
  /-- the latest version sent to the API server, by the UID of the pod there -/
  apiStatusVersions : Map UID ℕ

def podStatusChannelSize : ℕ := 1000

namespace Manager

variable (contents : StatusContents UID Status Container)

section

variable (manager : Manager UID Status)

/-- Cache a new version and queue a request, unless the channel is full. -/
def enqueue (uid : UID) (newStatus : VersionedPodStatus Status) : Manager UID Status × Bool :=
  if manager.podStatusChannel.length < podStatusChannelSize then
    ({ manager with
        podStatuses := manager.podStatuses.insert uid newStatus
        podStatusChannel := manager.podStatusChannel ++ [⟨uid, newStatus⟩] }, true)
  else
    -- the periodic batch handles the update
    ({ manager with podStatuses := manager.podStatuses.insert uid newStatus }, false)

section

variable (now : ℤ) (mirrorStatus : Option Status)

/-- `mirrorStatus` is the status of the mirror pod, if there is one.  The result tells whether an
update was triggered. -/
def updateStatusInternal (pod : Pod UID Status) (status : Status) (forceUpdate : Bool) : Manager UID
    Status × Bool :=
  match manager.podStatuses.lookup pod.uid with
  | some cachedStatus =>
    let status := contents.complete now cachedStatus.status status
    if contents.isStatusEqual cachedStatus.status status = true ∧ forceUpdate = false then
      (manager, false)
    else
      manager.enqueue pod.uid ⟨status, cachedStatus.version + 1⟩
  | none =>
    let status := contents.complete now (mirrorStatus.getD pod.status) status
    manager.enqueue pod.uid ⟨status, 1⟩

def setPodStatus (pod : Pod UID Status) (status : Status) : Manager UID Status :=
  (manager.updateStatusInternal contents now mirrorStatus pod status pod.deletionTimestamp.isSome).1

/-- `found` is the pod that the pod manager has under the UID. -/
def setContainerReadiness (found : Option (Pod UID Status)) (container : Container) (ready : Bool) :
    Manager UID Status :=
  match found with
  | none => manager
  | some pod =>
    match manager.podStatuses.lookup pod.uid with
    | none => manager
    | some oldStatus =>
      match contents.setReadiness pod oldStatus.status container ready with
      | none => manager
      | some status =>
        (manager.updateStatusInternal contents now mirrorStatus pod status false).1

/-- The status with the containers terminated is computed and not used: the pod's own status goes to
the cache. -/
def terminatePod (pod : Pod UID Status) : Manager UID Status :=
  (manager.updateStatusInternal contents now mirrorStatus pod pod.status true).1

end

def deletePodStatus (uid : UID) : Manager UID Status :=
  { manager with podStatuses := manager.podStatuses.erase uid }

def removeOrphanedStatuses (podUIDs : Finset UID) : Manager UID Status :=
  { manager with
    podStatuses := Map.comprehend (manager.podStatuses.keys ∩ podUIDs) manager.podStatuses.lookup }

end

def needsUpdate (apiStatusVersions : Map UID ℕ) (uid : UID)
    (status : VersionedPodStatus Status) : Bool :=
  match apiStatusVersions.lookup uid with
  | none => true
  | some latest => decide (latest < status.version)

end Manager

inductive PodKind
  | ordinary
  | static
  | mirror
  deriving DecidableEq, Repr

/-- What the pod manager knows about mirror pods, with `some none` for a static pod without one. -/
structure Translations (kind : UID → PodKind) where
  translatePodUID : UID → UID
  podToMirror : UID → Option (Option UID)
  mirrorToPod : UID → Option UID
  kind_of_translated : ∀ uid, translatePodUID uid ≠ uid →
    kind uid = .mirror ∧ kind (translatePodUID uid) = .static
  kind_of_podToMirror : ∀ uid mirror, podToMirror uid = some mirror → kind uid = .static
  kind_of_mirror : ∀ uid mirror, podToMirror uid = some (some mirror) → kind mirror = .mirror

/-- What `syncPod` gets from the API server.  After an update the pod may be deleted for good. -/
inductive Answer (UID : Type)
  | notFound
  | getFailed
  | updateFailed (podUID : UID)
  | updated (podUID : UID) (deletionTimestamp : Option ℤ) (notRunning deleteSucceeds : Bool)
  deriving DecidableEq, Repr

namespace Manager

variable {kind : UID → PodKind} (translations : Translations kind)

def syncPod (answer : Answer UID) (manager : Manager UID Status) (uid : UID)
    (status : VersionedPodStatus Status) : Manager UID Status × Option ℕ :=
  if needsUpdate manager.apiStatusVersions uid status = false then
    (manager, none)
  else
    match answer with
    | .notFound => (manager, none)
    | .getFailed => (manager, none)
    | .updateFailed podUID =>
      if translations.translatePodUID podUID ≠ uid then
        -- the pod was deleted and then recreated
        (manager.deletePodStatus uid, none)
      else
        (manager, none)
    | .updated podUID deletionTimestamp notRunning deleteSucceeds =>
      if translations.translatePodUID podUID ≠ uid then
        (manager.deletePodStatus uid, none)
      else
        let updated := { manager with
          apiStatusVersions := manager.apiStatusVersions.insert podUID status.version }
        -- the deletion of mirror pods is not handled
        if kind podUID ≠ .mirror ∧ deletionTimestamp.isSome = true ∧ notRunning = true ∧
            deleteSucceeds = true then
          (updated.deletePodStatus uid, some status.version)
        else
          (updated, some status.version)

/-- The UID under which a batch looks up the versions of a pod.  A static pod without a mirror pod
is skipped. -/
def syncedUID (uid : UID) : Option UID := (translations.podToMirror uid).getD (some uid)

def cleanVersions (manager : Manager UID Status) : Map UID ℕ :=
  Map.comprehend manager.apiStatusVersions.keys fun uid ↦
    if uid ∈ manager.podStatuses ∨ (translations.mirrorToPod uid).isSome = true then
      manager.apiStatusVersions.lookup uid
    else
      none

def batchPod (needsReconcile : UID → Bool) (podStatuses : Map UID (VersionedPodStatus Status))
    (batch : Map UID ℕ × List (PodStatusSyncRequest UID Status)) (uid : UID) :
    Map UID ℕ × List (PodStatusSyncRequest UID Status) :=
  match podStatuses.lookup uid, syncedUID translations uid with
  | some status, some synced =>
    if needsUpdate batch.1 synced status = true then
      (batch.1, batch.2 ++ [⟨uid, status⟩])
    else if needsReconcile uid = true then
      -- forget the version to force an update
      (batch.1.erase synced, batch.2 ++ [⟨uid, status⟩])
    else
      batch
  | _, _ => batch

/-- The critical section of `syncBatch`, which goes over the cache in some order.  The requests are
synced after it. -/
def startBatch (needsReconcile : UID → Bool) (order : List UID) (manager : Manager UID Status) :
    Manager UID Status × List (PodStatusSyncRequest UID Status) :=
  let batch := order.foldl (batchPod translations needsReconcile manager.podStatuses)
    (cleanVersions translations manager, [])
  ({ manager with apiStatusVersions := batch.1 }, batch.2)

end Manager

/-- The manager, the rest of the batch, the versions written by pod, and the pods whose cache entry
was deleted. -/
structure System (UID Status : Type) where
  manager : Manager UID Status
  updatedStatuses : List (PodStatusSyncRequest UID Status)
  written : List (UID × ℕ)
  deleted : Finset UID

namespace System

def initial : System UID Status where
  manager := ⟨∅, [], ∅⟩
  updatedStatuses := []
  written := []
  deleted := ∅

/-- The manager changes; cache entries that are gone have been deleted. -/
def advance (system : System UID Status) (manager : Manager UID Status) : System UID Status :=
  { system with
    manager := manager
    deleted := system.deleted ∪ (system.manager.podStatuses.keys \ manager.podStatuses.keys) }

def sync {kind : UID → PodKind} (translations : Translations kind) (answer : Answer UID)
    (system : System UID Status) (request : PodStatusSyncRequest UID Status) :
    System UID Status :=
  let synced := system.manager.syncPod translations answer request.podUID request.status
  let next := system.advance synced.1
  { next with
    written := next.written ++ synced.2.toList.map fun version ↦ (request.podUID, version) }

end System

/-- A change of the cache, a sync of a request of the channel or of the batch, or the start of a
batch that reconciles some pods. -/
inductive Label (UID : Type)
  | call
  | request
  | batch (needsReconcile : UID → Bool)
  | next

inductive Step (contents : StatusContents UID Status Container) (kind : UID → PodKind)
    (system : System UID Status) : Label UID → System UID Status → Prop
  | setPodStatus (now : ℤ) (mirrorStatus : Option Status) (pod : Pod UID Status) (status : Status) :
      Step contents kind system .call
        (system.advance (system.manager.setPodStatus contents now mirrorStatus pod status))
  | setContainerReadiness (now : ℤ) (mirrorStatus : Option Status)
      (found : Option (Pod UID Status)) (container : Container) (ready : Bool) :
      Step contents kind system .call
        (system.advance
          (system.manager.setContainerReadiness contents now mirrorStatus found container ready))
  | terminatePod (now : ℤ) (mirrorStatus : Option Status) (pod : Pod UID Status) :
      Step contents kind system .call
        (system.advance (system.manager.terminatePod contents now mirrorStatus pod))
  | removeOrphanedStatuses (podUIDs : Finset UID) :
      Step contents kind system .call
        (system.advance (system.manager.removeOrphanedStatuses podUIDs))
  | syncRequest (translations : Translations kind)
      (answer : Answer UID) (request : PodStatusSyncRequest UID Status)
      (rest : List (PodStatusSyncRequest UID Status)) :
      system.updatedStatuses = [] → system.manager.podStatusChannel = request :: rest →
      Step contents kind system .request
        ({ system with manager := { system.manager with podStatusChannel := rest } }.sync
          translations answer request)
  | syncBatch (translations : Translations kind) (needsReconcile : UID → Bool) (order : List UID) :
      system.updatedStatuses = [] → Map.IsOrder order system.manager.podStatuses →
      Step contents kind system (.batch needsReconcile)
        { system with
          manager := (system.manager.startBatch translations needsReconcile order).1
          updatedStatuses := (system.manager.startBatch translations needsReconcile order).2 }
  | syncNext (translations : Translations kind)
      (answer : Answer UID) (request : PodStatusSyncRequest UID Status)
      (rest : List (PodStatusSyncRequest UID Status)) :
      system.updatedStatuses = request :: rest →
      Step contents kind system .next
        ({ system with updatedStatuses := rest }.sync translations answer request)

end Kubernetes.Kubelet.Status
