import Kubernetes.Basic.Map

/-!
# Reclaiming persistent volumes

A volume whose claim is gone is reclaimed by its policy.  The controller schedules an operation with
its copy of the volume.  The operation reads the volume with that name from the API server, asks
whether it is released, and calls a plugin: the recycler with the volume that was read, the deleter
with the copy, and then the volume with that name is deleted at the API server.

Every request and every look into the cache of claims is a step.  In between, users change volumes,
and the cache changes.  What is destroyed goes to a log, with what the operation had read.
-/

namespace Kubernetes.VolumeController

inductive ReclaimPolicy
  | retain
  | recycle
  | delete
  | other (text : String)
  deriving DecidableEq, Repr

inductive VolumePhase
  | pending
  | available
  | bound
  | released
  | failed
  deriving DecidableEq, Repr

structure ClaimRef where
  nameSpace : String
  name : String
  uid : String
  deriving DecidableEq, Repr

/-- A persistent volume.  The resource version identifies what was written. -/
structure PersistentVolume where
  name : String
  uid : String
  resourceVersion : ℕ
  boundByController : Bool
  claimRef : Option ClaimRef
  reclaimPolicy : ReclaimPolicy
  phase : VolumePhase
  deriving DecidableEq, Repr

structure PersistentVolumeClaim where
  uid : String
  volumeName : String
  deriving DecidableEq, Repr

abbrev ClaimCache := Map String PersistentVolumeClaim

def claimrefToClaimKey (claimRef : ClaimRef) : String := claimRef.nameSpace ++ "/" ++ claimRef.name

def isVolumeReleased (claims : ClaimCache) (volume : PersistentVolume) : Bool :=
  match volume.claimRef with
  | none => false
  | some claimRef =>
    if claimRef.uid = "" then false
    else
      match Finmap.lookup (claimrefToClaimKey claimRef) claims with
      | none => true
      | some claim =>
        if claim.uid = claimRef.uid then
          claim.volumeName ≠ "" && claim.volumeName ≠ volume.name
        else true

inductive OperationKind
  | recycle
  | delete
  deriving DecidableEq, Repr

def OperationKind.policy : OperationKind → ReclaimPolicy
  | recycle => .recycle
  | delete => .delete

structure OperationName where
  kind : OperationKind
  volumeName : String
  uid : String
  deriving DecidableEq, Repr

inductive Stage
  | waiting
  | checking (newVolume : PersistentVolume)
  /-- Call the plugin.  The volume was released by this cache. -/
  | calling (newVolume : PersistentVolume) (claims : ClaimCache)
  | removing (newVolume : PersistentVolume) (claims : ClaimCache)
  | unbinding (newVolume : PersistentVolume)
  | marking (volume : PersistentVolume) (phase : VolumePhase)
  deriving DecidableEq

/-- An operation with the copy of the volume that it was scheduled with. -/
structure Operation where
  volume : PersistentVolume
  stage : Stage
  deriving DecidableEq

/-- A volume given to a plugin, or deleted at the API server, and what the operation had read. -/
structure Destruction where
  kind : OperationKind
  target : PersistentVolume
  newVolume : PersistentVolume
  claims : ClaimCache
  deriving DecidableEq

/-- The API server with all that it stored so far, the cache of claims, the operations and the log.
-/
structure Cluster where
  volumes : Map String PersistentVolume
  history : List PersistentVolume
  claims : ClaimCache
  operations : Map OperationName Operation
  destroyed : List Destruction
  deriving DecidableEq

namespace Cluster

variable (s : Cluster)

def save (volume : PersistentVolume) : Cluster :=
  let stored := { volume with resourceVersion := s.history.length }
  { s with
    volumes := s.volumes.insert stored.name stored
    history := s.history ++ [stored] }

def lastSaved (volume : PersistentVolume) : PersistentVolume :=
  { volume with resourceVersion := s.history.length }

/-- The volume at the API server, if it is still the version of the copy. -/
def unchanged (copy : PersistentVolume) : Option PersistentVolume :=
  match Finmap.lookup copy.name s.volumes with
  | none => none
  | some stored => if stored.resourceVersion = copy.resourceVersion then some stored else none

/-- `Update`.  The status stays as it is. -/
def update (volume : PersistentVolume) : Option (Cluster × PersistentVolume) :=
  match s.unchanged volume with
  | none => none
  | some stored =>
    let updated := { volume with phase := stored.phase }
    some (s.save updated, s.lastSaved updated)

/-- `UpdateStatus`.  Everything else stays as it is. -/
def updateStatus (volume : PersistentVolume) : Option (Cluster × PersistentVolume) :=
  match s.unchanged volume with
  | none => none
  | some stored =>
    let updated := { stored with phase := volume.phase }
    some (s.save updated, s.lastSaved updated)

def setStage (name : OperationName) (operation : Operation) (stage : Stage) : Cluster :=
  { s with operations := s.operations.insert name { operation with stage := stage } }

def finish (name : OperationName) : Cluster := { s with operations := s.operations.erase name }

def log (entry : Destruction) : Cluster := { s with destroyed := s.destroyed ++ [entry] }

/-- `scheduleOperation`, unless there is an operation with that name. -/
def scheduleOperation (kind : OperationKind) (volume : PersistentVolume) : Cluster :=
  let name : OperationName := ⟨kind, volume.name, volume.uid⟩
  match Finmap.lookup name s.operations with
  | none => { s with operations := s.operations.insert name ⟨volume, .waiting⟩ }
  | some _ => s

/-- `updateVolumePhase`.  A request that fails changes nothing. -/
def updateVolumePhase (volume : PersistentVolume) (phase : VolumePhase) : Cluster :=
  if volume.phase = phase then s
  else
    match s.updateStatus { volume with phase := phase } with
    | none => s
    | some (next, _) => next

def reclaimVolume (volume : PersistentVolume) : Cluster :=
  match volume.reclaimPolicy with
  | .retain => s
  | .recycle => s.scheduleOperation .recycle volume
  | .delete => s.scheduleOperation .delete volume
  | .other _ => s.updateVolumePhase volume .failed

def readVolume (name : OperationName) (operation : Operation) : Cluster :=
  match Finmap.lookup operation.volume.name s.volumes with
  | none => s.finish name
  | some newVolume => s.setStage name operation (.checking newVolume)

/-- Then they ask whether it is released. -/
def checkVolume (name : OperationName) (operation : Operation) (newVolume : PersistentVolume) :
    Cluster :=
  if isVolumeReleased s.claims newVolume then
    s.setStage name operation (.calling newVolume s.claims)
  else s.finish name

inductive PluginAnswer
  | noPlugin
  | external
  | failed (inUse : Bool)
  | done
  deriving DecidableEq, Repr

section

variable (name : OperationName) (operation : Operation) (newVolume : PersistentVolume)
  (claims : ClaimCache)

/-- The rest of `deleteVolumeOperation` up to the deletion at the API server.  It works on the copy.
-/
def callDeleter (answer : PluginAnswer) : Cluster :=
  let entry : Destruction := ⟨.delete, operation.volume, newVolume, claims⟩
  match answer with
  | .noPlugin => s.setStage name operation (.marking operation.volume .failed)
  | .external => s.finish name
  | .failed inUse =>
    if inUse then (s.log entry).finish name
    else (s.log entry).setStage name operation (.marking operation.volume .failed)
  | .done => (s.log entry).setStage name operation (.removing newVolume claims)

/-- The rest of `recycleVolumeOperation` up to `unbindVolume`.  It works on the volume that was
read. -/
def callRecycler (answer : PluginAnswer) : Cluster :=
  let entry : Destruction := ⟨.recycle, newVolume, newVolume, claims⟩
  match answer with
  | .noPlugin | .external => s.setStage name operation (.marking newVolume .failed)
  | .failed _ => (s.log entry).setStage name operation (.marking newVolume .failed)
  | .done => (s.log entry).setStage name operation (.unbinding newVolume)

/-- The deletion at the API server goes by the name. -/
def removeVolume : Cluster :=
  match Finmap.lookup operation.volume.name s.volumes with
  | none => s.finish name
  | some stored =>
    ({ s with volumes := s.volumes.erase operation.volume.name }.log
      ⟨.delete, stored, newVolume, claims⟩).finish name

end

def unboundClone (volume : PersistentVolume) : PersistentVolume :=
  if volume.boundByController then { volume with claimRef := none, boundByController := false }
  else { volume with claimRef := volume.claimRef.map fun claimRef ↦ { claimRef with uid := "" } }

/-- `unbindVolume` up to the update of the phase. -/
def unbindVolume (name : OperationName) (operation : Operation) (volume : PersistentVolume) :
    Cluster :=
  match s.update (unboundClone volume) with
  | none => s.finish name
  | some (next, newVol) => next.setStage name operation (.marking newVol .available)

def advance (name : OperationName) (answer : PluginAnswer) : Option Cluster :=
  match Finmap.lookup name s.operations with
  | none => none
  | some operation =>
    match operation.stage with
    | .waiting => some (s.readVolume name operation)
    | .checking newVolume => some (s.checkVolume name operation newVolume)
    | .calling newVolume claims =>
      match name.kind with
      | .delete => some (s.callDeleter name operation newVolume claims answer)
      | .recycle => some (s.callRecycler name operation newVolume claims answer)
    | .removing newVolume claims => some (s.removeVolume name operation newVolume claims)
    | .unbinding newVolume => some (s.unbindVolume name operation newVolume)
    | .marking volume phase => some ((s.updateVolumePhase volume phase).finish name)

inductive Label
  | edit (volume : PersistentVolume)
  | remove (volumeName : String)
  | create (volume : PersistentVolume)
  | setClaims (claims : ClaimCache)
  | sync (volume : PersistentVolume)
  | advance (name : OperationName) (answer : PluginAnswer)
  | fail (name : OperationName)

/-- A new volume has a new UID, and the cache of the controller has versions that the API server
stored.  An operation ends if a request of it fails. -/
def exec : Label → Option Cluster
  | .edit volume =>
    match Finmap.lookup volume.name s.volumes with
    | none => none
    | some stored => if stored.uid = volume.uid then some (s.save volume) else none
  | .remove volumeName => some { s with volumes := s.volumes.erase volumeName }
  | .create volume =>
    if Finmap.lookup volume.name s.volumes = none ∧ ∀ old ∈ s.history, old.uid ≠ volume.uid then
      some (s.save volume)
    else none
  | .setClaims claims => some { s with claims := claims }
  | .sync volume => if volume ∈ s.history then some (s.reclaimVolume volume) else none
  | .advance name answer => s.advance name answer
  | .fail name =>
    match Finmap.lookup name s.operations with
    | none => none
    | some operation =>
      match operation.stage with
      | .checking _ | .calling _ _ => none
      | .waiting | .removing _ _ | .unbinding _ | .marking _ _ => some (s.finish name)

def Step (s : Cluster) (label : Label) (next : Cluster) : Prop := s.exec label = some next

def empty : Cluster := ⟨∅, [], ∅, ∅, []⟩

end Cluster

/-- The claim of the volume is not in the cache, by its UID, or it is bound to another volume. -/
def Released (claims : ClaimCache) (volume : PersistentVolume) : Prop :=
  ∃ claimRef, volume.claimRef = some claimRef ∧ claimRef.uid ≠ "" ∧
    ∀ claim, Finmap.lookup (claimrefToClaimKey claimRef) claims = some claim →
      claim.uid = claimRef.uid → claim.volumeName ≠ "" ∧ claim.volumeName ≠ volume.name

/-- The volume that the operation has read is destroyed, its policy asks for that, and it is
released. -/
structure Destruction.Legitimate (entry : Destruction) : Prop where
  uid : entry.newVolume.uid = entry.target.uid
  policy : entry.newVolume.reclaimPolicy = entry.kind.policy
  released : Released entry.claims entry.newVolume

end Kubernetes.VolumeController
