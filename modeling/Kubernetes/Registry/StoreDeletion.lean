import Kubernetes.Basic.MachineInt
import Kubernetes.Basic.Map

/-!
# Deletion in the generic store

`Delete` reads the object, updates it, if the deletion is graceful or finalizers are concerned, and
removes it from the storage, unless the update shows that it has to stay.  `Update` removes an
object as well, when the new object has no finalizers and the grace period is over.  In both calls
the decision is taken in one request to the storage and carried out in a later one, which checks at
most the UID.

Times are in nanoseconds, and the storage keeps their whole seconds.  The requests to it are atomic,
and other clients' requests come between those of a call.  The strategy of a resource is a
parameter.  For every removal the log has the version that was stored when the call decided.
-/

namespace Kubernetes.Registry.Generic

/-- An object.  The resource version of a stored object is the revision of its last write. -/
structure Object (Extra : Type*) where
  uid : String
  resourceVersion : ℕ
  finalizers : List String
  deletionTimestamp : Option ℤ
  deletionGracePeriodSeconds : Option ℤ
  generation : ℤ
  extra : Extra
  deriving DecidableEq

structure DeleteOptions where
  gracePeriodSeconds : Option ℤ
  uidPrecondition : Option String
  orphanDependents : Option Bool
  deriving DecidableEq

/-- The store of a resource with its strategies.  Without `checkGracefulDelete` there is no graceful
deletion. -/
structure Store (Extra : Type*) where
  enableGarbageCollection : Bool
  repairMalformedUpdates : Bool
  newExtra : Extra
  checkGracefulDelete : Option (Object Extra → DeleteOptions → Bool × DeleteOptions)
  orphanByDefault : Bool
  allowCreateOnUpdate : Bool
  allowUnconditionalUpdate : Bool
  prepareForCreate : Object Extra → Object Extra
  validate : Object Extra → Bool
  prepareForUpdate : Object Extra → Object Extra → Object Extra
  validateUpdate : Object Extra → Object Extra → Bool
  canonicalize : Object Extra → Object Extra

variable {Extra : Type*}

/-! ## Before a request -/

inductive BeforeDeleteError
  | uidConflict
  /-- The strategy asks for a graceful deletion without a grace period. -/
  | nilGracePeriod
  deriving DecidableEq

structure BeforeDelete (Extra : Type*) where
  graceful : Bool
  gracefulPending : Bool
  obj : Object Extra
  options : DeleteOptions

def second : ℤ := 1000000000

/-- `time.Second * time.Duration(seconds)`. -/
def duration (seconds : ℤ) : ℤ := int64 (second * seconds)

def beforeDelete (e : Store Extra) (now : ℤ) (obj : Object Extra) (options : DeleteOptions) :
    Except BeforeDeleteError (BeforeDelete Extra) :=
  if options.uidPrecondition.any (· ≠ obj.uid) then .error .uidConflict
  else
    match e.checkGracefulDelete with
    | none => .ok ⟨false, false, obj, options⟩
    | some check =>
      match obj.deletionTimestamp with
      | some timestamp =>
        match obj.deletionGracePeriodSeconds with
        | none => .ok ⟨false, false, obj, options⟩
        | some seconds =>
          if seconds = 0 then .ok ⟨false, false, obj, options⟩
          else
            match options.gracePeriodSeconds with
            | some period =>
              if seconds ≤ period then .ok ⟨false, true, obj, options⟩
              else
                .ok ⟨true, false, { obj with
                  deletionTimestamp := some (timestamp + duration (-seconds) + duration period)
                  deletionGracePeriodSeconds := some period }, options⟩
            | none => .ok ⟨false, true, obj, { options with gracePeriodSeconds := some seconds }⟩
      | none =>
        let (graceful, options) := check obj options
        if graceful then
          match options.gracePeriodSeconds with
          | none => .error .nilGracePeriod
          | some period =>
            .ok ⟨true, false, { obj with
              deletionTimestamp := some (now + duration period)
              deletionGracePeriodSeconds := some period
              generation := if 0 < obj.generation then obj.generation + 1 else obj.generation },
              options⟩
        else .ok ⟨false, false, obj, options⟩

def beforeCreate (e : Store Extra) (uid : String) (obj : Object Extra) : Option (Object Extra) :=
  let obj := e.prepareForCreate
    { obj with deletionTimestamp := none, deletionGracePeriodSeconds := none }
  let obj := { obj with uid := uid }
  if e.validate obj then some (e.canonicalize obj) else none

/-- `ValidateObjectMetaUpdate` repairs some fields of the new object. -/
def repairMeta (e : Store Extra) (obj old : Object Extra) : Object Extra :=
  if e.repairMalformedUpdates then
    { obj with
      uid := if obj.uid = "" then old.uid else obj.uid
      deletionTimestamp :=
        if old.deletionTimestamp.isSome then old.deletionTimestamp else obj.deletionTimestamp
      deletionGracePeriodSeconds :=
        if old.deletionGracePeriodSeconds.isSome ∧ obj.deletionGracePeriodSeconds.isNone then
          old.deletionGracePeriodSeconds
        else obj.deletionGracePeriodSeconds }
  else obj

def validObjectMetaUpdate (obj old : Object Extra) : Bool :=
  obj.uid = old.uid &&
    (obj.deletionGracePeriodSeconds.isNone ||
      obj.deletionGracePeriodSeconds = old.deletionGracePeriodSeconds) &&
    (obj.deletionTimestamp.isNone || obj.deletionTimestamp = old.deletionTimestamp) &&
    (old.deletionTimestamp.isNone || obj.finalizers.all (· ∈ old.finalizers)) &&
    obj.resourceVersion ≠ 0 && old.generation ≤ obj.generation

def beforeUpdate (e : Store Extra) (obj old : Object Extra) : Option (Object Extra) :=
  let obj := e.prepareForUpdate { obj with generation := old.generation } old
  let obj := repairMeta e obj old
  if validObjectMetaUpdate obj old && e.validateUpdate obj old then some (e.canonicalize obj)
  else none

def finalizerOrphan : String := "orphan"

def shouldUpdateFinalizers (e : Store Extra) (finalizers : List String) (options : DeleteOptions) :
    Bool × List String :=
  let hasOrphanFinalizer := finalizers.any (· = finalizerOrphan)
  let shouldOrphan := options.orphanDependents.getD (e.orphanByDefault || hasOrphanFinalizer)
  if shouldOrphan && !hasOrphanFinalizer then (true, finalizers ++ [finalizerOrphan])
  else if !shouldOrphan && hasOrphanFinalizer then
    (true, finalizers.filter (· ≠ finalizerOrphan))
  else (false, finalizers)

/-- The orphan finalizer is added or removed as the options dictate. -/
def setFinalizers (e : Store Extra) (obj : Object Extra) (options : DeleteOptions) : Object Extra :=
  let (shouldUpdate, newFinalizers) := shouldUpdateFinalizers e obj.finalizers options
  { obj with finalizers := if shouldUpdate then newFinalizers else obj.finalizers }

def markAsDeleting (now : ℤ) (obj : Object Extra) : Object Extra :=
  { obj with
    generation :=
      if obj.deletionTimestamp.isNone ∧ 0 < obj.generation then obj.generation + 1
      else obj.generation
    deletionTimestamp := some now
    deletionGracePeriodSeconds := some 0 }

def shouldDelete (e : Store Extra) (obj existing : Object Extra) : Bool :=
  e.enableGarbageCollection && obj.finalizers.isEmpty &&
    existing.deletionGracePeriodSeconds = some 0

structure Storage (Extra : Type*) where
  stored : Option (Object Extra)
  revision : ℕ

inductive UpdateError (Extra : Type*)
  | alreadyDeleting
  | deleteNow (options : DeleteOptions)
  | emptiedFinalizers (deleteObj : Object Extra)
  | failed

def Object.encode (obj : Object Extra) (version : ℕ) : Object Extra :=
  { obj with
    resourceVersion := version
    deletionTimestamp := obj.deletionTimestamp.map fun time ↦ second * (time / second) }

namespace Storage

def write (storage : Storage Extra) (obj : Object Extra) : Storage Extra :=
  ⟨some (obj.encode (storage.revision + 1)), storage.revision + 1⟩

def existing (storage : Storage Extra) (notFound : Option (Object Extra)) : Option (Object Extra) :=
  storage.stored.or notFound

/-- The function also computes what it assigns to variables.  Nothing is written if the object is
the stored one. -/
def guaranteedUpdate [DecidableEq Extra] {Assigned : Type*} (storage : Storage Extra)
    (notFound : Option (Object Extra)) (uidPrecondition : Option String)
    (tryUpdate : Object Extra → Except (UpdateError Extra) (Object Extra × Assigned)) :
    Except (UpdateError Extra) (Storage Extra × Assigned) :=
  match storage.existing notFound with
  | none => .error .failed
  | some existing =>
    if uidPrecondition.any (· ≠ existing.uid) then .error .failed
    else
      match tryUpdate existing with
      | .error err => .error err
      | .ok (obj, assigned) =>
        if storage.stored = some (obj.encode existing.resourceVersion) then
          .ok (storage, assigned)
        else .ok (storage.write obj, assigned)

/-- `Storage.Delete`: the storage afterwards and the object that was removed. -/
def delete (storage : Storage Extra) (uidPrecondition : Option String) :
    Option (Storage Extra × Object Extra) :=
  match storage.stored with
  | none => none
  | some obj =>
    if uidPrecondition.any (· ≠ obj.uid) then none
    else some (⟨none, storage.revision + 1⟩, obj)

end Storage

structure DeletionAssigned where
  pendingFinalizers : Bool
  lastGraceful : ℤ
  options : DeleteOptions

section

variable (e : Store Extra) (now : ℤ) (options : DeleteOptions) (existing : Object Extra)

/-- In `updateForGracefulDeletion`. -/
def gracefulDeletion : Except (UpdateError Extra) (Object Extra × DeletionAssigned) :=
  match beforeDelete e now existing options with
  | .error _ => .error .failed
  | .ok before =>
    if before.gracefulPending then .error .alreadyDeleting
    else if !before.graceful then .error (.deleteNow before.options)
    else .ok (before.obj, ⟨false, before.options.gracePeriodSeconds.getD 0, before.options⟩)

/-- In `updateForGracefulDeletionAndFinalizers`. -/
def gracefulDeletionAndFinalizers : Except (UpdateError Extra) (Object Extra × DeletionAssigned) :=
  match beforeDelete e now existing options with
  | .error _ => .error .failed
  | .ok before =>
    if before.gracefulPending then .error .alreadyDeleting
    else
      let obj := setFinalizers e before.obj before.options
      let pendingFinalizers := !obj.finalizers.isEmpty
      if !before.graceful then
        if pendingFinalizers then .ok (markAsDeleting now obj, ⟨true, 0, before.options⟩)
        else .error (.deleteNow before.options)
      else
        .ok (obj, ⟨pendingFinalizers, before.options.gracePeriodSeconds.getD 0, before.options⟩)

end

structure ObjectInfo (Extra : Type*) where
  uidPrecondition : Option String
  updatedObject : Object Extra → Option (Object Extra)

def checkVersion (e : Store Extra) (obj : Object Extra) (version : ℕ) : Option (Object Extra) :=
  if obj.resourceVersion = 0 ∧ e.allowUnconditionalUpdate then
    some { obj with resourceVersion := version }
  else if obj.resourceVersion = 0 then none
  else if obj.resourceVersion ≠ version then none
  else some obj

/-- In `Update`. -/
def updateObject (e : Store Extra) (uid : String) (objInfo : ObjectInfo Extra)
    (existing : Object Extra) : Except (UpdateError Extra) (Object Extra × Unit) :=
  match objInfo.updatedObject existing with
  | none => .error .failed
  | some obj =>
    if existing.resourceVersion = 0 then
      if e.allowCreateOnUpdate then
        match beforeCreate e uid obj with
        | none => .error .failed
        | some obj => .ok (obj, ())
      else .error .failed
    else
      match checkVersion e obj existing.resourceVersion with
      | none => .error .failed
      | some obj =>
        match beforeUpdate e obj existing with
        | none => .error .failed
        | some obj =>
          if shouldDelete e obj existing then .error (.emptiedFinalizers obj) else .ok (obj, ())

/-! ## Calls -/

/-- Why a call removes the object: a deletion with its options, or an update to an object. -/
inductive Request (Extra : Type*)
  | delete (options : DeleteOptions)
  | update (deleteObj : Object Extra)

/-- The version that is stored when a call decides to remove the object. -/
structure Decision (Extra : Type*) where
  request : Request Extra
  uidPrecondition : Option String
  observed : Object Extra
  decidedAt : ℕ

inductive Call (Extra : Type*)
  | updating (options : DeleteOptions) (uidPrecondition : Option String)
  | removing (decision : Decision Extra)

structure Removal (Extra : Type*) where
  decision : Decision Extra
  removed : Object Extra
  removedAt : ℕ

structure System (Extra : Type*) where
  storage : Storage Extra
  calls : Map ℕ (Call Extra)
  usedUIDs : List String
  removals : List (Removal Extra)

namespace System

def setCall (s : System Extra) (id : ℕ) (call : Option (Call Extra)) : System Extra :=
  { s with
    calls :=
      match call with
      | none => s.calls.erase id
      | some call => s.calls.insert id call }

def toRemoval (storage : Storage Extra) (request : Request Extra) (uidPrecondition : Option String) :
    Option (Call Extra) :=
  storage.stored.map fun observed ↦
    .removing ⟨request, uidPrecondition, observed, storage.revision⟩

/-- `Delete` up to its second request. -/
def startDelete (e : Store Extra) (now : ℤ) (options : Option DeleteOptions)
    (storage : Storage Extra) : Option (Call Extra) :=
  match storage.stored with
  | none => none
  | some obj =>
    let options := options.getD ⟨some 0, none, none⟩
    let uidPrecondition := options.uidPrecondition
    match beforeDelete e now obj options with
    | .error _ => none
    | .ok before =>
      if before.gracefulPending then none
      else
        let pendingFinalizers := !before.obj.finalizers.isEmpty
        let update :=
          if e.enableGarbageCollection then
            before.graceful || pendingFinalizers ||
              (shouldUpdateFinalizers e before.obj.finalizers before.options).1
          else before.graceful
        if update then some (.updating before.options uidPrecondition)
        else toRemoval storage (.delete before.options) uidPrecondition

/-- `updateForGracefulDeletion` or `updateForGracefulDeletionAndFinalizers`: the storage afterwards
and what the call does next. -/
def updateForDeletion [DecidableEq Extra] (e : Store Extra) (now : ℤ) (options : DeleteOptions)
    (uidPrecondition : Option String) (storage : Storage Extra) :
    Storage Extra × Option (Call Extra) :=
  let tryUpdate :=
    if e.enableGarbageCollection then gracefulDeletionAndFinalizers e now options
    else gracefulDeletion e now options
  match storage.guaranteedUpdate none uidPrecondition tryUpdate with
  | .ok (next, assigned) =>
    if assigned.pendingFinalizers then (next, none)
    else if 0 < assigned.lastGraceful then (next, none)
    else (next, toRemoval next (.delete assigned.options) uidPrecondition)
  | .error (.deleteNow options) => (storage, toRemoval storage (.delete options) uidPrecondition)
  | .error _ => (storage, none)

/-- `Update` up to `deleteForEmptyFinalizers`. -/
def startUpdate [DecidableEq Extra] (e : Store Extra) (uid : String) (objInfo : ObjectInfo Extra)
    (storage : Storage Extra) : Storage Extra × Option (Call Extra) :=
  let newObject : Object Extra := ⟨"", 0, [], none, none, 0, e.newExtra⟩
  match storage.guaranteedUpdate (some newObject) objInfo.uidPrecondition
    (updateObject e uid objInfo) with
  | .ok (next, _) => (next, none)
  | .error (.emptiedFinalizers deleteObj) =>
    (storage, toRemoval storage (.update deleteObj) objInfo.uidPrecondition)
  | .error _ => (storage, none)

/-- The removal from the storage, in `Delete` and in `deleteForEmptyFinalizers`. -/
def remove (s : System Extra) (id : ℕ) (decision : Decision Extra) : System Extra :=
  match s.storage.delete decision.uidPrecondition with
  | none => s.setCall id none
  | some (next, removed) =>
    let logged : System Extra := { s with
      storage := next
      removals := s.removals ++ [⟨decision, removed, s.storage.revision⟩] }
    logged.setCall id none

inductive Label (Extra : Type*)
  | delete (id : ℕ) (now : ℤ) (options : Option DeleteOptions)
  | update (id : ℕ) (uid : String) (objInfo : ObjectInfo Extra)
  | create (uid : String) (obj : Object Extra)
  | advance (id : ℕ) (now : ℤ)

/-- One request to the storage.  The UID of a created object is new. -/
def exec [DecidableEq Extra] (e : Store Extra) (s : System Extra) :
    Label Extra → Option (System Extra)
  | .delete id now options =>
    match Finmap.lookup id s.calls with
    | some _ => none
    | none => some (s.setCall id (startDelete e now options s.storage))
  | .update id uid objInfo =>
    match Finmap.lookup id s.calls with
    | some _ => none
    | none =>
      if uid ∈ s.usedUIDs then none
      else
        let (storage, call) := startUpdate e uid objInfo s.storage
        some ({ s with storage := storage, usedUIDs := uid :: s.usedUIDs }.setCall id call)
  | .create uid obj =>
    if uid ∈ s.usedUIDs then none
    else
      match s.storage.stored, beforeCreate e uid obj with
      | none, some obj =>
        some { s with storage := s.storage.write obj, usedUIDs := uid :: s.usedUIDs }
      | _, _ => none
  | .advance id now =>
    match Finmap.lookup id s.calls with
    | none => none
    | some (.updating options uidPrecondition) =>
      let (storage, call) := updateForDeletion e now options uidPrecondition s.storage
      some ({ s with storage := storage }.setCall id call)
    | some (.removing decision) => some (s.remove id decision)

def Step [DecidableEq Extra] (e : Store Extra) (s : System Extra) (label : Label Extra)
    (next : System Extra) : Prop :=
  exec e s label = some next

def Initial (s : System Extra) : Prop := s.calls = ∅ ∧ s.removals = []

end System

end Kubernetes.Registry.Generic
