import Kubernetes.Basic.Map

/-!
# The pod storage of the kubelet configuration

`Merge` takes a change from one of several sources, brings the pods stored for it up to date, and
sends what changed as updates of one kind each.  A stored pod is compared with the incoming one
without the annotations that the kubelet itself adds.

Pods are values.  A batch has at most one valid pod of a name, so the copy that is sent at the end
is the listed value.  The conversion and validation of pods and the decoding of init containers are
parameters.
-/

namespace Kubernetes.Kubelet.PodConfig

variable {Spec Status Meta : Type}

inductive PodOperation
  | set
  | add
  | delete
  | remove
  | update
  | reconcile
  deriving DecidableEq, Repr

/-- A pod with what the storage reads.  `objectMeta` are the other
metadata, which are never compared. -/
structure Pod (Spec Status Meta : Type) where
  name : String
  nameSpace : String
  annotations : Map String String := ∅
  labels : Option (Map String String) := none
  deletionTimestamp : Option ℤ := none
  deletionGracePeriodSeconds : Option ℤ := none
  spec : Spec
  status : Status
  objectMeta : Meta
  deriving DecidableEq

structure PodUpdate (Spec Status Meta : Type) where
  pods : List (Pod Spec Status Meta)
  op : PodOperation
  source : String

abbrev Pods (Spec Status Meta : Type) := Map String (Pod Spec Status Meta)

def getPodFullName (pod : Pod Spec Status Meta) : String := pod.name ++ "_" ++ pod.nameSpace

def configSourceAnnotationKey : String := "kubernetes.io/config.source"

def configMirrorAnnotationKey : String := "kubernetes.io/config.mirror"

def configFirstSeenAnnotationKey : String := "kubernetes.io/config.seen"

def apiserverSource : String := "api"

def localAnnotations : List String :=
  [configSourceAnnotationKey, configMirrorAnnotationKey, configFirstSeenAnnotationKey]

def isLocalAnnotationKey (key : String) : Bool := localAnnotations.any (key == ·)

/-- Except for local annotations, no entry of the candidate is missing or different, and no entry of
the existing map is stale. -/
def isAnnotationMapEqual (existingMap candidateMap : Map String String) : Bool :=
  decide (∀ key ∈ candidateMap.keys, isLocalAnnotationKey key = true ∨
    Finmap.lookup key existingMap = Finmap.lookup key candidateMap) &&
  decide (∀ key ∈ existingMap.keys, isLocalAnnotationKey key = true ∨ key ∈ candidateMap)

def recordFirstSeenTime (timestamp : String) (pod : Pod Spec Status Meta) : Pod Spec Status Meta :=
  { pod with annotations := pod.annotations.insert configFirstSeenAnnotationKey timestamp }

/-- The annotations of the incoming pod plus the local ones of the existing pod. -/
def updateAnnotations (existing ref : Pod Spec Status Meta) : Pod Spec Status Meta :=
  { existing with annotations := localAnnotations.foldl (fun annotations key ↦
      match existing.annotations.lookup key with
      | some value => annotations.insert key value
      | none => annotations) ref.annotations }

section Comparison

variable [DecidableEq Spec] [DecidableEq Status]

def podsDifferSemantically (existing ref : Pod Spec Status Meta) : Bool :=
  if existing.spec = ref.spec ∧ existing.labels = ref.labels ∧
      existing.deletionTimestamp = ref.deletionTimestamp ∧
      existing.deletionGracePeriodSeconds = ref.deletionGracePeriodSeconds ∧
      isAnnotationMapEqual existing.annotations ref.annotations = true then
    false
  else
    true

structure Needs where
  update : Bool := false
  reconcile : Bool := false
  gracefulDelete : Bool := false
  deriving DecidableEq, Repr

/-- The existing pod with what is taken over from the incoming one.  The first-seen time stays; a
missing one reads as the empty text. -/
def takeOver (existing ref : Pod Spec Status Meta) : Pod Spec Status Meta :=
  let ref := recordFirstSeenTime
    ((existing.annotations.lookup configFirstSeenAnnotationKey).getD "") ref
  updateAnnotations
    { existing with
      spec := ref.spec
      labels := ref.labels
      deletionTimestamp := ref.deletionTimestamp
      deletionGracePeriodSeconds := ref.deletionGracePeriodSeconds
      status := ref.status } ref

def checkAndUpdatePod (existing ref : Pod Spec Status Meta) : Pod Spec Status Meta × Needs :=
  if podsDifferSemantically existing ref = false then
    -- only the status is taken over, because the kubelet should be the source of truth of it
    if existing.status ≠ ref.status then
      ({ existing with status := ref.status }, { reconcile := true })
    else
      (existing, {})
  else if ref.deletionTimestamp.isSome then
    (takeOver existing ref, { gracefulDelete := true })
  else
    (takeOver existing ref, { update := true })

/-- Outside the storage: `SetInitContainersAndStatuses`, and whether a pod converts and passes
`ValidatePod`. -/
structure Decoding (Spec Status Meta : Type) where
  setInitContainersAndStatuses : Pod Spec Status Meta → Pod Spec Status Meta
  isValid : Pod Spec Status Meta → Bool

/-- The body of the loop of `filterInvalidPods`: the pods kept so far and their names. -/
def filterPod (isValid : Pod Spec Status Meta → Bool)
    (filtered : List (Pod Spec Status Meta) × Finset String) (pod : Pod Spec Status Meta) :
    List (Pod Spec Status Meta) × Finset String :=
  if isValid pod = false then
    filtered
  else if getPodFullName pod ∈ filtered.2 then
    filtered
  else
    (filtered.1 ++ [pod], insert (getPodFullName pod) filtered.2)

/-- The valid pods; of several with one full name only the first is kept. -/
def filterInvalidPods (isValid : Pod Spec Status Meta → Bool)
    (pods : List (Pod Spec Status Meta)) : List (Pod Spec Status Meta) :=
  (pods.foldl (filterPod isValid) ([], ∅)).1

structure Merging (Spec Status Meta : Type) where
  pods : Pods Spec Status Meta
  addPods : List (Pod Spec Status Meta) := []
  updatePods : List (Pod Spec Status Meta) := []
  deletePods : List (Pod Spec Status Meta) := []
  removePods : List (Pod Spec Status Meta) := []
  reconcilePods : List (Pod Spec Status Meta) := []

def Merging.list (merging : Merging Spec Status Meta) (existing : Pod Spec Status Meta)
    (needs : Needs) : Merging Spec Status Meta :=
  if needs.update = true then
    { merging with updatePods := merging.updatePods ++ [existing] }
  else if needs.reconcile = true then
    { merging with reconcilePods := merging.reconcilePods ++ [existing] }
  else if needs.gracefulDelete = true then
    { merging with deletePods := merging.deletePods ++ [existing] }
  else
    merging

def annotateSource (source : String) (ref : Pod Spec Status Meta) : Pod Spec Status Meta :=
  { ref with annotations := ref.annotations.insert configSourceAnnotationKey source }

/-- The body of the loop of `updatePodsFunc`.  `oldPods` is `none` where it is the same cache as
`pods`. -/
def updatePod (source : String) (timestamp : String → String)
    (oldPods : Option (Pods Spec Status Meta)) (merging : Merging Spec Status Meta)
    (ref : Pod Spec Status Meta) : Merging Spec Status Meta :=
  match (oldPods.getD merging.pods).lookup (getPodFullName ref) with
  | some existing =>
    let checked := checkAndUpdatePod existing (annotateSource source ref)
    { merging with pods := merging.pods.insert (getPodFullName ref) checked.1 }.list
      checked.1 checked.2
  | none =>
    let ref := recordFirstSeenTime (timestamp (getPodFullName ref)) (annotateSource source ref)
    { merging with
      pods := merging.pods.insert (getPodFullName ref) ref
      addPods := merging.addPods ++ [ref] }

def updatePodsFunc (isValid : Pod Spec Status Meta → Bool) (source : String)
    (timestamp : String → String) (newPods : List (Pod Spec Status Meta))
    (oldPods : Option (Pods Spec Status Meta)) (merging : Merging Spec Status Meta) :
    Merging Spec Status Meta :=
  (filterInvalidPods isValid newPods).foldl (updatePod source timestamp oldPods) merging

end Comparison

def removePod (merging : Merging Spec Status Meta) (pod : Pod Spec Status Meta) :
    Merging Spec Status Meta :=
  match merging.pods.lookup (getPodFullName pod) with
  | some existing =>
    { merging with
      pods := merging.pods.erase (getPodFullName pod)
      removePods := merging.removePods ++ [existing] }
  | none => merging

/-- The old pods that the new map lacks, in the order in which the loop visits the old map. -/
def removeStale (order : List String) (oldPods : Pods Spec Status Meta)
    (merging : Merging Spec Status Meta) : Merging Spec Status Meta :=
  { merging with
    removePods := merging.removePods ++
      (order.filter fun name ↦ name ∉ merging.pods).filterMap oldPods.lookup }

structure PodStorage (Spec Status Meta : Type) where
  /-- source, then pod full name -/
  pods : String → Pods Spec Status Meta
  sourcesSeen : Finset String

/-- A call of `Merge`, the time at which a pod of a name is first seen, and the order in which `SET`
visits the old pods. -/
structure MergeCall (Spec Status Meta : Type) where
  source : String
  change : PodUpdate Spec Status Meta
  timestamp : String → String
  order : List String

namespace PodStorage

variable [DecidableEq Spec] [DecidableEq Status]

def empty : PodStorage Spec Status Meta where
  pods _ := ∅
  sourcesSeen := ∅

section

variable (decoding : Decoding Spec Status Meta)

/-- The pods of the change, with the init containers decoded where they come from the API server. -/
def incoming (call : MergeCall Spec Status Meta) : List (Pod Spec Status Meta) :=
  if call.source = apiserverSource then
    call.change.pods.map decoding.setInitContainersAndStatuses
  else
    call.change.pods

section

variable (storage : PodStorage Spec Status Meta) (call : MergeCall Spec Status Meta)

def merging : Merging Spec Status Meta :=
  let pods := storage.pods call.source
  let newPods := incoming decoding call
  match call.change.op with
  | .add | .update | .delete =>
    updatePodsFunc decoding.isValid call.source call.timestamp newPods none { pods := pods }
  | .remove => newPods.foldl removePod { pods := pods }
  | .set =>
    removeStale call.order pods
      (updatePodsFunc decoding.isValid call.source call.timestamp newPods (some pods) { pods := ∅ })
  | .reconcile => { pods := pods }

def merged : PodStorage Spec Status Meta where
  pods := Function.update storage.pods call.source (merging decoding storage call).pods
  sourcesSeen :=
    if call.change.op = .set then insert call.source storage.sourcesSeen else storage.sourcesSeen

end

end

def sent (update : PodUpdate Spec Status Meta) : List (PodUpdate Spec Status Meta) :=
  if 0 < update.pods.length then [update] else []

def emitted (decoding : Decoding Spec Status Meta) (storage : PodStorage Spec Status Meta)
    (call : MergeCall Spec Status Meta) : List (PodUpdate Spec Status Meta) :=
  let found := merging decoding storage call
  let firstSet := decide (call.source ∉ storage.sourcesSeen) &&
    decide (call.source ∈ (merged decoding storage call).sourcesSeen)
  let adds : PodUpdate Spec Status Meta := ⟨found.addPods, .add, call.source⟩
  let updates : PodUpdate Spec Status Meta := ⟨found.updatePods, .update, call.source⟩
  let deletes : PodUpdate Spec Status Meta := ⟨found.deletePods, .delete, call.source⟩
  let removes : PodUpdate Spec Status Meta := ⟨found.removePods, .remove, call.source⟩
  let reconciles : PodUpdate Spec Status Meta := ⟨found.reconcilePods, .reconcile, call.source⟩
  sent removes ++ sent adds ++ sent updates ++ sent deletes ++
    -- an empty update tells the kubelet that the source is ready
    (if firstSet = true ∧ adds.pods.length = 0 ∧ updates.pods.length = 0 ∧
        deletes.pods.length = 0 then [adds] else []) ++
    sent reconciles

end PodStorage

end Kubernetes.Kubelet.PodConfig
