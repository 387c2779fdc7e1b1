import Kubernetes.Kubelet.StatusManager
import Mathlib.Data.Multiset.Defs

/-!
# The containers of a terminated pod

`TerminatePod` is to mark all containers of a pod as terminated.  The fields of a status that the
status manager only passes on are one field here; those of a terminated container are `none` if they
are empty.  Times are in nanoseconds.
-/

namespace Kubernetes.Kubelet.Status

variable {UID Details Container : Type} [DecidableEq UID]

inductive ContainerState (Details : Type)
  | unset
  | waiting (details : Details)
  | running (startedAt : ℤ)
  | terminated (startedAt finishedAt : ℤ) (details : Option Details)
  deriving DecidableEq, Repr

structure ContainerStatus (Details : Type) where
  name : String
  state : ContainerState Details
  lastTerminationState : ContainerState Details
  details : Details
  deriving DecidableEq, Repr

structure PodCondition (Details : Type) where
  type : String
  status : String
  lastProbeTime : ℤ
  lastTransitionTime : ℤ
  details : Details
  deriving DecidableEq, Repr

structure PodStatus (Details : Type) where
  conditions : List (PodCondition Details)
  /-- `none` for a time that is not set or zero -/
  startTime : Option ℤ
  initContainerStatuses : List (ContainerStatus Details)
  containerStatuses : List (ContainerStatus Details)
  details : Details
  deriving DecidableEq, Repr

def rfc3339Copy (t : ℤ) : ℤ := t / 1000000000 * 1000000000

section Times

variable (f : ℤ → ℤ)

def ContainerState.mapTimes : ContainerState Details → ContainerState Details
  | .running startedAt => .running (f startedAt)
  | .terminated startedAt finishedAt details => .terminated (f startedAt) (f finishedAt) details
  | state => state

def ContainerStatus.mapTimes (status : ContainerStatus Details) : ContainerStatus Details :=
  { status with
    state := status.state.mapTimes f
    lastTerminationState := status.lastTerminationState.mapTimes f }

def PodCondition.mapTimes (condition : PodCondition Details) : PodCondition Details :=
  { condition with
    lastProbeTime := f condition.lastProbeTime
    lastTransitionTime := f condition.lastTransitionTime }

end Times

structure Sorting (Details : Type) where
  containers : ∀ statuses : List (ContainerStatus Details), { sorted // statuses.Perm sorted }
  initContainers : ∀ statuses : List (ContainerStatus Details), { sorted // statuses.Perm sorted }

variable (sorting : Sorting Details) (now : ℤ) (oldStatus status : PodStatus Details)

def normalizeStatus : PodStatus Details :=
  { status with
    startTime := status.startTime.map rfc3339Copy
    conditions := status.conditions.map (·.mapTimes rfc3339Copy)
    containerStatuses :=
      sorting.containers (status.containerStatuses.map (·.mapTimes rfc3339Copy))
    initContainerStatuses :=
      sorting.initContainers (status.initContainerStatuses.map (·.mapTimes rfc3339Copy)) }

/-- The first condition of the type keeps its transition time if its status is the old one. -/
def setTransitionTime (type : String) : PodStatus Details :=
  { status with
    conditions := status.conditions.modify (status.conditions.findIdx (·.type = type))
      fun condition ↦ { condition with
        lastTransitionTime := match oldStatus.conditions.find? (·.type = type) with
          | some old => if condition.status = old.status then old.lastTransitionTime else now
          | none => now } }

/-- The part of `updateStatusInternal` that sets and normalises times. -/
def completeStatus : PodStatus Details :=
  let status := setTransitionTime now oldStatus status "Ready"
  let status := setTransitionTime now oldStatus status "Initialized"
  normalizeStatus sorting
    { status with startTime := oldStatus.startTime <|> status.startTime <|> some now }

/-- A condition in seconds, without a transition time that every update sets. -/
def PodCondition.contents (condition : PodCondition Details) : PodCondition Details :=
  if condition.type = "Ready" ∨ condition.type = "Initialized" then
    { condition.mapTimes rfc3339Copy with lastTransitionTime := 0 }
  else condition.mapTimes rfc3339Copy

/-- A status without its start time, in seconds. -/
def PodStatus.contents :
    List (PodCondition Details) × Multiset (ContainerStatus Details) ×
      Multiset (ContainerStatus Details) × Details :=
  (status.conditions.map (·.contents),
    ↑(status.initContainerStatuses.map (·.mapTimes rfc3339Copy)),
    ↑(status.containerStatuses.map (·.mapTimes rfc3339Copy)), status.details)

@[simp]
theorem rfc3339Copy_rfc3339Copy (t : ℤ) : rfc3339Copy (rfc3339Copy t) = rfc3339Copy t := by
  simp [rfc3339Copy]

theorem ContainerState.mapTimes_mapTimes (state : ContainerState Details) :
    (state.mapTimes rfc3339Copy).mapTimes rfc3339Copy = state.mapTimes rfc3339Copy := by
  cases state <;> simp [mapTimes]

theorem map_mapTimes_mapTimes (statuses : List (ContainerStatus Details)) :
    (statuses.map (·.mapTimes rfc3339Copy)).map (·.mapTimes rfc3339Copy) =
      statuses.map (·.mapTimes rfc3339Copy) := by
  simp [ContainerStatus.mapTimes, ContainerState.mapTimes_mapTimes]

theorem PodCondition.contents_mapTimes (condition : PodCondition Details) :
    (condition.mapTimes rfc3339Copy).contents = condition.contents := by
  simp [contents, mapTimes]

theorem contents_normalizeStatus : (normalizeStatus sorting status).contents = status.contents := by
  have hctrs := (sorting.containers (status.containerStatuses.map
    (·.mapTimes rfc3339Copy))).2.map (·.mapTimes rfc3339Copy)
  have hinit := (sorting.initContainers (status.initContainerStatuses.map
    (·.mapTimes rfc3339Copy))).2.map (·.mapTimes rfc3339Copy)
  rw [map_mapTimes_mapTimes, ← Multiset.coe_eq_coe] at hctrs hinit
  rw [PodStatus.contents, normalizeStatus, ← hctrs, ← hinit, List.map_map]
  simp only [Function.comp_def, PodCondition.contents_mapTimes]
  rfl

theorem contents_setTransitionTime {type : String} (htype : type = "Ready" ∨ type = "Initialized") :
    (setTransitionTime now oldStatus status type).contents = status.contents := by
  have hconditions : (setTransitionTime now oldStatus status type).conditions.map
      (·.contents) = status.conditions.map (·.contents) := by
    apply List.ext_getElem?
    intro i
    simp only [setTransitionTime, List.getElem?_map, List.getElem?_modify]
    cases hcondition : status.conditions[i]? with
    | none => rfl
    | some condition =>
      split_ifs with hi
      · -- the condition that was found has the type
        obtain ⟨hlt, rfl⟩ := List.getElem?_eq_some_iff.mp hcondition
        subst hi
        have hfound := of_decide_eq_true (List.findIdx_getElem (w := hlt))
        simp [PodCondition.contents, PodCondition.mapTimes, hfound, htype]
      · rfl
  rw [PodStatus.contents, hconditions]
  rfl

theorem contents_completeStatus :
    (completeStatus sorting now oldStatus status).contents = status.contents := by
  rw [completeStatus, contents_normalizeStatus]
  exact (contents_setTransitionTime _ _ _ (.inr rfl)).trans
    (contents_setTransitionTime _ _ _ (.inl rfl))

def PodStatus.terminated : PodStatus Details :=
  { status with
    containerStatuses := status.containerStatuses.map ({ · with state := .terminated 0 0 none })
    initContainerStatuses :=
      status.initContainerStatuses.map ({ · with state := .terminated 0 0 none }) }

variable (manager : Manager UID (PodStatus Details)) (pod : Pod UID (PodStatus Details))

def Manager.lastStatus : PodStatus Details :=
  ((manager.podStatuses.lookup pod.uid).map (·.status)).getD pod.status

/-- The containers are marked as terminated in the cache, and an update is queued, or left for
`syncBatch` if the channel is full. -/
def MarksTerminated (after : Manager UID (PodStatus Details)) : Prop :=
  ∃ newStatus, after.podStatuses.lookup pod.uid = some newStatus ∧
    newStatus.status.contents = (manager.lastStatus pod).terminated.contents ∧
    (after.podStatusChannel = manager.podStatusChannel ++ [⟨pod.uid, newStatus⟩] ∨
      podStatusChannelSize ≤ manager.podStatusChannel.length)

theorem enqueue_queues (newStatus : VersionedPodStatus (PodStatus Details)) :
    MarksTerminated manager pod (manager.enqueue pod.uid newStatus).1 ↔
      newStatus.status.contents = (manager.lastStatus pod).terminated.contents := by
  unfold Manager.enqueue MarksTerminated
  split_ifs with hroom
  · simp
  · simp [not_lt.mp hroom]

/-- The containers are marked exactly if the pod's own status is already the one that is to be
cached. -/
theorem terminatePod_marks_iff (contents : StatusContents UID (PodStatus Details) Container)
    (mirrorStatus : Option (PodStatus Details)) :
    MarksTerminated manager pod (manager.terminatePod
        { contents with complete := completeStatus sorting } now mirrorStatus pod) ↔
      pod.status.contents = (manager.lastStatus pod).terminated.contents := by
  unfold Manager.terminatePod Manager.updateStatusInternal
  cases manager.podStatuses.lookup pod.uid with
  | none => rw [enqueue_queues, contents_completeStatus]
  | some cachedStatus =>
    -- the update is forced, so that an equal status is cached as well
    dsimp only
    rw [if_neg (by simp), enqueue_queues, contents_completeStatus]

def samplePod : Pod ℕ (PodStatus Unit) where
  uid := 1
  status := ⟨[], some 0, [], [⟨"c", .running 5, .unset, ()⟩], ()⟩
  deletionTimestamp := some 9

/-- A pod with a running container is terminated, and the container runs on in the cache. -/
theorem terminated_container_running :
    (((⟨∅, [], ∅⟩ : Manager ℕ (PodStatus Unit)).terminatePod
        { isStatusEqual := fun _ _ ↦ false
          complete := completeStatus ⟨fun l ↦ ⟨l, .refl l⟩, fun l ↦ ⟨l, .refl l⟩⟩
          setReadiness := fun _ _ (_ : Unit) _ ↦ none } 7 none samplePod).podStatuses.lookup 1).map
        (·.status.containerStatuses) = some [⟨"c", .running 0, .unset, ()⟩] ∧
      samplePod.status.contents ≠ samplePod.status.terminated.contents := by
  decide +kernel

end Kubernetes.Kubelet.Status
