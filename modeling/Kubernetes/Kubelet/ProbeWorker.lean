import Kubernetes.Basic.Map
import Kubernetes.Basic.Text

/-!
# The workers of the prober

A worker probes one container of a pod at every tick.  A restarted container gets a new ID, and its
cached result starts from the initial value.  A result is recorded once the probe has given it often
enough in a row, and a container that fails its liveness probe is not probed until there is a new
one.  A panic of the prober ends a call like an error.
-/

namespace Kubernetes.Kubelet.Prober

structure ContainerID where
  type : String
  id : String
  deriving DecidableEq, Repr

def ContainerID.empty : ContainerID := ⟨"", ""⟩

def ContainerID.string (containerID : ContainerID) : String :=
  containerID.type ++ "://" ++ containerID.id

/-- Texts of another form give the empty ID. -/
def parseContainerID (data : String) : ContainerID :=
  match split (trim data "\"") "://" with
  | [type, id] => ⟨type, id⟩
  | _ => .empty

inductive Result
  | success
  | failure
  deriving DecidableEq, Repr

inductive ProbeType
  | liveness
  | readiness
  deriving DecidableEq, Repr

inductive PodPhase
  | pending
  | running
  | succeeded
  | failed
  | unknown
  deriving DecidableEq, Repr

inductive RestartPolicy
  | always
  | onFailure
  | never
  deriving DecidableEq, Repr

structure Probe where
  initialDelaySeconds : ℤ
  successThreshold : ℤ
  failureThreshold : ℤ
  deriving DecidableEq, Repr

def Probe.threshold (spec : Probe) : Result → ℤ
  | .success => spec.successThreshold
  | .failure => spec.failureThreshold

/-- The status of a container.  A running one has the seconds since its start. -/
structure ContainerStatus where
  name : String
  containerID : String
  running : Option ℤ
  terminated : Bool
  deriving DecidableEq, Repr

structure PodStatus where
  phase : PodPhase
  containerStatuses : List ContainerStatus
  deriving DecidableEq, Repr

def getContainerStatus (statuses : List ContainerStatus) (name : String) : Option ContainerStatus :=
  statuses.find? fun status ↦ decide (status.name = name)

structure Update where
  containerID : ContainerID
  result : Result
  podUID : String
  deriving DecidableEq, Repr

structure Manager where
  cache : Map ContainerID Result
  updates : List Update

def Manager.set (manager : Manager) (id : ContainerID) (result : Result) (podUID : String) :
    Manager :=
  if manager.cache.lookup id = some result then
    manager
  else
    ⟨manager.cache.insert id result, manager.updates ++ [⟨id, result, podUID⟩]⟩

def Manager.remove (manager : Manager) (id : ContainerID) : Manager :=
  { manager with cache := manager.cache.erase id }

structure Settings where
  podUID : String
  restartPolicy : RestartPolicy
  containerName : String
  spec : Probe
  probeType : ProbeType
  deriving DecidableEq, Repr

def Settings.initialValue (settings : Settings) : Result :=
  match settings.probeType with
  | .readiness => .failure
  | .liveness => .success

structure Worker where
  containerID : ContainerID
  lastResult : Result
  resultRun : ℕ
  onHold : Bool
  deriving DecidableEq, Repr

def newWorker : Worker := ⟨.empty, .failure, 0, false⟩

/-- What `doProbe` reads: the status of the pod, if any, and the answer of the prober, `none` for an
error. -/
structure Observation where
  status : Option PodStatus
  outcome : Option Result
  deriving DecidableEq, Repr

variable (settings : Settings)

section

variable (worker : Worker) (manager : Manager)

def adopt (containerID : String) : Worker × Manager :=
  if worker.containerID.string = containerID then
    (worker, manager)
  else
    let manager := if worker.containerID = .empty then manager
      else manager.remove worker.containerID
    let id := parseContainerID containerID
    ({ worker with containerID := id, onHold := false },
      manager.set id settings.initialValue settings.podUID)

/-- Whether the container of the status is probed.  The call ends here with `some keepGoing` if not.
-/
def examineContainer (c : ContainerStatus) : Manager × Option Bool :=
  if worker.onHold = true then
    (manager, some true)
  else
    match c.running with
    | none =>
      (if worker.containerID = .empty then manager
        else manager.set worker.containerID .failure settings.podUID,
        some (!c.terminated || decide (settings.restartPolicy ≠ .never)))
    | some seconds =>
      if seconds < settings.spec.initialDelaySeconds then (manager, some true) else (manager, none)

def examine (status : Option PodStatus) : Worker × Manager × Option Bool :=
  match status with
  | none => (worker, manager, some true)
  | some status =>
    if status.phase = .failed ∨ status.phase = .succeeded then
      (worker, manager, some false)
    else
      match getContainerStatus status.containerStatuses settings.containerName with
      | none => (worker, manager, some true)
      | some c =>
        if c.containerID = "" then
          (worker, manager, some true)
        else
          let adopted := adopt settings worker manager c.containerID
          (adopted.1, examineContainer settings adopted.1 adopted.2 c)

end

/-- The worker and the cache after a call, whether the worker continues, whether the probe was
completed, and whether it was recorded. -/
structure Call where
  worker : Worker
  manager : Manager
  keepGoing : Bool
  completed : Option (ContainerID × Result)
  recorded : Option (ContainerID × Result)

def Worker.count (worker : Worker) (result : Result) : Worker :=
  if worker.lastResult = result then
    { worker with resultRun := worker.resultRun + 1 }
  else
    { worker with lastResult := result, resultRun := 1 }

def recordResult (worker : Worker) (manager : Manager) (result : Result) : Call :=
  let worker := worker.count result
  let completed := some (worker.containerID, result)
  if result = .failure ∧ (worker.resultRun : ℤ) < settings.spec.failureThreshold ∨
      result = .success ∧ (worker.resultRun : ℤ) < settings.spec.successThreshold then
    ⟨worker, manager, true, completed, none⟩
  else
    ⟨if settings.probeType = .liveness ∧ result = .failure then { worker with onHold := true }
      else worker, manager.set worker.containerID result settings.podUID, true, completed,
      some (worker.containerID, result)⟩

def doProbe (worker : Worker) (manager : Manager) (observation : Observation) : Call :=
  match examine settings worker manager observation.status with
  | (worker, manager, some keepGoing) => ⟨worker, manager, keepGoing, none, none⟩
  | (worker, manager, none) =>
    match observation.outcome with
    | none => ⟨worker, manager, true, none, none⟩
    | some result => recordResult settings worker manager result

end Kubernetes.Kubelet.Prober
