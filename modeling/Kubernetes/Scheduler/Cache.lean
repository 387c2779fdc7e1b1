import Kubernetes.Basic.Map
import Kubernetes.Basic.Transition
import Kubernetes.Scheduler.NodeInfo

/-!
# The scheduler cache

The cache collects the pods and nodes that the scheduler knows of, including the pods it assumes to
be on a node because it has sent a binding.  An assumed pod is confirmed by `AddPod`, forgotten by
`ForgetPod`, or expires some time after its binding has finished.

Every call holds the lock.  It returns a new cache and possibly an error, or it ends the program:
some calls dereference a nil pointer, and `glog.Fatalf` exits.  The loop over the assumed pods takes
its order as an argument.  The field `created` counts the entries of nodes that were created.
-/

namespace Kubernetes.Scheduler

structure PodState (Qty : Type*) where
  pod : Pod Qty
  deadline : Option ℤ
  bindingFinished : Bool

structure Cache (Qty : Type*) where
  ttl : ℤ
  assumedPods : Finset String
  podStates : Map String (PodState Qty)
  nodes : Map String (NodeInfo Qty)
  created : ℕ

inductive CacheError
  | notInitial (key : String)
  | assumedElsewhere (key : String)
  | notAssumed (key : String)
  | alreadyAdded (key : String)
  | notAddedUpdated (key : String)
  | notAddedRemoved (key : String)
  | noCorrespondingPod (err : NoCorrespondingPod)
  deriving DecidableEq, Repr

def CacheError.text : CacheError → String
  | .notInitial key => "pod " ++ key ++ " state wasn't initial but get assumed"
  | .assumedElsewhere key => "pod " ++ key ++ " state was assumed on a different node"
  | .notAssumed key => "pod " ++ key ++ " state wasn't assumed but get forgotten"
  | .alreadyAdded key => "pod was already in added state. Pod key: " ++ key
  | .notAddedUpdated key => "pod " ++ key ++ " state wasn't added but get updated"
  | .notAddedRemoved key => "pod state wasn't added but get removed. Pod key: " ++ key
  | .noCorrespondingPod err =>
    "no corresponding pod " ++ err.podName ++ " in pods of node " ++ err.nodeName

def corruptedMessage : String :=
  "Schedulercache is corrupted and can badly affect scheduling decisions"

variable {Qty : Type*}

/-- The result of a call: a new cache with an error if the call failed, or a crash. -/
abbrev CallResult (Qty : Type*) := Except Crash (Cache Qty × Option CacheError)

def newSchedulerCache (Qty : Type*) (ttl : ℤ) : Cache Qty := ⟨ttl, ∅, ∅, ∅, 0⟩

namespace Cache

def podsOf (cache : Cache Qty) (name : String) : List (Pod Qty) :=
  (cache.nodes.lookup name).elim [] NodeInfo.pods

/-- The entry of a node, which is created if there is none. -/
def getOrCreate (cache : Cache Qty) (name : String) : NodeInfo Qty × ℕ :=
  match cache.nodes.lookup name with
  | some n => (n, cache.created)
  | none => (NodeInfo.new cache.created, cache.created + 1)

def finishBinding (cache : Cache Qty) (pod : Pod Qty) (now : ℤ) : CallResult Qty :=
  let key := getPodKey pod
  match cache.podStates.lookup key with
  | some currState =>
    if key ∈ cache.assumedPods then
      .ok ({ cache with
        podStates := cache.podStates.insert key
          { currState with bindingFinished := true, deadline := some (now + cache.ttl) } }, none)
    else .ok (cache, none)
  | none => .ok (cache, none)

/-- `RemoveNode`.  The entry stays as long as it lists pods. -/
def removeNode (cache : Cache Qty) (node : Node Qty) : CallResult Qty :=
  match cache.nodes.lookup node.name with
  | none => .error .nilPointer
  | some n =>
    let n := n.removeNode
    if n.pods.isEmpty ∧ n.node.isNone then
      .ok ({ cache with nodes := cache.nodes.erase node.name }, none)
    else .ok ({ cache with nodes := cache.nodes.insert node.name n }, none)

variable [QuantityValue Qty]

section

variable (cache : Cache Qty)

def addPodLocked (pod : Pod Qty) : Cache Qty :=
  let (n, created) := cache.getOrCreate pod.nodeName
  { cache with
    nodes := cache.nodes.insert pod.nodeName (n.addPod pod)
    created := created }

def removePodLocked (pod : Pod Qty) : CallResult Qty :=
  match cache.nodes.lookup pod.nodeName with
  | none => .error .nilPointer
  | some n =>
    match n.removePod pod with
    | .error crash => .error crash
    | .ok (n, some err) =>
      .ok ({ cache with nodes := cache.nodes.insert pod.nodeName n },
        some (.noCorrespondingPod err))
    | .ok (n, none) =>
      if n.pods.isEmpty ∧ n.node.isNone then
        .ok ({ cache with nodes := cache.nodes.erase pod.nodeName }, none)
      else .ok ({ cache with nodes := cache.nodes.insert pod.nodeName n }, none)

def updatePodLocked (oldPod newPod : Pod Qty) : CallResult Qty :=
  match cache.removePodLocked oldPod with
  | .ok (cache, none) => .ok (cache.addPodLocked newPod, none)
  | failed => failed

def assumePod (pod : Pod Qty) : CallResult Qty :=
  let key := getPodKey pod
  match cache.podStates.lookup key with
  | some _ => .ok (cache, some (.notInitial key))
  | none =>
    let cache := cache.addPodLocked pod
    .ok ({ cache with
      podStates := cache.podStates.insert key ⟨pod, none, false⟩
      assumedPods := insert key cache.assumedPods }, none)

/-- `ForgetPod`.  The node of the pod is compared before it is clear that the cache knows the
pod. -/
def forgetPod (pod : Pod Qty) : CallResult Qty :=
  let key := getPodKey pod
  match cache.podStates.lookup key with
  | none => .error .nilPointer
  | some currState =>
    if currState.pod.nodeName ≠ pod.nodeName then .ok (cache, some (.assumedElsewhere key))
    else if key ∈ cache.assumedPods then
      match cache.removePodLocked pod with
      | .ok (cache, none) =>
        .ok ({ cache with
          assumedPods := cache.assumedPods.erase key
          podStates := cache.podStates.erase key }, none)
      | failed => failed
    else .ok (cache, some (.notAssumed key))

/-- `AddPod` moves an assumed pod to the node it was added to.  An error of the removal is ignored.
-/
def moveAssumed (assumed pod : Pod Qty) : Except Crash (Cache Qty) :=
  if assumed.nodeName ≠ pod.nodeName then
    match cache.removePodLocked assumed with
    | .ok (cache, _) => .ok (cache.addPodLocked pod)
    | .error crash => .error crash
  else .ok cache

def addPod (pod : Pod Qty) : CallResult Qty :=
  let key := getPodKey pod
  match cache.podStates.lookup key with
  | some currState =>
    if key ∈ cache.assumedPods then
      match cache.moveAssumed currState.pod pod with
      | .ok cache =>
        .ok ({ cache with
          assumedPods := cache.assumedPods.erase key
          podStates := cache.podStates.insert key { currState with deadline := none } }, none)
      | .error crash => .error crash
    else .ok (cache, some (.alreadyAdded key))
  | none =>
    let cache := cache.addPodLocked pod
    .ok ({ cache with podStates := cache.podStates.insert key ⟨pod, none, false⟩ }, none)

def updatePod (oldPod newPod : Pod Qty) : CallResult Qty :=
  let key := getPodKey oldPod
  match cache.podStates.lookup key with
  | some currState =>
    if key ∈ cache.assumedPods then .ok (cache, some (.notAddedUpdated key))
    else if currState.pod.nodeName ≠ newPod.nodeName then .error (.fatal corruptedMessage)
    else cache.updatePodLocked oldPod newPod
  | none => .ok (cache, some (.notAddedUpdated key))

def removePod (pod : Pod Qty) : CallResult Qty :=
  let key := getPodKey pod
  match cache.podStates.lookup key with
  | some currState =>
    if key ∈ cache.assumedPods then .ok (cache, some (.notAddedRemoved key))
    else if currState.pod.nodeName ≠ pod.nodeName then .error (.fatal corruptedMessage)
    else
      match cache.removePodLocked currState.pod with
      | .ok (cache, none) =>
        .ok ({ cache with podStates := cache.podStates.erase key }, none)
      | failed => failed
  | none => .ok (cache, some (.notAddedRemoved key))

def expirePod (key : String) (ps : PodState Qty) : CallResult Qty :=
  match cache.removePodLocked ps.pod with
  | .ok (cache, none) =>
    .ok ({ cache with
      assumedPods := cache.assumedPods.erase key
      podStates := cache.podStates.erase key }, none)
  | failed => failed

def cleanupAssumedPod (now : ℤ) (key : String) : Except Crash (Cache Qty) :=
  match cache.podStates.lookup key with
  | none =>
    .error (.panicked "Key found in assumed set but not in podStates. Potentially a logical error.")
  | some ps =>
    if ps.bindingFinished = false then .ok cache
    else
      match ps.deadline with
      | none => .error .nilPointer
      | some deadline =>
        if deadline < now then (cache.expirePod key ps).map Prod.fst else .ok cache

end

/-- `cleanupAssumedPods` at time `now`.  Errors are only logged. -/
def cleanupAssumedPods (cache : Cache Qty) (now : ℤ) :
    List String → Except Crash (Cache Qty)
  | [] => .ok cache
  | key :: rest =>
    match cache.cleanupAssumedPod now key with
    | .ok cache => cache.cleanupAssumedPods now rest
    | .error crash => .error crash

def setNode (cache : Cache Qty) (node : Node Qty) : Cache Qty :=
  let (n, created) := cache.getOrCreate node.name
  { cache with
    nodes := cache.nodes.insert node.name (n.setNode node)
    created := created }

def addNode (cache : Cache Qty) (node : Node Qty) : CallResult Qty :=
  .ok (cache.setNode node, none)

def updateNode (cache : Cache Qty) (_oldNode newNode : Node Qty) : CallResult Qty :=
  .ok (cache.setNode newNode, none)

end Cache

inductive Operation (Qty : Type*)
  | assumePod (pod : Pod Qty)
  | finishBinding (pod : Pod Qty) (now : ℤ)
  | forgetPod (pod : Pod Qty)
  | addPod (pod : Pod Qty)
  | updatePod (oldPod newPod : Pod Qty)
  | removePod (pod : Pod Qty)
  | cleanupAssumedPods (now : ℤ) (order : List String)
  | addNode (node : Node Qty)
  | updateNode (oldNode newNode : Node Qty)
  | removeNode (node : Node Qty)

variable [QuantityValue Qty]

def Cache.apply (cache : Cache Qty) : Operation Qty → CallResult Qty
  | .assumePod pod => cache.assumePod pod
  | .finishBinding pod now => cache.finishBinding pod now
  | .forgetPod pod => cache.forgetPod pod
  | .addPod pod => cache.addPod pod
  | .updatePod oldPod newPod => cache.updatePod oldPod newPod
  | .removePod pod => cache.removePod pod
  | .cleanupAssumedPods now order => (cache.cleanupAssumedPods now order).map fun cache ↦ (cache, none)
  | .addNode node => cache.addNode node
  | .updateNode oldNode newNode => cache.updateNode oldNode newNode
  | .removeNode node => cache.removeNode node

/-- The order of a loop over the assumed pods visits each of them once. -/
def Operation.OrderOf (cache : Cache Qty) : Operation Qty → Prop
  | .cleanupAssumedPods _ order => order.Nodup ∧ ∀ key, key ∈ order ↔ key ∈ cache.assumedPods
  | _ => True

def CacheStep (cache : Cache Qty) (op : Operation Qty) (next : Cache Qty) : Prop :=
  op.OrderOf cache ∧ ∃ err, cache.apply op = .ok (next, err)

def Cache.Reachable (ttl : ℤ) : Cache Qty → Prop :=
  Transition.Reachable (· = newSchedulerCache Qty ttl) CacheStep

end Kubernetes.Scheduler
