import Kubernetes.Basic.MachineInt
import Kubernetes.Basic.SwapRemove
import Mathlib.Algebra.BigOperators.Group.List.Basic
import Mathlib.Data.Rat.Init

/-!
# Node level information of the scheduler

A `NodeInfo` lists the pods of a node and keeps the resources they request, with and without
defaults, and the pods with affinity constraints.  `removePod` subtracts the resources of its
argument, whatever those of the listed pod are.

Quantities are of an arbitrary type with the two readings that the scheduler uses.  Every change
bumps the generation.  The field `origin` records which creation of an entry a `NodeInfo` comes
from, and no function reads it.
-/

namespace Kubernetes.Scheduler

open SwapRemove

inductive ResourceName
  | cpu
  | memory
  | nvidiaGPU
  | pods
  | opaqueInt (name : String)
  | other (name : String)
  deriving DecidableEq, Repr

/-- The two readings overflow silently, so they need not be the number that a quantity stands for.
-/
class QuantityValue (Qty : Type*) where
  value : Qty → Int64
  milliValue : Qty → Int64
  amount : Qty → ℚ

/-- Compute resources.  A missing opaque resource reads as zero. -/
@[ext]
structure Resource where
  milliCPU : Int64
  memory : Int64
  nvidiaGPU : Int64
  opaqueIntResources : ResourceName → Int64

namespace Resource

instance : Zero Resource := ⟨⟨0, 0, 0, 0⟩⟩

instance : Add Resource :=
  ⟨fun a b ↦ ⟨a.milliCPU + b.milliCPU, a.memory + b.memory, a.nvidiaGPU + b.nvidiaGPU,
    a.opaqueIntResources + b.opaqueIntResources⟩⟩

instance : Neg Resource := ⟨fun a ↦ ⟨-a.milliCPU, -a.memory, -a.nvidiaGPU, -a.opaqueIntResources⟩⟩

instance : Sub Resource :=
  ⟨fun a b ↦ ⟨a.milliCPU - b.milliCPU, a.memory - b.memory, a.nvidiaGPU - b.nvidiaGPU,
    a.opaqueIntResources - b.opaqueIntResources⟩⟩

instance : AddCommGroup Resource where
  add_assoc _ _ _ := Resource.ext (add_assoc ..) (add_assoc ..) (add_assoc ..) (add_assoc ..)
  zero_add _ := Resource.ext (zero_add _) (zero_add _) (zero_add _) (zero_add _)
  add_zero _ := Resource.ext (add_zero _) (add_zero _) (add_zero _) (add_zero _)
  nsmul := nsmulRec
  zsmul := zsmulRec
  neg_add_cancel _ := Resource.ext (neg_add_cancel _) (neg_add_cancel _) (neg_add_cancel _)
    (neg_add_cancel _)
  add_comm a b := Resource.ext (add_comm ..) (add_comm ..) (add_comm ..)
    (add_comm a.opaqueIntResources b.opaqueIntResources)
  sub_eq_add_neg _ _ := Resource.ext (sub_eq_add_neg ..) (sub_eq_add_neg ..) (sub_eq_add_neg ..)
    (sub_eq_add_neg ..)

end Resource

/-- A container.  The requests are a map, given in the order of its iteration. -/
structure Container (Qty : Type*) where
  requests : List (ResourceName × Qty)

/-- Affinity constraints: whether there are pod affinity and pod anti-affinity terms. -/
structure Affinity where
  podAffinity : Bool
  podAntiAffinity : Bool

structure Pod (Qty : Type*) where
  nameSpace : String
  name : String
  nodeName : String
  containers : List (Container Qty)
  affinity : Except String (Option Affinity)

structure Taint where
  key : String
  value : String
  effect : String
  deriving DecidableEq, Repr

/-- The status of a condition.  `unset` is the empty text of a fresh `NodeInfo`. -/
inductive ConditionStatus
  | unset
  | conditionTrue
  | conditionFalse
  | conditionUnknown
  | other (text : String)
  deriving DecidableEq, Repr

inductive ConditionType
  | memoryPressure
  | diskPressure
  | other (name : String)
  deriving DecidableEq, Repr

/-- A node.  The allocatable resources are a map, given in the order of its iteration. -/
structure Node (Qty : Type*) where
  name : String
  allocatable : List (ResourceName × Qty)
  taints : List Taint
  taintsErr : Option String
  conditions : List (ConditionType × ConditionStatus)

structure NodeInfo (Qty : Type*) where
  node : Option (Node Qty)
  pods : List (Pod Qty)
  podsWithAffinity : List (Pod Qty)
  requestedResource : Resource
  nonzeroRequest : Resource
  allocatableResource : Resource
  allowedPodNumber : Int64
  taints : List Taint
  taintsErr : Option String
  memoryPressureCondition : ConditionStatus
  diskPressureCondition : ConditionStatus
  generation : ℕ
  origin : ℕ

variable {Qty : Type*}

def getPodKey (pod : Pod Qty) : String :=
  if pod.nameSpace.isEmpty then pod.name else pod.nameSpace ++ "/" ++ pod.name

def hasPodAffinityConstraints (pod : Pod Qty) : Bool :=
  match pod.affinity with
  | .error _ => false
  | .ok none => false
  | .ok (some affinity) => affinity.podAffinity || affinity.podAntiAffinity

section Resources

variable [QuantityValue Qty]

def defaultMilliCpuRequest : Int64 := 100

def defaultMemoryRequest : Int64 := 200 * 1024 * 1024

/-- `GetNonzeroRequests`: the requests for CPU and memory, or a default if there is none. -/
def getNonzeroRequests (requests : List (ResourceName × Qty)) : Int64 × Int64 :=
  ((requests.lookup .cpu).elim defaultMilliCpuRequest QuantityValue.milliValue,
    (requests.lookup .memory).elim defaultMemoryRequest QuantityValue.value)

def addRequest (res : Resource) (request : ResourceName × Qty) : Resource :=
  match request with
  | (.cpu, quantity) => { res with milliCPU := res.milliCPU + QuantityValue.milliValue quantity }
  | (.memory, quantity) => { res with memory := res.memory + QuantityValue.value quantity }
  | (.nvidiaGPU, quantity) => { res with nvidiaGPU := res.nvidiaGPU + QuantityValue.value quantity }
  | (.opaqueInt name, quantity) =>
    { res with
      opaqueIntResources := Function.update res.opaqueIntResources (.opaqueInt name)
        (res.opaqueIntResources (.opaqueInt name) + QuantityValue.value quantity) }
  | (.pods, _) => res
  | (.other _, _) => res

/-- The requested resources of a pod, and its requests for CPU and memory with defaults. -/
def calculateResource (pod : Pod Qty) : Resource × Int64 × Int64 :=
  pod.containers.foldl (fun (res, non0_cpu, non0_mem) container ↦
    let (non0_cpu_req, non0_mem_req) := getNonzeroRequests container.requests
    (container.requests.foldl addRequest res, non0_cpu + non0_cpu_req, non0_mem + non0_mem_req))
    (0, 0, 0)

/-- The requests with defaults as resources.  There are none for other resources. -/
def nonzeroResource (pod : Pod Qty) : Resource :=
  ⟨(calculateResource pod).2.1, (calculateResource pod).2.2, 0, 0⟩

end Resources

structure NoCorrespondingPod where
  podName : String
  nodeName : String
  deriving DecidableEq, Repr

inductive Crash
  | nilPointer
  | panicked (message : String)
  | fatal (message : String)
  deriving DecidableEq, Repr

namespace NodeInfo

def new (origin : ℕ) : NodeInfo Qty where
  node := none
  pods := []
  podsWithAffinity := []
  requestedResource := 0
  nonzeroRequest := 0
  allocatableResource := 0
  allowedPodNumber := 0
  taints := []
  taintsErr := none
  memoryPressureCondition := .unset
  diskPressureCondition := .unset
  generation := 0
  origin := origin

def setAllocatable [QuantityValue Qty] (n : NodeInfo Qty)
    (allocatable : ResourceName × Qty) : NodeInfo Qty :=
  let resource := n.allocatableResource
  match allocatable with
  | (.cpu, quantity) =>
    { n with
      allocatableResource := { resource with milliCPU := QuantityValue.milliValue quantity } }
  | (.memory, quantity) =>
    { n with allocatableResource := { resource with memory := QuantityValue.value quantity } }
  | (.nvidiaGPU, quantity) =>
    { n with allocatableResource := { resource with nvidiaGPU := QuantityValue.value quantity } }
  | (.pods, quantity) => { n with allowedPodNumber := QuantityValue.value quantity }
  | (.opaqueInt name, quantity) =>
    { n with
      allocatableResource := { resource with
        opaqueIntResources := Function.update resource.opaqueIntResources (.opaqueInt name)
          (QuantityValue.value quantity) } }
  | (.other _, _) => n

def setCondition (n : NodeInfo Qty) : ConditionType × ConditionStatus → NodeInfo Qty
  | (.memoryPressure, status) => { n with memoryPressureCondition := status }
  | (.diskPressure, status) => { n with diskPressureCondition := status }
  | (.other _, _) => n

/-- The loops of `removePod`: delete the first pod with the key of `pod`, if there is one. -/
def dropKey (pod : Pod Qty) (pods : List (Pod Qty)) : Option (List (Pod Qty)) :=
  swapRemoveFirst (fun listed ↦ getPodKey pod = getPodKey listed) pods

def removeNode (n : NodeInfo Qty) : NodeInfo Qty :=
  { n with
    node := none
    allocatableResource := 0
    allowedPodNumber := 0
    taints := []
    taintsErr := none
    memoryPressureCondition := .conditionUnknown
    diskPressureCondition := .conditionUnknown
    generation := n.generation + 1 }

variable {pod : Pod Qty}

theorem dropKey_eq_none {pods : List (Pod Qty)} :
    dropKey pod pods = none ↔ ∀ listed ∈ pods, getPodKey listed ≠ getPodKey pod := by
  rw [dropKey, swapRemoveFirst_eq_none]
  refine forall₂_congr fun listed _ ↦ ?_
  rw [decide_eq_false_iff_not]
  exact ne_comm

theorem perm_of_dropKey {pods rest : List (Pod Qty)} (h : dropKey pod pods = some rest) :
    ∃ listed, getPodKey listed = getPodKey pod ∧ pods.Perm (listed :: rest) := by
  obtain ⟨listed, hkey, hperm⟩ := perm_of_swapRemoveFirst h
  exact ⟨listed, (decide_eq_true_iff.mp hkey).symm, hperm⟩

theorem foldl_setCondition (conditions : List (ConditionType × ConditionStatus))
    (n : NodeInfo Qty) :
    ∃ memoryPressure diskPressure, conditions.foldl setCondition n =
      { n with
        memoryPressureCondition := memoryPressure
        diskPressureCondition := diskPressure } := by
  induction conditions generalizing n with
  | nil => exact ⟨n.memoryPressureCondition, n.diskPressureCondition, rfl⟩
  | cons condition rest ih =>
    have hcond : ∃ memoryPressure diskPressure, n.setCondition condition =
        { n with
          memoryPressureCondition := memoryPressure
          diskPressureCondition := diskPressure } := by
      unfold setCondition
      split <;> exact ⟨_, _, rfl⟩
    obtain ⟨memoryPressure, diskPressure, hcond⟩ := hcond
    obtain ⟨memoryPressure', diskPressure', hrest⟩ := ih (n.setCondition condition)
    exact ⟨memoryPressure', diskPressure', by rw [List.foldl_cons, hrest, hcond]⟩

variable [QuantityValue Qty]

def addPod (n : NodeInfo Qty) (pod : Pod Qty) : NodeInfo Qty :=
  { n with
    requestedResource := n.requestedResource + (calculateResource pod).1
    nonzeroRequest := n.nonzeroRequest + nonzeroResource pod
    pods := n.pods ++ [pod]
    podsWithAffinity :=
      if hasPodAffinityConstraints pod then n.podsWithAffinity ++ [pod] else n.podsWithAffinity
    generation := n.generation + 1 }

/-- `removePod`.  The listed pod is found by its key.  The error names the node, so there has to be
one. -/
def removePod (n : NodeInfo Qty) (pod : Pod Qty) :
    Except Crash (NodeInfo Qty × Option NoCorrespondingPod) :=
  let podsWithAffinity := (dropKey pod n.podsWithAffinity).getD n.podsWithAffinity
  match dropKey pod n.pods with
  | some pods =>
    .ok ({ n with
      podsWithAffinity := podsWithAffinity
      pods := pods
      requestedResource := n.requestedResource - (calculateResource pod).1
      nonzeroRequest := n.nonzeroRequest - nonzeroResource pod
      generation := n.generation + 1 }, none)
  | none =>
    match n.node with
    | none => .error .nilPointer
    | some node =>
      .ok ({ n with podsWithAffinity := podsWithAffinity }, some ⟨pod.name, node.name⟩)

/-- `SetNode`.  What the node does not mention keeps its value. -/
def setNode (n : NodeInfo Qty) (node : Node Qty) : NodeInfo Qty :=
  let n := node.allocatable.foldl setAllocatable { n with node := some node }
  let n := node.conditions.foldl setCondition
    { n with taints := node.taints, taintsErr := node.taintsErr }
  { n with generation := n.generation + 1 }

variable {n next : NodeInfo Qty}

theorem removePod_eq_none (h : n.removePod pod = .ok (next, none)) :
    ∃ pods, dropKey pod n.pods = some pods ∧
      next = { n with
        podsWithAffinity := (dropKey pod n.podsWithAffinity).getD n.podsWithAffinity
        pods := pods
        requestedResource := n.requestedResource - (calculateResource pod).1
        nonzeroRequest := n.nonzeroRequest - nonzeroResource pod
        generation := n.generation + 1 } := by
  unfold removePod at h
  split at h
  · rename_i pods hpods
    cases h
    exact ⟨pods, hpods, rfl⟩
  · split at h <;> cases h

theorem removePod_eq_some {err : NoCorrespondingPod} (h : n.removePod pod = .ok (next, some err)) :
    dropKey pod n.pods = none ∧
      next = { n with
        podsWithAffinity := (dropKey pod n.podsWithAffinity).getD n.podsWithAffinity } := by
  unfold removePod at h
  split at h
  · cases h
  · rename_i hpods
    split at h
    · cases h
    · cases h
      exact ⟨hpods, rfl⟩

theorem foldl_setAllocatable (allocatable : List (ResourceName × Qty))
    (n : NodeInfo Qty) :
    ∃ resource number, allocatable.foldl setAllocatable n =
      { n with allocatableResource := resource, allowedPodNumber := number } := by
  induction allocatable generalizing n with
  | nil => exact ⟨n.allocatableResource, n.allowedPodNumber, rfl⟩
  | cons entry rest ih =>
    have hentry : ∃ resource number, n.setAllocatable entry =
        { n with allocatableResource := resource, allowedPodNumber := number } := by
      unfold setAllocatable
      split <;> exact ⟨_, _, rfl⟩
    obtain ⟨resource, number, hentry⟩ := hentry
    obtain ⟨resource', number', hrest⟩ := ih (n.setAllocatable entry)
    exact ⟨resource', number', by rw [List.foldl_cons, hrest, hentry]⟩

theorem setNode_frame (n : NodeInfo Qty) (node : Node Qty) :
    (n.setNode node).pods = n.pods ∧ (n.setNode node).podsWithAffinity = n.podsWithAffinity ∧
      (n.setNode node).requestedResource = n.requestedResource ∧
      (n.setNode node).nonzeroRequest = n.nonzeroRequest ∧
      (n.setNode node).generation = n.generation + 1 ∧ (n.setNode node).origin = n.origin := by
  obtain ⟨resource, number, hallocatable⟩ :=
    foldl_setAllocatable node.allocatable { n with node := some node }
  unfold setNode
  rw [hallocatable]
  obtain ⟨memoryPressure, diskPressure, hconditions⟩ := foldl_setCondition node.conditions
    { n with
      node := some node
      allocatableResource := resource
      allowedPodNumber := number
      taints := node.taints
      taintsErr := node.taintsErr }
  dsimp only
  rw [hconditions]
  exact ⟨rfl, rfl, rfl, rfl, rfl, rfl⟩

end NodeInfo

end Kubernetes.Scheduler
