import Kubernetes.Scheduler.NodeInfo
import Mathlib.Data.List.MinMax

/-!
# Whether a pod fits on a node

`PodFitsResources` compares the request of a pod and what the pods of the node request with the
allocatable resources.  The request of a pod is the sum over its containers, or that of an init
container if it is larger.  A `NodeInfo` adds the sums over the containers only.  The amounts are
machine integers, and are compared here with the sums of the same amounts as integers.
-/

namespace Kubernetes.Scheduler

open List

variable {Qty : Type*}

structure PodWithInit (Qty : Type*) extends Pod Qty where
  initContainers : List (Container Qty)

/-- The resources that a pod requests.  The names are the keys of the map of opaque resources. -/
structure PodRequest where
  resource : Resource
  opaqueNames : List ResourceName

def addName (names : List ResourceName) (name : ResourceName) : List ResourceName :=
  if name ∈ names then names else names ++ [name]

section Model

variable [QuantityValue Qty]

section

variable (result : PodRequest) (request : ResourceName × Qty)

def PodRequest.add : PodRequest where
  resource := addRequest result.resource request
  opaqueNames :=
    match request.1 with
    | .opaqueInt name => addName result.opaqueNames (.opaqueInt name)
    | _ => result.opaqueNames

def PodRequest.raise : PodRequest :=
  let resource := result.resource
  match request with
  | (.memory, quantity) =>
    if resource.memory < QuantityValue.value quantity then
      { result with resource := { resource with memory := QuantityValue.value quantity } }
    else result
  | (.cpu, quantity) =>
    if resource.milliCPU < QuantityValue.milliValue quantity then
      { result with resource := { resource with milliCPU := QuantityValue.milliValue quantity } }
    else result
  | (.nvidiaGPU, quantity) =>
    if resource.nvidiaGPU < QuantityValue.value quantity then
      { result with resource := { resource with nvidiaGPU := QuantityValue.value quantity } }
    else result
  | (.opaqueInt name, quantity) =>
    if resource.opaqueIntResources (.opaqueInt name) < QuantityValue.value quantity then
      { resource := { resource with
          opaqueIntResources := Function.update resource.opaqueIntResources (.opaqueInt name)
            (QuantityValue.value quantity) }
        opaqueNames := addName result.opaqueNames (.opaqueInt name) }
    else result
  | (.pods, _) => result
  | (.other _, _) => result

end

def requestsOf (containers : List (Container Qty)) : List (ResourceName × Qty) :=
  containers.flatMap fun container ↦ container.requests

def getResourceRequest (pod : PodWithInit Qty) : PodRequest :=
  let result := (requestsOf pod.containers).foldl PodRequest.add ⟨0, []⟩
  (requestsOf pod.initContainers).foldl PodRequest.raise result

end Model

structure InsufficientResourceError where
  resourceName : ResourceName
  requested : Int64
  used : Int64
  capacity : Int64
  deriving DecidableEq

structure NodeNotFound where
  deriving DecidableEq

def insufficient (resourceName : ResourceName) (requested used capacity : Int64) :
    List InsufficientResourceError :=
  if capacity < requested + used then [⟨resourceName, requested, used, capacity⟩] else []

def insufficientPods (n : NodeInfo Qty) : List InsufficientResourceError :=
  if n.allowedPodNumber.toInt < (n.pods.length + 1 : ℕ) then
    [⟨.pods, 1, Int64.ofNat n.pods.length, n.allowedPodNumber⟩]
  else []

def insufficientResources (podRequest : PodRequest) (n : NodeInfo Qty) :
    List InsufficientResourceError :=
  let requested := podRequest.resource
  let used := n.requestedResource
  let allocatable := n.allocatableResource
  insufficient .cpu requested.milliCPU used.milliCPU allocatable.milliCPU ++
    insufficient .memory requested.memory used.memory allocatable.memory ++
    insufficient .nvidiaGPU requested.nvidiaGPU used.nvidiaGPU allocatable.nvidiaGPU ++
    podRequest.opaqueNames.flatMap fun name ↦
      insufficient name (requested.opaqueIntResources name) (used.opaqueIntResources name)
        (allocatable.opaqueIntResources name)

/-- `PodFitsResources`.  The metadata, if there is any, has the request of the pod. -/
def podFitsResources [QuantityValue Qty] (pod : PodWithInit Qty)
    (predicateMeta : Option PodRequest) (n : NodeInfo Qty) :
    Except NodeNotFound (Bool × List InsufficientResourceError) :=
  match n.node with
  | none => .error ⟨⟩
  | some _ =>
    let predicateFails := insufficientPods n
    let podRequest := predicateMeta.getD (getResourceRequest pod)
    if podRequest.resource.milliCPU = 0 ∧ podRequest.resource.memory = 0 ∧
        podRequest.resource.nvidiaGPU = 0 ∧ podRequest.opaqueNames = [] then
      .ok (predicateFails.isEmpty, predicateFails)
    else
      let predicateFails := predicateFails ++ insufficientResources podRequest n
      .ok (predicateFails.isEmpty, predicateFails)

def Resource.amount (resource : Resource) : ResourceName → Int64
  | .cpu => resource.milliCPU
  | .memory => resource.memory
  | .nvidiaGPU => resource.nvidiaGPU
  | .opaqueInt name => resource.opaqueIntResources (.opaqueInt name)
  | .pods => 0
  | .other _ => 0

theorem Resource.amount_zero (name : ResourceName) : (0 : Resource).amount name = 0 := by
  cases name <;> rfl

theorem Resource.amount_add (a b : Resource) (name : ResourceName) :
    (a + b).amount name = a.amount name + b.amount name := by
  cases name <;> rfl

section Amounts

variable [QuantityValue Qty]

def reading (name : ResourceName) (quantity : Qty) : Int64 :=
  match name with
  | .cpu => QuantityValue.milliValue quantity
  | .memory | .nvidiaGPU | .opaqueInt _ => QuantityValue.value quantity
  | .pods | .other _ => 0

def intReading (name : ResourceName) (quantity : Qty) : ℤ := (reading name quantity).toInt

/-- The number that the reading should be. -/
def trueAmount (name : ResourceName) (quantity : Qty) : ℚ :=
  match name with
  | .cpu => 1000 * QuantityValue.amount quantity
  | .memory | .nvidiaGPU | .opaqueInt _ => QuantityValue.amount quantity
  | .pods | .other _ => 0

theorem amount_addRequest (res : Resource) (request : ResourceName × Qty)
    (name : ResourceName) :
    (addRequest res request).amount name =
      res.amount name + if request.1 = name then reading name request.2 else 0 := by
  obtain ⟨requested, quantity⟩ := request
  by_cases hname : requested = name
  · subst hname
    cases requested <;> simp [addRequest, Resource.amount, reading]
  · rw [if_neg hname, Int64.add_zero]
    cases requested <;> cases name <;>
      first
        | rfl
        | exact absurd rfl hname
        | exact Function.update_of_ne (Ne.symm hname) _ _

theorem toInt_raised {old new : Int64} (hlt : old < new) : max old.toInt new.toInt = new.toInt :=
  max_eq_right (Int64.lt_iff_toInt_lt.mp hlt).le

theorem toInt_kept {old new : Int64} (hlt : ¬old < new) : max old.toInt new.toInt = old.toInt :=
  max_eq_left (Int64.le_iff_toInt_le.mp (Int64.not_lt.mp hlt))

theorem amount_raise_self (result : PodRequest) (name : ResourceName) (quantity : Qty) :
    ((result.raise (name, quantity)).resource.amount name).toInt =
      max (result.resource.amount name).toInt (reading name quantity).toInt := by
  unfold PodRequest.raise
  cases name with
  | pods | other => rfl
  | opaqueInt name =>
    dsimp only
    split_ifs with hlt
    · exact (congrArg Int64.toInt (Function.update_self ..)).trans (toInt_raised hlt).symm
    · exact (toInt_kept hlt).symm
  | cpu | memory | nvidiaGPU =>
    dsimp only
    split_ifs with hlt
    · exact (toInt_raised hlt).symm
    · exact (toInt_kept hlt).symm

variable {name : ResourceName}

theorem amount_raise_of_ne (result : PodRequest) {requested : ResourceName} (quantity : Qty)
    (hname : requested ≠ name) :
    (result.raise (requested, quantity)).resource.amount name = result.resource.amount name := by
  unfold PodRequest.raise
  cases requested with
  | pods | other => rfl
  | opaqueInt requested =>
    dsimp only
    split_ifs
    · cases name with
      | opaqueInt name => exact Function.update_of_ne (Ne.symm hname) _ _
      | cpu | memory | nvidiaGPU | pods | other => rfl
    · rfl
  | cpu | memory | nvidiaGPU =>
    dsimp only
    split_ifs
    · cases name <;> first | rfl | exact absurd rfl hname
    · rfl

/-! ## What a pod requests -/

section

variable {R : Type*} (read : ResourceName → Qty → R) (name : ResourceName)

def amounts (requests : List (ResourceName × Qty)) : List R :=
  requests.filterMap fun request ↦
    if request.1 = name then some (read name request.2) else none

variable [AddZero R]

def containerRequest (pod : Pod Qty) : R :=
  (amounts read name (requestsOf pod.containers)).sum

/-- What a pod requests: as much as its containers together, and as each of its init containers. -/
def effectiveRequest [Max R] (pod : PodWithInit Qty) : R :=
  (amounts read name (requestsOf pod.initContainers)).foldl max
    (containerRequest read name pod.toPod)

end

theorem amounts_cons (name : ResourceName) (request : ResourceName × Qty)
    (rest : List (ResourceName × Qty)) :
    amounts intReading name (request :: rest) =
      if request.1 = name then intReading name request.2 :: amounts intReading name rest
      else amounts intReading name rest := by
  unfold amounts
  rw [filterMap_cons]
  split_ifs <;> rfl

section

variable (name : ResourceName) (requests : List (ResourceName × Qty))

/-- The sum of the containers wraps around. -/
theorem amount_foldl_addRequest (res : Resource) :
    (requests.foldl addRequest res).amount name =
      res.amount name + Int64.ofInt (amounts intReading name requests).sum := by
  induction requests generalizing res with
  | nil => exact (Int64.add_zero _).symm
  | cons request rest ih =>
    rw [foldl_cons, ih, amount_addRequest, amounts_cons]
    split_ifs
    · rw [sum_cons, Int64.ofInt_add, intReading, Int64.ofInt_toInt, Int64.add_assoc]
    · rw [Int64.add_zero]

/-- The maximum with the init containers does not. -/
theorem toInt_amount_foldl_raise (result : PodRequest) :
    ((requests.foldl PodRequest.raise result).resource.amount name).toInt =
      (amounts intReading name requests).foldl max (result.resource.amount name).toInt := by
  induction requests generalizing result with
  | nil => rfl
  | cons request rest ih =>
    rw [foldl_cons, ih, amounts_cons]
    split_ifs with hname
    · rw [foldl_cons, ← hname, intReading, ← amount_raise_self]
    · rw [amount_raise_of_ne result request.2 hname]

end

theorem calculateResource_fst (pod : Pod Qty) :
    (calculateResource pod).1 = (requestsOf pod.containers).foldl addRequest 0 := by
  unfold calculateResource requestsOf
  rw [foldl_flatMap]
  exact (foldl_hom Prod.fst fun _ _ ↦ rfl).symm

theorem amount_calculateResource (name : ResourceName) (pod : Pod Qty) :
    (calculateResource pod).1.amount name = Int64.ofInt (containerRequest intReading name pod) := by
  rw [calculateResource_fst, amount_foldl_addRequest, Resource.amount_zero, Int64.zero_add]
  rfl

theorem resource_foldl_add (requests : List (ResourceName × Qty)) (result : PodRequest) :
    (requests.foldl PodRequest.add result).resource =
      requests.foldl addRequest result.resource := by
  induction requests generalizing result with
  | nil => rfl
  | cons request rest ih => exact ih (result.add request)

theorem containerRequest_le_effectiveRequest (name : ResourceName) (pod : PodWithInit Qty) :
    containerRequest intReading name pod.toPod ≤ effectiveRequest intReading name pod := by
  unfold effectiveRequest
  rw [foldl_max]
  exact le_max_left _ _

variable {pod : PodWithInit Qty}

/-- Where the sum of the containers does not wrap around, `GetResourceRequest` is right. -/
theorem toInt_amount_getResourceRequest (hlow : 0 ≤ containerRequest intReading name pod.toPod)
    (hhigh : containerRequest intReading name pod.toPod < 2 ^ 63) :
    ((getResourceRequest pod).resource.amount name).toInt = effectiveRequest intReading name pod := by
  unfold getResourceRequest effectiveRequest
  rw [toInt_amount_foldl_raise, resource_foldl_add, ← calculateResource_fst,
    amount_calculateResource, Int64.toInt_ofInt_of_le (by omega) hhigh]

/-- A pod requests nothing of an opaque resource that is no key of its map. -/
def PodRequest.Listed (result : PodRequest) : Prop :=
  ∀ name, .opaqueInt name ∉ result.opaqueNames → result.resource.amount (.opaqueInt name) = 0

theorem mem_addName {names : List ResourceName} {other : ResourceName} :
    other ∈ addName names name ↔ other ∈ names ∨ other = name := by
  unfold addName
  split_ifs with hmem
  · constructor
    · exact Or.inl
    · rintro (h | rfl)
      · exact h
      · exact hmem
  · rw [mem_append, mem_singleton]

section

variable {result : PodRequest} (hlist : result.Listed) (request : ResourceName × Qty)

include hlist

theorem PodRequest.Listed.add : (result.add request).Listed := by
  intro name hname
  have hkeys : .opaqueInt name ∉ result.opaqueNames ∧ request.1 ≠ .opaqueInt name := by
    unfold PodRequest.add at hname
    split at hname
    · next requested hrequested =>
      rw [mem_addName, not_or] at hname
      exact ⟨hname.1, hrequested ▸ Ne.symm hname.2⟩
    · next hrequested => exact ⟨hname, hrequested name⟩
  unfold PodRequest.add
  rw [amount_addRequest, hlist name hkeys.1, if_neg hkeys.2, Int64.add_zero]

theorem PodRequest.Listed.raise : (result.raise request).Listed := by
  obtain ⟨requested, quantity⟩ := request
  intro name hname
  by_cases hrequested : requested = .opaqueInt name
  · subst hrequested
    unfold PodRequest.raise at hname ⊢
    dsimp only at hname ⊢
    split_ifs at hname ⊢ with hlt
    · exact absurd (mem_addName.mpr (.inr rfl)) hname
    · exact hlist name hname
  · rw [amount_raise_of_ne result quantity hrequested]
    apply hlist name
    intro hmem
    apply hname
    unfold PodRequest.raise
    cases requested with
    | pods | other => exact hmem
    | opaqueInt requested =>
      dsimp only
      split_ifs
      · exact mem_addName.mpr (.inl hmem)
      · exact hmem
    | cpu | memory | nvidiaGPU =>
      dsimp only
      split_ifs <;> exact hmem

end

theorem getResourceRequest_listed (pod : PodWithInit Qty) :
    (getResourceRequest pod).Listed := by
  have hempty : PodRequest.Listed ⟨0, []⟩ := fun name _ ↦ Resource.amount_zero (.opaqueInt name)
  have hadd := List.foldlRecOn (requestsOf pod.containers) PodRequest.add hempty
    fun _ hlist request _ ↦ hlist.add request
  exact List.foldlRecOn (requestsOf pod.initContainers) PodRequest.raise hadd
    fun _ hlist request _ ↦ hlist.raise request

theorem insufficient_eq_nil {requested used capacity : Int64} :
    insufficient name requested used capacity = [] ↔ requested + used ≤ capacity := by
  unfold insufficient
  simp

/-- An accepted pod is allowed by the number of pods, and requests of each resource nothing or what
is left. -/
theorem podFitsResources_accepts {predicateMeta : Option PodRequest} {n : NodeInfo Qty}
    {predicateFails : List InsufficientResourceError}
    (hmeta : predicateMeta = none ∨ predicateMeta = some (getResourceRequest pod))
    (hfits : podFitsResources pod predicateMeta n = .ok (true, predicateFails)) :
    (n.pods.length + 1 : ℕ) ≤ n.allowedPodNumber.toInt ∧
      ∀ name, (getResourceRequest pod).resource.amount name = 0 ∨
        (getResourceRequest pod).resource.amount name + n.requestedResource.amount name ≤
          n.allocatableResource.amount name := by
  have hreq : predicateMeta.getD (getResourceRequest pod) = getResourceRequest pod := by
    obtain rfl | rfl := hmeta <;> rfl
  have hlist := getResourceRequest_listed pod
  unfold podFitsResources at hfits
  rw [hreq] at hfits
  generalize getResourceRequest pod = podRequest at hfits hlist
  cases hnode : n.node with
  | none => simp [hnode] at hfits
  | some node =>
    have hpods : insufficientPods n = [] → (n.pods.length + 1 : ℕ) ≤ n.allowedPodNumber.toInt := by
      unfold insufficientPods
      simp
    simp only [hnode] at hfits
    split_ifs at hfits with hzero
    · -- nothing is requested
      obtain ⟨hcpu, hmemory, hgpu, hnames⟩ := hzero
      simp only [Except.ok.injEq, Prod.mk.injEq, List.isEmpty_iff] at hfits
      refine ⟨hpods hfits.1, fun name ↦ .inl ?_⟩
      cases name with
      | cpu => exact hcpu
      | memory => exact hmemory
      | nvidiaGPU => exact hgpu
      | opaqueInt name => exact hlist name (by simp [hnames])
      | pods | other => rfl
    · simp only [Except.ok.injEq, Prod.mk.injEq, List.isEmpty_iff, append_eq_nil_iff,
        insufficientResources, insufficient_eq_nil, flatMap_eq_nil_iff] at hfits
      obtain ⟨⟨hnum, ⟨⟨hcpu, hmemory⟩, hgpu⟩, hnames⟩, -⟩ := hfits
      refine ⟨hpods hnum, fun name ↦ ?_⟩
      cases name with
      | cpu => exact .inr hcpu
      | memory => exact .inr hmemory
      | nvidiaGPU => exact .inr hgpu
      | opaqueInt name =>
        by_cases hmem : .opaqueInt name ∈ podRequest.opaqueNames
        · exact .inr (hnames _ hmem)
        · exact .inl (hlist name hmem)
      | pods | other => exact .inl rfl

end Amounts

end Kubernetes.Scheduler
