import Kubernetes.Basic.Transition
import Kubernetes.Scheduler.ResourceFit
import Mathlib.Algebra.BigOperators.Ring.Finset
import Mathlib.Algebra.Order.BigOperators.Group.List
import Mathlib.Algebra.Order.Ring.Cast
import Mathlib.Algebra.Order.Ring.Rat

/-!
# No overcommitment by scheduling

Pods are added to a node one after the other, after `PodFitsResources` has accepted them.  As long
as the quantities are read exactly and no sum leaves the range of the machine integers, the
containers of the pods never request more than is allocatable.  The request of an init container
counts when its pod is scheduled, and no longer when the next one is.
-/

namespace Kubernetes.Scheduler

open List Transition

variable {Qty : Type*} [QuantityValue Qty]

/-! ## The node -/

/-- The allocatable amount of a resource.  If a name had several entries, the last one would count.
-/
def Node.capacity (node : Node Qty) (name : ResourceName) : ℚ :=
  (node.allocatable.reverse.lookup name).elim 0 (trueAmount name)

def Node.allowedPods (node : Node Qty) : ℚ :=
  (node.allocatable.reverse.lookup .pods).elim 0 QuantityValue.amount

/-- The reading for a resource is the number that the quantity stands for. -/
def Exact (entry : ResourceName × Qty) : Prop :=
  (intReading entry.1 entry.2 : ℚ) = trueAmount entry.1 entry.2 ∧
    (entry.1 = .pods → ((QuantityValue.value entry.2).toInt : ℚ) = QuantityValue.amount entry.2)

theorem lookup_append_singleton {Key Value : Type*} [DecidableEq Key]
    (entries : List (Key × Value)) (entry : Key × Value) (key : Key) :
    (entries ++ [entry]).lookup key =
      (entries.lookup key).or (if key = entry.1 then some entry.2 else none) := by
  rw [lookup_append, lookup_cons, lookup_nil]
  by_cases hkey : key = entry.1
  · simp [hkey]
  · rw [if_neg hkey, beq_false_of_ne hkey]

namespace NodeInfo

variable (n : NodeInfo Qty)

theorem amount_setAllocatable (entry : ResourceName × Qty) (name : ResourceName) :
    (n.setAllocatable entry).allocatableResource.amount name =
      if name = entry.1 then reading name entry.2 else n.allocatableResource.amount name := by
  obtain ⟨allocated, quantity⟩ := entry
  by_cases hname : name = allocated
  · subst hname
    rw [if_pos rfl]
    cases name with
    | opaqueInt name => exact Function.update_self ..
    | cpu | memory | nvidiaGPU | pods | other => rfl
  · rw [if_neg hname]
    cases allocated with
    | opaqueInt allocated =>
      cases name with
      | opaqueInt name => exact Function.update_of_ne hname _ _
      | cpu | memory | nvidiaGPU | pods | other => rfl
    | cpu | memory | nvidiaGPU | pods | other =>
      cases name <;> first | rfl | exact absurd rfl hname

theorem allowedPodNumber_setAllocatable (entry : ResourceName × Qty) :
    (n.setAllocatable entry).allowedPodNumber =
      if .pods = entry.1 then QuantityValue.value entry.2 else n.allowedPodNumber := by
  obtain ⟨allocated, quantity⟩ := entry
  cases allocated <;> rfl

section

variable (entries : List (ResourceName × Qty))

/-- The last entry for a resource counts. -/
theorem amount_foldl_setAllocatable (name : ResourceName) :
    (entries.foldl setAllocatable n).allocatableResource.amount name =
      (entries.reverse.lookup name).elim (n.allocatableResource.amount name) (reading name) := by
  induction entries generalizing n with
  | nil => rfl
  | cons entry rest ih =>
    rw [foldl_cons, ih, reverse_cons, lookup_append_singleton, amount_setAllocatable]
    cases rest.reverse.lookup name with
    | some quantity => rfl
    | none => split_ifs <;> rfl

theorem allowedPodNumber_foldl_setAllocatable :
    (entries.foldl setAllocatable n).allowedPodNumber =
      (entries.reverse.lookup .pods).elim n.allowedPodNumber QuantityValue.value := by
  induction entries generalizing n with
  | nil => rfl
  | cons entry rest ih =>
    rw [foldl_cons, ih, reverse_cons, lookup_append_singleton, allowedPodNumber_setAllocatable]
    cases rest.reverse.lookup .pods with
    | some quantity => rfl
    | none => split_ifs <;> rfl

end

section

variable (node : Node Qty)

theorem setNode_allocatable :
    (n.setNode node).allocatableResource =
        (node.allocatable.foldl setAllocatable { n with node := some node }).allocatableResource ∧
      (n.setNode node).allowedPodNumber =
        (node.allocatable.foldl setAllocatable { n with node := some node }).allowedPodNumber := by
  obtain ⟨memoryPressure, diskPressure, hconditions⟩ := foldl_setCondition node.conditions
    { node.allocatable.foldl setAllocatable { n with node := some node } with
      taints := node.taints
      taintsErr := node.taintsErr }
  unfold setNode
  dsimp only
  rw [hconditions]
  exact ⟨rfl, rfl⟩

end

theorem setNode_new_capacity (origin : ℕ) {node : Node Qty}
    (hexact : ∀ entry ∈ node.allocatable, Exact entry) :
    (∀ name, ((((NodeInfo.new origin).setNode node).allocatableResource.amount name).toInt : ℚ) =
        node.capacity name) ∧
      (((NodeInfo.new origin).setNode node).allowedPodNumber.toInt : ℚ) = node.allowedPods := by
  have hentry : ∀ name quantity, node.allocatable.reverse.lookup name = some quantity →
      Exact (name, quantity) := by
    intro name quantity hget
    obtain ⟨_, _, hentries, -⟩ := lookup_eq_some_iff.mp hget
    exact hexact _ (mem_reverse.mp (hentries ▸ mem_append_right _ mem_cons_self))
  constructor
  · intro name
    have hzero : (new origin : NodeInfo Qty).allocatableResource.amount name = 0 :=
      Resource.amount_zero name
    rw [(setNode_allocatable _ node).1, amount_foldl_setAllocatable, hzero, Node.capacity]
    cases hget : node.allocatable.reverse.lookup name with
    | none => rfl
    | some quantity => exact (hentry name quantity hget).1
  · rw [(setNode_allocatable _ node).2, allowedPodNumber_foldl_setAllocatable, Node.allowedPods]
    cases hget : node.allocatable.reverse.lookup .pods with
    | none => rfl
    | some quantity => exact (hentry .pods quantity hget).2 rfl

end NodeInfo

def PodWithInit.Valid (pod : PodWithInit Qty) : Prop :=
  ∀ request ∈ requestsOf pod.containers ++ requestsOf pod.initContainers,
    0 ≤ trueAmount request.1 request.2

def PodWithInit.Exact (pod : PodWithInit Qty) : Prop :=
  ∀ request ∈ requestsOf pod.containers ++ requestsOf pod.initContainers, Scheduler.Exact request

variable {pod : PodWithInit Qty}

section

variable (name : ResourceName)

theorem amounts_trueAmount {requests : List (ResourceName × Qty)}
    (hexact : ∀ request ∈ requests, Exact request) :
    amounts trueAmount name requests = (amounts intReading name requests).map Int.cast := by
  unfold amounts
  rw [map_filterMap]
  apply filterMap_congr
  intro request hreq
  split_ifs with hname
  · rw [Option.map_some, ← hname, (hexact request hreq).1]
  · rfl

section

variable (hexact : pod.Exact)

include hexact

theorem containerRequest_trueAmount :
    containerRequest trueAmount name pod.toPod =
      (containerRequest intReading name pod.toPod : ℤ) := by
  rw [containerRequest, containerRequest, Int.cast_list_sum,
    amounts_trueAmount name fun request hreq ↦ hexact request (mem_append_left _ hreq)]

theorem effectiveRequest_trueAmount :
    effectiveRequest trueAmount name pod = (effectiveRequest intReading name pod : ℤ) := by
  rw [effectiveRequest, containerRequest_trueAmount name hexact,
    amounts_trueAmount name fun request hreq ↦ hexact request (mem_append_right _ hreq), foldl_map]
  exact foldl_hom Int.cast fun _ _ ↦ Int.cast_max.symm

end

end

theorem containerRequest_nonneg (hvalid : pod.Valid) (name : ResourceName) :
    0 ≤ containerRequest trueAmount name pod.toPod := by
  apply sum_nonneg
  intro amount hamount
  obtain ⟨request, hreq, hread⟩ := mem_filterMap.mp hamount
  split_ifs at hread with hname
  rw [← Option.some.inj hread, ← hname]
  exact hvalid request (mem_append_left _ hreq)

/-- A node and the pods that were scheduled onto it. -/
structure Placement (Qty : Type*) where
  info : NodeInfo Qty
  pods : List (PodWithInit Qty)

namespace Placement

def Initial (node : Node Qty) (placement : Placement Qty) : Prop :=
  ∃ origin, placement = ⟨(NodeInfo.new origin).setNode node, []⟩

/-- A valid pod that `PodFitsResources` accepts, with or without metadata, is added. -/
inductive Step : Placement Qty → PodWithInit Qty → Placement Qty → Prop
  | schedule {placement : Placement Qty} {pod : PodWithInit Qty}
      {predicateMeta : Option PodRequest} {predicateFails : List InsufficientResourceError}
      (hvalid : pod.Valid)
      (hmeta : predicateMeta = none ∨ predicateMeta = some (getResourceRequest pod))
      (hfits : podFitsResources pod predicateMeta placement.info = .ok (true, predicateFails)) :
      Step placement pod ⟨placement.info.addPod pod.toPod, placement.pods ++ [pod]⟩

section

variable (placement : Placement Qty)

def containerSum (name : ResourceName) : ℚ :=
  (placement.pods.map fun pod ↦ containerRequest trueAmount name pod.toPod).sum

def effectiveSum (name : ResourceName) : ℚ :=
  (placement.pods.map (effectiveRequest trueAmount name)).sum

/-- The requests of the pod are read exactly, and with those of the containers on the node they stay
in the range of the machine integers. -/
def InRange (pod : PodWithInit Qty) : Prop :=
  pod.Exact ∧ ∀ name, effectiveRequest trueAmount name pod + placement.containerSum name < 2 ^ 63

end

end Placement

/-- No init container requests more than the containers together. -/
def PodWithInit.InitCovered (pod : PodWithInit Qty) : Prop :=
  ∀ name, ∀ amount ∈ amounts trueAmount name (requestsOf pod.initContainers),
    amount ≤ containerRequest trueAmount name pod.toPod

theorem effectiveRequest_of_initCovered (hcovered : pod.InitCovered) (name : ResourceName) :
    effectiveRequest trueAmount name pod = containerRequest trueAmount name pod.toPod := by
  unfold effectiveRequest
  have hmost := hcovered name
  generalize amounts trueAmount name (requestsOf pod.initContainers) = requested at hmost
  induction requested with
  | nil => rfl
  | cons amount rest ih =>
    rw [foldl_cons, max_eq_left (hmost amount mem_cons_self)]
    exact ih fun other hother ↦ hmost other (mem_cons_of_mem _ hother)

/-! ## What is kept -/

namespace Placement

variable {node : Node Qty} {placement : Placement Qty}

structure Accounted (node : Node Qty) (placement : Placement Qty) : Prop where
  listed : placement.info.pods = placement.pods.map PodWithInit.toPod
  valid : ∀ pod ∈ placement.pods, pod.Valid
  requested : ∀ name,
    ((placement.info.requestedResource.amount name).toInt : ℚ) = placement.containerSum name
  allocatable : ∀ name,
    ((placement.info.allocatableResource.amount name).toInt : ℚ) = node.capacity name
  allowed : (placement.info.allowedPodNumber.toInt : ℚ) = node.allowedPods
  containers_le : ∀ name, placement.containerSum name ≤ node.capacity name
  pods_le : placement.pods.length ≤ node.allowedPods
  /-- The init containers of the last pod counted when it was scheduled. -/
  last_le : ∀ earlier last, placement.pods = earlier ++ [last] → ∀ name,
    (earlier.map fun pod ↦ containerRequest trueAmount name pod.toPod).sum +
      effectiveRequest trueAmount name last ≤ node.capacity name

theorem containerSum_append (placement : Placement Qty) (info : NodeInfo Qty)
    (pod : PodWithInit Qty) (name : ResourceName) :
    (Placement.mk info (placement.pods ++ [pod])).containerSum name =
      placement.containerSum name + containerRequest trueAmount name pod.toPod := by
  simp [containerSum]

theorem accounted_initial (hexact : ∀ entry ∈ node.allocatable, Exact entry)
    (hcapacity : ∀ name, 0 ≤ node.capacity name) (hallowed : 0 ≤ node.allowedPods)
    (hinit : Initial node placement) :
    Accounted node placement := by
  obtain ⟨origin, rfl⟩ := hinit
  obtain ⟨hpods, -, hrequested, -⟩ := NodeInfo.setNode_frame (NodeInfo.new origin) node
  obtain ⟨hallocatable, hnum⟩ := NodeInfo.setNode_new_capacity origin hexact
  refine ⟨hpods, by simp, ?_, hallocatable, hnum, hcapacity, hallowed, by simp⟩
  intro name
  rw [hrequested]
  exact congrArg (Int.cast ∘ Int64.toInt) (Resource.amount_zero name)

theorem toInt_add_of_range {a b : Int64} (hlow : 0 ≤ a.toInt + b.toInt)
    (hhigh : a.toInt + b.toInt < 2 ^ 63) : (a + b).toInt = a.toInt + b.toInt := by
  rw [Int64.toInt_add]
  exact int64_eq_self (by omega) hhigh

section

variable (hacc : Accounted node placement) (hvalid : pod.Valid) (hrange : placement.InRange pod)
variable (name : ResourceName)

include hacc hvalid hrange

/-- The readings stay in the range of the machine integers. -/
theorem readings_in_range :
    0 ≤ (placement.info.requestedResource.amount name).toInt ∧
      0 ≤ containerRequest intReading name pod.toPod ∧
      effectiveRequest intReading name pod +
        (placement.info.requestedResource.amount name).toInt < 2 ^ 63 := by
  have hsum : 0 ≤ placement.containerSum name := by
    apply sum_nonneg
    intro amount hamount
    obtain ⟨pod, hpod, rfl⟩ := mem_map.mp hamount
    exact containerRequest_nonneg (hacc.valid pod hpod) name
  have hctrs := containerRequest_nonneg hvalid name
  have hin := hrange.2 name
  rw [containerRequest_trueAmount name hrange.1] at hctrs
  rw [← hacc.requested name] at hsum hin
  rw [effectiveRequest_trueAmount name hrange.1] at hin
  exact ⟨by exact_mod_cast hsum, by exact_mod_cast hctrs, by exact_mod_cast hin⟩

theorem effectiveRequest_le
    (hfits : (getResourceRequest pod).resource.amount name = 0 ∨
      (getResourceRequest pod).resource.amount name + placement.info.requestedResource.amount name ≤
        placement.info.allocatableResource.amount name) :
    placement.containerSum name + effectiveRequest trueAmount name pod ≤ node.capacity name := by
  obtain ⟨hused, hctrs, hin⟩ := readings_in_range hacc hvalid hrange name
  have hle := containerRequest_le_effectiveRequest name pod
  have hreq := toInt_amount_getResourceRequest hctrs (by omega)
  rw [effectiveRequest_trueAmount name hrange.1, ← hreq]
  obtain hzero | hfits := hfits
  · rw [hzero]
    exact (add_zero _).trans_le (hacc.containers_le name)
  · rw [Int64.le_iff_toInt_le, toInt_add_of_range (by omega) (by omega)] at hfits
    rw [← hacc.requested name, ← hacc.allocatable name, add_comm]
    exact_mod_cast hfits

end

theorem accounted_step (hacc : Accounted node placement) {next : Placement Qty}
    (hrange : placement.InRange pod) (hstep : Step placement pod next) : Accounted node next := by
  cases hstep with
  | schedule hvalid hmeta hfits =>
    obtain ⟨hnum, hres⟩ := podFitsResources_accepts hmeta hfits
    have hle := fun name ↦ effectiveRequest_le hacc hvalid hrange name (hres name)
    constructor
    case listed =>
      change placement.info.pods ++ [pod.toPod] = _
      rw [hacc.listed, map_append, map_singleton]
    case valid =>
      intro other hother
      obtain hother | hother := mem_append.mp hother
      · exact hacc.valid other hother
      · rw [mem_singleton.mp hother]
        exact hvalid
    case requested =>
      intro name
      obtain ⟨hused, hctrs, hin⟩ := readings_in_range hacc hvalid hrange name
      have hmost := containerRequest_le_effectiveRequest name pod
      have hpod : ((calculateResource pod.toPod).1.amount name).toInt =
          containerRequest intReading name pod.toPod := by
        rw [amount_calculateResource, Int64.toInt_ofInt_of_le (by omega) (by omega)]
      rw [containerSum_append, ← hacc.requested name, containerRequest_trueAmount name hrange.1,
        ← hpod, ← Int.cast_add, ← toInt_add_of_range (by omega) (by omega), ← Resource.amount_add]
      rfl
    case allocatable => exact hacc.allocatable
    case allowed => exact hacc.allowed
    case containers_le =>
      intro name
      rw [containerSum_append]
      have hcontainers_le := containerRequest_le_effectiveRequest name pod
      rw [← Int.cast_le (R := ℚ), ← containerRequest_trueAmount name hrange.1,
        ← effectiveRequest_trueAmount name hrange.1] at hcontainers_le
      exact (add_le_add_right hcontainers_le _).trans (hle name)
    case pods_le =>
      rw [hacc.listed, length_map, ← Int.cast_le (R := ℚ), hacc.allowed] at hnum
      rw [length_append]
      exact_mod_cast hnum
    case last_le =>
      intro earlier last hpods name
      obtain ⟨rfl, hlast⟩ := append_inj' hpods rfl
      rw [← singleton_inj.mp hlast]
      exact hle name

/-- If quantities are read exactly and sums do not overflow, the containers on a node never request
more than is allocatable, nor are there more pods than allowed, and init containers count if only
the last pod has one that requests more than its containers. -/
theorem no_overcommitment (hexact : ∀ entry ∈ node.allocatable, Exact entry)
    (hcapacity : ∀ name, 0 ≤ node.capacity name) (hallowed : 0 ≤ node.allowedPods)
    (hreach : Reachable (Initial node) (guarded InRange Step) placement) :
    placement.info.pods = placement.pods.map PodWithInit.toPod ∧
      (∀ name, placement.containerSum name ≤ node.capacity name) ∧
      placement.pods.length ≤ node.allowedPods ∧
      ((∀ pod ∈ placement.pods.dropLast, pod.InitCovered) →
        ∀ name, placement.effectiveSum name ≤ node.capacity name) := by
  have hacc : Accounted node placement := by
    apply Reachable.invariant _ _ hreach
    · exact fun _ ↦ accounted_initial hexact hcapacity hallowed
    · exact fun _ _ _ _ hacc hstep ↦ accounted_step hacc hstep.1 hstep.2
  refine ⟨hacc.listed, hacc.containers_le, hacc.pods_le, ?_⟩
  intro hcovered name
  unfold effectiveSum
  rcases eq_nil_or_concat placement.pods with hnil | ⟨earlier, last, hpods⟩
  · rw [hnil]
    exact hcapacity name
  · rw [hpods, concat_eq_append] at hcovered ⊢
    rw [dropLast_concat] at hcovered
    have hlast := hacc.last_le earlier last (hpods.trans concat_eq_append) name
    have hearlier : earlier.map (effectiveRequest trueAmount name) =
        earlier.map fun pod ↦ containerRequest trueAmount name pod.toPod :=
      map_congr_left fun pod hpod ↦ effectiveRequest_of_initCovered (hcovered pod hpod) name
    rw [map_append, sum_append, hearlier, map_singleton, sum_singleton]
    exact hlast

/-! ## A node with four CPUs and four GPUs -/

instance wholeNumbers : QuantityValue ℤ where
  value := Int64.ofInt
  milliValue quantity := Int64.ofInt (1000 * quantity)
  amount := Int.cast

def fourNode : Node ℤ := ⟨"four", [(.cpu, 4), (.nvidiaGPU, 4), (.pods, 10)], [], none, []⟩

def workPod (name : String) (containers initContainers : List (Container ℤ)) : PodWithInit ℤ :=
  ⟨⟨"default", name, "four", containers, .ok none⟩, initContainers⟩

def fourEmpty : Placement ℤ := ⟨(NodeInfo.new 0).setNode fourNode, []⟩

def addTo (placement : Placement ℤ) (pod : PodWithInit ℤ) : Placement ℤ :=
  ⟨placement.info.addPod pod.toPod, placement.pods ++ [pod]⟩

/-- Its container requests three CPUs, and its init container requests all four. -/
def threePod : PodWithInit ℤ := workPod "three" [⟨[(.cpu, 3)]⟩] [⟨[(.cpu, 4)]⟩]

theorem fourNode_capacity_nonneg (name : ResourceName) : 0 ≤ fourNode.capacity name := by
  cases name with
  | opaqueInt | other => exact le_of_eq rfl
  | cpu | memory | nvidiaGPU | pods => decide +kernel

theorem threePod_inRange : fourEmpty.InRange threePod := by
  refine ⟨by unfold PodWithInit.Exact Scheduler.Exact; decide +kernel, fun name ↦ ?_⟩
  have hnone : (0 : ℚ) + 0 < 2 ^ 63 := by decide +kernel
  cases name with
  | opaqueInt | other => exact hnone
  | cpu | memory | nvidiaGPU | pods => decide +kernel

theorem step_of_fits {placement : Placement ℤ} {pod : PodWithInit ℤ} (hvalid : pod.Valid)
    (hfits : podFitsResources pod none placement.info = .ok (true, [])) :
    Step placement pod (addTo placement pod) :=
  .schedule hvalid (.inl rfl) hfits

theorem three_within_four :
    (addTo fourEmpty threePod).effectiveSum .cpu ≤ fourNode.capacity .cpu := by
  have hvalid : threePod.Valid := by
    unfold PodWithInit.Valid
    decide +kernel
  have hstep : Step fourEmpty threePod (addTo fourEmpty threePod) :=
    step_of_fits hvalid (by decide +kernel)
  have hreach : Reachable (Initial fourNode) (guarded InRange Step) (addTo fourEmpty threePod) :=
    (Reachable.start ⟨0, rfl⟩).guardedNext hstep threePod_inRange
  obtain ⟨-, -, -, heffective⟩ :=
    no_overcommitment (by unfold Scheduler.Exact; decide +kernel) fourNode_capacity_nonneg
      (by decide +kernel) hreach
  exact heffective (by simp [addTo, fourEmpty]) .cpu

/-- Two of its containers request so many GPUs that the sum wraps around. -/
def hugePod : PodWithInit ℤ :=
  workPod "huge" [⟨[(.nvidiaGPU, 2 ^ 62)]⟩, ⟨[(.nvidiaGPU, 2 ^ 62)]⟩] []

/-- So many CPUs that there are 384 thousandths left when the reading wraps around. -/
def unreadPod : PodWithInit ℤ := workPod "unread" [⟨[(.cpu, 18446744073709552)]⟩] []

def initPod (name : String) : PodWithInit ℤ := workPod name [] [⟨[(.cpu, 4)]⟩]

/-- A pod that requests more GPUs than there are is accepted, and so is one with more CPUs, and two
pods whose init containers both request all CPUs. -/
theorem four_overcommitted :
    (∃ placement, Reachable (Initial fourNode) Step placement ∧
      fourNode.capacity .nvidiaGPU < placement.containerSum .nvidiaGPU) ∧
    (∃ placement, Reachable (Initial fourNode) Step placement ∧
      fourNode.capacity .cpu < placement.containerSum .cpu) ∧
    ∃ placement, Reachable (Initial fourNode) Step placement ∧
      fourNode.capacity .cpu < placement.effectiveSum .cpu := by
  have hstart : Reachable (Initial fourNode) Step fourEmpty := .start ⟨0, rfl⟩
  have hscheduled : ∀ pod : PodWithInit ℤ, pod.Valid →
      podFitsResources pod none fourEmpty.info = .ok (true, []) →
      Reachable (Initial fourNode) Step (addTo fourEmpty pod) :=
    fun _ hvalid hfits ↦ hstart.next (step_of_fits hvalid hfits)
  have hinit : ∀ name, (initPod name).Valid := by
    intro name request hreq
    rw [mem_singleton.mp hreq]
    decide +kernel
  refine ⟨⟨_, hscheduled hugePod ?_ (by decide +kernel), by decide +kernel⟩,
    ⟨_, hscheduled unreadPod ?_ (by decide +kernel), by decide +kernel⟩,
    addTo (addTo fourEmpty (initPod "first")) (initPod "second"), ?_, by decide +kernel⟩
  · unfold PodWithInit.Valid
    decide +kernel
  · unfold PodWithInit.Valid
    decide +kernel
  · exact (hscheduled _ (hinit "first") (by decide +kernel)).next
      (step_of_fits (hinit "second") (by decide +kernel))

end Placement

end Kubernetes.Scheduler
