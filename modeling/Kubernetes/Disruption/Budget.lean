import Kubernetes.Basic.Map
import Mathlib.Algebra.Order.Ring.Int

/-!
# Disruption budgets

The disruption controller counts the healthy pods and writes how many disruptions are allowed.  The
eviction handler takes one of them for every eviction that it approves, and lists the evicted pod,
so that the controller no longer counts it, until the pod is seen being deleted or has waited too
long for that.

Times are in nanoseconds.  The pods are those that the selector of the budget matches.
-/

namespace Kubernetes.Disruption

open List

abbrev UID := String

abbrev Time := ℕ

def second : Time := 1000000000

def deletionTimeout : Time := 2 * 60 * second

structure Pod where
  name : String
  uid : UID
  ready : Bool
  deleting : Bool
  deriving DecidableEq, Repr

/-- The number of pods that must stay available, or a percentage of the expected pods: the number in
the string, if there is one. -/
inductive MinAvailable
  | int (value : ℤ)
  | string (value : Option ℤ)
  deriving DecidableEq, Repr

structure PodDisruptionBudgetStatus where
  observedGeneration : ℕ
  disruptedPods : Map String Time
  podDisruptionsAllowed : ℤ
  currentHealthy : ℤ
  desiredHealthy : ℤ
  expectedPods : ℤ
  deriving DecidableEq

structure PodDisruptionBudget where
  resourceVersion : ℕ
  generation : ℕ
  minAvailable : MinAvailable
  status : PodDisruptionBudgetStatus
  deriving DecidableEq

structure ControllerAndScale where
  uid : UID
  scale : ℤ
  deriving DecidableEq, Repr

inductive SyncError
  | listPods
  | findControllers
  | noControllers (pod : String)
  | tooManyControllers (pod : String) (count : ℕ)
  | invalidValue
  deriving DecidableEq, Repr

abbrev Finder := Pod → Option (List ControllerAndScale)

def findControllers (finders : List Finder) (pod : Pod) :
    Except SyncError (List ControllerAndScale) :=
  match finders.mapM fun finder ↦ finder pod with
  | none => .error .findControllers
  | some found =>
    match found.flatten with
    | [] => .error (.noControllers pod.name)
    | [controller] => .ok [controller]
    | controllers => .error (.tooManyControllers pod.name controllers.length)

/-- The scale of every controller of some pod.  The last one with a UID counts. -/
def controllerScale (controllers : List ControllerAndScale) : List (UID × ℤ) :=
  controllers.foldl (fun scales controller ↦
    (controller.uid, controller.scale) :: scales.filter (·.1 ≠ controller.uid)) []

def getValueFromPercent (value total : ℤ) : ℤ := -(-(value * total) / 100)

/-- The number of expected pods, and the number of pods that should be healthy. -/
def getExpectedPodCount (finders : List Finder) (pdb : PodDisruptionBudget) (pods : List Pod) :
    Except SyncError (ℤ × ℤ) :=
  match pdb.minAvailable with
  | .int value => .ok (pods.length, value)
  | .string value => do
    let controllers ← pods.mapM (findControllers finders)
    let expectedCount := ((controllerScale controllers.flatten).map (·.2)).sum
    match value with
    | none => .error .invalidValue
    | some value => .ok (expectedCount, getValueFromPercent value expectedCount)

/-- The controller counts a pod as healthy.  A listed pod is expected to be deleted soon. -/
def Pod.counts (disruptedPods : Map String Time) (currentTime : Time) (pod : Pod) : Bool :=
  if pod.deleting then false
  else if ∃ disruptionTime ∈ Finmap.lookup pod.name disruptedPods,
      currentTime < disruptionTime + deletionTimeout then false
  else pod.ready

def countHealthyPods (pods : List Pod) (disruptedPods : Map String Time) (currentTime : Time) : ℤ :=
  pods.countP (Pod.counts disruptedPods currentTime)

def visitPod (disruptedPods : Map String Time) (currentTime : Time)
    (acc : Map String Time × Option Time) (pod : Pod) : Map String Time × Option Time :=
  if pod.deleting then acc
  else
    match Finmap.lookup pod.name disruptedPods with
    | none => acc
    | some disruptionTime =>
      let expectedDeletion := disruptionTime + deletionTimeout
      if expectedDeletion < currentTime then acc
      else
        (Finmap.insert pod.name disruptionTime acc.1,
          match acc.2 with
          | none => some expectedDeletion
          | some recheckTime =>
            if expectedDeletion < recheckTime then some expectedDeletion else some recheckTime)

/-- The listed pods that are still expected to be deleted, and when to look again. -/
def buildDisruptedPodMap (pods : List Pod) (pdb : PodDisruptionBudget) (currentTime : Time) :
    Map String Time × Option Time :=
  pods.foldl (visitPod pdb.status.disruptedPods currentTime) (∅, none)

/-- `updatePdbStatus`.  A nil map in the old status, as an encoding may make of an empty one, is not
the empty map of the new status. -/
def updatePdbStatus (pdb : PodDisruptionBudget) (isNil : Bool)
    (currentHealthy desiredHealthy expectedCount : ℤ) (disruptedPods : Map String Time) :
    Option PodDisruptionBudgetStatus :=
  let disruptionsAllowed := currentHealthy - desiredHealthy
  let disruptionsAllowed :=
    if expectedCount ≤ 0 ∨ disruptionsAllowed ≤ 0 then 0 else disruptionsAllowed
  let status : PodDisruptionBudgetStatus :=
    ⟨pdb.generation, disruptedPods, disruptionsAllowed, currentHealthy, desiredHealthy,
      expectedCount⟩
  if pdb.status = status ∧ isNil = false then none else some status

def trySync (finders : List Finder) (pdb : PodDisruptionBudget) (isNil : Bool) (pods : List Pod)
    (currentTime : Time) : Except SyncError (Option PodDisruptionBudgetStatus) := do
  let (expectedCount, desiredHealthy) ← getExpectedPodCount finders pdb pods
  let (disruptedPods, _) := buildDisruptedPodMap pods pdb currentTime
  let currentHealthy := countHealthyPods pods disruptedPods currentTime
  return updatePdbStatus pdb isNil currentHealthy desiredHealthy expectedCount disruptedPods

def maxDisruptedPodSize : ℕ := 2000

def Time.stored (time : Time) : Time := time / second * second

inductive Verdict
  | refused
  | forbidden (reason : String)
  /-- Store this status, and approve the eviction if it was stored. -/
  | update (pdb : PodDisruptionBudget)
  deriving DecidableEq

def checkAndDecrement (podName : String) (pdb : PodDisruptionBudget) (now : Time) : Verdict :=
  if pdb.status.observedGeneration < pdb.generation then .refused
  else if pdb.status.podDisruptionsAllowed < 0 then
    .forbidden "pdb disruptions allowed is negative"
  else if maxDisruptedPodSize < pdb.status.disruptedPods.keys.card then
    .forbidden
      "DisrputedPods map too big - too many evictions not confirmed by PDB controller"
  else if pdb.status.podDisruptionsAllowed = 0 then .refused
  else
    .update { pdb with
      status := { pdb.status with
        podDisruptionsAllowed := pdb.status.podDisruptionsAllowed - 1
        disruptedPods := Finmap.insert podName now.stored pdb.status.disruptedPods } }

variable {pdb : PodDisruptionBudget} {currentTime : Time} {pods : List Pod}

/-- The controller keeps the listed pods that it sees alive and that are not overdue. -/
theorem lookup_buildDisruptedPodMap {time : Time} {name : String} :
    (buildDisruptedPodMap pods pdb currentTime).1.lookup name = some time ↔
      pdb.status.disruptedPods.lookup name = some time ∧
        currentTime ≤ time + deletionTimeout ∧
        ∃ pod ∈ pods, pod.name = name ∧ pod.deleting = false := by
  -- the loop adds to what it has, so the induction is over all accumulators
  have hloop : ∀ (pods : List Pod) (acc : Map String Time × Option Time),
      (∀ name time, acc.1.lookup name = some time →
        pdb.status.disruptedPods.lookup name = some time) →
      (Finmap.lookup name
          (pods.foldl (visitPod pdb.status.disruptedPods currentTime) acc).1 = some time ↔
        acc.1.lookup name = some time ∨
          pdb.status.disruptedPods.lookup name = some time ∧
            currentTime ≤ time + deletionTimeout ∧
            ∃ pod ∈ pods, pod.name = name ∧ pod.deleting = false) := by
    intro pods
    induction pods with
    | nil =>
      simp
    | cons pod pods ih =>
      intro acc hacc
      rw [foldl_cons]
      cases hdel : pod.deleting with
      | true =>
        have hvisit : visitPod pdb.status.disruptedPods currentTime acc pod = acc := by
          rw [visitPod, if_pos hdel]
        rw [hvisit, ih acc hacc]
        simp [hdel]
      | false =>
        cases hget : pdb.status.disruptedPods.lookup pod.name with
        | none =>
          have hvisit : visitPod pdb.status.disruptedPods currentTime acc pod = acc := by
            rw [visitPod, if_neg (hdel ▸ Bool.false_ne_true), hget]
          grind
        | some disruptionTime =>
          by_cases hlate : disruptionTime + deletionTimeout < currentTime
          · have hvisit : visitPod pdb.status.disruptedPods currentTime acc pod = acc := by
              rw [visitPod, if_neg (hdel ▸ Bool.false_ne_true), hget]
              exact if_pos hlate
            grind
          · have hvisit : (visitPod pdb.status.disruptedPods currentTime acc pod).1 =
                Finmap.insert pod.name disruptionTime acc.1 := by
              rw [visitPod, if_neg (hdel ▸ Bool.false_ne_true), hget]
              dsimp only
              rw [if_neg hlate]
            rw [ih, hvisit, Map.lookup_insert]
            · grind
            · intro name time
              rw [hvisit, Map.lookup_insert]
              grind
  rw [buildDisruptedPodMap, hloop pods (∅, none) (by simp)]
  simp

theorem trySync_eq_some {finders : List Finder} {isNil : Bool} {st : PodDisruptionBudgetStatus}
    (hsync : trySync finders pdb isNil pods currentTime = .ok (some st)) :
    st.disruptedPods = (buildDisruptedPodMap pods pdb currentTime).1 ∧
      st.podDisruptionsAllowed ≤
        max 0 (countHealthyPods pods st.disruptedPods currentTime - st.desiredHealthy) := by
  unfold trySync at hsync
  cases hexpected : getExpectedPodCount finders pdb pods with
  | error err => simp [hexpected] at hsync
  | ok expected =>
    rw [hexpected] at hsync
    have hstatus := Except.ok.inj hsync
    rw [updatePdbStatus] at hstatus
    split_ifs at hstatus with hsame hnone
    · obtain rfl := Option.some.inj hstatus
      exact ⟨rfl, le_max_left 0 _⟩
    · obtain rfl := Option.some.inj hstatus
      exact ⟨rfl, le_max_right 0 _⟩

variable {disruptedPods : Map String Time}

theorem Pod.counts_eq_true {pod : Pod} :
    pod.counts disruptedPods currentTime = true ↔ pod.deleting = false ∧ pod.ready = true ∧
      ∀ time, disruptedPods.lookup pod.name = some time → time + deletionTimeout ≤ currentTime := by
  rw [Pod.counts]
  split_ifs with hdel hlist
  · simp [hdel]
  · obtain ⟨time, hget, hlt⟩ := hlist
    constructor
    · intro h
      cases h
    · intro h
      exact absurd (h.2.2 time hget) (Nat.not_le.mpr hlt)
  · have hoverdue : ∀ time, disruptedPods.lookup pod.name = some time →
        time + deletionTimeout ≤ currentTime := by
      intro time hget
      by_contra hlt
      exact hlist ⟨time, hget, Nat.not_le.mp hlt⟩
    exact ⟨fun hready ↦ ⟨Bool.eq_false_of_not_eq_true hdel, hready, hoverdue⟩, fun h ↦ h.2.1⟩

/-- The controller counts at most the pods of a set that has all pods it counts. -/
theorem countHealthyPods_le (hnodup : (pods.map (·.uid)).Nodup) {uids : Finset UID}
    (hcnt : ∀ pod ∈ pods, pod.counts disruptedPods currentTime = true → pod.uid ∈ uids) :
    countHealthyPods pods disruptedPods currentTime ≤ uids.card := by
  let counted := (pods.filter (Pod.counts disruptedPods currentTime)).map (·.uid)
  have hcard : counted.toFinset.card = pods.countP (Pod.counts disruptedPods currentTime) := by
    rw [toFinset_card_of_nodup (hnodup.sublist (filter_sublist.map _)), length_map,
      countP_eq_length_filter]
  rw [countHealthyPods, ← hcard]
  apply Int.ofNat_le.mpr
  apply Finset.card_le_card
  intro uid huid
  obtain ⟨pod, hpod, rfl⟩ := mem_map.mp (mem_toFinset.mp huid)
  exact hcnt pod (mem_of_mem_filter hpod) (of_mem_filter hpod)

/-- The handler approves an eviction only if a disruption is allowed, which it takes. -/
theorem checkAndDecrement_eq_update {podName : String} {newPdb : PodDisruptionBudget} {now : Time}
    (hupd : checkAndDecrement podName pdb now = .update newPdb) :
    0 < pdb.status.podDisruptionsAllowed ∧ newPdb.resourceVersion = pdb.resourceVersion ∧
      newPdb.status = { pdb.status with
        podDisruptionsAllowed := pdb.status.podDisruptionsAllowed - 1
        disruptedPods := Finmap.insert podName now.stored pdb.status.disruptedPods } := by
  rw [checkAndDecrement] at hupd
  split_ifs at hupd with _ hnegative _ hzero
  obtain rfl := Verdict.update.inj hupd
  exact ⟨by omega, rfl, rfl⟩

end Kubernetes.Disruption
