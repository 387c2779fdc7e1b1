import Mathlib.Data.Finset.Basic

/-!
# The assignment of CIDRs to nodes

The allocator of node CIDRs takes a free subnet and leaves it to a worker to write it to the node.
If this fails, the worker gives the subnet back.  It tries some times, and the error of `Update` is
a variable of its own in the loop, so that only the error of `Get` is seen after the loop.

A subnet is the text of its CIDR.  An error of the API server means that nothing happened.
-/

namespace Kubernetes.NodeController

inductive APIError
  | serverTimeout
  | other (message : String)
  deriving DecidableEq, Repr

structure Attempt where
  get : Except APIError String
  update : Option APIError

structure RangeAllocator where
  cidrs : Finset String
  nodesInProcessing : Finset String

structure NodeAndCIDR where
  cidr : String
  nodeName : String

/-- The allocator and the returned error, and the PodCIDR that the node is known to have. -/
structure Outcome where
  allocator : RangeAllocator
  err : Option APIError
  podCIDR : String

def podCIDRUpdateRetry : ℕ := 5

inductive LoopEnd
  | returned (podCIDR : String)
  | left (err : Option APIError) (podCIDR : String)

def RangeAllocator.release (r : RangeAllocator) (cidr : String) : RangeAllocator :=
  { r with cidrs := r.cidrs.erase cidr }

def RangeAllocator.removeNodeFromProcessing (r : RangeAllocator) (nodeName : String) :
    RangeAllocator :=
  { r with nodesInProcessing := r.nodesInProcessing.erase nodeName }

def updateLoop (data : NodeAndCIDR) : List Attempt → Option APIError → LoopEnd
  | [], err => .left err ""
  | attempt :: attempts, _ =>
    match attempt.get with
    | .error err => updateLoop data attempts (some err)
    | .ok podCIDR =>
      if podCIDR ≠ "" then .returned podCIDR
      else
        match attempt.update with
        -- The error is shadowed, and that of `Get` is none.
        | some _ => updateLoop data attempts none
        | none => .left none data.cidr

section

variable (r : RangeAllocator) (data : NodeAndCIDR) (attempts : ℕ → Attempt)

def RangeAllocator.updateCIDRAllocation : Outcome :=
  let removed := r.removeNodeFromProcessing data.nodeName
  match updateLoop data ((List.range podCIDRUpdateRetry).map attempts) none with
  | .returned podCIDR =>
    ⟨if podCIDR ≠ data.cidr then removed.release data.cidr else removed, none, podCIDR⟩
  | .left none podCIDR => ⟨removed, none, podCIDR⟩
  | .left (some err) podCIDR =>
    ⟨if err = .serverTimeout then removed else removed.release data.cidr, some err, podCIDR⟩

/-- If the node does not get the CIDR, then it is free again, and the caller learns of the failure,
unless the node has another CIDR. -/
def GivesBack : Prop :=
  let outcome := r.updateCIDRAllocation data attempts
  outcome.podCIDR ≠ data.cidr →
    data.cidr ∉ outcome.allocator.cidrs ∧ (outcome.err.isSome ∨ outcome.podCIDR ≠ "") ∧
      data.nodeName ∉ outcome.allocator.nodesInProcessing

end

def Attempt.Fails (attempt : Attempt) : Prop :=
  ∀ podCIDR, attempt.get = .ok podCIDR → podCIDR = "" ∧ attempt.update.isSome

def Attempt.getError (attempt : Attempt) : Option APIError :=
  match attempt.get with
  | .error err => some err
  | .ok _ => none

variable {r : RangeAllocator} {data : NodeAndCIDR} {attempts : ℕ → Attempt}

/-- If all attempts fail, what is left is the error of the last `Get`. -/
theorem updateLoop_of_fails {attempts : List Attempt} (hfails : ∀ attempt ∈ attempts, attempt.Fails)
    (err : Option APIError) : updateLoop data attempts err =
      .left (attempts.foldl (fun _ attempt ↦ attempt.getError) err) "" := by
  induction attempts generalizing err with
  | nil => rfl
  | cons attempt attempts ih =>
    rw [List.forall_mem_cons] at hfails
    rw [updateLoop, List.foldl_cons, Attempt.getError]
    cases hget : attempt.get with
    | error err => exact ih hfails.2 (some err)
    | ok podCIDR =>
      obtain ⟨rfl, hupd⟩ := hfails.1 podCIDR hget
      obtain ⟨updateErr, hsome⟩ := Option.isSome_iff_exists.mp hupd
      simpa [hsome] using ih hfails.2 none

theorem updateLoop_of_not_fails (data : NodeAndCIDR) {attempts : List Attempt}
    (hnot : ¬ ∀ attempt ∈ attempts, attempt.Fails) (err : Option APIError) :
    (∃ podCIDR ≠ "", updateLoop data attempts err = .returned podCIDR) ∨
      updateLoop data attempts err = .left none data.cidr := by
  induction attempts generalizing err with
  | nil => simp at hnot
  | cons attempt attempts ih =>
    rw [List.forall_mem_cons, not_and] at hnot
    rw [updateLoop]
    cases hget : attempt.get with
    | error err => exact ih (hnot fun podCIDR hok ↦ by simp [hget] at hok) (some err)
    | ok podCIDR =>
      by_cases hempty : podCIDR = ""
      · cases hupd : attempt.update with
        | none => simp [hempty]
        | some updateErr =>
          have hfails : attempt.Fails := by
            simp [Attempt.Fails, hget, hempty, hupd]
          simpa [hempty] using ih (hnot hfails) none
      · simp [hempty]

/-- A CIDR is given back unless all attempts fail and the last one fails in `Update`. -/
theorem givesBack_iff (hcidr : data.cidr ≠ "")
    (htimeout : ∀ rep < podCIDRUpdateRetry, (attempts rep).get ≠ .error .serverTimeout) :
    GivesBack r data attempts ↔
      ¬ ((∀ rep < podCIDRUpdateRetry, (attempts rep).Fails) ∧
        (attempts (podCIDRUpdateRetry - 1)).get = .ok "") := by
  have hforall : (∀ rep < podCIDRUpdateRetry, (attempts rep).Fails) ↔
      ∀ attempt ∈ (List.range podCIDRUpdateRetry).map attempts, attempt.Fails := by
    simp
  rw [GivesBack, RangeAllocator.updateCIDRAllocation, hforall]
  by_cases hfails : ∀ attempt ∈ (List.range podCIDRUpdateRetry).map attempts, attempt.Fails
  · have hlast : ((List.range podCIDRUpdateRetry).map attempts).foldl
        (fun _ attempt ↦ attempt.getError) none =
          (attempts (podCIDRUpdateRetry - 1)).getError := rfl
    rw [updateLoop_of_fails hfails, hlast, and_iff_right hfails, Attempt.getError]
    cases hget : (attempts (podCIDRUpdateRetry - 1)).get with
    | error err =>
      have herr : err ≠ .serverTimeout := by
        rintro rfl
        exact htimeout _ (by decide) hget
      simp [herr, RangeAllocator.release, RangeAllocator.removeNodeFromProcessing]
    | ok podCIDR =>
      obtain ⟨rfl, -⟩ := hforall.mpr hfails _ (by decide) podCIDR hget
      simpa using hcidr.symm
  · rw [iff_true_right (not_and_of_not_left _ hfails)]
    obtain ⟨podCIDR, hne, hloop⟩ | hloop := updateLoop_of_not_fails data hfails none
    · simp +contextual [hloop, hne, RangeAllocator.release, RangeAllocator.removeNodeFromProcessing]
    · simp [hloop]

/-- Every `Get` fails, and the CIDR is given back. -/
theorem unreachable_node_gives_back :
    GivesBack ⟨{"10.0.0.0/24"}, {"node"}⟩ ⟨"10.0.0.0/24", "node"⟩
      fun _ ↦ ⟨.error (.other "unreachable"), none⟩ := by
  rw [givesBack_iff (by decide) (by decide)]
  exact fun hlost ↦ by cases hlost.2

/-- Every `Update` fails: the CIDR stays marked, and no error is returned. -/
theorem failed_updates_leak :
    ¬ GivesBack ⟨{"10.0.0.0/24"}, {"node"}⟩ ⟨"10.0.0.0/24", "node"⟩
      fun _ ↦ ⟨.ok "", some (.other "conflict")⟩ := by
  intro hgives
  exact absurd (hgives (by decide)).1 (by decide)

end Kubernetes.NodeController
