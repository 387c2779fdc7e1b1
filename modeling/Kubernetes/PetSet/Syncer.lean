import Kubernetes.Basic.Map
import Mathlib.Data.List.Sort

/-!
# Passes over a stateful set

A pass visits the pets `0, 1, …` that the set should have and then, in the reverse order of their
creation, the other pods of the set.  Missing pets are created and other pods are deleted, unless a
pet blocks.  The pet that is created or deleted blocks from then on, and is remembered for the next
pass.

Names identify pets.  A call that changes a pod may leave any state behind.  Claims, identities and
events are left out.
-/

namespace Kubernetes.PetSet

inductive PodPhase
  | pending
  | running
  | succeeded
  | failed
  | unknown
  deriving DecidableEq, Repr

structure Pod (Name : Type) where
  name : Name
  creationTimestamp : ℤ
  phase : PodPhase
  ready : Bool
  /-- The annotation `pod.alpha.kubernetes.io/initialized`. -/
  initialized : Option String
  deletionTimestamp : Option ℤ
  deriving DecidableEq, Repr

def parseBool (text : String) : Option Bool :=
  if text ∈ ["1", "t", "T", "TRUE", "true", "True"] then some true
  else if text ∈ ["0", "f", "F", "FALSE", "false", "False"] then some false
  else none

section Health

variable {Name : Type}

/-- Whether the pod is running and ready; the annotation can override readiness. -/
def Pod.isHealthy (pod : Pod Name) : Bool :=
  if pod.phase ≠ .running then
    false
  else if pod.initialized.bind parseBool = some false then
    false
  else
    pod.ready

def Pod.isDying (pod : Pod Name) : Bool := pod.deletionTimestamp.isSome

def Pod.Fit (pod : Pod Name) : Prop := pod.isHealthy = true ∧ pod.isDying = false

instance instDecidableFit (pod : Pod Name) : Decidable pod.Fit :=
  inferInstanceAs (Decidable (_ ∧ _))

end Health

inductive PetLifeCycleEvent
  | syncPet
  | deletePet
  deriving DecidableEq, Repr

structure Pcb (Name : Type) where
  name : Name
  event : PetLifeCycleEvent
  deriving DecidableEq, Repr

section Queue

variable {Name : Type}

/-- Pods are ordered by their creation timestamps, and by their names if these are equal. -/
def notAfter [LE Name] (a b : Pod Name) : Prop :=
  a.creationTimestamp < b.creationTimestamp ∨
    a.creationTimestamp = b.creationTimestamp ∧ a.name ≤ b.name

instance instDecidableNotAfter [LE Name] [DecidableLE Name] (a b : Pod Name) :
    Decidable (notAfter a b) :=
  inferInstanceAs (Decidable (_ ∨ _ ∧ _))

/-- All pods are scheduled for deletion at first. -/
def newPetQueue [LE Name] [DecidableLE Name] (podList : List (Pod Name)) :
    List (Option (Pcb Name)) :=
  (podList.insertionSort notAfter).map fun pod ↦ some ⟨pod.name, .deletePet⟩

/-- Enqueue a pet and evict the pet of the same name. -/
def enqueue [DecidableEq Name] (queue : List (Option (Pcb Name))) (pet : Option (Pcb Name)) :
    List (Option (Pcb Name)) :=
  match pet with
  | none => queue ++ [none]
  | some pet =>
    queue.filter (fun known ↦ decide (known.map (·.name) ≠ some pet.name)) ++
      [some { pet with event := .syncPet }]

end Queue

/-- The answer to a call that changes a pod: an error or not, and the state of the pod after an
effect. -/
structure Reply (Name : Type) where
  error : Bool
  effect : Option (Option (Pod Name))

structure Answers (Name : Type) where
  newPCBFails : ℕ → Bool
  blockingGetFails : Bool
  getFails : Name → Bool
  syncPVCsFails : Name → Bool
  updateFails : Name → Bool
  deleteFailedPod : Name → Reply Name
  create : Name → Reply Name
  delete : Name → Reply Name

inductive Change (Name : Type)
  | create (name : Name)
  | delete (name : Name)
  deriving DecidableEq, Repr

def Change.name {Name : Type} : Change Name → Name
  | .create name => name
  | .delete name => name

/-- The pods, the blocking pet, the numbers of pets synced and of errors, and the changes attempted.
-/
structure Pass (Name : Type) where
  pods : Map Name (Pod Name)
  blockingPet : Option Name
  numPets : ℕ
  errs : ℕ
  changes : List (Change Name)

inductive SyncError
  | unhealthyPet
  | other
  deriving DecidableEq, Repr

section Syncer

variable {Name : Type} [DecidableEq Name] (answers : Answers Name)

section

variable (pass : Pass Name) (name : Name)

def Pass.apply (reply : Reply Name) : Pass Name :=
  match reply.effect with
  | none => pass
  | some none => { pass with pods := pass.pods.erase name }
  | some (some pod) => { pass with pods := pass.pods.insert name pod }

/-- The end of `Sync`: create the pet, unless a pet blocks. -/
def Pass.createPet : Pass Name × Option SyncError :=
  match pass.blockingPet with
  | some _ => (pass, some .unhealthyPet)
  | none =>
    let pass := { pass with blockingPet := some name, changes := .create name :: pass.changes }
    (pass.apply name (answers.create name),
      if (answers.create name).error = true then some .other else none)

def Pass.sync : Pass Name × Option SyncError :=
  if answers.getFails name = true then
    (pass, some .other)
  else if answers.syncPVCsFails name = true then
    (pass, some .other)
  else
    match pass.pods.lookup name with
    | none => pass.createPet answers name
    | some realPet =>
      if realPet.phase = .failed then
        -- the old pod is removed because of consistent naming
        let deleted := pass.apply name (answers.deleteFailedPod name)
        if (answers.deleteFailedPod name).error = true then
          (deleted, some .other)
        else
          deleted.createPet answers name
      else
        (pass, if answers.updateFails name = true then some .other else none)

end

def Pass.delete (pass : Pass Name) (name : Name) : Pass Name × Option SyncError :=
  if answers.getFails name = true then
    (pass, some .other)
  else
    match pass.pods.lookup name with
    | none => (pass, none)
    | some realPet =>
      match pass.blockingPet with
      | some _ => (pass, none)
      | none =>
        let blocked := { pass with blockingPet := some name }
        if realPet.isDying = true then
          (blocked, none)
        else
          let changed := { blocked with changes := .delete name :: blocked.changes }
          (changed.apply name (answers.delete name),
            if (answers.delete name).error = true then some .other else none)

def Pass.visit (pass : Pass Name) (pet : Option (Pcb Name)) : Pass Name :=
  match pet with
  | none => pass
  | some pet =>
    let visited :=
      match pet.event with
      | .syncPet =>
        let synced := pass.sync answers pet.name
        ({ synced.1 with
            numPets := if synced.2 = none then synced.1.numPets + 1 else synced.1.numPets },
          synced.2)
      | .deletePet => pass.delete answers pet.name
    if visited.2 = some .other then { visited.1 with errs := visited.1.errs + 1 } else visited.1

/-- A pet of the set is enqueued, and the last pet of the queue is visited. -/
def visitNext (petName : ℕ → Name) (state : List (Option (Pcb Name)) × Pass Name) (id : ℕ) :
    List (Option (Pcb Name)) × Pass Name :=
  let fails := answers.newPCBFails id
  let queue := enqueue state.1 (if fails = true then none else some ⟨petName id, .syncPet⟩)
  let pass := if fails = true then { state.2 with errs := state.2.errs + 1 } else state.2
  (queue.dropLast, pass.visit answers queue.getLast?.join)

/-- The blocking pet, the record that is kept, and whether there was an error.  Without a record,
the known pods are searched. -/
def getBlockingPet (recorded : Option Name) (pods : Map Name (Pod Name))
    (knownPets : List (Pod Name)) : Option (Option Name × Option Name) :=
  match recorded with
  | none => some ((knownPets.find? fun pod ↦ decide (¬pod.Fit)).map (·.name), none)
  | some name =>
    if answers.blockingGetFails = true then
      none
    else
      match pods.lookup name with
      | none => some (none, some name)
      | some pod =>
        if pod.Fit then some (none, none) else some (some name, some name)

/-- The controller's view of one set, the pods at the start of each pass and the changes it
attempted. -/
structure StatefulSetController (Name : Type) where
  pods : Map Name (Pod Name)
  recorded : Option Name
  passes : List (Map Name (Pod Name) × List (Change Name))

/-- Given the pods of the set, the numbers of pets synced and of errors. -/
def StatefulSetController.syncStatefulSet [LE Name] [DecidableLE Name] (petName : ℕ → Name)
    (replicas : ℕ) (pets : List (Pod Name)) (controller : StatefulSetController Name) :
    StatefulSetController Name × ℕ × ℕ :=
  match getBlockingPet answers controller.recorded controller.pods pets with
  | none => ({ controller with passes := (controller.pods, []) :: controller.passes }, 0, 1)
  | some (blockingPet, recorded) =>
    let synced := (List.range replicas).foldl (visitNext answers petName)
      (newPetQueue pets, ⟨controller.pods, blockingPet, 0, 0, []⟩)
    let pass := synced.1.reverse.foldl (Pass.visit answers) synced.2
    ({ pods := pass.pods
       -- a blocking pet replaces the record
       recorded := pass.blockingPet.orElse fun _ ↦ recorded
       passes := (controller.pods, pass.changes) :: controller.passes },
      pass.numPets, pass.errs)

inductive Label (Name : Type)
  | change
  | restart
  | pass (answers : Answers Name) (replicas : ℕ)

/-- Between passes pods change in any way, and the controller may restart.  A pass is given the
current pods. -/
inductive Step [LE Name] [DecidableLE Name] (petName : ℕ → Name) :
    StatefulSetController Name → Label Name → StatefulSetController Name → Prop
  | change (controller pods) :
      Step petName controller .change { controller with pods := pods }
  | restart (controller) :
      Step petName controller .restart { controller with recorded := none }
  | pass (controller answers replicas listing) :
      Map.IsListing listing controller.pods →
      Step petName controller (.pass answers replicas)
        (controller.syncStatefulSet answers petName replicas (listing.map Prod.snd)).1

def Initial (controller : StatefulSetController Name) : Prop :=
  controller.recorded = none ∧ controller.passes = []

end Syncer

end Kubernetes.PetSet
