import Kubernetes.Basic.Transition
import Kubernetes.GarbageCollector.Propagator

/-!
# Workers of the garbage collector

A worker takes a node from the dirty queue and reads the live object.  For each owner reference it
asks the cache of absent owners, and then the API server, whether the owner exists.  If none does,
it deletes the object, with the UID as a precondition.  Clients change objects all the time, and the
propagator processes the events with a delay.

Every request to the API server is one step, and a failed one ends the work on the node.
-/

namespace Kubernetes.GarbageCollector

open Finmap

variable {Resource Worker : Type}

structure Key (Resource : Type) where
  resource : Resource
  ns : String
  name : String
  deriving DecidableEq

structure Object where
  uid : UID
  ownerReferences : List OwnerReference
  deriving DecidableEq

inductive Phase
  | idle
  /-- At the start of the loop over the references of the live object. -/
  | checking (item : Pointer) (ownerReferences remaining : List OwnerReference)
  /-- The cache does not know the reference. -/
  | looking (item : Pointer) (ownerReferences : List OwnerReference) (reference : OwnerReference)
    (remaining : List OwnerReference)
  deriving DecidableEq

/-- The API server, the propagator and the workers, with the UIDs ever given and all versions of
objects. -/
structure Cluster (Resource Worker : Type) where
  objects : Map (Key Resource) Object
  born : Map UID (Key Resource)
  versions : List (Key Resource × Object)
  propagator : Propagator
  eventQueue : List Event
  phase : Worker → Phase

inductive Op (Resource Worker : Type)
  | create (key : Key Resource) (object : Object)
  | update (key : Key Resource) (ownerReferences : List OwnerReference)
  | delete (key : Key Resource)
  | observe (event : Event)
  | observeVirtual (event : Event)
  | getItem (worker : Worker) (item : Pointer)
  | checkCache (worker : Worker)
  | getOwner (worker : Worker)
  | deleteObject (worker : Worker)
  | fail (worker : Worker)

/-- The key that a reference is resolved to.  The REST mapper finds the resource. -/
def keyOf (restMapping : String → String → Option Resource) (ref : ObjectReference) :
    Option (Key Resource) :=
  (restMapping ref.apiVersion ref.kind).map fun resource ↦ ⟨resource, ref.ns, ref.name⟩

def virtualDeleteEvent (identity : ObjectReference) : Event :=
  ⟨.deleteEvent, ⟨identity, [], false, []⟩, none⟩

namespace Cluster

def new : Cluster Resource Worker where
  objects := ∅
  born := ∅
  versions := []
  propagator := .new
  eventQueue := []
  phase := fun _ ↦ .idle

def identity (c : Cluster Resource Worker) (item : Pointer) : ObjectReference :=
  (c.propagator.nodes item).identity

variable [DecidableEq Worker]

def enter (c : Cluster Resource Worker) (worker : Worker) (phase : Phase) :
    Cluster Resource Worker :=
  { c with phase := Function.update c.phase worker phase }

variable {c : Cluster Resource Worker} {phase : Phase}

theorem enter_phase_self {worker : Worker} :
    (c.enter worker phase).phase worker = phase :=
  Function.update_self ..

theorem enter_phase_of_ne {worker other : Worker} (hne : other ≠ worker) :
    (c.enter worker phase).phase other = c.phase other :=
  Function.update_of_ne hne ..

def setCache (c : Cluster Resource Worker) (cache : UIDCache) : Cluster Resource Worker :=
  { c with propagator := { c.propagator with absentOwnerCache := cache } }

variable [DecidableEq Resource]

def Alive (c : Cluster Resource Worker) (uid : UID) : Prop :=
  ∃ key object, lookup key c.objects = some object ∧ object.uid = uid

instance decidableAlive (c : Cluster Resource Worker) (uid : UID) : Decidable (c.Alive uid) :=
  decidable_of_iff (∃ key ∈ c.objects.keys, ∃ object ∈ lookup key c.objects,
    object.uid = uid)
    ⟨fun ⟨key, _, object, hget, huid⟩ ↦ ⟨key, object, hget, huid⟩,
      fun ⟨key, object, hget, huid⟩ ↦
        ⟨key, Finmap.mem_keys.mpr (mem_of_lookup_eq_some hget), object, hget, huid⟩⟩

section

variable (c : Cluster Resource Worker)

def store (key : Key Resource) (object : Object) : Cluster Resource Worker :=
  { c with
    objects := insert key object c.objects
    versions := (key, object) :: c.versions }

def createObject (key : Key Resource) (object : Object) : Cluster Resource Worker :=
  { c.store key object with born := insert object.uid key c.born }

section

variable (worker : Worker) (item : Pointer)

def getItem (key : Key Resource) : Cluster Resource Worker :=
  let gone := { c with eventQueue := c.eventQueue ++ [virtualDeleteEvent (c.identity item)] }
  match lookup key c.objects with
  | none => gone
  | some latest =>
    if latest.uid ≠ (c.identity item).uid then gone
    else if latest.ownerReferences = [] then c
    else c.enter worker (.checking item latest.ownerReferences latest.ownerReferences)

section

variable (ownerReferences : List OwnerReference) (reference : OwnerReference)
  (remaining : List OwnerReference)

def checkCache : Cluster Resource Worker :=
  let (absent, cache) := c.propagator.absentOwnerCache.has reference.uid
  (c.setCache cache).enter worker
    (if absent then .checking item ownerReferences remaining
      else .looking item ownerReferences reference remaining)

/-- The worker reads an owner.  An owner that does not exist with the UID goes into the cache. -/
def getOwner (key : Key Resource) : Cluster Resource Worker :=
  let absent := (c.setCache (c.propagator.absentOwnerCache.add reference.uid)).enter worker
    (.checking item ownerReferences remaining)
  match lookup key c.objects with
  | none => absent
  | some owner => if owner.uid ≠ reference.uid then absent else c.enter worker .idle

end

/-- The worker deletes the object of a node.  The UID is a precondition. -/
def deleteObject (key : Key Resource) : Cluster Resource Worker :=
  match lookup key c.objects with
  | none => c.enter worker .idle
  | some object =>
    if object.uid = (c.identity item).uid then
      { c with objects := erase key c.objects }.enter worker .idle
    else c.enter worker .idle

end

end

end Cluster

structure IsMetaOf (restMapping : String → String → Option Resource)
    (version : Key Resource × Object) (obj : ObjectMeta) : Prop where
  key : keyOf restMapping obj.toObjectReference = some version.1
  uid : obj.uid = version.2.uid
  ownerReferences : obj.ownerReferences = version.2.ownerReferences

variable [DecidableEq Resource] [DecidableEq Worker]
variable (restMapping : String → String → Option Resource)

/-- A new object gets a new UID.  The events about an object come in any order and may repeat, but a
deletion is not observed before it happens. -/
inductive Step (c : Cluster Resource Worker) :
    Op Resource Worker → Cluster Resource Worker → Prop
  | create (key : Key Resource) (object : Object) (hfree : lookup key c.objects = none)
      (hfresh : lookup object.uid c.born = none) :
      Step c (.create key object) (c.createObject key object)
  | update (key : Key Resource) (object : Object) (ownerReferences : List OwnerReference)
      (hobj : lookup key c.objects = some object) :
      Step c (.update key ownerReferences)
        (c.store key { object with ownerReferences := ownerReferences })
  | delete (key : Key Resource) : Step c (.delete key) { c with objects := erase key c.objects }
  | observe (event : Event) (version : Key Resource × Object)
      (propagator : Propagator) (hver : version ∈ c.versions)
      (hmeta : IsMetaOf restMapping version event.obj)
      (hdel : event.eventType = .deleteEvent → ¬ c.Alive event.obj.uid)
      (hstep : c.propagator.Step event propagator) :
      Step c (.observe event) { c with propagator := propagator }
  | observeVirtual (event : Event) (propagator : Propagator)
      (hevent : event ∈ c.eventQueue) (hstep : c.propagator.Step event propagator) :
      Step c (.observeVirtual event) { c with propagator := propagator }
  | getItem (worker : Worker) (item : Pointer) (key : Key Resource)
      (hidle : c.phase worker = .idle) (hdirty : item ∈ c.propagator.dirtyQueue)
      (hkey : keyOf restMapping (c.identity item) = some key) :
      Step c (.getItem worker item) (c.getItem worker item key)
  | checkCache (worker : Worker) (item : Pointer)
      (ownerReferences : List OwnerReference) (reference : OwnerReference)
      (remaining : List OwnerReference)
      (hphase : c.phase worker = .checking item ownerReferences (reference :: remaining)) :
      Step c (.checkCache worker) (c.checkCache worker item ownerReferences reference remaining)
  | getOwner (worker : Worker) (item : Pointer)
      (ownerReferences : List OwnerReference) (reference : OwnerReference)
      (remaining : List OwnerReference) (key : Key Resource)
      (hphase : c.phase worker = .looking item ownerReferences reference remaining)
      (hkey : keyOf restMapping ⟨reference, (c.identity item).ns⟩ = some key) :
      Step c (.getOwner worker) (c.getOwner worker item ownerReferences reference remaining key)
  | deleteObject (worker : Worker) (item : Pointer)
      (ownerReferences : List OwnerReference) (key : Key Resource)
      (hphase : c.phase worker = .checking item ownerReferences [])
      (hkey : keyOf restMapping (c.identity item) = some key) :
      Step c (.deleteObject worker) (c.deleteObject worker item key)
  | fail (worker : Worker) : Step c (.fail worker) (c.enter worker .idle)

/-- When a deletion by a worker takes effect, none of the owners that the object lists at that
moment exists. -/
def Cluster.DeletesOrphansOnly (c : Cluster Resource Worker) : Prop :=
  ∀ worker item ownerReferences key object, c.phase worker = .checking item ownerReferences [] →
    keyOf restMapping (c.identity item) = some key →
    lookup key c.objects = some object → object.uid = (c.identity item).uid →
    ∀ reference ∈ object.ownerReferences, ¬ c.Alive reference.uid

end Kubernetes.GarbageCollector
