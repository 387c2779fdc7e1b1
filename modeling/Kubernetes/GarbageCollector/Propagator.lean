import Kubernetes.Basic.Map

/-!
# The propagator of the garbage collector

The garbage collector keeps a graph of the objects and their owners.  A single goroutine updates it
from the events of all resources.  An owner that no event was about gets a virtual node.  The
deletion of an owner puts its dependents into the dirty queue.

Pointers to nodes are numbers here, and `nodes` is the memory.  The queues list all nodes ever put
into them.  Loops over maps take the order as an argument.
-/

namespace Kubernetes.GarbageCollector

open Finmap

abbrev UID := String

structure OwnerReference where
  apiVersion : String
  kind : String
  name : String
  uid : UID
  deriving DecidableEq, Repr

/-- A reference with the namespace that the dynamic client needs. -/
structure ObjectReference extends OwnerReference where
  ns : String
  deriving DecidableEq, Repr

structure ObjectMeta extends ObjectReference where
  ownerReferences : List OwnerReference
  deleting : Bool
  finalizers : List String
  deriving DecidableEq, Repr

inductive EventType
  | addEvent
  | updateEvent
  | deleteEvent
  deriving DecidableEq, Repr

structure Event where
  eventType : EventType
  obj : ObjectMeta
  oldObj : Option ObjectMeta
  deriving DecidableEq, Repr

def finalizerOrphan : String := "orphan"

/-- The object has just been marked for deletion, and its dependents are to be kept. -/
def shouldOrphanDependents (e : Event) (accessor : ObjectMeta) : Bool :=
  match e.oldObj with
  | none => accessor.deleting && accessor.finalizers.contains finalizerOrphan
  | some oldObj =>
    accessor.deleting && !oldObj.deleting && accessor.finalizers.contains finalizerOrphan

/-- A least recently used cache of UIDs, the most recent one first. -/
structure UIDCache where
  entries : List UID
  deriving DecidableEq, Repr

variable {cache : UIDCache} {uid other : UID}

namespace UIDCache

def maxCacheEntries : ℕ := 500

def add (cache : UIDCache) (uid : UID) : UIDCache :=
  if uid ∈ cache.entries then ⟨uid :: cache.entries.erase uid⟩
  else ⟨(uid :: cache.entries).take maxCacheEntries⟩

/-- Whether a UID is in the cache.  If it is, it becomes the most recent one. -/
def has (cache : UIDCache) (uid : UID) : Bool × UIDCache :=
  if uid ∈ cache.entries then (true, ⟨uid :: cache.entries.erase uid⟩) else (false, cache)

theorem mem_add (hmem : other ∈ (cache.add uid).entries) :
    other = uid ∨ other ∈ cache.entries := by
  rw [add] at hmem
  split_ifs at hmem
  · exact (List.mem_cons.mp hmem).imp_right List.mem_of_mem_erase
  · exact List.mem_cons.mp (List.mem_of_mem_take hmem)

theorem mem_has (hmem : other ∈ (cache.has uid).2.entries) :
    other ∈ cache.entries := by
  rw [has] at hmem
  split_ifs at hmem with hhas
  · rcases List.mem_cons.mp hmem with rfl | hrest
    · exact hhas
    · exact List.mem_of_mem_erase hrest
  · exact hmem

theorem has_eq_true {uid : UID} :
    (cache.has uid).1 = true ↔ uid ∈ cache.entries := by
  rw [has]
  split_ifs with hhas <;> simp [hhas]

end UIDCache

abbrev Pointer := ℕ

structure Node where
  identity : ObjectReference
  dependents : Finset Pointer
  owners : List OwnerReference
  deriving DecidableEq

/-- The propagator, with the queues and the cache that it shares with the garbage collector. -/
structure Propagator where
  nodes : Pointer → Node
  next : Pointer
  uidToNode : Map UID Pointer
  dirtyQueue : List Pointer
  orphanQueue : List Pointer
  absentOwnerCache : UIDCache

structure Loops where
  added : List UID
  removed : List UID
  dependents : List Pointer

namespace Propagator

def new : Propagator where
  nodes := fun _ ↦ ⟨⟨⟨"", "", "", ""⟩, ""⟩, ∅, []⟩
  next := 0
  uidToNode := ∅
  dirtyQueue := []
  orphanQueue := []
  absentOwnerCache := ⟨[]⟩

def addDependent (p : Propagator) (ownerNode dependent : Pointer) : Propagator :=
  { p with
    nodes := Function.update p.nodes ownerNode
      { p.nodes ownerNode with
        dependents := insert dependent (p.nodes ownerNode).dependents } }

def deleteDependent (p : Propagator) (ownerNode dependent : Pointer) : Propagator :=
  { p with
    nodes := Function.update p.nodes ownerNode
      { p.nodes ownerNode with
        dependents := (p.nodes ownerNode).dependents.erase dependent } }

/-- Allocate a node without dependents, and write it to the graph.  It is at the former `next`. -/
def write (p : Propagator) (identity : ObjectReference) (owners : List OwnerReference) :
    Propagator :=
  { p with
    nodes := Function.update p.nodes p.next ⟨identity, ∅, owners⟩
    next := p.next + 1
    uidToNode := insert identity.uid p.next p.uidToNode }

/-- The loop body of `addDependentToOwners`.  An owner outside the graph gets a virtual node in the
dirty queue. -/
def addDependentToOwner (n : Pointer) (p : Propagator) (owner : OwnerReference) : Propagator :=
  match lookup owner.uid p.uidToNode with
  | some ownerNode => p.addDependent ownerNode n
  | none =>
    { p.write ⟨owner, (p.nodes n).identity.ns⟩ [] with
      dirtyQueue := p.dirtyQueue ++ [p.next] }.addDependent p.next n

def addDependentToOwners (n : Pointer) (owners : List OwnerReference) (p : Propagator) :
    Propagator :=
  owners.foldl (addDependentToOwner n) p

def insertNode (p : Propagator) (identity : ObjectReference) (owners : List OwnerReference) :
    Propagator :=
  (p.write identity owners).addDependentToOwners p.next owners

def removeDependentFromOwner (n : Pointer) (p : Propagator) (owner : OwnerReference) : Propagator :=
  match lookup owner.uid p.uidToNode with
  | some ownerNode => p.deleteDependent ownerNode n
  | none => p

def removeDependentFromOwners (n : Pointer) (owners : List OwnerReference) (p : Propagator) :
    Propagator :=
  owners.foldl (removeDependentFromOwner n) p

def removeNode (p : Propagator) (n : Pointer) : Propagator :=
  { p with uidToNode := erase (p.nodes n).identity.uid p.uidToNode }.removeDependentFromOwners
    n (p.nodes n).owners

end Propagator

/-- The references by their UIDs.  The last one with a UID counts. -/
def uidToRef (refs : List OwnerReference) : Map UID OwnerReference :=
  refs.foldl (fun entries ref ↦ insert ref.uid ref entries) ∅

/-- The references whose UIDs are only in the second list, and those whose UIDs are only in the
first. -/
def referencesDiffs (loops : Loops) (old new : List OwnerReference) :
    List OwnerReference × List OwnerReference :=
  (loops.added.filterMap fun uid ↦ lookup uid (uidToRef new),
    loops.removed.filterMap fun uid ↦ lookup uid (uidToRef old))

namespace Propagator

def addToOrphanQueue (p : Propagator) (orphan : Bool) (n : Pointer) : Propagator :=
  if orphan then { p with orphanQueue := p.orphanQueue ++ [n] } else p

/-- Record new owner references of a node, and update the dependents of its owners.  Nothing is
recorded if the UIDs are the same. -/
def updateOwners (p : Propagator) (loops : Loops) (n : Pointer) (refs : List OwnerReference) :
    Propagator :=
  let (added, removed) := referencesDiffs loops (p.nodes n).owners refs
  if added = [] ∧ removed = [] then p
  else
    { p with nodes := Function.update p.nodes n { p.nodes n with owners := refs } }
      |>.addDependentToOwners n added |>.removeDependentFromOwners n removed

/-- Remove a node from the graph, and put its dependents into the dirty queue. -/
def deleteNode (p : Propagator) (loops : Loops) (n : Pointer) (uid : UID) : Propagator :=
  let p := p.removeNode n
  { p with
    absentOwnerCache :=
      if (p.nodes n).dependents = ∅ then p.absentOwnerCache else p.absentOwnerCache.add uid
    dirtyQueue := p.dirtyQueue ++ loops.dependents }

def processEvent (p : Propagator) (loops : Loops) (event : Event) : Propagator :=
  let accessor := event.obj
  match event.eventType, lookup accessor.uid p.uidToNode with
  | .deleteEvent, none => p
  | .deleteEvent, some existingNode => p.deleteNode loops existingNode accessor.uid
  | .addEvent, none | .updateEvent, none =>
    p.insertNode accessor.toObjectReference accessor.ownerReferences
      |>.addToOrphanQueue (shouldOrphanDependents event accessor) p.next
  | .addEvent, some existingNode | .updateEvent, some existingNode =>
    p.addToOrphanQueue (shouldOrphanDependents event accessor) existingNode
      |>.updateOwners loops existingNode accessor.ownerReferences

end Propagator

def uids (refs : List OwnerReference) : Finset UID := (refs.map (·.uid)).toFinset

structure Loops.Visit (loops : Loops) (p : Propagator) (event : Event) : Prop where
  added : ∀ n, lookup event.obj.uid p.uidToNode = some n → loops.added.Nodup ∧
    loops.added.toFinset = uids event.obj.ownerReferences \ uids (p.nodes n).owners
  removed : ∀ n, lookup event.obj.uid p.uidToNode = some n → loops.removed.Nodup ∧
    loops.removed.toFinset = uids (p.nodes n).owners \ uids event.obj.ownerReferences
  dependents : ∀ n, lookup event.obj.uid p.uidToNode = some n → loops.dependents.Nodup ∧
    loops.dependents.toFinset = ((p.removeNode n).nodes n).dependents

def Propagator.Step (p : Propagator) (event : Event) (target : Propagator) : Prop :=
  ∃ loops : Loops, loops.Visit p event ∧ target = p.processEvent loops event

end Kubernetes.GarbageCollector
