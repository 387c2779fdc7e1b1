import Mathlib.Data.Finset.Basic

/-!
# Deletion of a namespace

A call of `syncNamespace` gets the namespace, marks it as terminating, deletes its content, removes
the finalizer of the controller and deletes the namespace.  Every call of the API server is a step,
next to other calls for the name and to users who change namespaces of this name.

The API server updates a namespace if the version is the current one.  Its answers about the content
are an argument of the step; a type remembered as unsupported is one whose answer is `notSupported`.
-/

namespace Kubernetes.NamespaceController

/-- The answer to a call about a resource type.  `NotFound` and `MethodNotSupported` are read as
`notSupported`. -/
inductive Answer (Value : Type)
  | ok (value : Value)
  | notSupported
  | failed
  deriving DecidableEq, Repr

structure ContentAnswers where
  /-- The graceful termination of pods, which is never negative. -/
  estimate : Option ℕ
  client : Bool
  deleteCollection : Answer Unit
  listed : Answer Unit
  /-- Whether the items that were listed could be deleted, or were gone. -/
  itemsDeleted : Bool
  remaining : Answer (List (List String))

def finalizerEstimateSeconds : ℕ := 15

def deleteCollection : Answer Unit → Option Bool
  | .ok _ => some true
  | .notSupported => some false
  | .failed => none

def deleteEachItem (answers : ContentAnswers) : Option Unit :=
  match answers.listed with
  | .ok _ => guard answers.itemsDeleted
  | .notSupported => some ()
  | .failed => none

/-- Verify that there are no more items.  Items with a finalizer are waited for. -/
def verifyEmpty (estimate : ℕ) : Answer (List (List String)) → Option ℕ
  | .failed => none
  | .notSupported => some estimate
  | .ok items =>
    if items ≠ [] ∧ estimate = 0 then
      if items.all (·.isEmpty) = true then none else some finalizerEstimateSeconds
    else
      some estimate

/-- Delete the content of one type.  The result is an estimate of the remaining time. -/
def deleteAllContentForGroupVersionResource (answers : ContentAnswers) : Option ℕ := do
  let estimate ← answers.estimate
  guard answers.client
  let deleteCollectionSupported ← deleteCollection answers.deleteCollection
  (if deleteCollectionSupported = true then some () else deleteEachItem answers : Option Unit)
  verifyEmpty estimate answers.remaining

def deleteAllContent {Resource : Type} (answers : Resource → ContentAnswers)
    (groupVersionResources : List Resource) : Option ℕ :=
  groupVersionResources.foldlM
    (fun estimate resource ↦ do
      let resourceEstimate ← deleteAllContentForGroupVersionResource (answers resource)
      return max estimate resourceEstimate) 0

/-- What a call found out about the content: the types with their verbs, and the answers. -/
structure Content (Resource : Type) where
  resources : List (Resource × List String)
  answers : Resource → ContentAnswers

def Content.deletableResources {Resource : Type} (content : Content Resource) : List Resource :=
  (content.resources.filter fun resource ↦ "delete" ∈ resource.2).map Prod.fst

inductive NamespacePhase
  | active
  | terminating
  deriving DecidableEq, Repr

structure Namespace where
  uid : ℕ
  resourceVersion : ℕ
  deletionTimestamp : Option ℤ
  phase : NamespacePhase
  finalizers : Finset String
  deriving DecidableEq

/-- The object that the client returns with an error. -/
def Namespace.empty : Namespace := ⟨0, 0, none, .active, ∅⟩

def Namespace.SameVersion (ns other : Namespace) : Prop :=
  ns.uid = other.uid ∧ ns.resourceVersion = other.resourceVersion

/-- The first deletion starts the termination, and a namespace with finalizers is not removed. -/
def Namespace.delete (clock : ℕ) (now : ℤ) (ns : Namespace) : Option Namespace :=
  if ns.deletionTimestamp = none then
    some { ns with
      deletionTimestamp := some now, phase := .terminating, resourceVersion := clock }
  else if ns.finalizers = ∅ then
    none
  else
    some ns

/-- Where a call is.  The namespace is the one that was found terminating. -/
inductive Phase (Resource : Type)
  | idle
  | getting
  | updatingStatus (latest : Namespace)
  | refreshingStatus (latest : Namespace)
  | deletingFinalized (ns : Namespace)
  | emptying (ns : Namespace)
  | finalizing (ns latest : Namespace) (content : Content Resource)
  | refreshing (ns latest : Namespace) (content : Content Resource)
  | deletingEmptied (ns result : Namespace)

/-- A deletion that a call issued, the namespace that it had found terminating, and the finalizers
it knew of. -/
structure IssuedDelete where
  target : ℕ
  observed : Namespace
  finalizers : Finset String

structure Finalization (Resource : Type) where
  target : ℕ
  observed : Namespace
  content : Content Resource

structure Cluster (Resource : Type) where
  stored : Option Namespace
  clock : ℕ
  calls : ℕ → Phase Resource
  deletes : List IssuedDelete
  finalizations : List (Finalization Resource)

section Calls

variable {Resource : Type}

def observe (ns : Namespace) : Phase Resource :=
  if ns.deletionTimestamp = none then .idle
  else if ns.finalizers = ∅ then .deletingFinalized ns
  else .emptying ns

def Cluster.enter (c : Cluster Resource) (id : ℕ) (phase : Phase Resource) : Cluster Resource :=
  { c with calls := Function.update c.calls id phase }

def Cluster.store (c : Cluster Resource) (ns : Namespace) : Cluster Resource :=
  { c with stored := some { ns with resourceVersion := c.clock }, clock := c.clock + 1 }

/-- `Delete`, with the UID as a precondition or without. -/
def Cluster.delete (c : Cluster Resource) (precondition : Option ℕ) (now : ℤ) (observed : Namespace)
    (finalizers : Finset String) : Cluster Resource :=
  match c.stored with
  | none => c
  | some ns =>
    if precondition.all (· = ns.uid) = true then
      { c with
        stored := ns.delete c.clock now
        clock := c.clock + 1
        deletes := ⟨ns.uid, observed, finalizers⟩ :: c.deletes }
    else
      c

def Cluster.finalize (c : Cluster Resource) (ns : Namespace) (content : Content Resource)
    (current : Namespace) (finalizers : Finset String) : Cluster Resource :=
  { c.store { current with finalizers := finalizers } with
    finalizations := ⟨current.uid, ns, content⟩ :: c.finalizations }

inductive Label
  | other
  | call (id : ℕ)
  | deleteEmptied (id : ℕ)

variable (finalizerToken : String) (listable : Resource → Prop)

/-- The steps.  Types that can be listed never answer that they cannot. -/
inductive Step : Cluster Resource → Label → Cluster Resource → Prop
  | create (c) (finalizers : Finset String) :
      c.stored = none → Step c .other (c.store ⟨c.clock, 0, none, .active, finalizers⟩)
  | change (c ns phase finalizers) :
      c.stored = some ns →
      Step c .other (c.store { ns with phase := phase, finalizers := finalizers })
  | delete (c ns now) :
      c.stored = some ns →
      Step c .other { c with stored := ns.delete c.clock now, clock := c.clock + 1 }
  | start (c id) : c.calls id = .idle → Step c (.call id) (c.enter id .getting)
  -- an error ends a call, and so does an estimate of the remaining time
  | abort (c id) : Step c (.call id) (c.enter id .idle)
  | get (c id ns) :
      c.calls id = .getting → c.stored = some ns →
      Step c (.call id) (c.enter id (.updatingStatus ns))
  | keepStatus (c id latest) :
      c.calls id = .updatingStatus latest →
      latest.deletionTimestamp = none ∨ latest.phase = .terminating →
      Step c (.call id) (c.enter id (observe latest))
  | updateStatus (c id latest current) :
      c.calls id = .updatingStatus latest →
      ¬(latest.deletionTimestamp = none ∨ latest.phase = .terminating) →
      c.stored = some current → current.SameVersion latest →
      Step c (.call id) ((c.store { current with phase := .terminating }).enter id
        (observe { current with phase := .terminating, resourceVersion := c.clock }))
  | statusConflict (c id latest) :
      c.calls id = .updatingStatus latest →
      Step c (.call id) (c.enter id (.refreshingStatus latest))
  | refreshStatus (c id previous latest) :
      c.calls id = .refreshingStatus previous → c.stored = some latest →
      previous.uid = latest.uid → Step c (.call id) (c.enter id (.updatingStatus latest))
  | deleteFinalized (c id ns now) :
      c.calls id = .deletingFinalized ns →
      Step c (.call id) ((c.delete (some ns.uid) now ns ns.finalizers).enter id .idle)
  | empty (c id ns) (content : Content Resource) :
      c.calls id = .emptying ns →
      (∀ resource, listable resource → (content.answers resource).remaining ≠ .notSupported) →
      deleteAllContent content.answers content.deletableResources = some 0 →
      Step c (.call id) (c.enter id (.finalizing ns ns content))
  | finalize (c id ns latest content current) :
      c.calls id = .finalizing ns latest content →
      c.stored = some current → current.SameVersion latest →
      Step c (.call id) ((c.finalize ns content current (latest.finalizers.erase finalizerToken)).enter
        id (if latest.finalizers.erase finalizerToken = ∅ then
          .deletingEmptied ns { current with
            finalizers := latest.finalizers.erase finalizerToken, resourceVersion := c.clock }
        else .idle))
  | finalizeLost (c id ns latest content current) :
      c.calls id = .finalizing ns latest content →
      c.stored = some current → current.SameVersion latest →
      Step c (.call id)
        ((c.finalize ns content current (latest.finalizers.erase finalizerToken)).enter id .idle)
  | finalizeConflict (c id ns latest content) :
      c.calls id = .finalizing ns latest content →
      Step c (.call id) (c.enter id (.refreshing ns latest content))
  | refresh (c id ns previous latest content) :
      c.calls id = .refreshing ns previous content → c.stored = some latest →
      previous.uid = latest.uid → Step c (.call id) (c.enter id (.finalizing ns latest content))
  -- the error is dropped, and the empty object has no finalizers
  | finalizeNotFound (c id ns latest content) :
      c.calls id = .finalizing ns latest content → c.stored = none →
      Step c (.call id) (c.enter id (.deletingEmptied ns .empty))
  | deleteEmptied (c id ns result now) :
      c.calls id = .deletingEmptied ns result →
      Step c (.deleteEmptied id) ((c.delete none now ns result.finalizers).enter id .idle)

def Initial (c : Cluster Resource) : Prop :=
  (∀ id, c.calls id = .idle) ∧ c.deletes = [] ∧ c.finalizations = []

end Calls

end Kubernetes.NamespaceController
