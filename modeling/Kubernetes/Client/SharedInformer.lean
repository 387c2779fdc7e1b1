import Kubernetes.Basic.Transition
import Kubernetes.Client.DeltaFIFO

/-!
# The shared informer

A shared informer owns an indexer, a delta queue that uses the indexer as its known objects, and the
listeners.  The consumer pops under the queue's lock and applies `HandleDeltas`, so a pop is one
step.  `Resync` lists the known keys in one critical section and syncs each of them in another.
-/

namespace Kubernetes.Client

variable {Object : Type}

abbrev Store (Object : Type) := Map String (Obj Object)

namespace Store

section

variable (keyFunc : Object → Except String String) (store : Store Object) (obj : Obj Object)

def add : Store Object × Option (Error Object) :=
  match keyOf keyFunc obj with
  | .error err => (store, some (.keyError obj err))
  | .ok key => (store.insert key obj, none)

def update : Store Object × Option (Error Object) :=
  store.add keyFunc obj

def delete : Store Object × Option (Error Object) :=
  match keyOf keyFunc obj with
  | .error err => (store, some (.keyError obj err))
  | .ok key => (store.erase key, none)

def get : Except (Error Object) (Option (Obj Object)) :=
  match keyOf keyFunc obj with
  | .error err => .error (.keyError obj err)
  | .ok key => .ok (store.lookup key)

end

/-- The store as the known objects of a queue, with an order of its keys. -/
def knownObjects (store : Store Object) (order : List String) : KeyListerGetter Object where
  listKeys := order
  getByKey key := .ok (store.lookup key)

end Store

inductive Notification (Object : Type)
  | add (newObj : Obj Object)
  | update (oldObj newObj : Obj Object)
  | delete (oldObj : Obj Object)
  deriving DecidableEq, Repr

/-- The notifications added to each listener, oldest first. -/
abbrev Listeners (Object : Type) := List (List (Notification Object))

def distribute (listeners : Listeners Object) (notification : Notification Object) :
    Listeners Object :=
  listeners.map (· ++ [notification])

structure SharedIndexInformer (Object : Type) where
  indexer : Store Object
  listeners : Listeners Object

namespace SharedIndexInformer

def handleDelta (keyFunc : Object → Except String String)
    (informer : SharedIndexInformer Object) (delta : Delta Object) :
    SharedIndexInformer Object × Option (Error Object) :=
  match delta.type with
  | .sync | .added | .updated =>
    match informer.indexer.get keyFunc delta.object with
    | .ok (some old) =>
      match informer.indexer.update keyFunc delta.object with
      | (_, some err) => (informer, some err)
      | (indexer, none) =>
        (⟨indexer, distribute informer.listeners (.update old delta.object)⟩, none)
    | _ =>
      match informer.indexer.add keyFunc delta.object with
      | (_, some err) => (informer, some err)
      | (indexer, none) =>
        (⟨indexer, distribute informer.listeners (.add delta.object)⟩, none)
  | .deleted =>
    match informer.indexer.delete keyFunc delta.object with
    | (_, some err) => (informer, some err)
    | (indexer, none) =>
      (⟨indexer, distribute informer.listeners (.delete delta.object)⟩, none)

def handleDeltas (keyFunc : Object → Except String String) :
    SharedIndexInformer Object → Deltas Object → SharedIndexInformer Object × Option (Error Object)
  | informer, [] => (informer, none)
  | informer, delta :: rest =>
    match informer.handleDelta keyFunc delta with
    | (informer, some err) => (informer, some err)
    | (informer, none) => handleDeltas keyFunc informer rest

/-- `HandleDeltas` as the process function of `Pop`.  It never asks for a requeue. -/
def process (keyFunc : Object → Except String String) (informer : SharedIndexInformer Object)
    (deltas : Deltas Object) : SharedIndexInformer Object × Option (ProcessError Object) :=
  match informer.handleDeltas keyFunc deltas with
  | (informer, some err) => (informer, some (.error err))
  | (informer, none) => (informer, none)

end SharedIndexInformer

/-- Queue and consumer, with the keys that each running `Resync` has listed and not yet synced. -/
structure InformerState (Object : Type) where
  fifo : DeltaFIFO Object
  informer : SharedIndexInformer Object
  resyncs : List (List String)

namespace InformerState

def config (keyFunc : Object → Except String String) : Config Object where
  keyFunc := keyFunc
  deltaCompressor := none

variable (keyFunc : Object → Except String String) (state : InformerState Object)

def add (obj : Obj Object) : DeltaFIFO Object × Option (Error Object) :=
  state.fifo.add (config keyFunc) obj

def update (obj : Obj Object) : DeltaFIFO Object × Option (Error Object) :=
  state.fifo.update (config keyFunc) obj

def delete (obj : Obj Object) : DeltaFIFO Object × Option (Error Object) :=
  state.fifo.delete (config keyFunc) (some (state.informer.indexer.knownObjects [])) obj

/-- The queue after a producer's `Replace`, which lists the known keys in the given order. -/
def replace (order : List String) (list : List (Obj Object)) :
    DeltaFIFO Object × Option (Error Object) :=
  state.fifo.replace (config keyFunc) (some (state.informer.indexer.knownObjects order)) [] list

def syncKey (key : String) : DeltaFIFO Object × Option (Error Object) :=
  state.fifo.syncKey (config keyFunc) (state.informer.indexer.knownObjects []) key

def pop : InformerState Object :=
  match state.fifo.pop (SharedIndexInformer.process keyFunc) state.informer with
  | (fifo, informer, _) => { state with fifo := fifo, informer := informer }

end InformerState

inductive InformerOp (Object : Type)
  | add (obj : Obj Object)
  | update (obj : Obj Object)
  | delete (obj : Obj Object)
  | replace (list : List (Obj Object))
  | resync
  | syncKey (key : String)
  | pop

/-- One step of the joint system.  An error of one turn ends the `Resync` it belongs to. -/
inductive InformerStep (keyFunc : Object → Except String String) (state : InformerState Object) :
    InformerOp Object → InformerState Object → Prop
  | add (obj : Obj Object) :
      InformerStep keyFunc state (.add obj) { state with fifo := (state.add keyFunc obj).1 }
  | update (obj : Obj Object) :
      InformerStep keyFunc state (.update obj) { state with fifo := (state.update keyFunc obj).1 }
  | delete (obj : Obj Object) :
      InformerStep keyFunc state (.delete obj) { state with fifo := (state.delete keyFunc obj).1 }
  | replace (order : List String) (horder : Map.IsOrder order state.informer.indexer)
      (list : List (Obj Object)) :
      InformerStep keyFunc state (.replace list)
        { state with fifo := (state.replace keyFunc order list).1 }
  | resync (order : List String) (horder : Map.IsOrder order state.informer.indexer) :
      InformerStep keyFunc state .resync { state with resyncs := order :: state.resyncs }
  | syncKey (before after : List (List String)) (key : String) (rest : List String)
      (hresync : state.resyncs = before ++ (key :: rest) :: after) :
      InformerStep keyFunc state (.syncKey key)
        { state with
          fifo := (state.syncKey keyFunc key).1
          resyncs :=
            match (state.syncKey keyFunc key).2 with
            | some _ => before ++ after
            | none => before ++ rest :: after }
  | pop : InformerStep keyFunc state .pop (state.pop keyFunc)

def IsNewInformer (state : InformerState Object) : Prop :=
  state.fifo = newDeltaFIFO ∧ state.informer.indexer = ∅ ∧
    (∀ listener ∈ state.informer.listeners, listener = []) ∧ state.resyncs = []

def InformerState.Reachable (keyFunc : Object → Except String String) :
    InformerState Object → Prop :=
  Transition.Reachable IsNewInformer (InformerStep keyFunc)

end Kubernetes.Client
