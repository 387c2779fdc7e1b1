import Kubernetes.Basic.Map

/-!
# The delta queue of the client cache

`DeltaFIFO` is the queue between a reflector and an informer.  It keeps, for every key with pending
changes, the deltas since the key was last popped, and the order of the keys.  An operation returns
the state after it together with the Go `error`, because several operations change the state before
they fail.

`ListKeys` of the known objects, and the loop over `items` in a `replace` without known objects,
take the order as an argument.
-/

namespace Kubernetes.Client

inductive DeltaType
  | added
  | updated
  | deleted
  | sync
  deriving DecidableEq, Repr

/-- An API object, or the tombstone of a missed deletion, with `nil` for an unknown object. -/
inductive Obj (Object : Type)
  | nil
  | object (value : Object)
  | deletedFinalStateUnknown (key : String) (obj : Obj Object)
  deriving DecidableEq, Repr

structure Delta (Object : Type) where
  type : DeltaType
  object : Obj Object
  deriving DecidableEq, Repr

/-- The changes of one object, oldest first. -/
abbrev Deltas (Object : Type) := List (Delta Object)

variable {Object : Type}

def Deltas.newest (deltas : Deltas Object) : Option (Delta Object) := deltas.getLast?

inductive Error (Object : Type)
  | keyFunc (message : String)
  | keyError (obj : Obj Object) (err : Error Object)
  | deltasKeyError (deltas : Deltas Object) (err : Error Object)
  | couldntEnqueue (err : Error Object)
  | couldntQueue (err : Error Object)
  deriving DecidableEq, Repr

/-- `keyFunc` extended to tombstones, for the queue and for the store it feeds. -/
def keyOf (keyFunc : Object → Except String String) : Obj Object → Except (Error Object) String
  | .deletedFinalStateUnknown key _ => .ok key
  | .object value =>
    match keyFunc value with
    | .ok key => .ok key
    | .error message => .error (.keyFunc message)
  | .nil => .error (.keyFunc "object has no meta")

structure KeyListerGetter (Object : Type) where
  listKeys : List String
  getByKey : String → Except String (Option (Obj Object))

structure Config (Object : Type) where
  keyFunc : Object → Except String String
  deltaCompressor : Option (Deltas Object → Deltas Object)

structure DeltaFIFO (Object : Type) where
  items : Map String (Deltas Object)
  queue : List String
  populated : Bool
  initialPopulationCount : ℕ

def newDeltaFIFO : DeltaFIFO Object where
  items := ∅
  queue := []
  populated := false
  initialPopulationCount := 0

/-- The delta to keep of two deletions, the newer one first. -/
def isDeletionDup (a b : Delta Object) : Option (Delta Object) :=
  if b.type ≠ .deleted ∨ a.type ≠ .deleted then none
  else
    match b.object with
    | .deletedFinalStateUnknown _ _ => some a
    | _ => some b

def isDup (a b : Delta Object) : Option (Delta Object) := isDeletionDup a b

/-- Combine the most recent two deltas if they are the same event. -/
def dedupDeltas (deltas : Deltas Object) : Deltas Object :=
  match deltas.reverse with
  | a :: b :: older =>
    match isDup a b with
    | some out => older.reverse ++ [out]
    | none => deltas
  | _ => deltas

namespace DeltaFIFO

/-- `f.items[id]`, the empty slice when the key is absent. -/
def deltasAt (fifo : DeltaFIFO Object) (id : String) : Deltas Object :=
  (fifo.items.lookup id).getD []

def willObjectBeDeletedLocked (fifo : DeltaFIFO Object) (id : String) : Bool :=
  match Deltas.newest (fifo.deltasAt id) with
  | some delta => delta.type = .deleted
  | none => false

section

variable (config : Config Object) (fifo : DeltaFIFO Object)

/-- Append to the delta list of the object, running the compressor if there is one. -/
def queueActionLocked (actionType : DeltaType) (obj : Obj Object) : DeltaFIFO Object × Option (Error
    Object) :=
  match keyOf config.keyFunc obj with
  | .error err => (fifo, some (.keyError obj err))
  | .ok id =>
    if actionType = .sync ∧ fifo.willObjectBeDeletedLocked id = true then (fifo, none)
    else
      let appended := dedupDeltas (fifo.deltasAt id ++ [⟨actionType, obj⟩])
      let newDeltas :=
        match config.deltaCompressor with
        | some compress => compress appended
        | none => appended
      if newDeltas ≠ [] then
        ({ fifo with
            queue := if id ∈ fifo.items then fifo.queue else fifo.queue ++ [id]
            items := fifo.items.insert id newDeltas }, none)
      else if id ∈ fifo.items then
        ({ fifo with items := fifo.items.erase id }, none)
      else (fifo, none)

def add (obj : Obj Object) : DeltaFIFO Object × Option (Error Object) :=
  queueActionLocked config { fifo with populated := true } .added obj

def update (obj : Obj Object) : DeltaFIFO Object × Option (Error Object) :=
  queueActionLocked config { fifo with populated := true } .updated obj

end

/-- `Delete` queues a `deleted` delta, unless the object is neither known nor queued. -/
def delete (config : Config Object) (knownObjects : Option (KeyListerGetter Object))
    (fifo : DeltaFIFO Object) (obj : Obj Object) : DeltaFIFO Object × Option (Error Object) :=
  match keyOf config.keyFunc obj with
  | .error err => (fifo, some (.keyError obj err))
  | .ok id =>
    let populated := { fifo with populated := true }
    match knownObjects with
    | none =>
      if id ∈ fifo.items then queueActionLocked config populated .deleted obj
      else (populated, none)
    | some known =>
      match known.getByKey id with
      | .ok none =>
        if id ∈ fifo.items then queueActionLocked config populated .deleted obj
        else (populated, none)
      | _ => queueActionLocked config populated .deleted obj

/-- `addIfNotPresent` puts back deltas that could not be processed. -/
def addIfNotPresent (fifo : DeltaFIFO Object) (id : String) (deltas : Deltas Object) :
    DeltaFIFO Object :=
  if id ∈ fifo.items then { fifo with populated := true }
  else
    { fifo with
      populated := true
      queue := fifo.queue ++ [id]
      items := fifo.items.insert id deltas }

/-- The first loop of `Replace`: queue a `sync` for every listed item and collect the keys. -/
def replaceItems (config : Config Object) :
    List (Obj Object) → DeltaFIFO Object → List String →
      DeltaFIFO Object × List String × Option (Error Object)
  | [], fifo, keys => (fifo, keys, none)
  | item :: rest, fifo, keys =>
    match keyOf config.keyFunc item with
    | .error err => (fifo, keys, some (.keyError item err))
    | .ok key =>
      match queueActionLocked config fifo .sync item with
      | (fifo, some err) => (fifo, keys ++ [key], some (.couldntEnqueue err))
      | (fifo, none) => replaceItems config rest fifo (keys ++ [key])

/-- Deletion detection of `Replace` without known objects, against the queue's own items. -/
def replaceDeleteQueued (config : Config Object) (keys : List String) :
    List String → DeltaFIFO Object → DeltaFIFO Object × Option (Error Object)
  | [], fifo => (fifo, none)
  | key :: rest, fifo =>
    if key ∈ keys then replaceDeleteQueued config keys rest fifo
    else
      let deletedObj :=
        match Deltas.newest (fifo.deltasAt key) with
        | some delta => delta.object
        | none => .nil
      match queueActionLocked config fifo .deleted (.deletedFinalStateUnknown key deletedObj) with
      | (fifo, some err) => (fifo, some err)
      | (fifo, none) => replaceDeleteQueued config keys rest fifo

/-- Deletion detection against the known objects, with the number of queued deletions. -/
def replaceDeleteKnown (config : Config Object) (known : KeyListerGetter Object)
    (keys : List String) :
    List String → DeltaFIFO Object → ℕ → DeltaFIFO Object × ℕ × Option (Error Object)
  | [], fifo, queuedDeletions => (fifo, queuedDeletions, none)
  | key :: rest, fifo, queuedDeletions =>
    if key ∈ keys then replaceDeleteKnown config known keys rest fifo queuedDeletions
    else
      let deletedObj :=
        match known.getByKey key with
        | .ok (some obj) => obj
        | _ => .nil
      match queueActionLocked config fifo .deleted (.deletedFinalStateUnknown key deletedObj) with
      | (fifo, some err) => (fifo, queuedDeletions + 1, some err)
      | (fifo, none) => replaceDeleteKnown config known keys rest fifo (queuedDeletions + 1)

/-- The first call of `Replace` fixes the number of items the initial population has. -/
def populate (fifo : DeltaFIFO Object) (count : ℕ) : DeltaFIFO Object :=
  if fifo.populated then fifo
  else { fifo with populated := true, initialPopulationCount := count }

/-- `Replace` queues a `sync` for every listed item and deletions for the others.  `itemOrder` is
the order of the items when no objects are known. -/
def replace (config : Config Object) (knownObjects : Option (KeyListerGetter Object))
    (itemOrder : List String) (fifo : DeltaFIFO Object) (list : List (Obj Object)) :
    DeltaFIFO Object × Option (Error Object) :=
  match replaceItems config list fifo [] with
  | (fifo, _, some err) => (fifo, some err)
  | (fifo, keys, none) =>
    match knownObjects with
    | none =>
      match replaceDeleteQueued config keys itemOrder fifo with
      | (fifo, some err) => (fifo, some err)
      | (fifo, none) => (fifo.populate list.length, none)
    | some known =>
      match replaceDeleteKnown config known keys known.listKeys fifo 0 with
      | (fifo, _, some err) => (fifo, some err)
      | (fifo, queuedDeletions, none) => (fifo.populate (list.length + queuedDeletions), none)

/-- `syncKey` queues a `sync` for a known object that has no pending delta. -/
def syncKey (config : Config Object) (known : KeyListerGetter Object)
    (fifo : DeltaFIFO Object) (key : String) : DeltaFIFO Object × Option (Error Object) :=
  match known.getByKey key with
  | .ok (some obj) =>
    match keyOf config.keyFunc obj with
    | .error err => (fifo, some (.keyError obj err))
    | .ok id =>
      if fifo.deltasAt id ≠ [] then (fifo, none)
      else
        match queueActionLocked config fifo .sync obj with
        | (fifo, some err) => (fifo, some (.couldntQueue err))
        | (fifo, none) => (fifo, none)
  | _ => (fifo, none)

/-! ## What the producers keep

Every producer but `AddIfNotPresent` changes the queue through `queueActionLocked` and the two
population fields only. -/

section

variable {config : Config Object} {P : DeltaFIFO Object → Prop} {fifo : DeltaFIFO Object}

section

variable (hsync : ∀ fifo obj, P fifo → P (fifo.queueActionLocked config .sync obj).1)

include hsync

theorem replaceItems_rec (list : List (Obj Object)) (hfifo : P fifo) (keys : List String) :
    P (replaceItems config list fifo keys).1 := by
  induction list generalizing fifo keys with
  | nil => exact hfifo
  | cons item rest ih =>
    have hqueued := hsync fifo item hfifo
    rw [replaceItems]
    split
    · exact hfifo
    · split
      · next heq => exact (heq ▸ hqueued :)
      · next heq => exact ih (heq ▸ hqueued :) _

theorem syncKey_rec (hfifo : P fifo) (known : KeyListerGetter Object) (key : String) :
    P (fifo.syncKey config known key).1 := by
  unfold syncKey
  split
  · next obj _ =>
    have hqueued := hsync fifo obj hfifo
    split
    · exact hfifo
    · split_ifs
      · exact hfifo
      · split <;> next heq => exact (heq ▸ hqueued :)
  · exact hfifo

end

/-- A property that survives queued actions and the bookkeeping of the initial population. -/
structure Kept (config : Config Object) (P : DeltaFIFO Object → Prop) : Prop where
  setPopulated : ∀ fifo, P fifo → P { fifo with populated := true }
  populate : ∀ fifo count, P fifo → P (fifo.populate count)
  action : ∀ fifo actionType obj, P fifo → P (fifo.queueActionLocked config actionType obj).1

namespace Kept

variable (hkept : Kept config P)

include hkept

theorem of_action (hfifo : P fifo) {actionType : DeltaType} {obj : Obj Object}
    {target : DeltaFIFO Object} {err : Option (Error Object)}
    (heq : fifo.queueActionLocked config actionType obj = (target, err)) : P target := by
  have hqueued := hkept.action fifo actionType obj hfifo
  rwa [heq] at hqueued

theorem delete (hfifo : P fifo) (knownObjects : Option (KeyListerGetter Object))
    (obj : Obj Object) : P (fifo.delete config knownObjects obj).1 := by
  have hpop := hkept.setPopulated fifo hfifo
  have hqueued := hkept.action _ .deleted obj hpop
  unfold DeltaFIFO.delete
  split
  · exact hfifo
  · split
    · split_ifs
      · exact hqueued
      · exact hpop
    · split
      · split_ifs
        · exact hqueued
        · exact hpop
      · exact hqueued

theorem replaceDeleteQueued (keys order : List String) (hfifo : P fifo) :
    P (DeltaFIFO.replaceDeleteQueued config keys order fifo).1 := by
  induction order generalizing fifo with
  | nil => exact hfifo
  | cons key rest ih =>
    rw [DeltaFIFO.replaceDeleteQueued]
    split_ifs
    · exact ih hfifo
    · dsimp only
      split
      · next heq => exact hkept.of_action hfifo heq
      · next heq => exact ih (hkept.of_action hfifo heq)

theorem replaceDeleteKnown (known : KeyListerGetter Object) (keys order : List String)
    (hfifo : P fifo) (count : ℕ) :
    P (DeltaFIFO.replaceDeleteKnown config known keys order fifo count).1 := by
  induction order generalizing fifo count with
  | nil => exact hfifo
  | cons key rest ih =>
    rw [DeltaFIFO.replaceDeleteKnown]
    split_ifs
    · exact ih hfifo count
    · dsimp only
      split
      · next heq => exact hkept.of_action hfifo heq
      · next heq => exact ih (hkept.of_action hfifo heq) _

/-- Also a `Replace` that stops at an item without a key keeps the property. -/
theorem replace (hfifo : P fifo) (knownObjects : Option (KeyListerGetter Object))
    (itemOrder : List String) (list : List (Obj Object)) :
    P (fifo.replace config knownObjects itemOrder list).1 := by
  have hlist := replaceItems_rec (fun fifo ↦ hkept.action fifo .sync) list hfifo []
  unfold DeltaFIFO.replace
  split
  · next heq => exact (heq ▸ hlist :)
  · next listed keys heq =>
    replace hlist : P listed := (heq ▸ hlist :)
    split
    · have hdel := hkept.replaceDeleteQueued keys itemOrder hlist
      split
      · next heq => exact (heq ▸ hdel :)
      · next heq => exact hkept.populate _ _ (heq ▸ hdel :)
    · next known =>
      have hdel := hkept.replaceDeleteKnown known keys known.listKeys hlist 0
      split
      · next heq => exact (heq ▸ hdel :)
      · next heq => exact hkept.populate _ _ (heq ▸ hdel :)

end Kept

end

end DeltaFIFO

inductive ProcessError (Object : Type)
  | requeue (err : Option (Error Object))
  | error (err : Error Object)

structure Popped (Object : Type) where
  item : Deltas Object
  err : Option (Error Object)

namespace DeltaFIFO

variable {Consumer : Type}

/-- The loop of `Pop`.  Keys without an item are dropped, and with none left the call waits. -/
def popLoop (process : Consumer → Deltas Object → Consumer × Option (ProcessError Object))
    (consumer : Consumer) :
    List String → DeltaFIFO Object → DeltaFIFO Object × Consumer × Option (Popped Object)
  | [], fifo => ({ fifo with queue := [] }, consumer, none)
  | id :: rest, fifo =>
    let dequeued :=
      { fifo with queue := rest, initialPopulationCount := fifo.initialPopulationCount - 1 }
    match fifo.items.lookup id with
    | none => popLoop process consumer rest dequeued
    | some item =>
      let removed := { dequeued with items := fifo.items.erase id }
      match process consumer item with
      | (consumer, none) => (removed, consumer, some ⟨item, none⟩)
      | (consumer, some (.error err)) => (removed, consumer, some ⟨item, some err⟩)
      | (consumer, some (.requeue err)) =>
        (removed.addIfNotPresent id item, consumer, some ⟨item, err⟩)

/-- `Pop` hands the oldest queued item to the process function, under the lock. -/
def pop (process : Consumer → Deltas Object → Consumer × Option (ProcessError Object))
    (consumer : Consumer) (fifo : DeltaFIFO Object) :
    DeltaFIFO Object × Consumer × Option (Popped Object) :=
  popLoop process consumer fifo.queue fifo

end DeltaFIFO

end Kubernetes.Client
