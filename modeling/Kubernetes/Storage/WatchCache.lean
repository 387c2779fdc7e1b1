import Kubernetes.Basic.Decimal
import Kubernetes.Basic.Map
import Kubernetes.Basic.RingBuffer

/-!
# The watch cache

`watchCache` mirrors a collection of the storage.  It keeps the current objects in a store and the
most recent events in a cyclic buffer, and answers which events happened after a resource version.
A reflector fills it: `Replace` with the result of a list, then `Add`, `Update` and `Delete` with
the events of a watch.

Resource versions are 64-bit unsigned integers with wrapping subtraction.  The labels and fields of
an object travel together as its attributes.
-/

namespace Kubernetes.Storage

inductive EventType
  | added
  | modified
  | deleted
  deriving DecidableEq, Repr

structure Event (Obj : Type) where
  type : EventType
  object : Obj
  deriving DecidableEq, Repr

structure WatchCacheEvent (Obj Attrs : Type) where
  type : EventType
  object : Obj
  objAttrs : Attrs
  prevObject : Option Obj
  prevObjAttrs : Option Attrs
  key : String
  resourceVersion : UInt64
  deriving DecidableEq, Repr

/-- A cell of the cyclic buffer.  The event is nil until the cell is first written. -/
structure WatchCacheElement (Obj Attrs : Type) where
  resourceVersion : UInt64
  watchCacheEvent : Option (WatchCacheEvent Obj Attrs)

inductive CacheError
  | gone (message : String)
  | parse (err : Decimal.NumError)
  | other (message : String)
  deriving DecidableEq, Repr

/-- The functions a cache is created with, and the metadata accessor of its objects. -/
structure CacheConfig (Obj Attrs : Type) where
  keyFunc : Obj → Except String String
  getAttrsFunc : Obj → Except String Attrs
  accessor : Obj → Except String String

structure WatchCache (Obj Attrs : Type) (capacity : ℕ) where
  window : RingBuffer (WatchCacheElement Obj Attrs) capacity
  store : Map String Obj
  resourceVersion : UInt64

variable {Obj Attrs : Type} {capacity : ℕ}

def newWatchCache (Obj Attrs : Type) (capacity : ℕ) : WatchCache Obj Attrs capacity where
  window :=
    { cells := fun _ ↦ ⟨0, none⟩
      startIndex := 0
      endIndex := 0
      start_le := Nat.le_refl _
      end_le := RingBuffer.empty_end_le capacity }
  store := ∅
  resourceVersion := 0

/-- `parseResourceVersion`: the empty string is version zero. -/
def parseResourceVersion (resourceVersion : String) : Except CacheError UInt64 :=
  if resourceVersion = "" then .ok 0
  else
    match Decimal.parseUint resourceVersion with
    | .ok version => .ok version
    | .error err => .error (.parse err)

namespace CacheConfig

variable (config : CacheConfig Obj Attrs)

/-- `objectToVersionedRuntimeObject`: the version in the metadata of the object. -/
def objectToVersionedRuntimeObject (object : Obj) : Except CacheError UInt64 :=
  match config.accessor object with
  | .error message => .error (.other message)
  | .ok resourceVersion => parseResourceVersion resourceVersion

def computeKey (object : Obj) : Except CacheError String :=
  match config.keyFunc object with
  | .error message => .error (.other ("couldn't compute key: " ++ message))
  | .ok key => .ok key

def getAttrs (object : Obj) : Except CacheError Attrs :=
  match config.getAttrsFunc object with
  | .error message => .error (.other message)
  | .ok attrs => .ok attrs

end CacheConfig

/-- What the `updateFunc` of an event does to the store. -/
def updateFunc (type : EventType) (store : Map String Obj) (key : String) (object : Obj) :
    Map String Obj :=
  match type with
  | .added | .modified => store.insert key object
  | .deleted => store.erase key

namespace WatchCache

variable [NeZero capacity] (config : CacheConfig Obj Attrs)

section

variable (cache : WatchCache Obj Attrs capacity)

def updateCache (resourceVersion : UInt64) (event : WatchCacheEvent Obj Attrs) : WatchCache
    Obj Attrs capacity :=
  { cache with window := cache.window.push ⟨resourceVersion, some event⟩ }

/-- The first part of `processEvent`: the event that is handed to `onEvent`. -/
def newEvent (event : Event Obj) (resourceVersion : UInt64) : Except CacheError (WatchCacheEvent
    Obj Attrs) := do
  let key ← config.computeKey event.object
  let objAttrs ← config.getAttrs event.object
  let prevObject := cache.store.lookup key
  let prevObjAttrs ←
    match prevObject with
    | none => pure none
    | some previous => do
      let attrs ← config.getAttrs previous
      pure (some attrs)
  pure ⟨event.type, event.object, objAttrs, prevObject, prevObjAttrs, key, resourceVersion⟩

/-- The second part of `processEvent`, after `onEvent`: update the buffer, the version and the
store. -/
def applyEvent (event : WatchCacheEvent Obj Attrs) : WatchCache Obj Attrs capacity :=
  { cache.updateCache event.resourceVersion event with
    resourceVersion := event.resourceVersion
    store := updateFunc event.type cache.store event.key event.object }

def processEvent (event : Event Obj) (resourceVersion : UInt64) : Except CacheError (WatchCache
    Obj Attrs capacity × WatchCacheEvent Obj Attrs) := do
  let cacheEvent ← cache.newEvent config event resourceVersion
  pure (cache.applyEvent cacheEvent, cacheEvent)

end

def processObject (type : EventType) (cache : WatchCache Obj Attrs capacity) (obj : Obj) :
    Except CacheError (WatchCache Obj Attrs capacity × WatchCacheEvent Obj Attrs) := do
  let resourceVersion ← config.objectToVersionedRuntimeObject obj
  cache.processEvent config ⟨type, obj⟩ resourceVersion

section

variable (cache : WatchCache Obj Attrs capacity) (obj : Obj)

def add : Except CacheError (WatchCache Obj Attrs capacity × WatchCacheEvent Obj Attrs) :=
  processObject config .added cache obj

def update : Except CacheError (WatchCache Obj Attrs capacity × WatchCacheEvent Obj Attrs) :=
  processObject config .modified cache obj

def delete : Except CacheError (WatchCache Obj Attrs capacity × WatchCacheEvent Obj Attrs) :=
  processObject config .deleted cache obj

end

/-- The loop of `Replace` over the listed objects: their keys. -/
def replaceElements : List Obj → Except CacheError (List (String × Obj))
  | [] => pure []
  | object :: rest => do
    let key ← config.computeKey object
    let elements ← replaceElements rest
    pure ((key, object) :: elements)

def replaceStore (elements : List (String × Obj)) : Map String Obj :=
  elements.foldl (fun store element ↦ store.insert element.1 element.2) ∅

def replace (cache : WatchCache Obj Attrs capacity) (objs : List Obj)
    (resourceVersion : String) : Except CacheError (WatchCache Obj Attrs capacity) := do
  let version ← parseResourceVersion resourceVersion
  let toReplace ← replaceElements config objs
  pure
    { window := cache.window.reset
      store := replaceStore toReplace
      resourceVersion := version }

/-- The loop of `GetAllEventsSince` over the stored objects when no version is asked for. -/
def initialState (cache : WatchCache Obj Attrs capacity) :
    List String → Except CacheError (List (Option (WatchCacheEvent Obj Attrs)))
  | [] => pure []
  | key :: rest =>
    match cache.store.lookup key with
    | none => initialState cache rest
    | some object => do
      let objAttrs ← config.getAttrs object
      let events ← initialState cache rest
      pure (some ⟨.added, object, objAttrs, none, none, key, cache.resourceVersion⟩ :: events)

section

variable (cache : WatchCache Obj Attrs capacity)

/-- The version of the oldest event in the window, or of the cache when the window is empty. -/
def oldest : UInt64 :=
  if 0 < cache.window.size then (cache.window.cell cache.window.startIndex).resourceVersion
  else cache.resourceVersion

/-- `GetAllEventsSinceThreadUnsafe`.  `order` is the order in which the store lists its keys. -/
def getAllEventsSinceThreadUnsafe (order : List String) (resourceVersion : UInt64) : Except
    CacheError (List (Option (WatchCacheEvent Obj Attrs))) :=
  let size := cache.window.size
  if resourceVersion = 0 then cache.initialState config order
  else if resourceVersion < cache.oldest - 1 then
    .error (.gone ("too old resource version: " ++ toString resourceVersion ++ " (" ++
      toString (cache.oldest - 1) ++ ")"))
  else
    let first := search size fun index ↦
      decide (resourceVersion <
        (cache.window.cell (cache.window.startIndex + index)).resourceVersion)
    .ok ((List.range (size - first)).map fun index ↦
      (cache.window.cell (cache.window.startIndex + first + index)).watchCacheEvent)

def getAllEventsSince (order : List String) (resourceVersion : UInt64) : Except CacheError (List
    (Option (WatchCacheEvent Obj Attrs))) :=
  cache.getAllEventsSinceThreadUnsafe config order resourceVersion

end

end WatchCache

end Kubernetes.Storage
