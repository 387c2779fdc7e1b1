import Kubernetes.Basic.Transition
import Kubernetes.Storage.WatchCache

/-!
# The cacher and its watchers

A `Cacher` serves watches from a watch cache.  The reflector calls `processEvent`, which puts the
event on the channel `incoming` and then updates the window, both under the write lock of the watch
cache.  The dispatcher takes events from `incoming` and, under the lock of the cacher, adds them to
the registered watchers.  `Watch` reads the window under the read lock and, still holding it,
registers a watcher under the lock of the cacher.  Each watcher first sends its initial events and
then the dispatched events that are newer than the requested version.

The steps are those between the locks: an event on `incoming` may be taken before the window has it,
and a dispatched event is added to one watcher at a time.  Sending an event is left out.  The field
`fed` and the fields `sentInit`, `accepted` and `initVersion` of a watcher record what happened.
-/

namespace Kubernetes.Storage

/-- The functions a cacher is created with.  Of a match value of a trigger only the value is
read. -/
structure CacherConfig (Obj Attrs : Type) extends CacheConfig Obj Attrs where
  triggerFunc : Option (Obj → List String)

variable {Obj Attrs : Type} {capacity : ℕ}

def triggerValues (config : CacherConfig Obj Attrs) (event : WatchCacheEvent Obj Attrs) :
    List String × Bool :=
  match config.triggerFunc with
  | none => ([], false)
  | some triggerFunc =>
    let result := (triggerFunc event.object).take 1
    match event.prevObject with
    | none => (result, !result.isEmpty)
    | some prevObject =>
      match triggerFunc prevObject with
      | [] => (result, !result.isEmpty)
      | value :: _ =>
        if result.head? = some value then (result, !result.isEmpty) else (result ++ [value], true)

/-- The registered watchers, by number: those of all events, and those of a trigger value. -/
structure IndexedWatchers where
  allWatchers : Finset ℕ
  valueWatchers : Map String (Finset ℕ)

namespace IndexedWatchers

section

variable (watchers : IndexedWatchers)

def watchersOf (value : String) : Finset ℕ :=
  (watchers.valueWatchers.lookup value).getD ∅

/-- `addWatcher`.  The trigger is `none` when it is not supported. -/
def addWatcher (number : ℕ) : Option String → IndexedWatchers
  | none => { watchers with allWatchers := insert number watchers.allWatchers }
  | some value =>
    { watchers with
      valueWatchers := watchers.valueWatchers.insert value
        (insert number (watchers.watchersOf value)) }

/-- `deleteWatcher`.  A value without watchers is dropped. -/
def deleteWatcher (number : ℕ) : Option String → IndexedWatchers
  | none => { watchers with allWatchers := watchers.allWatchers.erase number }
  | some value =>
    let remaining := (watchers.watchersOf value).erase number
    { watchers with
      valueWatchers :=
        if remaining = ∅ then watchers.valueWatchers.erase value
        else watchers.valueWatchers.insert value remaining }

end

def none : IndexedWatchers := ⟨∅, ∅⟩

end IndexedWatchers

/-- A watcher and its goroutine: the initial events still to be sent and the input channel. -/
structure CacheWatcher (Obj Attrs : Type) where
  resourceVersion : UInt64
  trigger : Option String
  chanSize : ℕ
  todo : List (WatchCacheEvent Obj Attrs)
  input : List (WatchCacheEvent Obj Attrs)
  stopped : Bool
  initVersion : UInt64
  sentInit : List (WatchCacheEvent Obj Attrs)
  accepted : List (WatchCacheEvent Obj Attrs)

def newCacheWatcher (resourceVersion : UInt64) (trigger : Option String) (chanSize : ℕ)
    (initEvents : List (WatchCacheEvent Obj Attrs)) (initVersion : UInt64) :
    CacheWatcher Obj Attrs where
  resourceVersion := resourceVersion
  trigger := trigger
  chanSize := chanSize
  todo := initEvents
  input := []
  stopped := false
  initVersion := initVersion
  sentInit := []
  accepted := []

namespace CacheWatcher

def accepts (watcher : CacheWatcher Obj Attrs) : List (WatchCacheEvent Obj Attrs) :=
  watcher.sentInit ++ watcher.accepted

/-- One turn of `process`: the next initial event, or the next event of the input channel. -/
def process (watcher : CacheWatcher Obj Attrs) : Option (CacheWatcher Obj Attrs) :=
  match watcher.todo with
  | event :: rest => some { watcher with todo := rest, sentInit := watcher.sentInit ++ [event] }
  | [] =>
    match watcher.input with
    | [] => none
    | event :: rest =>
      if watcher.resourceVersion < event.resourceVersion then
        some { watcher with input := rest, accepted := watcher.accepted ++ [event] }
      else some { watcher with input := rest }

end CacheWatcher

/-- A call of `Watch` that has read the window and holds the read lock. -/
structure PendingWatch (Obj Attrs : Type) where
  resourceVersion : UInt64
  trigger : Option String
  initEvents : List (WatchCacheEvent Obj Attrs)
  initVersion : UInt64

/-- The dispatcher is at the channel, has an event but not the lock, or has the lock and watchers to
serve. -/
inductive Dispatch (Obj Attrs : Type)
  | idle
  | taken (event : WatchCacheEvent Obj Attrs)
  | adding (event : WatchCacheEvent Obj Attrs) (remaining : List ℕ)

/-- `writer` is the event of a `processEvent` that holds the write lock and has put the event on
`incoming`. -/
structure Cacher (Obj Attrs : Type) (capacity : ℕ) where
  watchCache : WatchCache Obj Attrs capacity
  writer : Option (WatchCacheEvent Obj Attrs)
  readers : List (PendingWatch Obj Attrs)
  incoming : List (WatchCacheEvent Obj Attrs)
  dispatch : Dispatch Obj Attrs
  watcherIdx : ℕ
  watchers : IndexedWatchers
  created : Map ℕ (CacheWatcher Obj Attrs)
  fed : List (WatchCacheEvent Obj Attrs)

def incomingCapacity : ℕ := 100

namespace Cacher

def chanSize (config : CacherConfig Obj Attrs) (trigger : Option String) : ℕ :=
  if config.triggerFunc.isSome ∧ trigger = none then 1000 else 10

section

variable (cacher : Cacher Obj Attrs capacity)

def Unlocked : Prop :=
  ∀ event remaining, cacher.dispatch ≠ .adding event remaining

def setWatcher (number : ℕ) (watcher : CacheWatcher Obj Attrs) : Cacher Obj Attrs capacity :=
  { cacher with created := cacher.created.insert number watcher }

def terminate (number : ℕ) (watcher : CacheWatcher Obj Attrs) : Cacher Obj Attrs capacity :=
  { cacher.setWatcher number { watcher with stopped := true } with
    watchers := cacher.watchers.deleteWatcher number watcher.trigger }

end

def register (config : CacherConfig Obj Attrs) (cacher : Cacher Obj Attrs capacity)
    (pending : PendingWatch Obj Attrs) : Cacher Obj Attrs capacity :=
  { cacher.setWatcher cacher.watcherIdx
      (newCacheWatcher pending.resourceVersion pending.trigger (chanSize config pending.trigger)
        pending.initEvents pending.initVersion) with
    watchers := cacher.watchers.addWatcher cacher.watcherIdx pending.trigger
    watcherIdx := cacher.watcherIdx + 1 }

/-- The watchers `dispatchEvent` adds an event to: those of every event, then those of the trigger
values, or of all values if there are none. -/
def dispatchTargets (config : CacherConfig Obj Attrs)
    (event : WatchCacheEvent Obj Attrs) (allOrder : List ℕ) (valueOrder : List String)
    (orderOf : String → List ℕ) : List ℕ :=
  match triggerValues config event with
  | (values, true) => allOrder ++ values.flatMap orderOf
  | (_, false) => allOrder ++ valueOrder.flatMap orderOf

end Cacher

def IsEnumeration (order : List ℕ) (numbers : Finset ℕ) : Prop :=
  order.Nodup ∧ ∀ number, number ∈ order ↔ number ∈ numbers

inductive CacherOp (Obj Attrs : Type)
  | feed (event : Event Obj)
  | commit
  | read (resourceVersion : UInt64)
  | register (pending : PendingWatch Obj Attrs)
  | take
  | lock
  | add (number : ℕ)
  | timeout (number : ℕ)
  | unlock
  | process (number : ℕ)
  | stop (number : ℕ)

inductive CacherStep [NeZero capacity] (config : CacherConfig Obj Attrs)
    (cacher : Cacher Obj Attrs capacity) :
    CacherOp Obj Attrs → Cacher Obj Attrs capacity → Prop
  | feed {event : Event Obj} {resourceVersion : UInt64} {cacheEvent : WatchCacheEvent Obj Attrs}
      (hwriter : cacher.writer = none) (hreaders : cacher.readers = [])
      (hspace : cacher.incoming.length < incomingCapacity)
      (hver : config.objectToVersionedRuntimeObject event.object = .ok resourceVersion)
      (hnewer : cacher.watchCache.resourceVersion < resourceVersion)
      (hevent : cacher.watchCache.newEvent config.toCacheConfig event resourceVersion =
        .ok cacheEvent) :
      CacherStep config cacher (.feed event)
        { cacher with
          writer := some cacheEvent
          incoming := cacher.incoming ++ [cacheEvent]
          fed := cacher.fed ++ [cacheEvent] }
  | commit {event : WatchCacheEvent Obj Attrs}
      (hwriter : cacher.writer = some event) :
      CacherStep config cacher .commit
        { cacher with watchCache := cacher.watchCache.applyEvent event, writer := none }
  | read {resourceVersion : UInt64}
      {order matchValues : List String} {initEvents : List (WatchCacheEvent Obj Attrs)}
      (hwriter : cacher.writer = none) (horder : Map.IsOrder order cacher.watchCache.store)
      (hevents : cacher.watchCache.getAllEventsSinceThreadUnsafe config.toCacheConfig order
        resourceVersion = .ok (initEvents.map some)) :
      CacherStep config cacher (.read resourceVersion)
        { cacher with
          readers := cacher.readers ++ [⟨resourceVersion, matchValues.head?, initEvents,
            cacher.watchCache.resourceVersion⟩] }
  | register {before after : List (PendingWatch Obj Attrs)}
      {pending : PendingWatch Obj Attrs} (hunlocked : cacher.Unlocked)
      (hreaders : cacher.readers = before ++ pending :: after) :
      CacherStep config cacher (.register pending)
        { cacher.register config pending with readers := before ++ after }
  | take {event : WatchCacheEvent Obj Attrs}
      {rest : List (WatchCacheEvent Obj Attrs)} (hidle : cacher.dispatch = .idle)
      (hincoming : cacher.incoming = event :: rest) :
      CacherStep config cacher .take { cacher with incoming := rest, dispatch := .taken event }
  | lock {event : WatchCacheEvent Obj Attrs}
      {allOrder : List ℕ} {valueOrder : List String} {orderOf : String → List ℕ}
      (htaken : cacher.dispatch = .taken event)
      (hall : IsEnumeration allOrder cacher.watchers.allWatchers)
      (hvalues : Map.IsOrder valueOrder cacher.watchers.valueWatchers)
      (horderOf : ∀ value, IsEnumeration (orderOf value) (cacher.watchers.watchersOf value)) :
      CacherStep config cacher .lock
        { cacher with
          dispatch := .adding event
            (Cacher.dispatchTargets config event allOrder valueOrder orderOf) }
  | add {event : WatchCacheEvent Obj Attrs}
      {number : ℕ} {remaining : List ℕ} {watcher : CacheWatcher Obj Attrs}
      (hadding : cacher.dispatch = .adding event (number :: remaining))
      (hwatcher : cacher.created.lookup number = some watcher)
      (hspace : watcher.input.length < watcher.chanSize) :
      CacherStep config cacher (.add number)
        { cacher.setWatcher number { watcher with input := watcher.input ++ [event] } with
          dispatch := .adding event remaining }
  | timeout {event : WatchCacheEvent Obj Attrs}
      {number : ℕ} {remaining : List ℕ} {watcher : CacheWatcher Obj Attrs}
      (hadding : cacher.dispatch = .adding event (number :: remaining))
      (hwatcher : cacher.created.lookup number = some watcher)
      (hfull : watcher.input.length = watcher.chanSize) :
      CacherStep config cacher (.timeout number)
        { cacher.terminate number watcher with dispatch := .adding event remaining }
  | unlock {event : WatchCacheEvent Obj Attrs}
      (hadding : cacher.dispatch = .adding event []) :
      CacherStep config cacher .unlock { cacher with dispatch := .idle }
  | process {number : ℕ} {watcher next : CacheWatcher Obj Attrs}
      (hwatcher : cacher.created.lookup number = some watcher)
      (hproc : watcher.process = some next) :
      CacherStep config cacher (.process number) (cacher.setWatcher number next)
  | stop {number : ℕ} {watcher : CacheWatcher Obj Attrs} (hunlocked : cacher.Unlocked)
      (hwatcher : cacher.created.lookup number = some watcher) :
      CacherStep config cacher (.stop number) (cacher.terminate number watcher)

/-- A cacher that has just become ready: the first list has been put into the watch cache. -/
def IsReadyCacher [NeZero capacity] (config : CacherConfig Obj Attrs)
    (cacher : Cacher Obj Attrs capacity) : Prop :=
  ∃ objs resourceVersion, ∃ watchCache : WatchCache Obj Attrs capacity,
    (newWatchCache Obj Attrs capacity).replace config.toCacheConfig objs resourceVersion =
      .ok watchCache ∧
    cacher = ⟨watchCache, none, [], [], .idle, 0, .none, ∅, []⟩

end Kubernetes.Storage
