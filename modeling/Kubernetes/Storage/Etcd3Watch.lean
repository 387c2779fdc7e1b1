import Kubernetes.Basic.Map
import Kubernetes.Basic.Transition

/-!
# Watches on etcd

`startWatching` receives the events from etcd and puts them into a channel, `processEvent` decodes
and filters them and puts the results into the channel of the client, and `run` waits for an error
or the end and then cancels the others.

The history of etcd is a list of writes, whose places are the revisions.  Values are never empty,
since they are encoded objects.  The decoder and the filter are parameters.
-/

namespace Kubernetes.Storage.Etcd3Watch

variable {Obj Err : Type}

abbrev Bytes := List UInt8

/-- A write.  Writes outside the watched prefix only take a revision. -/
inductive Write
  | put (key : String) (value : Bytes) (nonempty : value ≠ [])
  | delete (key : String)
  | other
  deriving DecidableEq

structure KeyValue where
  value : Bytes
  createRevision : ℕ
  modRevision : ℕ
  deriving DecidableEq

/-- An event as the etcd client reports it.  The value of a deletion is empty. -/
structure EtcdEvent where
  isDelete : Bool
  key : String
  kv : KeyValue
  prevKv : Option KeyValue
  deriving DecidableEq

/-- The stored pairs, and the event of a write.  The deletion of a key that does not exist has no
event. -/
def applyWrite (store : Map String KeyValue) (rev : ℕ) :
    Write → Map String KeyValue × Option EtcdEvent
  | .put key value _ =>
    let prevKv := Finmap.lookup key store
    let kv : KeyValue := ⟨value, (prevKv.map KeyValue.createRevision).getD rev, rev⟩
    (Finmap.insert key kv store, some ⟨false, key, kv, prevKv⟩)
  | .delete key =>
    match Finmap.lookup key store with
    | some prevKv => (Finmap.erase key store, some ⟨true, key, ⟨[], 0, rev⟩, some prevKv⟩)
    | none => (store, none)
  | .other => (store, none)

/-- The event as etcd sends it.  The previous pair is read at the revision before the event, and is
left out if that revision has been compacted. -/
def EtcdEvent.sent (compactRev : ℕ) (e : EtcdEvent) : EtcdEvent :=
  if e.kv.modRevision - 1 < compactRev then { e with prevKv := none } else e

def replay (store : Map String KeyValue) (rev : ℕ) : List Write → List EtcdEvent
  | [] => []
  | write :: writes =>
    let (store, event) := applyWrite store (rev + 1) write
    event.toList ++ replay store (rev + 1) writes

structure Event where
  key : String
  value : Bytes
  prevValue : Bytes
  rev : ℕ
  isDeleted : Bool
  isCreated : Bool
  deriving DecidableEq

def EtcdEvent.isCreate (e : EtcdEvent) : Bool :=
  !e.isDelete && e.kv.createRevision == e.kv.modRevision

def parseEvent (e : EtcdEvent) : Event where
  key := e.key
  value := e.kv.value
  prevValue := (e.prevKv.map KeyValue.value).getD []
  rev := e.kv.modRevision
  isDeleted := e.isDelete
  isCreated := e.isCreate

inductive EventType
  | added
  | modified
  | deleted
  deriving DecidableEq, Repr

/-- A result for the client.  The object may be nil. -/
structure WatchEvent (Obj : Type) where
  type : EventType
  object : Option Obj
  deriving DecidableEq

/-- What a watch is started with.  Without a filter everything is accepted. -/
structure Watch (Obj Err : Type) where
  decodeObj : Bytes → ℕ → Except Err Obj
  internalFilter : Option (Option Obj → Bool)
  initialRev : ℕ
  initialRev_pos : 0 < initialRev
  /-- The error is that of a cancelled context. -/
  isCanceled : Err → Bool

namespace Watch

variable (wc : Watch Obj Err)

def filter (obj : Option Obj) : Bool :=
  match wc.internalFilter with
  | none => true
  | some filter => filter obj

def acceptAll : Bool := wc.internalFilter.isNone

def curObj (e : Event) : Except Err (Option Obj) :=
  if e.isDeleted then .ok none else (wc.decodeObj e.value e.rev).map some

/-- The object before an event, if it is needed. -/
def oldObj (e : Event) : Except Err (Option Obj) :=
  if e.prevValue ≠ [] ∧ (e.isDeleted ∨ ¬ wc.acceptAll) then
    (wc.decodeObj e.prevValue e.rev).map some
  else .ok none

def prepareObjs (e : Event) : Except Err (Option Obj × Option Obj) := do
  let curObj ← wc.curObj e
  let oldObj ← wc.oldObj e
  return (curObj, oldObj)

def transform (e : Event) : Except Err (Option (WatchEvent Obj)) := do
  let (curObj, oldObj) ← wc.prepareObjs e
  if e.isDeleted then
    return if wc.filter oldObj then some ⟨.deleted, oldObj⟩ else none
  else if e.isCreated then
    return if wc.filter curObj then some ⟨.added, curObj⟩ else none
  else if wc.acceptAll then
    return some ⟨.modified, curObj⟩
  else
    return match wc.filter curObj, wc.filter oldObj with
      | true, true => some ⟨.modified, curObj⟩
      | true, false => some ⟨.added, curObj⟩
      | false, true => some ⟨.deleted, oldObj⟩
      | false, false => none

end Watch

def incomingBufSize : ℕ := 100

def outgoingBufSize : ℕ := 100

inductive Starting (Err : Type)
  /-- It has these events of the last response left to send. -/
  | watching (pending : List Event)
  | failing (err : Err)
  | returned
  deriving DecidableEq

inductive Processing (Obj Err : Type)
  | selecting
  | sending (res : WatchEvent Obj)
  | failing (err : Err)
  | returned
  deriving DecidableEq

inductive Running (Err : Type)
  | selecting
  | sendingError (err : Err)
  | waiting
  | closed
  deriving DecidableEq

inductive Result (Obj Err : Type)
  | event (res : WatchEvent Obj)
  | error (err : Err)
  deriving DecidableEq

/-- The watch with its channels.  `upstream` are the events that etcd has not sent yet. -/
structure State (Obj Err : Type) where
  upstream : List EtcdEvent
  compactRev : ℕ
  starting : Starting Err
  watchClosed : Bool
  incomingEventChan : List Event
  errChan : Option Err
  processing : Processing Obj Err
  running : Running Err
  cancelled : Bool
  resultChan : List (Result Obj Err)
  received : List (Result Obj Err)
  deriving DecidableEq

def Watch.events (wc : Watch Obj Err) (history : List Write) : List EtcdEvent :=
  (replay ∅ 0 history).filter (wc.initialRev < ·.kv.modRevision)

def Watch.start (wc : Watch Obj Err) (history : List Write) : State Obj Err where
  upstream := wc.events history
  compactRev := 0
  starting := .watching []
  watchClosed := false
  incomingEventChan := []
  errChan := none
  processing := .selecting
  running := .selecting
  cancelled := false
  resultChan := []
  received := []

inductive Op (Err : Type)
  | compact
  | receive (count : ℕ)
  | watchError (err : Err)
  | watchEnd
  | sendEvent
  | dropEvent
  | startingSendError
  | startingGiveUp
  | take
  | deliver
  | processingDone
  | processingSendError
  | processingGiveUp
  | runError
  | runSendError
  | runSkipError
  | runWatchClosed
  | runCancelled
  | runClose
  | stop
  | clientReceive

def Watch.process (wc : Watch Obj Err) (e : Event) : Processing Obj Err :=
  match wc.transform e with
  | .error err => .failing err
  | .ok none => .selecting
  | .ok (some res) => .sending res

/-- A `select` takes any case that is ready.  Etcd sends the events in order, and may end the watch
or fail at any time. -/
inductive Step (wc : Watch Obj Err) (s : State Obj Err) : Op Err → State Obj Err → Prop
  | compact (rev : ℕ) (hle : s.compactRev ≤ rev) : Step wc s .compact { s with compactRev := rev }
  | receive (count : ℕ) (hstarting : s.starting = .watching []) :
      Step wc s (.receive count) { s with
        starting := .watching
          ((s.upstream.take count).map fun e ↦ parseEvent (e.sent s.compactRev))
        upstream := s.upstream.drop count }
  | watchError (err : Err) (hstarting : s.starting = .watching []) :
      Step wc s (.watchError err) { s with starting := .failing err }
  | watchEnd (hstarting : s.starting = .watching []) :
      Step wc s .watchEnd { s with starting := .returned, watchClosed := true }
  | sendEvent (e : Event) (pending : List Event) (hstarting : s.starting = .watching (e :: pending))
      (hroom : s.incomingEventChan.length < incomingBufSize) :
      Step wc s .sendEvent { s with
        starting := .watching pending
        incomingEventChan := s.incomingEventChan ++ [e] }
  | dropEvent (e : Event) (pending : List Event)
      (hstarting : s.starting = .watching (e :: pending)) (hdone : s.cancelled = true) :
      Step wc s .dropEvent { s with starting := .watching pending }
  | startingSendError (err : Err) (hstarting : s.starting = .failing err)
      (hroom : s.errChan = none) :
      Step wc s .startingSendError { s with starting := .returned, errChan := some err }
  | startingGiveUp (err : Err) (hstarting : s.starting = .failing err)
      (hdone : s.cancelled = true) : Step wc s .startingGiveUp { s with starting := .returned }
  | take (e : Event) (incoming : List Event)
      (hproc : s.processing = .selecting) (hincoming : s.incomingEventChan = e :: incoming) :
      Step wc s .take { s with incomingEventChan := incoming, processing := wc.process e }
  | deliver (res : WatchEvent Obj) (hproc : s.processing = .sending res)
      (hroom : s.resultChan.length < outgoingBufSize) :
      Step wc s .deliver { s with
        processing := .selecting
        resultChan := s.resultChan ++ [.event res] }
  | processingDone (hproc : s.processing = .selecting ∨ ∃ res, s.processing = .sending res)
      (hdone : s.cancelled = true) : Step wc s .processingDone { s with processing := .returned }
  | processingSendError (err : Err) (hproc : s.processing = .failing err)
      (hroom : s.errChan = none) :
      Step wc s .processingSendError { s with processing := .selecting, errChan := some err }
  | processingGiveUp (err : Err) (hproc : s.processing = .failing err)
      (hdone : s.cancelled = true) :
      Step wc s .processingGiveUp { s with processing := .selecting }
  | runError (err : Err) (hrun : s.running = .selecting) (herr : s.errChan = some err) :
      Step wc s .runError { s with
        errChan := none
        running := if wc.isCanceled err then .waiting else .sendingError err
        cancelled := s.cancelled || wc.isCanceled err }
  | runSendError (err : Err) (hrun : s.running = .sendingError err)
      (hroom : s.resultChan.length < outgoingBufSize) :
      Step wc s .runSendError { s with
        resultChan := s.resultChan ++ [.error err]
        running := .waiting
        cancelled := true }
  | runSkipError (err : Err) (hrun : s.running = .sendingError err)
      (hdone : s.cancelled = true) : Step wc s .runSkipError { s with running := .waiting }
  | runWatchClosed (hrun : s.running = .selecting) (hclosed : s.watchClosed = true) :
      Step wc s .runWatchClosed { s with running := .waiting, cancelled := true }
  | runCancelled (hrun : s.running = .selecting)
      (hdone : s.cancelled = true) : Step wc s .runCancelled { s with running := .waiting }
  | runClose (hrun : s.running = .waiting)
      (hproc : s.processing = .returned) : Step wc s .runClose { s with running := .closed }
  | stop : Step wc s .stop { s with cancelled := true }
  | clientReceive (result : Result Obj Err) (results : List (Result Obj Err))
      (hres : s.resultChan = result :: results) :
      Step wc s .clientReceive { s with
        resultChan := results
        received := s.received ++ [result] }

def Result.event? : Result Obj Err → Option (WatchEvent Obj)
  | .event res => some res
  | .error _ => none

def State.delivered (s : State Obj Err) : List (WatchEvent Obj) :=
  (s.received ++ s.resultChan).filterMap Result.event?

namespace Watch

variable (wc : Watch Obj Err)

/-- The client sees the value: there is one, and the filter accepts its object. -/
def sees (rev : ℕ) : Option Bytes → Bool
  | none => false
  | some value => wc.acceptAll || wc.filter (wc.decodeObj value rev).toOption

/-- What changes for the client when the value of a key changes. -/
def change (rev : ℕ) (before after : Option Bytes) : Option (WatchEvent Obj) :=
  let object (value : Option Bytes) := value.bind fun value ↦ (wc.decodeObj value rev).toOption
  match wc.sees rev before, wc.sees rev after with
  | false, false => none
  | false, true => some ⟨.added, object after⟩
  | true, true => some ⟨.modified, object after⟩
  | true, false => some ⟨.deleted, object before⟩

def changeOf (e : EtcdEvent) : Option (WatchEvent Obj) :=
  wc.change e.kv.modRevision (e.prevKv.map KeyValue.value)
    (if e.isDelete then none else some e.kv.value)

def Decodes (e : EtcdEvent) : Prop := ∃ objs, wc.prepareObjs (parseEvent e) = .ok objs

instance decidableDecodes (e : EtcdEvent) : Decidable (wc.Decodes e) :=
  match h : wc.prepareObjs (parseEvent e) with
  | .ok objs => .isTrue ⟨objs, h⟩
  | .error _ => .isFalse fun hdecodes ↦ hdecodes.elim fun _ hok ↦ nomatch h.symm.trans hok

/-- The changes of the history for the client, up to the first event that cannot be decoded. -/
def expected (history : List Write) : List (WatchEvent Obj) :=
  ((wc.events history).takeWhile fun e ↦ wc.Decodes e).filterMap wc.changeOf

end Watch

end Kubernetes.Storage.Etcd3Watch
