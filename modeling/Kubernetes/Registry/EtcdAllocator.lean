import Kubernetes.Basic.Transition
import Kubernetes.Registry.PortAllocator

/-!
# The allocator backed by etcd

Every API server keeps a bitmap of its own and persists it in one shared record.  A call changes the
local bitmap first and then runs `tryUpdate`, which restores the bitmap from the record and repeats
the change, unless the record has the version the bitmap was restored from last.

`GuaranteedUpdate` writes what the closure returns if the record still has the version that was
read; otherwise it starts again.  The call may fail at any point, also after its write.  The flag
`skipsUnchanged` says whether the storage keeps the promise of its interface that an unchanged
object is not written.
-/

namespace Kubernetes.Registry

/-- The shared record.  The empty version is that of a record that does not exist yet. -/
structure RangeAllocation where
  resourceVersion : String
  range : String
  data : Finset ℕ

inductive EtcdError
  | unableToAllocate
  | cannotAllocateAtThisTime
  | rangeMismatch
  deriving DecidableEq, Repr

structure Etcd where
  alloc : AllocationBitmap
  rangeSpec : String
  last : String

inductive EtcdCall
  | allocate (offset : ℕ)
  | allocateNext
  | release (item : ℕ)
  deriving DecidableEq, Repr

/-- A call that has changed the local bitmap, with the offset it is about. -/
inductive EtcdOp
  | allocate (offset : ℕ)
  | allocateNext (offset : ℕ)
  | release (item : ℕ)
  deriving DecidableEq, Repr

namespace Etcd

def restore (e : Etcd) (existing : RangeAllocation) : Except EtcdError Etcd :=
  if e.rangeSpec ≠ existing.range then .error .rangeMismatch
  else .ok { e with alloc := { e.alloc with allocated := existing.data } }

/-- A call up to `tryUpdate`: the change of the local bitmap.  Without an operation the call is
over. -/
def begin (e : Etcd) (random : ℕ) : EtcdCall → Etcd × Option EtcdOp
  | .allocate offset =>
    match e.alloc.allocate offset with
    | (alloc, true) => ({ e with alloc := alloc }, some (.allocate offset))
    | (alloc, false) => ({ e with alloc := alloc }, none)
  | .allocateNext =>
    match e.alloc.allocateNext random with
    | (alloc, some offset) => ({ e with alloc := alloc }, some (.allocateNext offset))
    | (alloc, none) => ({ e with alloc := alloc }, none)
  | .release item => ({ e with alloc := e.alloc.release item }, some (.release item))

/-- The function a call gives to `tryUpdate`.  `AllocateNext` takes another offset if its own is
taken. -/
def fn (alloc : AllocationBitmap) (random : ℕ) :
    EtcdOp → Except EtcdError (AllocationBitmap × EtcdOp)
  | .allocate offset =>
    match alloc.allocate offset with
    | (alloc, true) => .ok (alloc, .allocate offset)
    | (_, false) => .error .unableToAllocate
  | .allocateNext offset =>
    match alloc.allocate offset with
    | (alloc, true) => .ok (alloc, .allocateNext offset)
    | (alloc, false) =>
      match alloc.allocateNext random with
      | (alloc, some next) => .ok (alloc, .allocateNext next)
      | (_, none) => .error .unableToAllocate
  | .release item => .ok (alloc.release item, .release item)

def snapshot (e : Etcd) (existing : RangeAllocation) : RangeAllocation :=
  { existing with range := e.rangeSpec, data := e.alloc.allocated }

/-- The closure of `tryUpdate`.  It changes the allocator even if it fails. -/
def tryUpdate (e : Etcd) (op : EtcdOp) (random : ℕ) (existing : RangeAllocation) :
    Etcd × Except EtcdError (RangeAllocation × EtcdOp) :=
  if existing.resourceVersion.length = 0 then (e, .error .cannotAllocateAtThisTime)
  else if existing.resourceVersion ≠ e.last then
    match e.restore existing with
    | .error err => (e, .error err)
    | .ok restored =>
      match fn restored.alloc random op with
      | .error err => (restored, .error err)
      | .ok (alloc, op) =>
        let updated := { restored with alloc := alloc, last := existing.resourceVersion }
        (updated, .ok (updated.snapshot existing, op))
  else (e, .ok (e.snapshot existing, op))

end Etcd

/-- Where the call of a server is.  A server makes one call at a time, under its lock. -/
inductive EtcdPhase
  | idle
  | updating (op : EtcdOp)
  | committing (op : EtcdOp) (version : String) (output : RangeAllocation)

structure EtcdServer where
  etcd : Etcd
  phase : EtcdPhase

/-- What callers see: an offset was returned as allocated, or a `Release` of it is under way. -/
inductive EtcdEvent
  | allocated (offset : ℕ)
  | release (offset : ℕ)
  deriving DecidableEq, Repr

def EtcdOp.progress : EtcdOp → List EtcdEvent
  | .release item => [.release item]
  | _ => []

def EtcdOp.success : EtcdOp → List EtcdEvent
  | .allocate offset => [.allocated offset]
  | .allocateNext offset => [.allocated offset]
  | .release item => [.release item]

/-- The shared record, the servers, the versions used so far, and the events, newest first.  No call
reads the last two. -/
structure EtcdCluster (Server : Type) where
  record : RangeAllocation
  servers : Server → EtcdServer
  versions : Finset String
  log : List EtcdEvent

variable {Server : Type} [DecidableEq Server]

namespace EtcdCluster

def set (state : EtcdCluster Server) (server : Server) (etcd : Etcd) (phase : EtcdPhase)
    (events : List EtcdEvent) : EtcdCluster Server :=
  { state with
    servers := Function.update state.servers server ⟨etcd, phase⟩
    log := events ++ state.log }

def begin (state : EtcdCluster Server) (server : Server) (call : EtcdCall) (random : ℕ) :
    EtcdCluster Server :=
  match (state.servers server).etcd.begin random call with
  | (etcd, none) => state.set server etcd .idle []
  | (etcd, some op) => state.set server etcd (.updating op) op.progress

def attempt (skipsUnchanged : Bool) (state : EtcdCluster Server) (server : Server) (op : EtcdOp)
    (random : ℕ) : EtcdCluster Server :=
  match (state.servers server).etcd.tryUpdate op random state.record with
  | (etcd, .error _) => state.set server etcd .idle op.progress
  | (etcd, .ok (output, op)) =>
    if skipsUnchanged = true ∧ output.range = state.record.range ∧
        output.data = state.record.data then
      state.set server etcd .idle op.success
    else state.set server etcd (.committing op state.record.resourceVersion output) op.progress

/-- The record is written.  The answer may be lost. -/
def commit (state : EtcdCluster Server) (server : Server) (op : EtcdOp) (output : RangeAllocation)
    (version : String) (answered : Bool) : EtcdCluster Server :=
  { state.set server (state.servers server).etcd .idle
      (if answered then op.success else op.progress) with
    record := { output with resourceVersion := version }
    versions := insert version state.versions }

end EtcdCluster

inductive EtcdLabel (Server : Type)
  | begin (server : Server) (call : EtcdCall)
  | attempt (server : Server)
  | commit (server : Server)
  | retry (server : Server)
  | fail (server : Server)

inductive EtcdStep (skipsUnchanged : Bool) :
    EtcdCluster Server → EtcdLabel Server → EtcdCluster Server → Prop
  | begin (state : EtcdCluster Server) (server : Server) (call : EtcdCall) (random : ℕ)
      (hphase : (state.servers server).phase = .idle) :
      EtcdStep skipsUnchanged state (.begin server call) (state.begin server call random)
  | attempt (state : EtcdCluster Server) (server : Server) (op : EtcdOp) (random : ℕ)
      (hphase : (state.servers server).phase = .updating op) :
      EtcdStep skipsUnchanged state (.attempt server)
        (state.attempt skipsUnchanged server op random)
  | commit (state : EtcdCluster Server) (server : Server) (op : EtcdOp) (output : RangeAllocation)
      (version : String) (answered : Bool)
      (hphase : (state.servers server).phase = .committing op state.record.resourceVersion output)
      (hfresh : version ∉ state.versions) (hver : version ≠ "") :
      EtcdStep skipsUnchanged state (.commit server)
        (state.commit server op output version answered)
  | retry (state : EtcdCluster Server) (server : Server) (op : EtcdOp) (version : String)
      (output : RangeAllocation)
      (hphase : (state.servers server).phase = .committing op version output) :
      EtcdStep skipsUnchanged state (.retry server)
        (state.set server (state.servers server).etcd (.updating op) [])
  | fail (state : EtcdCluster Server) (server : Server) :
      EtcdStep skipsUnchanged state (.fail server)
        (state.set server (state.servers server).etcd .idle [])

/-- The servers have just started.  The record is what earlier servers left. -/
structure IsNewEtcdCluster (state : EtcdCluster Server) : Prop where
  idle : ∀ server, (state.servers server).phase = .idle
  allocated_eq : ∀ server, (state.servers server).etcd.alloc.allocated = ∅
  last_eq : ∀ server, (state.servers server).etcd.last = ""
  version_mem : state.record.resourceVersion ∈ state.versions
  log_eq : state.log = []

namespace EtcdCluster

/-- If the storage skips unchanged objects, a server that starts an allocation with the current
version has the bit of the offset, or all bits for `AllocateNext`, if the record has. -/
def Usable (skipsUnchanged : Bool) (state : EtcdCluster Server) : EtcdLabel Server → Prop
  | .begin server (.allocate offset) =>
    skipsUnchanged = true → (state.servers server).etcd.last = state.record.resourceVersion →
      offset ∈ state.record.data → offset ∈ (state.servers server).etcd.alloc.allocated
  | .begin server .allocateNext =>
    skipsUnchanged = true → (state.servers server).etcd.last = state.record.resourceVersion →
      state.record.data ⊆ (state.servers server).etcd.alloc.allocated
  | _ => True

def Reachable (skipsUnchanged : Bool) : EtcdCluster Server → Prop :=
  Transition.Reachable IsNewEtcdCluster (EtcdStep skipsUnchanged)

def ReachableUsable (skipsUnchanged : Bool) : EtcdCluster Server → Prop :=
  Transition.Reachable IsNewEtcdCluster
    (Transition.guarded (Usable skipsUnchanged) (EtcdStep skipsUnchanged))

end EtcdCluster

end Kubernetes.Registry
