import Mathlib.Data.Finset.Sort
import Kubernetes.Basic.Map
import Kubernetes.Basic.Transition

/-!
# The repair loop of the service IP range

A pass reads the persisted bitmap, lists the services and rebuilds the bitmap from the cluster IPs
in use.  An IP that is allocated without a service is kept for some passes, counted down in `leaks`,
and then dropped.  The write of the rebuilt bitmap fails if the record changed since it was read.
API servers change IPs and services between any two steps of a pass.
-/

namespace Kubernetes.Registry

/-- A network.  Addresses are the numbers their bytes denote. -/
structure IPNet where
  address : ℕ
  size : ℕ
  deriving DecidableEq, Repr

/-- `contains`: the first and the last address of the network are omitted. -/
def IPNet.Contains (net : IPNet) (ip : ℕ) : Prop :=
  net.address + 1 ≤ ip ∧ ip - (net.address + 1) < net.size - 2

instance (net : IPNet) (ip : ℕ) : Decidable (net.Contains ip) := inferInstanceAs (Decidable (_ ∧ _))

/-- The allocator of a network: the addresses whose bit is set. -/
structure IPRange where
  net : IPNet
  allocated : Finset ℕ
  contains_of_mem : ∀ ip ∈ allocated, net.Contains ip

inductive IPAllocateResult
  | ok
  | notInRange
  | allocated
  deriving DecidableEq, Repr

namespace IPRange

def newCIDRRange (net : IPNet) : IPRange where
  net := net
  allocated := ∅
  contains_of_mem := by simp

def allocate (r : IPRange) (ip : ℕ) : IPRange × IPAllocateResult :=
  if hcont : r.net.Contains ip then
    if ip ∈ r.allocated then (r, .allocated)
    else
      ({ r with
        allocated := insert ip r.allocated
        contains_of_mem := by simpa [hcont] using r.contains_of_mem }, .ok)
  else (r, .notInRange)

def release (r : IPRange) (ip : ℕ) : IPRange :=
  { r with
    allocated := r.allocated.erase ip
    contains_of_mem := fun ip' hip' ↦ r.contains_of_mem ip' (Finset.mem_of_mem_erase hip') }

def ips (r : IPRange) : List ℕ := r.allocated.sort (· ≤ ·)

variable {r : IPRange}

@[simp]
theorem mem_ips {ip : ℕ} : ip ∈ r.ips ↔ ip ∈ r.allocated := Finset.mem_sort _

@[simp]
theorem net_allocate (r : IPRange) (ip : ℕ) : (r.allocate ip).1.net = r.net := by
  unfold allocate
  split_ifs <;> rfl

@[simp]
theorem mem_allocated_allocate {ip ip' : ℕ} :
    ip' ∈ (r.allocate ip).1.allocated ↔ ip' ∈ r.allocated ∨ (ip' = ip ∧ r.net.Contains ip) := by
  unfold allocate
  split_ifs with hcont hmem
  · constructor
    · exact .inl
    · rintro (h | ⟨rfl, _⟩)
      · exact h
      · exact hmem
  · simp [hcont, or_comm]
  · simp [hcont]

theorem allocate_eq_ok {ip : ℕ} :
    (r.allocate ip).2 = .ok ↔ r.net.Contains ip ∧ ip ∉ r.allocated := by
  unfold allocate
  split_ifs with hcont hmem <;> simp_all

@[simp]
theorem mem_allocated_release {ip ip' : ℕ} :
    ip' ∈ (r.release ip).allocated ↔ ip' ≠ ip ∧ ip' ∈ r.allocated :=
  Finset.mem_erase

end IPRange

structure ClusterService where
  name : String
  clusterIP : String
  deriving DecidableEq, Repr

section ServiceIP

variable (parseIP : String → Option ℕ)

def ClusterService.isServiceIPSet (svc : ClusterService) : Bool :=
  svc.clusterIP != "None" && svc.clusterIP != ""

/-- The address a service uses.  A corrupt one is skipped. -/
def ClusterService.ip (svc : ClusterService) : Option ℕ :=
  if svc.isServiceIPSet then parseIP svc.clusterIP else none

def Uses (services : List ClusterService) (ip : ℕ) : Prop :=
  ∃ svc ∈ services, svc.ip parseIP = some ip

instance (services : List ClusterService) (ip : ℕ) : Decidable (Uses parseIP services ip) :=
  inferInstanceAs (Decidable (∃ svc ∈ services, _))

end ServiceIP

def numRepairsBeforeLeakCleanup : ℕ := 3

structure Rebuild where
  stored : IPRange
  rebuilt : IPRange
  leaks : Map ℕ ℕ

namespace Rebuild

/-- The body of the loop over the services.  A duplicate cluster IP and one out of range are only
logged. -/
def checkService (parseIP : String → Option ℕ) (state : Rebuild) (svc : ClusterService) : Rebuild :=
  match svc.ip parseIP with
  | none => state
  | some ip =>
    match state.rebuilt.allocate ip with
    | (rebuilt, .ok) =>
      { stored := if ip ∈ state.stored.allocated then state.stored.release ip else state.stored
        rebuilt := rebuilt
        leaks := Finmap.erase ip state.leaks }
    | (_, .allocated) => state
    | (_, .notInRange) => state

/-- Keep an IP that seems to have leaked, with the count it has left.  A failure is only logged. -/
def keep (state : Rebuild) (ip count : ℕ) : Rebuild :=
  { state with
    rebuilt := (state.rebuilt.allocate ip).1
    leaks := Finmap.insert ip (count - 1) state.leaks }

/-- The body of the loop over the IPs left in the old set.  The entry of an IP whose count has
expired stays. -/
def checkLeak (state : Rebuild) (ip : ℕ) : Rebuild :=
  match Finmap.lookup ip state.leaks with
  | none => state.keep ip (numRepairsBeforeLeakCleanup - 1)
  | some count => if count > 0 then state.keep ip count else state

end Rebuild

section

variable (parseIP : String → Option ℕ) (network : IPNet) (leaks : Map ℕ ℕ) (stored : IPRange)

def Rebuild.checkServices (services : List ClusterService) : Rebuild :=
  services.foldl (Rebuild.checkService parseIP) ⟨stored, .newCIDRRange network, leaks⟩

/-- What `runOnce` computes between reading and writing: the rebuilt bitmap and the new counters. -/
def Rebuild.run (services : List ClusterService) : Rebuild :=
  let checked := Rebuild.checkServices parseIP network leaks stored services
  checked.stored.ips.foldl Rebuild.checkLeak checked

end

/-- The persisted bitmap.  It has no range before it is initialised. -/
structure IPRecord where
  resourceVersion : ℕ
  range : Option IPRange

def IPRecord.allocated (record : IPRecord) : Finset ℕ :=
  match record.range with
  | none => ∅
  | some r => r.allocated

/-- A pass that is about to write.  The last two fields are not data of the program: `streak` counts
the consecutive completed passes that saw this allocation of an IP unused, and `carry` is what
becomes of it since the services were listed. -/
structure RepairPass where
  resourceVersion : ℕ
  stored : IPRange
  listed : List ClusterService
  rebuilt : IPRange
  streak : ℕ → ℕ
  carry : ℕ → ℕ

def RepairPass.NoLeak (parseIP : String → Option ℕ) (pass : RepairPass) : Prop :=
  ∀ ip ∈ pass.stored.allocated, Uses parseIP pass.listed ip

def clear (count : ℕ → ℕ) (ip : Option ℕ) : ℕ → ℕ :=
  fun ip' ↦ if ip = some ip' then 0 else count ip'

inductive RepairPhase
  | idle
  | got (snapshot : IPRecord)
  | updating (pass : RepairPass)

/-- The loop and what it works on.  `seen` is not data of the program: the consecutive completed
passes that saw the allocation of an IP unused. -/
structure RepairSystem where
  record : IPRecord
  services : List ClusterService
  leaks : Map ℕ ℕ
  phase : RepairPhase
  seen : ℕ → ℕ

namespace RepairSystem

/-- An allocation of the IP begins or ends, or a service begins or ceases to use it. -/
def reset (state : RepairSystem) (ip : Option ℕ) : RepairSystem :=
  { state with
    seen := clear state.seen ip
    phase :=
      match state.phase with
      | .updating pass => .updating { pass with carry := clear pass.carry ip }
      | phase => phase }

def withServices (state : RepairSystem) (services : List ClusterService) : RepairSystem :=
  { state with services := services }

def write (state : RepairSystem) (r : IPRange) : RepairSystem :=
  { state with record := ⟨state.record.resourceVersion + 1, some r⟩ }

variable (parseIP : String → Option ℕ) (network : IPNet)

def evaluated (state : RepairSystem) (snapshot : IPRecord) : RepairPass :=
  let stored := snapshot.range.getD (.newCIDRRange network)
  let streak := fun ip ↦
    if ip ∈ stored.allocated ∧ ¬ Uses parseIP state.services ip then state.seen ip + 1 else 0
  { resourceVersion := snapshot.resourceVersion
    stored := stored
    listed := state.services
    rebuilt := (Rebuild.run parseIP network state.leaks stored state.services).rebuilt
    streak := streak
    carry := streak }

def evaluate (state : RepairSystem) (snapshot : IPRecord) : RepairSystem :=
  { state with
    leaks := (Rebuild.run parseIP network state.leaks
      (snapshot.range.getD (.newCIDRRange network)) state.services).leaks
    phase := .updating (state.evaluated parseIP network snapshot) }

def complete (state : RepairSystem) (pass : RepairPass) : RepairSystem :=
  { state.write pass.rebuilt with
    phase := .idle
    seen := pass.carry }

end RepairSystem

inductive RepairLabel
  | allocate (ip : ℕ)
  | release (ip : ℕ)
  | createService (svc : ClusterService)
  | deleteService (svc : ClusterService)
  | get
  | abort
  | list
  | complete
  | fail

section Steps

variable (parseIP : String → Option ℕ) (network : IPNet)

/-- A pass that cannot read or list has no effect.  `CreateOrUpdate` fails with any error and leaves
the record as it is. -/
inductive RepairStep : RepairSystem → RepairLabel → RepairSystem → Prop
  | allocate (state : RepairSystem) (r : IPRange) (ip : ℕ) (hrange : state.record.range = some r)
      (hok : (r.allocate ip).2 = .ok) :
      RepairStep state (.allocate ip) ((state.write (r.allocate ip).1).reset (some ip))
  | release (state : RepairSystem) (r : IPRange) (ip : ℕ) (hrange : state.record.range = some r) :
      RepairStep state (.release ip) ((state.write (r.release ip)).reset (some ip))
  | createService (state : RepairSystem) (svc : ClusterService) :
      RepairStep state (.createService svc)
        ((state.withServices (svc :: state.services)).reset (svc.ip parseIP))
  | deleteService (state : RepairSystem) (svc : ClusterService) (hmem : svc ∈ state.services) :
      RepairStep state (.deleteService svc)
        ((state.withServices (state.services.erase svc)).reset (svc.ip parseIP))
  | get (state : RepairSystem) (hphase : state.phase = .idle) :
      RepairStep state .get { state with phase := .got state.record }
  | abort (state : RepairSystem) (snapshot : IPRecord) (hphase : state.phase = .got snapshot) :
      RepairStep state .abort { state with phase := .idle }
  | list (state : RepairSystem) (snapshot : IPRecord) (hphase : state.phase = .got snapshot) :
      RepairStep state .list (state.evaluate parseIP network snapshot)
  | complete (state : RepairSystem) (pass : RepairPass) (hphase : state.phase = .updating pass)
      (hver : pass.resourceVersion = state.record.resourceVersion) :
      RepairStep state .complete (state.complete pass)
  | fail (state : RepairSystem) (pass : RepairPass) (hphase : state.phase = .updating pass) :
      RepairStep state .fail { state with phase := .idle }

structure IsNewRepair (state : RepairSystem) : Prop where
  leaks_eq : state.leaks = ∅
  phase_eq : state.phase = .idle
  seen_eq : state.seen = fun _ ↦ 0

namespace RepairSystem

def streak (state : RepairSystem) (ip : ℕ) : ℕ :=
  match state.phase with
  | .updating pass => pass.streak ip
  | _ => 0

/-- An IP is allocated, and a service deleted, only while `leaks` has no entry of the IP, and a pass
that saw an unused IP does not fail. -/
def Orderly (state : RepairSystem) : RepairLabel → Prop
  | .allocate ip => Finmap.lookup ip state.leaks = none
  | .deleteService svc => ∀ ip, svc.ip parseIP = some ip → Finmap.lookup ip state.leaks = none
  | .fail => ∀ pass, state.phase = .updating pass → pass.NoLeak parseIP
  | _ => True

def Reachable : RepairSystem → Prop := Transition.Reachable IsNewRepair (RepairStep parseIP network)

def ReachableOrderly : RepairSystem → Prop :=
  Transition.Reachable IsNewRepair
    (Transition.guarded (Orderly parseIP) (RepairStep parseIP network))

end RepairSystem

end Steps

end Kubernetes.Registry
