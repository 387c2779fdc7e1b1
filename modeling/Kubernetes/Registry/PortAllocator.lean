import Mathlib.Data.Finset.Card
import Mathlib.Data.Int.Cast.Lemmas

/-!
# Allocation of node ports

Node ports are handed out of a range by a bitmap.  A request that changes several ports works
through a `portAllocationOperation`: it allocates at once, defers the releases until the owner of
the ports has been written, and rolls its allocations back when it is not committed.

The bitmap is the set of its bits.  `AllocateNext` starts its scan at a random offset, an argument
here.
-/

namespace Kubernetes.Registry

structure PortRange where
  base : ℕ
  size : ℕ
  top_le : base + size ≤ 65536

namespace PortRange

def contains (range : PortRange) (port : ℤ) : Bool :=
  decide ((range.base : ℤ) ≤ port ∧ port - range.base < range.size)

def text (range : PortRange) : String :=
  if range.size = 0 then ""
  else toString range.base ++ "-" ++ toString (range.base + range.size - 1)

end PortRange

/-- A bitmap of allocated items.  `count` of the source is the number of set bits. -/
structure AllocationBitmap where
  max : ℕ
  allocated : Finset ℕ

namespace AllocationBitmap

section

variable (bitmap : AllocationBitmap)

/-- `Allocate`: false if the item is already in use. -/
def allocate (offset : ℕ) : AllocationBitmap × Bool :=
  if offset ∈ bitmap.allocated then (bitmap, false)
  else ({ bitmap with allocated := insert offset bitmap.allocated }, true)

/-- `randomScanStrategy`: scan forward from a random offset and wrap. -/
def randomScanStrategy (random : ℕ) : Option ℕ :=
  if bitmap.max ≤ bitmap.allocated.card then none
  else
    ((List.range bitmap.max).map fun i ↦ (random % bitmap.max + i) % bitmap.max).find?
      fun position ↦ decide (position ∉ bitmap.allocated)

def allocateNext (random : ℕ) : AllocationBitmap × Option ℕ :=
  match bitmap.randomScanStrategy random with
  | none => (bitmap, none)
  | some next => ({ bitmap with allocated := insert next bitmap.allocated }, some next)

/-- `Release`: a no-op for an item that is not allocated. -/
def release (offset : ℕ) : AllocationBitmap :=
  if offset ∈ bitmap.allocated then { bitmap with allocated := bitmap.allocated.erase offset }
  else bitmap

end

end AllocationBitmap

inductive AllocatorError
  | errFull
  | errAllocated
  | errNotInRange (validPorts : String)
  deriving DecidableEq, Repr

def AllocatorError.text : AllocatorError → String
  | .errFull => "range is full"
  | .errAllocated => "provided port is already allocated"
  | .errNotInRange validPorts =>
    "provided port is not in the valid range. The range of valid ports is " ++ validPorts

structure PortAllocator where
  portRange : PortRange
  alloc : AllocationBitmap
  max_eq : alloc.max = portRange.size

namespace PortAllocator

def offset (allocator : PortAllocator) (port : ℤ) : ℕ := (port - allocator.portRange.base).toNat

def allocate (allocator : PortAllocator) (port : ℤ) : PortAllocator × Option AllocatorError :=
  if allocator.portRange.contains port then
    let result := allocator.alloc.allocate (allocator.offset port)
    ({ allocator with
        alloc := result.1
        max_eq := by
          rw [← allocator.max_eq]
          simp only [result, AllocationBitmap.allocate]
          split <;> rfl },
      if result.2 then none else some .errAllocated)
  else (allocator, some (.errNotInRange allocator.portRange.text))

def allocateNext (allocator : PortAllocator) (random : ℕ) :
    PortAllocator × Except AllocatorError ℤ :=
  let result := allocator.alloc.allocateNext random
  ({ allocator with
      alloc := result.1
      max_eq := by
        rw [← allocator.max_eq]
        simp only [result, AllocationBitmap.allocateNext]
        split <;> rfl },
    match result.2 with
    | none => .error .errFull
    | some next => .ok ((allocator.portRange.base + next : ℕ) : ℤ))

/-- `Release`: a no-op for a port outside of the range. -/
def release (allocator : PortAllocator) (port : ℤ) : PortAllocator :=
  if allocator.portRange.contains port then
    { allocator with
      alloc := allocator.alloc.release (allocator.offset port)
      max_eq := by
        rw [← allocator.max_eq]
        simp only [AllocationBitmap.release]
        split <;> rfl }
  else allocator

def has (allocator : PortAllocator) (port : ℤ) : Bool :=
  allocator.portRange.contains port && decide (allocator.offset port ∈ allocator.alloc.allocated)

theorem has_iff (allocator : PortAllocator) (port : ℤ) :
    allocator.has port = true ↔ allocator.portRange.contains port = true ∧
      allocator.offset port ∈ allocator.alloc.allocated := by
  rw [has, Bool.and_eq_true, decide_eq_true_eq]

variable {allocator : PortAllocator} {port : ℤ}

theorem nonneg_of_has (hport : allocator.has port = true) : 0 ≤ port := by
  have hcont := ((allocator.has_iff port).mp hport).1
  rw [PortRange.contains, decide_eq_true_eq] at hcont
  omega

theorem offset_eq_iff {other : ℤ} (hport : allocator.portRange.contains port = true)
    (hother : allocator.portRange.contains other = true) :
    allocator.offset other = allocator.offset port ↔ other = port := by
  rw [PortRange.contains, decide_eq_true_eq] at hport hother
  unfold offset
  omega

variable {next : PortAllocator}

theorem has_of_insert (hrange : next.portRange = allocator.portRange)
    (hinsert : next.alloc.allocated = insert (allocator.offset port) allocator.alloc.allocated)
    (hport : allocator.portRange.contains port = true) (other : ℤ) :
    next.has other = true ↔ other = port ∨ allocator.has other = true := by
  have hoffset : next.offset other = allocator.offset other := by
    rw [offset, offset, hrange]
  rw [has_iff, has_iff, hoffset, hrange, hinsert, Finset.mem_insert]
  by_cases hother : allocator.portRange.contains other = true
  · simp only [hother, true_and, offset_eq_iff hport hother]
  · simp only [hother, false_and, or_false, Bool.false_eq_true, false_iff]
    intro heq
    exact hother (heq ▸ hport)

theorem allocate_eq_none (h : allocator.allocate port = (next, none)) :
    allocator.has port = false ∧
      ∀ other, next.has other = true ↔ other = port ∨ allocator.has other = true := by
  unfold allocate at h
  by_cases hcont : allocator.portRange.contains port = true
  · by_cases hmem : allocator.offset port ∈ allocator.alloc.allocated
    · simp [hcont, AllocationBitmap.allocate, hmem] at h
    · have hfree : allocator.has port = false := by
        simp [has, hmem]
      have hnext := congrArg Prod.fst h
      simp only [hcont, if_true] at hnext
      rw [← hnext]
      refine ⟨hfree, has_of_insert rfl ?_ hcont⟩
      simp [AllocationBitmap.allocate, hmem]
  · simp [hcont] at h

theorem randomScanStrategy_eq_some {bitmap : AllocationBitmap} {random position : ℕ}
    (hscan : bitmap.randomScanStrategy random = some position) :
    position < bitmap.max ∧ position ∉ bitmap.allocated := by
  unfold AllocationBitmap.randomScanStrategy at hscan
  split_ifs at hscan with hfull
  have hfree := List.find?_some hscan
  have hmem := List.mem_of_find?_eq_some hscan
  rw [List.mem_map] at hmem
  rw [decide_eq_true_eq] at hfree
  obtain ⟨i, hi, hposition⟩ := hmem
  exact ⟨hposition ▸ Nat.mod_lt _ (by omega), hfree⟩

theorem allocateNext_eq_ok {random : ℕ} (h : allocator.allocateNext random = (next, .ok port)) :
    allocator.has port = false ∧ 0 ≤ port ∧ port < 65536 ∧
      ∀ other, next.has other = true ↔ other = port ∨ allocator.has other = true := by
  cases hscan : allocator.alloc.randomScanStrategy random with
  | none => simp [allocateNext, AllocationBitmap.allocateNext, hscan] at h
  | some position =>
    have hposition := randomScanStrategy_eq_some hscan
    have htop := allocator.portRange.top_le
    have hsize := allocator.max_eq
    have hport : port = (allocator.portRange.base : ℤ) + position := by
      have hres := congrArg Prod.snd h
      simp only [allocateNext, AllocationBitmap.allocateNext, hscan, Except.ok.injEq] at hres
      rw [← hres, Nat.cast_add]
    have hcont : allocator.portRange.contains port = true := by
      rw [PortRange.contains, decide_eq_true_eq]
      omega
    have hoffset : allocator.offset port = position := by
      unfold offset
      omega
    have hfree : allocator.has port = false := by
      simp [has, hoffset, hposition.2]
    have hnext : (allocator.allocateNext random).1 = next := congrArg Prod.fst h
    rw [← hnext]
    refine ⟨hfree, by omega, by omega, has_of_insert rfl ?_ hcont⟩
    simp [allocateNext, AllocationBitmap.allocateNext, hscan, hoffset]

theorem has_release (allocator : PortAllocator) (port other : ℤ) :
    (allocator.release port).has other = true ↔ allocator.has other = true ∧ other ≠ port := by
  unfold release
  split_ifs with hcont
  · have hreleased : (allocator.alloc.release (allocator.offset port)).allocated =
        allocator.alloc.allocated.erase (allocator.offset port) := by
      unfold AllocationBitmap.release
      split_ifs with hmem
      · rfl
      · exact (Finset.erase_eq_of_notMem hmem).symm
    rw [has_iff, has_iff, hreleased, Finset.mem_erase]
    by_cases hother : allocator.portRange.contains other = true
    · have hoffset := offset_eq_iff hcont hother
      unfold offset at hoffset ⊢
      simp only [hother, true_and, ne_eq, hoffset]
      exact and_comm
    · simp [hother]
  · constructor
    · intro hhas
      refine ⟨hhas, ?_⟩
      intro heq
      exact hcont (heq ▸ ((allocator.has_iff other).mp hhas).1)
    · exact And.left

end PortAllocator

structure PortAllocationOperation where
  allocated : List ℤ
  releaseDeferred : List ℤ
  shouldRollback : Bool

namespace PortAllocationOperation

def start : PortAllocationOperation := ⟨[], [], true⟩

def allocate (op : PortAllocationOperation) (allocator : PortAllocator) (port : ℤ) :
    PortAllocationOperation × PortAllocator × Option AllocatorError :=
  match allocator.allocate port with
  | (allocator, none) => ({ op with allocated := op.allocated ++ [port] }, allocator, none)
  | (allocator, some err) => (op, allocator, some err)

def allocateNext (op : PortAllocationOperation) (allocator : PortAllocator) (random : ℕ) :
    PortAllocationOperation × PortAllocator × Except AllocatorError ℤ :=
  match allocator.allocateNext random with
  | (allocator, .ok port) =>
    ({ op with allocated := op.allocated ++ [port] }, allocator, .ok port)
  | (allocator, .error err) => (op, allocator, .error err)

section

variable (op : PortAllocationOperation)

def deferRelease (port : ℤ) : PortAllocationOperation :=
  { op with releaseDeferred := op.releaseDeferred ++ [port] }

section

variable (allocator : PortAllocator)

def rollback : PortAllocator :=
  op.allocated.foldl PortAllocator.release allocator

def commit : PortAllocationOperation × PortAllocator :=
  ({ op with shouldRollback := false }, op.releaseDeferred.foldl PortAllocator.release allocator)

def finish : PortAllocator :=
  if op.shouldRollback then op.rollback allocator else allocator

end

end

end PortAllocationOperation

theorem has_foldl_release (ports : List ℤ) (allocator : PortAllocator) (port : ℤ) :
    (ports.foldl PortAllocator.release allocator).has port = true ↔
      allocator.has port = true ∧ port ∉ ports := by
  induction ports generalizing allocator with
  | nil => simp
  | cons first rest ih =>
    rw [List.foldl_cons, ih, allocator.has_release, List.mem_cons, not_or, and_assoc]

end Kubernetes.Registry
