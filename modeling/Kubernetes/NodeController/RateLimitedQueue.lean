import Kubernetes.Basic.BinaryHeap
import Mathlib.Algebra.Order.Ring.Int
import Mathlib.Data.Finset.Basic

/-!
# The rate limited queue of the node controller

Nodes to be evicted are in a heap, ordered by the time at which they are due.  A set remembers the
nodes that were added, so that a node is not added again before it is removed.  `Try` takes the
head, calls a function on it without holding the lock, and then looks up the entry by its value
again.

Times are integers.  Every call of a method of `UniqueQueue` is one step.
-/

namespace Kubernetes.NodeController

open List

variable {Value UID : Type}

structure TimedValue (Value UID : Type) where
  value : Value
  uid : UID
  addedAt : ℤ
  processAt : ℤ
  deriving DecidableEq, Repr

open TimedValue (processAt)

/-- A heap of entries, and the values that may not be added. -/
structure UniqueQueue (Value UID : Type) where
  queue : List (TimedValue Value UID)
  set : Finset Value
  deriving DecidableEq

namespace UniqueQueue

def new : UniqueQueue Value UID := ⟨[], ∅⟩

def head (q : UniqueQueue Value UID) : Option (TimedValue Value UID) := q.queue[0]?

variable [DecidableEq Value]

def heapRemove (queue : List (TimedValue Value UID)) (value : Value) :
    Option (List (TimedValue Value UID)) :=
  (queue.findIdx? (·.value = value)).map (BinaryHeap.remove processAt queue)

section

variable (q : UniqueQueue Value UID)

def add (value : TimedValue Value UID) : UniqueQueue Value UID × Bool :=
  if value.value ∈ q.set then (q, false)
  else (⟨BinaryHeap.push processAt q.queue value, insert value.value q.set⟩, true)

/-- Replace the entry with the same value, if there is one. -/
def replace (value : TimedValue Value UID) : UniqueQueue Value UID × Bool :=
  match heapRemove q.queue value.value with
  | some queue => ({ q with queue := BinaryHeap.push processAt queue value }, true)
  | none => (q, false)

/-- Remove the entry with the value, but keep the value in the set. -/
def removeFromQueue (value : Value) : UniqueQueue Value UID × Bool :=
  if value ∉ q.set then (q, false)
  else
    match heapRemove q.queue value with
    | some queue => ({ q with queue := queue }, true)
    | none => (q, false)

/-- Remove the entry with the value, and allow it to be added again. -/
def remove (value : Value) : UniqueQueue Value UID × Bool :=
  if value ∉ q.set then (q, false)
  else (⟨(heapRemove q.queue value).getD q.queue, q.set.erase value⟩, true)

end

variable {q : UniqueQueue Value UID} {entry other : TimedValue Value UID} {value : Value}

variable {queue : List (TimedValue Value UID)}

section Entries

omit [DecidableEq Value]

/-- The heap is ordered and has one entry for a value, which is in the set. -/
structure WellFormed (q : UniqueQueue Value UID) : Prop where
  ordered : BinaryHeap.Ordered processAt q.queue q.queue.length
  nodup : (q.queue.map TimedValue.value).Nodup
  mem_set : ∀ entry ∈ q.queue, entry.value ∈ q.set

theorem wellFormed_new : (new : UniqueQueue Value UID).WellFormed where
  ordered _ _ hk := absurd hk (Nat.not_lt_zero _)
  nodup := nodup_nil
  mem_set _ hentry := absurd hentry not_mem_nil

theorem WellFormed.eq_of_value (hq : q.WellFormed) (hentry : entry ∈ q.queue)
    (hother : other ∈ q.queue) (hvalue : entry.value = other.value) : entry = other :=
  inj_on_of_nodup_map hq.nodup hentry hother hvalue

structure Removes (queue : List (TimedValue Value UID)) (value : Value)
    (target : List (TimedValue Value UID)) : Prop where
  ordered : BinaryHeap.Ordered processAt target target.length
  nodup : (target.map TimedValue.value).Nodup
  mem_iff : ∀ entry, entry ∈ target ↔ entry ∈ queue ∧ entry.value ≠ value

theorem Removes.wellFormed {set : Finset Value} (hremoves : Removes q.queue value queue)
    (hset : ∀ entry ∈ queue, entry.value ∈ set) :
    (⟨queue, set⟩ : UniqueQueue Value UID).WellFormed :=
  ⟨hremoves.ordered, hremoves.nodup, hset⟩

theorem push_spec (entry : TimedValue Value UID)
    (hordered : BinaryHeap.Ordered processAt queue queue.length)
    (hnodup : (queue.map TimedValue.value).Nodup)
    (hnew : ∀ other ∈ queue, other.value ≠ entry.value) (set : Finset Value)
    (hset : ∀ other ∈ queue, other.value ∈ set) (hentry : entry.value ∈ set) :
    (⟨BinaryHeap.push processAt queue entry, set⟩ : UniqueQueue Value UID).WellFormed ∧
      ∀ other, other ∈ BinaryHeap.push processAt queue entry ↔
        other = entry ∨ other ∈ queue := by
  have hperm := BinaryHeap.push_perm processAt queue entry
  have hmem (other : TimedValue Value UID) :
      other ∈ BinaryHeap.push processAt queue entry ↔ other = entry ∨ other ∈ queue := by
    rw [hperm.mem_iff, mem_cons]
  refine ⟨⟨hordered.push entry, (hperm.map TimedValue.value).nodup_iff.mpr ?_, ?_⟩, hmem⟩
  · rw [map_cons, nodup_cons]
    refine ⟨fun hmap ↦ ?_, hnodup⟩
    obtain ⟨other, hother, hvalue⟩ := mem_map.mp hmap
    exact hnew other hother hvalue
  · intro other hother
    rcases (hmem other).mp hother with rfl | hold
    · exact hentry
    · exact hset other hold

end Entries

theorem heapRemove_eq_none :
    heapRemove queue value = none ↔ ∀ entry ∈ queue, entry.value ≠ value := by
  simp [heapRemove]

theorem WellFormed.heapRemove (hq : q.WellFormed)
    (hrem : UniqueQueue.heapRemove q.queue value = some queue) :
    Removes q.queue value queue := by
  obtain ⟨i, hfind, rfl⟩ := Option.map_eq_some_iff.mp hrem
  obtain ⟨hi, hvalue, -⟩ := List.findIdx?_eq_some_iff_getElem.mp hfind
  have hvalue : q.queue[i].value = value := of_decide_eq_true hvalue
  have hperm := BinaryHeap.remove_perm processAt hi
  have hrest : (q.queue[i] :: q.queue.eraseIdx i).Perm q.queue :=
    getElem_cons_eraseIdx_perm hi
  have hnodup : ((q.queue[i] :: q.queue.eraseIdx i).map TimedValue.value).Nodup :=
    (hrest.map TimedValue.value).nodup_iff.mpr hq.nodup
  rw [map_cons, nodup_cons] at hnodup
  refine ⟨hq.ordered.remove hi, (hperm.map TimedValue.value).nodup_iff.mpr hnodup.2, ?_⟩
  intro entry
  rw [hperm.mem_iff, ← hrest.mem_iff, mem_cons]
  constructor
  · intro hentry
    refine ⟨.inr hentry, fun heq ↦ hnodup.1 ?_⟩
    rw [hvalue, ← heq]
    exact mem_map_of_mem hentry
  · rintro ⟨rfl | hentry, hne⟩
    · exact absurd hvalue hne
    · exact hentry

theorem WellFormed.removes_getD (hq : q.WellFormed) (value : Value) :
    Removes q.queue value ((UniqueQueue.heapRemove q.queue value).getD q.queue) := by
  cases hrem : UniqueQueue.heapRemove q.queue value with
  | some queue => exact hq.heapRemove hrem
  | none =>
    refine ⟨hq.ordered, hq.nodup, fun entry ↦ ?_⟩
    exact (and_iff_left_of_imp (heapRemove_eq_none.mp hrem entry)).symm

theorem WellFormed.add (hq : q.WellFormed) (hnew : entry.value ∉ q.set) :
    (q.add entry).1.WellFormed ∧ (q.add entry).2 = true ∧
      (∀ other, other ∈ (q.add entry).1.queue ↔ other = entry ∨ other ∈ q.queue) ∧
      (q.add entry).1.set = insert entry.value q.set := by
  rw [UniqueQueue.add, if_neg hnew]
  have hpush := push_spec entry hq.ordered hq.nodup
    (fun other hother heq ↦ hnew (heq ▸ hq.mem_set other hother)) (insert entry.value q.set)
    (fun other hother ↦ Finset.mem_insert_of_mem (hq.mem_set other hother))
    (Finset.mem_insert_self _ _)
  exact ⟨hpush.1, rfl, hpush.2, rfl⟩

theorem add_of_mem (hmem : entry.value ∈ q.set) : q.add entry = (q, false) :=
  if_pos hmem

theorem WellFormed.replace (hq : q.WellFormed) (other : TimedValue Value UID) :
    (q.replace other).1.WellFormed ∧
      (∀ e, e ∈ (q.replace other).1.queue ↔
        (e = other ∧ ∃ entry ∈ q.queue, entry.value = other.value) ∨
          e ∈ q.queue ∧ e.value ≠ other.value) ∧
      (q.replace other).1.set = q.set := by
  rw [UniqueQueue.replace]
  cases hrem : UniqueQueue.heapRemove q.queue other.value with
  | none =>
    have hnone := heapRemove_eq_none.mp hrem
    refine ⟨hq, fun e ↦ ⟨fun he ↦ .inr ⟨he, hnone e he⟩, ?_⟩, rfl⟩
    rintro (⟨-, entry, hentry, heq⟩ | ⟨he, -⟩)
    · exact absurd heq (hnone entry hentry)
    · exact he
  | some queue =>
    obtain ⟨entry, hentry, hvalue⟩ : ∃ entry ∈ q.queue, entry.value = other.value := by
      by_contra hnot
      rw [heapRemove_eq_none.mpr fun entry hentry heq ↦ hnot ⟨entry, hentry, heq⟩] at hrem
      cases hrem
    have hremoves := hq.heapRemove hrem
    have hpush := push_spec other hremoves.ordered hremoves.nodup
      (fun e he ↦ ((hremoves.mem_iff e).mp he).2) q.set
      (fun e he ↦ hq.mem_set e ((hremoves.mem_iff e).mp he).1)
      (hvalue ▸ hq.mem_set entry hentry)
    refine ⟨hpush.1, fun e ↦ (hpush.2 e).trans ?_, rfl⟩
    rw [hremoves.mem_iff]
    exact or_congr_left (and_iff_left ⟨entry, hentry, hvalue⟩).symm

theorem WellFormed.removeFromQueue (hq : q.WellFormed) (value : Value) :
    (q.removeFromQueue value).1.WellFormed ∧
      (∀ e, e ∈ (q.removeFromQueue value).1.queue ↔ e ∈ q.queue ∧ e.value ≠ value) ∧
      (q.removeFromQueue value).1.set = q.set := by
  rw [UniqueQueue.removeFromQueue]
  by_cases hset : value ∈ q.set
  · rw [if_neg (not_not.mpr hset)]
    have hremoves := hq.removes_getD value
    cases hrem : UniqueQueue.heapRemove q.queue value with
    | none =>
      rw [hrem] at hremoves
      exact ⟨hq, hremoves.mem_iff, rfl⟩
    | some queue =>
      rw [hrem] at hremoves
      exact ⟨hremoves.wellFormed fun e he ↦ hq.mem_set e ((hremoves.mem_iff e).mp he).1,
        hremoves.mem_iff, rfl⟩
  · rw [if_pos hset]
    refine ⟨hq, fun e ↦ (and_iff_left_of_imp fun he heq ↦ ?_).symm, rfl⟩
    exact hset (heq ▸ hq.mem_set e he)

theorem WellFormed.remove (hq : q.WellFormed) (hmem : value ∈ q.set) :
    (q.remove value).1.WellFormed ∧ (q.remove value).2 = true ∧
      (∀ e, e ∈ (q.remove value).1.queue ↔ e ∈ q.queue ∧ e.value ≠ value) ∧
      (q.remove value).1.set = q.set.erase value := by
  rw [UniqueQueue.remove, if_neg (not_not.mpr hmem)]
  have hremoves := hq.removes_getD value
  refine ⟨hremoves.wellFormed fun e he ↦ ?_, rfl, hremoves.mem_iff, rfl⟩
  have hold := (hremoves.mem_iff e).mp he
  exact Finset.mem_erase.mpr ⟨hold.2, hq.mem_set e hold.1⟩

theorem remove_of_notMem (hmem : value ∉ q.set) : q.remove value = (q, false) :=
  if_pos hmem

end UniqueQueue

inductive Phase (Value UID : Type)
  | idle
  /-- It has the head, and asks the limiter and the clock. -/
  | checking (val : TimedValue Value UID)
  | calling (val : TimedValue Value UID) (now : ℤ)
  | returned (val : TimedValue Value UID) (now : ℤ) (ok : Bool) (wait : ℤ)
  deriving DecidableEq

/-- What happened: an `Add` or a `Remove` that returned true, and the calls of the function. -/
inductive Event (Value UID : Type)
  | added (value : Value) (uid : UID)
  | removed (value : Value)
  | started (value : Value) (uid : UID)
  | finished (value : Value) (ok : Bool)
  deriving DecidableEq

/-- The queue with the goroutine in `Try`.  The last event is the first of the log. -/
structure System (Value UID : Type) where
  queue : UniqueQueue Value UID
  phase : Phase Value UID
  log : List (Event Value UID)
  deriving DecidableEq

inductive Op (Value UID : Type)
  | add (value : Value) (uid : UID) (now : ℤ)
  | remove (value : Value)
  | head
  | giveUp
  | call (now : ℤ)
  | finish (ok : Bool) (wait : ℤ)
  | settle

namespace System

def new : System Value UID := ⟨.new, .idle, []⟩

variable [DecidableEq Value]

def add (state : System Value UID) (value : Value) (uid : UID) (now : ℤ) : System Value UID :=
  let (queue, ok) := state.queue.add ⟨value, uid, now, now⟩
  { state with queue := queue, log := if ok then .added value uid :: state.log else state.log }

def remove (state : System Value UID) (value : Value) : System Value UID :=
  let (queue, ok) := state.queue.remove value
  { state with queue := queue, log := if ok then .removed value :: state.log else state.log }

def head (state : System Value UID) : System Value UID :=
  match state.queue.head with
  | some val => { state with phase := .checking val }
  | none => state

def settle (state : System Value UID) (val : TimedValue Value UID) (now : ℤ) (ok : Bool)
    (wait : ℤ) : System Value UID :=
  { state with
    queue :=
      if ok then (state.queue.removeFromQueue val.value).1
      else (state.queue.replace { val with processAt := now + (wait + 1) }).1
    phase := .idle }

end System

variable [DecidableEq Value]

/-- One step.  The limiter may refuse, and the function may return anything. -/
inductive Step : System Value UID → Op Value UID → System Value UID → Prop
  | add (state : System Value UID) (value : Value) (uid : UID) (now : ℤ) :
      Step state (.add value uid now) (state.add value uid now)
  | remove (state : System Value UID) (value : Value) :
      Step state (.remove value) (state.remove value)
  | head (state : System Value UID) (hphase : state.phase = .idle) : Step state .head state.head
  | giveUp (state : System Value UID) (val : TimedValue Value UID)
      (hphase : state.phase = .checking val) : Step state .giveUp { state with phase := .idle }
  | call (state : System Value UID) (val : TimedValue Value UID) (now : ℤ)
      (hphase : state.phase = .checking val) (hdue : val.processAt ≤ now) :
      Step state (.call now) { state with
        phase := .calling val now
        log := .started val.value val.uid :: state.log }
  | finish (state : System Value UID) (val : TimedValue Value UID) (now : ℤ) (ok : Bool) (wait : ℤ)
      (hphase : state.phase = .calling val now) :
      Step state (.finish ok wait) { state with
        phase := .returned val now ok wait
        log := .finished val.value ok :: state.log }
  | settle (state : System Value UID) (val : TimedValue Value UID) (now : ℤ) (ok : Bool) (wait : ℤ)
      (hphase : state.phase = .returned val now ok wait) :
      Step state .settle (state.settle val now ok wait)

def System.Queued (state : System Value UID) (value : Value) (uid : UID) : Prop :=
  ∃ entry ∈ state.queue.queue, entry.value = value ∧ entry.uid = uid

/-- A value that was added stays queued until the function is called on it or it is removed, and
after a success is not called again before it is removed and added.  The heap has one entry for
every value neither removed nor done, and is ordered by the time. -/
structure Reliable (state : System Value UID) : Prop where
  queued : ∀ value uid later earlier, state.log = later ++ .added value uid :: earlier →
    state.Queued value uid ∨ .started value uid ∈ later ∨ .removed value ∈ later
  once : ∀ value uid later between earlier,
    state.log = later ++ .started value uid :: between ++ .finished value true :: earlier →
    ∃ newer uid' older, between = newer ++ .added value uid' :: older ∧ .removed value ∈ older
  entry : ∀ value ∈ state.queue.set, (∃ entry ∈ state.queue.queue, entry.value = value) ∨
    ∃ later earlier, state.log = later ++ .finished value true :: earlier ∧ .removed value ∉ later
  wellFormed : state.queue.WellFormed

end Kubernetes.NodeController
