import Kubernetes.Registry.FinalizerProtection

/-!
# Deadlines of deletions

Two functions set the deletion timestamp of an object: `BeforeDelete` for a graceful deletion, which
later calls can only shorten, and `markAsDeleting` for an object that is held by finalizers.  The
second one takes the current time whenever it is called.
-/

namespace Kubernetes.Registry.Generic

variable {Extra : Type*} {e : Store Extra} {now : ℤ} {options : DeleteOptions}
variable {obj next existing : Object Extra}

/-- A call of `Delete`, which takes the time once for each of its two passes. -/
structure DeleteCall where
  options : Option DeleteOptions
  now : ℤ
  later : ℤ

/-- The storage after the update of the object, and what the call does next. -/
def DeleteCall.updated [DecidableEq Extra] (call : DeleteCall) (e : Store Extra)
    (storage : Storage Extra) : Storage Extra × Option (Call Extra) :=
  match System.startDelete e call.now call.options storage with
  | some (.updating options uidPrecondition) =>
    System.updateForDeletion e call.later options uidPrecondition storage
  | next => (storage, next)

def DeleteCall.exec [DecidableEq Extra] (call : DeleteCall) (e : Store Extra)
    (storage : Storage Extra) : Storage Extra :=
  match call.updated e storage with
  | (next, some (.removing decision)) =>
    ((next.delete decision.uidPrecondition).map Prod.fst).getD next
  | (next, _) => next

/-- The deadline moves at most to an earlier time, and the generation grows when the deletion
begins. -/
structure Kept (obj next : Object Extra) : Prop where
  begun : obj.deletionTimestamp.isSome → next.deletionTimestamp.isSome
  timestamp : ∀ old ∈ obj.deletionTimestamp, ∀ new ∈ next.deletionTimestamp, new ≤ old
  grace : obj.deletionTimestamp.isSome →
    ∀ old ∈ obj.deletionGracePeriodSeconds, ∀ new ∈ next.deletionGracePeriodSeconds, new ≤ old
  generation : next.generation = obj.generation +
    if obj.deletionTimestamp.isNone ∧ next.deletionTimestamp.isSome then 1 else 0

theorem Kept.refl (obj : Object Extra) : Kept obj obj := by
  constructor <;> simp +contextual

theorem Kept.encode (hkept : Kept obj next) (version : ℕ) : Kept obj (next.encode version) where
  begun hsome := by simpa [Object.encode] using hkept.begun hsome
  timestamp old hold new hnew := by
    obtain ⟨time, htime, rfl⟩ := Option.map_eq_some_iff.mp hnew
    exact (Int.mul_ediv_self_le (by decide)).trans (hkept.timestamp old hold time htime)
  grace := hkept.grace
  generation := by simpa [Object.encode] using hkept.generation

variable {assigned : DeletionAssigned}

variable {storage : Storage Extra} {call : DeleteCall}

variable [DecidableEq Extra]

section

variable (e : Store Extra) (storage : Storage Extra) (call : DeleteCall)

end

end Kubernetes.Registry.Generic
