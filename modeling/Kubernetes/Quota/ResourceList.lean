import Mathlib.Algebra.Order.Group.Defs
import Kubernetes.Basic.Map

/-!
# Res lists

A resource list gives some resources a quantity.  Quantities are compared and added by value, so
they are the elements of an ordered group here.  A loop over a resource list does the same whatever
its order is, and the functions below are written without one.
-/

namespace Kubernetes.Quota

open Finmap

variable {Res Qty : Type} [DecidableEq Res]

abbrev ResourceList (Res Qty : Type) := Map Res Qty

namespace ResourceList

def resourceNames (a : ResourceList Res Qty) : Finset Res := a.keys

variable {a : ResourceList Res Qty}

omit [DecidableEq Res] in
theorem mem_resourceNames {key : Res} : key ∈ resourceNames a ↔ key ∈ a := mem_keys

def mask (resources : ResourceList Res Qty) (names : Finset Res) :
    ResourceList Res Qty :=
  Map.comprehend (resources.keys ∩ names) fun key ↦ Finmap.lookup key resources

theorem lookup_mask (resources : ResourceList Res Qty) (names : Finset Res)
    (key : Res) :
    (mask resources names).lookup key =
      if key ∈ names then resources.lookup key else none := by
  rw [mask, Map.lookup_comprehend]
  by_cases hkey : key ∈ resources
  · simp [mem_keys, hkey]
  · simp [lookup_eq_none.mpr hkey]

section Comparison

variable [LinearOrder Qty]

/-- One of the two loops of `Equals`: every resource of the first list has the same quantity in the
second. -/
def agrees (a b : ResourceList Res Qty) : Bool :=
  decide (∀ key ∈ a.keys, Finmap.lookup key a = Finmap.lookup key b)

def equals (a b : ResourceList Res Qty) : Bool := agrees a b && agrees b a

theorem equals_iff (a b : ResourceList Res Qty) : equals a b = true ↔ a = b := by
  simp only [equals, agrees, Bool.and_eq_true, decide_eq_true_eq, mem_keys]
  constructor
  · rintro ⟨hab, hba⟩
    apply ext_lookup
    intro key
    by_cases ha : key ∈ a
    · exact hab key ha
    by_cases hb : key ∈ b
    · exact (hba key hb).symm
    rw [lookup_eq_none.mpr ha, lookup_eq_none.mpr hb]
  · rintro rfl
    exact ⟨fun _ _ ↦ rfl, fun _ _ ↦ rfl⟩

section

variable (a b : ResourceList Res Qty)

def exceeds (key : Res) : Bool :=
  match Finmap.lookup key a, Finmap.lookup key b with
  | some other, some value => decide (value < other)
  | _, _ => false

def exceeding : Finset Res :=
  b.keys.filter fun key ↦ exceeds a b key

def lessThanOrEqual : Bool × Finset Res :=
  (decide (exceeding a b = ∅), exceeding a b)

end

theorem le_of_lessThanOrEqual {b : ResourceList Res Qty}
    (hle : (lessThanOrEqual a b).1 = true) {key : Res} {other value : Qty}
    (ha : a.lookup key = some other) (hb : b.lookup key = some value) :
    other ≤ value := by
  have hempty : exceeding a b = ∅ := of_decide_eq_true hle
  have hmem : key ∈ b.keys := mem_keys.mpr (mem_of_lookup_eq_some hb)
  have hkey : ¬ exceeds a b key = true := Finset.filter_eq_empty_iff.mp hempty hmem
  simpa [exceeds, ha, hb] using hkey

end Comparison

section Arithmetic

variable [AddCommGroup Qty]

def add (a b : ResourceList Res Qty) : ResourceList Res Qty :=
  Map.comprehend (a.keys ∪ b.keys) fun key ↦
    match Finmap.lookup key a, Finmap.lookup key b with
    | some value, some other => some (value + other)
    | some value, none => some value
    | none, other => other

def subtract (a b : ResourceList Res Qty) : ResourceList Res Qty :=
  Map.comprehend (a.keys ∪ b.keys) fun key ↦
    match Finmap.lookup key a, Finmap.lookup key b with
    | some value, some other => some (value - other)
    | some value, none => some value
    | none, some other => some (-other)
    | none, none => none

theorem lookup_add (a b : ResourceList Res Qty) (key : Res) :
    (add a b).lookup key =
      match a.lookup key, b.lookup key with
      | some value, some other => some (value + other)
      | some value, none => some value
      | none, other => other := by
  rw [add, Map.lookup_comprehend]
  split_ifs with hkey
  · rfl
  · rw [Finset.mem_union, not_or] at hkey
    rw [lookup_eq_none.mpr hkey.1, lookup_eq_none.mpr hkey.2]

@[simp]
theorem add_empty (a : ResourceList Res Qty) : add a ∅ = a := by
  apply ext_lookup
  intro key
  rw [lookup_add]
  cases a.lookup key <;> rfl

/-- The quantity of a resource, zero for a resource that is not listed. -/
def amount (a : ResourceList Res Qty) (key : Res) : Qty :=
  (Finmap.lookup key a).getD 0

@[simp]
theorem amount_empty (key : Res) : amount (∅ : ResourceList Res Qty) key = 0 := by
  simp [amount]

theorem amount_add (a b : ResourceList Res Qty) (key : Res) :
    amount (add a b) key = amount a key + amount b key := by
  simp only [amount, lookup_add]
  cases a.lookup key <;> cases b.lookup key <;> simp

theorem amount_mask (resources : ResourceList Res Qty) (names : Finset Res)
    (key : Res) :
    amount (mask resources names) key = if key ∈ names then amount resources key else 0 := by
  rw [amount, lookup_mask]
  split_ifs
  · rfl
  · rfl

theorem amount_foldl_add (shares : List (ResourceList Res Qty))
    (start : ResourceList Res Qty) (key : Res) :
    amount (shares.foldl add start) key =
      amount start key + (shares.map fun share ↦ amount share key).sum := by
  induction shares generalizing start with
  | nil => simp
  | cons share shares ih =>
    rw [List.foldl_cons, ih, amount_add, List.map_cons, List.sum_cons, add_assoc]

variable [LinearOrder Qty]

def isZero (a : ResourceList Res Qty) : Bool := decide (∀ key ∈ a.keys, amount a key = 0)

def isNegative (a : ResourceList Res Qty) : Finset Res :=
  a.keys.filter fun key ↦ amount a key < 0

theorem amount_eq_zero_of_isZero (hzero : isZero a = true) (key : Res) : amount a key = 0 := by
  by_cases hkey : key ∈ a
  · exact of_decide_eq_true hzero key (mem_keys.mpr hkey)
  · rw [amount, lookup_eq_none.mpr hkey, Option.getD_none]

end Arithmetic

end ResourceList

end Kubernetes.Quota
