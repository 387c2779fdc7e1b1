import Mathlib.Data.Finmap

/-!
# Finite maps with a constant value type

Program maps are Mathlib finite maps whose value type does not depend on the key.  There is no
iteration order, so a loop over the keys of a map takes the order as an argument.
-/

namespace Kubernetes

open Finmap

abbrev Map (Key Value : Type*) := Finmap fun _ : Key ↦ Value

namespace Map

variable {Key Value : Type*} [DecidableEq Key]

theorem lookup_insert (key key' : Key) (value : Value) (entries : Map Key Value) :
    (Finmap.insert key value entries).lookup key' =
      if key' = key then some value else entries.lookup key' := by
  by_cases h : key' = key
  · subst h
    rw [Finmap.lookup_insert, if_pos rfl]
  · rw [lookup_insert_of_ne _ h, if_neg h]

theorem lookup_erase (key key' : Key) (entries : Map Key Value) :
    (Finmap.erase key entries).lookup key' =
      if key' = key then none else entries.lookup key' := by
  by_cases h : key' = key
  · subst h
    rw [Finmap.lookup_erase, if_pos rfl]
  · rw [lookup_erase_ne h, if_neg h]

section Entries

variable {entries : Map Key Value} {P : Key → Value → Prop}
  (hentries : ∀ key value, entries.lookup key = some value → P key value)

include hentries

/-- An insertion of an entry that has the property keeps it. -/
theorem forall_lookup_insert {key : Key} {value : Value} (hnew : P key value) :
    ∀ key' value', (Finmap.insert key value entries).lookup key' = some value' →
      P key' value' := by
  intro key' value' hget
  rw [lookup_insert] at hget
  split_ifs at hget with heq
  · rw [heq, ← Option.some.inj hget]
    exact hnew
  · exact hentries key' value' hget

theorem forall_lookup_erase {key : Key} :
    ∀ key' value', (Finmap.erase key entries).lookup key' = some value' → P key' value' := by
  intro key' value' hget
  rw [lookup_erase] at hget
  split_ifs at hget
  exact hentries key' value' hget

end Entries

theorem insert_erase (key : Key) (value : Value) (entries : Map Key Value) :
    Finmap.insert key value (Finmap.erase key entries) = Finmap.insert key value entries := by
  apply ext_lookup
  intro key'
  rw [lookup_insert, lookup_insert, lookup_erase]
  split_ifs
  · rfl
  · rfl

/-- The map that gives the chosen keys the values of a function, where it has one. -/
def comprehend (keys : Finset Key) (valueOf : Key → Option Value) : Map Key Value :=
  Finmap.keysLookupEquiv.symm
    ⟨(keys.filter fun key ↦ (valueOf key).isSome,
        fun key ↦ if key ∈ keys then valueOf key else none), by
      intro key
      by_cases hkey : key ∈ keys
      · simp [hkey]
      · simp [hkey]⟩

theorem lookup_comprehend (keys : Finset Key) (valueOf : Key → Option Value) (key : Key) :
    (comprehend keys valueOf).lookup key = if key ∈ keys then valueOf key else none := by
  simp [comprehend]

/-- An order in which a loop over the map may visit its keys. -/
def IsOrder (order : List Key) (entries : Map Key Value) : Prop :=
  order.Nodup ∧ ∀ key, key ∈ order ↔ key ∈ entries

theorem IsOrder.mem_iff_lookup {order : List Key} {entries : Map Key Value}
    (horder : IsOrder order entries) (key : Key) :
    key ∈ order ↔ ∃ value, entries.lookup key = some value :=
  (horder.2 key).trans mem_iff

/-- The entries of the map in an order in which a loop over it may visit them. -/
def IsListing (listing : List (Key × Value)) (entries : Map Key Value) : Prop :=
  (listing.map Prod.fst).Nodup ∧
    ∀ key value, (key, value) ∈ listing ↔ Finmap.lookup key entries = some value

theorem IsListing.mem_map_fst {listing : List (Key × Value)} {entries : Map Key Value}
    (hlist : IsListing listing entries) (key : Key) :
    key ∈ listing.map Prod.fst ↔ ∃ value, entries.lookup key = some value := by
  simp only [List.mem_map, Prod.exists, exists_and_right, exists_eq_right]
  exact exists_congr fun value ↦ hlist.2 key value

theorem isListing_empty : IsListing [] (∅ : Map Key Value) := by
  constructor
  · exact List.nodup_nil
  · simp

theorem isListing_singleton (key : Key) (value : Value) :
    IsListing [(key, value)] (Finmap.singleton key value : Map Key Value) := by
  constructor
  · exact List.nodup_singleton key
  · intro key' value'
    by_cases hkey : key' = key
    · subst hkey
      simp [lookup_singleton_eq, eq_comm]
    · have hnone : (Finmap.singleton key value : Map Key Value).lookup key' = none :=
        lookup_eq_none.mpr (by simp [hkey])
      simp [hkey, hnone]

end Map

end Kubernetes
