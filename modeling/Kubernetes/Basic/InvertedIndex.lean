import Kubernetes.Basic.Map

/-!
# Inverted indices

An index of a keyed collection maps a value to the keys of the entries that have it.  An entry may
have any number of values, and a value that no entry has any more keeps an empty set of keys.
-/

namespace Kubernetes.InvertedIndex

variable {Key Value Entry : Type*} [DecidableEq Key] [DecidableEq Value]

def keysAt (index : Map Value (Finset Key)) (value : Value) : Finset Key :=
  (Finmap.lookup value index).getD ∅

def addKey (index : Map Value (Finset Key)) (key : Key) (values : List Value) :
    Map Value (Finset Key) :=
  values.foldl (fun index value ↦ Finmap.insert value (insert key (keysAt index value)) index) index

def removeValue (key : Key) (index : Map Value (Finset Key)) (value : Value) :
    Map Value (Finset Key) :=
  match Finmap.lookup value index with
  | none => index
  | some set => Finmap.insert value (set.erase key) index

def removeKey (index : Map Value (Finset Key)) (key : Key) (values : List Value) :
    Map Value (Finset Key) :=
  values.foldl (removeValue key) index

omit [DecidableEq Key] in
@[simp]
theorem keysAt_empty (value : Value) : keysAt (∅ : Map Value (Finset Key)) value = ∅ := by
  simp [keysAt]

omit [DecidableEq Key] in
theorem keysAt_insert (index : Map Value (Finset Key)) (value value' : Value) (keys : Finset Key) :
    keysAt (Finmap.insert value keys index) value' =
      if value' = value then keys else keysAt index value' := by
  rw [keysAt, Map.lookup_insert]
  split_ifs
  · rfl
  · rfl

theorem keysAt_removeValue (index : Map Value (Finset Key)) (key : Key) (value value' : Value) :
    keysAt (removeValue key index value) value' =
      if value' = value then (keysAt index value').erase key else keysAt index value' := by
  unfold removeValue
  split
  · rename_i hnone
    split_ifs with heq
    · subst heq
      simp [keysAt, hnone]
    · rfl
  · rename_i set hset
    rw [keysAt_insert]
    split_ifs with heq
    · subst heq
      simp [keysAt, hset]
    · rfl

@[simp]
theorem removeKey_empty (key : Key) (values : List Value) :
    removeKey (∅ : Map Value (Finset Key)) key values = ∅ := by
  unfold removeKey
  induction values with
  | nil => rfl
  | cons value values ih =>
    rw [List.foldl_cons, show removeValue key ∅ value = (∅ : Map Value (Finset Key)) from ?_, ih]
    simp [removeValue]

theorem mem_keysAt_addKey {index : Map Value (Finset Key)} {key key' : Key} {values : List Value}
    {value : Value} :
    key' ∈ keysAt (addKey index key values) value ↔
      key' ∈ keysAt index value ∨ (key' = key ∧ value ∈ values) := by
  unfold addKey
  induction values generalizing index with
  | nil => simp
  | cons first values ih =>
    rw [List.foldl_cons, ih, keysAt_insert]
    by_cases heq : value = first
    · grind
    · simp [heq]

theorem mem_keysAt_removeKey {index : Map Value (Finset Key)} {key key' : Key}
    {values : List Value} {value : Value} :
    key' ∈ keysAt (removeKey index key values) value ↔
      key' ∈ keysAt index value ∧ ¬ (key' = key ∧ value ∈ values) := by
  unfold removeKey
  induction values generalizing index with
  | nil => simp
  | cons first values ih =>
    rw [List.foldl_cons, ih, keysAt_removeValue]
    by_cases heq : value = first
    · grind
    · simp [heq]

/-- The index files exactly the keys of the entries that have a value. -/
def Inverts (valuesOf : Entry → List Value) (entries : Map Key Entry)
    (index : Map Value (Finset Key)) : Prop :=
  ∀ value key, key ∈ keysAt index value ↔
    ∃ entry, Finmap.lookup key entries = some entry ∧ value ∈ valuesOf entry

variable {valuesOf : Entry → List Value} {entries : Map Key Entry} {index : Map Value (Finset Key)}

theorem inverts_empty : Inverts valuesOf (∅ : Map Key Entry) (∅ : Map Value (Finset Key)) := by
  intro value key
  simp

/-- The index of an empty collection has no keys, whatever the values of an entry are. -/
theorem Inverts.of_empty {valuesOf' : Entry → List Value}
    (hinverts : Inverts valuesOf (∅ : Map Key Entry) index) :
    Inverts valuesOf' (∅ : Map Key Entry) index := by
  intro value key
  rw [hinverts value key]
  simp

theorem Inverts.add (hinverts : Inverts valuesOf entries index) {key : Key}
    (hkey : entries.lookup key = none) (entry : Entry) :
    Inverts valuesOf (Finmap.insert key entry entries) (addKey index key (valuesOf entry)) := by
  intro value key'
  rw [mem_keysAt_addKey, hinverts value key']
  by_cases heq : key' = key
  · subst heq
    simp [hkey]
  · simp [heq]

theorem Inverts.remove (hinverts : Inverts valuesOf entries index) {key : Key} {entry : Entry}
    (hkey : entries.lookup key = some entry) :
    Inverts valuesOf (Finmap.erase key entries) (removeKey index key (valuesOf entry)) := by
  intro value key'
  rw [mem_keysAt_removeKey, hinverts value key']
  by_cases heq : key' = key
  · subst heq
    simp [hkey]
  · simp [heq]

end Kubernetes.InvertedIndex
