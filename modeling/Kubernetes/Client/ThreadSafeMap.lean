import Mathlib.Data.Finset.Sort
import Kubernetes.Basic.InvertedIndex
import Kubernetes.Basic.Transition

/-!
# The thread-safe store and its indices

`threadSafeMap` keeps objects under keys and, for every named index function, an index from its
values to the keys of the objects that have them.  Every method holds the lock.  An object is an
`interface{}`, nil for `none`; loops over Go maps take the order as an argument.
-/

namespace Kubernetes.Client

open InvertedIndex List

variable {Name Value Key Obj Err : Type}

abbrev IndexFunc (Obj Value Err : Type) := Option Obj → Except Err (List Value)

abbrev Index (Value Key : Type) := Map Value (Finset Key)

abbrev Indices (Name Value Key : Type) := Map Name (Index Value Key)

abbrev Indexers (Name Obj Value Err : Type) := Map Name (IndexFunc Obj Value Err)

def IndexFunc.Total (indexFunc : IndexFunc Obj Value Err) : Prop :=
  ∀ obj, ∃ indexValues, indexFunc (some obj) = .ok indexValues

def IndexFunc.values (indexFunc : IndexFunc Obj Value Err) (obj : Option Obj) : List Value :=
  match indexFunc obj with
  | .ok indexValues => indexValues
  | .error _ => []

variable {indexFunc : IndexFunc Obj Value Err} {obj : Option Obj}

theorem IndexFunc.values_eq {indexValues : List Value} (hvalues : indexFunc obj = .ok indexValues) :
    IndexFunc.values indexFunc obj = indexValues := by
  simp [IndexFunc.values, hvalues]

theorem IndexFunc.mem_values {value : Value} :
    value ∈ IndexFunc.values indexFunc obj ↔
      ∃ indexValues, indexFunc obj = .ok indexValues ∧ value ∈ indexValues := by
  unfold IndexFunc.values
  cases indexFunc obj <;> simp

variable [DecidableEq Name] [DecidableEq Value] [DecidableEq Key]

/-- The index under a name.  A nil map reads like an empty one. -/
def Indices.at (indices : Indices Name Value Key) (name : Name) : Index Value Key :=
  (Finmap.lookup name indices).getD ∅

/-- The loop of both methods below.  It returns at the first function that fails. -/
def rangeIndexers (obj : Option Obj)
    (body : Name → List Value → Indices Name Value Key → Indices Name Value Key) :
    List (Name × IndexFunc Obj Value Err) → Indices Name Value Key →
      Indices Name Value Key × Option Err
  | [], indices => (indices, none)
  | (name, indexFunc) :: indexers, indices =>
    match indexFunc obj with
    | .error err => (indices, some err)
    | .ok indexValues => rangeIndexers obj body indexers (body name indexValues indices)

section

variable (key : Key) (name : Name) (indexValues : List Value) (indices : Indices Name Value Key)

/-- File the key under the values, in an index that is created if it is missing. -/
def addToIndex : Indices Name Value Key :=
  Finmap.insert name (addKey (Indices.at indices name) key indexValues) indices

/-- Remove the key from the values, if there is an index. -/
def deleteFromIndex : Indices Name Value Key :=
  match Finmap.lookup name indices with
  | none => indices
  | some index => Finmap.insert name (removeKey index key indexValues) indices

end

def deleteFromIndices (indexers : List (Name × IndexFunc Obj Value Err)) (obj : Option Obj)
    (key : Key) (indices : Indices Name Value Key) : Indices Name Value Key × Option Err :=
  rangeIndexers obj (deleteFromIndex key) indexers indices

/-- Remove the old object, if any, and add the new one, in two loops.  An error of the first is
dropped. -/
def updateIndices (deletions additions : List (Name × IndexFunc Obj Value Err))
    (oldObj newObj : Option Obj) (key : Key) (indices : Indices Name Value Key) :
    Indices Name Value Key × Option Err :=
  let indices :=
    if oldObj.isSome then (deleteFromIndices deletions oldObj key indices).1 else indices
  rangeIndexers newObj (addToIndex key) additions indices

omit [DecidableEq Key] [DecidableEq Value] in
@[simp]
theorem Indices.at_empty (name : Name) : Indices.at (∅ : Indices Name Value Key) name = ∅ := by
  simp [Indices.at]

/-- The body of the loop edits the index of the function and leaves the others alone. -/
def Edits (body : Name → List Value → Indices Name Value Key → Indices Name Value Key)
    (edit : Index Value Key → List Value → Index Value Key) : Prop :=
  ∀ name indexValues indices name', Indices.at (body name indexValues indices) name' =
    if name' = name then edit (Indices.at indices name') indexValues else Indices.at indices name'

theorem edits_addToIndex (key : Key) :
    Edits (addToIndex key : Name → List Value → _) fun index ↦ addKey index key := by
  intro name indexValues indices name'
  rw [Indices.at, addToIndex, Map.lookup_insert]
  split_ifs with hname
  · rw [hname]
    rfl
  · rfl

theorem edits_deleteFromIndex (key : Key) :
    Edits (deleteFromIndex key : Name → List Value → _) fun index ↦ removeKey index key := by
  intro name indexValues indices name'
  unfold deleteFromIndex
  split
  · rename_i hnone
    split_ifs with hname
    · -- A missing index has nothing to remove.
      rw [hname, Indices.at, hnone]
      simp
    · rfl
  · rename_i index hindex
    rw [Indices.at, Map.lookup_insert]
    split_ifs with hname
    · rw [hname, Indices.at, hindex]
      rfl
    · rfl

section Loop

variable {body : Name → List Value → Indices Name Value Key → Indices Name Value Key}
variable {edit : Index Value Key → List Value → Index Value Key}
variable {listing : List (Name × IndexFunc Obj Value Err)} {obj : Option Obj}

variable {indexFunc : IndexFunc Obj Value Err}

omit [DecidableEq Name] [DecidableEq Value] [DecidableEq Key] in
theorem rangeIndexers_cons {name : Name} {indexValues : List Value}
    (hvalues : indexFunc obj = .ok indexValues) (indices : Indices Name Value Key) :
    rangeIndexers obj body ((name, indexFunc) :: listing) indices =
      rangeIndexers obj body listing (body name indexValues indices) := by
  simp only [rangeIndexers]
  rw [hvalues]

omit [DecidableEq Value] [DecidableEq Key] in
section

variable (hedits : Edits body edit)
  (htotal : ∀ entry ∈ listing, ∃ indexValues, entry.2 obj = .ok indexValues)

include hedits htotal

theorem Edits.at_rangeIndexers_of_notMem {name : Name} (hname : name ∉ listing.map Prod.fst)
    (indices : Indices Name Value Key) :
    Indices.at (rangeIndexers obj body listing indices).1 name = Indices.at indices name := by
  induction listing generalizing indices with
  | nil => rfl
  | cons entry listing ih =>
    obtain ⟨indexValues, hvalues⟩ := htotal _ mem_cons_self
    rw [map_cons, mem_cons, not_or] at hname
    rw [rangeIndexers_cons hvalues,
      ih (fun entry hentry ↦ htotal entry (mem_cons_of_mem _ hentry)) hname.2,
      hedits, if_neg hname.1]

omit [DecidableEq Value] [DecidableEq Key] in
/-- The loop edits the index of a function it visits with the values of the function. -/
theorem Edits.at_rangeIndexers_of_mem (hnodup : (listing.map Prod.fst).Nodup) {name : Name}
    (hname : (name, indexFunc) ∈ listing) (indices : Indices Name Value Key) :
    Indices.at (rangeIndexers obj body listing indices).1 name =
      edit (Indices.at indices name) (IndexFunc.values indexFunc obj) := by
  induction listing generalizing indices with
  | nil => exact absurd hname not_mem_nil
  | cons entry listing ih =>
    obtain ⟨indexValues, hvalues⟩ := htotal _ mem_cons_self
    have hrest : ∀ entry ∈ listing, ∃ indexValues, entry.2 obj = .ok indexValues :=
      fun entry hentry ↦ htotal entry (mem_cons_of_mem _ hentry)
    rw [map_cons, nodup_cons] at hnodup
    rw [rangeIndexers_cons hvalues]
    rcases mem_cons.mp hname with hfirst | hlater
    · subst hfirst
      -- The names are distinct, so no later visit touches this index.
      rw [hedits.at_rangeIndexers_of_notMem hrest hnodup.1, hedits, if_pos rfl,
        IndexFunc.values_eq hvalues]
    · have hne : name ≠ entry.1 := by
        rintro rfl
        exact hnodup.1 (mem_map.mpr ⟨_, hlater, rfl⟩)
      rw [ih hrest hnodup.2 hlater, hedits, if_neg hne]

end

end Loop

structure ThreadSafeMap (Name Value Key Obj Err : Type) where
  items : Map Key (Option Obj)
  indexers : Indexers Name Obj Value Err
  indices : Indices Name Value Key

inductive StoreError (Name Err : Type)
  /-- `Index with name %s does not exist` -/
  | indexDoesNotExist (indexName : Name)
  /-- the index function failed -/
  | indexFunc (err : Err)
  /-- `cannot add indexers to running index` -/
  | runningIndex
  /-- `indexer conflict: %v` -/
  | indexerConflict (names : Finset Name)
  deriving DecidableEq

namespace ThreadSafeMap

def newThreadSafeStore (indexers : Indexers Name Obj Value Err)
    (indices : Indices Name Value Key) : ThreadSafeMap Name Value Key Obj Err where
  items := ∅
  indexers := indexers
  indices := indices

variable (c : ThreadSafeMap Name Value Key Obj Err)

/-- `c.items[key]`, which is nil for a missing key. -/
def item (key : Key) : Option Obj := (Finmap.lookup key c.items).getD none

def put (key : Key) (obj : Option Obj)
    (deletions additions : List (Name × IndexFunc Obj Value Err)) :
    ThreadSafeMap Name Value Key Obj Err :=
  { c with
    items := Finmap.insert key obj c.items
    indices := (updateIndices deletions additions (c.item key) obj key c.indices).1 }

def add := c.put

def update := c.put

def delete (key : Key) (deletions : List (Name × IndexFunc Obj Value Err)) :
    ThreadSafeMap Name Value Key Obj Err :=
  match Finmap.lookup key c.items with
  | none => c
  | some obj =>
    { c with
      items := Finmap.erase key c.items
      indices := (deleteFromIndices deletions obj key c.indices).1 }

/-- `Replace`, which visits the items in an order, each with its own order of the index functions.
-/
def replace (items : Map Key (Option Obj)) (visited : List (Key × Option Obj))
    (additions : Key → List (Name × IndexFunc Obj Value Err)) :
    ThreadSafeMap Name Value Key Obj Err :=
  { c with
    items := items
    indices := visited.foldl
      (fun indices entry ↦
        (updateIndices [] (additions entry.1) none entry.2 entry.1 indices).1) ∅ }

def addIndexers (newIndexers : Indexers Name Obj Value Err) :
    Except (StoreError Name Err) (ThreadSafeMap Name Value Key Obj Err) :=
  if 0 < c.items.keys.card then .error .runningIndex
  else if (c.indexers.keys ∩ newIndexers.keys).Nonempty then
    .error (.indexerConflict (c.indexers.keys ∩ newIndexers.keys))
  else .ok { c with indexers := newIndexers ∪ c.indexers }

/-- The key set that `Index` collects for the values of the object. -/
def returnKeySet (indexName : Name) (indexKeys : List Value) : Finset Key :=
  indexKeys.foldl
    (fun keys indexKey ↦ keys ∪ keysAt (Indices.at c.indices indexName) indexKey) ∅

/-- `Index`.  The returned list follows the order in which the key set is visited. -/
def index (indexName : Name) (obj : Option Obj) (visit : Finset Key → List Key) :
    Except (StoreError Name Err) (List (Option Obj)) :=
  match Finmap.lookup indexName c.indexers with
  | none => .error (.indexDoesNotExist indexName)
  | some indexFunc =>
    match indexFunc obj with
    | .error err => .error (.indexFunc err)
    | .ok indexKeys => .ok ((visit (c.returnKeySet indexName indexKeys)).map c.item)

/-- `ByIndex`.  The keys of the set are visited in ascending order. -/
def byIndex {Key : Type} [LinearOrder Key] (c : ThreadSafeMap Name Value Key Obj Err)
    (indexName : Name) (indexKey : Value) : Except (StoreError Name Err) (List (Option Obj)) :=
  match Finmap.lookup indexName c.indexers with
  | none => .error (.indexDoesNotExist indexName)
  | some _ => .ok (((keysAt (Indices.at c.indices indexName) indexKey).sort (· ≤ ·)).map c.item)

end ThreadSafeMap

end Kubernetes.Client
