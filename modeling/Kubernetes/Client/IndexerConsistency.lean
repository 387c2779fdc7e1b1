import Kubernetes.Client.ThreadSafeMap

/-!
# Consistency of the indices with the items

The indices of a `threadSafeMap` are maintained by removing the old object and adding the new one.
With objects that are not nil and total index functions, each index inverts its index function on
the current items, so reads through an index return exactly the objects that match now.
-/

namespace Kubernetes.Client

open Finmap InvertedIndex List

variable {Name Value Key Obj Err : Type}
variable [DecidableEq Name] [DecidableEq Value] [DecidableEq Key]

/-! ## Maintaining the indices -/

def Indexers.Total (indexers : Indexers Name Obj Value Err) : Prop :=
  ∀ name indexFunc, Finmap.lookup name indexers = some indexFunc → IndexFunc.Total indexFunc

/-- The index of each index function inverts it on the items, and there is nothing under other
names. -/
structure Consistent (indexers : Indexers Name Obj Value Err) (items : Map Key (Option Obj))
    (indices : Indices Name Value Key) : Prop where
  inverts : ∀ name indexFunc, Finmap.lookup name indexers = some indexFunc →
    Inverts (IndexFunc.values indexFunc) items (Indices.at indices name)
  unused : ∀ name, Finmap.lookup name indexers = none → Indices.at indices name = ∅

variable {additions : Key → List (Name × IndexFunc Obj Value Err)}

variable {visited : List (Key × Option Obj)}

section Maintenance

variable {indexers : Indexers Name Obj Value Err} {items : Map Key (Option Obj)}
variable {indices : Indices Name Value Key} {key : Key} {obj : Obj}
variable {listing : List (Name × IndexFunc Obj Value Err)}

theorem consistent_empty : Consistent indexers (∅ : Map Key (Option Obj))
    (∅ : Indices Name Value Key) where
  inverts name indexFunc _ := by
    exact inverts_empty
  unused name _ := Indices.at_empty name

omit [DecidableEq Value] [DecidableEq Key] in
theorem Indexers.Total.values (htotal : Indexers.Total indexers)
    (hlisting : Map.IsListing listing indexers) (obj : Obj) :
    ∀ entry ∈ listing, ∃ indexValues, entry.2 (some obj) = .ok indexValues :=
  fun entry hentry ↦ htotal entry.1 entry.2 ((hlisting.2 entry.1 entry.2).mp hentry) obj

section

variable (hcons : Consistent indexers items indices)

include hcons

variable (htotal : Indexers.Total indexers) (hlisting : Map.IsListing listing indexers)

include htotal hlisting

/-- A loop over all index functions keeps the indices consistent if its edit follows the change of
the items. -/
theorem Consistent.range
    {body : Name → List Value → Indices Name Value Key → Indices Name Value Key}
    {edit : Index Value Key → List Value → Index Value Key} (hedits : Edits body edit)
    {items' : Map Key (Option Obj)}
    (hedit : ∀ indexFunc index, Inverts (IndexFunc.values indexFunc) items index →
      Inverts (IndexFunc.values (indexFunc : IndexFunc Obj Value Err)) items'
        (edit index (IndexFunc.values indexFunc (some obj)))) :
    Consistent indexers items' (rangeIndexers (some obj) body listing indices).1 where
  inverts name indexFunc hname := by
    have hlisted : (name, indexFunc) ∈ listing := (hlisting.2 name indexFunc).mpr hname
    rw [hedits.at_rangeIndexers_of_mem (htotal.values hlisting obj) hlisting.1 hlisted]
    exact hedit indexFunc _ (hcons.inverts name indexFunc hname)
  unused name hname := by
    have hunlisted : name ∉ listing.map Prod.fst := by
      rw [hlisting.mem_map_fst, hname]
      simp
    rw [hedits.at_rangeIndexers_of_notMem (htotal.values hlisting obj) hunlisted]
    exact hcons.unused name hname

theorem Consistent.addToIndices (hkey : items.lookup key = none) (obj : Obj) :
    Consistent indexers (Finmap.insert key (some obj) items)
      (rangeIndexers (some obj) (addToIndex key) listing indices).1 :=
  hcons.range htotal hlisting (edits_addToIndex key)
    fun _ _ hinverts ↦ hinverts.add hkey (some obj)

theorem Consistent.deleteFromIndices (hkey : items.lookup key = some (some obj)) :
    Consistent indexers (Finmap.erase key items)
      (Client.deleteFromIndices listing (some obj) key indices).1 :=
  hcons.range htotal hlisting (edits_deleteFromIndex key)
    fun _ _ hinverts ↦ hinverts.remove hkey

end

theorem Consistent.foldl_updateIndices (htotal : Indexers.Total indexers)
    (hadds : ∀ key, Map.IsListing (additions key) indexers)
    (hnonnil : ∀ entry ∈ visited, entry.2.isSome) (hnodup : (visited.map Prod.fst).Nodup)
    {target : Map Key (Option Obj)} (hcons : Consistent indexers items indices)
    (hfresh : ∀ key ∈ visited.map Prod.fst, items.lookup key = none)
    (htarget : ∀ key item, target.lookup key = some item ↔
      items.lookup key = some item ∨ (key, item) ∈ visited) :
    Consistent indexers target (visited.foldl (fun indices entry ↦
      (updateIndices [] (additions entry.1) none entry.2 entry.1 indices).1) indices) := by
  induction visited generalizing items indices with
  | nil =>
    have heq : items = target := by
      apply ext_lookup
      intro key
      ext item
      simp [htarget key item]
    rw [← heq]
    exact hcons
  | cons entry visited ih =>
    obtain ⟨first, item⟩ := entry
    obtain ⟨obj, rfl⟩ := Option.isSome_iff_exists.mp (hnonnil _ mem_cons_self)
    rw [map_cons, nodup_cons] at hnodup
    have hfirst : items.lookup first = none := hfresh first mem_cons_self
    refine ih (fun entry hentry ↦ hnonnil entry (mem_cons_of_mem _ hentry)) hnodup.2
      (hcons.addToIndices htotal (hadds first) hfirst obj) ?_ ?_
    · intro key hkey
      have hne : key ≠ first := fun heq ↦ hnodup.1 (heq ▸ hkey)
      rw [Map.lookup_insert, if_neg hne]
      exact hfresh key (mem_cons_of_mem _ hkey)
    · intro key item
      rw [htarget, mem_cons]
      by_cases heq : key = first
      · subst heq
        simp [hfirst, eq_comm]
      · simp [heq]

end Maintenance

/-! ## The calls -/

/-- The calls that change a store.  The resource version that `Replace` takes is not used. -/
inductive StoreCall (Name Value Key Obj Err : Type)
  | add (key : Key) (obj : Option Obj)
  | update (key : Key) (obj : Option Obj)
  | delete (key : Key)
  | replace (items : Map Key (Option Obj))
  | addIndexers (newIndexers : Indexers Name Obj Value Err)

/-- The objects of the call are not nil, and its index functions give values for every object. -/
def StoreCall.Admissible : StoreCall Name Value Key Obj Err → Prop
  | .add _ obj => obj.isSome
  | .update _ obj => obj.isSome
  | .delete _ => True
  | .replace items => ∀ key item, Finmap.lookup key items = some item → item.isSome
  | .addIndexers newIndexers => Indexers.Total newIndexers

namespace ThreadSafeMap

inductive Step (c : ThreadSafeMap Name Value Key Obj Err) :
    StoreCall Name Value Key Obj Err → ThreadSafeMap Name Value Key Obj Err → Prop
  | add (key : Key) (obj : Option Obj)
      (deletions additions : List (Name × IndexFunc Obj Value Err))
      (hdels : Map.IsListing deletions c.indexers)
      (hadds : Map.IsListing additions c.indexers) :
      Step c (.add key obj) (c.add key obj deletions additions)
  | update (key : Key) (obj : Option Obj)
      (deletions additions : List (Name × IndexFunc Obj Value Err))
      (hdels : Map.IsListing deletions c.indexers)
      (hadds : Map.IsListing additions c.indexers) :
      Step c (.update key obj) (c.update key obj deletions additions)
  | delete (key : Key) (deletions : List (Name × IndexFunc Obj Value Err))
      (hdels : Map.IsListing deletions c.indexers) :
      Step c (.delete key) (c.delete key deletions)
  | replace (items : Map Key (Option Obj)) (visited : List (Key × Option Obj))
      (additions : Key → List (Name × IndexFunc Obj Value Err))
      (hvisited : Map.IsListing visited items)
      (hadds : ∀ key, Map.IsListing (additions key) c.indexers) :
      Step c (.replace items) (c.replace items visited additions)
  | addIndexers (newIndexers : Indexers Name Obj Value Err)
      (target : ThreadSafeMap Name Value Key Obj Err)
      (hadded : c.addIndexers newIndexers = .ok target) :
      Step c (.addIndexers newIndexers) target
  | addIndexersFailed (newIndexers : Indexers Name Obj Value Err) (err : StoreError Name Err)
      (hfailed : c.addIndexers newIndexers = .error err) :
      Step c (.addIndexers newIndexers) c

def Initial (c : ThreadSafeMap Name Value Key Obj Err) : Prop :=
  ∃ indexers, Indexers.Total indexers ∧ c = newThreadSafeStore indexers ∅

def Reachable : ThreadSafeMap Name Value Key Obj Err → Prop :=
  Transition.Reachable Initial (Transition.guarded (fun _ call ↦ call.Admissible) Step)

/-- The invariant: the indices follow the items, which are not nil. -/
structure Valid (c : ThreadSafeMap Name Value Key Obj Err) : Prop where
  total : Indexers.Total c.indexers
  nonnil : ∀ key item, Finmap.lookup key c.items = some item → item.isSome
  consistent : Consistent c.indexers c.items c.indices

variable {c target : ThreadSafeMap Name Value Key Obj Err}

theorem Initial.valid (hinitial : Initial c) : Valid c := by
  obtain ⟨indexers, htotal, rfl⟩ := hinitial
  exact ⟨htotal, fun key item hitem ↦ by simp [newThreadSafeStore] at hitem, consistent_empty⟩

variable {deletions : List (Name × IndexFunc Obj Value Err)} {obj : Option Obj}

section

variable (hvalid : Valid c)

include hvalid

theorem Valid.put (key : Key) (hobj : obj.isSome)
    {additions : List (Name × IndexFunc Obj Value Err)}
    (hdels : Map.IsListing deletions c.indexers)
    (hadds : Map.IsListing additions c.indexers) :
    Valid (c.put key obj deletions additions) where
  total := hvalid.total
  nonnil := Map.forall_lookup_insert hvalid.nonnil hobj
  consistent := by
    obtain ⟨obj, rfl⟩ := Option.isSome_iff_exists.mp hobj
    cases hold : c.items.lookup key with
    | none =>
      have hitem : c.item key = none := by rw [item, hold, Option.getD_none]
      simp only [ThreadSafeMap.put, hitem, updateIndices, Option.isSome_none]
      exact hvalid.consistent.addToIndices hvalid.total hadds hold obj
    | some old =>
      obtain ⟨old, rfl⟩ := Option.isSome_iff_exists.mp (hvalid.nonnil key old hold)
      have hitem : c.item key = some old := by rw [item, hold, Option.getD_some]
      simp only [ThreadSafeMap.put, hitem, updateIndices, Option.isSome_some, if_true]
      rw [← Map.insert_erase]
      exact (hvalid.consistent.deleteFromIndices hvalid.total hdels hold).addToIndices
        hvalid.total hadds (lookup_erase key c.items) obj

theorem Valid.delete (key : Key) (hdels : Map.IsListing deletions c.indexers) :
    Valid (c.delete key deletions) := by
  unfold ThreadSafeMap.delete
  split
  · exact hvalid
  · rename_i item hitem
    obtain ⟨obj, rfl⟩ := Option.isSome_iff_exists.mp (hvalid.nonnil key item hitem)
    exact ⟨hvalid.total, Map.forall_lookup_erase hvalid.nonnil,
      hvalid.consistent.deleteFromIndices hvalid.total hdels hitem⟩

theorem Valid.replace {items : Map Key (Option Obj)}
    (hnonnil : ∀ key item, items.lookup key = some item → item.isSome)
    (hvisited : Map.IsListing visited items)
    (hadds : ∀ key, Map.IsListing (additions key) c.indexers) :
    Valid (c.replace items visited additions) where
  total := hvalid.total
  nonnil := hnonnil
  consistent := by
    refine Consistent.foldl_updateIndices hvalid.total hadds ?_ hvisited.1 consistent_empty
      (fun key _ ↦ lookup_empty key) ?_
    · intro entry hentry
      exact hnonnil entry.1 entry.2 ((hvisited.2 entry.1 entry.2).mp hentry)
    · intro key item
      rw [hvisited.2 key item]
      simp [ThreadSafeMap.replace]

theorem Valid.addIndexers {newIndexers : Indexers Name Obj Value Err}
    (htotal : Indexers.Total newIndexers) (hadded : c.addIndexers newIndexers = .ok target) :
    Valid target := by
  unfold ThreadSafeMap.addIndexers at hadded
  split_ifs at hadded with hrun hconflict
  rw [← Except.ok.inj hadded]
  have hempty : c.items = ∅ := by
    apply ext_lookup
    intro key
    rw [Nat.pos_iff_ne_zero, not_not, Finset.card_eq_zero] at hrun
    rw [lookup_empty, lookup_eq_none, ← Finmap.mem_keys, hrun]
    exact Finset.notMem_empty key
  refine ⟨?_, hvalid.nonnil, ?_, ?_⟩
  · intro name indexFunc hname
    rcases mem_lookup_union.mp hname with hnew | hold
    · exact htotal name indexFunc hnew
    · exact hvalid.total name indexFunc hold.2
  · -- There is no item, so what an index should hold does not depend on the function.
    intro name indexFunc _
    rw [hempty]
    cases hold : c.indexers.lookup name with
    | none =>
      rw [hvalid.consistent.unused name hold]
      exact inverts_empty
    | some oldFunc =>
      have hinverts := hvalid.consistent.inverts name oldFunc hold
      rw [hempty] at hinverts
      exact hinverts.of_empty
  · intro name hname
    rw [lookup_eq_none, mem_union, not_or] at hname
    exact hvalid.consistent.unused name (lookup_eq_none.mpr hname.2)

theorem Valid.step {call : StoreCall Name Value Key Obj Err} (hadmissible : call.Admissible)
    (hstep : Step c call target) : Valid target := by
  cases hstep with
  | add key _ _ _ hdels hadds | update key _ _ _ hdels hadds =>
    exact hvalid.put key hadmissible hdels hadds
  | delete key deletions hdels => exact hvalid.delete key hdels
  | replace items visited additions hvisited hadds =>
    exact hvalid.replace hadmissible hvisited hadds
  | addIndexers newIndexers target hadded => exact hvalid.addIndexers hadmissible hadded
  | addIndexersFailed newIndexers err hfailed => exact hvalid

end

theorem Reachable.valid (hreach : Reachable c) : Valid c := by
  refine Transition.Reachable.invariant ?_ ?_ hreach
  · exact fun _ hinitial ↦ hinitial.valid
  · exact fun _ _ _ _ hvalid hstep ↦ hvalid.step hstep.1 hstep.2

/-! ## Reading through an index -/

/-- The current object under the key has the value under the index. -/
def Matches (c : ThreadSafeMap Name Value Key Obj Err) (indexName : Name) (indexKey : Value)
    (key : Key) : Prop :=
  ∃ indexFunc item indexValues, Finmap.lookup indexName c.indexers = some indexFunc ∧
    Finmap.lookup key c.items = some item ∧ indexFunc item = .ok indexValues ∧
    indexKey ∈ indexValues

/-- The list has the current objects under the keys with a property, each key once. -/
def Lists (c : ThreadSafeMap Name Value Key Obj Err) (matching : Key → Prop)
    (list : List (Option Obj)) : Prop :=
  ∃ keys : List Key, keys.Nodup ∧ (∀ key, key ∈ keys ↔ matching key) ∧
    list.map some = keys.map fun key ↦ Finmap.lookup key c.items

theorem Valid.mem_keysAt (hvalid : Valid c) (indexName : Name) (indexKey : Value) (key : Key) :
    key ∈ keysAt (Indices.at c.indices indexName) indexKey ↔ c.Matches indexName indexKey key := by
  unfold Matches
  cases hname : c.indexers.lookup indexName with
  | none => simp [hvalid.consistent.unused indexName hname]
  | some indexFunc =>
    rw [hvalid.consistent.inverts indexName indexFunc hname indexKey key]
    simp [IndexFunc.mem_values]

omit [DecidableEq Name] [DecidableEq Value] in
theorem lists_map_item {keys : List Key} (hnodup : keys.Nodup) {matching : Key → Prop}
    (hkeys : ∀ key, key ∈ keys ↔ matching key)
    (hused : ∀ key, matching key → ∃ item, c.items.lookup key = some item) :
    c.Lists matching (keys.map c.item) := by
  refine ⟨keys, hnodup, hkeys, ?_⟩
  rw [map_map]
  refine map_congr_left fun key hkey ↦ ?_
  obtain ⟨item, hitem⟩ := hused key ((hkeys key).mp hkey)
  rw [Function.comp_apply, ThreadSafeMap.item, hitem, Option.getD_some]

variable {indexName : Name}

omit [DecidableEq Value] in
theorem Matches.used {indexKey : Value} {key : Key} (hmatch : c.Matches indexName indexKey key) :
    ∃ item, c.items.lookup key = some item := by
  obtain ⟨_, item, _, _, hitem, _⟩ := hmatch
  exact ⟨item, hitem⟩

theorem mem_returnKeySet (indexName : Name) (indexKeys : List Value) (key : Key) :
    key ∈ c.returnKeySet indexName indexKeys ↔
      ∃ indexKey ∈ indexKeys, key ∈ keysAt (Indices.at c.indices indexName) indexKey := by
  have hfold : ∀ start : Finset Key, key ∈ indexKeys.foldl (fun keys indexKey ↦
      keys ∪ keysAt (Indices.at c.indices indexName) indexKey) start ↔ key ∈ start ∨
        ∃ indexKey ∈ indexKeys, key ∈ keysAt (Indices.at c.indices indexName) indexKey := by
    induction indexKeys with
    | nil => simp
    | cons first indexKeys ih => simp [ih, or_assoc]
  rw [returnKeySet, hfold]
  simp

variable {indexFunc : IndexFunc Obj Value Err}

theorem Valid.index (hvalid : Valid c) (hname : c.indexers.lookup indexName = some indexFunc)
    {indexKeys : List Value} (hvalues : indexFunc obj = .ok indexKeys)
    {visit : Finset Key → List Key} (hvisit : ∀ keys, (visit keys).Nodup ∧
      ∀ key, key ∈ visit keys ↔ key ∈ keys) :
    ∃ list, c.index indexName obj visit = .ok list ∧
      c.Lists (fun key ↦ ∃ indexKey ∈ indexKeys, c.Matches indexName indexKey key) list := by
  have hlist : c.index indexName obj visit =
      .ok ((visit (c.returnKeySet indexName indexKeys)).map c.item) := by
    simp only [ThreadSafeMap.index, hname, hvalues]
  refine ⟨_, hlist, ?_⟩
  refine lists_map_item (hvisit _).1 (fun key ↦ ?_) ?_
  · simp only [(hvisit _).2, mem_returnKeySet, hvalid.mem_keysAt]
  · rintro key ⟨indexKey, _, hmatch⟩
    exact hmatch.used

theorem Valid.byIndex {Key : Type} [LinearOrder Key] {c : ThreadSafeMap Name Value Key Obj Err}
    (hvalid : Valid c) (hname : c.indexers.lookup indexName = some indexFunc)
    (indexKey : Value) :
    ∃ list, c.byIndex indexName indexKey = .ok list ∧
      c.Lists (c.Matches indexName indexKey) list := by
  have hlist : c.byIndex indexName indexKey =
      .ok (((keysAt (Indices.at c.indices indexName) indexKey).sort (· ≤ ·)).map c.item) := by
    simp only [ThreadSafeMap.byIndex, hname]
  refine ⟨_, hlist, ?_⟩
  refine lists_map_item (Finset.sort_nodup _ _) (fun key ↦ ?_) fun _ hmatch ↦ hmatch.used
  rw [Finset.mem_sort, hvalid.mem_keysAt]

/-- After any calls with objects that are not nil and total index functions, the key set under a
name and a value is that of the items with the value, and `ByIndex` and `Index` return the objects
of the matching keys, each once. -/
theorem Reachable.indexer_consistency {Key : Type} [LinearOrder Key]
    {c : ThreadSafeMap Name Value Key Obj Err} (hreach : Reachable c) :
    (∀ indexName indexKey key, key ∈ keysAt (Indices.at c.indices indexName) indexKey ↔
      c.Matches indexName indexKey key) ∧
    ∀ indexName indexFunc, Finmap.lookup indexName c.indexers = some indexFunc →
      (∀ indexKey, ∃ list, c.byIndex indexName indexKey = .ok list ∧
        c.Lists (c.Matches indexName indexKey) list) ∧
      ∀ obj indexKeys, indexFunc obj = .ok indexKeys → ∀ visit : Finset Key → List Key,
        (∀ keys, (visit keys).Nodup ∧ ∀ key, key ∈ visit keys ↔ key ∈ keys) →
        ∃ list, c.index indexName obj visit = .ok list ∧
          c.Lists (fun key ↦ ∃ indexKey ∈ indexKeys, c.Matches indexName indexKey key) list :=
  ⟨hreach.valid.mem_keysAt, fun _ _ hname ↦ ⟨hreach.valid.byIndex hname,
    fun _ _ hvalues _ hvisit ↦ hreach.valid.index hname hvalues hvisit⟩⟩

def elements : IndexFunc (List ℕ) ℕ Empty := fun obj ↦ .ok (obj.getD [])

def emptySample : ThreadSafeMap ℕ ℕ ℕ (List ℕ) Empty :=
  newThreadSafeStore (Finmap.insert 0 elements ∅) ∅

def sample : ThreadSafeMap ℕ ℕ ℕ (List ℕ) Empty :=
  let listing := [(0, elements)]
  ((emptySample.add 1 (some [5, 7]) listing listing).add 2 (some [7]) listing listing).update 1
    (some [8]) listing listing

theorem lookup_emptySample_indexers (name : ℕ) (indexFunc : IndexFunc (List ℕ) ℕ Empty) :
    emptySample.indexers.lookup name = some indexFunc ↔ name = 0 ∧ indexFunc = elements := by
  rw [emptySample, newThreadSafeStore, Map.lookup_insert]
  split_ifs with hname
  · simp [hname, eq_comm]
  · simp [hname]

theorem reachable_sample : Reachable sample := by
  have hlisting : Map.IsListing [(0, elements)] emptySample.indexers := by
    refine ⟨by simp, fun name indexFunc ↦ ?_⟩
    rw [lookup_emptySample_indexers, List.mem_singleton, Prod.mk.injEq]
  have htotal : Indexers.Total emptySample.indexers := by
    intro name indexFunc hname
    obtain ⟨_, rfl⟩ := (lookup_emptySample_indexers name indexFunc).mp hname
    exact fun obj ↦ ⟨obj, rfl⟩
  have hempty : Reachable emptySample := .start ⟨_, htotal, rfl⟩
  have hfirst := hempty.guardedNext (.add 1 (some [5, 7]) _ _ hlisting hlisting) rfl
  have hsecond := hfirst.guardedNext (.add 2 (some [7]) _ _ hlisting hlisting) rfl
  exact hsecond.guardedNext (.update 1 (some [8]) _ _ hlisting hlisting) rfl

theorem sample_byIndex_seven :
    keysAt (Indices.at sample.indices 0) 7 = {2} ∧ sample.Matches 0 7 2 ∧
      ∃ list, sample.byIndex 0 7 = .ok list ∧ sample.Lists (sample.Matches 0 7) list := by
  have hkeys : keysAt (Indices.at sample.indices 0) 7 = {2} := by decide
  obtain ⟨hmatch, hreads⟩ := reachable_sample.indexer_consistency
  exact ⟨hkeys, (hmatch 0 7 2).mp (by rw [hkeys]; decide), (hreads 0 elements rfl).1 7⟩

end ThreadSafeMap

end Kubernetes.Client
