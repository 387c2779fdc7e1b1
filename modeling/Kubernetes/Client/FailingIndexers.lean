import Kubernetes.Client.IndexerConsistency

/-!
# Indices under failing index functions

The loops over the index functions return at the first one that fails, and the callers drop the
error.  An object that could only be added to some of the indices does no harm, but one that is only
removed from some of them leaves its key behind.
-/

namespace Kubernetes.Client

open InvertedIndex List

variable {Name Value Key Obj Err : Type}
variable [DecidableEq Name] [DecidableEq Value] [DecidableEq Key]

/-- Every key in an index is there for a value of its current object. -/
def Filed (indexers : Indexers Name Obj Value Err) (items : Map Key (Option Obj))
    (indices : Indices Name Value Key) : Prop :=
  ∀ name value key, key ∈ keysAt (Indices.at indices name) value →
    ∃ obj indexFunc, Finmap.lookup key items = some obj ∧
      Finmap.lookup name indexers = some indexFunc ∧ value ∈ IndexFunc.values indexFunc obj

section Maintenance

variable {indexers : Indexers Name Obj Value Err} {items : Map Key (Option Obj)}
variable {indices : Indices Name Value Key} {key : Key} {obj : Option Obj}
variable {listing : List (Name × IndexFunc Obj Value Err)}

theorem filed_empty : Filed indexers items (∅ : Indices Name Value Key) := by
  intro name value key hkey
  simp at hkey

variable (hfiled : Filed indexers items indices)

include hfiled

theorem Filed.mono {items' : Map Key (Option Obj)}
    (hitems : ∀ key obj, items.lookup key = some obj → items'.lookup key = some obj) :
    Filed indexers items' indices := by
  intro name value key hkey
  obtain ⟨obj, indexFunc, hobj, hname, hvalue⟩ := hfiled name value key hkey
  exact ⟨obj, indexFunc, hitems key obj hobj, hname, hvalue⟩

/-- A part of the additions is as good as all of them. -/
theorem Filed.addToIndices (hlisting : ∀ name indexFunc, (name, indexFunc) ∈ listing →
      indexers.lookup name = some indexFunc) (hobj : items.lookup key = some obj) :
    Filed indexers items (rangeIndexers obj (addToIndex key) listing indices).1 := by
  induction listing generalizing indices with
  | nil => exact hfiled
  | cons entry listing ih =>
    obtain ⟨first, indexFunc⟩ := entry
    have hfirst := hlisting first indexFunc mem_cons_self
    unfold rangeIndexers
    split
    · exact hfiled
    · rename_i indexValues hvalues
      refine ih ?_ fun name indexFunc hmem ↦ hlisting name indexFunc (mem_cons_of_mem _ hmem)
      intro name value other hother
      rw [edits_addToIndex key first indexValues indices name] at hother
      split_ifs at hother with hname
      · rw [mem_keysAt_addKey] at hother
        rcases hother with hold | ⟨rfl, hvalue⟩
        · exact hfiled name value other hold
        · exact ⟨obj, indexFunc, hobj, hname ▸ hfirst,
            IndexFunc.mem_values.mpr ⟨_, hvalues, hvalue⟩⟩
      · exact hfiled name value other hother

/-- The removal has to be complete. -/
theorem Filed.deleteFromIndices (hlisting : Map.IsListing listing indexers)
    (hobj : items.lookup key = some obj)
    (htotal : ∀ entry ∈ listing, ∃ indexValues, entry.2 obj = .ok indexValues) :
    Filed indexers (Finmap.erase key items) (Client.deleteFromIndices listing obj key indices).1 := by
  intro name value other hother
  by_cases hname : name ∈ listing.map Prod.fst
  · obtain ⟨⟨name, indexFunc⟩, hmem, rfl⟩ := mem_map.mp hname
    rw [Client.deleteFromIndices,
      (edits_deleteFromIndex key).at_rangeIndexers_of_mem htotal hlisting.1 hmem,
      mem_keysAt_removeKey] at hother
    obtain ⟨hold, hkept⟩ := hother
    obtain ⟨obj', indexFunc', hobj', hget, hvalue⟩ := hfiled name value other hold
    obtain rfl := Option.some.inj (hget.symm.trans ((hlisting.2 name indexFunc).mp hmem))
    have hne : other ≠ key := by
      rintro rfl
      obtain rfl := Option.some.inj (hobj'.symm.trans hobj)
      exact hkept ⟨rfl, hvalue⟩
    exact ⟨obj', indexFunc', by rw [Map.lookup_erase, if_neg hne, hobj'], hget, hvalue⟩
  · rw [Client.deleteFromIndices,
      (edits_deleteFromIndex key).at_rangeIndexers_of_notMem htotal hname] at hother
    obtain ⟨_, indexFunc, _, hget, _⟩ := hfiled name value other hother
    exact absurd (mem_map.mpr ⟨_, (hlisting.2 name indexFunc).mpr hget, rfl⟩) hname

end Maintenance

namespace ThreadSafeMap

variable {c target : ThreadSafeMap Name Value Key Obj Err}

/-- The index functions all give values for the object. -/
def Indexable (c : ThreadSafeMap Name Value Key Obj Err) (obj : Option Obj) : Prop :=
  ∀ name indexFunc, Finmap.lookup name c.indexers = some indexFunc →
    ∃ indexValues, indexFunc obj = .ok indexValues

/-- The object that the call takes out of the store can be removed from all indices. -/
def Removable (c : ThreadSafeMap Name Value Key Obj Err) :
    StoreCall Name Value Key Obj Err → Prop
  | .add key _ | .update key _ =>
    ∀ obj, Finmap.lookup key c.items = some obj → obj.isSome ∧ c.Indexable obj
  | .delete key => ∀ obj, Finmap.lookup key c.items = some obj → c.Indexable obj
  | _ => True

omit [DecidableEq Value] [DecidableEq Key] in
theorem Indexable.listing {obj : Option Obj} (hindexable : c.Indexable obj)
    {listing : List (Name × IndexFunc Obj Value Err)}
    (hlisting : Map.IsListing listing c.indexers) :
    ∀ entry ∈ listing, ∃ indexValues, entry.2 obj = .ok indexValues :=
  fun entry hentry ↦ hindexable entry.1 entry.2 ((hlisting.2 entry.1 entry.2).mp hentry)

theorem filed_put (hfiled : Filed c.indexers c.items c.indices) {key : Key} {obj : Option Obj}
    {deletions additions : List (Name × IndexFunc Obj Value Err)}
    (hdels : Map.IsListing deletions c.indexers)
    (hadds : Map.IsListing additions c.indexers)
    (hremovable : ∀ old, c.items.lookup key = some old → old.isSome ∧ c.Indexable old) :
    Filed c.indexers (c.put key obj deletions additions).items
      (c.put key obj deletions additions).indices := by
  refine Filed.addToIndices ?_ (fun name indexFunc ↦ (hadds.2 name indexFunc).mp)
    (by rw [put, Map.lookup_insert, if_pos rfl])
  cases hold : c.items.lookup key with
  | none =>
    simp only [item, hold, Option.getD_none, Option.isSome_none, Bool.false_eq_true, if_false]
    refine hfiled.mono fun other obj' hother ↦ ?_
    have hne : other ≠ key := by
      rintro rfl
      exact Option.some_ne_none _ (hother.symm.trans hold)
    rw [put, Map.lookup_insert, if_neg hne, hother]
  | some old =>
    obtain ⟨hsome, hindexable⟩ := hremovable old hold
    simp only [item, hold, Option.getD_some, if_pos hsome]
    refine (hfiled.deleteFromIndices hdels hold (hindexable.listing hdels)).mono
      fun other obj' hother ↦ ?_
    rw [Map.lookup_erase] at hother
    split_ifs at hother with hne
    rw [put, Map.lookup_insert, if_neg hne, hother]

theorem filed_step (hfiled : Filed c.indexers c.items c.indices)
    {call : StoreCall Name Value Key Obj Err} (hremovable : c.Removable call)
    (hstep : Step c call target) : Filed target.indexers target.items target.indices := by
  cases hstep with
  | add key obj deletions additions hdels hadds
  | update key obj deletions additions hdels hadds =>
    exact filed_put hfiled hdels hadds hremovable
  | delete key deletions hdels =>
    unfold delete
    split
    · exact hfiled
    · rename_i obj hobj
      exact hfiled.deleteFromIndices hdels hobj ((hremovable obj hobj).listing hdels)
  | replace items visited additions hvisited hadds =>
    -- Each item is added to indices that only hold items visited before.
    have hfold : ∀ (entries : List (Key × Option Obj)) (indices : Indices Name Value Key),
        (∀ entry ∈ entries, entry ∈ visited) → Filed c.indexers items indices →
        Filed c.indexers items (entries.foldl (fun indices entry ↦
          (updateIndices [] (additions entry.1) none entry.2 entry.1 indices).1) indices) := by
      intro entries
      induction entries with
      | nil => exact fun _ _ h ↦ h
      | cons entry entries ih =>
        intro indices hentries h
        refine ih _ (fun entry hmem ↦ hentries entry (mem_cons_of_mem _ hmem)) ?_
        exact h.addToIndices (fun name indexFunc ↦ ((hadds entry.1).2 name indexFunc).mp)
          ((hvisited.2 entry.1 entry.2).mp (hentries entry mem_cons_self))
    exact hfold visited ∅ (fun _ hmem ↦ hmem) filed_empty
  | addIndexers newIndexers target hadded =>
    unfold addIndexers at hadded
    split_ifs at hadded with hrun hconflict
    obtain rfl := Except.ok.inj hadded
    intro name value key hkey
    -- The store is empty, so are the indices.
    obtain ⟨obj, _, hobj, _⟩ := hfiled name value key hkey
    refine absurd (Finset.card_pos.mpr ⟨key, Finmap.mem_keys.mpr ?_⟩) hrun
    exact Finmap.mem_iff.mpr ⟨obj, hobj⟩
  | addIndexersFailed => exact hfiled

def NewStore (c : ThreadSafeMap Name Value Key Obj Err) : Prop :=
  ∃ indexers, c = newThreadSafeStore indexers ∅

/-- The indices only hold keys of items, as long as replaced and deleted objects can be removed from
all indices. -/
theorem indices_hold_items {Key : Type} [LinearOrder Key]
    {c : ThreadSafeMap Name Value Key Obj Err}
    (hreach : Transition.Reachable NewStore (Transition.guarded Removable Step) c) :
    (∀ name value key, key ∈ keysAt (Indices.at c.indices name) value → key ∈ c.items) ∧
    ∀ name value list, c.byIndex name value = .ok list →
      ∃ keys : List Key, list = keys.map c.item ∧ ∀ key ∈ keys, key ∈ c.items := by
  have hfiled : Filed c.indexers c.items c.indices := by
    induction hreach with
    | start hnew =>
      obtain ⟨indexers, rfl⟩ := hnew
      exact filed_empty
    | next _ hstep ih => exact filed_step ih hstep.1 hstep.2
  have hkeys : ∀ name value key, key ∈ keysAt (Indices.at c.indices name) value → key ∈ c.items := by
    intro name value key hkey
    obtain ⟨obj, _, hobj, _⟩ := hfiled name value key hkey
    exact Finmap.mem_iff.mpr ⟨obj, hobj⟩
  refine ⟨hkeys, fun name value list hlist ↦ ?_⟩
  unfold byIndex at hlist
  split at hlist
  · cases hlist
  · exact ⟨_, (Except.ok.inj hlist).symm, fun key hkey ↦
      hkeys name value key ((Finset.mem_sort _).mp hkey)⟩

def headIndex : IndexFunc (List ℕ) ℕ Unit
  | some (first :: _) => .ok [first]
  | _ => .error ()

def constIndex : IndexFunc (List ℕ) ℕ Unit := fun _ ↦ .ok [7]

def twoIndices : ThreadSafeMap ℕ ℕ ℕ (List ℕ) Unit :=
  newThreadSafeStore (Finmap.insert 0 headIndex (Finmap.insert 1 constIndex ∅)) ∅

theorem isListing_twoIndices {listing : List (ℕ × IndexFunc (List ℕ) ℕ Unit)}
    (hperm : listing.Perm [(0, headIndex), (1, constIndex)]) :
    Map.IsListing listing twoIndices.indexers := by
  refine ⟨(hperm.map Prod.fst).nodup_iff.mpr (by decide), fun name indexFunc ↦ ?_⟩
  rw [hperm.mem_iff, twoIndices, newThreadSafeStore, Map.lookup_insert, Map.lookup_insert]
  split_ifs with hzero hone
  · simp [hzero, eq_comm]
  · simp [hone, eq_comm]
  · simp [hzero, hone]

theorem deleted_key_removed :
    ∃ c : ThreadSafeMap ℕ ℕ ℕ (List ℕ) Unit,
      Transition.Reachable NewStore (Transition.guarded Removable Step) c ∧
      3 ∉ c.items ∧ 3 ∉ keysAt (Indices.at c.indices 1) 7 := by
  have hlisting := isListing_twoIndices (List.Perm.refl [(0, headIndex), (1, constIndex)])
  have hstart : Transition.Reachable NewStore (Transition.guarded Removable Step) twoIndices :=
    .start ⟨_, rfl⟩
  have hadded := hstart.guardedNext (.add 3 (some [5]) _ _ hlisting hlisting) nofun
  have hdel := hadded.guardedNext (.delete 3 _ hlisting) fun obj hobj name indexFunc hname ↦ by
    obtain rfl := Option.some.inj hobj
    have hmem := (hlisting.2 name indexFunc).mpr hname
    rw [mem_cons, mem_singleton] at hmem
    obtain ⟨_, rfl⟩ | ⟨_, rfl⟩ := hmem
    · exact ⟨[5], rfl⟩
    · exact ⟨[7], rfl⟩
  exact ⟨_, hdel, by decide,
    fun hkey ↦ absurd ((indices_hold_items hdel).1 1 7 3 hkey) (by decide)⟩

/-- The object is in the second index before the first function fails, and is not removed from it
after that. -/
theorem deleted_key_left_behind :
    ∃ (c : ThreadSafeMap ℕ ℕ ℕ (List ℕ) Unit) (list : List (Option (List ℕ))),
      Transition.Reachable NewStore Step c ∧ 3 ∉ c.items ∧ 3 ∈ keysAt (Indices.at c.indices 1) 7 ∧
      c.byIndex 1 7 = .ok list ∧ none ∈ list := by
  have hstart : Transition.Reachable NewStore Step twoIndices := .start ⟨_, rfl⟩
  have hadded := hstart.next (.add 3 (some []) [(1, constIndex), (0, headIndex)]
    [(1, constIndex), (0, headIndex)] (isListing_twoIndices (List.Perm.swap _ _ _))
    (isListing_twoIndices (List.Perm.swap _ _ _)))
  have hdel := hadded.next (.delete 3 [(0, headIndex), (1, constIndex)]
    (isListing_twoIndices (List.Perm.refl _)))
  exact ⟨_, _, hdel, by decide, by decide, rfl,
    mem_map.mpr ⟨3, (Finset.mem_sort _).mpr (by decide), by decide⟩⟩

end ThreadSafeMap

end Kubernetes.Client
