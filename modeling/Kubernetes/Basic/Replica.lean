import Kubernetes.Basic.Map

/-!
# Replicas of a map

A replica follows a map by a stream of keyed changes.  It is strict: an insertion must be for a key
it lacks, a replacement and a removal for a key it holds.  For a batch of changes to different keys
it is enough to compare the map before with the map after.
-/

namespace Kubernetes.Replica

open List

variable {Key Value : Type*} [DecidableEq Key]

inductive Change (Key Value : Type*)
  | insert (key : Key) (value : Value)
  | replace (key : Key) (value : Value)
  | remove (key : Key)
  deriving Repr

variable {change : Change Key Value}

namespace Change

def key : Change Key Value → Key
  | insert key _ => key
  | replace key _ => key
  | remove key => key

/-- What the replica has under the key once the change is applied. -/
def value : Change Key Value → Option Value
  | insert _ value => some value
  | replace _ value => some value
  | remove _ => none

/-- The change is one for a replica that holds these entries. -/
def Fits (held : Map Key Value) : Change Key Value → Prop
  | insert key _ => Finmap.lookup key held = none
  | replace key _ => (Finmap.lookup key held).isSome
  | remove key => (Finmap.lookup key held).isSome

instance instDecidableFits (held : Map Key Value) : (change : Change Key Value) →
    Decidable (change.Fits held)
  | insert key _ => decidable_of_iff ((Finmap.lookup key held).isNone = true) (by simp [Fits])
  | replace key _ => inferInstanceAs (Decidable ((Finmap.lookup key held).isSome = true))
  | remove key => inferInstanceAs (Decidable ((Finmap.lookup key held).isSome = true))

def write (held : Map Key Value) : Change Key Value → Map Key Value
  | insert key value => Finmap.insert key value held
  | replace key value => Finmap.insert key value held
  | remove key => Finmap.erase key held

theorem lookup_write (held : Map Key Value) (change : Change Key Value) (key : Key) :
    (change.write held).lookup key =
      if key = change.key then change.value else held.lookup key := by
  cases change with
  | insert changed value | replace changed value => exact Map.lookup_insert changed key value held
  | remove changed => exact Map.lookup_erase changed key held

/-- Whether a change fits depends on the entry under its own key only. -/
theorem Fits.congr {held held' : Map Key Value}
    (hsame : held'.lookup change.key = held.lookup change.key) (hfits : change.Fits held) :
    change.Fits held' := by
  cases change with
  | insert key value => exact hsame.trans hfits
  | replace | remove => exact (congrArg Option.isSome hsame).trans hfits

end Change

def apply (held : Map Key Value) (change : Change Key Value) : Option (Map Key Value) :=
  if change.Fits held then some (change.write held) else none

def applyAll (held : Map Key Value) (changes : List (Change Key Value)) : Option (Map Key Value) :=
  changes.foldlM apply held

/-- Every key is changed at most once, by a change that fits the map before and carries the value
after. -/
structure Leads (held target : Map Key Value) (changes : List (Change Key Value)) : Prop where
  nodup : (changes.map Change.key).Nodup
  fits : ∀ change ∈ changes, change.Fits held
  value : ∀ change ∈ changes, Finmap.lookup change.key target = change.value
  frame : ∀ key, key ∉ changes.map Change.key → Finmap.lookup key target = Finmap.lookup key held

variable {changes : List (Change Key Value)} {held target : Map Key Value}

theorem Leads.perm {changes' : List (Change Key Value)} (hleads : Leads held target changes)
    (hperm : changes'.Perm changes) :
    Leads held target changes' where
  nodup := (hperm.map Change.key).nodup_iff.mpr hleads.nodup
  fits change hmem := hleads.fits change (hperm.mem_iff.mp hmem)
  value change hmem := hleads.value change (hperm.mem_iff.mp hmem)
  frame key hkey := by
    apply hleads.frame key
    intro hmem
    exact hkey ((hperm.map Change.key).mem_iff.mpr hmem)

theorem Leads.nil (held : Map Key Value) : Leads held held [] where
  nodup := nodup_nil
  fits _ hmem := absurd hmem not_mem_nil
  value _ hmem := absurd hmem not_mem_nil
  frame _ _ := rfl

/-- A change to a further key is written to the map after. -/
theorem Leads.cons (hleads : Leads held target changes)
    (hfresh : change.key ∉ changes.map Change.key) (hfits : change.Fits held) :
    Leads held (change.write target) (change :: changes) := by
  constructor
  · exact nodup_cons.mpr ⟨hfresh, hleads.nodup⟩
  · intro other hmem
    rcases mem_cons.mp hmem with hfirst | hrest
    · exact hfirst ▸ hfits
    · exact hleads.fits other hrest
  · intro other hmem
    rw [Change.lookup_write]
    rcases mem_cons.mp hmem with hfirst | hrest
    · rw [hfirst, if_pos rfl]
    · have hother : other.key ≠ change.key := by
        intro hkey
        exact hfresh (hkey ▸ mem_map_of_mem hrest)
      rw [if_neg hother]
      exact hleads.value other hrest
  · intro key hkey
    rw [map_cons, mem_cons, not_or] at hkey
    rw [Change.lookup_write, if_neg hkey.1]
    exact hleads.frame key hkey.2

/-- The replica accepts such a batch and holds the map after. -/
theorem Leads.applyAll_eq (hleads : Leads held target changes) :
    applyAll held changes = some target := by
  induction changes generalizing held with
  | nil =>
    have hsame : held = target := by
      apply Finmap.ext_lookup
      intro key
      exact (hleads.frame key not_mem_nil).symm
    rw [hsame]
    rfl
  | cons change changes ih =>
    have hnodup := nodup_cons.mp hleads.nodup
    have hfits : change.Fits held := hleads.fits change mem_cons_self
    -- the first change touches no key of the others
    have hother : ∀ other ∈ changes, (change.write held).lookup other.key =
        held.lookup other.key := by
      intro other hmem
      rw [Change.lookup_write, if_neg]
      intro hkey
      exact hnodup.1 (hkey ▸ mem_map_of_mem hmem)
    have hrest : Leads (change.write held) target changes := by
      constructor
      · exact hnodup.2
      · intro other hmem
        exact (hleads.fits other (mem_cons_of_mem _ hmem)).congr (hother other hmem)
      · intro other hmem
        exact hleads.value other (mem_cons_of_mem _ hmem)
      · intro key hkey
        rw [Change.lookup_write]
        split_ifs with hfirst
        · rw [hfirst]
          exact hleads.value change mem_cons_self
        · apply hleads.frame key
          rw [map_cons, mem_cons]
          exact not_or.mpr ⟨hfirst, hkey⟩
    calc applyAll held (change :: changes)
        = applyAll (change.write held) changes := by
          simp [applyAll, apply, hfits]
      _ = some target := ih hrest

end Kubernetes.Replica
