import Mathlib.Data.Finset.Union

/-!
# Conflicts between merge patches

Two patches conflict if they overlap with different values in any key.  `HasConflicts` compares two
JSON values for this.  It returns from its loops in the first round, and which key of a map comes
first is not determined.
-/

namespace Kubernetes.Patch

/-- JSON values.  A list is its length with its items, a map is its keys with their values. -/
inductive Json (Scalar : Type)
  | scalar (value : Scalar)
  | list (length : ℕ) (items : ℕ → Json Scalar)
  | map (keys : Finset String) (values : String → Json Scalar)

variable {Scalar : Type} [DecidableEq Scalar] {left right : Json Scalar}

/-- The answers of `HasConflicts` for all orders in which the keys of the maps may come. -/
def hasConflicts : Json Scalar → Json Scalar → Finset Bool
  | .map keys values, .map keys' values' =>
    if keys = ∅ then {false}
    else keys.biUnion fun key ↦
      if key ∈ keys' then hasConflicts (values key) (values' key) else {false}
  | .list length items, .list length' items' =>
    if length ≠ length' then {true}
    else if 0 < length then hasConflicts (items 0) (items' 0)
    else {false}
  | .scalar value, .scalar value' => {decide (value ≠ value')}
  | _, _ => {true}

def Conflicts : Json Scalar → Json Scalar → Prop
  | .map keys values, .map keys' values' =>
    ∃ key, key ∈ keys ∧ key ∈ keys' ∧ Conflicts (values key) (values' key)
  | .list length items, .list length' items' =>
    length ≠ length' ∨ ∃ i < length, Conflicts (items i) (items' i)
  | .scalar value, .scalar value' => value ≠ value'
  | _, _ => True

/-- The values conflict in whichever key comes first, and in the first item of lists of one length.
-/
def ConflictsFirst : Json Scalar → Json Scalar → Prop
  | .map keys values, .map keys' values' =>
    keys ≠ ∅ ∧ ∀ key ∈ keys, key ∈ keys' ∧ ConflictsFirst (values key) (values' key)
  | .list length items, .list length' items' =>
    length ≠ length' ∨ 0 < length ∧ ConflictsFirst (items 0) (items' 0)
  | .scalar value, .scalar value' => value ≠ value'
  | _, _ => True

omit [DecidableEq Scalar] in
theorem conflicts_comm : Conflicts left right ↔ Conflicts right left := by
  induction left generalizing right with
  | scalar value => cases right <;> simp [Conflicts, eq_comm]
  | list length items ih =>
    cases right with
    | list length' items' =>
      by_cases hlen : length = length'
      · simp [Conflicts, hlen, ih]
      · simp [Conflicts, hlen, Ne.symm hlen]
    | scalar | map => simp [Conflicts]
  | map keys values ih => cases right <;> simp [Conflicts, ih, and_left_comm]

theorem hasConflicts_nonempty : (hasConflicts left right).Nonempty := by
  induction left generalizing right with
  | scalar value => cases right <;> simp [hasConflicts]
  | list length items ih =>
    cases right with
    | list length' items' =>
      rw [hasConflicts]
      split_ifs
      · simp
      · exact ih 0
      · simp
    | scalar | map => simp [hasConflicts]
  | map keys values ih =>
    cases right with
    | map keys' values' =>
      rw [hasConflicts]
      split_ifs with hkeys
      · simp
      · obtain ⟨key, hkey⟩ := Finset.nonempty_iff_ne_empty.mpr hkeys
        refine Finset.biUnion_nonempty.mpr ⟨key, hkey, ?_⟩
        split_ifs
        · exact ih key
        · simp
    | scalar | list => simp [hasConflicts]

theorem hasConflicts_eq_singleton {answer : Bool} (hnot : (!answer) ∉ hasConflicts left right) :
    hasConflicts left right = {answer} := by
  refine Finset.eq_singleton_iff_nonempty_unique_mem.mpr
    ⟨hasConflicts_nonempty, fun other hother ↦ ?_⟩
  by_contra hne
  exact hnot (Bool.eq_not_of_ne hne ▸ hother)

/-- A conflict that is reported is there. -/
theorem conflicts_of_true_mem (htrue : true ∈ hasConflicts left right) : Conflicts left right := by
  induction left generalizing right with
  | scalar value => cases right <;> simp_all [hasConflicts, Conflicts]
  | list length items ih =>
    cases right with
    | list length' items' =>
      rw [hasConflicts] at htrue
      split_ifs at htrue with hlen hpos
      · exact .inl hlen
      · exact .inr ⟨0, hpos, ih 0 htrue⟩
      · simp at htrue
    | scalar | map => trivial
  | map keys values ih =>
    cases right with
    | map keys' values' =>
      rw [hasConflicts] at htrue
      split_ifs at htrue
      · simp at htrue
      · obtain ⟨key, hkey, htrue⟩ := Finset.mem_biUnion.mp htrue
        split_ifs at htrue with hkey'
        · exact ⟨key, hkey, hkey', ih key htrue⟩
        · simp at htrue
    | scalar | list => trivial

theorem conflictsFirst_iff : ConflictsFirst left right ↔ false ∉ hasConflicts left right := by
  induction left generalizing right with
  | scalar value => cases right <;> simp [hasConflicts, ConflictsFirst]
  | list length items ih =>
    cases right with
    | list length' items' =>
      rw [hasConflicts, ConflictsFirst]
      split_ifs with hlen hpos
      · simp [hlen]
      · obtain rfl := not_not.mp hlen
        simp [hpos, ih]
      · obtain rfl := not_not.mp hlen
        simp [hpos]
    | scalar | map => simp [hasConflicts, ConflictsFirst]
  | map keys values ih =>
    cases right with
    | map keys' values' =>
      rw [hasConflicts, ConflictsFirst]
      split_ifs with hkeys
      · simp [hkeys]
      · simp only [Finset.mem_biUnion, ih]
        grind
    | scalar | list => simp [hasConflicts, ConflictsFirst]

/-- One answer is possible, also with the arguments swapped, and it tells whether the values
conflict, exactly if a conflict is one in whichever keys and items come first. -/
theorem hasConflicts_exact_iff :
    (∃ answer, hasConflicts left right = {answer} ∧ hasConflicts right left = {answer} ∧
        (answer = true ↔ Conflicts left right)) ↔
      (Conflicts left right → ConflictsFirst left right ∧ ConflictsFirst right left) := by
  rw [conflictsFirst_iff, conflictsFirst_iff]
  constructor
  · rintro ⟨answer, hleft, hright, hexact⟩ hconflicts
    rw [hleft, hright, hexact.mpr hconflicts]
    simp
  · intro hfirst
    by_cases hconflicts : Conflicts left right
    · obtain ⟨hleft, hright⟩ := hfirst hconflicts
      exact ⟨true, hasConflicts_eq_singleton hleft, hasConflicts_eq_singleton hright, by simpa⟩
    · refine ⟨false, hasConflicts_eq_singleton fun htrue ↦ ?_,
        hasConflicts_eq_singleton fun htrue ↦ ?_, by simpa⟩
      · exact hconflicts (conflicts_of_true_mem htrue)
      · exact hconflicts (conflicts_comm.mp (conflicts_of_true_mem htrue))

/-- Of two keys only one has different values, and both answers are possible.  A conflict of second
items is not found. -/
theorem later_conflicts_missed :
    hasConflicts (.map {"a", "b"} fun _ ↦ .scalar 1)
        (.map {"a", "b"} fun key ↦ .scalar (if key = "a" then 1 else 2)) = {false, true} ∧
      hasConflicts (.list 2 fun _ ↦ .scalar 0) (.list 2 fun i ↦ .scalar i) = {false} ∧
      Conflicts (.list 2 fun _ ↦ .scalar 0) (.list 2 fun i ↦ .scalar i) := by
  refine ⟨by decide +kernel, by decide, ?_⟩
  exact .inr ⟨1, by decide, by simp [Conflicts]⟩

end Kubernetes.Patch
