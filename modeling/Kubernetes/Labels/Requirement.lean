import Mathlib.Data.List.Sort
import Mathlib.Data.Char
import Kubernetes.Basic.Decimal
import Kubernetes.Basic.Map
import Kubernetes.Labels.Validation

/-!
# Requirements on labels

A selector is a list of requirements.  It matches a label set if all of them do.  `NewRequirement`
is the only constructor of a requirement outside the package.
-/

namespace Kubernetes.Labels

inductive Operator
  | doesNotExist
  | equals
  | doubleEquals
  | isIn
  | notEquals
  | notIn
  | isPresent
  | greaterThan
  | lessThan
  deriving DecidableEq, Repr

abbrev LabelSet := Map Bytes Bytes

def LabelSet.has (ls : LabelSet) (key : Bytes) : Bool := (Finmap.lookup key ls).isSome

def LabelSet.get (ls : LabelSet) (key : Bytes) : Bytes := (Finmap.lookup key ls).getD []

structure Requirement where
  key : Bytes
  operator : Operator
  strValues : List Bytes
  deriving DecidableEq, Repr

inductive RequirementError
  | invalidLabelKey (key : Bytes) (errs : List QualifiedNameError)
  | valuesEmpty
  | notOneExactValue
  | valuesNotEmpty
  | notOneIntegerValue
  | notInteger
  | invalidLabelValue (value : Bytes) (errs : List FormatError)
  deriving DecidableEq, Repr

def validateLabelKey (key : Bytes) : Except RequirementError Unit :=
  match isQualifiedName key with
  | [] => .ok ()
  | errs => .error (.invalidLabelKey key errs)

def checkValues (op : Operator) (vals : List Bytes) : Except RequirementError Unit :=
  match op with
  | .isIn | .notIn => if vals.length = 0 then .error .valuesEmpty else .ok ()
  | .equals | .doubleEquals | .notEquals =>
    if vals.length ≠ 1 then .error .notOneExactValue else .ok ()
  | .isPresent | .doesNotExist => if vals.length ≠ 0 then .error .valuesNotEmpty else .ok ()
  | .greaterThan | .lessThan =>
    if vals.length ≠ 1 then .error .notOneIntegerValue
    else if vals.all fun value ↦ (Decimal.parseInt value).isOk then .ok () else .error .notInteger

/-- `validateLabelValue` of every value, up to the first that is invalid. -/
def validateLabelValues : List Bytes → Except RequirementError Unit
  | [] => .ok ()
  | value :: vals =>
    match isValidLabelValue value with
    | [] => validateLabelValues vals
    | errs => .error (.invalidLabelValue value errs)

/-- `sort.Strings`. -/
def sortStrings (vals : List Bytes) : List Bytes := vals.insertionSort (· ≤ ·)

def newRequirement (key : Bytes) (op : Operator) (vals : List Bytes) :
    Except RequirementError Requirement := do
  validateLabelKey key
  checkValues op vals
  validateLabelValues vals
  return ⟨key, op, sortStrings vals⟩

namespace Requirement

def hasValue (r : Requirement) (value : Bytes) : Bool := r.strValues.any (· == value)

def matchesLabels (r : Requirement) (ls : LabelSet) : Bool :=
  match r.operator with
  | .isIn | .equals | .doubleEquals => ls.has r.key && r.hasValue (ls.get r.key)
  | .notIn | .notEquals => !ls.has r.key || !r.hasValue (ls.get r.key)
  | .isPresent => ls.has r.key
  | .doesNotExist => !ls.has r.key
  | .greaterThan | .lessThan =>
    ls.has r.key &&
      match Decimal.parseInt (ls.get r.key), r.strValues with
      | .ok lsValue, [value] =>
        match Decimal.parseInt value with
        | .ok rValue =>
          if r.operator = .greaterThan then decide (lsValue > rValue) else decide (lsValue < rValue)
        | .error _ => false
      | _, _ => false

end Requirement

/-- `strings.Join` with a comma. -/
def joinComma (texts : List Bytes) : Bytes := [','].intercalate texts

def Operator.text : Operator → Bytes
  | .equals => ['=']
  | .doubleEquals => ['=', '=']
  | .notEquals => ['!', '=']
  | .isIn => [' ', 'i', 'n', ' ']
  | .notIn => [' ', 'n', 'o', 't', 'i', 'n', ' ']
  | .greaterThan => ['>']
  | .lessThan => ['<']
  | .isPresent | .doesNotExist => []

def Requirement.valuesText (r : Requirement) : Bytes :=
  match r.strValues with
  | [value] => value
  | values => joinComma values

def Requirement.string (r : Requirement) : Bytes :=
  (if r.operator = .doesNotExist then ['!'] else []) ++ r.key ++ r.operator.text ++
    match r.operator with
    | .isPresent | .doesNotExist => []
    | .isIn | .notIn => ['('] ++ r.valuesText ++ [')']
    | _ => r.valuesText

/-- `internalSelector`. -/
abbrev Selector := List Requirement

/-- `internalSelector.Matches`. -/
def Selector.matchesLabels (lsel : Selector) (ls : LabelSet) : Bool := lsel.all (·.matchesLabels ls)

def Selector.string (lsel : Selector) : Bytes := joinComma (lsel.map Requirement.string)

/-- `sort.Sort(ByKey(...))`, with requirements on the same key in any order. -/
class KeySort where
  sort : Selector → Selector
  perm (lsel : Selector) : (sort lsel).Perm lsel
  sorted (lsel : Selector) : (sort lsel).Pairwise fun first second ↦ first.key ≤ second.key

def Selector.sortByKey [KeySort] : Selector → Selector := KeySort.sort

instance : KeySort where
  sort lsel := lsel.insertionSort fun first second ↦ first.key ≤ second.key
  perm := List.perm_insertionSort _
  sorted lsel := by
    have htotal : Std.Total fun first second : Requirement ↦ first.key ≤ second.key :=
      ⟨fun first second ↦ le_total first.key second.key⟩
    exact List.pairwise_insertionSort _ lsel

structure IsRequirement (key : Bytes) (op : Operator) (vals : List Bytes) : Prop where
  key_valid : isQualifiedName key = []
  values_ok : checkValues op vals = .ok ()
  values_valid : ∀ value ∈ vals, isValidLabelValue value = []

theorem validateLabelKey_eq_ok {key : Bytes} :
    validateLabelKey key = .ok () ↔ isQualifiedName key = [] := by
  unfold validateLabelKey
  split <;> simp_all

variable {vals : List Bytes}

theorem validateLabelValues_eq_ok :
    validateLabelValues vals = .ok () ↔ ∀ value ∈ vals, isValidLabelValue value = [] := by
  induction vals with
  | nil => simp [validateLabelValues]
  | cons value vals ih =>
    unfold validateLabelValues
    split <;> simp_all

theorem newRequirement_eq_ok {key : Bytes} {op : Operator} {r : Requirement} :
    newRequirement key op vals = .ok r ↔
      IsRequirement key op vals ∧ r = ⟨key, op, sortStrings vals⟩ := by
  simp only [newRequirement, Bind.bind, Except.bind, Pure.pure, Except.pure]
  cases hkey : validateLabelKey key with
  | error err =>
    refine iff_of_false nofun fun h ↦ ?_
    rw [validateLabelKey_eq_ok.mpr h.1.key_valid] at hkey
    cases hkey
  | ok _ =>
    cases hcheck : checkValues op vals with
    | error err =>
      refine iff_of_false nofun fun h ↦ ?_
      rw [h.1.values_ok] at hcheck
      cases hcheck
    | ok _ =>
      cases hvalues : validateLabelValues vals with
      | error err =>
        refine iff_of_false nofun fun h ↦ ?_
        rw [validateLabelValues_eq_ok.mpr h.1.values_valid] at hvalues
        cases hvalues
      | ok _ =>
        have hreq : IsRequirement key op vals :=
          ⟨validateLabelKey_eq_ok.mp hkey, hcheck, validateLabelValues_eq_ok.mp hvalues⟩
        simp [hreq, eq_comm]

theorem mem_sortStrings {value : Bytes} :
    value ∈ sortStrings vals ↔ value ∈ vals :=
  List.mem_insertionSort _

theorem matchesLabels_sortByKey [KeySort] (lsel : Selector) (ls : LabelSet) :
    lsel.sortByKey.matchesLabels ls = lsel.matchesLabels ls :=
  (KeySort.perm lsel).all_eq

end Kubernetes.Labels
