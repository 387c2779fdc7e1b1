import Kubernetes.Labels.Tokenisation
import Kubernetes.Labels.Requirement

/-!
# The grammar of label selectors

The comment of `Parse` gives a grammar:

    <selector-syntax>         ::= <requirement> | <requirement> "," <selector-syntax>
    <requirement>             ::= [!] KEY [ <set-based-restriction> | <exact-match-restriction> ]
    <set-based-restriction>   ::= "" | <inclusion-exclusion> <value-set>
    <value-set>               ::= "(" <values> ")"
    <values>                  ::= VALUE | VALUE "," <values>
    <exact-match-restriction> ::= ["="|"=="|"!="] VALUE

A `Clause` is a tree of `<requirement>`, with the two operators of `NewRequirement` that the comment
leaves out.  `Clause.Documented` are the trees of the comment, and `Clause.Plain` are those the code
is made for: an exclamation mark stands in front of a bare key, and a value follows an operator.
-/

namespace Kubernetes.Labels

inductive SetOperator
  | isIn
  | notIn
  deriving DecidableEq, Repr

inductive ExactOperator
  | equals
  | doubleEquals
  | notEquals
  | greaterThan
  | lessThan
  deriving DecidableEq, Repr

/-- What follows a key.  A value set has at least one value. -/
inductive Restriction
  | bare
  | valueSet (op : SetOperator) (first : Bytes) (others : List Bytes)
  | single (op : Option ExactOperator) (value : Bytes)
  deriving DecidableEq, Repr

structure Clause where
  negated : Bool
  key : Bytes
  restriction : Restriction
  deriving DecidableEq, Repr

def commaItem : ScannedItem := ⟨.comma, [',']⟩

def openItem : ScannedItem := ⟨.openPar, ['(']⟩

def closeItem : ScannedItem := ⟨.closedPar, [')']⟩

def bangItem : ScannedItem := ⟨.doesNotExist, ['!']⟩

def SetOperator.item : SetOperator → ScannedItem
  | .isIn => ⟨.isIn, ['i', 'n']⟩
  | .notIn => ⟨.notIn, ['n', 'o', 't', 'i', 'n']⟩

def ExactOperator.item : ExactOperator → ScannedItem
  | .equals => ⟨.equals, ['=']⟩
  | .doubleEquals => ⟨.doubleEquals, ['=', '=']⟩
  | .notEquals => ⟨.notEquals, ['!', '=']⟩
  | .greaterThan => ⟨.greaterThan, ['>']⟩
  | .lessThan => ⟨.lessThan, ['<']⟩

def valueItems (value : Bytes) : List ScannedItem :=
  if value = [] then [] else [word value]

def valuesItems : Bytes → List Bytes → List ScannedItem
  | first, [] => valueItems first
  | first, next :: others => valueItems first ++ commaItem :: valuesItems next others

def Restriction.items : Restriction → List ScannedItem
  | .bare => []
  | .valueSet op first others => op.item :: openItem :: (valuesItems first others ++ [closeItem])
  | .single op value => (op.map ExactOperator.item).toList ++ valueItems value

def Clause.items (c : Clause) : List ScannedItem :=
  (if c.negated then [bangItem] else []) ++ word c.key :: c.restriction.items

def selectorItems : List Clause → List ScannedItem
  | [] => []
  | [c] => c.items
  | c :: clauses => c.items ++ commaItem :: selectorItems clauses

def SetOperator.operator : SetOperator → Operator
  | .isIn => .isIn
  | .notIn => .notIn

def ExactOperator.operator : ExactOperator → Operator
  | .equals => .equals
  | .doubleEquals => .doubleEquals
  | .notEquals => .notEquals
  | .greaterThan => .greaterThan
  | .lessThan => .lessThan

def Restriction.values : Restriction → List Bytes
  | .bare => []
  | .valueSet _ first others => first :: others
  | .single _ value => [value]

def Clause.operator (c : Clause) : Operator :=
  match c.negated, c.restriction with
  | true, _ => .doesNotExist
  | false, .bare => .isPresent
  | false, .valueSet op _ _ => op.operator
  | false, .single (some op) _ => op.operator
  | false, .single none _ => .equals

def Clause.requirement (c : Clause) : Requirement :=
  ⟨c.key, c.operator, sortStrings c.restriction.values.dedup⟩

structure Clause.Valid (c : Clause) : Prop where
  key_valid : isQualifiedName c.key = []
  values_valid : ∀ value ∈ c.restriction.values, isValidLabelValue value = []

/-- The trees of the comment have no `>` and no `<`. -/
def Clause.Documented (c : Clause) : Prop :=
  match c.restriction with
  | .single (some .greaterThan) _ | .single (some .lessThan) _ => False
  | _ => True

/-- An exclamation mark stands in front of a bare key, a value follows an operator, and numbers are
compared with an integer. -/
def Clause.Plain (c : Clause) : Prop :=
  match c.restriction with
  | .bare => True
  | .valueSet _ _ _ => c.negated = false
  | .single none _ => False
  | .single (some op) value =>
    c.negated = false ∧ (op = .greaterThan ∨ op = .lessThan → (Decimal.parseInt value).isOk = true)

/-- The number of commas at the end of `<values>`. -/
def trailingCommas : Bytes → List Bytes → ℕ
  | _, [] => 0
  | _, next :: others =>
    if (next :: others).all List.isEmpty then others.length + 1 else trailingCommas next others

/-- Before the closing parenthesis stands an even number of commas, and at least two. -/
def EvenRun (first : Bytes) (others : List Bytes) : Prop :=
  2 ≤ trailingCommas first others ∧ trailingCommas first others % 2 = 0

/-- The value set of the clause ends in an even run of commas. -/
def Clause.EndsInEvenRun (c : Clause) : Prop :=
  match c.restriction with
  | .valueSet _ first others => EvenRun first others
  | _ => False

/-- The whole text splits into the items of the clauses, and all keys and values are valid. -/
structure Derivation (s : Bytes) (clauses : List Clause) : Prop where
  tokens : Tokenises s (selectorItems clauses)
  valid : ∀ c ∈ clauses, c.Valid

def Documented (s : Bytes) : Prop :=
  ∃ clauses, clauses ≠ [] ∧ (∀ c ∈ clauses, c.Documented) ∧ Derivation s clauses

structure PlainDerivation (s : Bytes) (clauses : List Clause) : Prop extends
    Derivation s clauses where
  plain : ∀ c ∈ clauses, c.Plain

end Kubernetes.Labels
