import Kubernetes.Labels.Lexer
import Kubernetes.Labels.Requirement

/-!
# The parser of label selectors

The state of the parser is the list of the items it has not consumed.  The list ends with the item
of the end of the text, so looking at an item always succeeds; `indexOutOfRange` stands for the
panic of a parser that has run past it.
-/

namespace Kubernetes.Labels

inductive Expected
  | identifierAfterComma
  | commaOrEndOfString
  | requirementOrEndOfString
  | identifier
  | operator
  | openPar
  | closedPar
  | commaClosedParOrIdentifier
  | commaOrClosedPar
  | commaOrIdentifier
  deriving DecidableEq, Repr

inductive ParseError
  | found (literal : Bytes) (expected : Expected)
  | requirement (err : RequirementError)
  | indexOutOfRange
  deriving DecidableEq, Repr

inductive ParserContext
  | keyAndOperator
  | values
  deriving DecidableEq, Repr

/-- The token of an item in a context: `in` and `notin` may be keys and values. -/
def ScannedItem.tokenIn (item : ScannedItem) : ParserContext → Token
  | .keyAndOperator => item.tok
  | .values =>
    match item.tok with
    | .isIn | .notIn => .identifier
    | tok => tok

def lookahead (context : ParserContext) : List ScannedItem → Except ParseError (Token × Bytes)
  | [] => .error .indexOutOfRange
  | item :: _ => .ok (item.tokenIn context, item.literal)

def consume (context : ParserContext) :
    List ScannedItem → Except ParseError ((Token × Bytes) × List ScannedItem)
  | [] => .error .indexOutOfRange
  | item :: rest => .ok ((item.tokenIn context, item.literal), rest)

/-- `sets.String`: a list without duplicates. -/
abbrev StringSet := List Bytes

def parseExactValue (items : List ScannedItem) :
    Except ParseError (StringSet × List ScannedItem) := do
  match ← lookahead .values items with
  | (.endOfString, _) | (.comma, _) => return ([[]], items)
  | _ =>
    match ← consume .values items with
    | ((.identifier, lit), items) => return ([lit], items)
    | ((_, lit), _) => .error (.found lit .identifier)

/-- `parseIdentifiersList`, with what it has read so far.  It looks at the item after the one it
consumes. -/
def parseIdentifiersList (s : StringSet) :
    List ScannedItem → Except ParseError (StringSet × List ScannedItem)
  | [] => .error .indexOutOfRange
  | [item] =>
    match item.tokenIn .values with
    | .identifier | .comma => .error .indexOutOfRange
    | _ => .error (.found item.literal .commaOrIdentifier)
  | item :: next :: rest =>
    match item.tokenIn .values with
    | .identifier =>
      match next.tokenIn .values with
      | .comma => parseIdentifiersList (s.insert item.literal) (next :: rest)
      | .closedPar => .ok (s.insert item.literal, next :: rest)
      | _ => .error (.found next.literal .commaOrClosedPar)
    | .comma =>
      -- the first entry is empty if the list starts with a comma
      let s := if s.length = 0 then s.insert [] else s
      match next.tokenIn .values with
      | .closedPar => .ok (s.insert [], next :: rest)
      | .comma => parseIdentifiersList (s.insert []) rest
      | _ => parseIdentifiersList s (next :: rest)
    | _ => .error (.found item.literal .commaOrIdentifier)

def parseValues (items : List ScannedItem) : Except ParseError (StringSet × List ScannedItem) := do
  match ← consume .values items with
  | ((.openPar, _), items) =>
    match ← lookahead .values items with
    | (.identifier, lit) | (.comma, lit) =>
      let (s, items) ← parseIdentifiersList [] items
      match ← consume .values items with
      | ((.closedPar, _), items) => return (s, items)
      | _ => .error (.found lit .closedPar)
    | (.closedPar, _) =>
      let (_, items) ← consume .values items
      return ([[]], items)
    | (_, lit) => .error (.found lit .commaClosedParOrIdentifier)
  | ((_, lit), _) => .error (.found lit .openPar)

def parseOperator (items : List ScannedItem) : Except ParseError (Operator × List ScannedItem) := do
  match ← consume .keyAndOperator items with
  | ((.isIn, _), items) => return (.isIn, items)
  | ((.equals, _), items) => return (.equals, items)
  | ((.doubleEquals, _), items) => return (.doubleEquals, items)
  | ((.greaterThan, _), items) => return (.greaterThan, items)
  | ((.lessThan, _), items) => return (.lessThan, items)
  | ((.notIn, _), items) => return (.notIn, items)
  | ((.notEquals, _), items) => return (.notEquals, items)
  | ((_, lit), _) => .error (.found lit .operator)

/-- `parseKeyAndInferOperator` after the optional exclamation mark. -/
def parseKey (operator : Option Operator) (items : List ScannedItem) :
    Except ParseError ((Bytes × Option Operator) × List ScannedItem) := do
  match ← consume .values items with
  | ((.identifier, literal), items) =>
    match validateLabelKey literal with
    | .error err => .error (.requirement err)
    | .ok () =>
      match ← lookahead .values items with
      | (.endOfString, _) | (.comma, _) =>
        if operator ≠ some .doesNotExist then return ((literal, some .isPresent), items)
        else return ((literal, operator), items)
      | _ => return ((literal, operator), items)
  | ((_, literal), _) => .error (.found literal .identifier)

def parseKeyAndInferOperator (items : List ScannedItem) :
    Except ParseError ((Bytes × Option Operator) × List ScannedItem) := do
  match ← lookahead .values items with
  | (.doesNotExist, _) =>
    let (_, items) ← consume .values items
    parseKey (some .doesNotExist) items
  | _ => parseKey none items

def buildRequirement (key : Bytes) (op : Operator) (values : StringSet)
    (items : List ScannedItem) : Except ParseError (Requirement × List ScannedItem) :=
  match newRequirement key op values with
  | .error err => .error (.requirement err)
  | .ok r => .ok (r, items)

/-- `parseRequirement`.  `List` of a set is sorted. -/
def parseRequirement (items : List ScannedItem) :
    Except ParseError (Requirement × List ScannedItem) := do
  let ((key, operator), items) ← parseKeyAndInferOperator items
  match operator with
  | some op => buildRequirement key op [] items
  | none =>
    let (op, items) ← parseOperator items
    let (values, items) ←
      if op = .isIn ∨ op = .notIn then parseValues items else parseExactValue items
    buildRequirement key op (sortStrings values) items

/-- The loop of `parse`.  Every requirement takes an item. -/
def parseLoop : ℕ → Selector → List ScannedItem → Except ParseError Selector
  | 0, _, _ => .error .indexOutOfRange
  | fuel + 1, requirements, items => do
    match ← lookahead .values items with
    | (.identifier, _) | (.doesNotExist, _) =>
      let (r, items) ← parseRequirement items
      match ← consume .values items with
      | ((.endOfString, _), _) => return requirements ++ [r]
      | ((.comma, _), items) =>
        match ← lookahead .values items with
        | (.identifier, _) | (.doesNotExist, _) => parseLoop fuel (requirements ++ [r]) items
        | (_, lit) => .error (.found lit .identifierAfterComma)
      | ((_, lit), _) => .error (.found lit .commaOrEndOfString)
    | (.endOfString, _) => return requirements
    | (_, lit) => .error (.found lit .requirementOrEndOfString)

def parse [KeySort] (selector : Bytes) : Except ParseError Selector := do
  let items := scan selector
  let requirements ← parseLoop items.length [] items
  return requirements.sortByKey

end Kubernetes.Labels
