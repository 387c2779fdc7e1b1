import Kubernetes.Labels.Validation

/-!
# The lexer of label selectors

The lexer reads the text byte by byte.  `read` returns zero at the end, so a zero byte in the text
looks like the end: it ends the token in front of it, or else the text.

`Tokenises` says what it means to split a text into tokens: each is as long as possible, and only
blanks stand between them.
-/

namespace Kubernetes.Labels

inductive Token
  | error
  | endOfString
  | closedPar
  | comma
  | doesNotExist
  | doubleEquals
  | equals
  | greaterThan
  | identifier
  | isIn
  | lessThan
  | notEquals
  | notIn
  | openPar
  deriving DecidableEq, Repr

def string2token : Bytes → Option Token
  | [')'] => some .closedPar
  | [','] => some .comma
  | ['!'] => some .doesNotExist
  | ['=', '='] => some .doubleEquals
  | ['='] => some .equals
  | ['>'] => some .greaterThan
  | ['i', 'n'] => some .isIn
  | ['<'] => some .lessThan
  | ['!', '='] => some .notEquals
  | ['n', 'o', 't', 'i', 'n'] => some .notIn
  | ['('] => some .openPar
  | _ => none

structure ScannedItem where
  tok : Token
  literal : Bytes
  deriving DecidableEq, Repr

/-- The byte `read` returns at the end. -/
def zeroByte : Char := Char.ofNat 0

def isWhitespace (ch : Char) : Bool := ch == ' ' || ch == '\t' || ch == '\r' || ch == '\n'

def isSpecialSymbol (ch : Char) : Bool :=
  ch == '=' || ch == '!' || ch == '(' || ch == ')' || ch == ',' || ch == '>' || ch == '<'

/-- The loop of `scanIdOrKeyword`.  The byte that ends it is read again unless it is zero. -/
def identifierLoop (buffer : Bytes) : Bytes → Bytes × Bytes
  | [] => (buffer, [])
  | ch :: rest =>
    if ch = zeroByte then (buffer, rest)
    else if isSpecialSymbol ch || isWhitespace ch then (buffer, ch :: rest)
    else identifierLoop (buffer ++ [ch]) rest

def word (text : Bytes) : ScannedItem := ⟨(string2token text).getD .identifier, text⟩

def scanIdOrKeyword (s : Bytes) : ScannedItem × Bytes :=
  let (buffer, rest) := identifierLoop [] s
  (word buffer, rest)

/-- The loop of `scanSpecialSymbol`: the last item it has found, the buffer and the rest. -/
def specialSymbolLoop (lastScannedItem : Option ScannedItem) (buffer : Bytes) :
    Bytes → Option ScannedItem × Bytes × Bytes
  | [] => (lastScannedItem, buffer, [])
  | ch :: rest =>
    if ch = zeroByte then (lastScannedItem, buffer, rest)
    else if isSpecialSymbol ch then
      match string2token (buffer ++ [ch]) with
      | some token =>
        specialSymbolLoop (some ⟨token, buffer ++ [ch]⟩) (buffer ++ [ch]) rest
      | none =>
        if lastScannedItem.isSome then (lastScannedItem, buffer ++ [ch], ch :: rest)
        else specialSymbolLoop lastScannedItem (buffer ++ [ch]) rest
    else (lastScannedItem, buffer, ch :: rest)

/-- `scanSpecialSymbol`.  The literal of an error is what was found. -/
def scanSpecialSymbol (s : Bytes) : ScannedItem × Bytes :=
  match specialSymbolLoop none [] s with
  | (none, buffer, rest) => (⟨.error, buffer⟩, rest)
  | (some item, _, rest) => (item, rest)

def endItem : ScannedItem := ⟨.endOfString, []⟩

def lex (s : Bytes) : ScannedItem × Bytes :=
  match s.dropWhile isWhitespace with
  | [] => (endItem, [])
  | ch :: rest =>
    if ch = zeroByte then (endItem, rest)
    else if isSpecialSymbol ch then scanSpecialSymbol (ch :: rest)
    else scanIdOrKeyword (ch :: rest)

/-- The loop of `scan`.  Every item but the last takes a byte of the text. -/
def scanLoop : ℕ → Bytes → List ScannedItem
  | 0, _ => []
  | fuel + 1, s =>
    match lex s with
    | (item, rest) => if item.tok = .endOfString then [item] else item :: scanLoop fuel rest

def scan (s : Bytes) : List ScannedItem := scanLoop (s.length + 1) s

def isWordChar (ch : Char) : Bool := ch != zeroByte && !isSpecialSymbol ch && !isWhitespace ch

/-- A text that is one identifier or keyword. -/
structure IsWord (text : Bytes) : Prop where
  ne_nil : text ≠ []
  wordChars : ∀ ch ∈ text, isWordChar ch = true

structure IsSymbol (text : Bytes) (token : Token) : Prop where
  token_eq : string2token text = some token
  special : ∀ ch ∈ text, isSpecialSymbol ch = true

inductive Tokenises : Bytes → List ScannedItem → Prop
  | nil : Tokenises [] []
  | blank {ch : Char} {s : Bytes} {items : List ScannedItem} (hblank : isWhitespace ch = true) :
      Tokenises s items → Tokenises (ch :: s) items
  | symbol {text s : Bytes} {token : Token} {items : List ScannedItem}
      (hsymbol : IsSymbol text token)
      (hlongest : ∀ ch ∈ s.head?, isSpecialSymbol ch = true → string2token (text ++ [ch]) = none) :
      Tokenises s items → Tokenises (text ++ s) (⟨token, text⟩ :: items)
  | word {text s : Bytes} {items : List ScannedItem} (hword : IsWord text)
      (hlongest : ∀ ch ∈ s.head?, isWordChar ch = false) :
      Tokenises s items → Tokenises (text ++ s) (word text :: items)

end Kubernetes.Labels
