import Mathlib.Algebra.Order.Ring.Int
import Mathlib.Data.List.Basic

/-!
# Decimal numerals

Text is a list of characters.  `Nat.toDigits 10` writes a number and `Nat.ofDigitChars 10` reads a
list of digits.  This module adds the checks that a reader of untrusted text makes.
-/

namespace Kubernetes.Decimal

def isDigits (text : List Char) : Bool := text.all Char.isDigit

/-- Read a non-empty list of digits. -/
def parseNat (text : List Char) : Option ℕ :=
  if text ≠ [] ∧ isDigits text = true then some (Nat.ofDigitChars 10 text 0) else none

theorem isDigits_toDigits (value : ℕ) : isDigits (Nat.toDigits 10 value) = true := by
  rw [isDigits, List.all_eq_true]
  intro char hchar
  exact Nat.isDigit_of_mem_toDigits (by decide) (by decide) hchar

theorem parseNat_toDigits (value : ℕ) : parseNat (Nat.toDigits 10 value) = some value := by
  rw [parseNat, if_pos ⟨Nat.toDigits_ne_nil, isDigits_toDigits value⟩,
    Nat.ofDigitChars_ten_toDigits]

inductive NumError
  | invalidSyntax
  | valueOutOfRange
  deriving DecidableEq, Repr

/-- `strconv.ParseUint` in base ten and 64 bits. -/
def parseUint (text : String) : Except NumError UInt64 :=
  match parseNat text.toList with
  | none => .error .invalidSyntax
  | some value =>
    if value < 2 ^ 64 then .ok (UInt64.ofNat value) else .error .valueOutOfRange

/-- `strconv.ParseInt` in base ten and 64 bits; also `strconv.Atoi`. -/
def parseInt (text : List Char) : Except NumError ℤ :=
  let digits := if text.head? = some '+' ∨ text.head? = some '-' then text.tail else text
  match parseNat digits with
  | none => .error .invalidSyntax
  | some value =>
    if text.head? = some '-' then
      if value ≤ 2 ^ 63 then .ok (-(value : ℤ)) else .error .valueOutOfRange
    else if value < 2 ^ 63 then .ok value
    else .error .valueOutOfRange

theorem head?_toDigits_ne (value : ℕ) {sign : Char} (hsign : sign.isDigit = false) :
    (Nat.toDigits 10 value).head? ≠ some sign := by
  intro hhead
  have hmem : sign ∈ Nat.toDigits 10 value := List.mem_of_head? hhead
  have hdigit := List.all_eq_true.mp (isDigits_toDigits value) sign hmem
  rw [hsign] at hdigit
  cases hdigit

theorem parseInt_toDigits {value : ℕ} (hvalue : value < 2 ^ 63) :
    parseInt (Nat.toDigits 10 value) = .ok value := by
  have hplus := head?_toDigits_ne value (show '+'.isDigit = false by decide)
  have hminus := head?_toDigits_ne value (show '-'.isDigit = false by decide)
  simp only [parseInt, hplus, hminus, or_self, if_false, parseNat_toDigits, hvalue, if_true]

end Kubernetes.Decimal
