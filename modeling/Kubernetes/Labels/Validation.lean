import Mathlib.Data.List.Basic

/-!
# Validation of label keys and values

A text is the list of its bytes, each as the character with that number.  The regular expressions of
the source all ask for a text that begins and ends with one kind of character and has only
characters of a second, larger kind.
-/

namespace Kubernetes.Labels

open List

abbrev Bytes := List Char

/-- `edge (inner* edge)?`, where every `edge` character is an `inner` one. -/
def delimited (edge inner : Char → Bool) (text : Bytes) : Bool :=
  text.head?.any edge && text.getLast?.any edge && text.all inner

/-- `[-A-Za-z0-9_.]`. -/
def isQualifiedNameChar (ch : Char) : Bool := ch.isAlphanum || ch == '-' || ch == '_' || ch == '.'

/-- `[a-z0-9]`. -/
def isDNS1123Edge (ch : Char) : Bool := ch.isLower || ch.isDigit

/-- `[-a-z0-9]`. -/
def isDNS1123Char (ch : Char) : Bool := isDNS1123Edge ch || ch == '-'

def qualifiedNameRegexp (text : Bytes) : Bool := delimited Char.isAlphanum isQualifiedNameChar text

def labelValueRegexp (text : Bytes) : Bool := text.isEmpty || qualifiedNameRegexp text

def dns1123LabelRegexp (text : Bytes) : Bool := delimited isDNS1123Edge isDNS1123Char text

/-- `dns1123SubdomainRegexp`: labels separated by dots. -/
def dns1123SubdomainRegexp (text : Bytes) : Bool := (text.splitOn '.').all dns1123LabelRegexp

inductive FormatError
  | empty
  | maxLen (length : ℕ)
  | regex
  deriving DecidableEq, Repr

inductive QualifiedNameError
  | prefixPart (err : FormatError)
  | namePart (err : FormatError)
  | parts
  deriving DecidableEq, Repr

def dns1123SubdomainMaxLength : ℕ := 253

def qualifiedNameMaxLength : ℕ := 63

def labelValueMaxLength : ℕ := 63

def isDNS1123Subdomain (value : Bytes) : List FormatError :=
  (if value.length > dns1123SubdomainMaxLength then [.maxLen dns1123SubdomainMaxLength] else []) ++
    if dns1123SubdomainRegexp value then [] else [.regex]

def nameErrors (name : Bytes) : List QualifiedNameError :=
  (if name.length = 0 then [.namePart .empty]
    else if name.length > qualifiedNameMaxLength then [.namePart (.maxLen qualifiedNameMaxLength)]
    else []) ++
    if qualifiedNameRegexp name then [] else [.namePart .regex]

def isQualifiedName (value : Bytes) : List QualifiedNameError :=
  match value.splitOn '/' with
  | [name] => nameErrors name
  | [domain, name] =>
    (if domain.length = 0 then [.prefixPart .empty]
      else (isDNS1123Subdomain domain).map .prefixPart) ++ nameErrors name
  | _ => [.parts]

def isValidLabelValue (value : Bytes) : List FormatError :=
  (if value.length > labelValueMaxLength then [.maxLen labelValueMaxLength] else []) ++
    if labelValueRegexp value then [] else [.regex]

def isLabelChar (ch : Char) : Bool := isQualifiedNameChar ch || ch == '/'

theorem isLabelChar_of_isDNS1123Char {ch : Char} (hch : isDNS1123Char ch = true) :
    isLabelChar ch = true := by
  simp only [isDNS1123Char, isDNS1123Edge, Bool.or_eq_true] at hch
  have halphanum : ch.isAlphanum = (ch.isUpper || ch.isLower || ch.isDigit) := rfl
  simp only [isLabelChar, isQualifiedNameChar, halphanum, Bool.or_eq_true]
  tauto

variable {text : Bytes}

theorem delimited_all {edge inner : Char → Bool} (h : delimited edge inner text = true) :
    ∀ ch ∈ text, inner ch = true := by
  simp only [delimited, Bool.and_eq_true, all_eq_true] at h
  exact h.2

theorem isLabelChar_of_qualifiedNameRegexp (h : qualifiedNameRegexp text = true) :
    ∀ ch ∈ text, isLabelChar ch = true := by
  intro ch hch
  simp [isLabelChar, delimited_all h ch hch]

theorem isLabelChar_of_isValidLabelValue {value : Bytes} (h : isValidLabelValue value = []) :
    ∀ ch ∈ value, isLabelChar ch = true := by
  have hregexp : labelValueRegexp value = true := by
    by_contra hne
    simp [isValidLabelValue, hne] at h
  rcases Bool.or_eq_true_iff.mp hregexp with hempty | hname
  · simp [List.isEmpty_iff.mp hempty]
  · exact isLabelChar_of_qualifiedNameRegexp hname

theorem mem_intercalate {sep ch : Char} {parts : List Bytes} (hch : ch ∈ [sep].intercalate parts) :
    ch = sep ∨ ∃ part ∈ parts, ch ∈ part := by
  induction parts with
  | nil => simp at hch
  | cons part parts ih =>
    cases parts with
    | nil => exact .inr ⟨part, by simp, by simpa using hch⟩
    | cons next rest =>
      rw [intercalate_cons_cons] at hch
      rcases mem_append.mp hch with hfirst | hrest
      · rcases mem_append.mp hfirst with hpart | hsep
        · exact .inr ⟨part, by simp, hpart⟩
        · exact .inl (mem_singleton.mp hsep)
      · rcases ih hrest with hsep | ⟨other, hother, hmem⟩
        · exact .inl hsep
        · exact .inr ⟨other, mem_cons_of_mem _ hother, hmem⟩

theorem mem_splitOn (sep : Char) {ch : Char} (hch : ch ∈ text) :
    ch = sep ∨ ∃ part ∈ text.splitOn sep, ch ∈ part := by
  have hparts : ch ∈ [sep].intercalate (text.splitOn sep) := by rwa [intercalate_splitOn]
  exact mem_intercalate hparts

theorem isLabelChar_of_isDNS1123Subdomain {value : Bytes} (h : isDNS1123Subdomain value = []) :
    ∀ ch ∈ value, isLabelChar ch = true := by
  intro ch hch
  have hregexp : dns1123SubdomainRegexp value = true := by
    by_contra hne
    simp [isDNS1123Subdomain, hne] at h
  rcases mem_splitOn '.' hch with rfl | ⟨label, hlabel, hmem⟩
  · rfl
  · have hchars := delimited_all (all_eq_true.mp hregexp label hlabel)
    exact isLabelChar_of_isDNS1123Char (hchars ch hmem)

theorem nameErrors_eq_nil {name : Bytes} (h : nameErrors name = []) :
    name ≠ [] ∧ ∀ ch ∈ name, isLabelChar ch = true := by
  have hregexp : qualifiedNameRegexp name = true := by
    by_contra hne
    simp [nameErrors, hne] at h
  refine ⟨?_, isLabelChar_of_qualifiedNameRegexp hregexp⟩
  rintro rfl
  exact absurd hregexp (by decide)

theorem isLabelChar_of_isQualifiedName {key : Bytes} (h : isQualifiedName key = []) :
    key ≠ [] ∧ ∀ ch ∈ key, isLabelChar ch = true := by
  have hkey : ['/'].intercalate (key.splitOn '/') = key := intercalate_splitOn '/'
  unfold isQualifiedName at h
  split at h
  · rename_i name hparts
    rw [hparts, intercalate_singleton] at hkey
    exact hkey ▸ nameErrors_eq_nil h
  · rename_i domain name hparts
    obtain ⟨hdomain, hname⟩ := append_eq_nil_iff.mp h
    have hchars : ∀ ch ∈ domain, isLabelChar ch = true := by
      by_cases hlen : domain.length = 0
      · simp [hlen] at hdomain
      · rw [if_neg hlen, map_eq_nil_iff] at hdomain
        exact isLabelChar_of_isDNS1123Subdomain hdomain
    rw [hparts] at hkey
    refine ⟨fun hnil ↦ ?_, fun ch hch ↦ ?_⟩
    · rw [hnil] at hparts
      simp at hparts
    · rw [← hkey] at hch
      rcases mem_intercalate hch with rfl | ⟨part, hpart, hmem⟩
      · rfl
      · rcases mem_pair.mp hpart with rfl | rfl
        · exact hchars ch hmem
        · exact (nameErrors_eq_nil hname).2 ch hmem
  · cases h

end Kubernetes.Labels
