import Mathlib.Data.List.DropRight

/-!
# Prefixes and suffixes of texts

The functions of the Go `strings` package that the models use, on Lean strings, and what they mean
for the lists of characters.
-/

namespace Kubernetes

open List

def hasPrefix (text start : String) : Bool := start.toList.isPrefixOf text.toList

def hasSuffix (text ending : String) : Bool := ending.toList.isSuffixOf text.toList

/-- `strings.TrimRight` without the characters of `cutset` at the end. -/
def trimRight (text cutset : String) : String :=
  String.ofList (text.toList.rdropWhile (cutset.toList.contains ·))

def trim (text cutset : String) : String :=
  String.ofList
    ((text.toList.dropWhile (cutset.toList.contains ·)).rdropWhile (cutset.toList.contains ·))

/-- The parts between separators, with `skip` characters to pass over and the current `part` in
reverse. -/
def splitParts (sep : List Char) : ℕ → List Char → List Char → List (List Char)
  | _, part, [] => [part.reverse]
  | skip + 1, part, _ :: rest => splitParts sep skip part rest
  | 0, part, ch :: rest =>
    if sep.isPrefixOf (ch :: rest) = true then
      part.reverse :: splitParts sep (sep.length - 1) [] rest
    else
      splitParts sep 0 (ch :: part) rest

/-- `strings.Split` at a separator that is not empty. -/
def split (text sep : String) : List String :=
  (splitParts sep.toList 0 [] text.toList).map String.ofList

theorem hasPrefix_iff {text start : String} :
    hasPrefix text start = true ↔ start.toList <+: text.toList :=
  isPrefixOf_iff_prefix

theorem hasPrefix_trans {long middle short : String} (hlong : hasPrefix long middle = true)
    (hmiddle : hasPrefix middle short = true) : hasPrefix long short = true := by
  rw [hasPrefix_iff] at hlong hmiddle ⊢
  exact hmiddle.trans hlong

theorem rdropWhile_isPrefix_rdropWhile {Elem : Type*} {drop : Elem → Bool} {first second : List Elem}
    (h : first.rdropWhile drop <+: second) :
    first.rdropWhile drop <+: second.rdropWhile drop := by
  induction second using List.reverseRecOn with
  | nil => simpa using h
  | append_singleton init last ih =>
    by_cases hlast : drop last = true
    · rw [rdropWhile_concat_pos drop init last hlast]
      rcases prefix_concat_iff.mp h with hall | hinit
      · have hself := rdropWhile_idempotent drop first
        rw [hall] at hself
        have hne : init ++ [last] ≠ [] := append_ne_nil_of_right_ne_nil _ (cons_ne_nil _ _)
        refine absurd hlast ?_
        simpa using rdropWhile_eq_self_iff.mp hself hne
      · exact ih hinit
    · rwa [rdropWhile_concat_neg drop init last hlast]

/-- A trimmed text that starts another text also starts it when it is trimmed. -/
theorem hasPrefix_trimRight {text other cutset : String}
    (h : hasPrefix other (trimRight text cutset) = true) :
    hasPrefix (trimRight other cutset) (trimRight text cutset) = true := by
  rw [hasPrefix_iff, trimRight, String.toList_ofList] at h ⊢
  rw [trimRight, String.toList_ofList]
  exact rdropWhile_isPrefix_rdropWhile h

end Kubernetes
