import Kubernetes.Labels.Grammar
import Kubernetes.Labels.Parser

/-!
# Value lists

`parseIdentifiersList` takes two commas at once and then expects another entry.  So it reads a list
of values unless the list ends in an even number of commas, and at least two.
-/

namespace Kubernetes.Labels

open List

theorem isWordChar_of_isLabelChar {ch : Char} (hch : isLabelChar ch = true) :
    isWordChar ch = true := by
  by_contra hword
  have hkinds : ch = zeroByte ∨ isSpecialSymbol ch = true ∨ isWhitespace ch = true := by
    by_cases hzero : ch = zeroByte
    · exact .inl hzero
    · exact .inr ((isWordChar_eq_false hzero).mp (Bool.eq_false_iff.mpr hword))
  rcases hkinds with rfl | hspec | hblank
  · exact absurd hch (by decide)
  · simp only [isSpecialSymbol, Bool.or_eq_true, beq_iff_eq] at hspec
    rcases hspec with (((((rfl | rfl) | rfl) | rfl) | rfl) | rfl) | rfl <;>
      exact absurd hch (by decide)
  · simp only [isWhitespace, Bool.or_eq_true, beq_iff_eq] at hblank
    rcases hblank with ((rfl | rfl) | rfl) | rfl <;> exact absurd hch (by decide)

theorem isWord_of_isQualifiedName {key : Bytes} (hkey : isQualifiedName key = []) : IsWord key :=
  have hchars := isLabelChar_of_isQualifiedName hkey
  ⟨hchars.1, fun ch hch ↦ isWordChar_of_isLabelChar (hchars.2 ch hch)⟩

variable {value : Bytes}

theorem isWord_of_isValidLabelValue (hvalue : isValidLabelValue value = []) (hne : value ≠ []) :
    IsWord value :=
  ⟨hne, fun ch hch ↦ isWordChar_of_isLabelChar (isLabelChar_of_isValidLabelValue hvalue ch hch)⟩

theorem IsWord.tokenIn_values {text : Bytes} (hword : IsWord text) :
    (word text).tokenIn .values = .identifier := by
  rcases hword.tok_word with h | h | h <;> simp [ScannedItem.tokenIn, h]

def IsItem (item : ScannedItem) : Prop := IsLexeme item ∨ item = endItem

variable {item : ScannedItem}

theorem IsItem.eq_word (hitem : IsItem item) (htoken : item.tokenIn .values = .identifier) :
    ∃ text, IsWord text ∧ item = word text := by
  rcases hitem with (hword | hsymbol) | rfl
  · exact hword
  · have hcases := hsymbol.cases
    simp only [mem_cons, Prod.mk.injEq, not_mem_nil, or_false] at hcases
    rcases hcases with h | h | h | h | h | h | h | h | h <;>
      simp [ScannedItem.tokenIn, h.2] at htoken
  · cases htoken

def symbolText : Token → Bytes
  | .closedPar => [')']
  | .comma => [',']
  | .doesNotExist => ['!']
  | .doubleEquals => ['=', '=']
  | .equals => ['=']
  | .greaterThan => ['>']
  | .lessThan => ['<']
  | .notEquals => ['!', '=']
  | .openPar => ['(']
  | _ => []

theorem IsSymbol.text_eq {text : Bytes} {token : Token} (hsymbol : IsSymbol text token) :
    text = symbolText token := by
  have hcases := hsymbol.cases
  simp only [mem_cons, Prod.mk.injEq, not_mem_nil, or_false] at hcases
  rcases hcases with h | h | h | h | h | h | h | h | h <;> rw [h.1, h.2] <;> rfl

theorem IsItem.eq_symbol {token : Token} (hitem : IsItem item)
    (htoken : item.tokenIn .values = token) (hidentifier : token ≠ .identifier)
    (hend : token ≠ .endOfString) : item = ⟨token, symbolText token⟩ := by
  rcases hitem with (⟨text, hword, rfl⟩ | hsymbol) | rfl
  · exact absurd (htoken.symm.trans hword.tokenIn_values) hidentifier
  · have htok : item.tok = token := by
      cases htok : item.tok <;> simp_all [ScannedItem.tokenIn]
    have htext := hsymbol.text_eq
    rw [htok] at htext
    calc
      item = ⟨item.tok, item.literal⟩ := rfl
      _ = ⟨token, symbolText token⟩ := by rw [htok, htext]
  · exact absurd htoken.symm hend

variable {first next : Bytes} {others : List Bytes} {s : StringSet} {rest : List ScannedItem}

@[simp]
theorem valueItems_nil : valueItems [] = [] := rfl

theorem valueItems_of_ne (hvalue : value ≠ []) : valueItems value = [word value] :=
  if_neg hvalue

theorem valuesItems_nil_cons :
    valuesItems [] (next :: others) = commaItem :: valuesItems next others :=
  rfl

theorem valuesItems_cons (hfirst : first ≠ []) :
    valuesItems first (next :: others) = word first :: commaItem :: valuesItems next others := by
  simp [valuesItems, valueItems_of_ne hfirst]

theorem parseIdentifiersList_word (hword : IsWord first) :
    parseIdentifiersList s (word first :: commaItem :: rest) =
      parseIdentifiersList (s.insert first) (commaItem :: rest) := by
  rw [parseIdentifiersList, hword.tokenIn_values]
  rfl

theorem parseIdentifiersList_last (hword : IsWord first) :
    parseIdentifiersList s (word first :: closeItem :: rest) =
      .ok (s.insert first, closeItem :: rest) := by
  rw [parseIdentifiersList, hword.tokenIn_values]
  rfl

def withLeading (s : StringSet) : StringSet :=
  if s.length = 0 then s.insert [] else s

theorem parseIdentifiersList_comma_word (hword : IsWord first) :
    parseIdentifiersList s (commaItem :: word first :: rest) =
      parseIdentifiersList (withLeading s) (word first :: rest) := by
  rw [parseIdentifiersList, hword.tokenIn_values]
  rfl

theorem parseIdentifiersList_comma_close :
    parseIdentifiersList s (commaItem :: closeItem :: rest) =
      .ok ((withLeading s).insert [], closeItem :: rest) := by
  rfl

/-! ## Runs of commas at the end -/

theorem not_evenRun_nil : ¬ EvenRun first [] := by
  simp [EvenRun, trailingCommas]

theorem evenRun_cons_of_ne (hnext : next ≠ []) :
    EvenRun first (next :: others) ↔ EvenRun next others := by
  have hcommas : trailingCommas first (next :: others) = trailingCommas next others := by
    simp [trailingCommas, hnext]
  rw [EvenRun, hcommas, EvenRun]

/-- Two commas taken at once. -/
theorem evenRun_nil_cons : EvenRun first ([] :: next :: others) ↔
    (next = [] ∧ others = []) ∨ EvenRun next others := by
  by_cases hall : (next :: others).all List.isEmpty = true
  · have hcommas : trailingCommas first ([] :: next :: others) = others.length + 2 := by
      rw [trailingCommas, if_pos (by rw [all_cons, hall]; rfl)]
      rfl
    obtain ⟨hnext, hothers⟩ : next = [] ∧ others.all List.isEmpty = true := by
      simpa using hall
    cases others with
    | nil =>
      refine iff_of_true ?_ (.inl ⟨hnext, rfl⟩)
      rw [EvenRun, hcommas]
      decide
    | cons other others =>
      have hless : trailingCommas next (other :: others) = others.length + 1 := by
        rw [trailingCommas, if_pos hothers]
      simp only [EvenRun, hcommas, hless, length_cons, reduceCtorEq, and_false, false_or]
      omega
  · have hcommas : trailingCommas first ([] :: next :: others) = trailingCommas next others := by
      rw [trailingCommas, if_neg (by rw [all_cons]; simpa using hall), trailingCommas, if_neg hall]
    have hne : ¬ (next = [] ∧ others = []) := by
      rintro ⟨rfl, rfl⟩
      exact hall rfl
    rw [EvenRun, hcommas, EvenRun, or_iff_right hne]

theorem nodup_withLeading (hs : s.Nodup) : (withLeading s).Nodup := by
  unfold withLeading
  split_ifs
  · exact hs.insert
  · exact hs

theorem mem_withLeading : value ∈ withLeading s ↔ value ∈ s ∨ (s = [] ∧ value = []) := by
  unfold withLeading
  split_ifs with hs
  · simp [length_eq_zero_iff.mp hs]
  · simp [length_eq_zero_iff.not.mp hs]

theorem parseIdentifiersList_close :
    ∃ err, parseIdentifiersList s (closeItem :: rest) = .error err := by
  cases rest <;> exact ⟨_, rfl⟩

/-- Reading a list fails on an even run of commas at the end, and otherwise adds every value to the
set. -/
def Reads (s : StringSet) (first : Bytes) (others : List Bytes) (rest : List ScannedItem) : Prop :=
  (EvenRun first others →
    ∃ err, parseIdentifiersList s (valuesItems first others ++ closeItem :: rest) = .error err) ∧
  (¬ EvenRun first others → ∃ s' : StringSet,
    parseIdentifiersList s (valuesItems first others ++ closeItem :: rest) =
      .ok (s', closeItem :: rest) ∧
    s'.Nodup ∧ ∀ value, value ∈ s' ↔ value ∈ s ∨ value ∈ first :: others)

theorem reads_comma (hs : s.Nodup) (hwords : ∀ value ∈ next :: others, value ≠ [] → IsWord value)
    (ih : ∀ (s : StringSet) (first : Bytes) (others' : List Bytes),
      others'.length ≤ others.length → s.Nodup →
      (∀ value ∈ first :: others', value ≠ [] → IsWord value) → (first = [] → others' ≠ []) →
      (first = [] → s ≠ [] → [] ∈ s) → Reads s first others' rest) :
    (EvenRun first (next :: others) → ∃ err, parseIdentifiersList s
      (commaItem :: (valuesItems next others ++ closeItem :: rest)) = .error err) ∧
    (¬ EvenRun first (next :: others) → ∃ s' : StringSet,
      parseIdentifiersList s (commaItem :: (valuesItems next others ++ closeItem :: rest)) =
        .ok (s', closeItem :: rest) ∧
      s'.Nodup ∧ ∀ value, value ∈ s' ↔ value ∈ withLeading s ∨ value ∈ next :: others) := by
  by_cases hnext : next = []
  · subst hnext
    cases others with
    | nil =>
      refine ⟨fun heven ↦ by simp [EvenRun, trailingCommas] at heven, fun _ ↦ ?_⟩
      exact ⟨_, parseIdentifiersList_comma_close, (nodup_withLeading hs).insert, by
        simp [or_comm]⟩
    | cons other others =>
      rw [valuesItems_nil_cons, cons_append, evenRun_nil_cons]
      by_cases hend : other = [] ∧ others = []
      · -- the parser has taken both commas and expects another entry
        obtain ⟨rfl, rfl⟩ := hend
        exact ⟨fun _ ↦ parseIdentifiersList_close, fun h ↦ absurd (.inl ⟨rfl, rfl⟩) h⟩
      · obtain ⟨hbad, hgood⟩ := ih ((withLeading s).insert []) other others
          (Nat.le_succ _) (nodup_withLeading hs).insert
          (fun value hvalue ↦ hwords value (mem_cons_of_mem _ hvalue))
          (fun hother hothers ↦ hend ⟨hother, hothers⟩) (fun _ _ ↦ by simp)
        rw [or_iff_right hend]
        refine ⟨hbad, fun heven ↦ ?_⟩
        obtain ⟨s', hparse, hnodup, hmem⟩ := hgood heven
        refine ⟨s', hparse, hnodup, fun value ↦ ?_⟩
        simp only [hmem, mem_insert_iff, mem_cons]
        rw [or_assoc, or_left_comm]
  · have hword := hwords next (mem_cons_self ..) hnext
    have hhead : ∃ tail, valuesItems next others ++ closeItem :: rest = word next :: tail := by
      cases others with
      | nil => exact ⟨closeItem :: rest, by simp [valuesItems, valueItems_of_ne hnext]⟩
      | cons other others => exact ⟨_, by rw [valuesItems_cons hnext]; rfl⟩
    obtain ⟨hbad, hgood⟩ := ih (withLeading s) next others le_rfl (nodup_withLeading hs) hwords
      (fun h ↦ absurd h hnext) (fun h ↦ absurd h hnext)
    obtain ⟨tail, htail⟩ := hhead
    rw [evenRun_cons_of_ne hnext, htail, parseIdentifiersList_comma_word hword, ← htail]
    exact ⟨hbad, hgood⟩

/-- The induction is on the number of values, since two commas are taken at once. -/
theorem reads (hs : s.Nodup) (hwords : ∀ value ∈ first :: others, value ≠ [] → IsWord value)
    (hsome : first = [] → others ≠ []) (hempty : first = [] → s ≠ [] → [] ∈ s) :
    Reads s first others rest := by
  induction hlen : others.length using Nat.strongRecOn generalizing s first others with
  | ind n ih =>
    subst hlen
    cases others with
    | nil =>
      have hfirst : first ≠ [] := fun h ↦ hsome h rfl
      have hword := hwords first (mem_cons_self ..) hfirst
      refine ⟨fun heven ↦ absurd heven not_evenRun_nil, fun _ ↦ ?_⟩
      refine ⟨s.insert first, ?_, hs.insert, fun value ↦ ?_⟩
      · rw [valuesItems, valueItems_of_ne hfirst]
        exact parseIdentifiersList_last hword
      · simp [or_comm]
    | cons next others =>
      have hcomma : ∀ s : StringSet, s.Nodup → _ := fun s hs ↦
        @reads_comma first next others s rest hs
          (fun value hvalue ↦ hwords value (mem_cons_of_mem _ hvalue))
          (fun s first others' hle hs hwords hsome hempty ↦
            ih others'.length (Nat.lt_succ_of_le hle) hs hwords hsome hempty rfl)
      by_cases hfirst : first = []
      · subst hfirst
        obtain ⟨hbad, hgood⟩ := hcomma s hs
        refine ⟨hbad, fun heven ↦ ?_⟩
        obtain ⟨s', hparse, hnodup, hmem⟩ := hgood heven
        refine ⟨s', hparse, hnodup, fun value ↦ ?_⟩
        have hleading : [] ∈ withLeading s := by
          rw [mem_withLeading]
          by_cases hnil : s = []
          · exact .inr ⟨hnil, rfl⟩
          · exact .inl (hempty rfl hnil)
        have hiff : value ∈ withLeading s ↔ value ∈ s ∨ value = [] := by
          constructor
          · exact fun h ↦ (mem_withLeading.mp h).imp_right And.right
          · rintro (h | rfl)
            · exact mem_withLeading.mpr (.inl h)
            · exact hleading
        rw [hmem, hiff, or_assoc]
        simp only [mem_cons]
      · have hword := hwords first (mem_cons_self ..) hfirst
        obtain ⟨hbad, hgood⟩ := hcomma (s.insert first) hs.insert
        have hleading : withLeading (s.insert first) = s.insert first :=
          if_neg fun h ↦ ne_nil_of_mem (mem_insert_self) (length_eq_zero_iff.mp h)
        rw [hleading] at hgood
        rw [Reads, valuesItems_cons hfirst, cons_append, cons_append,
          parseIdentifiersList_word hword]
        refine ⟨hbad, fun heven ↦ ?_⟩
        obtain ⟨s', hparse, hnodup, hmem⟩ := hgood heven
        refine ⟨s', hparse, hnodup, fun value ↦ ?_⟩
        simp only [hmem, mem_insert_iff, mem_cons]
        rw [or_assoc, or_left_comm]

/-- The items are those of a list of values and a closing parenthesis. -/
structure IsList (items : List ScannedItem) (first : Bytes) (others : List Bytes)
    (rest : List ScannedItem) : Prop where
  items_eq : items = valuesItems first others ++ closeItem :: rest
  isWord : ∀ value ∈ first :: others, value ≠ [] → IsWord value
  ne_nil : first = [] → others ≠ []

namespace IsList

variable {items : List ScannedItem}

theorem single (hword : IsWord value) : IsList (word value :: closeItem :: rest) value [] rest where
  items_eq := by simp [valuesItems, valueItems_of_ne hword.ne_nil]
  isWord := by simpa using fun _ ↦ hword
  ne_nil h := absurd h hword.ne_nil

theorem comma (hlist : IsList items first others rest) :
    IsList (commaItem :: items) [] (first :: others) rest where
  items_eq := by rw [hlist.items_eq, valuesItems_nil_cons, cons_append]
  isWord := by simpa using hlist.isWord
  ne_nil _ := cons_ne_nil _ _

theorem comma_comma (hlist : IsList items first others rest) :
    IsList (commaItem :: commaItem :: items) [] ([] :: first :: others) rest where
  items_eq := by
    rw [hlist.items_eq, valuesItems_nil_cons, valuesItems_nil_cons, cons_append, cons_append]
  isWord := by simpa using hlist.isWord
  ne_nil _ := cons_ne_nil _ _

theorem word_comma (hword : IsWord value) (hlist : IsList (commaItem :: items) first others rest) :
    ∃ others', IsList (word value :: commaItem :: items) value others' rest := by
  obtain ⟨heq, hwords, hne⟩ := hlist
  have hfirst : first = [] := by
    by_contra hfirst
    have hhead : commaItem = word first := by
      cases others <;> simp_all [valuesItems, valueItems_of_ne]
    have htoken := (hwords first (mem_cons_self ..) hfirst).tokenIn_values
    rw [← hhead] at htoken
    cases htoken
  subst hfirst
  obtain ⟨next, others, rfl⟩ := exists_cons_of_ne_nil (hne rfl)
  refine ⟨next :: others, ?_, ?_, fun h ↦ absurd h hword.ne_nil⟩
  · rw [heq, valuesItems_cons hword.ne_nil]
    rfl
  · exact forall_mem_cons.mpr ⟨fun _ ↦ hword, (forall_mem_cons.mp hwords).2⟩

end IsList

variable {items : List ScannedItem}

theorem exists_isList {s' : StringSet} (hitems : ∀ item ∈ items, IsItem item)
    (hparse : parseIdentifiersList s items = .ok (s', rest)) :
    ∃ first others rest', rest = closeItem :: rest' ∧ IsList items first others rest' := by
  fun_induction parseIdentifiersList s items with
  | case1 | case2 | case3 | case4 | case7 | case11 => cases hparse
  | case5 s item next items hitem hnext ih =>
    obtain ⟨hfirst, hrest⟩ := forall_mem_cons.mp hitems
    obtain ⟨text, hword, rfl⟩ := hfirst.eq_word hitem
    obtain rfl := (forall_mem_cons.mp hrest).1.eq_symbol hnext (by decide) (by decide)
    obtain ⟨first, others, rest', hclose, hlist⟩ := ih hrest hparse
    obtain ⟨others', hlist'⟩ := hlist.word_comma hword
    exact ⟨text, others', rest', hclose, hlist'⟩
  | case6 s item next items hitem hnext =>
    obtain ⟨hfirst, hrest⟩ := forall_mem_cons.mp hitems
    obtain ⟨text, hword, rfl⟩ := hfirst.eq_word hitem
    obtain rfl := (forall_mem_cons.mp hrest).1.eq_symbol hnext (by decide) (by decide)
    cases hparse
    exact ⟨text, [], items, rfl, .single hword⟩
  | case8 s item next items hitem leading hnext =>
    obtain ⟨hfirst, hrest⟩ := forall_mem_cons.mp hitems
    obtain rfl := hfirst.eq_symbol hitem (by decide) (by decide)
    obtain rfl := (forall_mem_cons.mp hrest).1.eq_symbol hnext (by decide) (by decide)
    cases hparse
    exact ⟨[], [[]], items, rfl, rfl, by simp, fun _ ↦ cons_ne_nil _ _⟩
  | case9 s item next items hitem leading hnext ih =>
    obtain ⟨hfirst, hrest⟩ := forall_mem_cons.mp hitems
    obtain ⟨hsecond, hitems'⟩ := forall_mem_cons.mp hrest
    obtain rfl := hfirst.eq_symbol hitem (by decide) (by decide)
    obtain rfl := hsecond.eq_symbol hnext (by decide) (by decide)
    obtain ⟨first, others, rest', hclose, hlist⟩ := ih hitems' hparse
    exact ⟨_, _, rest', hclose, hlist.comma_comma⟩
  | case10 s item next items hitem leading _ _ ih =>
    obtain ⟨hfirst, hrest⟩ := forall_mem_cons.mp hitems
    obtain rfl := hfirst.eq_symbol hitem (by decide) (by decide)
    obtain ⟨first, others, rest', hclose, hlist⟩ := ih hrest hparse
    exact ⟨_, _, rest', hclose, hlist.comma⟩

/-! ## Value sets -/

theorem sortStrings_eq {s values : List Bytes} (hs : s.Nodup)
    (hmem : ∀ value, value ∈ s ↔ value ∈ values) : sortStrings s = sortStrings values.dedup := by
  have hperm : s.Perm values.dedup := by
    rw [perm_ext_iff_of_nodup hs (nodup_dedup _)]
    simpa using hmem
  have hsorted : (sortStrings s).Perm (sortStrings values.dedup) :=
    ((perm_insertionSort _ s).trans hperm).trans (perm_insertionSort _ _).symm
  exact hsorted.eq_of_pairwise' (r := fun first second : Bytes ↦ first ≤ second)
    (pairwise_insertionSort _ _) (pairwise_insertionSort _ _)

theorem exists_firstItem (hwords : ∀ value ∈ first :: others, value ≠ [] → IsWord value)
    (hsome : first = [] → others ≠ []) :
    ∃ item items, valuesItems first others ++ closeItem :: rest = item :: items ∧
      (item.tokenIn .values = .identifier ∨ item.tokenIn .values = .comma) := by
  by_cases hfirst : first = []
  · subst hfirst
    obtain ⟨next, others, rfl⟩ := exists_cons_of_ne_nil (hsome rfl)
    exact ⟨_, _, rfl, .inr rfl⟩
  · have htoken := (hwords first (mem_cons_self ..) hfirst).tokenIn_values
    cases others with
    | nil =>
      rw [valuesItems, valueItems_of_ne hfirst]
      exact ⟨_, _, rfl, .inl htoken⟩
    | cons next others =>
      rw [valuesItems_cons hfirst]
      exact ⟨_, _, rfl, .inl htoken⟩

section

variable (hitem : item.tokenIn .values = .identifier ∨ item.tokenIn .values = .comma)

include hitem

theorem parseValues_of_ok
    (hparse : parseIdentifiersList [] (item :: items) = .ok (s, closeItem :: rest)) :
    parseValues (openItem :: item :: items) = .ok (s, rest) := by
  have hopen : openItem.tokenIn .values = .openPar := rfl
  have hclose : closeItem.tokenIn .values = .closedPar := rfl
  rcases hitem with hitem | hitem <;>
    simp [parseValues, consume, lookahead, hopen, hitem, hparse, hclose, Bind.bind, Except.bind,
      Pure.pure, Except.pure]

theorem parseValues_of_error {err : ParseError}
    (hparse : parseIdentifiersList [] (item :: items) = .error err) :
    parseValues (openItem :: item :: items) = .error err := by
  have hopen : openItem.tokenIn .values = .openPar := rfl
  rcases hitem with hitem | hitem <;>
    simp [parseValues, consume, lookahead, hopen, hitem, hparse, Bind.bind, Except.bind]

end

section

variable (hwords : ∀ value ∈ first :: others, value ≠ [] → IsWord value)

include hwords

/-- `parseValues` reads a value set that does not end in an even run of commas. -/
theorem parseValues_eq (heven : ¬ EvenRun first others) :
    ∃ s, parseValues (openItem :: (valuesItems first others ++ closeItem :: rest)) = .ok (s, rest) ∧
      sortStrings s = sortStrings (first :: others).dedup := by
  by_cases hsome : first = [] → others ≠ []
  · obtain ⟨s, hparse, hnodup, hmem⟩ :=
      (@reads first others [] rest nodup_nil hwords hsome fun _ h ↦ absurd rfl h).2 heven
    obtain ⟨item, items, heq, hitem⟩ := @exists_firstItem first others rest hwords hsome
    rw [heq] at hparse ⊢
    exact ⟨s, parseValues_of_ok hitem hparse, sortStrings_eq hnodup (by simpa using hmem)⟩
  · obtain ⟨rfl, rfl⟩ : first = [] ∧ others = [] := by simpa using hsome
    exact ⟨[[]], rfl, rfl⟩

theorem parseValues_of_evenRun (heven : EvenRun first others) :
    ∃ err, parseValues (openItem :: (valuesItems first others ++ closeItem :: rest)) =
      .error err := by
  have hsome : first = [] → others ≠ [] := by
    rintro rfl rfl
    exact not_evenRun_nil heven
  obtain ⟨err, hparse⟩ :=
    (@reads first others [] rest nodup_nil hwords hsome fun _ h ↦ absurd rfl h).1 heven
  obtain ⟨item, items, heq, hitem⟩ := @exists_firstItem first others rest hwords hsome
  rw [heq] at hparse ⊢
  exact ⟨err, parseValues_of_error hitem hparse⟩

end

theorem parseValues_inv (hparse : parseValues items = .ok (s, rest)) :
    ∃ opening item items', items = opening :: item :: items' ∧
      opening.tokenIn .values = .openPar ∧
      ((item.tokenIn .values = .closedPar ∧ rest = items') ∨
        ∃ closing, parseIdentifiersList [] (item :: items') = .ok (s, closing :: rest)) := by
  unfold parseValues at hparse
  match items with
  | [] => cases hparse
  | [opening] =>
    cases hopen : opening.tokenIn .values <;>
      simp [consume, lookahead, hopen, Bind.bind, Except.bind] at hparse
  | opening :: item :: items' =>
    refine ⟨opening, item, items', rfl, ?_⟩
    cases hopen : opening.tokenIn .values <;>
      simp only [consume, lookahead, hopen, Bind.bind, Except.bind, reduceCtorEq] at hparse
    refine ⟨rfl, ?_⟩
    cases hitem : item.tokenIn .values <;> simp only [hitem, reduceCtorEq] at hparse
    case closedPar =>
      cases hparse
      exact .inl ⟨rfl, rfl⟩
    all_goals
      refine .inr ?_
      cases hlist : parseIdentifiersList [] (item :: items') with
      | error err => simp [hlist] at hparse
      | ok parsed =>
        obtain ⟨s', items⟩ := parsed
        cases items with
        | nil => simp [hlist] at hparse
        | cons closing items =>
          cases hclose : closing.tokenIn .values <;>
            simp_all [Pure.pure, Except.pure]

theorem exists_valueSet (hitems : ∀ item ∈ items, IsItem item)
    (hparse : parseValues items = .ok (s, rest)) :
    ∃ first others, items = openItem :: (valuesItems first others ++ closeItem :: rest) ∧
      (∀ value ∈ first :: others, value ≠ [] → IsWord value) ∧ ¬ EvenRun first others := by
  obtain ⟨opening, item, items', rfl, hopen, h⟩ := parseValues_inv hparse
  obtain ⟨hopening, hitems'⟩ := forall_mem_cons.mp hitems
  obtain rfl := hopening.eq_symbol hopen (by decide) (by decide)
  rcases h with ⟨hclose, rfl⟩ | ⟨closing, hlist⟩
  · obtain rfl := (forall_mem_cons.mp hitems').1.eq_symbol hclose (by decide) (by decide)
    exact ⟨[], [], rfl, by simp, not_evenRun_nil⟩
  · obtain ⟨first, others, rest', hrest, hvalues⟩ := exists_isList hitems' hlist
    obtain ⟨rfl, rfl⟩ := List.cons.inj hrest
    refine ⟨first, others, by rw [hvalues.items_eq]; rfl, hvalues.isWord, fun heven ↦ ?_⟩
    obtain ⟨err, herr⟩ := (@reads first others [] rest nodup_nil hvalues.isWord hvalues.ne_nil
      fun _ h ↦ absurd rfl h).1 heven
    rw [hvalues.items_eq, herr] at hlist
    cases hlist

end Kubernetes.Labels
