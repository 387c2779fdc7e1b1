import Kubernetes.Labels.SelectorSyntax

/-!
# The text of a selector

The text of a selector splits into the items of one clause for each requirement.  So `Parse` reads
it back, with the values of a requirement as a set, unless a value set ends in an even run of
commas. The values are sorted, and the empty ones come first: that happens only if all values are
empty.
-/

namespace Kubernetes.Labels

open List

def EndsWord (s : Bytes) : Prop := ∀ ch ∈ s.head?, isWordChar ch = false

theorem tokenises_value {value s : Bytes} {items : List ScannedItem}
    (hvalue : value ≠ [] → IsWord value) (hs : EndsWord s) (htokens : Tokenises s items) :
    Tokenises (value ++ s) (valueItems value ++ items) := by
  by_cases hempty : value = []
  · subst hempty
    exact htokens
  · rw [valueItems_of_ne hempty]
    exact .word (hvalue hempty) hs htokens

theorem tokenises_symbol {ch : Char} {token : Token} {s : Bytes} {items : List ScannedItem}
    (hsymbol : IsSymbol [ch] token) (hpair : (ch = '=' ∨ ch = '!') → s.head? ≠ some '=')
    (htokens : Tokenises s items) : Tokenises (ch :: s) (⟨token, [ch]⟩ :: items) := by
  refine Tokenises.symbol hsymbol (fun next hnext _ ↦ ?_) htokens
  refine string2token_pair (hsymbol.special ch (mem_singleton_self ch)) ?_
  rintro ⟨hch, rfl⟩
  exact hpair hch hnext

theorem tokenises_doubleSymbol {ch : Char} {token : Token} {s : Bytes} {items : List ScannedItem}
    (hsymbol : IsSymbol [ch, '='] token) (htokens : Tokenises s items) :
    Tokenises (ch :: '=' :: s) (⟨token, [ch, '=']⟩ :: items) := by
  refine Tokenises.symbol hsymbol (fun next _ _ ↦ ?_) htokens
  have hcases := hsymbol.cases
  simp only [mem_cons, Prod.mk.injEq, not_mem_nil, or_false, List.cons.injEq,
    reduceCtorEq, and_false, false_and, false_or, and_true] at hcases
  rcases hcases with ⟨rfl, _⟩ | ⟨rfl, _⟩ <;> rfl

theorem isSymbol_comma : IsSymbol [','] .comma := ⟨rfl, all_eq_true.mp rfl⟩

theorem tokenises_comma {s : Bytes} {items : List ScannedItem} (htokens : Tokenises s items) :
    Tokenises (',' :: s) (commaItem :: items) :=
  tokenises_symbol isSymbol_comma (by rintro (h | h) <;> cases h) htokens

theorem joinComma_cons_cons (first next : Bytes) (others : List Bytes) :
    joinComma (first :: next :: others) = first ++ ',' :: joinComma (next :: others) := by
  simp [joinComma, intercalate_cons_cons]

theorem tokenises_values {first s : Bytes} {others : List Bytes} {items : List ScannedItem}
    (hwords : ∀ value ∈ first :: others, value ≠ [] → IsWord value) (hs : EndsWord s)
    (htokens : Tokenises s items) :
    Tokenises (joinComma (first :: others) ++ s) (valuesItems first others ++ items) := by
  induction others generalizing first with
  | nil =>
    rw [show joinComma [first] = first from intercalate_singleton]
    exact tokenises_value (hwords first (mem_cons_self ..)) hs htokens
  | cons next others ih =>
    obtain ⟨hfirst, hothers⟩ := forall_mem_cons.mp hwords
    rw [joinComma_cons_cons, valuesItems, append_assoc, append_assoc]
    refine tokenises_value hfirst ?_ (tokenises_comma (ih hothers))
    rintro ch ⟨⟩
    rfl

/-! ## Requirements -/

def Operator.restriction (values : List Bytes) : Operator → Restriction
  | .doesNotExist | .isPresent => .bare
  | .isIn => .valueSet .isIn (values.headD []) values.tail
  | .notIn => .valueSet .notIn (values.headD []) values.tail
  | .equals => .single (some .equals) (values.headD [])
  | .doubleEquals => .single (some .doubleEquals) (values.headD [])
  | .notEquals => .single (some .notEquals) (values.headD [])
  | .greaterThan => .single (some .greaterThan) (values.headD [])
  | .lessThan => .single (some .lessThan) (values.headD [])

def Requirement.clause (r : Requirement) : Clause :=
  ⟨decide (r.operator = .doesNotExist), r.key, r.operator.restriction r.strValues⟩

def Requirement.IsValid (r : Requirement) : Prop := IsRequirement r.key r.operator r.strValues

variable {r : Requirement} {s : Bytes} {items : List ScannedItem}

/-- The text ends or goes on with a comma. -/
def AtComma (s : Bytes) : Prop := ∀ ch ∈ s.head?, ch = ','

theorem AtComma.endsWord (hs : AtComma s) : EndsWord s := by
  intro ch hch
  rw [hs ch hch]
  rfl

theorem head?_value_ne {value : Bytes} (hvalue : value ≠ [] → IsWord value) (hs : AtComma s) :
    (value ++ s).head? ≠ some '=' := by
  intro hhead
  cases value with
  | nil => exact absurd (hs '=' hhead) (by decide)
  | cons ch value =>
    obtain rfl : ch = '=' := by simpa using hhead
    exact absurd ((hvalue (cons_ne_nil _ _)).wordChars '=' (mem_cons_self ..)) (by decide)

theorem tokenises_exact {key value : Bytes} {op : ExactOperator} (hkey : isQualifiedName key = [])
    (hvalue : isValidLabelValue value = []) (hs : AtComma s) (htokens : Tokenises s items) :
    Tokenises (key ++ op.operator.text ++ value ++ s)
      ((Clause.mk false key (.single (some op) value)).items ++ items) := by
  have hkeyWord := isWord_of_isQualifiedName hkey
  have hvalueWord := isWord_of_isValidLabelValue hvalue
  have hhead := head?_value_ne hvalueWord hs
  have hvalueTokens := tokenises_value hvalueWord hs.endsWord htokens
  rw [append_assoc, append_assoc]
  refine .word hkeyWord ?_ ?_
  · cases op <;> rintro ch ⟨⟩ <;> rfl
  · cases op with
    | equals | greaterThan | lessThan =>
      exact tokenises_symbol ⟨rfl, all_eq_true.mp rfl⟩ (fun _ ↦ hhead) hvalueTokens
    | doubleEquals | notEquals =>
      exact tokenises_doubleSymbol ⟨rfl, all_eq_true.mp rfl⟩ hvalueTokens

theorem tokenises_valueSet {key first : Bytes} {others : List Bytes} {op : SetOperator}
    (hkey : isQualifiedName key = [])
    (hvalues : ∀ value ∈ first :: others, isValidLabelValue value = [])
    (htokens : Tokenises s items) :
    Tokenises (key ++ op.operator.text ++ (['('] ++ joinComma (first :: others) ++ [')']) ++ s)
      ((Clause.mk false key (.valueSet op first others)).items ++ items) := by
  have hwords : ∀ value ∈ first :: others, value ≠ [] → IsWord value :=
    fun value hvalue ↦ isWord_of_isValidLabelValue (hvalues value hvalue)
  have hclose : Tokenises (')' :: s) (closeItem :: items) :=
    tokenises_symbol ⟨rfl, all_eq_true.mp rfl⟩ (by rintro (h | h) <;> cases h) htokens
  have hlist : Tokenises (joinComma (first :: others) ++ ')' :: s)
      (valuesItems first others ++ closeItem :: items) :=
    tokenises_values hwords (by rintro ch ⟨⟩; rfl) hclose
  have hopen : Tokenises ('(' :: (joinComma (first :: others) ++ ')' :: s))
      (openItem :: (valuesItems first others ++ closeItem :: items)) :=
    tokenises_symbol ⟨rfl, all_eq_true.mp rfl⟩ (by rintro (h | h) <;> cases h) hlist
  have hspace : Tokenises (' ' :: '(' :: (joinComma (first :: others) ++ ')' :: s))
      (openItem :: (valuesItems first others ++ closeItem :: items)) := .blank rfl hopen
  have hkeyword : Tokenises (op.operator.text ++ '(' :: (joinComma (first :: others) ++ ')' :: s))
      (op.item :: openItem :: (valuesItems first others ++ closeItem :: items)) := by
    cases op with
    | isIn =>
      have hword : IsWord ['i', 'n'] := ⟨cons_ne_nil _ _, all_eq_true.mp rfl⟩
      exact .blank rfl (.word hword (by rintro ch ⟨⟩; rfl) hspace)
    | notIn =>
      have hword : IsWord ['n', 'o', 't', 'i', 'n'] := ⟨cons_ne_nil _ _, all_eq_true.mp rfl⟩
      exact .blank rfl (.word hword (by rintro ch ⟨⟩; rfl) hspace)
  have htext : key ++ op.operator.text ++ (['('] ++ joinComma (first :: others) ++ [')']) ++ s =
      key ++ (op.operator.text ++ '(' :: (joinComma (first :: others) ++ ')' :: s)) := by
    simp
  rw [items_valueSet, htext]
  refine .word (isWord_of_isQualifiedName hkey) ?_ hkeyword
  cases op <;> rintro ch ⟨⟩ <;> rfl

theorem tokenises_bare {key : Bytes} (negated : Bool) (hkey : isQualifiedName key = [])
    (hs : AtComma s) (htokens : Tokenises s items) :
    Tokenises ((if negated then ['!'] else []) ++ key ++ s)
      ((Clause.mk negated key .bare).items ++ items) := by
  have hword := isWord_of_isQualifiedName hkey
  have hkeyTokens : Tokenises (key ++ s) (word key :: items) := .word hword hs.endsWord htokens
  cases negated with
  | false => exact hkeyTokens
  | true =>
    exact tokenises_symbol ⟨rfl, all_eq_true.mp rfl⟩ (fun _ ↦ head?_value_ne (fun _ ↦ hword) hs)
      hkeyTokens

theorem valuesText_cons (key first : Bytes) (op : Operator) (others : List Bytes) :
    (Requirement.mk key op (first :: others)).valuesText = joinComma (first :: others) := by
  cases others with
  | nil => exact intercalate_singleton.symm
  | cons next others => rfl

theorem Requirement.IsValid.cases (hr : r.IsValid) :
    (r.strValues = [] ∧ (r.operator = .isPresent ∨ r.operator = .doesNotExist)) ∨
      (∃ op : SetOperator, ∃ first others, r.operator = op.operator ∧ r.strValues = first :: others) ∨
      ∃ op : ExactOperator, ∃ value, r.operator = op.operator ∧ r.strValues = [value] ∧
        (op = .greaterThan ∨ op = .lessThan → (Decimal.parseInt value).isOk = true) := by
  obtain ⟨key, op, values⟩ := r
  have hcheck : checkValues op values = .ok () := hr.values_ok
  cases op with
  | isPresent | doesNotExist =>
    refine .inl ⟨?_, by simp⟩
    by_contra hne
    simp [checkValues, hne] at hcheck
  | isIn | notIn =>
    have hne : values ≠ [] := by
      rintro rfl
      cases hcheck
    obtain ⟨first, others, rfl⟩ := exists_cons_of_ne_nil hne
    first
      | exact .inr (.inl ⟨.isIn, first, others, rfl, rfl⟩)
      | exact .inr (.inl ⟨.notIn, first, others, rfl, rfl⟩)
  | equals | doubleEquals | notEquals | greaterThan | lessThan =>
    have hlen : values.length = 1 := by
      by_contra hne
      simp [checkValues, hne] at hcheck
    obtain ⟨value, rfl⟩ := length_eq_one_iff.mp hlen
    refine .inr (.inr ?_)
    first
      | exact ⟨.equals, value, rfl, rfl, by simp⟩
      | exact ⟨.doubleEquals, value, rfl, rfl, by simp⟩
      | exact ⟨.notEquals, value, rfl, rfl, by simp⟩
      | exact ⟨.greaterThan, value, rfl, rfl, fun _ ↦ by simpa [checkValues] using hcheck⟩
      | exact ⟨.lessThan, value, rfl, rfl, fun _ ↦ by simpa [checkValues] using hcheck⟩

theorem Requirement.IsValid.tokenises (hr : r.IsValid) (hs : AtComma s)
    (htokens : Tokenises s items) : Tokenises (r.string ++ s) (r.clause.items ++ items) := by
  have hcases := hr.cases
  obtain ⟨key, op, values⟩ := r
  have hkey : isQualifiedName key = [] := hr.key_valid
  have hvalues : ∀ value ∈ values, isValidLabelValue value = [] := hr.values_valid
  rcases hcases with ⟨rfl, rfl | rfl⟩ | ⟨setOp, first, others, rfl, rfl⟩ |
    ⟨exactOp, value, rfl, rfl, _⟩
  · simpa [Requirement.string, Operator.text, Requirement.clause, Operator.restriction]
      using tokenises_bare false hkey hs htokens
  · simpa [Requirement.string, Operator.text, Requirement.clause, Operator.restriction]
      using tokenises_bare true hkey hs htokens
  · have htokens' := @tokenises_valueSet s items key first others setOp hkey hvalues htokens
    rw [← valuesText_cons key first setOp.operator] at htokens'
    cases setOp <;> exact htokens'
  · have htokens' := @tokenises_exact s items key value exactOp hkey
      (hvalues value (mem_singleton_self value)) hs htokens
    cases exactOp <;> exact htokens'

theorem Requirement.IsValid.clause_valid (hr : r.IsValid) : r.clause.Valid := by
  have hcases := hr.cases
  refine ⟨hr.key_valid, fun value hvalue ↦ hr.values_valid value ?_⟩
  obtain ⟨key, op, values⟩ := r
  rcases hcases with ⟨rfl, rfl | rfl⟩ | ⟨setOp, first, others, rfl, rfl⟩ |
    ⟨exactOp, value, rfl, rfl, _⟩
  · cases hvalue
  · cases hvalue
  · cases setOp <;> exact hvalue
  · cases exactOp <;> exact hvalue

theorem Requirement.IsValid.clause_plain (hr : r.IsValid) : r.clause.Plain := by
  have hcases := hr.cases
  obtain ⟨key, op, values⟩ := r
  rcases hcases with ⟨rfl, rfl | rfl⟩ | ⟨setOp, first, others, rfl, rfl⟩ |
    ⟨exactOp, value, rfl, rfl, hinteger⟩
  · trivial
  · trivial
  · cases setOp <;> rfl
  · cases exactOp <;> exact ⟨rfl, hinteger⟩

theorem tokenises_selector {lsel : Selector} (hvalid : ∀ r ∈ lsel, r.IsValid) :
    Tokenises lsel.string (selectorItems (lsel.map Requirement.clause)) := by
  induction lsel with
  | nil => exact .nil
  | cons r lsel ih =>
    obtain ⟨hr, hlsel⟩ := forall_mem_cons.mp hvalid
    cases lsel with
    | nil =>
      have htokens := @Requirement.IsValid.tokenises r [] [] hr (by rintro ch ⟨⟩) .nil
      simpa [Selector.string, joinComma, selectorItems] using htokens
    | cons next lsel =>
      have hcomma := tokenises_comma (ih hlsel)
      have htokens := hr.tokenises (by rintro ch ⟨⟩; rfl) hcomma
      exact htokens

/-! ## Sorted values -/

theorem checkValues_sortStrings (op : Operator) (vals : List Bytes) :
    checkValues op (sortStrings vals) = checkValues op vals := by
  have hperm : (sortStrings vals).Perm vals := perm_insertionSort _ vals
  cases op <;> simp only [checkValues, hperm.length_eq, hperm.all_eq]

/-- A requirement that was made by `NewRequirement`. -/
def Requirement.IsNew (r : Requirement) : Prop := ∃ key op vals, newRequirement key op vals = .ok r

theorem Requirement.IsNew.isValid (hr : r.IsNew) : r.IsValid := by
  obtain ⟨key, op, vals, hnew⟩ := hr
  obtain ⟨hreq, rfl⟩ := newRequirement_eq_ok.mp hnew
  exact ⟨hreq.key_valid, (checkValues_sortStrings op vals).trans hreq.values_ok,
    fun value hvalue ↦ hreq.values_valid value (mem_sortStrings.mp hvalue)⟩

theorem Requirement.IsNew.sorted (hr : r.IsNew) :
    r.strValues.Pairwise fun first second ↦ first ≤ second := by
  obtain ⟨key, op, vals, hnew⟩ := hr
  obtain ⟨_, rfl⟩ := newRequirement_eq_ok.mp hnew
  exact pairwise_insertionSort _ vals

variable {first : Bytes}

theorem trailingCommas_of_empty {others : List Bytes} (hempty : ∀ value ∈ others, value = []) :
    trailingCommas first others = others.length := by
  cases others with
  | nil => rfl
  | cons next others => simpa [trailingCommas] using fun h ↦ absurd h (by simpa using hempty)

theorem eq_nil_of_le_nil {value : Bytes} (hle : value ≤ []) : value = [] :=
  hle.eq_or_lt.resolve_right (not_lt_nil value)

theorem trailingCommas_of_sorted {others : List Bytes}
    (hsorted : others.Pairwise fun first second ↦ first ≤ second)
    (hne : ∃ value ∈ others, value ≠ []) : trailingCommas first others = 0 := by
  induction others generalizing first with
  | nil => rfl
  | cons next others ih =>
    obtain ⟨hnext, hothers⟩ := pairwise_cons.mp hsorted
    obtain ⟨value, hvalue, hvalueNe⟩ := hne
    have hstep : trailingCommas first (next :: others) = trailingCommas next others := by
      rw [trailingCommas, if_neg]
      exact fun hall ↦ hvalueNe (List.isEmpty_iff.mp (all_eq_true.mp hall value hvalue))
    rw [hstep]
    cases others with
    | nil => rfl
    | cons other others =>
      refine ih hothers ?_
      rcases mem_cons.mp hvalue with rfl | hmem
      · refine ⟨other, mem_cons_self .., fun hother ↦ hvalueNe ?_⟩
        have hle := hnext other (mem_cons_self ..)
        rw [hother] at hle
        exact eq_nil_of_le_nil hle
      · exact ⟨value, hmem, hvalueNe⟩

/-- All values are empty, and their number is odd and at least three. -/
def Requirement.OnlyEmptyValues (r : Requirement) : Prop :=
  (r.operator = .isIn ∨ r.operator = .notIn) ∧ (∀ value ∈ r.strValues, value = []) ∧
    3 ≤ r.strValues.length ∧ r.strValues.length % 2 = 1

theorem evenRun_iff_of_sorted {others : List Bytes}
    (hsorted : (first :: others).Pairwise fun first second ↦ first ≤ second) :
    EvenRun first others ↔ (∀ value ∈ first :: others, value = []) ∧
      3 ≤ (first :: others).length ∧ (first :: others).length % 2 = 1 := by
  obtain ⟨hfirst, hothers⟩ := pairwise_cons.mp hsorted
  by_cases hempty : ∀ value ∈ others, value = []
  · rw [EvenRun, trailingCommas_of_empty hempty, length_cons]
    constructor
    · rintro ⟨hle, heven⟩
      obtain ⟨next, others, rfl⟩ : ∃ next others', others = next :: others' :=
        exists_cons_of_ne_nil (by rintro rfl; simp at hle)
      have hfirstEmpty : first = [] := by
        have hnext := hfirst next (mem_cons_self ..)
        rw [hempty next (mem_cons_self ..)] at hnext
        exact eq_nil_of_le_nil hnext
      exact ⟨forall_mem_cons.mpr ⟨hfirstEmpty, hempty⟩, by omega, by omega⟩
    · omega
  · have hne : ∃ value ∈ others, value ≠ [] := by simpa using hempty
    rw [EvenRun, trailingCommas_of_sorted hothers hne]
    refine iff_of_false (by simp) fun h ↦ hempty ?_
    exact (forall_mem_cons.mp h.1).2

theorem Requirement.IsNew.endsInEvenRun_iff (hr : r.IsNew) :
    r.clause.EndsInEvenRun ↔ r.OnlyEmptyValues := by
  have hsorted := hr.sorted
  have hcases := hr.isValid.cases
  obtain ⟨key, op, values⟩ := r
  rcases hcases with ⟨rfl, rfl | rfl⟩ | ⟨setOp, first, others, rfl, rfl⟩ |
    ⟨exactOp, value, rfl, rfl, _⟩
  · exact iff_of_false id (by simp [OnlyEmptyValues])
  · exact iff_of_false id (by simp [OnlyEmptyValues])
  · have hiff := evenRun_iff_of_sorted hsorted
    cases setOp with
    | isIn => exact hiff.trans ⟨fun h ↦ ⟨.inl rfl, h⟩, fun h ↦ h.2⟩
    | notIn => exact hiff.trans ⟨fun h ↦ ⟨.inr rfl, h⟩, fun h ↦ h.2⟩
  · cases exactOp <;> exact iff_of_false id (by simp [OnlyEmptyValues, ExactOperator.operator])

/-! ## Matching -/

theorem Requirement.IsValid.clause_requirement (hr : r.IsValid) :
    r.clause.requirement = ⟨r.key, r.operator, sortStrings r.strValues.dedup⟩ := by
  have hcases := hr.cases
  obtain ⟨key, op, values⟩ := r
  rcases hcases with ⟨rfl, rfl | rfl⟩ | ⟨setOp, first, others, rfl, rfl⟩ |
    ⟨exactOp, value, rfl, rfl, _⟩
  · rfl
  · rfl
  · cases setOp <;> rfl
  · cases exactOp <;> rfl

theorem hasValue_dedup (key : Bytes) (op : Operator) (values : List Bytes) (value : Bytes) :
    (Requirement.mk key op (sortStrings values.dedup)).hasValue value =
      (Requirement.mk key op values).hasValue value := by
  rw [Bool.eq_iff_iff]
  simp [Requirement.hasValue, mem_sortStrings]

/-- Reading the values as a set does not change what a requirement matches. -/
theorem Requirement.IsValid.matchesLabels_clause (hr : r.IsValid) (ls : LabelSet) :
    r.clause.requirement.matchesLabels ls = r.matchesLabels ls := by
  have hcases := hr.cases
  rw [hr.clause_requirement]
  obtain ⟨key, op, values⟩ := r
  rcases hcases with ⟨rfl, rfl | rfl⟩ | ⟨setOp, first, others, rfl, rfl⟩ |
    ⟨exactOp, value, rfl, rfl, _⟩
  · rfl
  · rfl
  · cases setOp <;> simp only [matchesLabels, SetOperator.operator, hasValue_dedup]
  · rfl

theorem matchesLabels_clauses [KeySort] {lsel : Selector} (hvalid : ∀ r ∈ lsel, r.IsValid)
    (ls : LabelSet) :
    Selector.matchesLabels (Selector.sortByKey ((lsel.map Requirement.clause).map Clause.requirement))
      ls = lsel.matchesLabels ls := by
  rw [matchesLabels_sortByKey, Selector.matchesLabels, Selector.matchesLabels, map_map,
    all_map, Bool.eq_iff_iff, all_eq_true, all_eq_true]
  refine forall₂_congr fun r hr ↦ ?_
  rw [Function.comp_apply, Function.comp_apply, (hvalid r hr).matchesLabels_clause]

/-- `Parse` reads the text of a selector back as one that matches the same label sets if and only if
no requirement has only empty values, in an odd number of at least three. -/
theorem parse_string_iff [KeySort] {lsel : Selector} (hnew : ∀ r ∈ lsel, r.IsNew) :
    (∃ lsel', parse lsel.string = .ok lsel' ∧
      ∀ ls, lsel'.matchesLabels ls = lsel.matchesLabels ls) ↔
      ∀ r ∈ lsel, ¬ r.OnlyEmptyValues := by
  have hvalid : ∀ r ∈ lsel, r.IsValid := fun r hr ↦ (hnew r hr).isValid
  have hderiv : PlainDerivation lsel.string (lsel.map Requirement.clause) := by
    refine ⟨⟨tokenises_selector hvalid, ?_⟩, ?_⟩
    · simpa using fun r hr ↦ (hvalid r hr).clause_valid
    · simpa using fun r hr ↦ (hvalid r hr).clause_plain
  constructor
  · rintro ⟨lsel', hparse, _⟩ r hr hempty
    obtain ⟨err, herr⟩ := hderiv.parse_error
      ⟨r.clause, mem_map_of_mem hr, (hnew r hr).endsInEvenRun_iff.mpr hempty⟩
    rw [herr] at hparse
    cases hparse
  · intro hnone
    refine ⟨_, hderiv.parse_eq ?_, matchesLabels_clauses hvalid⟩
    simpa using fun r hr ↦ mt (hnew r hr).endsInEvenRun_iff.mp (hnone r hr)

/-- Two requirements on the key `in`, with an empty value and a value spelled like the operator. -/
theorem parse_string_keywords :
    ∃ lsel', parse (Selector.string [⟨['i', 'n'], .isIn, [[], ['i', 'n']]⟩,
        ⟨['i', 'n'], .notEquals, [[]]⟩]) = .ok lsel' ∧
      ∀ ls, lsel'.matchesLabels ls = Selector.matchesLabels
        [⟨['i', 'n'], .isIn, [[], ['i', 'n']]⟩, ⟨['i', 'n'], .notEquals, [[]]⟩] ls := by
  refine (parse_string_iff ?_).mpr ?_
  · refine forall_mem_cons.mpr ⟨?_, forall_mem_cons.mpr ⟨?_, by simp⟩⟩
    · exact ⟨['i', 'n'], .isIn, [['i', 'n'], []], by decide⟩
    · exact ⟨['i', 'n'], .notEquals, [[]], by decide⟩
  · simp [Requirement.OnlyEmptyValues]

/-- Three empty values are printed as `()` with two commas in it, and that is not read back. -/
theorem parse_three_empty_values :
    newRequirement ['a'] .isIn [[], [], []] = .ok ⟨['a'], .isIn, [[], [], []]⟩ ∧
      Selector.string [⟨['a'], .isIn, [[], [], []]⟩] =
        ['a', ' ', 'i', 'n', ' ', '(', ',', ',', ')'] ∧
      parse (Selector.string [⟨['a'], .isIn, [[], [], []]⟩]) =
        .error (.found [')'] .commaOrIdentifier) := by
  decide

end Kubernetes.Labels
