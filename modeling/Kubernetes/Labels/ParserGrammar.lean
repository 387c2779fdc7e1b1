import Kubernetes.Labels.ValueList

/-!
# The parser and the grammar

What the parser accepts are the items of plain and valid clauses whose value sets do not end in an
even run of commas, and it reads every such list of items as the requirements of the clauses.
-/

namespace Kubernetes.Labels

open List

variable {rest : List ScannedItem}

def Stops (rest : List ScannedItem) : Prop :=
  ∃ item rest', rest = item :: rest' ∧ (item = commaItem ∨ item = endItem)

@[simp]
theorem literal_word (text : Bytes) : (word text).literal = text := rfl

theorem parseExactValue_eq {value : Bytes} (hvalue : value ≠ [] → IsWord value)
    (hstops : Stops rest) : parseExactValue (valueItems value ++ rest) = .ok ([value], rest) := by
  by_cases hempty : value = []
  · subst hempty
    obtain ⟨item, rest', rfl, rfl | rfl⟩ := hstops <;> rfl
  · have htoken := (hvalue hempty).tokenIn_values
    simp [valueItems_of_ne hempty, parseExactValue, lookahead, consume, htoken, Bind.bind,
      Except.bind, Pure.pure, Except.pure]

variable {items : List ScannedItem}

theorem exists_exactValue {s : StringSet} (hitems : ∀ item ∈ items, IsItem item)
    (hparse : parseExactValue items = .ok (s, rest)) :
    ∃ value, s = [value] ∧ items = valueItems value ++ rest := by
  cases items with
  | nil => cases hparse
  | cons item items =>
    have hitem := (forall_mem_cons.mp hitems).1
    cases htoken : item.tokenIn .values <;>
      simp only [parseExactValue, lookahead, consume, htoken, Bind.bind, Except.bind, Pure.pure,
        Except.pure, reduceCtorEq, Except.ok.injEq, Prod.mk.injEq] at hparse
    case identifier =>
      obtain ⟨text, hword, rfl⟩ := hitem.eq_word htoken
      exact ⟨text, hparse.1.symm, by rw [valueItems_of_ne hword.ne_nil, ← hparse.2]; rfl⟩
    all_goals exact ⟨[], hparse.1.symm, hparse.2.symm ▸ rfl⟩

variable (op : SetOperator)

theorem parseOperator_set : parseOperator (op.item :: rest) = .ok (op.operator, rest) := by
  cases op <;> rfl

theorem parseOperator_exact (op : ExactOperator) :
    parseOperator (op.item :: rest) = .ok (op.operator, rest) := by
  cases op <;> rfl

variable {item : ScannedItem}

theorem IsItem.eq_setOperator (hitem : IsItem item) :
    (item.tok = .isIn → item = SetOperator.isIn.item) ∧
      (item.tok = .notIn → item = SetOperator.notIn.item) := by
  rcases hitem with (⟨text, hword, rfl⟩ | hsymbol) | rfl
  · unfold word string2token
    split <;> simp [SetOperator.item]
  · have hcases := hsymbol.cases
    simp only [mem_cons, Prod.mk.injEq, not_mem_nil, or_false] at hcases
    rcases hcases with h | h | h | h | h | h | h | h | h <;> simp [h.2]
  · simp [endItem]

theorem exists_operator {op : Operator} (hitems : ∀ item ∈ items, IsItem item)
    (hparse : parseOperator items = .ok (op, rest)) :
    (∃ setOp : SetOperator, op = setOp.operator ∧ items = setOp.item :: rest) ∨
      ∃ exactOp : ExactOperator, op = exactOp.operator ∧ items = exactOp.item :: rest := by
  cases items with
  | nil => cases hparse
  | cons item items =>
    have hitem := (forall_mem_cons.mp hitems).1
    cases htoken : item.tok <;>
      simp only [parseOperator, consume, ScannedItem.tokenIn, htoken, Bind.bind, Except.bind,
        Pure.pure, Except.pure, reduceCtorEq, Except.ok.injEq, Prod.mk.injEq] at hparse
    case isIn =>
      exact .inl ⟨.isIn, hparse.1.symm, by rw [hitem.eq_setOperator.1 htoken, hparse.2]⟩
    case notIn =>
      exact .inl ⟨.notIn, hparse.1.symm, by rw [hitem.eq_setOperator.2 htoken, hparse.2]⟩
    all_goals
      have hsymbol := @IsItem.eq_symbol item item.tok hitem
        (by simp [ScannedItem.tokenIn, htoken]) (by simp [htoken]) (by simp [htoken])
      rw [htoken] at hsymbol
      refine .inr ?_
      rw [hsymbol, hparse.2, ← hparse.1]
    case equals => exact ⟨.equals, rfl, rfl⟩
    case doubleEquals => exact ⟨.doubleEquals, rfl, rfl⟩
    case notEquals => exact ⟨.notEquals, rfl, rfl⟩
    case greaterThan => exact ⟨.greaterThan, rfl, rfl⟩
    case lessThan => exact ⟨.lessThan, rfl, rfl⟩

/-- The operator after a key: it is inferred in front of a comma or at the end. -/
def inferOperator (operator : Option Operator) (next : ScannedItem) : Option Operator :=
  if (next.tokenIn .values = .endOfString ∨ next.tokenIn .values = .comma) ∧
      operator ≠ some .doesNotExist then some .isPresent
  else operator

variable {key : Bytes}

theorem parseKey_eq (hkey : isQualifiedName key = []) (operator : Option Operator)
    (next : ScannedItem) :
    parseKey operator (word key :: next :: rest) =
      .ok ((key, inferOperator operator next), next :: rest) := by
  have htoken := (isWord_of_isQualifiedName hkey).tokenIn_values
  have hvalid := validateLabelKey_eq_ok.mpr hkey
  unfold inferOperator
  cases hnext : next.tokenIn .values <;>
    simp [parseKey, consume, lookahead, htoken, hvalid, hnext, Bind.bind, Except.bind, Pure.pure,
      Except.pure]
  all_goals split_ifs <;> simp_all

theorem exists_key {operator inferred : Option Operator} (hitems : ∀ item ∈ items, IsItem item)
    (hparse : parseKey operator items = .ok ((key, inferred), rest)) :
    ∃ next rest', isQualifiedName key = [] ∧ rest = next :: rest' ∧ items = word key :: rest ∧
      inferred = inferOperator operator next := by
  cases items with
  | nil => cases hparse
  | cons item items =>
    have hitem := (forall_mem_cons.mp hitems).1
    have htoken : item.tokenIn .values = .identifier := by
      cases htoken : item.tokenIn .values <;>
        simp [parseKey, consume, htoken, Bind.bind, Except.bind] at hparse ⊢
    obtain ⟨text, hword, rfl⟩ := hitem.eq_word htoken
    have hvalid : isQualifiedName text = [] := by
      rw [← validateLabelKey_eq_ok]
      cases hvalid : validateLabelKey text with
      | ok _ => rfl
      | error err => simp [parseKey, consume, htoken, hvalid, Bind.bind, Except.bind] at hparse
    cases items with
    | nil =>
      simp [parseKey, consume, lookahead, htoken, validateLabelKey_eq_ok.mpr hvalid, Bind.bind,
        Except.bind] at hparse
    | cons next items =>
      rw [parseKey_eq hvalid] at hparse
      cases hparse
      exact ⟨next, items, hvalid, rfl, rfl, rfl⟩

theorem parseKeyAndInferOperator_bang (items : List ScannedItem) :
    parseKeyAndInferOperator (bangItem :: items) = parseKey (some .doesNotExist) items :=
  rfl

theorem parseKeyAndInferOperator_of_ne (hitem : item.tokenIn .values ≠ .doesNotExist) :
    parseKeyAndInferOperator (item :: items) = parseKey none (item :: items) := by
  cases htoken : item.tokenIn .values <;>
    simp_all [parseKeyAndInferOperator, lookahead, Bind.bind, Except.bind]

/-! ## Requirements -/

theorem sortStrings_sortStrings (values : List Bytes) :
    sortStrings (sortStrings values) = sortStrings values :=
  List.Pairwise.insertionSort_eq (pairwise_insertionSort _ values)

theorem buildRequirement_eq {op : Operator} {values : StringSet}
    (hreq : IsRequirement key op values) :
    buildRequirement key op values rest = .ok (⟨key, op, sortStrings values⟩, rest) := by
  rw [buildRequirement, newRequirement_eq_ok.mpr ⟨hreq, rfl⟩]

variable {r : Requirement}

theorem isRequirement_of_buildRequirement {op : Operator} {values : StringSet}
    {rest' : List ScannedItem} (hbuild : buildRequirement key op values rest = .ok (r, rest')) :
    IsRequirement key op values ∧ rest' = rest := by
  unfold buildRequirement at hbuild
  split at hbuild
  · cases hbuild
  · rename_i hnew
    cases hbuild
    exact ⟨(newRequirement_eq_ok.mp hnew).1, rfl⟩

variable {c : Clause}

theorem Clause.Valid.isWord_values (hvalid : c.Valid) :
    ∀ value ∈ c.restriction.values, value ≠ [] → IsWord value :=
  fun value hvalue ↦ isWord_of_isValidLabelValue (hvalid.values_valid value hvalue)

theorem parseRequirement_bare (hkey : isQualifiedName key = []) (negated : Bool)
    (hstops : Stops rest) :
    parseRequirement ((Clause.mk negated key .bare).items ++ rest) =
      .ok ((Clause.mk negated key .bare).requirement, rest) := by
  have hword := isWord_of_isQualifiedName hkey
  obtain ⟨next, rest', rfl, hnext⟩ := hstops
  have hinfer : inferOperator none next = some .isPresent := by
    rcases hnext with rfl | rfl <;> rfl
  cases negated with
  | true =>
    have hparse : parseKeyAndInferOperator (bangItem :: word key :: next :: rest') =
        .ok ((key, some .doesNotExist), next :: rest') := by
      rw [parseKeyAndInferOperator_bang, parseKey_eq hkey]
      simp [inferOperator]
    have hbuild := @buildRequirement_eq (next :: rest') key .doesNotExist []
      ⟨hkey, rfl, by simp⟩
    change parseRequirement (bangItem :: word key :: next :: rest') = _
    simp only [parseRequirement, hparse, Bind.bind, Except.bind, hbuild]
    rfl
  | false =>
    have hparse : parseKeyAndInferOperator (word key :: next :: rest') =
        .ok ((key, some .isPresent), next :: rest') := by
      rw [parseKeyAndInferOperator_of_ne (by simp [hword.tokenIn_values]), parseKey_eq hkey, hinfer]
    have hbuild := @buildRequirement_eq (next :: rest') key .isPresent []
      ⟨hkey, rfl, by simp⟩
    change parseRequirement (word key :: next :: rest') = _
    simp only [parseRequirement, hparse, Bind.bind, Except.bind, hbuild]
    rfl

def parseValuesOf (op : Operator) (items : List ScannedItem) :
    Except ParseError (StringSet × List ScannedItem) :=
  if op = .isIn ∨ op = .notIn then parseValues items else parseExactValue items

theorem parseRequirement_of_operator {op : Operator} (hkey : isQualifiedName key = [])
    (hinfer : inferOperator none item = none)
    (hop : parseOperator (item :: items) = .ok (op, items)) :
    parseRequirement (word key :: item :: items) =
      (parseValuesOf op items).bind fun parsed ↦
        buildRequirement key op (sortStrings parsed.1) parsed.2 := by
  have hword := isWord_of_isQualifiedName hkey
  have hparse : parseKeyAndInferOperator (word key :: item :: items) =
      .ok ((key, none), item :: items) := by
    rw [parseKeyAndInferOperator_of_ne (by simp [hword.tokenIn_values]), parseKey_eq hkey, hinfer]
  simp only [parseRequirement, hparse, hop, Bind.bind, Except.bind, parseValuesOf]
  split_ifs <;> rfl

theorem inferOperator_set : inferOperator none op.item = none := by
  cases op <;> rfl

theorem parseValuesOf_set (items : List ScannedItem) :
    parseValuesOf op.operator items = parseValues items := by
  cases op <;> rfl

theorem parseValuesOf_exact (op : ExactOperator) (items : List ScannedItem) :
    parseValuesOf op.operator items = parseExactValue items := by
  cases op <;> rfl

section Eval

variable {key first value : Bytes} {others : List Bytes}

theorem items_valueSet :
    (Clause.mk false key (.valueSet op first others)).items ++ rest =
      word key :: op.item :: openItem :: (valuesItems first others ++ closeItem :: rest) := by
  simp [Clause.items, Restriction.items]

theorem items_single (op : ExactOperator) :
    (Clause.mk false key (.single (some op) value)).items ++ rest =
      word key :: op.item :: (valueItems value ++ rest) := by
  simp [Clause.items, Restriction.items]

section

variable (hvalid : (Clause.mk false key (.valueSet op first others)).Valid)

include hvalid

theorem parseRequirement_valueSet (heven : ¬ EvenRun first others) :
    parseRequirement ((Clause.mk false key (.valueSet op first others)).items ++ rest) =
      .ok ((Clause.mk false key (.valueSet op first others)).requirement, rest) := by
  obtain ⟨s, hparse, hsorted⟩ := @parseValues_eq first others rest hvalid.isWord_values heven
  have hreq : IsRequirement key op.operator (sortStrings s) := by
    rw [hsorted]
    refine ⟨hvalid.key_valid, ?_, fun value hvalue ↦ hvalid.values_valid value ?_⟩
    · have hne : (sortStrings (first :: others).dedup).length ≠ 0 := by
        rw [Ne, length_eq_zero_iff]
        refine ne_nil_of_mem (a := first) ?_
        simp [mem_sortStrings]
      cases op <;> simp [checkValues, SetOperator.operator, hne]
    · simpa [mem_sortStrings, Restriction.values] using hvalue
  rw [items_valueSet, parseRequirement_of_operator hvalid.key_valid (inferOperator_set op)
    (parseOperator_set op), parseValuesOf_set, hparse]
  change buildRequirement key op.operator (sortStrings s) rest = _
  rw [buildRequirement_eq hreq, sortStrings_sortStrings, hsorted]
  rfl

theorem parseRequirement_of_evenRun (heven : EvenRun first others) :
    ∃ err, parseRequirement ((Clause.mk false key (.valueSet op first others)).items ++ rest) =
      .error err := by
  obtain ⟨err, hparse⟩ := @parseValues_of_evenRun first others rest hvalid.isWord_values heven
  refine ⟨err, ?_⟩
  rw [items_valueSet, parseRequirement_of_operator hvalid.key_valid (inferOperator_set op)
    (parseOperator_set op), parseValuesOf_set, hparse]
  rfl

end

theorem parseRequirement_single (op : ExactOperator)
    (hvalid : (Clause.mk false key (.single (some op) value)).Valid)
    (hplain : (Clause.mk false key (.single (some op) value)).Plain) (hstops : Stops rest) :
    parseRequirement ((Clause.mk false key (.single (some op) value)).items ++ rest) =
      .ok ((Clause.mk false key (.single (some op) value)).requirement, rest) := by
  have hvalue := hvalid.values_valid value (mem_singleton_self value)
  have hparse := parseExactValue_eq (isWord_of_isValidLabelValue hvalue) hstops
  have hreq : IsRequirement key op.operator [value] := by
    refine ⟨hvalid.key_valid, ?_, by simpa using hvalue⟩
    cases op with
    | equals | doubleEquals | notEquals => rfl
    | greaterThan => simp [checkValues, ExactOperator.operator, hplain.2 (.inl rfl)]
    | lessThan => simp [checkValues, ExactOperator.operator, hplain.2 (.inr rfl)]
  rw [items_single, parseRequirement_of_operator hvalid.key_valid (by cases op <;> rfl)
    (parseOperator_exact op), parseValuesOf_exact, hparse]
  change buildRequirement key op.operator (sortStrings [value]) rest = _
  rw [show sortStrings [value] = [value] from rfl, buildRequirement_eq hreq]
  rfl

end Eval

/-- A plain and valid clause is read as its requirement, unless its value set ends in an even run of
commas. -/
theorem parseRequirement_eq (hvalid : c.Valid) (hplain : c.Plain) (heven : ¬ c.EndsInEvenRun)
    (hstops : Stops rest) :
    parseRequirement (c.items ++ rest) = .ok (c.requirement, rest) := by
  obtain ⟨negated, key, restriction⟩ := c
  cases restriction with
  | bare => exact parseRequirement_bare hvalid.key_valid negated hstops
  | valueSet op first others =>
    obtain rfl : negated = false := hplain
    exact parseRequirement_valueSet op hvalid heven
  | single op value =>
    cases op with
    | none => exact absurd hplain id
    | some op =>
      obtain rfl : negated = false := hplain.1
      exact parseRequirement_single op hvalid hplain hstops

theorem parseRequirement_of_endsInEvenRun (hvalid : c.Valid) (hplain : c.Plain)
    (heven : c.EndsInEvenRun) : ∃ err, parseRequirement (c.items ++ rest) = .error err := by
  obtain ⟨negated, key, restriction⟩ := c
  cases restriction with
  | bare | single => exact absurd heven id
  | valueSet op first others =>
    obtain rfl : negated = false := hplain
    exact parseRequirement_of_evenRun op hvalid heven

theorem parseRequirement_inv (hparse : parseRequirement items = .ok (r, rest)) :
    ∃ key operator items₁, parseKeyAndInferOperator items = .ok ((key, operator), items₁) ∧
      ((∃ op, operator = some op ∧ buildRequirement key op [] items₁ = .ok (r, rest)) ∨
        (operator = none ∧ ∃ op items₂ s items₃, parseOperator items₁ = .ok (op, items₂) ∧
          parseValuesOf op items₂ = .ok (s, items₃) ∧
          buildRequirement key op (sortStrings s) items₃ = .ok (r, rest))) := by
  simp only [parseRequirement, Bind.bind] at hparse
  cases hkey : parseKeyAndInferOperator items with
  | error err => simp [hkey, Except.bind] at hparse
  | ok parsed =>
    obtain ⟨⟨key, operator⟩, items₁⟩ := parsed
    refine ⟨key, operator, items₁, rfl, ?_⟩
    cases operator with
    | some op => exact .inl ⟨op, rfl, by simpa only [hkey, Except.bind] using hparse⟩
    | none =>
      refine .inr ⟨rfl, ?_⟩
      simp only [hkey, Except.bind] at hparse
      cases hop : parseOperator items₁ with
      | error err => simp [hop] at hparse
      | ok parsed =>
        obtain ⟨op, items₂⟩ := parsed
        simp only [hop] at hparse
        cases hvalues : parseValuesOf op items₂ with
        | error err =>
          unfold parseValuesOf at hvalues
          split_ifs at hvalues hparse <;> simp [hvalues] at hparse
        | ok parsed =>
          obtain ⟨s, items₃⟩ := parsed
          refine ⟨op, items₂, s, items₃, rfl, hvalues, ?_⟩
          unfold parseValuesOf at hvalues
          split_ifs at hvalues hparse <;> simpa only [hvalues] using hparse

theorem exists_keyAndOperator {operator : Option Operator} (hitems : ∀ item ∈ items, IsItem item)
    (hparse : parseKeyAndInferOperator items = .ok ((key, operator), rest)) :
    isQualifiedName key = [] ∧
      ((operator = some .doesNotExist ∧ items = bangItem :: word key :: rest) ∨
        ((operator = some .isPresent ∨ operator = none) ∧ items = word key :: rest)) := by
  cases items with
  | nil => cases hparse
  | cons item items =>
    by_cases hbang : item.tokenIn .values = .doesNotExist
    · obtain ⟨hitem, hrest⟩ := forall_mem_cons.mp hitems
      obtain rfl : item = bangItem := hitem.eq_symbol hbang (by decide) (by decide)
      obtain ⟨next, rest', hkey, rfl, rfl, rfl⟩ := exists_key hrest hparse
      exact ⟨hkey, .inl ⟨by simp [inferOperator], rfl⟩⟩
    · rw [parseKeyAndInferOperator_of_ne hbang] at hparse
      obtain ⟨next, rest', hkey, rfl, heq, rfl⟩ := exists_key hitems hparse
      refine ⟨hkey, .inr ⟨?_, heq⟩⟩
      unfold inferOperator
      split_ifs
      · exact .inl rfl
      · exact .inr rfl

/-- What `parseRequirement` accepts is a plain and valid clause whose value set does not end in an
even run of commas. -/
theorem exists_clause (hitems : ∀ item ∈ items, IsItem item)
    (hparse : parseRequirement items = .ok (r, rest)) :
    ∃ c : Clause, items = c.items ++ rest ∧ c.Valid ∧ c.Plain ∧ ¬ c.EndsInEvenRun := by
  obtain ⟨key, operator, items₁, hkeyOp, hsteps⟩ := parseRequirement_inv hparse
  obtain ⟨hkey, hshape⟩ := exists_keyAndOperator hitems hkeyOp
  rcases hsteps with ⟨op, rfl, hbuild⟩ | ⟨rfl, op, items₂, s, items₃, hop, hvalues, hbuild⟩
  · -- the operator is inferred, and the key is bare
    obtain ⟨_, rfl⟩ := isRequirement_of_buildRequirement hbuild
    rcases hshape with ⟨_, rfl⟩ | ⟨_, rfl⟩
    · exact ⟨⟨true, key, .bare⟩, rfl, ⟨hkey, by simp [Restriction.values]⟩, trivial, id⟩
    · exact ⟨⟨false, key, .bare⟩, rfl, ⟨hkey, by simp [Restriction.values]⟩, trivial, id⟩
  · obtain rfl : items = word key :: items₁ := by simpa using hshape
    have hitems₁ := (forall_mem_cons.mp hitems).2
    obtain ⟨hreq, rfl⟩ := isRequirement_of_buildRequirement hbuild
    rcases exists_operator hitems₁ hop with ⟨setOp, rfl, rfl⟩ | ⟨exactOp, rfl, rfl⟩
    · rw [parseValuesOf_set] at hvalues
      obtain ⟨first, others, rfl, hwords, heven⟩ :=
        exists_valueSet (forall_mem_cons.mp hitems₁).2 hvalues
      obtain ⟨s', hparse', hsorted⟩ := @parseValues_eq first others rest hwords heven
      obtain rfl : s' = s := by
        rw [hparse'] at hvalues
        cases hvalues
        rfl
      refine ⟨⟨false, key, .valueSet setOp first others⟩, (items_valueSet setOp).symm, ?_, rfl, heven⟩
      refine ⟨hkey, fun value hvalue ↦ hreq.values_valid value ?_⟩
      rw [hsorted, mem_sortStrings, mem_dedup]
      exact hvalue
    · rw [parseValuesOf_exact] at hvalues
      obtain ⟨value, rfl, rfl⟩ := exists_exactValue (forall_mem_cons.mp hitems₁).2 hvalues
      have hvalid := hreq.values_valid value (by simp [mem_sortStrings])
      refine ⟨⟨false, key, .single (some exactOp) value⟩, (items_single exactOp).symm, ?_, ?_, id⟩
      · exact ⟨hkey, by simpa [Restriction.values] using hvalid⟩
      · refine ⟨rfl, fun hinteger ↦ ?_⟩
        have hcheck := hreq.values_ok
        by_contra hnot
        rcases hinteger with rfl | rfl <;>
          simp [checkValues, ExactOperator.operator, sortStrings, hnot] at hcheck

end Kubernetes.Labels
