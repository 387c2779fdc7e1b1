import Kubernetes.Labels.ParserGrammar

/-!
# The syntax of label selectors

`Parse` accepts a text without zero bytes if and only if it has a plain derivation in which no value
set ends in an even run of commas.

The grammar in the comment of `Parse` differs from that by design: it has no `>` and `<`, it does
not derive the empty selector, and it allows a restriction after `!KEY`.
-/

namespace Kubernetes.Labels

open List

variable {clauses : List Clause}

/-! ## The loop -/

def IsStart (item : ScannedItem) : Prop :=
  item.tokenIn .values = .identifier ∨ item.tokenIn .values = .doesNotExist

variable {c : Clause}

theorem Clause.exists_start (hvalid : c.Valid) (rest : List ScannedItem) :
    ∃ item items, c.items ++ rest = item :: items ∧ IsStart item := by
  have htoken := (isWord_of_isQualifiedName hvalid.key_valid).tokenIn_values
  cases hnegated : c.negated with
  | true => exact ⟨bangItem, _, by simp [Clause.items, hnegated]; rfl, .inr rfl⟩
  | false => exact ⟨word c.key, _, by simp [Clause.items, hnegated]; rfl, .inl htoken⟩

section Loop

variable {fuel : ℕ} {requirements : Selector} {item : ScannedItem} {items rest : List ScannedItem}
  {r : Requirement}

theorem parseLoop_end (hstart : IsStart item)
    (hparse : parseRequirement (item :: items) = .ok (r, endItem :: rest)) :
    parseLoop (fuel + 1) requirements (item :: items) = .ok (requirements ++ [r]) := by
  have hend : endItem.tokenIn .values = .endOfString := rfl
  rcases hstart with htoken | htoken <;>
    simp [parseLoop, lookahead, consume, htoken, hparse, hend, Bind.bind, Except.bind, Pure.pure,
      Except.pure]

theorem parseLoop_comma {next : ScannedItem} (hstart : IsStart item) (hnext : IsStart next)
    (hparse : parseRequirement (item :: items) = .ok (r, commaItem :: next :: rest)) :
    parseLoop (fuel + 1) requirements (item :: items) =
      parseLoop fuel (requirements ++ [r]) (next :: rest) := by
  have hcomma : commaItem.tokenIn .values = .comma := rfl
  rcases hstart with htoken | htoken <;> rcases hnext with hnext | hnext <;>
    simp [parseLoop, lookahead, consume, htoken, hparse, hcomma, hnext, Bind.bind, Except.bind]

theorem parseLoop_error {err : ParseError} (hstart : IsStart item)
    (hparse : parseRequirement (item :: items) = .error err) :
    parseLoop (fuel + 1) requirements (item :: items) = .error err := by
  rcases hstart with htoken | htoken <;>
    simp [parseLoop, lookahead, htoken, hparse, Bind.bind, Except.bind]

theorem parseLoop_inv {result : Selector}
    (hparse : parseLoop (fuel + 1) requirements items = .ok result) :
    ∃ item items', items = item :: items' ∧
      (item.tokenIn .values = .endOfString ∨
        ∃ r next rest, parseRequirement items = .ok (r, next :: rest) ∧
          (next.tokenIn .values = .endOfString ∨
            next.tokenIn .values = .comma ∧ ∃ first rest', rest = first :: rest' ∧ IsStart first ∧
              parseLoop fuel (requirements ++ [r]) rest = .ok result)) := by
  cases items with
  | nil => cases hparse
  | cons item items =>
    refine ⟨item, items, rfl, ?_⟩
    cases htoken : item.tokenIn .values <;>
      simp only [parseLoop, lookahead, htoken, Bind.bind, Except.bind, reduceCtorEq] at hparse
    case endOfString => exact .inl rfl
    all_goals
      refine .inr ?_
      cases hreq : parseRequirement (item :: items) with
      | error err => simp [hreq] at hparse
      | ok parsed =>
        obtain ⟨r, rest⟩ := parsed
        cases rest with
        | nil => simp [hreq, consume] at hparse
        | cons next rest =>
          refine ⟨r, next, rest, rfl, ?_⟩
          cases hnext : next.tokenIn .values <;>
            simp only [hreq, consume, hnext, reduceCtorEq] at hparse
          case endOfString => exact .inl rfl
          refine .inr ⟨rfl, ?_⟩
          cases rest with
          | nil => cases hparse
          | cons first rest =>
            refine ⟨first, rest, rfl, ?_⟩
            cases hfirst : first.tokenIn .values <;>
              simp only [hfirst, reduceCtorEq] at hparse
            · exact ⟨.inr hfirst, hparse⟩
            · exact ⟨.inl hfirst, hparse⟩

end Loop

theorem selectorItems_cons_cons (c next : Clause) :
    selectorItems (c :: next :: clauses) = c.items ++ commaItem :: selectorItems (next :: clauses) :=
  rfl

theorem exists_start_selectorItems (hvalid : c.Valid) (rest : List ScannedItem) :
    ∃ item items, selectorItems (c :: clauses) ++ rest = item :: items ∧ IsStart item := by
  cases clauses with
  | nil => exact c.exists_start hvalid rest
  | cons next clauses =>
    rw [selectorItems_cons_cons, append_assoc]
    exact c.exists_start hvalid _

variable {fuel : ℕ}

/-- The loop reads a clause that another one follows. -/
theorem parseLoop_cons_cons {next : Clause} (hc : c.Valid) (hplain : c.Plain)
    (heven : ¬ c.EndsInEvenRun) (hnext : next.Valid) (requirements : Selector) :
    parseLoop (fuel + 1) requirements (selectorItems (c :: next :: clauses) ++ [endItem]) =
      parseLoop fuel (requirements ++ [c.requirement])
        (selectorItems (next :: clauses) ++ [endItem]) := by
  obtain ⟨first, rest, hrest, hfirst⟩ := @exists_start_selectorItems clauses next hnext [endItem]
  have hparse := @parseRequirement_eq (commaItem :: first :: rest) c hc hplain heven
    ⟨_, _, rfl, .inl rfl⟩
  obtain ⟨item, items, heq, hstart⟩ := c.exists_start hc (commaItem :: first :: rest)
  rw [heq] at hparse
  rw [selectorItems_cons_cons, append_assoc, cons_append, hrest, heq,
    parseLoop_comma hstart hfirst hparse]

section

variable (hfuel : clauses.length < fuel) (hvalid : ∀ c ∈ clauses, c.Valid)
  (hplain : ∀ c ∈ clauses, c.Plain)

include hfuel hvalid hplain

/-- The loop reads the items of plain and valid clauses without even runs. -/
theorem parseLoop_eq (heven : ∀ c ∈ clauses, ¬ c.EndsInEvenRun) (requirements : Selector) :
    parseLoop fuel requirements (selectorItems clauses ++ [endItem]) =
      .ok (requirements ++ clauses.map Clause.requirement) := by
  induction clauses generalizing fuel requirements with
  | nil =>
    obtain ⟨fuel, rfl⟩ := Nat.exists_eq_add_of_lt hfuel
    simp [selectorItems, parseLoop, lookahead, endItem, ScannedItem.tokenIn, Bind.bind,
      Except.bind, Pure.pure, Except.pure]
  | cons c clauses ih =>
    obtain ⟨fuel, rfl⟩ : ∃ fuel', fuel = fuel' + 1 := ⟨fuel - 1, by omega⟩
    obtain ⟨hc, hvalid'⟩ := forall_mem_cons.mp hvalid
    obtain ⟨hcPlain, hplain'⟩ := forall_mem_cons.mp hplain
    obtain ⟨hcEven, heven'⟩ := forall_mem_cons.mp heven
    cases clauses with
    | nil =>
      have hparse := @parseRequirement_eq [endItem] c hc hcPlain hcEven ⟨_, _, rfl, .inr rfl⟩
      obtain ⟨item, items, heq, hstart⟩ := c.exists_start hc [endItem]
      rw [heq] at hparse
      rw [show selectorItems [c] ++ [endItem] = item :: items from heq, parseLoop_end hstart hparse]
      rfl
    | cons next clauses =>
      rw [parseLoop_cons_cons hc hcPlain hcEven (hvalid' next mem_cons_self),
        ih (by simp at hfuel ⊢; omega) hvalid' hplain' heven']
      simp

theorem parseLoop_of_endsInEvenRun (heven : ∃ c ∈ clauses, c.EndsInEvenRun)
    (requirements : Selector) :
    ∃ err, parseLoop fuel requirements (selectorItems clauses ++ [endItem]) = .error err := by
  induction clauses generalizing fuel requirements with
  | nil => simp at heven
  | cons c clauses ih =>
    obtain ⟨fuel, rfl⟩ : ∃ fuel', fuel = fuel' + 1 := ⟨fuel - 1, by omega⟩
    obtain ⟨hc, hvalid'⟩ := forall_mem_cons.mp hvalid
    obtain ⟨hcPlain, hplain'⟩ := forall_mem_cons.mp hplain
    have hsplit : ∃ rest, selectorItems (c :: clauses) ++ [endItem] = c.items ++ rest := by
      cases clauses with
      | nil => exact ⟨_, rfl⟩
      | cons next clauses => exact ⟨_, by rw [selectorItems_cons_cons, append_assoc]⟩
    by_cases hcEven : c.EndsInEvenRun
    · obtain ⟨rest, hrest⟩ := hsplit
      obtain ⟨err, herr⟩ := @parseRequirement_of_endsInEvenRun rest c hc hcPlain hcEven
      obtain ⟨item, items, heq, hstart⟩ := c.exists_start hc rest
      rw [heq] at herr
      exact ⟨err, by rw [hrest, heq, parseLoop_error hstart herr]⟩
    · obtain ⟨bad, hbad, hbadEven⟩ := heven
      have hbad' : bad ∈ clauses := by
        rcases mem_cons.mp hbad with rfl | h
        · exact absurd hbadEven hcEven
        · exact h
      cases clauses with
      | nil => simp at hbad'
      | cons next clauses =>
        rw [parseLoop_cons_cons hc hcPlain hcEven (hvalid' next mem_cons_self)]
        exact ih (by simp at hfuel ⊢; omega) hvalid' hplain' ⟨bad, hbad', hbadEven⟩ _

end

variable {items : List ScannedItem}

theorem exists_clauses {requirements result : Selector} (hitems : ∀ item ∈ items, IsItem item)
    (hparse : parseLoop fuel requirements items = .ok result) :
    ∃ clauses rest, items = selectorItems clauses ++ endItem :: rest ∧
      ∀ c ∈ clauses, c.Valid ∧ c.Plain ∧ ¬ c.EndsInEvenRun := by
  have hendItem : ∀ {item : ScannedItem}, IsItem item → item.tokenIn .values = .endOfString →
      item = endItem := by
    rintro item ((⟨text, hword, rfl⟩ | hsymbol) | rfl) htoken
    · rw [hword.tokenIn_values] at htoken
      cases htoken
    · have hne := IsLexeme.tok_ne_endOfString (.inr hsymbol)
      cases htok : item.tok <;> simp_all [ScannedItem.tokenIn]
    · rfl
  induction fuel generalizing requirements items with
  | zero => cases hparse
  | succ fuel ih =>
    obtain ⟨item, items', rfl, hstep⟩ := parseLoop_inv hparse
    rcases hstep with hend | ⟨r, next, rest, hreq, hnext⟩
    · obtain rfl := hendItem (hitems item (mem_cons_self ..)) hend
      exact ⟨[], items', rfl, by simp⟩
    · obtain ⟨c, hc, hvalid, hplain, heven⟩ := exists_clause hitems hreq
      have hrest : ∀ item ∈ next :: rest, IsItem item := fun item hitem ↦
        hitems item (hc ▸ mem_append_right _ hitem)
      obtain ⟨hnextItem, hrest'⟩ := forall_mem_cons.mp hrest
      rcases hnext with hend | ⟨hcomma, first, rest', rfl, hstart, hloop⟩
      · obtain rfl := hendItem hnextItem hend
        exact ⟨[c], rest, hc, by simpa using ⟨hvalid, hplain, heven⟩⟩
      · obtain rfl : next = commaItem := hnextItem.eq_symbol hcomma (by decide) (by decide)
        obtain ⟨clauses, rest'', heq, hclauses⟩ := ih hrest' hloop
        cases clauses with
        | nil =>
          obtain rfl : first = endItem := (List.cons.inj heq).1
          rcases hstart with h | h <;> cases h
        | cons next clauses =>
          refine ⟨c :: next :: clauses, rest'', ?_, ?_⟩
          · rw [hc, heq, selectorItems_cons_cons, append_assoc, cons_append]
          · exact forall_mem_cons.mpr ⟨⟨hvalid, hplain, heven⟩, hclauses⟩

/-! ## Texts -/

theorem length_le_selectorItems (clauses : List Clause) :
    clauses.length ≤ (selectorItems clauses).length := by
  have hpos : ∀ c : Clause, 1 ≤ c.items.length := fun c ↦ by
    rw [Clause.items, length_append, length_cons]
    omega
  induction clauses with
  | nil => exact le_rfl
  | cons c clauses ih =>
    cases clauses with
    | nil => exact hpos c
    | cons next clauses =>
      simp only [selectorItems_cons_cons, length_append, length_cons] at ih ⊢
      omega

variable {s : Bytes}

theorem parse_of_tokens [KeySort] (htokens : Tokenises s items) :
    parse s = (parseLoop (items.length + 1) [] (items ++ [endItem])).map Selector.sortByKey := by
  rw [parse, htokens.scan_eq]
  simp only [length_append, length_singleton]
  rfl

theorem PlainDerivation.parse_eq [KeySort] (hderiv : PlainDerivation s clauses)
    (heven : ∀ c ∈ clauses, ¬ c.EndsInEvenRun) :
    parse s = .ok (Selector.sortByKey (clauses.map Clause.requirement)) := by
  rw [parse_of_tokens hderiv.tokens,
    parseLoop_eq (Nat.lt_succ_of_le (length_le_selectorItems clauses)) hderiv.valid
      hderiv.plain heven]
  rfl

theorem PlainDerivation.parse_error [KeySort] (hderiv : PlainDerivation s clauses)
    (heven : ∃ c ∈ clauses, c.EndsInEvenRun) : ∃ err, parse s = .error err := by
  obtain ⟨err, herr⟩ := parseLoop_of_endsInEvenRun
    (Nat.lt_succ_of_le (length_le_selectorItems clauses)) hderiv.valid hderiv.plain heven []
  exact ⟨err, by rw [parse_of_tokens hderiv.tokens, herr]; rfl⟩

theorem exists_plainDerivation [KeySort] {lsel : Selector} (hzero : zeroByte ∉ s)
    (hparse : parse s = .ok lsel) :
    ∃ clauses, PlainDerivation s clauses ∧ ∀ c ∈ clauses, ¬ c.EndsInEvenRun := by
  obtain ⟨items, htokens⟩ := exists_tokenises hzero
  rw [parse_of_tokens htokens] at hparse
  cases hloop : parseLoop (items.length + 1) [] (items ++ [endItem]) with
  | error err =>
    rw [hloop] at hparse
    cases hparse
  | ok result =>
    have hitems : ∀ item ∈ items ++ [endItem], IsItem item := by
      intro item hitem
      rcases mem_append.mp hitem with h | h
      · exact .inl (htokens.isLexeme item h)
      · exact .inr (mem_singleton.mp h)
    obtain ⟨clauses, rest, heq, hclauses⟩ := exists_clauses hitems hloop
    -- the end stands only at the end
    obtain rfl | ⟨init, last, rfl⟩ := eq_nil_or_concat' rest
    · obtain rfl : items = selectorItems clauses := (append_inj' heq rfl).1
      exact ⟨clauses, ⟨⟨htokens, fun c hc ↦ (hclauses c hc).1⟩, fun c hc ↦ (hclauses c hc).2.1⟩,
        fun c hc ↦ (hclauses c hc).2.2⟩
    · rw [← cons_append, ← append_assoc] at heq
      have hmem : endItem ∈ items := by
        rw [(append_inj' heq rfl).1]
        simp
      exact absurd rfl (htokens.isLexeme endItem hmem).tok_ne_endOfString

/-- Without zero bytes and value sets that end in an even run of commas, `Parse` succeeds exactly on
the plain derivations and returns their requirements by key. -/
theorem parse_eq_ok_iff [KeySort] {s : Bytes} (hzero : zeroByte ∉ s)
    (heven : ∀ clauses, PlainDerivation s clauses → ∀ c ∈ clauses, ¬ c.EndsInEvenRun)
    (lsel : Selector) :
    parse s = .ok lsel ↔ ∃ clauses, PlainDerivation s clauses ∧
      lsel = Selector.sortByKey (clauses.map Clause.requirement) := by
  constructor
  · intro hparse
    obtain ⟨clauses, hderiv, hclauses⟩ := exists_plainDerivation hzero hparse
    rw [hderiv.parse_eq hclauses] at hparse
    exact ⟨clauses, hderiv, (Except.ok.inj hparse).symm⟩
  · rintro ⟨clauses, hderiv, rfl⟩
    exact hderiv.parse_eq (heven clauses hderiv)

/-- The example of the comment, with an empty value between two others and an empty value set. -/
theorem parse_comment_example :
    ∃ clauses, PlainDerivation "x in (foo,,baz),y,z notin ()".toList clauses ∧
      [⟨['x'], .isIn, [[], ['b', 'a', 'z'], ['f', 'o', 'o']]⟩, ⟨['y'], .isPresent, []⟩,
        ⟨['z'], .notIn, [[]]⟩] = Selector.sortByKey (clauses.map Clause.requirement) := by
  have hparse : parse "x in (foo,,baz),y,z notin ()".toList =
      .ok [⟨['x'], .isIn, [[], ['b', 'a', 'z'], ['f', 'o', 'o']]⟩, ⟨['y'], .isPresent, []⟩,
        ⟨['z'], .notIn, [[]]⟩] := by decide
  refine (parse_eq_ok_iff (by decide) (fun clauses hderiv c hc heven ↦ ?_) _).mp hparse
  obtain ⟨err, herr⟩ := hderiv.parse_error ⟨c, hc, heven⟩
  cases herr

/-! ## The grammar of the comment -/

theorem IsWord.tok_ne_greaterThan {text : Bytes} (hword : IsWord text) :
    (word text).tok ≠ .greaterThan := by
  rcases hword.tok_word with h | h | h <;> simp [h]

theorem valuesItems_tok_ne {first : Bytes} {others : List Bytes}
    (hwords : ∀ value ∈ first :: others, value ≠ [] → IsWord value) :
    ∀ item ∈ valuesItems first others, item.tok ≠ .greaterThan := by
  have hvalue : ∀ value, (value ≠ [] → IsWord value) → ∀ item ∈ valueItems value,
      item.tok ≠ .greaterThan := by
    intro value hword item hitem
    by_cases hempty : value = []
    · simp [hempty] at hitem
    · rw [valueItems_of_ne hempty, mem_singleton] at hitem
      exact hitem ▸ (hword hempty).tok_ne_greaterThan
  induction others generalizing first with
  | nil => exact hvalue first (hwords first (mem_cons_self ..))
  | cons next others ih =>
    obtain ⟨hfirst, hothers⟩ := forall_mem_cons.mp hwords
    intro item hitem
    rcases mem_append.mp hitem with h | h
    · exact hvalue first hfirst item h
    · rcases mem_cons.mp h with rfl | h
      · decide
      · exact ih hothers item h

/-- The grammar of the comment has no `>`. -/
theorem Clause.Documented.tok_ne (hdocumented : c.Documented) (hvalid : c.Valid) :
    ∀ item ∈ c.items, item.tok ≠ .greaterThan := by
  obtain ⟨negated, key, restriction⟩ := c
  have hkey := (isWord_of_isQualifiedName hvalid.key_valid).tok_ne_greaterThan
  have hwords := hvalid.isWord_values
  have hrestriction : ∀ item ∈ restriction.items, item.tok ≠ .greaterThan := by
    cases restriction with
    | bare => simp [Restriction.items]
    | valueSet op first others =>
      have hvalues := valuesItems_tok_ne hwords
      cases op <;>
        simpa [Restriction.items, SetOperator.item, openItem, closeItem, or_imp, forall_and]
    | single op value =>
      have hvalue : ∀ item ∈ valueItems value, item.tok ≠ .greaterThan :=
        @valuesItems_tok_ne value [] hwords
      rcases op with _ | op
      · simpa [Restriction.items] using hvalue
      · cases op with
        | greaterThan | lessThan => exact absurd hdocumented id
        | equals | doubleEquals | notEquals =>
          simpa [Restriction.items, ExactOperator.item] using hvalue
  intro item hitem
  rcases mem_append.mp hitem with h | h
  · cases negated with
    | true =>
      obtain rfl := mem_singleton.mp h
      decide
    | false => cases h
  · rcases mem_cons.mp h with rfl | h
    · exact hkey
    · exact hrestriction item h

theorem selectorItems_tok_ne (hdocumented : ∀ c ∈ clauses, c.Documented)
    (hvalid : ∀ c ∈ clauses, c.Valid) :
    ∀ item ∈ selectorItems clauses, item.tok ≠ .greaterThan := by
  induction clauses with
  | nil => simp [selectorItems]
  | cons c clauses ih =>
    obtain ⟨hc, hdocumented'⟩ := forall_mem_cons.mp hdocumented
    obtain ⟨hcValid, hvalid'⟩ := forall_mem_cons.mp hvalid
    cases clauses with
    | nil => exact hc.tok_ne hcValid
    | cons next clauses =>
      intro item hitem
      rcases mem_append.mp hitem with h | h
      · exact hc.tok_ne hcValid item h
      · rcases mem_cons.mp h with rfl | h
        · decide
        · exact ih hdocumented' hvalid' item h

/-- `Parse` accepts the empty text and `x>1`, which the documented grammar lacks, and refuses
`!x=a`, which it has. -/
theorem documented_differs :
    (parse [] = .ok [] ∧ ¬ Documented []) ∧
      (parse ['x', '>', '1'] = .ok [⟨['x'], .greaterThan, [['1']]⟩] ∧
        ¬ Documented ['x', '>', '1']) ∧
      parse ['!', 'x', '=', 'a'] = .error (.found ['='] .commaOrEndOfString) ∧
        Documented ['!', 'x', '=', 'a'] := by
  refine ⟨⟨by decide, ?_⟩, ⟨by decide, ?_⟩, by decide, ?_⟩
  · rintro ⟨clauses, hne, _, hderiv⟩
    have hitems : selectorItems clauses ++ [endItem] = [] ++ [endItem] :=
      hderiv.tokens.scan_eq.symm
    have hlen := length_le_selectorItems clauses
    rw [(append_inj' hitems rfl).1] at hlen
    exact hne (length_eq_zero_iff.mp (Nat.le_zero.mp hlen))
  · rintro ⟨clauses, _, hdocumented, hderiv⟩
    have hscan : scan ['x', '>', '1'] = [word ['x'], ⟨.greaterThan, ['>']⟩, word ['1'], endItem] := by
      decide
    rw [hderiv.tokens.scan_eq] at hscan
    have hmem : (⟨.greaterThan, ['>']⟩ : ScannedItem) ∈ selectorItems clauses ++ [endItem] := by
      rw [hscan]
      simp
    rcases mem_append.mp hmem with h | h
    · exact selectorItems_tok_ne hdocumented hderiv.valid _ h rfl
    · simp [endItem] at h
  · refine ⟨[⟨true, ['x'], .single (some .equals) ['a']⟩], cons_ne_nil _ _, ?_, ?_, ?_⟩
    · simp [Clause.Documented]
    · exact tokenises_of_scan (by decide) (by decide)
    · exact forall_mem_singleton.mpr ⟨by decide, by decide⟩

end Kubernetes.Labels
