import Kubernetes.Labels.Lexer

/-!
# The lexer splits texts without zero bytes

A text without a zero byte splits into tokens in one way, and that is what the lexer produces.
-/

namespace Kubernetes.Labels

open List

variable {ch : Char}

theorem isWordChar_iff : isWordChar ch = true ↔
    ch ≠ zeroByte ∧ isSpecialSymbol ch = false ∧ isWhitespace ch = false := by
  simp [isWordChar, and_assoc]

theorem isWordChar_eq_false (hzero : ch ≠ zeroByte) : isWordChar ch = false ↔
    isSpecialSymbol ch = true ∨ isWhitespace ch = true := by
  cases hspec : isSpecialSymbol ch <;> cases hblank : isWhitespace ch <;>
    simp [isWordChar, hzero, hspec, hblank]

theorem isWhitespace_ne_zero (hblank : isWhitespace ch = true) : ch ≠ zeroByte := by
  rintro rfl
  exact absurd hblank (by decide)

theorem isSpecialSymbol_ne_zero (hspec : isSpecialSymbol ch = true) : ch ≠ zeroByte := by
  rintro rfl
  exact absurd hspec (by decide)

theorem isSpecialSymbol_not_blank (hspec : isSpecialSymbol ch = true) :
    isWhitespace ch = false := by
  simp only [isSpecialSymbol, Bool.or_eq_true, beq_iff_eq] at hspec
  rcases hspec with (((((rfl | rfl) | rfl) | rfl) | rfl) | rfl) | rfl <;> rfl

variable {text : Bytes} {token : Token}

theorem IsSymbol.cases (hsymbol : IsSymbol text token) :
    (text, token) ∈ [([')'], Token.closedPar), ([','], .comma), (['!'], .doesNotExist),
      (['=', '='], .doubleEquals), (['='], .equals), (['>'], .greaterThan), (['<'], .lessThan),
      (['!', '='], .notEquals), (['('], .openPar)] := by
  obtain ⟨htoken, hspec⟩ := hsymbol
  unfold string2token at htoken
  split at htoken
  case h_7 => exact absurd (hspec 'i' (by simp)) (by decide)
  case h_10 => exact absurd (hspec 'n' (by simp)) (by decide)
  case h_12 => cases htoken
  all_goals
    cases htoken
    simp

theorem IsWord.tok_word (hword : IsWord text) :
    (word text).tok = .identifier ∨ (word text).tok = .isIn ∨ (word text).tok = .notIn := by
  have hfirst : ∀ ch ∈ text, isSpecialSymbol ch = false :=
    fun ch hch ↦ (isWordChar_iff.mp (hword.wordChars ch hch)).2.1
  unfold word string2token
  split
  case h_7 => exact .inr (.inl rfl)
  case h_10 => exact .inr (.inr rfl)
  case h_12 => exact .inl rfl
  all_goals exact absurd (hfirst _ (mem_cons_self ..)) (by decide)

def IsLexeme (item : ScannedItem) : Prop :=
  (∃ text, IsWord text ∧ item = word text) ∨ IsSymbol item.literal item.tok

namespace Tokenises

variable {s : Bytes} {items : List ScannedItem}

theorem isLexeme (htokens : Tokenises s items) : ∀ item ∈ items, IsLexeme item := by
  induction htokens with
  | nil => simp
  | blank _ _ ih => exact ih
  | symbol hsymbol _ _ ih => exact forall_mem_cons.mpr ⟨.inr hsymbol, ih⟩
  | word hword _ _ ih => exact forall_mem_cons.mpr ⟨.inl ⟨_, hword, rfl⟩, ih⟩

/-- Every byte is accounted for, and a zero byte is part of no token. -/
theorem zero_not_mem (htokens : Tokenises s items) : zeroByte ∉ s := by
  induction htokens with
  | nil => simp
  | blank hblank _ ih =>
    exact fun h ↦ (mem_cons.mp h).elim (fun heq ↦ isWhitespace_ne_zero hblank heq.symm) ih
  | symbol hsymbol _ _ ih =>
    exact fun h ↦ (mem_append.mp h).elim
      (fun hmem ↦ isSpecialSymbol_ne_zero (hsymbol.special _ hmem) rfl) ih
  | word hword _ _ ih =>
    exact fun h ↦ (mem_append.mp h).elim
      (fun hmem ↦ (isWordChar_iff.mp (hword.wordChars _ hmem)).1 rfl) ih

end Tokenises

variable {s : Bytes}

theorem identifierLoop_append (hword : ∀ ch ∈ text, isWordChar ch = true) (hzero : zeroByte ∉ s)
    (hlongest : ∀ ch ∈ s.head?, isWordChar ch = false) (buffer : Bytes) :
    identifierLoop buffer (text ++ s) = (buffer ++ text, s) := by
  induction text generalizing buffer with
  | nil =>
    cases s with
    | nil => simp [identifierLoop]
    | cons ch rest =>
      have hne : ch ≠ zeroByte := fun h ↦ hzero (by simp [h])
      have hend := (isWordChar_eq_false hne).mp (hlongest ch rfl)
      simp [identifierLoop, hne, hend]
  | cons ch text ih =>
    obtain ⟨hch, htext⟩ := forall_mem_cons.mp hword
    obtain ⟨hne, hspec, hblank⟩ := isWordChar_iff.mp hch
    simp [identifierLoop, hne, hspec, hblank, ih htext]

theorem lex_blank (hblank : isWhitespace ch = true) : lex (ch :: s) = lex s := by
  unfold lex
  rw [dropWhile_cons_of_pos hblank]

section

variable (hzero : zeroByte ∉ s)
  (hlongest : ∀ ch ∈ s.head?, isSpecialSymbol ch = true → string2token (text ++ [ch]) = none)

include hzero hlongest

theorem specialSymbolLoop_stop (item : ScannedItem) :
    ∃ buffer, specialSymbolLoop (some item) text s = (some item, buffer, s) := by
  cases s with
  | nil => exact ⟨text, rfl⟩
  | cons ch rest =>
    have hne : ch ≠ zeroByte := fun h ↦ hzero (by simp [h])
    cases hspec : isSpecialSymbol ch with
    | false => exact ⟨text, by simp [specialSymbolLoop, hne, hspec]⟩
    | true =>
      have hnone := hlongest ch rfl hspec
      exact ⟨text ++ [ch], by simp [specialSymbolLoop, hne, hspec, hnone]⟩

theorem scanSpecialSymbol_append (hsymbol : IsSymbol text token) :
    scanSpecialSymbol (text ++ s) = (⟨token, text⟩, s) := by
  have hread : specialSymbolLoop none [] (text ++ s) =
      specialSymbolLoop (some ⟨token, text⟩) text s := by
    have hcases := hsymbol.cases
    simp only [mem_cons, Prod.mk.injEq, not_mem_nil, or_false] at hcases
    rcases hcases with ⟨rfl, rfl⟩ | ⟨rfl, rfl⟩ | ⟨rfl, rfl⟩ | ⟨rfl, rfl⟩ | ⟨rfl, rfl⟩ | ⟨rfl, rfl⟩ |
      ⟨rfl, rfl⟩ | ⟨rfl, rfl⟩ | ⟨rfl, rfl⟩ <;> rfl
  obtain ⟨buffer, hstop⟩ := specialSymbolLoop_stop hzero hlongest ⟨token, text⟩
  rw [scanSpecialSymbol, hread, hstop]

theorem lex_symbol (hsymbol : IsSymbol text token) : lex (text ++ s) = (⟨token, text⟩, s) := by
  have hscan := scanSpecialSymbol_append hzero hlongest hsymbol
  cases text with
  | nil => exact absurd hsymbol.token_eq (by simp [string2token])
  | cons ch text =>
    have hspec := hsymbol.special ch (mem_cons_self ..)
    rw [cons_append] at hscan ⊢
    rw [lex, dropWhile_cons_of_neg (by simp [isSpecialSymbol_not_blank hspec])]
    dsimp only
    rw [if_neg (isSpecialSymbol_ne_zero hspec), if_pos hspec, hscan]

end

theorem lex_word (hword : IsWord text) (hzero : zeroByte ∉ s)
    (hlongest : ∀ ch ∈ s.head?, isWordChar ch = false) : lex (text ++ s) = (word text, s) := by
  have hloop := identifierLoop_append hword.wordChars hzero hlongest []
  cases text with
  | nil => exact absurd rfl hword.ne_nil
  | cons ch text =>
    obtain ⟨hne, hspec, hblank⟩ :=
      isWordChar_iff.mp (hword.wordChars ch (mem_cons_self ..))
    rw [cons_append] at hloop ⊢
    rw [lex, dropWhile_cons_of_neg (by simp [hblank])]
    dsimp only
    rw [if_neg hne, if_neg (by simp [hspec]), scanIdOrKeyword, hloop]
    rfl

theorem IsLexeme.tok_ne_endOfString {item : ScannedItem} (hitem : IsLexeme item) :
    item.tok ≠ .endOfString := by
  rcases hitem with ⟨text, hword, rfl⟩ | hsymbol
  · rcases hword.tok_word with h | h | h <;> simp [h]
  · intro h
    have hcases := hsymbol.cases
    simp [h] at hcases

theorem scanLoop_of_lex {rest : Bytes} {item : ScannedItem} (hlex : lex s = (item, rest))
    (hitem : item.tok ≠ .endOfString) (fuel : ℕ) :
    scanLoop (fuel + 1) s = item :: scanLoop fuel rest := by
  rw [scanLoop, hlex]
  exact if_neg hitem

variable {items : List ScannedItem}

theorem Tokenises.scanLoop_eq (htokens : Tokenises s items) {fuel : ℕ} (hfuel : s.length < fuel) :
    scanLoop fuel s = items ++ [endItem] := by
  induction htokens generalizing fuel with
  | nil =>
    obtain ⟨fuel, rfl⟩ := Nat.exists_eq_add_of_lt hfuel
    rfl
  | @blank ch s items hblank _ ih =>
    obtain ⟨fuel, rfl⟩ := Nat.exists_eq_add_of_lt hfuel
    have hless : s.length < (ch :: s).length + fuel + 1 := by
      rw [length_cons]
      omega
    rw [← ih hless, scanLoop, scanLoop, lex_blank hblank]
  | @symbol text s token items hsymbol hlongest hrest ih =>
    have hpos : 0 < text.length := by
      rw [length_pos_iff]
      rintro rfl
      exact absurd hsymbol.token_eq (by simp [string2token])
    obtain ⟨fuel, rfl⟩ := Nat.exists_eq_add_of_lt hfuel
    rw [scanLoop_of_lex (lex_symbol hrest.zero_not_mem hlongest hsymbol)
      (IsLexeme.tok_ne_endOfString (.inr hsymbol)), ih (by rw [length_append]; omega)]
    rfl
  | @word text s items hword hlongest hrest ih =>
    have hpos : 0 < text.length := length_pos_iff.mpr hword.ne_nil
    obtain ⟨fuel, rfl⟩ := Nat.exists_eq_add_of_lt hfuel
    rw [scanLoop_of_lex (lex_word hword hrest.zero_not_mem hlongest)
      (IsLexeme.tok_ne_endOfString (.inl ⟨text, hword, rfl⟩)),
      ih (by rw [length_append]; omega)]
    rfl

theorem Tokenises.scan_eq (htokens : Tokenises s items) : scan s = items ++ [endItem] :=
  htokens.scanLoop_eq (Nat.lt_succ_self _)

section

variable (hspec : isSpecialSymbol ch = true)

include hspec

theorem string2token_pair {next : Char} (hpair : ¬ ((ch = '=' ∨ ch = '!') ∧ next = '=')) :
    string2token [ch, next] = none := by
  unfold string2token
  split
  case h_7 heq =>
    obtain ⟨rfl, rfl⟩ : ch = 'i' ∧ next = 'n' := by simpa using heq
    exact absurd hspec (by decide)
  all_goals simp_all

theorem isSymbol_single : ∃ token, IsSymbol [ch] token := by
  have hchars := hspec
  simp only [isSpecialSymbol, Bool.or_eq_true, beq_iff_eq] at hspec
  rcases hspec with (((((rfl | rfl) | rfl) | rfl) | rfl) | rfl) | rfl <;>
    exact ⟨_, rfl, by simpa using hchars⟩

theorem exists_symbol (rest : Bytes) :
    ∃ text token s, ch :: rest = text ++ s ∧ IsSymbol text token ∧
      ∀ next ∈ s.head?, isSpecialSymbol next = true → string2token (text ++ [next]) = none := by
  by_cases hpair : (ch = '=' ∨ ch = '!') ∧ rest.head? = some '='
  · obtain ⟨hch, hrest⟩ := hpair
    obtain ⟨s, rfl⟩ := List.head?_eq_some_iff.mp hrest
    rcases hch with rfl | rfl
    · exact ⟨['=', '='], _, s, rfl, ⟨rfl, all_eq_true.mp rfl⟩, fun _ _ _ ↦ rfl⟩
    · exact ⟨['!', '='], _, s, rfl, ⟨rfl, all_eq_true.mp rfl⟩, fun _ _ _ ↦ rfl⟩
  · obtain ⟨token, hsymbol⟩ := isSymbol_single hspec
    refine ⟨[ch], token, rest, rfl, hsymbol, fun next hnext _ ↦ string2token_pair hspec ?_⟩
    rintro ⟨hch, rfl⟩
    exact hpair ⟨hch, hnext⟩

end

theorem exists_word (hword : isWordChar ch = true) (rest : Bytes) :
    ∃ text s, ch :: rest = text ++ s ∧ IsWord text ∧ ∀ next ∈ s.head?, isWordChar next = false := by
  refine ⟨(ch :: rest).takeWhile isWordChar, (ch :: rest).dropWhile isWordChar,
    takeWhile_append_dropWhile.symm, ⟨?_, all_eq_true.mp all_takeWhile⟩, ?_⟩
  · simp [hword]
  · intro next hnext
    have hhead := List.head?_dropWhile_not isWordChar (ch :: rest)
    rw [hnext] at hhead
    simpa using hhead

theorem exists_tokenises (hzero : zeroByte ∉ s) : ∃ items, Tokenises s items := by
  induction hlen : s.length using Nat.strongRecOn generalizing s with
  | ind n ih =>
    subst hlen
    cases s with
    | nil => exact ⟨[], .nil⟩
    | cons ch rest =>
      cases hblank : isWhitespace ch with
      | true =>
        obtain ⟨items, hitems⟩ := ih rest.length (Nat.lt_succ_self _)
          (fun h ↦ hzero (mem_cons_of_mem _ h)) rfl
        exact ⟨items, .blank hblank hitems⟩
      | false =>
        cases hspec : isSpecialSymbol ch with
        | true =>
          obtain ⟨text, token, s, heq, hsymbol, hlongest⟩ := exists_symbol hspec rest
          have hpos : text ≠ [] := by
            rintro rfl
            exact absurd hsymbol.token_eq (by simp [string2token])
          rw [heq] at hzero ih ⊢
          obtain ⟨items, hitems⟩ := ih s.length
            (by rw [length_append]; have := length_pos_iff.mpr hpos; omega)
            (fun h ↦ hzero (mem_append_right _ h)) rfl
          exact ⟨_, .symbol hsymbol hlongest hitems⟩
        | false =>
          have hne : ch ≠ zeroByte := fun h ↦ hzero (by simp [h])
          obtain ⟨text, s, heq, hword, hlongest⟩ :=
            exists_word (isWordChar_iff.mpr ⟨hne, hspec, hblank⟩) rest
          rw [heq] at hzero ih ⊢
          obtain ⟨items, hitems⟩ := ih s.length
            (by rw [length_append]; have := length_pos_iff.mpr hword.ne_nil; omega)
            (fun h ↦ hzero (mem_append_right _ h)) rfl
          exact ⟨_, .word hword hlongest hitems⟩

theorem tokenises_of_scan (hzero : zeroByte ∉ s) (hscan : scan s = items ++ [endItem]) :
    Tokenises s items := by
  obtain ⟨items', htokens⟩ := exists_tokenises hzero
  have heq := htokens.scan_eq.symm.trans hscan
  rwa [(append_inj' heq rfl).1] at htokens

end Kubernetes.Labels
