import KuzuEventBus.Gql.Lexer
import Mathlib.Data.List.TakeWhile

/-!
# Where tokens end

A token is the longest text the lexer can make of the characters in front of it,
so the tokens of two texts written one after the other are those of the first and
those of the second, unless the second begins with a character the last token of
the first goes on with.

## Main definitions

* `Token.goesOn` — the characters a token goes on with.
* `Stops` — a text begins with none of them.
* `Spells` — a text is read as given tokens when another text follows it.

## Main results

* `nextToken_append` — the next token does not depend on what comes after it.
* `spells_of_tokenize` — the tokens of a text, before a text they do not go on with.
* `exists_append_of_tokenize` — the tokens of a text whose end begins with a space.
-/

namespace KuzuEventBus

open Text

/-- The characters a token goes on with, or, after a point, could have been a number with. -/
def Token.goesOn (tables : CharTables) : Token → Char → Bool
  | .leftParen, _ | .rightParen, _ | .leftBrace, _ | .rightBrace, _ | .leftBracket, _
  | .rightBracket, _ | .colon, _ | .comma, _ | .dollar, _ | .arrow, _ | .leftArrow, _ | .star, _
  | .dotDot, _ | .pipe, _ | .eq, _ | .ne, _ | .le, _ | .ge, _ | .plus, _ | .slash, _
  | .string _, _ => false
  | .dot, c => c == '.' || c.isDigit
  | .minus, c => c == '>'
  | .lt, c => c == '-' || c == '='
  | .gt, c => c == '='
  | .int _, c | .float _, c => c.isDigit || c == '.'
  | _, c => isIdentChar tables c

/-- The text does not begin with a character the token goes on with. -/
def Stops (tables : CharTables) (tok : Token) (rest : List Char) : Prop :=
  ∀ c ∈ rest.head?, tok.goesOn tables c = false

variable {tables : CharTables}

theorem stops_cons {tok : Token} {c : Char} {rest : List Char} :
    Stops tables tok (c :: rest) ↔ tok.goesOn tables c = false := by
  simp [Stops]

/-! ### Tokens of one kind -/

/-- The characters symbols begin with. -/
def symbolChars : List Char :=
  ['(', ')', '\x7b', '\x7d', '[', ']', ':', ',', '.', '*', '$', '+', '/', '|', '\x27', '<', '-',
    '>', '=', '!']

/-- A character that is no symbol begins a number or a word. -/
theorem nextToken_eq_of_not_symbol {c : Char} (hws : isWhiteSpace c = false)
    (hc : c ∉ symbolChars) (cs : List Char) : nextToken tables (c :: cs) =
      if c.isDigit then (readNumber (c :: cs)).map some
      else if tables.isAlphabetic c || c == '_' then .ok (some (readWord tables (c :: cs)))
      else lexError ("unexpected char: " ++ c.toString) := by
  unfold nextToken
  rw [List.dropWhile_cons_of_neg (by simp [hws])]
  split
  case h_28 heq => cases heq; rfl
  all_goals
    next heq =>
    cases heq
    try simp [symbolChars] at hc

/-- The symbols that begin other symbols, and the characters that go on to these. -/
def shortSymbols : List (Char × List Char × Token) :=
  [('.', ['.'], .dot), ('<', ['-', '='], .lt), ('-', ['>'], .minus), ('>', ['='], .gt)]

/-- A symbol that begins another one, before a text that does not go on to it. -/
theorem nextToken_shortSymbol {c : Char} {next cs : List Char} {tok : Token}
    (hc : (c, next, tok) ∈ shortSymbols) (h : ∀ d ∈ next, cs.head? ≠ some d) :
    nextToken tables (c :: cs) = .ok (some (tok, cs)) := by
  simp only [shortSymbols, List.mem_cons, List.not_mem_nil, or_false, Prod.mk.injEq] at hc
  have hdrop : (c :: cs).dropWhile isWhiteSpace = c :: cs := by
    apply List.dropWhile_cons_of_neg
    rcases hc with ⟨rfl, -⟩ | ⟨rfl, -⟩ | ⟨rfl, -⟩ | ⟨rfl, -⟩ <;> decide
  unfold nextToken
  rw [hdrop]
  rcases hc with ⟨rfl, rfl, rfl⟩ | ⟨rfl, rfl, rfl⟩ | ⟨rfl, rfl, rfl⟩ | ⟨rfl, rfl, rfl⟩
  all_goals
    cases cs with
    | nil => rfl
    | cons d ds =>
      simp only [List.mem_cons, List.not_mem_nil, or_false, List.head?_cons, ne_eq,
        Option.some.injEq, forall_eq_or_imp, forall_eq] at h
      split
      case h_1 hcs => exact absurd hcs (List.cons_ne_nil _ _)
      case h_28 hcs =>
        obtain ⟨rfl, rfl⟩ := List.cons.inj hcs
        simp_all
      -- another symbol has another first character, or goes on with one of `next`
      all_goals
        next hcs =>
          obtain ⟨hfirst, hrest⟩ := List.cons.inj hcs
          first
          | exact absurd hfirst (by decide)
          | simp_all

theorem nextToken_minus {cs : List Char} (h : cs.head? ≠ some '>') :
    nextToken tables ('-' :: cs) = .ok (some (.minus, cs)) :=
  nextToken_shortSymbol (by decide : ('-', ['>'], .minus) ∈ shortSymbols) (by simpa using h)

theorem nextToken_gt {cs : List Char} (h : cs.head? ≠ some '=') :
    nextToken tables ('>' :: cs) = .ok (some (.gt, cs)) :=
  nextToken_shortSymbol (by decide : ('>', ['='], .gt) ∈ shortSymbols) (by simpa using h)

/-- `!` is no token by itself. -/
theorem nextToken_bang {cs : List Char} (h : cs.head? ≠ some '=') :
    nextToken tables ('!' :: cs) = lexError "unexpected !" := by
  unfold nextToken
  rw [List.dropWhile_cons_of_neg (by decide)]
  split
  case h_26 hcs => cases hcs; exact absurd rfl h
  case h_27 hcs => cases hcs; rfl
  case h_28 hcs => cases hcs; simp_all
  all_goals next hcs => cases hcs

/-- Digits and nothing else. -/
theorem numberChars_digits {ds : List Char} (h : ∀ c ∈ ds, c.isDigit = true) :
    numberChars ds = (ds, false, []) := by
  induction ds with
  | nil => rfl
  | cons c ds ih =>
    have hc : c.isDigit = true := h c List.mem_cons_self
    have hdot : c ≠ '.' := by
      rintro rfl
      cases hc
    rw [numberChars.eq_2 c ds (fun _ _ heq => absurd heq hdot), if_pos hc,
      ih fun d hd => h d (List.mem_cons_of_mem c hd)]

theorem toNat_of_isDigit {c : Char} (h : c.isDigit = true) : 48 ≤ c.toNat ∧ c.toNat ≤ 57 := by
  simp only [Char.isDigit, Bool.and_eq_true, decide_eq_true_eq] at h
  exact h

theorem isDigit_not_symbol {c : Char} (h : c.isDigit = true) :
    isWhiteSpace c = false ∧ c ∉ symbolChars := by
  constructor
  · have hn := toNat_of_isDigit h
    simp only [isWhiteSpace, Bool.or_eq_false_iff, Bool.and_eq_false_iff, decide_eq_false_iff_not,
      beq_eq_false_iff_ne]
    omega
  · intro hc
    have hall : ∀ d ∈ symbolChars, d.isDigit = false := by decide
    rw [hall c hc] at h
    cases h

/-- The decimal digits of an integer. -/
theorem nextToken_repr {n : ℕ} (h : n < 2 ^ 63) :
    nextToken tables n.repr.toList = .ok (some (.int (Int64.ofNat n), [])) := by
  have hdigits : ∀ c ∈ n.repr.toList, c.isDigit = true := by
    intro c hc
    rw [Nat.toList_repr] at hc
    exact Nat.isDigit_of_mem_toDigits (by omega) (by omega) hc
  have hread : readNumber n.repr.toList = .ok (.int (Int64.ofNat n), []) := by
    have hval : Nat.ofDigitChars 10 n.repr.toList 0 = n := by
      rw [Nat.toList_repr, Nat.ofDigitChars_ten_toDigits]
    unfold readNumber
    rw [numberChars_digits hdigits]
    simp only [numberToken, parseI64, hval, if_pos h]
    rfl
  cases hrepr : n.repr.toList with
  | nil =>
    rw [Nat.toList_repr] at hrepr
    exact absurd hrepr Nat.toDigits_ne_nil
  | cons c cs =>
    rw [hrepr] at hdigits hread
    have hc := hdigits c List.mem_cons_self
    obtain ⟨hws, hsym⟩ := isDigit_not_symbol hc
    rw [nextToken_eq_of_not_symbol hws hsym, if_pos hc, hread]
    rfl

/-! ### The text after a token -/

theorem Stops.head?_ne {tok : Token} {rest : List Char} {d : Char}
    (h : Stops tables tok rest) (hd : tok.goesOn tables d = true) : rest.head? ≠ some d := by
  intro hhead
  rw [h d hhead] at hd
  cases hd

/-- A text that ends before a character, or goes on with another one, does not have it next. -/
theorem head?_append_ne {cs rest : List Char} {d : Char} (hcs : cs.head? ≠ some d)
    (hrest : cs = [] → rest.head? ≠ some d) : (cs ++ rest).head? ≠ some d := by
  cases cs with
  | nil => exact hrest rfl
  | cons c us => exact hcs

/-- White space in front is skipped. -/
theorem nextToken_of_dropWhile (tables : CharTables) {input cs : List Char} {c : Char}
    (h : input.dropWhile isWhiteSpace = c :: cs) :
    isWhiteSpace c = false ∧ nextToken tables input = nextToken tables (c :: cs) := by
  have hc : isWhiteSpace c = false := by
    have hhead := List.head?_dropWhile_not isWhiteSpace input
    rw [h] at hhead
    exact hhead
  refine ⟨hc, ?_⟩
  unfold nextToken
  rw [h, List.dropWhile_cons_of_neg (by simp [hc])]

theorem takeWhile_append_of_stop {p : Char → Bool} {cs rest : List Char}
    (h : cs.dropWhile p = [] → ∀ c ∈ rest.head?, p c = false) :
    (cs ++ rest).takeWhile p = cs.takeWhile p ∧
      (cs ++ rest).dropWhile p = cs.dropWhile p ++ rest := by
  induction cs with
  | nil =>
    have hrest := h rfl
    cases rest with
    | nil => exact ⟨rfl, rfl⟩
    | cons c rest =>
      have hc : p c = false := hrest c rfl
      simp [hc]
  | cons c cs ih =>
    by_cases hc : p c = true
    · rw [List.dropWhile_cons_of_pos hc] at h
      obtain ⟨htake, hdrop⟩ := ih h
      simp only [List.cons_append, List.takeWhile_cons_of_pos hc, List.dropWhile_cons_of_pos hc,
        htake, hdrop, and_self]
    · simp [hc]

theorem readString_append {cs r rest : List Char} {tok : Token}
    (h : readString cs = .ok (tok, r)) : readString (cs ++ rest) = .ok (tok, r ++ rest) := by
  unfold readString at h ⊢
  split at h
  · next c r' heq =>
    cases h
    have hstop : cs.dropWhile (· ≠ '\x27') = [] →
        ∀ c ∈ rest.head?, (decide (c ≠ '\x27')) = false := by
      intro hnil
      rw [hnil] at heq
      cases heq
    obtain ⟨htake, hdrop⟩ := takeWhile_append_of_stop hstop
    rw [htake, hdrop, heq]
    rfl
  · cases h

/-- The digits and points of a number do not depend on what comes after it. -/
theorem numberChars_append {rest : List Char} (cs : List Char)
    (hend : (numberChars cs).2.2 = [] → ∀ c ∈ rest.head?, c.isDigit = false ∧ c ≠ '.')
    (hpoint : (numberChars cs).2.2 = ['.'] → ∀ c ∈ rest.head?, c.isDigit = false) :
    numberChars (cs ++ rest) =
      ((numberChars cs).1, (numberChars cs).2.1, (numberChars cs).2.2 ++ rest) := by
  fun_induction numberChars cs with
  | case1 d cs hd num isFloat r heq ih =>
    simp only [heq] at ih
    have hnext := ih hend hpoint
    rw [List.cons_append, List.cons_append, numberChars.eq_1, if_pos hd]
    rw [List.cons_append] at hnext
    rw [hnext]
  | case2 d cs hd =>
    rw [List.cons_append, List.cons_append, numberChars.eq_1, if_neg hd]
  | case3 c cs hne hd num isFloat r heq ih =>
    simp only [heq] at ih
    have hnext := ih hend hpoint
    have hdot : c ≠ '.' := by
      rintro rfl
      simp at hd
    rw [List.cons_append, numberChars.eq_2 c (cs ++ rest) (fun _ _ h => absurd h hdot), if_pos hd,
      hnext]
  | case4 c cs hne hd =>
    by_cases hdot : c = '.'
    · -- a point at the end of the text, and no digit after it
      subst hdot
      cases cs with
      | cons d cs => exact absurd rfl (hne d cs rfl)
      | nil =>
        cases rest with
        | nil => rfl
        | cons d rest =>
          have hd' : ¬ d.isDigit = true := by simp [hpoint rfl d rfl]
          rw [List.cons_append, List.nil_append, numberChars.eq_1, if_neg hd']
    · rw [List.cons_append, numberChars.eq_2 c (cs ++ rest) (fun _ _ h => absurd h hdot),
        if_neg hd]
  | case5 =>
    cases rest with
    | nil => rfl
    | cons c rest => 
      obtain ⟨hd, hdot⟩ := hend rfl c rfl
      rw [List.nil_append, numberChars.eq_2 c rest (fun _ _ h => absurd h hdot), hd]
      rfl

theorem numberToken_goesOn {num : List Char} {isFloat : Bool} {tok : Token}
    (h : numberToken num isFloat = .ok tok) (c : Char) :
    tok.goesOn tables c = (c.isDigit || c == '.') := by
  unfold numberToken at h
  split at h
  · split at h
    · cases h; rfl
    · cases h
  · split at h
    · cases h; rfl
    · cases h

theorem readNumber_append {cs r rest : List Char} {tok : Token}
    (h : readNumber cs = .ok (tok, r)) (hend : r = [] → Stops tables tok rest)
    (hpoint : r = ['.'] → ∀ c ∈ rest.head?, c.isDigit = false) :
    readNumber (cs ++ rest) = .ok (tok, r ++ rest) := by
  obtain ⟨tok', htok, hr⟩ := map_eq_ok h
  cases hr
  have hstop : (numberChars cs).2.2 = [] → ∀ c ∈ rest.head?, c.isDigit = false ∧ c ≠ '.' := by
    intro hnil c hc
    have hgoes := hend hnil c hc
    rw [numberToken_goesOn htok] at hgoes
    simpa using hgoes
  have happend := numberChars_append cs hstop hpoint
  unfold readNumber
  rw [happend]
  simp only [htok]
  rfl

/-- Words go on with the characters of identifiers. -/
theorem readWord_goesOn (cs : List Char) (c : Char) :
    (readWord tables cs).1.goesOn tables c = isIdentChar tables c := by
  have hall : ∀ kv ∈ keywords, kv.2.goesOn tables c = isIdentChar tables c := by
    simp [keywords, Token.goesOn]
  unfold readWord
  cases hk : keywords.lookup (tables.toUppercase
      (String.ofList (cs.takeWhile (isIdentChar tables)))) with
  | none => simp only [hk, Option.getD_none, Token.goesOn]
  | some t =>
    obtain ⟨l₁, l₂, hsplit, -⟩ := List.lookup_eq_some_iff.mp hk
    simp only [hk, Option.getD_some]
    have hmem : (tables.toUppercase (String.ofList (cs.takeWhile (isIdentChar tables))), t) ∈
        keywords := by
      rw [hsplit]
      simp
    exact hall _ hmem

theorem readWord_append {cs rest : List Char}
    (hend : (readWord tables cs).2 = [] → Stops tables (readWord tables cs).1 rest) :
    readWord tables (cs ++ rest) = ((readWord tables cs).1, (readWord tables cs).2 ++ rest) := by
  have hstop : cs.dropWhile (isIdentChar tables) = [] →
      ∀ c ∈ rest.head?, isIdentChar tables c = false := by
    intro hnil c hc
    rw [← readWord_goesOn cs c]
    exact hend hnil c hc
  obtain ⟨htake, hdrop⟩ := takeWhile_append_of_stop hstop
  unfold readWord
  rw [htake, hdrop]

/-- A symbol does not depend on what comes after it. -/
theorem nextToken_symbol_append {c : Char} {cs r rest : List Char} {tok : Token}
    (hc : c ∈ symbolChars) (h : nextToken tables (c :: cs) = .ok (some (tok, r)))
    (hend : r = [] → Stops tables tok rest) :
    nextToken tables (c :: (cs ++ rest)) = .ok (some (tok, r ++ rest)) := by
  have hnext {d : Char} (hcs : cs.head? ≠ some d) (hr : r = cs)
      (hd : tok.goesOn tables d = true) : (cs ++ rest).head? ≠ some d :=
    head?_append_ne hcs fun hnil => (hend (hr.trans hnil)).head?_ne hd
  simp only [symbolChars, List.mem_cons, List.not_mem_nil, or_false] at hc
  rcases hc with rfl | rfl | rfl | rfl | rfl | rfl | rfl | rfl | rfl | rfl | rfl | rfl | rfl |
    rfl | rfl | rfl | rfl | rfl | rfl | rfl
  -- symbols of one character, which begin no other
  all_goals try (cases h; rfl)
  · -- `.` and `..`
    have hdot : ('.', ['.'], .dot) ∈ shortSymbols := by decide
    by_cases hpoint : cs.head? = some '.'
    · obtain ⟨ds, rfl⟩ := List.head?_eq_some_iff.mp hpoint
      cases h
      rfl
    · rw [nextToken_shortSymbol hdot (by simpa using hpoint)] at h
      cases h
      exact nextToken_shortSymbol hdot (by simpa using hnext hpoint rfl rfl)
  · -- strings
    obtain ⟨p, hp, hsome⟩ := map_eq_ok h
    cases hsome
    change (readString (cs ++ rest)).map some = _
    rw [readString_append hp]
    rfl
  · -- `<-`, `<=` and `<`
    have hlt : ('<', ['-', '='], .lt) ∈ shortSymbols := by decide
    by_cases hminus : cs.head? = some '-'
    · obtain ⟨ds, rfl⟩ := List.head?_eq_some_iff.mp hminus
      cases h
      rfl
    by_cases heq : cs.head? = some '='
    · obtain ⟨ds, rfl⟩ := List.head?_eq_some_iff.mp heq
      cases h
      rfl
    · rw [nextToken_shortSymbol hlt (by simp [hminus, heq])] at h
      cases h
      have hminus' := hnext hminus rfl rfl
      have heq' := hnext heq rfl rfl
      exact nextToken_shortSymbol hlt
        (List.forall_mem_cons.mpr ⟨hminus', List.forall_mem_singleton.mpr heq'⟩)
  · -- `->` and `-`
    by_cases hgt : cs.head? = some '>'
    · obtain ⟨ds, rfl⟩ := List.head?_eq_some_iff.mp hgt
      cases h
      rfl
    · rw [nextToken_minus hgt] at h
      cases h
      exact nextToken_minus (hnext hgt rfl rfl)
  · -- `>=` and `>`
    by_cases heq : cs.head? = some '='
    · obtain ⟨ds, rfl⟩ := List.head?_eq_some_iff.mp heq
      cases h
      rfl
    · rw [nextToken_gt heq] at h
      cases h
      exact nextToken_gt (hnext heq rfl rfl)
  · -- `!=`
    by_cases heq : cs.head? = some '='
    · obtain ⟨ds, rfl⟩ := List.head?_eq_some_iff.mp heq
      cases h
      rfl
    · rw [nextToken_bang heq] at h
      cases h

/-- **The next token does not depend on what comes after it**, unless that begins with a
character it goes on with. -/
theorem nextToken_append {input r rest : List Char} {tok : Token}
    (h : nextToken tables input = .ok (some (tok, r))) (hend : r = [] → Stops tables tok rest)
    (hpoint : r = ['.'] → ∀ c ∈ rest.head?, c.isDigit = false) :
    nextToken tables (input ++ rest) = .ok (some (tok, r ++ rest)) := by
  cases hdrop : input.dropWhile isWhiteSpace with
  | nil =>
    unfold nextToken at h
    rw [hdrop] at h
    cases h
  | cons c cs =>
    obtain ⟨hws, heq⟩ := nextToken_of_dropWhile tables hdrop
    have hdrop' : (input ++ rest).dropWhile isWhiteSpace = c :: (cs ++ rest) := by
      rw [List.dropWhile_append, hdrop]
      rfl
    rw [heq] at h
    rw [(nextToken_of_dropWhile tables hdrop').2]
    -- a character that is no symbol begins a number or a word
    by_cases hc : c ∈ symbolChars
    · exact nextToken_symbol_append hc h hend
    · rw [nextToken_eq_of_not_symbol hws hc] at h ⊢
      by_cases hdigit : c.isDigit = true
      · rw [if_pos hdigit] at h ⊢
        obtain ⟨nr, hr, hsome⟩ := map_eq_ok h
        cases hsome
        rw [← List.cons_append, readNumber_append hr hend hpoint]
        rfl
      · rw [if_neg hdigit] at h ⊢
        by_cases hword : (tables.isAlphabetic c || c == '_') = true
        · rw [if_pos hword] at h ⊢
          simp only [Except.ok.injEq, Option.some.injEq] at h
          have hend' : (readWord tables (c :: cs)).2 = [] →
              Stops tables (readWord tables (c :: cs)).1 rest := by
            rw [h]
            exact hend
          rw [← List.cons_append, readWord_append hend', h]
        · rw [if_neg hword] at h
          cases h

/-! ### All tokens of a text -/

/-- There is no next token only where nothing but white space is left. -/
theorem dropWhile_of_nextToken_none {input : List Char}
    (h : nextToken tables input = .ok none) : input.dropWhile isWhiteSpace = [] := by
  obtain ⟨-, hdrop⟩ | ⟨tok, rest, hsome, -⟩ := nextToken_spec h
  · exact hdrop
  · cases hsome

/-- White space in front of a text has no tokens. -/
theorem tokenize_append_of_space (tables : CharTables) {space : List Char}
    (h : space.dropWhile isWhiteSpace = [])
    (rest : List Char) : tokenize tables (space ++ rest) = tokenize tables rest := by
  have hnext : nextToken tables (space ++ rest) = nextToken tables rest := by
    unfold nextToken
    rw [List.dropWhile_append, h]
    rfl
  rw [tokenize_eq, hnext, ← tokenize_eq]

/-- The text is read as the tokens when `rest` comes after it. -/
def Spells (tables : CharTables) (text : List Char) (tokens : List Token) (rest : List Char) :
    Prop :=
  tokenize tables (text ++ rest) = (tokenize tables rest).map (tokens ++ ·)

theorem Spells.nil (rest : List Char) : Spells tables [] [] rest := by
  unfold Spells
  rw [List.nil_append]
  cases tokenize tables rest <;> rfl

theorem Spells.append {text text' rest : List Char} {tokens tokens' : List Token}
    (h : Spells tables text tokens (text' ++ rest)) (h' : Spells tables text' tokens' rest) :
    Spells tables (text ++ text') (tokens ++ tokens') rest := by
  unfold Spells at h h' ⊢
  rw [List.append_assoc, h, h']
  cases tokenize tables rest with
  | error e => rfl
  | ok ts => exact congrArg Except.ok (List.append_assoc tokens tokens' ts).symm

/-- A text of one token. -/
theorem Spells.of_nextToken {text rest : List Char} {tok : Token}
    (h : nextToken tables (text ++ rest) = .ok (some (tok, rest))) :
    Spells tables text [tok] rest := by
  unfold Spells
  rw [tokenize_eq, h]
  rfl

/-- A text of one token, before a text that does not go on with it. -/
theorem Spells.of_stops {text rest : List Char} {tok : Token}
    (h : nextToken tables text = .ok (some (tok, []))) (hstop : Stops tables tok rest) :
    Spells tables text [tok] rest :=
  .of_nextToken (nextToken_append h (fun _ => hstop) fun hnil => nomatch hnil)

/-- White space has no tokens. -/
theorem Spells.space {space : List Char} (h : ∀ c ∈ space, isWhiteSpace c = true)
    (rest : List Char) : Spells tables space [] rest := by
  unfold Spells
  rw [tokenize_append_of_space tables (List.dropWhile_eq_nil_iff.mpr h)]
  cases tokenize tables rest <;> rfl

theorem Spells.tokenize_eq {text : List Char} {tokens : List Token}
    (h : Spells tables text tokens []) : tokenize tables text = .ok tokens := by
  unfold Spells at h
  rw [List.append_nil] at h
  rw [h]
  exact congrArg Except.ok (List.append_nil tokens)

/-- **The tokens of a text**, before a text that does not go on with the last of them. -/
theorem spells_of_tokenize {text rest : List Char} {tokens : List Token}
    (h : tokenize tables text = .ok tokens)
    (hstop : ∀ tok ∈ tokens.getLast?, Stops tables tok rest) :
    Spells tables text tokens rest := by
  induction hlen : text.length using Nat.strong_induction_on generalizing text tokens with
  | _ n ih =>
    rw [KuzuEventBus.tokenize_eq] at h
    cases hnext : nextToken tables text with
    | error e => rw [hnext] at h; cases h
    | ok next =>
      rw [hnext] at h
      cases next with
      | none =>
        cases h
        have hspace := tokenize_append_of_space tables (dropWhile_of_nextToken_none hnext) rest
        unfold Spells
        rw [hspace]
        cases tokenize tables rest <;> rfl
      | some p =>
        obtain ⟨tok, r⟩ := p
        obtain ⟨tokens', htokens', rfl⟩ := map_eq_ok h
        have hr : Spells tables r tokens' rest := by
          apply ih r.length (by rw [← hlen]; exact nextToken_length hnext) htokens'
          · intro last hlast
            apply hstop
            rw [List.getLast?_cons, hlast]
            rfl
          · rfl
        have hend : r = [] → Stops tables tok rest := by
          rintro rfl
          cases htokens'
          exact hstop tok rfl
        have hpoint : r = ['.'] → ∀ c ∈ rest.head?, c.isDigit = false := by
          rintro rfl c hc
          cases htokens'
          have hdot := hstop .dot rfl c hc
          rw [Token.goesOn, Bool.or_eq_false_iff] at hdot
          exact hdot.2
        unfold Spells at hr ⊢
        rw [KuzuEventBus.tokenize_eq, nextToken_append hnext hend hpoint]
        simp only
        rw [hr]
        cases tokenize tables rest <;> rfl

/-! ### Texts that are cut by a space -/

/-- A symbol that is an error: a string that does not end, or an exclamation mark. -/
theorem nextToken_symbol_error {c : Char} {cs : List Char} {e : Fault} (hc : c ∈ symbolChars)
    (h : nextToken tables (c :: cs) = .error e) :
    (c = '\x27' ∧ cs.dropWhile (· ≠ '\x27') = []) ∨ (c = '!' ∧ cs.head? ≠ some '=') := by
  have hshort {next : List Char} {tok : Token} (hc : (c, next, tok) ∈ shortSymbols)
      (hnext : ∀ d ∈ next, cs.head? ≠ some d) : False := by
    rw [nextToken_shortSymbol hc hnext] at h
    cases h
  simp only [symbolChars, List.mem_cons, List.not_mem_nil, or_false] at hc
  rcases hc with rfl | rfl | rfl | rfl | rfl | rfl | rfl | rfl | rfl | rfl | rfl | rfl | rfl |
    rfl | rfl | rfl | rfl | rfl | rfl | rfl
  -- symbols of one character, which begin no other
  all_goals try (cases h)
  · by_cases hpoint : cs.head? = some '.'
    · obtain ⟨ds, rfl⟩ := List.head?_eq_some_iff.mp hpoint
      cases h
    · exact (hshort (by decide : ('.', ['.'], .dot) ∈ shortSymbols) (by simpa using hpoint)).elim
  · refine .inl ⟨rfl, ?_⟩
    change (readString cs).map some = _ at h
    unfold readString at h
    split at h
    · cases h
    · assumption
  · by_cases hminus : cs.head? = some '-'
    · obtain ⟨ds, rfl⟩ := List.head?_eq_some_iff.mp hminus
      cases h
    by_cases heq : cs.head? = some '='
    · obtain ⟨ds, rfl⟩ := List.head?_eq_some_iff.mp heq
      cases h
    · exact (hshort (by decide : ('<', ['-', '='], .lt) ∈ shortSymbols)
        (by simp [hminus, heq])).elim
  · by_cases hgt : cs.head? = some '>'
    · obtain ⟨ds, rfl⟩ := List.head?_eq_some_iff.mp hgt
      cases h
    · rw [nextToken_minus hgt] at h
      cases h
  · by_cases heq : cs.head? = some '='
    · obtain ⟨ds, rfl⟩ := List.head?_eq_some_iff.mp heq
      cases h
    · rw [nextToken_gt heq] at h
      cases h
  · refine .inr ⟨rfl, fun heq => ?_⟩
    obtain ⟨ds, rfl⟩ := List.head?_eq_some_iff.mp heq
    cases h

/-- **What is no token stays none** when a space comes after it, and no quote. -/
theorem nextToken_error_append {input rest : List Char} {e : Fault}
    (h : nextToken tables input = .error e) (hhead : rest.head? = some ' ')
    (hquote : '\x27' ∉ rest) : ∃ e', nextToken tables (input ++ rest) = .error e' := by
  cases hdrop : input.dropWhile isWhiteSpace with
  | nil =>
    unfold nextToken at h
    rw [hdrop] at h
    cases h
  | cons c cs =>
    obtain ⟨hws, heq⟩ := nextToken_of_dropWhile tables hdrop
    have hdrop' : (input ++ rest).dropWhile isWhiteSpace = c :: (cs ++ rest) := by
      rw [List.dropWhile_append, hdrop]
      rfl
    rw [heq] at h
    rw [(nextToken_of_dropWhile tables hdrop').2]
    by_cases hc : c ∈ symbolChars
    · rcases nextToken_symbol_error hc h with ⟨rfl, hnone⟩ | ⟨rfl, hne⟩
      · -- the string does not end in what comes after it either
        have hnone' : (cs ++ rest).dropWhile (· ≠ '\x27') = [] := by
          rw [List.dropWhile_append, hnone]
          refine List.dropWhile_eq_nil_iff.mpr fun d hd => ?_
          have hne : d ≠ '\x27' := fun heq => hquote (heq ▸ hd)
          simpa using hne
        have hread : readString (cs ++ rest) = lexError "unterminated string" := by
          unfold readString
          rw [hnone']
        exact ⟨_, congrArg (Except.map some) hread⟩
      · refine ⟨_, nextToken_bang (head?_append_ne hne fun _ => ?_)⟩
        rw [hhead]
        decide
    · rw [nextToken_eq_of_not_symbol hws hc] at h ⊢
      by_cases hdigit : c.isDigit = true
      · rw [if_pos hdigit] at h ⊢
        have hstop : ∀ d ∈ rest.head?, d.isDigit = false ∧ d ≠ '.' := by
          rw [hhead]
          simp
        have happend : numberChars (c :: cs ++ rest) = _ :=
          numberChars_append (c :: cs) (fun _ => hstop) fun _ d hd => (hstop d hd).1
        unfold readNumber at h ⊢
        rw [← List.cons_append, happend]
        cases htok : numberToken (numberChars (c :: cs)).1 (numberChars (c :: cs)).2.1 with
        | error e' => exact ⟨e', by simp only [htok]; rfl⟩
        | ok tok =>
          simp only [htok] at h
          cases h
      · rw [if_neg hdigit] at h ⊢
        by_cases hword : (tables.isAlphabetic c || c == '_') = true
        · rw [if_pos hword] at h
          cases h
        · rw [if_neg hword]
          exact ⟨_, rfl⟩

/-- No token goes on with a space, if no word does. -/
theorem stops_of_space (hspace : isIdentChar tables ' ' = false) {rest : List Char}
    (hhead : rest.head? = some ' ') (tok : Token) : Stops tables tok rest := by
  intro c hc
  rw [hhead] at hc
  cases hc
  cases tok <;> first | rfl | exact hspace

/-- **The tokens of a text end with those of its end**, if that begins with a space and has no
quotes. -/
theorem exists_append_of_tokenize (hspace : isIdentChar tables ' ' = false)
    {text rest : List Char} {tokens : List Token}
    (h : tokenize tables (text ++ rest) = .ok tokens) (hhead : rest.head? = some ' ')
    (hquote : '\x27' ∉ rest) :
    ∃ before after, tokenize tables rest = .ok after ∧ tokens = before ++ after := by
  induction hlen : text.length using Nat.strong_induction_on generalizing text tokens with
  | _ n ih =>
    cases hnext : nextToken tables text with
    | error e =>
      obtain ⟨e', he'⟩ := nextToken_error_append hnext hhead hquote
      rw [KuzuEventBus.tokenize_eq, he'] at h
      cases h
    | ok next =>
      cases next with
      | none =>
        rw [tokenize_append_of_space tables (dropWhile_of_nextToken_none hnext)] at h
        exact ⟨[], tokens, h, rfl⟩
      | some p =>
        obtain ⟨tok, r⟩ := p
        have happend := nextToken_append hnext (fun _ => stops_of_space hspace hhead tok)
          fun _ c hc => by
            rw [hhead] at hc
            cases hc
            rfl
        rw [KuzuEventBus.tokenize_eq, happend] at h
        obtain ⟨tokens', htokens', rfl⟩ := map_eq_ok h
        obtain ⟨before, after, hafter, rfl⟩ :=
          ih r.length (by rw [← hlen]; exact nextToken_length hnext) htokens' rfl
        exact ⟨tok :: before, after, hafter, rfl⟩

end KuzuEventBus
