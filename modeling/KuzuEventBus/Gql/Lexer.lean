import KuzuEventBus.Core
import KuzuEventBus.Lib.Text

/-!
# Tokens

The lexer of `casys_engine/src/exec/parser.rs`.  The `Eof` that ends the list of
tokens there is the end of the list here.  Which characters are alphabetic or
numeric and what their upper case is are Unicode tables, a parameter.

## Main definitions

* `CharTables` — the Unicode tables.
* `Token` — tokens; the names of keywords end in `Kw`.
* `nextToken`, `tokenize` — the lexer.

## Main results

* `tokenize_eq` — the tokens of a text are its next token and the tokens of what remains.
-/

namespace KuzuEventBus

open Text

/-- The Unicode tables the lexer consults. -/
structure CharTables where
  /-- `char::is_alphabetic`. -/
  isAlphabetic : Char → Bool
  /-- `char::is_numeric`. -/
  isNumeric : Char → Bool
  /-- `str::to_uppercase`. -/
  toUppercase : String → String

/-- The tables restricted to ASCII. -/
def CharTables.ascii : CharTables where
  isAlphabetic := Char.isAlpha
  isNumeric := Char.isDigit
  toUppercase s := String.ofList (s.toList.map Char.toUpper)

/-- `char::is_alphanumeric`. -/
def CharTables.isAlphanumeric (tables : CharTables) (c : Char) : Bool :=
  tables.isAlphabetic c || tables.isNumeric c

/-- `Token`. -/
inductive Token where
  | matchKw | createKw | setKw | deleteKw | whereKw | withKw | asKw | returnKw | orderKw | byKw
  | ascKw | descKw | limitKw | andKw | orKw | notKw | nullKw | trueKw | falseKw | isKw | existsKw
  | leftParen | rightParen | leftBrace | rightBrace | leftBracket | rightBracket
  | colon | comma | dot | dollar
  /-- `->` -/
  | arrow
  /-- `<-` -/
  | leftArrow
  | star
  | dotDot
  | pipe
  | eq | ne | lt | le | gt | ge
  | plus | minus | slash
  | ident (name : String)
  | string (s : String)
  | int (i : Int64)
  | float (f : Float)
  deriving DecidableEq

/-- `Debug` of a token; `none` is `Eof`. -/
def Token.debug : Option Token → String
  | none => "Eof"
  | some t =>
    match t with
    | .matchKw => "Match"
    | .createKw => "Create"
    | .setKw => "Set"
    | .deleteKw => "Delete"
    | .whereKw => "Where"
    | .withKw => "With"
    | .asKw => "As"
    | .returnKw => "Return"
    | .orderKw => "Order"
    | .byKw => "By"
    | .ascKw => "Asc"
    | .descKw => "Desc"
    | .limitKw => "Limit"
    | .andKw => "And"
    | .orKw => "Or"
    | .notKw => "Not"
    | .nullKw => "Null"
    | .trueKw => "True"
    | .falseKw => "False"
    | .isKw => "Is"
    | .existsKw => "Exists"
    | .leftParen => "LeftParen"
    | .rightParen => "RightParen"
    | .leftBrace => "LeftBrace"
    | .rightBrace => "RightBrace"
    | .leftBracket => "LeftBracket"
    | .rightBracket => "RightBracket"
    | .colon => "Colon"
    | .comma => "Comma"
    | .dot => "Dot"
    | .dollar => "Dollar"
    | .arrow => "Arrow"
    | .leftArrow => "LeftArrow"
    | .star => "Star"
    | .dotDot => "DotDot"
    | .pipe => "Pipe"
    | .eq => "Eq"
    | .ne => "Ne"
    | .lt => "Lt"
    | .le => "Le"
    | .gt => "Gt"
    | .ge => "Ge"
    | .plus => "Plus"
    | .minus => "Minus"
    | .slash => "Slash"
    | .ident name => "Ident(" ++ name.quote ++ ")"
    | .string s => "String(" ++ s.quote ++ ")"
    | .int i => "Int(" ++ toString i.toInt ++ ")"
    | .float f => "Float(" ++ toString f ++ ")"

/-- The keywords, in upper case. -/
def keywords : List (String × Token) :=
  [("MATCH", .matchKw), ("CREATE", .createKw), ("SET", .setKw), ("DELETE", .deleteKw),
    ("WHERE", .whereKw), ("WITH", .withKw), ("AS", .asKw), ("RETURN", .returnKw),
    ("ORDER", .orderKw), ("BY", .byKw), ("ASC", .ascKw), ("DESC", .descKw), ("LIMIT", .limitKw),
    ("AND", .andKw), ("OR", .orKw), ("NOT", .notKw), ("NULL", .nullKw), ("TRUE", .trueKw),
    ("FALSE", .falseKw), ("IS", .isKw), ("EXISTS", .existsKw)]

/-! ### One token -/

/-- `EngineError::InvalidArgument`. -/
def lexError {α : Type} (msg : String) : Except Fault α := .error (.error (.invalidArgument msg))

/-- `Lexer::read_string`, after the opening quote. -/
def readString (cs : List Char) : Except Fault (Token × List Char) :=
  match cs.dropWhile (· ≠ '\x27') with
  | _ :: rest => .ok (.string (String.ofList (cs.takeWhile (· ≠ '\x27'))), rest)
  | [] => lexError "unterminated string"

/-- The characters `read_number` takes, whether it took a decimal point, and what remains: a
point is taken when a digit follows it. -/
def numberChars : List Char → List Char × Bool × List Char
  | '.' :: d :: cs =>
    if d.isDigit then
      let (num, _, rest) := numberChars (d :: cs)
      ('.' :: num, true, rest)
    else ([], false, '.' :: d :: cs)
  | c :: cs =>
    if c.isDigit then
      let (num, isFloat, rest) := numberChars cs
      (c :: num, isFloat, rest)
    else ([], false, c :: cs)
  | [] => ([], false, [])

/-- `str::parse::<i64>` of digits. -/
def parseI64 (ds : List Char) : Option Int64 :=
  if Nat.ofDigitChars 10 ds 0 < 2 ^ 63 then some (Int64.ofNat (Nat.ofDigitChars 10 ds 0)) else none

/-- `str::parse::<f64>` of digits and points: one point, between the digits. -/
def parseF64 (cs : List Char) : Option Float :=
  match cs.splitOn '.' with
  | [whole, frac] =>
    some (Float.ofScientific (Nat.ofDigitChars 10 (whole ++ frac) 0) true frac.length)
  | _ => none

/-- The token of the characters of a number. -/
def numberToken (num : List Char) (isFloat : Bool) : Except Fault Token :=
  if isFloat then
    match parseF64 num with
    | some f => .ok (.float f)
    | none => lexError "invalid float"
  else
    match parseI64 num with
    | some i => .ok (.int i)
    | none => lexError "invalid int"

/-- `Lexer::read_number`. -/
def readNumber (cs : List Char) : Except Fault (Token × List Char) :=
  let (num, isFloat, rest) := numberChars cs
  (numberToken num isFloat).map fun tok => (tok, rest)

/-- The characters of an identifier. -/
def isIdentChar (tables : CharTables) (c : Char) : Bool := tables.isAlphanumeric c || c == '_'

/-- The identifier or keyword at the front of a text, by `Lexer::read_ident`. -/
def readWord (tables : CharTables) (cs : List Char) : Token × List Char :=
  let ident := String.ofList (cs.takeWhile (isIdentChar tables))
  ((keywords.lookup (tables.toUppercase ident)).getD (.ident ident),
    cs.dropWhile (isIdentChar tables))

/-- `Lexer::next_token`: the next token and what remains, none at the end of the text. -/
def nextToken (tables : CharTables) (input : List Char) :
    Except Fault (Option (Token × List Char)) :=
  match input.dropWhile isWhiteSpace with
  | [] => .ok none
  | '(' :: cs => .ok (some (.leftParen, cs))
  | ')' :: cs => .ok (some (.rightParen, cs))
  | '\x7b' :: cs => .ok (some (.leftBrace, cs))
  | '\x7d' :: cs => .ok (some (.rightBrace, cs))
  | '[' :: cs => .ok (some (.leftBracket, cs))
  | ']' :: cs => .ok (some (.rightBracket, cs))
  | ':' :: cs => .ok (some (.colon, cs))
  | ',' :: cs => .ok (some (.comma, cs))
  | '.' :: '.' :: cs => .ok (some (.dotDot, cs))
  | '.' :: cs => .ok (some (.dot, cs))
  | '*' :: cs => .ok (some (.star, cs))
  | '$' :: cs => .ok (some (.dollar, cs))
  | '+' :: cs => .ok (some (.plus, cs))
  | '/' :: cs => .ok (some (.slash, cs))
  | '|' :: cs => .ok (some (.pipe, cs))
  | '\x27' :: cs => (readString cs).map some
  | '<' :: '-' :: cs => .ok (some (.leftArrow, cs))
  | '<' :: '=' :: cs => .ok (some (.le, cs))
  | '<' :: cs => .ok (some (.lt, cs))
  | '-' :: '>' :: cs => .ok (some (.arrow, cs))
  | '-' :: cs => .ok (some (.minus, cs))
  | '>' :: '=' :: cs => .ok (some (.ge, cs))
  | '>' :: cs => .ok (some (.gt, cs))
  | '=' :: cs => .ok (some (.eq, cs))
  | '!' :: '=' :: cs => .ok (some (.ne, cs))
  | '!' :: _ => lexError "unexpected !"
  | ch :: cs =>
    if ch.isDigit then (readNumber (ch :: cs)).map some
    else if tables.isAlphabetic ch || ch == '_' then .ok (some (readWord tables (ch :: cs)))
    else lexError ("unexpected char: " ++ ch.toString)

/-! ### All tokens -/

/-- The loop of `Parser::new`, for at most `fuel` tokens. -/
def tokenizeUpTo (tables : CharTables) : ℕ → List Char → Except Fault (List Token)
  | 0, _ => .ok []
  | fuel + 1, input => do
    match ← nextToken tables input with
    | some (tok, rest) =>
      let tokens ← tokenizeUpTo tables fuel rest
      pure (tok :: tokens)
    | none => pure []

/-- `Parser::new`: the tokens of a text.  Each takes a character at least. -/
def tokenize (tables : CharTables) (input : List Char) : Except Fault (List Token) :=
  tokenizeUpTo tables (input.length + 1) input

theorem length_dropWhile_le (p : Char → Bool) (cs : List Char) :
    (cs.dropWhile p).length ≤ cs.length :=
  (List.dropWhile_sublist p).length_le

theorem numberChars_length : ∀ cs : List Char, (numberChars cs).2.2.length ≤ cs.length := by
  intro cs
  fun_induction numberChars cs with
  | case1 d cs hd num isFloat rest heq ih =>
    simp only [heq] at ih
    exact Nat.le_succ_of_le ih
  | case2 d cs hd => exact le_rfl
  | case3 c cs hne hd num isFloat rest heq ih =>
    simp only [heq] at ih
    exact Nat.le_succ_of_le ih
  | case4 c cs hne hd => exact le_rfl
  | case5 => exact le_rfl

/-- A digit is taken. -/
theorem numberChars_digit {c : Char} (hc : c.isDigit = true) (cs : List Char) :
    (numberChars (c :: cs)).2.2 = (numberChars cs).2.2 := by
  have hdot : c ≠ '.' := by
    rintro rfl
    simp at hc
  rw [numberChars.eq_2 c cs (fun d cs' h => absurd h hdot), if_pos hc]

/-- A number takes a digit at least. -/
theorem readNumber_length {c : Char} {cs rest : List Char} {tok : Token} (hc : c.isDigit = true)
    (h : readNumber (c :: cs) = .ok (tok, rest)) : rest.length < (c :: cs).length := by
  obtain ⟨tok', -, heq⟩ := map_eq_ok h
  cases heq
  rw [numberChars_digit hc]
  exact Nat.lt_succ_of_le (numberChars_length cs)

theorem readString_length {cs rest : List Char} {tok : Token}
    (h : readString cs = .ok (tok, rest)) : rest.length < cs.length := by
  have hle := length_dropWhile_le (· ≠ '\x27') cs
  unfold readString at h
  split at h
  · next c rest' heq =>
    cases h
    rw [heq] at hle
    exact hle
  · cases h

theorem readWord_length (tables : CharTables) {c : Char} (cs : List Char)
    (hc : isIdentChar tables c = true) :
    (readWord tables (c :: cs)).2.length < (c :: cs).length := by
  rw [readWord, List.dropWhile_cons_of_pos hc]
  exact Nat.lt_succ_of_le (length_dropWhile_le _ cs)

/-- The tokens of one or two fixed characters. -/
def symbolTokens : List Token :=
  [.leftParen, .rightParen, .leftBrace, .rightBrace, .leftBracket, .rightBracket, .colon, .comma,
    .dot, .dollar, .arrow, .leftArrow, .star, .dotDot, .pipe, .eq, .ne, .lt, .le, .gt, .ge, .plus,
    .minus, .slash]

/-- A token is a symbol, a string without quotes, a number or a word, and takes a character at
least; there is none only where nothing but white space is left. -/
theorem nextToken_spec {tables : CharTables} {input : List Char}
    {next : Option (Token × List Char)} (h : nextToken tables input = .ok next) :
    (next = none ∧ input.dropWhile isWhiteSpace = []) ∨
      ∃ tok rest, next = some (tok, rest) ∧ rest.length < (input.dropWhile isWhiteSpace).length ∧
        (tok ∈ symbolTokens ∨ (∃ s, tok = .string s ∧ '\x27' ∉ s.toList) ∨
          (∃ num isFloat, numberToken num isFloat = .ok tok) ∨
            ∃ cs, tok = (readWord tables cs).1) := by
  unfold nextToken at h
  split at h
  case h_1 heq =>
    cases h
    exact .inl ⟨rfl, heq⟩
  case h_17 cs heq =>
    obtain ⟨r, hr, rfl⟩ := map_eq_ok h
    have hlen := readString_length hr
    unfold readString at hr
    split at hr
    · cases hr
      refine .inr ⟨_, _, rfl, ?_, .inr (.inl ⟨_, rfl, ?_⟩)⟩
      · rw [heq]
        exact Nat.lt_succ_of_lt hlen
      · rw [String.toList_ofList]
        intro hquote
        simpa using List.all_eq_true.mp List.all_takeWhile _ hquote
    · cases hr
  case h_27 => cases h
  case h_28 ch cs _ _ _ _ _ _ _ _ _ _ _ _ _ _ _ _ _ _ _ _ _ _ _ _ _ _ heq =>
    rw [heq]
    by_cases hdigit : ch.isDigit = true
    · rw [if_pos hdigit] at h
      obtain ⟨r, hr, rfl⟩ := map_eq_ok h
      obtain ⟨tok', htok, hr'⟩ := map_eq_ok hr
      cases hr'
      exact .inr ⟨_, _, rfl, readNumber_length hdigit hr, .inr (.inr (.inl ⟨_, _, htok⟩))⟩
    · rw [if_neg hdigit] at h
      by_cases hword : (tables.isAlphabetic ch || ch == '_') = true
      · rw [if_pos hword] at h
        have hident : isIdentChar tables ch = true := by
          simp only [isIdentChar, CharTables.isAlphanumeric, Bool.or_eq_true] at hword ⊢
          exact hword.imp_left Or.inl
        cases h
        exact .inr ⟨_, _, rfl, readWord_length tables cs hident, .inr (.inr (.inr ⟨_, rfl⟩))⟩
      · rw [if_neg hword] at h
        cases h
  -- a symbol takes one or two characters
  all_goals
    next heq =>
    cases h
    rw [heq]
    exact .inr ⟨_, _, rfl, by simp only [List.length_cons]; omega, .inl (by decide)⟩

/-- **A token takes a character at least.** -/
theorem nextToken_length {tables : CharTables} {input rest : List Char} {tok : Token}
    (h : nextToken tables input = .ok (some (tok, rest))) : rest.length < input.length := by
  obtain ⟨hnone, -⟩ | ⟨tok', rest', hsome, hlen, -⟩ := nextToken_spec h
  · cases hnone
  · cases hsome
    exact lt_of_lt_of_le hlen (length_dropWhile_le isWhiteSpace input)

theorem tokenizeUpTo_fuel (tables : CharTables) : ∀ (m n : ℕ) (input : List Char),
    input.length < m → input.length < n →
      tokenizeUpTo tables m input = tokenizeUpTo tables n input := by
  intro m
  induction m with
  | zero => intro n input hm; omega
  | succ m ih =>
    intro n input hm hn
    obtain ⟨n, rfl⟩ : ∃ n', n = n' + 1 := ⟨n - 1, by omega⟩
    unfold tokenizeUpTo
    cases hnext : nextToken tables input with
    | error e => rfl
    | ok r =>
      cases r with
      | none => rfl
      | some r =>
        have hlen : r.2.length < input.length := nextToken_length hnext
        simp only [bind, Except.bind]
        rw [ih n r.2 (by omega) (by omega)]

/-- **The tokens of a text are its next token and the tokens of what remains.** -/
theorem tokenize_eq (tables : CharTables) (input : List Char) : tokenize tables input =
    match nextToken tables input with
    | .ok (some (tok, rest)) => (tokenize tables rest).map (tok :: ·)
    | .ok none => .ok []
    | .error e => .error e := by
  rw [tokenize, tokenizeUpTo]
  cases hnext : nextToken tables input with
  | error e => rfl
  | ok r =>
    cases r with
    | none => rfl
    | some r =>
      have hlen : r.2.length < input.length := nextToken_length hnext
      simp only [bind, Except.bind]
      rw [tokenizeUpTo_fuel tables input.length (r.2.length + 1) r.2 hlen (Nat.lt_succ_self _)]
      rfl

/-! ### What tokens there are -/

/-- A token is a symbol, a string without quotes, a number or a word. -/
theorem nextToken_cases {tables : CharTables} {input rest : List Char} {tok : Token}
    (h : nextToken tables input = .ok (some (tok, rest))) :
    tok ∈ symbolTokens ∨ (∃ s, tok = .string s ∧ '\x27' ∉ s.toList) ∨
      (∃ num isFloat, numberToken num isFloat = .ok tok) ∨
      ∃ cs, tok = (readWord tables cs).1 := by
  obtain ⟨hnone, -⟩ | ⟨tok', rest', hsome, -, hkind⟩ := nextToken_spec h
  · cases hnone
  · cases hsome
    exact hkind

/-- What holds of every next token holds of all tokens of a text. -/
theorem forall_mem_tokenize {tables : CharTables} {P : Token → Prop}
    (hP : ∀ input tok rest, nextToken tables input = .ok (some (tok, rest)) → P tok)
    {input : List Char} {tokens : List Token} (h : tokenize tables input = .ok tokens) :
    ∀ tok ∈ tokens, P tok := by
  have hupTo : ∀ (fuel : ℕ) (input : List Char) (tokens : List Token),
      tokenizeUpTo tables fuel input = .ok tokens → ∀ tok ∈ tokens, P tok := by
    intro fuel
    induction fuel with
    | zero => intro input tokens h; cases h; simp
    | succ fuel ih =>
      intro input tokens h
      obtain ⟨next, hnext, h⟩ := bind_eq_ok h
      cases next with
      | none => cases h; simp
      | some r =>
        obtain ⟨rest, hrest, h⟩ := bind_eq_ok h
        cases h
        intro tok htok
        rcases List.mem_cons.mp htok with rfl | htok
        · exact hP _ _ _ hnext
        · exact ih r.2 rest hrest tok htok
  exact hupTo _ input tokens h

/-- A word is an identifier or a keyword. -/
theorem readWord_cases (tables : CharTables) (cs : List Char) :
    (∃ name, (readWord tables cs).1 = .ident name) ∨
      (readWord tables cs).1 ∈ keywords.map Prod.snd := by
  cases hk : keywords.lookup (tables.toUppercase
      (String.ofList (cs.takeWhile (isIdentChar tables)))) with
  | none =>
    refine .inl ⟨String.ofList (cs.takeWhile (isIdentChar tables)), ?_⟩
    simp only [readWord, hk, Option.getD_none]
  | some t =>
    obtain ⟨l₁, l₂, hsplit, -⟩ := List.lookup_eq_some_iff.mp hk
    refine .inr (List.mem_map.mpr ⟨_, hsplit ▸ List.mem_append_right l₁ List.mem_cons_self, ?_⟩)
    simp only [readWord, hk, Option.getD_some]

/-- The integers of a text are not negative, and its strings have no quotes. -/
theorem nextToken_literal {tables : CharTables} {input rest : List Char} {tok : Token}
    (h : nextToken tables input = .ok (some (tok, rest))) :
    (∀ n, tok = .int n → 0 ≤ n.toInt) ∧ ∀ s, tok = .string s → '\x27' ∉ s.toList := by
  rcases nextToken_cases h with hsymbol | ⟨s, rfl, hs⟩ | ⟨num, isFloat, hnum⟩ | ⟨cs, rfl⟩
  · constructor <;> rintro _ rfl <;> simp [symbolTokens] at hsymbol
  · refine ⟨nofun, fun s' heq => ?_⟩
    cases heq
    exact hs
  · unfold numberToken at hnum
    split at hnum <;> split at hnum <;> cases hnum
    · exact ⟨nofun, nofun⟩
    · next i hi =>
      refine ⟨fun n heq => ?_, nofun⟩
      cases heq
      unfold parseI64 at hi
      split at hi <;> cases hi
      rw [Int64.toInt_ofNat_of_lt ‹_›]
      omega
  · have hall : ∀ t ∈ keywords.map Prod.snd, (∀ n, t ≠ .int n) ∧ ∀ s, t ≠ .string s := by
      simp [keywords]
    rcases readWord_cases tables cs with ⟨name, hname⟩ | hmem
    · rw [hname]
      exact ⟨nofun, nofun⟩
    · obtain ⟨hint, hstring⟩ := hall _ hmem
      exact ⟨fun n heq => absurd heq (hint n), fun s heq => absurd heq (hstring s)⟩

end KuzuEventBus
