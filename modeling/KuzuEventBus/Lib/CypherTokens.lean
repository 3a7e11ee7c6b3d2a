import KuzuEventBus.Lib.PyText
import KuzuEventBus.Lib.Text
import Mathlib.Data.List.Infix

/-!
# The tokens of a Cypher text

Cypher is lexed into keywords, identifiers, numbers, symbols and quoted literals; white space and
comments separate them.  What counts as a letter of a name and as a keyword is left to `Tables`.

The lexer reads one character after the other, so that what it does on a text is compared with
what it does on another one, character by character.

## Main definitions

* `Token`, `Lexeme` — tokens, and what a text is read as.
* `Tables`, `Tables.cypher` — the names of a dialect, and those of Cypher.
* `Mode`, `step`, `finish`, `scan` — the lexer.
* `lex`, `tokens` — the lexemes of a text, and its tokens.
* `KeepsTokens` — white space may be squeezed without a change of the tokens.

## Main results

* `scan_squeeze` — what a text is read as, when it is squeezed and line comments have no end.
* `tokens_squeeze_iff` — **a text that is squeezed has the tokens it had exactly when the literals
  and the quoted names have single spaces only, and no token comes after a line comment.**
-/

namespace CypherTokens

open PyText

/-! ### Tokens -/

/-- The quotation marks. -/
inductive Quote where
  | single | double | back
  deriving DecidableEq

/-- The quotation mark as a character. -/
def Quote.char : Quote → Char
  | single => '\''
  | double => '"'
  | back => '`'

/-- A token; the text between quotation marks is as it is written. -/
inductive Token where
  | keyword (word : List Char)
  | identifier (word : List Char)
  | number (digits : List Char)
  | symbol (cs : List Char)
  /-- A string literal. -/
  | literal (quote : Quote) (content : List Char)
  /-- A name between back quotes. -/
  | quotedName (content : List Char)
  /-- A literal, a name or a comment that does not end. -/
  | unclosed
  deriving DecidableEq

/-- What a text is read as. -/
inductive Lexeme where
  | token (t : Token)
  | lineComment
  | blockComment
  deriving DecidableEq

/-- The token of a lexeme, unless it is a comment. -/
def Lexeme.token? : Lexeme → Option Token
  | token t => some t
  | lineComment | blockComment => none

/-- The letters of names, and the words that are keywords. -/
structure Tables where
  isNameStart : Char → Bool
  isNamePart : Char → Bool
  isKeyword : List Char → Bool
  isNameStart_of_space : ∀ c, isSpace c = true → isNameStart c = false
  isNamePart_of_space : ∀ c, isSpace c = true → isNamePart c = false

theorem ne_of_space {c d : Char} (hc : isSpace c = true) (hd : isSpace d = false) : c ≠ d := by
  rintro rfl
  rw [hc] at hd
  cases hd

theorem isDigit_of_space {c : Char} (h : isSpace c = true) : c.isDigit = false := by
  rw [Bool.eq_false_iff]
  intro hdigit
  have hrange : 48 ≤ c.toNat ∧ c.toNat ≤ 57 := Char.isDigit_iff_toNat.mp hdigit
  simp [isSpace] at h
  omega

theorem isAlpha_of_space {c : Char} (h : isSpace c = true) : c.isAlpha = false := by
  rw [Bool.eq_false_iff]
  intro halpha
  have hrange := Text.isAlpha_iff_toNat.mp halpha
  simp [isSpace] at h
  omega

/-- The reserved words of Cypher. -/
def reservedWords : List String :=
  ["ADD", "ALL", "AND", "AS", "ASC", "ASCENDING", "BY", "CASE", "CONSTRAINT", "CONTAINS", "CREATE",
    "DELETE", "DESC", "DESCENDING", "DETACH", "DISTINCT", "DO", "DROP", "ELSE", "END", "ENDS",
    "EXISTS", "FALSE", "FOR", "IN", "IS", "LIMIT", "MANDATORY", "MATCH", "MERGE", "NOT", "NULL",
    "OF", "ON", "OPTIONAL", "OR", "ORDER", "REMOVE", "REQUIRE", "RETURN", "SCALAR", "SET", "SKIP",
    "STARTS", "THEN", "TRUE", "UNION", "UNIQUE", "UNWIND", "WHEN", "WHERE", "WITH", "XOR"]

/-- Cypher: names have letters, digits, underscores, and what is outside ASCII and no white
space. -/
def Tables.cypher : Tables where
  isNameStart c := c.isAlpha || c == '_' || (128 ≤ c.toNat && !isSpace c)
  isNamePart c := c.isAlpha || c.isDigit || c == '_' || (128 ≤ c.toNat && !isSpace c)
  isKeyword cs := String.ofList (upper cs) ∈ reservedWords
  isNameStart_of_space c hc := by
    have hne : c ≠ '_' := ne_of_space hc (by decide)
    simp [hc, hne, isAlpha_of_space hc]
  isNamePart_of_space c hc := by
    have hne : c ≠ '_' := ne_of_space hc (by decide)
    simp [hc, hne, isAlpha_of_space hc, isDigit_of_space hc]

/-! ### The lexer -/

/-- What the lexer is reading. -/
inductive Mode where
  | between
  | word (cs : List Char)
  | number (cs : List Char)
  /-- A number, and a point after it. -/
  | numberDot (cs : List Char)
  /-- The first character of a symbol or of a comment. -/
  | symbol (c : Char)
  /-- A text after its quotation mark; `escaped` says that a backslash comes before. -/
  | quoted (quote : Quote) (escaped : Bool) (content : List Char)
  /-- A name after a back quote that ends it, unless another one follows. -/
  | closedName (content : List Char)
  | lineComment
  /-- A comment; `star` says that a `*` comes before. -/
  | blockComment (star : Bool)
  deriving DecidableEq

/-- A character that ends a line comment. -/
def isLineEnd (c : Char) : Bool := c == '\n' || c == '\r'

/-- The symbols of two characters. -/
def isPair (c d : Char) : Bool :=
  (c, d) ∈ [('<', '='), ('>', '='), ('<', '>'), ('=', '~'), ('.', '.'), ('+', '=')]

/-- The sign of an exponent. -/
def isExponentSign (digits : List Char) (c : Char) : Bool :=
  (c == '+' || c == '-') && (digits.getLast? == some 'e' || digits.getLast? == some 'E') &&
    digits.all fun d => d.isDigit || d == '.' || d == 'e' || d == 'E'

variable (T : Tables)

/-- The token of a word. -/
def Tables.wordToken (cs : List Char) : Token :=
  if T.isKeyword cs then .keyword cs else .identifier cs

/-- The mode after the first character of a lexeme, or after white space. -/
def Tables.start (c : Char) : Mode :=
  if isSpace c then .between
  else if T.isNameStart c then .word [c]
  else if c.isDigit then .number [c]
  else if c = '\'' then .quoted .single false []
  else if c = '"' then .quoted .double false []
  else if c = '`' then .quoted .back false []
  else .symbol c

/-- One character: the lexemes that end, and what is read next.  Line comments end with their line,
if `ends` says so. -/
def Tables.step (ends : Bool) (m : Mode) (c : Char) : List Lexeme × Mode :=
  match m with
  | .between => ([], T.start c)
  | .word cs =>
    if T.isNamePart c then ([], .word (cs ++ [c]))
    else ([.token (T.wordToken cs)], T.start c)
  | .number cs =>
    if T.isNamePart c || c.isDigit || isExponentSign cs c then ([], .number (cs ++ [c]))
    else if c = '.' then ([], .numberDot cs)
    else ([.token (.number cs)], T.start c)
  | .numberDot cs =>
    if c.isDigit then ([], .number (cs ++ ['.', c]))
    else if c = '.' then ([.token (.number cs), .token (.symbol ['.', '.'])], .between)
    else ([.token (.number cs), .token (.symbol ['.'])], T.start c)
  | .symbol d =>
    if d = '/' ∧ c = '/' then ([], .lineComment)
    else if d = '/' ∧ c = '*' then ([], .blockComment false)
    else if d = '.' ∧ c.isDigit then ([], .number ['.', c])
    else if isPair d c then ([.token (.symbol [d, c])], .between)
    else ([.token (.symbol [d])], T.start c)
  | .quoted quote escaped content =>
    if escaped then ([], .quoted quote false (content ++ [c]))
    else if c = quote.char then
      match quote with
      | .back => ([], .closedName content)
      | _ => ([.token (.literal quote content)], .between)
    else ([], .quoted quote (c == '\\' && quote != .back) (content ++ [c]))
  | .closedName content =>
    if c = '`' then ([], .quoted .back false (content ++ ['`']))
    else ([.token (.quotedName content)], T.start c)
  | .lineComment => if ends && isLineEnd c then ([.lineComment], .between) else ([], .lineComment)
  | .blockComment star =>
    if star && c == '/' then ([.blockComment], .between) else ([], .blockComment (c == '*'))

/-- The lexemes that end with the text. -/
def Tables.finish : Mode → List Lexeme
  | .between => []
  | .word cs => [.token (T.wordToken cs)]
  | .number cs => [.token (.number cs)]
  | .numberDot cs => [.token (.number cs), .token (.symbol ['.'])]
  | .symbol c => [.token (.symbol [c])]
  | .closedName content => [.token (.quotedName content)]
  | .lineComment => [.lineComment]
  | .quoted _ _ _ | .blockComment _ => [.token .unclosed]

/-- The lexemes of what is left of a text. -/
def Tables.scan (T : Tables) (ends : Bool) : Mode → List Char → List Lexeme
  | m, [] => T.finish m
  | m, c :: cs => (T.step ends m c).1 ++ T.scan ends (T.step ends m c).2 cs

/-- The lexemes of a text. -/
def Tables.lex (cs : List Char) : List Lexeme := T.scan true .between cs

/-- The tokens of a text. -/
def Tables.tokens (cs : List Char) : List Token := (T.lex cs).filterMap Lexeme.token?

/-! ### White space inside of lexemes -/

/-- A text with one space for each run of white space; `after` says that white space comes
before. -/
def collapse : Bool → List Char → List Char
  | _, [] => []
  | after, c :: cs =>
    if isSpace c then (if after then [] else [' ']) ++ collapse true cs
    else c :: collapse false cs

/-- A text ends with white space; `after` says that white space comes before. -/
def endsInSpace (after : Bool) (cs : List Char) : Bool := (cs.getLast?.map isSpace).getD after

/-- A token with one space for each run of white space. -/
def Token.collapse : Token → Token
  | literal quote content => .literal quote (CypherTokens.collapse false content)
  | quotedName content => .quotedName (CypherTokens.collapse false content)
  | t => t

/-- A lexeme with one space for each run of white space. -/
def Lexeme.collapse : Lexeme → Lexeme
  | token t => .token t.collapse
  | l => l

/-- A mode with one space for each run of white space in what is being read. -/
def Mode.collapse : Mode → Mode
  | quoted quote escaped content => .quoted quote escaped (CypherTokens.collapse false content)
  | closedName content => .closedName (CypherTokens.collapse false content)
  | m => m

/-- What the lexer may be reading after a character that is white space, or is not. -/
def Mode.Fits : Bool → Mode → Prop
  | after, .quoted _ escaped content =>
    endsInSpace false content = after ∧ (after = true → escaped = false)
  | true, m => m = .between ∨ m = .lineComment ∨ m = .blockComment false
  | false, _ => True

theorem endsInSpace_concat (after : Bool) (cs : List Char) (c : Char) :
    endsInSpace after (cs ++ [c]) = isSpace c := by
  simp [endsInSpace]

theorem endsInSpace_cons (after : Bool) (c : Char) (cs : List Char) :
    endsInSpace after (c :: cs) = endsInSpace (isSpace c) cs := by
  rw [endsInSpace, endsInSpace, List.getLast?_cons]
  cases cs.getLast? <;> rfl

theorem collapse_concat (after : Bool) (cs : List Char) (c : Char) :
    collapse after (cs ++ [c]) =
      collapse after cs ++
        (if isSpace c then (if endsInSpace after cs then [] else [' ']) else [c]) := by
  induction cs generalizing after with
  | nil => cases after <;> simp [collapse, endsInSpace]
  | cons d cs ih =>
    rw [List.cons_append, collapse, collapse, endsInSpace_cons]
    split
    · next hd => rw [ih, hd, List.append_assoc]
    · next hd => rw [ih, Bool.eq_false_iff.mpr hd, List.cons_append]

@[simp] theorem collapse_wordToken (cs : List Char) :
    (T.wordToken cs).collapse = T.wordToken cs := by
  unfold Tables.wordToken
  split <;> rfl

@[simp] theorem collapse_start (c : Char) : (T.start c).collapse = T.start c := by
  unfold Tables.start
  split_ifs <;> rfl

@[simp] theorem start_of_space {c : Char} (h : isSpace c = true) : T.start c = .between := by
  rw [Tables.start, if_pos h]

theorem fits_start (c : Char) : (T.start c).Fits (isSpace c) := by
  unfold Tables.start
  split_ifs with h <;> simp [Mode.Fits, h, endsInSpace]

/-! ### White space and the lexer -/

/-- White space does not end what is being read. -/
def Mode.IsOpen : Mode → Bool
  | quoted _ _ _ | lineComment | blockComment _ => true
  | _ => false

/-- The mode after white space. -/
def Mode.afterSpace (c : Char) : Mode → Mode
  | quoted quote _ content => .quoted quote false (content ++ [c])
  | lineComment => .lineComment
  | blockComment _ => .blockComment false
  | _ => .between

/-- White space ends what the end of the text ends, unless it is part of it. -/
theorem step_of_space {c : Char} (hc : isSpace c = true) (m : Mode) :
    T.step false m c = (if m.IsOpen then [] else T.finish m, m.afterSpace c) := by
  have hdigit := isDigit_of_space hc
  cases m with
  | between => simp [Tables.step, Tables.finish, Mode.IsOpen, Mode.afterSpace, hc]
  | word cs =>
    simp [Tables.step, Tables.finish, Mode.IsOpen, Mode.afterSpace, hc, T.isNamePart_of_space c hc]
  | number cs =>
    have hplus : c ≠ '+' := ne_of_space hc (by decide)
    have hminus : c ≠ '-' := ne_of_space hc (by decide)
    have hdot : c ≠ '.' := ne_of_space hc (by decide)
    simp [Tables.step, Tables.finish, Mode.IsOpen, Mode.afterSpace, hc, T.isNamePart_of_space c hc,
      hdigit, isExponentSign, hplus, hminus, hdot]
  | numberDot cs =>
    have hdot : c ≠ '.' := ne_of_space hc (by decide)
    simp [Tables.step, Tables.finish, Mode.IsOpen, Mode.afterSpace, hc, hdigit, hdot]
  -- no symbol of two characters, and no comment, has white space for its second character
  | symbol d =>
    have hslash : c ≠ '/' := ne_of_space hc (by decide)
    have hstar : c ≠ '*' := ne_of_space hc (by decide)
    have hpair : isPair d c = false := by
      have heq : c ≠ '=' := ne_of_space hc (by decide)
      have hgt : c ≠ '>' := ne_of_space hc (by decide)
      have htilde : c ≠ '~' := ne_of_space hc (by decide)
      have hdot : c ≠ '.' := ne_of_space hc (by decide)
      simp [isPair, heq, hgt, htilde, hdot]
    simp [Tables.step, Tables.finish, Mode.IsOpen, Mode.afterSpace, hc, hdigit, hslash, hstar,
      hpair]
  -- a quotation mark, a backslash and what is escaped are no white space
  | quoted quote escaped content =>
    have hquote : c ≠ quote.char := ne_of_space hc (by cases quote <;> decide)
    have hslash : c ≠ '\\' := ne_of_space hc (by decide)
    cases escaped <;> simp [Tables.step, Mode.IsOpen, Mode.afterSpace, hquote, hslash]
  | closedName content =>
    have hback : c ≠ '`' := ne_of_space hc (by decide)
    simp [Tables.step, Tables.finish, Mode.IsOpen, Mode.afterSpace, hc, hback]
  | lineComment => simp [Tables.step, Mode.IsOpen, Mode.afterSpace]
  | blockComment star =>
    have hslash : c ≠ '/' := ne_of_space hc (by decide)
    have hstar : c ≠ '*' := ne_of_space hc (by decide)
    simp [Tables.step, Mode.IsOpen, Mode.afterSpace, hslash, hstar]

/-- Other characters are read in a mode that is collapsed as they are in the mode. -/
theorem step_collapse {c : Char} (hc : isSpace c = false) (m : Mode) :
    T.step false m.collapse c =
      ((T.step false m c).1.map Lexeme.collapse, (T.step false m c).2.collapse) := by
  have hconcat (content : List Char) : collapse false (content ++ [c]) =
      collapse false content ++ [c] := by
    rw [collapse_concat, if_neg (by simp [hc])]
  -- what has been read of a literal or a name is collapsed with what follows; the other modes are
  -- the same when they are collapsed
  cases m with
  | between =>
    change ([], T.start c) = ([], (T.start c).collapse)
    rw [collapse_start]
  | word cs =>
    change T.step false (.word cs) c = _
    simp only [Tables.step]
    split_ifs
    · rfl
    · rw [collapse_start, List.map_singleton, Lexeme.collapse, collapse_wordToken]
  | number cs =>
    change T.step false (.number cs) c = _
    simp only [Tables.step]
    split_ifs
    · rfl
    · rfl
    · rw [collapse_start]; rfl
  | numberDot cs =>
    change T.step false (.numberDot cs) c = _
    simp only [Tables.step]
    split_ifs
    · rfl
    · rfl
    · rw [collapse_start]; rfl
  | symbol d =>
    change T.step false (.symbol d) c = _
    simp only [Tables.step]
    split_ifs
    · rfl
    · rfl
    · rfl
    · rfl
    · rw [collapse_start]; rfl
  | quoted quote escaped content =>
    change T.step false (.quoted quote escaped (collapse false content)) c = _
    simp only [Tables.step]
    split_ifs
    · rw [← hconcat]; rfl
    · cases quote <;> rfl
    · rw [← hconcat]; rfl
  | closedName content =>
    change T.step false (.closedName (collapse false content)) c = _
    simp only [Tables.step]
    split_ifs with hback
    · rw [← hback, ← hconcat]; rfl
    · rw [collapse_start]; rfl
  | lineComment => rfl
  | blockComment star =>
    change T.step false (.blockComment star) c = _
    simp only [Tables.step]
    split_ifs <;> rfl

theorem fits_step (m : Mode) (c : Char) : (T.step false m c).2.Fits (isSpace c) := by
  by_cases hc : isSpace c = true
  · rw [step_of_space T hc, hc]
    cases m <;> simp [Mode.afterSpace, Mode.Fits, endsInSpace_concat, hc]
  · rw [Bool.not_eq_true] at hc
    rw [hc]
    have hstart := fits_start T c
    rw [hc] at hstart
    cases m with
    -- the text that has been read ends with the character
    | quoted quote escaped content =>
      simp only [Tables.step]
      split_ifs
      · simp [Mode.Fits, endsInSpace_concat, hc]
      · cases quote <;> simp [Mode.Fits]
      · simp [Mode.Fits, endsInSpace_concat, hc]
    | closedName content =>
      simp only [Tables.step]
      split_ifs
      · simp [Mode.Fits, endsInSpace_concat]; decide
      · exact hstart
    | between => exact hstart
    | word cs => simp only [Tables.step]; split_ifs <;> first | exact hstart | trivial
    | number cs => simp only [Tables.step]; split_ifs <;> first | exact hstart | trivial
    | numberDot cs => simp only [Tables.step]; split_ifs <;> first | exact hstart | trivial
    | symbol d => simp only [Tables.step]; split_ifs <;> first | exact hstart | trivial
    | lineComment => trivial
    | blockComment star => simp only [Tables.step]; split_ifs <;> trivial

theorem finish_collapse (m : Mode) : T.finish m.collapse = (T.finish m).map Lexeme.collapse := by
  cases m with
  | word cs =>
    change [Lexeme.token (T.wordToken cs)] = [.token (T.wordToken cs).collapse]
    rw [collapse_wordToken]
  | _ => rfl

/-- White space in a mode that is collapsed is one space, after other characters. -/
theorem step_collapse_space {c : Char} (hc : isSpace c = true) {m : Mode} (hm : m.Fits false) :
    T.step false m.collapse ' ' =
      ((T.step false m c).1.map Lexeme.collapse, (T.step false m c).2.collapse) := by
  have hopen : m.collapse.IsOpen = m.IsOpen := by cases m <;> rfl
  have hafter : m.collapse.afterSpace ' ' = (m.afterSpace c).collapse := by
    cases m with
    | quoted quote escaped content =>
      have hend : endsInSpace false content = false := hm.1
      simp [Mode.collapse, Mode.afterSpace, collapse_concat, hc, hend]
    | _ => rfl
  rw [step_of_space T (by decide), step_of_space T hc, hopen, hafter, finish_collapse]
  split <;> rfl

/-- White space after white space changes nothing in a mode that is collapsed. -/
theorem step_space_of_fits {c : Char} (hc : isSpace c = true) {m : Mode} (hm : m.Fits true) :
    (T.step false m c).1 = [] ∧ (T.step false m c).2.collapse = m.collapse := by
  rw [step_of_space T hc]
  cases m with
  | quoted quote escaped content =>
    obtain ⟨hend, hescaped⟩ := hm
    rw [hescaped rfl]
    simp [Mode.IsOpen, Mode.afterSpace, Mode.collapse, collapse_concat, hc, hend]
  | between | lineComment => exact ⟨rfl, rfl⟩
  | blockComment star =>
    obtain h | h | h := hm <;> cases h
    exact ⟨rfl, rfl⟩
  | _ => obtain h | h | h := hm <;> cases h

/-- White space at the end of a text is not read. -/
theorem finish_step_space {c : Char} (hc : isSpace c = true) (m : Mode) :
    (T.step false m c).1 ++ T.finish (T.step false m c).2 = T.finish m := by
  rw [step_of_space T hc]
  cases m <;> simp [Mode.IsOpen, Mode.afterSpace, Tables.finish]

/-- What is left of a text is read, when it is squeezed, as it was: after other characters, and
after white space that has not been written. -/
theorem scan_squeeze_both (cs : List Char) :
    (∀ m, m.Fits false →
      T.scan false m.collapse (squeeze false cs) = (T.scan false m cs).map Lexeme.collapse) ∧
    ∀ m c m', m.Fits false → isSpace c = true → m'.Fits true →
      m'.collapse = (T.step false m c).2.collapse →
      T.scan false m.collapse (squeeze true cs) =
        ((T.step false m c).1 ++ T.scan false m' cs).map Lexeme.collapse := by
  -- white space is written with the character after it, so one part needs the other
  induction cs with
  | nil =>
    refine ⟨fun m _ => finish_collapse T m, ?_⟩
    intro m c m' _ hc _ hsame
    simp only [squeeze, Tables.scan, List.map_append]
    rw [finish_collapse T m, ← finish_collapse T m', hsame, finish_collapse T (T.step false m c).2,
      ← List.map_append, finish_step_space T hc]
  | cons d cs ih =>
    obtain ⟨ihother, ihspace⟩ := ih
    have hfits (m : Mode) := fits_step T m d
    by_cases hd : isSpace d = true
    · simp only [squeeze, hd, if_true]
      rw [hd] at hfits
      refine ⟨fun m hm => ihspace m d _ hm hd (hfits m) rfl, ?_⟩
      intro m c m' hm hc hm' hsame
      obtain ⟨hnone, hcollapse⟩ := step_space_of_fits T hd hm'
      -- the white space that comes now is not written, and is read as nothing
      rw [ihspace m c _ hm hc (hfits m') (hcollapse.trans hsame), Tables.scan, hnone,
        List.nil_append]
    · rw [Bool.not_eq_true] at hd
      rw [hd] at hfits
      simp only [squeeze, hd, Bool.false_eq_true, if_false, if_true, List.cons_append,
        List.nil_append, Tables.scan, List.map_append]
      refine ⟨fun m _ => ?_, fun m c m' hm hc _ hsame => ?_⟩
      · rw [step_collapse T hd, ihother _ (hfits m)]
      · -- the space is read as the white space was, and the mode is the same but for its spaces
        rw [step_collapse_space T hc hm, ← hsame, step_collapse T hd, ihother _ (hfits m')]

/-- **What a text is read as, when it is squeezed and line comments have no end.** -/
theorem scan_squeeze (cs : List Char) :
    T.scan false .between (squeeze false (cs.dropWhile isSpace)) =
      (T.scan false .between cs).map Lexeme.collapse := by
  induction cs with
  | nil => rfl
  | cons c cs ih =>
    by_cases hc : isSpace c = true
    · rw [List.dropWhile_cons_of_pos hc, ih, Tables.scan, step_of_space T hc]
      rfl
    · rw [List.dropWhile_cons_of_neg hc]
      exact (scan_squeeze_both T (c :: cs)).1 .between trivial

/-! ### Line comments -/

/-- The lexemes up to the first line comment. -/
def upToComment : List Lexeme → List Lexeme
  | [] => []
  | .lineComment :: _ => [.lineComment]
  | l :: ls => l :: upToComment ls

/-- The lexemes after the first line comment. -/
def afterComment : List Lexeme → List Lexeme
  | [] => []
  | .lineComment :: ls => ls
  | _ :: ls => afterComment ls

theorem upToComment_append_afterComment (ls : List Lexeme) :
    upToComment ls ++ afterComment ls = ls := by
  induction ls with
  | nil => rfl
  | cons l ls ih => cases l <;> simp [upToComment, afterComment, ih]

theorem upToComment_append {ls : List Lexeme} (h : .lineComment ∉ ls) (ls' : List Lexeme) :
    upToComment (ls ++ ls') = ls ++ upToComment ls' := by
  induction ls with
  | nil => rfl
  | cons l ls ih =>
    rw [List.mem_cons, not_or] at h
    cases l with
    | lineComment => exact absurd rfl h.1
    | _ => rw [List.cons_append, upToComment, ih h.2, List.cons_append]; simp

theorem lineComment_notMem_step {m : Mode} (hm : m ≠ .lineComment) (ends : Bool) (c : Char) :
    .lineComment ∉ (T.step ends m c).1 := by
  cases m with
  | between => exact List.not_mem_nil
  | lineComment => exact absurd rfl hm
  | quoted quote escaped content =>
    simp only [Tables.step]
    split_ifs
    · simp
    · cases quote <;> simp
    · simp
  | _ =>
    simp only [Tables.step]
    split_ifs <;> simp

theorem upToComment_finish (m : Mode) : upToComment (T.finish m) = T.finish m := by
  cases m <;> rfl

theorem step_ends {m : Mode} (hm : m ≠ .lineComment) (c : Char) :
    T.step true m c = T.step false m c := by
  cases m with
  | lineComment => exact absurd rfl hm
  | _ => rfl

theorem scan_lineComment (cs : List Char) : T.scan false .lineComment cs = [.lineComment] := by
  induction cs with
  | nil => rfl
  | cons c cs ih => exact ih

/-- When line comments have no end, a text is read up to the first one. -/
theorem scan_eq_upToComment (m : Mode) (cs : List Char) :
    T.scan false m cs = upToComment (T.scan true m cs) := by
  induction cs generalizing m with
  | nil => exact (upToComment_finish T m).symm
  | cons c cs ih =>
    rw [Tables.scan, Tables.scan]
    by_cases hm : m = .lineComment
    -- in a comment: what follows the end of its line is not read
    · subst hm
      by_cases hend : isLineEnd c = true
      · simp [Tables.step, hend, upToComment, scan_lineComment]
      · simp [Tables.step, hend, ih]
    · rw [step_ends T hm, upToComment_append (lineComment_notMem_step T hm false c), ih]

/-- In a text that is one line, line comments have no end. -/
theorem scan_of_oneLine (m : Mode) {cs : List Char} (h : ∀ c ∈ cs, isLineEnd c = false) :
    T.scan true m cs = T.scan false m cs := by
  induction cs generalizing m with
  | nil => rfl
  | cons c cs ih =>
    rw [List.forall_mem_cons] at h
    have hstep : T.step true m c = T.step false m c := by
      by_cases hm : m = .lineComment
      · subst hm
        simp [Tables.step, h.1]
      · exact step_ends T hm c
    rw [Tables.scan, Tables.scan, hstep, ih _ h.2]

theorem isLineEnd_of_mem_squeeze (pending : Bool) (cs : List Char) :
    ∀ c ∈ squeeze pending cs, isLineEnd c = false := by
  induction cs generalizing pending with
  | nil => simp [squeeze]
  | cons d cs ih =>
    by_cases hd : isSpace d = true
    · simpa [squeeze, hd] using ih true
    · have hend : isLineEnd d = false := by
        rw [Bool.eq_false_iff]
        intro h
        obtain rfl | rfl : d = '\n' ∨ d = '\r' := by simpa [isLineEnd] using h
        all_goals exact hd rfl
      intro c hc
      rw [squeeze, if_neg hd, List.mem_append] at hc
      obtain hc | hc := hc
      · cases pending <;> simp at hc
        · rw [hc, hend]
        · obtain rfl | rfl := hc
          · rfl
          · exact hend
      · exact ih false c hc

/-- What a text that is squeezed is read as. -/
theorem lex_squeeze (cs : List Char) :
    T.lex (squeeze false (cs.dropWhile isSpace)) =
      (upToComment (T.lex cs)).map Lexeme.collapse := by
  rw [Tables.lex, scan_of_oneLine T _ (isLineEnd_of_mem_squeeze _ _), scan_squeeze,
    scan_eq_upToComment, Tables.lex]

/-! ### What keeps the tokens -/

/-- The white space of a text is single spaces. -/
def SingleSpaces (cs : List Char) : Prop :=
  (∀ c ∈ cs, isSpace c = true → c = ' ') ∧ ¬ [' ', ' '] <:+: cs

/-- The characters of the text are tried, not all characters there are. -/
instance (cs : List Char) : Decidable (SingleSpaces cs) :=
  have := List.decidableBAll (fun c => isSpace c = true → c = ' ') cs
  instDecidableAnd

/-- What is between the quotation marks of a token. -/
def Token.content : Token → List Char
  | literal _ content | quotedName content => content
  | _ => []

/-- White space may be squeezed without a change of the tokens: the literals and the quoted names
have single spaces only, and no token comes after a line comment. -/
structure Tables.KeepsTokens (cs : List Char) : Prop where
  singleSpaces : ∀ t ∈ T.tokens cs, SingleSpaces t.content
  commentLast : (afterComment (T.lex cs)).filterMap Lexeme.token? = []

instance (cs : List Char) : Decidable (T.KeepsTokens cs) :=
  decidable_of_iff
    ((∀ t ∈ T.tokens cs, SingleSpaces t.content) ∧
      (afterComment (T.lex cs)).filterMap Lexeme.token? = [])
    ⟨fun h => ⟨h.1, h.2⟩, fun h => ⟨h.singleSpaces, h.commentLast⟩⟩

theorem length_collapse_le (after : Bool) (cs : List Char) :
    (collapse after cs).length ≤ cs.length := by
  induction cs generalizing after with
  | nil => exact Nat.le_refl _
  | cons c cs ih =>
    have hother := ih false
    have hspace := ih true
    unfold collapse
    split
    · cases after <;> simp <;> omega
    · simpa using hother

/-- A text is as it was when it has single spaces only, and none after white space. -/
theorem collapse_eq_self_iff_of_after (after : Bool) (cs : List Char) :
    collapse after cs = cs ↔
      SingleSpaces cs ∧ (after = true → ∀ c ∈ cs.head?, isSpace c = false) := by
  induction cs generalizing after with
  | nil => simp [collapse, SingleSpaces]
  | cons c cs ih =>
    have hsingle : SingleSpaces (c :: cs) ↔
        (isSpace c = true → c = ' ') ∧ ¬ (' ' = c ∧ [' '] <+: cs) ∧ SingleSpaces cs := by
      rw [SingleSpaces, SingleSpaces, List.infix_cons_iff, List.cons_prefix_cons,
        List.forall_mem_cons, not_or, and_and_and_comm, and_assoc]
    by_cases hc : isSpace c = true
    · cases after with
      | true =>
        -- this white space is dropped, so the text gets shorter
        have hle := length_collapse_le true cs
        refine iff_of_false (fun h => ?_) (fun h => ?_)
        · have hlength := congrArg List.length h
          simp [collapse, hc] at hlength
          omega
        · have hhead := h.2 rfl c rfl
          rw [hc] at hhead
          cases hhead
      | false =>
        have hcollapse : collapse false (c :: cs) = ' ' :: collapse true cs := by
          simp [collapse, hc]
        rw [hcollapse, List.cons.injEq, ih, hsingle]
        -- the next character is no white space exactly when it is no space
        have hnext : SingleSpaces cs →
            ((∀ d ∈ cs.head?, isSpace d = false) ↔ ¬ [' '] <+: cs) := by
          intro hcs
          cases cs with
          | nil => simp
          | cons d cs =>
            rw [List.cons_prefix_cons]
            have hspace : isSpace d = true ↔ ' ' = d :=
              ⟨fun h => (hcs.1 d List.mem_cons_self h).symm, fun h => h ▸ rfl⟩
            simp [← hspace]
        constructor
        · rintro ⟨rfl, hcs, hhead⟩
          exact ⟨⟨fun _ => rfl, fun h => (hnext hcs).mp (hhead rfl) h.2, hcs⟩, nofun⟩
        · rintro ⟨⟨hblank, hpair, hcs⟩, -⟩
          have heq : ' ' = c := (hblank hc).symm
          exact ⟨heq, hcs, fun _ => (hnext hcs).mpr fun h => hpair ⟨heq, h⟩⟩
    · have hne : ' ' ≠ c := fun h => hc (h ▸ rfl)
      have hcollapse : collapse after (c :: cs) = c :: collapse false cs := by
        simp [collapse, hc]
      rw [hcollapse, List.cons.injEq, ih, hsingle]
      simp [hne, hc]

theorem collapse_eq_self_iff (cs : List Char) : collapse false cs = cs ↔ SingleSpaces cs := by
  simp [collapse_eq_self_iff_of_after]

theorem token_collapse_eq_self_iff (t : Token) : t.collapse = t ↔ SingleSpaces t.content := by
  cases t with
  | literal quote content => simp [Token.collapse, Token.content, collapse_eq_self_iff]
  | quotedName content => simp [Token.collapse, Token.content, collapse_eq_self_iff]
  | _ => simp [Token.collapse, Token.content, SingleSpaces]

theorem token?_collapse (l : Lexeme) : l.collapse.token? = l.token?.map Token.collapse := by
  cases l <;> rfl

/-- The tokens of a text, in front of the first line comment and after it. -/
theorem tokens_eq_append (cs : List Char) :
    T.tokens cs = (upToComment (T.lex cs)).filterMap Lexeme.token? ++
      (afterComment (T.lex cs)).filterMap Lexeme.token? := by
  rw [← List.filterMap_append, upToComment_append_afterComment, Tables.tokens]

/-- The tokens of a text that is squeezed are those in front of the first line comment, with one
space for each run of white space. -/
theorem tokens_squeeze (cs : List Char) :
    T.tokens (squeeze false (cs.dropWhile isSpace)) =
      ((upToComment (T.lex cs)).filterMap Lexeme.token?).map Token.collapse := by
  rw [Tables.tokens, lex_squeeze, List.filterMap_map, List.map_filterMap]
  congr 1
  funext l
  exact token?_collapse l

/-- **A text that is squeezed has the tokens it had exactly when the literals and the quoted names
have single spaces only, and no token comes after a line comment.** -/
theorem tokens_squeeze_iff (cs : List Char) :
    T.tokens (squeeze false (cs.dropWhile isSpace)) = T.tokens cs ↔ T.KeepsTokens cs := by
  rw [tokens_squeeze]
  have hparts := tokens_eq_append T cs
  constructor
  · intro h
    -- as many tokens come before the first line comment as in the whole text
    have hnone : (afterComment (T.lex cs)).filterMap Lexeme.token? = [] := by
      have hlength := congrArg List.length h
      rw [hparts, List.length_map, List.length_append] at hlength
      exact List.length_eq_zero_iff.mp (by omega)
    refine ⟨fun t ht => ?_, hnone⟩
    rw [hnone, List.append_nil] at hparts
    rw [hparts] at h ht
    have hself := List.map_inj_left.mp (h.trans (List.map_id _).symm)
    exact (token_collapse_eq_self_iff t).mp (hself t ht)
  · rintro ⟨hsingle, hnone⟩
    rw [hnone, List.append_nil] at hparts
    rw [hparts] at hsingle ⊢
    refine (List.map_congr_left fun t ht => ?_).trans (List.map_id _)
    exact (token_collapse_eq_self_iff t).mpr (hsingle t ht)

end CypherTokens
