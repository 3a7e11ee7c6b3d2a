import KuzuEventBus.Gql.Lexemes
import KuzuEventBus.Gql.ParserAccepts

/-!
# Printed expressions

An expression printed with each operator inside parentheses of its own is read back
as it was.  Between the tokens there may be white space, and needs to be none except
around the operators that are words, so that the symbols next to each other are told
apart by the lexer alone.

## Main definitions

* `CharTables.Standard` — what the Unicode tables say of ASCII characters and white space.
* `IsName`, `Expr.Printable` — the identifiers and expressions that can be written.
* `Expr.print`, `Expr.tokens` — the text of an expression, and its tokens.
* `runExprParser` — the expression of a text.

## Main results

* `prints_print` — the text of an expression is read as its tokens.
* `primaryPhrase_tokens` — its tokens are a primary expression that means it.
* `runExprParser_print` — **an expression is read back from its text**.
-/

namespace KuzuEventBus

open Parsing Phrase Text

/-- The Unicode tables on ASCII characters, and on white space. -/
structure CharTables.Standard (tables : CharTables) : Prop where
  isAlphabetic : ∀ c : Char, c.toNat < 128 → tables.isAlphabetic c = c.isAlpha
  isNumeric : ∀ c : Char, c.toNat < 128 → tables.isNumeric c = c.isDigit
  space : ∀ c : Char, isWhiteSpace c = true → tables.isAlphanumeric c = false
  toUppercase : ∀ s : String, (∀ c ∈ s.toList, c.toNat < 128) →
    tables.toUppercase s = CharTables.ascii.toUppercase s

/-- An identifier begins with a letter or an underscore. -/
def isIdentStart (tables : CharTables) (c : Char) : Bool := tables.isAlphabetic c || c == '_'

/-- A name that can be written: letters, digits and underscores, not a digit first, and no
keyword. -/
structure IsName (tables : CharTables) (name : String) : Prop where
  start : ∀ c ∈ name.toList.head?, isIdentStart tables c = true
  chars : ∀ c ∈ name.toList, isIdentChar tables c = true
  ne : name.toList ≠ []
  noKeyword : keywords.lookup (tables.toUppercase name) = none

instance (tables : CharTables) (name : String) : Decidable (IsName tables name) :=
  decidable_of_iff ((∀ c ∈ name.toList.head?, isIdentStart tables c = true) ∧
      (∀ c ∈ name.toList, isIdentChar tables c = true) ∧ name.toList ≠ [] ∧
      keywords.lookup (tables.toUppercase name) = none)
    ⟨fun ⟨hstart, hchars, hne, hkeyword⟩ => ⟨hstart, hchars, hne, hkeyword⟩,
      fun ⟨hstart, hchars, hne, hkeyword⟩ => ⟨hstart, hchars, hne, hkeyword⟩⟩

/-! ### The text of an expression -/

/-- The words for the literals that have one. -/
def boolWord (b : Bool) : List Char := if b then ['T', 'R', 'U', 'E'] else ['F', 'A', 'L', 'S', 'E']

/-- The text of a literal. -/
def Literal.print : Literal → List Char
  | .string s => '\x27' :: (s.toList ++ ['\x27'])
  | .int i => i.toInt.toNat.repr.toList
  | .float f => (toString f).toList
  | .bool b => boolWord b
  | .null => ['N', 'U', 'L', 'L']

/-- The name of an aggregate function. -/
def AggFunc.print : AggFunc → List Char
  | .count => ['C', 'O', 'U', 'N', 'T']
  | .sum => ['S', 'U', 'M']
  | .avg => ['A', 'V', 'G']
  | .min => ['M', 'I', 'N']
  | .max => ['M', 'A', 'X']

/-- The token of a binary operator. -/
def BinOp.token : BinOp → Token
  | .eq => .eq
  | .ne => .ne
  | .lt => .lt
  | .le => .le
  | .gt => .gt
  | .ge => .ge
  | .and => .andKw
  | .or => .orKw
  | .add => .plus
  | .sub => .minus
  | .mul => .star
  | .div => .slash

/-- The symbol or word of a binary operator. -/
def BinOp.text : BinOp → List Char
  | .eq => ['=']
  | .ne => ['!', '=']
  | .lt => ['<']
  | .le => ['<', '=']
  | .gt => ['>']
  | .ge => ['>', '=']
  | .and => ['A', 'N', 'D']
  | .or => ['O', 'R']
  | .add => ['+']
  | .sub => ['-']
  | .mul => ['*']
  | .div => ['/']

/-- The white space around a binary operator: `gap` around a symbol, a space around a word. -/
def BinOp.space (gap : List Char) : BinOp → List Char
  | .and | .or => [' ']
  | _ => gap

/-- The text of a binary operator. -/
def BinOp.print (gap : List Char) (op : BinOp) : List Char :=
  op.space gap ++ (op.text ++ op.space gap)

/-- A text in parentheses. -/
def parens (gap text : List Char) : List Char := '(' :: (gap ++ (text ++ (gap ++ [')'])))

mutual

/-- The text of an expression without EXISTS, with `gap` between its tokens. -/
def Expr.print (gap : List Char) : Expr → List Char
  | .literal l => l.print
  | .ident name => name.toList
  | .property var prop => var.toList ++ '.' :: prop.toList
  | .parameter name => '$' :: name.toList
  | .binaryOp left op right => parens gap (left.print gap ++ (op.print gap ++ right.print gap))
  | .unaryOp .not e => parens gap ('N' :: 'O' :: 'T' :: ' ' :: e.print gap)
  | .aggregate func arg => func.print ++ parens gap (arg.print gap)
  | .functionCall name args => name.toList ++ parens gap (printArgs gap args)
  | .isNull e => parens gap (e.print gap ++ [' ', 'I', 'S', ' ', 'N', 'U', 'L', 'L'])
  | .isNotNull e =>
    parens gap (e.print gap ++ [' ', 'I', 'S', ' ', 'N', 'O', 'T', ' ', 'N', 'U', 'L', 'L'])
  | .exists _ => []

/-- The text of the arguments of a call. -/
def printArgs (gap : List Char) : List Expr → List Char
  | [] => []
  | e :: es => e.print gap ++ printMoreArgs gap es

/-- The text of the arguments after the first one. -/
def printMoreArgs (gap : List Char) : List Expr → List Char
  | [] => []
  | e :: es => ',' :: (gap ++ (e.print gap ++ printMoreArgs gap es))

end

/-! ### The tokens of an expression -/

/-- The token of a literal. -/
def Literal.token : Literal → Token
  | .string s => .string s
  | .int i => .int i
  | .float f => .float f
  | .bool b => if b then .trueKw else .falseKw
  | .null => .nullKw

mutual

/-- The tokens of an expression without EXISTS. -/
def Expr.tokens : Expr → List Token
  | .literal l => [l.token]
  | .ident name => [.ident name]
  | .property var prop => [.ident var, .dot, .ident prop]
  | .parameter name => [.dollar, .ident name]
  | .binaryOp left op right =>
    .leftParen :: (left.tokens ++ op.token :: right.tokens ++ [.rightParen])
  | .unaryOp .not e => .leftParen :: (.notKw :: e.tokens ++ [.rightParen])
  | .aggregate func arg =>
    .ident (String.ofList func.print) :: .leftParen :: (arg.tokens ++ [.rightParen])
  | .functionCall name args => .ident name :: .leftParen :: (argsTokens args ++ [.rightParen])
  | .isNull e => .leftParen :: (e.tokens ++ [.isKw, .nullKw] ++ [.rightParen])
  | .isNotNull e => .leftParen :: (e.tokens ++ [.isKw, .notKw, .nullKw] ++ [.rightParen])
  | .exists _ => []

/-- The tokens of the arguments of a call. -/
def argsTokens : List Expr → List Token
  | [] => []
  | e :: es => e.tokens ++ moreArgsTokens es

/-- The tokens of the arguments after the first one. -/
def moreArgsTokens : List Expr → List Token
  | [] => []
  | e :: es => .comma :: (e.tokens ++ moreArgsTokens es)

end

/-! ### Expressions that can be written -/

/-- A literal that can be written: a string without quotes, an integer that is not negative, or
a word. -/
def Literal.Printable : Literal → Prop
  | .string s => '\x27' ∉ s.toList
  | .int i => 0 ≤ i.toInt
  | .float _ => False
  | .bool _ | .null => True

mutual

/-- An expression without EXISTS, of names and literals that can be written, and no call of a
function by the name of an aggregate. -/
def Expr.Printable (tables : CharTables) : Expr → Prop
  | .literal l => l.Printable
  | .ident name | .parameter name => IsName tables name
  | .property var prop => IsName tables var ∧ IsName tables prop
  | .binaryOp left _ right => left.Printable tables ∧ right.Printable tables
  | .unaryOp _ e | .aggregate _ e | .isNull e | .isNotNull e => e.Printable tables
  | .functionCall name args =>
    IsName tables name ∧ aggFunc? (tables.toUppercase name) = none ∧ ArgsPrintable tables args
  | .exists _ => False

/-- … of the arguments of a call. -/
def ArgsPrintable (tables : CharTables) : List Expr → Prop
  | [] => True
  | e :: es => e.Printable tables ∧ ArgsPrintable tables es

end

/-- `Parser::new` and `parse_expr`: the expression of a text, and the tokens after it. -/
def runExprParser (tables : CharTables) (input : List Char) : Except Fault (Expr × List Token) := do
  let tokens ← tokenize tables input
  parseExpr (parsePrimary tables (tokens.length + 1)) tokens

/-! ### The tokens of a text -/

section
variable {tables : CharTables}

/-- The text begins with nothing a word or a number goes on with. -/
def Closes (tables : CharTables) (rest : List Char) : Prop :=
  ∀ c ∈ rest.head?, isIdentChar tables c = false ∧ c.isDigit = false ∧ c ≠ '.'

/-- The text is read as the tokens wherever such a text follows it. -/
def Prints (tables : CharTables) (text : List Char) (tokens : List Token) : Prop :=
  ∀ rest, Closes tables rest → Spells tables text tokens rest

theorem closes_cons {c : Char} {rest : List Char} : Closes tables (c :: rest) ↔
    isIdentChar tables c = false ∧ c.isDigit = false ∧ c ≠ '.' := by
  simp [Closes]

theorem isAlpha_of_isDigit {c : Char} (h : c.isDigit = true) : c.isAlpha = false := by
  have hdigit : 48 ≤ c.toNat ∧ c.toNat ≤ 57 := Char.isDigit_iff_toNat.mp h
  rw [Bool.eq_false_iff, ne_eq, isAlpha_iff_toNat]
  omega

theorem CharTables.Standard.isDigit_eq (h : tables.Standard) {c : Char}
    (hc : tables.isAlphanumeric c = false) : c.isDigit = false := by
  rw [isAlphanumeric, Bool.or_eq_false_iff] at hc
  by_contra hdigit
  rw [Bool.not_eq_false] at hdigit
  rw [h.isNumeric c (by have := toNat_of_isDigit hdigit; omega), hdigit] at hc
  cases hc.2

/-- Symbols are no characters of identifiers. -/
theorem CharTables.Standard.symbol (h : tables.Standard) {c : Char} (hc : c ∈ symbolChars) :
    isIdentChar tables c = false := by
  have hall : ∀ d ∈ symbolChars, d.toNat < 128 ∧ d.isAlpha = false ∧ d.isDigit = false ∧
      (d == '_') = false := by decide
  obtain ⟨hlt, halpha, hdigit, hne⟩ := hall c hc
  rw [isIdentChar, isAlphanumeric, h.isAlphabetic c hlt, h.isNumeric c hlt, halpha, hdigit, hne]
  rfl

/-- Nor is white space. -/
theorem CharTables.Standard.isIdentChar_space (h : tables.Standard) {c : Char}
    (hc : isWhiteSpace c = true) : isIdentChar tables c = false := by
  rw [isIdentChar, h.space c hc, Bool.false_or, beq_eq_false_iff_ne]
  rintro rfl
  cases hc

/-- A symbol or white space closes what is before it. -/
theorem CharTables.Standard.closes_symbol (h : tables.Standard) {c : Char}
    (hc : c ∈ symbolChars ∨ isWhiteSpace c = true) (hdot : c ≠ '.') (rest : List Char) :
    Closes tables (c :: rest) := by
  have hident : isIdentChar tables c = false := hc.elim h.symbol h.isIdentChar_space
  have hnum := hident
  rw [isIdentChar, Bool.or_eq_false_iff] at hnum
  exact closes_cons.mpr ⟨hident, h.isDigit_eq hnum.1, hdot⟩

/-- The first character of a name is no symbol, no digit and no white space. -/
theorem CharTables.Standard.not_symbol (h : tables.Standard) {c : Char}
    (hc : isIdentStart tables c = true) :
    isWhiteSpace c = false ∧ c ∉ symbolChars ∧ c.isDigit = false := by
  have hident : isIdentChar tables c = true := by
    rw [isIdentStart, Bool.or_eq_true] at hc
    rw [isIdentChar, isAlphanumeric, Bool.or_eq_true, Bool.or_eq_true]
    exact hc.imp_left .inl
  refine ⟨?_, ?_, ?_⟩
  · by_contra hws
    rw [h.isIdentChar_space (Bool.not_eq_false _ ▸ hws)] at hident
    cases hident
  · intro hsym
    rw [h.symbol hsym] at hident
    cases hident
  · by_contra hdigit
    rw [Bool.not_eq_false] at hdigit
    rw [isIdentStart, h.isAlphabetic c (by have := toNat_of_isDigit hdigit; omega),
      isAlpha_of_isDigit hdigit,
      Bool.false_or, beq_iff_eq] at hc
    subst hc
    cases hdigit

/-- A text of identifier characters is one word. -/
theorem spells_word (h : tables.Standard) {word rest : List Char} (hne : word ≠ [])
    (hstart : ∀ c ∈ word.head?, isIdentStart tables c = true)
    (hchars : ∀ c ∈ word, isIdentChar tables c = true)
    (hrest : ∀ c ∈ rest.head?, isIdentChar tables c = false) :
    Spells tables word [(keywords.lookup (tables.toUppercase (String.ofList word))).getD
      (.ident (String.ofList word))] rest := by
  have hread : readWord tables word = ((keywords.lookup (tables.toUppercase
      (String.ofList word))).getD (.ident (String.ofList word)), []) := by
    unfold readWord
    rw [List.takeWhile_eq_self_iff.mpr hchars, List.dropWhile_eq_nil_iff.mpr hchars]
  have hnext : nextToken tables word = .ok (some (readWord tables word)) := by
    cases word with
    | nil => exact absurd rfl hne
    | cons c cs =>
      have hc := hstart c rfl
      obtain ⟨hws, hsym, hdigit⟩ := h.not_symbol hc
      rw [isIdentStart] at hc
      rw [nextToken_eq_of_not_symbol hws hsym, hdigit, if_neg Bool.false_ne_true, if_pos hc]
  refine .of_stops (hread ▸ hnext) fun c hc => ?_
  have hgoes : (readWord tables word).1.goesOn tables c = _ := readWord_goesOn word c
  rw [hread] at hgoes
  rw [hgoes]
  exact hrest c hc

/-- A name that can be written. -/
theorem IsName.spells (h : tables.Standard) {name : String} (hname : IsName tables name)
    {rest : List Char} (hrest : ∀ c ∈ rest.head?, isIdentChar tables c = false) :
    Spells tables name.toList [.ident name] rest := by
  have hword := spells_word h hname.ne hname.start hname.chars hrest
  rw [String.ofList_toList, hname.noKeyword] at hword
  exact hword

theorem IsName.prints (h : tables.Standard) {name : String} (hname : IsName tables name) :
    Prints tables name.toList [.ident name] :=
  fun _ hrest => hname.spells h fun c hc => (hrest c hc).1

theorem toNat_of_isAlpha {c : Char} (h : c.isAlpha = true) : c.toNat < 128 := by
  have := isAlpha_iff_toNat.mp h
  omega

/-- A word of ASCII letters. -/
theorem Prints.asciiWord (h : tables.Standard) {word : List Char} {tok : Token}
    (hword : ∀ c ∈ word, c.isAlpha = true) (hne : word ≠ [])
    (htok : (keywords.lookup (CharTables.ascii.toUppercase (String.ofList word))).getD
      (.ident (String.ofList word)) = tok) : Prints tables word [tok] := by
  have halpha : ∀ c ∈ word, tables.isAlphabetic c = true := by
    intro c hc
    rw [h.isAlphabetic c (toNat_of_isAlpha (hword c hc)), hword c hc]
  have hstart : ∀ c ∈ word.head?, isIdentStart tables c = true := by
    intro c hc
    rw [isIdentStart, halpha c (List.mem_of_mem_head? hc)]
    rfl
  have hchars : ∀ c ∈ word, isIdentChar tables c = true := by
    intro c hc
    rw [isIdentChar, CharTables.isAlphanumeric, halpha c hc]
    rfl
  have hupper : tables.toUppercase (String.ofList word) =
      CharTables.ascii.toUppercase (String.ofList word) := by
    apply h.toUppercase
    rw [String.toList_ofList]
    exact fun c hc => toNat_of_isAlpha (hword c hc)
  intro rest hrest
  have hspells := spells_word h hne hstart hchars fun c hc => (hrest c hc).1
  rw [hupper, htok] at hspells
  exact hspells

/-- A word of the language, in upper case. -/
theorem Prints.upperWord (h : tables.Standard) {word : List Char} {tok : Token}
    (hword : ∀ c ∈ word, c.isUpper = true) (hne : word ≠ [])
    (htok : (keywords.lookup (CharTables.ascii.toUppercase (String.ofList word))).getD
      (.ident (String.ofList word)) = tok) : Prints tables word [tok] := by
  refine .asciiWord h (fun c hc => ?_) hne htok
  exact isAlpha_iff_toNat.mpr (.inl (isUpper_iff_toNat.mp (hword c hc)))

/-- The decimal digits of a number. -/
theorem Prints.number {i : Int64} (hi : 0 ≤ i.toInt) :
    Prints tables i.toInt.toNat.repr.toList [.int i] := by
  have hlt : i.toInt.toNat < 2 ^ 63 := by
    have := i.toInt_lt
    omega
  have hi : Int64.ofNat i.toInt.toNat = i := by
    rw [← Int64.ofInt_eq_ofNat, Int.toNat_of_nonneg hi, Int64.ofInt_toInt]
  have hnext : nextToken tables i.toInt.toNat.repr.toList = _ := nextToken_repr hlt
  rw [hi] at hnext
  intro rest hrest
  refine .of_stops hnext fun c hc => ?_
  obtain ⟨-, hdigit, hdot⟩ := hrest c hc
  simp [Token.goesOn, hdigit, hdot]

/-- A string without quotes, in quotes. -/
theorem Prints.string {s : String} (hs : '\x27' ∉ s.toList) :
    Prints tables ('\x27' :: (s.toList ++ ['\x27'])) [.string s] := by
  have hall : ∀ c ∈ s.toList, (decide (c ≠ '\x27')) = true := by
    intro c hc
    rw [decide_eq_true_eq]
    rintro rfl
    exact hs hc
  have hnext : nextToken tables ('\x27' :: (s.toList ++ ['\x27'])) =
      .ok (some (.string s, [])) := by
    change (readString (s.toList ++ ['\x27'])).map some = _
    unfold readString
    rw [List.dropWhile_append_of_pos hall, List.takeWhile_append_of_pos hall]
    simp
    rfl
  intro rest _
  exact .of_stops hnext fun c _ => rfl

theorem Prints.append {text text' : List Char} {tokens tokens' : List Token}
    (h : Prints tables text tokens) (hcloses : ∀ rest, Closes tables rest →
      Closes tables (text' ++ rest)) (h' : Prints tables text' tokens') :
    Prints tables (text ++ text') (tokens ++ tokens') := fun rest hrest =>
  (h _ (hcloses rest hrest)).append (h' rest hrest)

theorem CharTables.Standard.closes_space (h : tables.Standard) {gap rest : List Char}
    (hgap : ∀ c ∈ gap, isWhiteSpace c = true) (hrest : Closes tables rest) :
    Closes tables (gap ++ rest) := by
  cases gap with
  | nil => exact hrest
  | cons c gap =>
    have hc := hgap c List.mem_cons_self
    refine h.closes_symbol (.inr hc) ?_ _
    rintro rfl
    cases hc

/-- A text in parentheses. -/
theorem Prints.parens (h : tables.Standard) {gap text : List Char} {tokens : List Token}
    (hgap : ∀ c ∈ gap, isWhiteSpace c = true) (htext : Prints tables text tokens) :
    Prints tables (parens gap text) (.leftParen :: (tokens ++ [.rightParen])) := by
  intro rest _
  have hopen : Spells tables ['('] [.leftParen] (gap ++ (text ++ (gap ++ [')'])) ++ rest) :=
    .of_nextToken rfl
  have hclose : Spells tables [')'] [.rightParen] rest := .of_nextToken rfl
  have hend : Closes tables (gap ++ [')'] ++ rest) := by
    rw [List.append_assoc]
    exact h.closes_space hgap (h.closes_symbol (.inl (by decide)) (by decide) _)
  have hinner := (htext _ hend).append ((Spells.space hgap _).append hclose)
  exact hopen.append ((Spells.space hgap _).append hinner)

/-! ### Operators -/

/-- A text that begins with nothing a symbol of the operators goes on with. -/
def Opens (text : List Char) : Prop :=
  ∃ c cs, text = c :: cs ∧ c ≠ '-' ∧ c ≠ '=' ∧ c ≠ '>'

theorem Opens.append {text : List Char} (h : Opens text) (rest : List Char) :
    Opens (text ++ rest) := by
  obtain ⟨c, cs, rfl, hc⟩ := h
  exact ⟨c, cs ++ rest, rfl, hc⟩

theorem Opens.space {gap text : List Char} (hgap : ∀ c ∈ gap, isWhiteSpace c = true)
    (h : Opens text) : Opens (gap ++ text) := by
  cases gap with
  | nil => exact h
  | cons c gap =>
    have hc := hgap c List.mem_cons_self
    refine ⟨c, gap ++ text, rfl, ?_, ?_, ?_⟩
    all_goals
      rintro rfl
      cases hc

theorem BinOp.isWhiteSpace_space {gap : List Char} (hgap : ∀ c ∈ gap, isWhiteSpace c = true)
    (op : BinOp) : ∀ c ∈ op.space gap, isWhiteSpace c = true := by
  have hspace : ∀ c ∈ [' '], isWhiteSpace c = true := by decide
  cases op <;> first | exact hgap | exact hspace

/-- What comes after the operator does not go on with it. -/
theorem BinOp.spells_text (h : tables.Standard) {gap rest : List Char}
    (hgap : ∀ c ∈ gap, isWhiteSpace c = true) (hrest : Opens rest) (op : BinOp) :
    Spells tables op.text [op.token] (op.space gap ++ rest) := by
  obtain ⟨c, cs, heq, hminus, heqs, hgt⟩ := Opens.space (op.isWhiteSpace_space hgap) hrest
  have hspace : Closes tables (' ' :: rest) := h.closes_symbol (.inr (by decide)) (by decide) _
  cases op
  case and => exact Prints.upperWord h (by decide) (by decide) (by decide) _ hspace
  case or => exact Prints.upperWord h (by decide) (by decide) (by decide) _ hspace
  all_goals
    rw [heq]
    refine .of_stops rfl (stops_cons.mpr ?_)
    simp [BinOp.token, Token.goesOn, hminus, heqs, hgt]

theorem BinOp.spells_print (h : tables.Standard) {gap rest : List Char}
    (hgap : ∀ c ∈ gap, isWhiteSpace c = true) (hrest : Opens rest) (op : BinOp) :
    Spells tables (op.print gap) [op.token] rest := by
  have hspace := op.isWhiteSpace_space hgap
  have htext := op.spells_text h hgap hrest
  exact (Spells.space hspace _).append (htext.append (Spells.space hspace _))

theorem BinOp.closes_print (h : tables.Standard) {gap : List Char}
    (hgap : ∀ c ∈ gap, isWhiteSpace c = true) (op : BinOp) (rest : List Char) :
    Closes tables (op.print gap ++ rest) := by
  have hspace (cs : List Char) : Closes tables (' ' :: cs) :=
    h.closes_symbol (.inr (by decide)) (by decide) _
  rw [BinOp.print, List.append_assoc]
  cases op
  case and => exact hspace _
  case or => exact hspace _
  all_goals exact h.closes_space hgap (h.closes_symbol (.inl (by decide)) (by decide) _)

/-! ### Expressions -/

/-- A name begins with no symbol and no digit. -/
theorem IsName.first (h : tables.Standard) {name : String} (hname : IsName tables name) :
    ∃ c cs, name.toList = c :: cs ∧ c ∉ symbolChars ∧ c.isDigit = false := by
  cases hchars : name.toList with
  | nil => exact absurd hchars hname.ne
  | cons c cs =>
    obtain ⟨-, hsym, hdigit⟩ := h.not_symbol (hname.start c (by rw [hchars]; rfl))
    exact ⟨c, cs, rfl, hsym, hdigit⟩

/-- A text whose first character is no symbol. -/
theorem opens_of_not_symbol {c : Char} (hc : c ∉ symbolChars) (cs : List Char) :
    Opens (c :: cs) := by
  refine ⟨c, cs, rfl, ?_, ?_, ?_⟩
  all_goals
    rintro rfl
    exact hc (by decide)

theorem IsName.opens (h : tables.Standard) {name : String} (hname : IsName tables name) :
    Opens name.toList := by
  obtain ⟨c, cs, hchars, hsym, -⟩ := hname.first h
  rw [hchars]
  exact opens_of_not_symbol hsym cs

theorem Literal.opens {l : Literal} (hl : l.Printable) : Opens l.print := by
  have hword {c : Char} {cs : List Char} (hc : c ≠ '-' ∧ c ≠ '=' ∧ c ≠ '>') : Opens (c :: cs) :=
    ⟨c, cs, rfl, hc⟩
  cases l with
  | string s => exact hword (by decide)
  | int i =>
    cases hrepr : i.toInt.toNat.repr.toList with
    | nil =>
      rw [Nat.toList_repr] at hrepr
      exact absurd hrepr Nat.toDigits_ne_nil
    | cons c cs =>
      have hc : c.isDigit = true := by
        have hmem : c ∈ i.toInt.toNat.repr.toList := by
          rw [hrepr]
          exact List.mem_cons_self
        rw [Nat.toList_repr] at hmem
        exact Nat.isDigit_of_mem_toDigits (by omega) (by omega) hmem
      rw [Literal.print, hrepr]
      exact opens_of_not_symbol (isDigit_not_symbol hc).2 cs
  | float f => cases hl
  | bool b => cases b <;> exact hword (by decide)
  | null => exact hword (by decide)

theorem Expr.opens_print (h : tables.Standard) (gap : List Char) {e : Expr}
    (he : e.Printable tables) : Opens (e.print gap) := by
  have hchar {c : Char} {cs : List Char} (hc : c ≠ '-' ∧ c ≠ '=' ∧ c ≠ '>') : Opens (c :: cs) :=
    ⟨c, cs, rfl, hc⟩
  have hparens (text : List Char) : Opens (parens gap text) := hchar (by decide)
  cases e with
  | literal l =>
    simp only [Expr.print, Expr.Printable] at he ⊢
    exact Literal.opens he
  | ident name =>
    simp only [Expr.print, Expr.Printable] at he ⊢
    exact he.opens h
  | property var prop =>
    simp only [Expr.print, Expr.Printable] at he ⊢
    exact (he.1.opens h).append _
  | parameter name =>
    simp only [Expr.print]
    exact hchar (by decide)
  | aggregate func arg =>
    simp only [Expr.print]
    refine Opens.append ?_ _
    cases func <;> exact hchar (by decide)
  | functionCall name args =>
    simp only [Expr.print, Expr.Printable] at he ⊢
    exact (he.1.opens h).append _
  | «exists» q =>
    simp only [Expr.Printable] at he
  | unaryOp op e =>
    cases op
    simp only [Expr.print]
    exact hparens _
  | _ =>
    simp only [Expr.print]
    exact hparens _

theorem Literal.prints (h : tables.Standard) {l : Literal} (hl : l.Printable) :
    Prints tables l.print [l.token] := by
  cases l with
  | string s => exact .string hl
  | int i => exact .number hl
  | float f => cases hl
  | bool b => cases b <;> exact .upperWord h (by decide) (by decide) (by decide)
  | null => exact .upperWord h (by decide) (by decide) (by decide)

theorem AggFunc.prints (h : tables.Standard) (func : AggFunc) :
    Prints tables func.print [.ident (String.ofList func.print)] := by
  cases func <;> exact .upperWord h (by decide) (by decide) (by decide)

/-- A word after an expression, and a space before it. -/
theorem Prints.append_word (h : tables.Standard) {text word : List Char} {tokens : List Token}
    {tok : Token} (htext : Prints tables text tokens) (hword : Prints tables word [tok]) :
    Prints tables (text ++ ' ' :: word) (tokens ++ [tok]) := by
  refine htext.append (fun rest _ => h.closes_symbol (.inr (by decide)) (by decide) _) ?_
  intro rest hrest
  have hspace : ∀ c ∈ [' '], isWhiteSpace c = true := by decide
  exact (Spells.space hspace _).append (hword rest hrest)

theorem closes_printMoreArgs (h : tables.Standard) {gap : List Char} (args : List Expr)
    {rest : List Char} (hrest : Closes tables rest) :
    Closes tables (printMoreArgs gap args ++ rest) := by
  cases args with
  | nil => exact hrest
  | cons e es => exact h.closes_symbol (.inl (by decide)) (by decide) _

theorem Prints.call (h : tables.Standard) {gap : List Char}
    (hgap : ∀ c ∈ gap, isWhiteSpace c = true) {name args : List Char} {tok : Token}
    {tokens : List Token}
    (hname : Prints tables name [tok]) (hargs : Prints tables args tokens) :
    Prints tables (name ++ KuzuEventBus.parens gap args)
      (tok :: .leftParen :: (tokens ++ [.rightParen])) := by
  refine hname.append (fun rest _ => ?_) (hargs.parens h hgap)
  exact h.closes_symbol (.inl (by decide)) (by decide) _

mutual

/-- **The text of an expression is read as its tokens**, whatever closes it. -/
theorem prints_print (h : tables.Standard) {gap : List Char}
    (hgap : ∀ c ∈ gap, isWhiteSpace c = true) :
    ∀ e : Expr, e.Printable tables → Prints tables (e.print gap) e.tokens
  | .literal l, he => by
    simp only [Expr.print, Expr.Printable, Expr.tokens] at he ⊢
    exact Literal.prints h he
  | .ident name, he => by
    simp only [Expr.print, Expr.Printable, Expr.tokens] at he ⊢
    exact he.prints h
  | .property var prop, he => by
    simp only [Expr.print, Expr.Printable, Expr.tokens] at he ⊢
    intro rest hrest
    have hprop := he.2.prints h rest hrest
    -- the point is not the first of a number: what follows is no digit
    have hdot : Spells tables ['.'] [.dot] (prop.toList ++ rest) := by
      obtain ⟨c, cs, hchars, hsym, hdigit⟩ := he.2.first h
      have hpoint : c ≠ '.' := by
        rintro rfl
        exact hsym (by decide)
      rw [hchars]
      refine .of_stops rfl (stops_cons.mpr ?_)
      simp [Token.goesOn, hdigit, hpoint]
    have hvar : Spells tables var.toList [.ident var] ('.' :: (prop.toList ++ rest)) :=
      he.1.spells h fun c hc => by
        cases hc
        exact h.symbol (by decide)
    exact hvar.append (hdot.append hprop)
  | .parameter name, he => by
    simp only [Expr.print, Expr.Printable, Expr.tokens] at he ⊢
    intro rest hrest
    have hdollar : Spells tables ['$'] [.dollar] (name.toList ++ rest) := .of_nextToken rfl
    exact hdollar.append (he.prints h rest hrest)
  | .binaryOp left op right, he => by
    simp only [Expr.print, Expr.Printable, Expr.tokens] at he ⊢
    refine Prints.parens h hgap fun rest hrest => ?_
    have hright := prints_print h hgap right he.2 rest hrest
    have hop := op.spells_print h hgap ((right.opens_print h gap he.2).append rest)
    have hcloses : Closes tables (op.print gap ++ right.print gap ++ rest) := by
      rw [List.append_assoc]
      exact op.closes_print h hgap _
    exact (prints_print h hgap left he.1 _ hcloses).append (hop.append hright)
  | .unaryOp .not e, he => by
    simp only [Expr.print, Expr.Printable, Expr.tokens] at he ⊢
    refine Prints.parens h hgap fun rest hrest => ?_
    -- the word ends at the space
    have hnot : Prints tables ['N', 'O', 'T'] [.notKw] :=
      .upperWord h (by decide) (by decide) (by decide)
    have hspace : ∀ c ∈ [' '], isWhiteSpace c = true := by decide
    have hcloses : Closes tables (' ' :: (e.print gap ++ rest)) :=
      h.closes_symbol (.inr (by decide)) (by decide) _
    exact (hnot _ hcloses).append
      ((Spells.space hspace _).append (prints_print h hgap e he rest hrest))
  | .aggregate func arg, he => by
    simp only [Expr.print, Expr.Printable, Expr.tokens] at he ⊢
    exact Prints.call h hgap (AggFunc.prints h func) (prints_print h hgap arg he)
  | .functionCall name args, he => by
    simp only [Expr.print, Expr.Printable, Expr.tokens] at he ⊢
    exact Prints.call h hgap (he.1.prints h) (prints_printArgs h hgap args he.2.2)
  | .isNull e, he => by
    simp only [Expr.print, Expr.Printable, Expr.tokens] at he ⊢
    have his : Prints tables ['I', 'S'] [.isKw] := .upperWord h (by decide) (by decide) (by decide)
    have hnull : Prints tables ['N', 'U', 'L', 'L'] [.nullKw] :=
      .upperWord h (by decide) (by decide) (by decide)
    have hall := ((prints_print h hgap e he).append_word h his).append_word h hnull
    rw [List.append_assoc, List.append_assoc] at hall
    exact Prints.parens h hgap hall
  | .isNotNull e, he => by
    simp only [Expr.print, Expr.Printable, Expr.tokens] at he ⊢
    have his : Prints tables ['I', 'S'] [.isKw] := .upperWord h (by decide) (by decide) (by decide)
    have hnot : Prints tables ['N', 'O', 'T'] [.notKw] :=
      .upperWord h (by decide) (by decide) (by decide)
    have hnull : Prints tables ['N', 'U', 'L', 'L'] [.nullKw] :=
      .upperWord h (by decide) (by decide) (by decide)
    have hall :=
      (((prints_print h hgap e he).append_word h his).append_word h hnot).append_word h hnull
    rw [List.append_assoc, List.append_assoc, List.append_assoc, List.append_assoc] at hall
    exact Prints.parens h hgap hall
  | .exists q, he => by
    simp only [Expr.Printable] at he

theorem prints_printArgs (h : tables.Standard) {gap : List Char}
    (hgap : ∀ c ∈ gap, isWhiteSpace c = true) : ∀ args : List Expr, ArgsPrintable tables args →
    Prints tables (printArgs gap args) (argsTokens args)
  | [], _ => by
    simp only [printArgs, argsTokens]
    exact fun rest _ => .nil rest
  | e :: es, hargs => by
    simp only [printArgs, argsTokens, ArgsPrintable] at hargs ⊢
    exact (prints_print h hgap e hargs.1).append (fun rest hrest => closes_printMoreArgs h es hrest)
      (prints_printMoreArgs h hgap es hargs.2)

theorem prints_printMoreArgs (h : tables.Standard) {gap : List Char}
    (hgap : ∀ c ∈ gap, isWhiteSpace c = true) : ∀ args : List Expr, ArgsPrintable tables args →
    Prints tables (printMoreArgs gap args) (moreArgsTokens args)
  | [], _ => by
    simp only [printMoreArgs, moreArgsTokens]
    exact fun rest _ => .nil rest
  | e :: es, hargs => by
    simp only [printMoreArgs, moreArgsTokens, ArgsPrintable] at hargs ⊢
    intro rest hrest
    have hcomma : Spells tables [','] [.comma] (gap ++ (e.print gap ++ printMoreArgs gap es) ++
        rest) := .of_nextToken rfl
    have hfirst := (prints_print h hgap e hargs.1).append
      (fun rest hrest => closes_printMoreArgs h es hrest) (prints_printMoreArgs h hgap es hargs.2)
    exact hcomma.append ((Spells.space hgap _).append (hfirst rest hrest))

end

end

/-! ### Phrases -/

section
variable {op? : Token → Option BinOp} {D : GqlPhrase Expr}

/-- A chain of one operand. -/
theorem binaryChainPhrase_one {xs : List Token} {e : Expr} (h : D xs e) :
    binaryChainPhrase op? D xs e :=
  ⟨xs, [], e, (List.append_nil xs).symm, h, .stop e⟩

/-- A chain of two operands. -/
theorem binaryChainPhrase_two {xs ys : List Token} {left right : Expr} {t : Token} {op : BinOp}
    (hleft : D xs left) (ht : op? t = some op) (hright : D ys right) :
    binaryChainPhrase op? D (xs ++ t :: ys) (.binaryOp left op right) := by
  refine ⟨xs, t :: ys, left, rfl, hleft, ?_⟩
  have hround : (tokenMap op? >>= fun op => D >>= fun right => pure (Expr.binaryOp left op right))
      (t :: ys) (.binaryOp left op right) :=
    ⟨[t], ys, op, rfl, ⟨t, rfl, ht⟩, ys, [], right, (List.append_nil ys).symm, hright, rfl, rfl⟩
  rw [← List.append_nil (t :: ys)]
  exact .step hround (.stop _)

variable {xs ys : List Token} {e left right : Expr}

theorem additivePhrase_of (h : D xs e) : additivePhrase D xs e :=
  binaryChainPhrase_one (binaryChainPhrase_one h)

theorem comparisonPhrase_of (h : additivePhrase D xs e) : comparisonPhrase D xs e := by
  refine ⟨xs, [], e, (List.append_nil xs).symm, h, .inr ?_⟩
  exact ⟨[], [], none, rfl, .inl ⟨rfl, rfl⟩, rfl, rfl⟩

theorem exprPhrase_of_comparison (h : comparisonPhrase D xs e) : exprPhrase D xs e :=
  binaryChainPhrase_one (binaryChainPhrase_one h)

theorem exprPhrase_of (h : D xs e) : exprPhrase D xs e :=
  exprPhrase_of_comparison (comparisonPhrase_of (additivePhrase_of h))

theorem exprPhrase_compare {t : Token} {op : BinOp} (hleft : D xs left)
    (ht : comparisonOp? t = some op) (hright : D ys right) :
    exprPhrase D (xs ++ t :: ys) (.binaryOp left op right) := by
  refine exprPhrase_of_comparison ⟨xs, t :: ys, left, rfl, additivePhrase_of hleft, .inr ?_⟩
  refine ⟨[t], ys, some op, rfl, .inr ⟨op, rfl, t, rfl, ht⟩, ?_⟩
  exact ⟨ys, [], right, (List.append_nil ys).symm, additivePhrase_of hright, rfl, rfl⟩

/-- The operands of any operator may be primary expressions. -/
theorem exprPhrase_binaryOp (op : BinOp) (hleft : D xs left) (hright : D ys right) :
    exprPhrase D (xs ++ op.token :: ys) (.binaryOp left op right) := by
  cases op
  case or =>
    exact binaryChainPhrase_two
      (binaryChainPhrase_one (comparisonPhrase_of (additivePhrase_of hleft))) rfl
      (binaryChainPhrase_one (comparisonPhrase_of (additivePhrase_of hright)))
  case and =>
    exact binaryChainPhrase_one (binaryChainPhrase_two
      (comparisonPhrase_of (additivePhrase_of hleft)) rfl
      (comparisonPhrase_of (additivePhrase_of hright)))
  case add | sub =>
    refine exprPhrase_of_comparison (comparisonPhrase_of ?_)
    exact binaryChainPhrase_two (binaryChainPhrase_one hleft) rfl (binaryChainPhrase_one hright)
  case mul | div =>
    refine exprPhrase_of_comparison (comparisonPhrase_of ?_)
    exact binaryChainPhrase_one (binaryChainPhrase_two hleft rfl hright)
  all_goals exact exprPhrase_compare hleft rfl hright

theorem exprPhrase_isNull (h : D xs e) : exprPhrase D (xs ++ [.isKw, .nullKw]) (.isNull e) := by
  refine exprPhrase_of_comparison ⟨xs, _, e, rfl, additivePhrase_of h, .inl ?_⟩
  refine ⟨[.isKw], [.nullKw], (), rfl, rfl, [], [.nullKw], false, rfl, .inr ⟨rfl, rfl⟩, ?_⟩
  exact ⟨[.nullKw], [], (), rfl, rfl, rfl, rfl⟩

theorem exprPhrase_isNotNull (h : D xs e) :
    exprPhrase D (xs ++ [.isKw, .notKw, .nullKw]) (.isNotNull e) := by
  refine exprPhrase_of_comparison ⟨xs, _, e, rfl, additivePhrase_of h, .inl ?_⟩
  refine ⟨[.isKw], [.notKw, .nullKw], (), rfl, rfl, ?_⟩
  refine ⟨[.notKw], [.nullKw], true, rfl, .inl ⟨[.notKw], [], (), rfl, rfl, rfl, rfl⟩, ?_⟩
  exact ⟨[.nullKw], [], (), rfl, rfl, rfl, rfl⟩

end

section
variable {tables : CharTables}

theorem tokens_ne_nil {e : Expr} (he : e.Printable tables) : 0 < e.tokens.length := by
  cases e with
  | unaryOp op e => cases op; simp [Expr.tokens]
  | «exists» q => simp only [Expr.Printable] at he
  | _ => simp [Expr.tokens]

/-- The name of an aggregate function names it. -/
theorem AggFunc.aggFunc?_print (h : tables.Standard) (func : AggFunc) :
    aggFunc? (tables.toUppercase (String.ofList func.print)) = some func := by
  have hascii : ∀ c ∈ (String.ofList func.print).toList, c.toNat < 128 := by
    rw [String.toList_ofList]
    cases func <;> decide
  rw [h.toUppercase _ hascii]
  cases func <;> decide

mutual

/-- **The tokens of an expression are a primary expression that means it**, with parentheses as
deep as there are tokens at most. -/
theorem primaryPhrase_tokens (h : tables.Standard) : ∀ (e : Expr), e.Printable tables →
    ∀ n, e.tokens.length ≤ n → primaryPhrase tables n e.tokens e
  | e, he, 0, hn => absurd (tokens_ne_nil he) (by omega)
  | .literal l, he, n + 1, hn => by
    simp only [Expr.Printable, Expr.tokens] at he ⊢
    refine .literal ?_
    cases l with
    | float f => cases he
    | bool b => cases b <;> rfl
    | _ => rfl
  | .ident name, he, n + 1, hn => by
    simp only [Expr.tokens]
    exact .ident (.inr (.inr ⟨rfl, rfl⟩))
  | .property var prop, he, n + 1, hn => by
    simp only [Expr.tokens]
    refine .ident (.inr (.inl ⟨[.dot], [.ident prop], (), rfl, rfl, ?_⟩))
    exact ⟨[.ident prop], [], prop, rfl, ⟨_, rfl, rfl⟩, rfl, rfl⟩
  | .parameter name, he, n + 1, hn => by
    simp only [Expr.tokens]
    exact .parameter name
  | .binaryOp left op right, he, n + 1, hn => by
    simp only [Expr.Printable, Expr.tokens, List.length_cons, List.length_append] at he hn ⊢
    exact .paren (exprPhrase_binaryOp op (primaryPhrase_tokens h left he.1 n (by omega))
      (primaryPhrase_tokens h right he.2 n (by omega)))
  | .unaryOp .not e, he, n + 1, hn => by
    simp only [Expr.Printable, Expr.tokens, List.length_cons, List.length_append] at he hn ⊢
    obtain ⟨n, rfl⟩ : ∃ m, n = m + 1 := ⟨n - 1, by omega⟩
    exact .paren (exprPhrase_of (.not (primaryPhrase_tokens h e he n (by omega))))
  | .aggregate func arg, he, n + 1, hn => by
    simp only [Expr.Printable, Expr.tokens, List.length_cons, List.length_append] at he hn ⊢
    have harg := exprPhrase_of (primaryPhrase_tokens h arg he n (by omega))
    refine .ident (.inl ⟨[.leftParen], arg.tokens ++ [.rightParen], (), rfl, rfl, ?_⟩)
    rw [AggFunc.aggFunc?_print h func]
    exact ⟨arg.tokens, [.rightParen], arg, rfl, harg, [.rightParen], [], (), rfl, rfl, rfl, rfl⟩
  | .functionCall name args, he, n + 1, hn => by
    simp only [Expr.Printable, Expr.tokens, List.length_cons, List.length_append] at he hn ⊢
    have hargs := argsPhrase_tokens h args he.2.2 n (by omega)
    refine .ident (.inl ⟨[.leftParen], argsTokens args ++ [.rightParen], (), rfl, rfl, ?_⟩)
    rw [he.2.1]
    exact ⟨argsTokens args, [.rightParen], args, rfl, hargs, [.rightParen], [], (), rfl, rfl, rfl,
      rfl⟩
  | .isNull e, he, n + 1, hn => by
    simp only [Expr.Printable, Expr.tokens, List.length_cons, List.length_append] at he hn ⊢
    exact .paren (exprPhrase_isNull (primaryPhrase_tokens h e he n (by omega)))
  | .isNotNull e, he, n + 1, hn => by
    simp only [Expr.Printable, Expr.tokens, List.length_cons, List.length_append] at he hn ⊢
    exact .paren (exprPhrase_isNotNull (primaryPhrase_tokens h e he n (by omega)))
  | .exists q, he, n + 1, hn => by
    simp only [Expr.Printable] at he

theorem argsPhrase_tokens (h : tables.Standard) : ∀ (args : List Expr), ArgsPrintable tables args →
    ∀ n, (argsTokens args).length ≤ n →
      argsPhrase (exprPhrase (primaryPhrase tables n)) (argsTokens args) args
  | [], _, n, _ => by
    simp only [argsTokens]
    exact .inl ⟨rfl, rfl⟩
  | e :: es, hargs, n, hn => by
    simp only [argsTokens, ArgsPrintable, List.length_append] at hargs hn ⊢
    refine .inr ⟨e.tokens, moreArgsTokens es, e, rfl,
      exprPhrase_of (primaryPhrase_tokens h e hargs.1 n (by omega)), ?_⟩
    exact moreArgsPhrase_tokens h es hargs.2 n (by omega) [e]

theorem moreArgsPhrase_tokens (h : tables.Standard) : ∀ (args : List Expr),
    ArgsPrintable tables args → ∀ n, (moreArgsTokens args).length ≤ n → ∀ before : List Expr,
      loop (fun items => do
        token Token.comma
        let item ← exprPhrase (primaryPhrase tables n)
        pure (items ++ [item])) before (moreArgsTokens args) (before ++ args)
  | [], _, n, _, before => by
    simp only [moreArgsTokens, List.append_nil]
    exact .stop before
  | e :: es, hargs, n, hn, before => by
    simp only [moreArgsTokens, ArgsPrintable, List.length_append, List.length_cons] at hargs hn ⊢
    have hitem := exprPhrase_of (primaryPhrase_tokens h e hargs.1 n (by omega))
    have hmore := moreArgsPhrase_tokens h es hargs.2 n (by omega) (before ++ [e])
    rw [List.append_assoc, List.singleton_append] at hmore
    rw [← List.cons_append]
    refine .step ?_ hmore
    exact ⟨[.comma], e.tokens, (), rfl, rfl, e.tokens, [], e, (List.append_nil _).symm, hitem, rfl,
      rfl⟩

end

/-- A text that is an expression to its end is a phrase of expressions. -/
theorem runExprParser_eq_ok_nil_iff {input : List Char} {e : Expr} :
    runExprParser tables input = .ok (e, []) ↔
      ∃ tokens, tokenize tables input = .ok tokens ∧
        ∃ n, exprPhrase (primaryPhrase tables n) tokens e := by
  constructor
  · intro h
    obtain ⟨tokens, htokens, hparse⟩ := KuzuEventBus.bind_eq_ok h
    obtain ⟨xs, hxs, he⟩ := reads_parseExpr (reads_parsePrimary tables _) hparse
    rw [List.append_nil] at hxs
    subst hxs
    exact ⟨tokens, htokens, _, he⟩
  · rintro ⟨tokens, htokens, n, he⟩
    -- accepted at a depth that is enough for both bounds
    have hle : n ≤ max n (tokens.length + 1) := le_max_left _ _
    have haccepts := accepts_parseExpr (reads_parsePrimary tables _)
      (accepts_parsePrimary tables n _ hle)
    have hmax := haccepts he (show Avoids exprGoes [] by intro t ht; cases ht)
    rw [List.append_nil] at hmax
    unfold runExprParser
    rw [htokens]
    refine Eq.trans ?_ hmax
    exact (agree_parseExpr (agree_parsePrimary tables _ _ _ le_rfl (le_max_right n _))).apply_eq
      (Nat.lt_succ_self _)

/-- **An expression is read back from its text**, and nothing of the text is left over. -/
theorem runExprParser_print (h : tables.Standard) {gap : List Char}
    (hgap : ∀ c ∈ gap, isWhiteSpace c = true) {e : Expr} (he : e.Printable tables) :
    runExprParser tables (e.print gap) = .ok (e, []) := by
  have htokens : tokenize tables (e.print gap) = .ok e.tokens :=
    (prints_print h hgap e he [] (by intro c hc; cases hc)).tokenize_eq
  have hphrase := exprPhrase_of (primaryPhrase_tokens h e he e.tokens.length le_rfl)
  exact runExprParser_eq_ok_nil_iff.mpr ⟨e.tokens, htokens, _, hphrase⟩

theorem isAlpha_of_isWhiteSpace {c : Char} (h : isWhiteSpace c = true) : c.isAlpha = false := by
  simp only [isWhiteSpace, Bool.or_eq_true, Bool.and_eq_true, decide_eq_true_eq, beq_iff_eq] at h
  rw [Bool.eq_false_iff, ne_eq, isAlpha_iff_toNat]
  omega

/-- The tables restricted to ASCII. -/
theorem CharTables.ascii_standard : CharTables.ascii.Standard where
  isAlphabetic _ _ := rfl
  isNumeric _ _ := rfl
  space c hc := by
    have hdigit : c.isDigit = false := by
      by_contra hdigit
      have := (isDigit_not_symbol (Bool.not_eq_false _ ▸ hdigit)).1
      rw [hc] at this
      cases this
    rw [isAlphanumeric, Bool.or_eq_false_iff]
    exact ⟨isAlpha_of_isWhiteSpace hc, hdigit⟩
  toUppercase _ _ := rfl

/-- `(NOT(SUM(n.age)<(_x-f(1,'a'))))`. -/
def printedExpr : Expr :=
  .unaryOp .not (.binaryOp (.aggregate .sum (.property "n" "age")) .lt
    (.binaryOp (.ident "_x") .sub
      (.functionCall "f" [.literal (.int 1), .literal (.string "a")])))

theorem runExprParser_print_ascii :
    runExprParser .ascii (printedExpr.print []) = .ok (printedExpr, []) := by
  refine runExprParser_print CharTables.ascii_standard (by simp) ?_
  simp only [printedExpr, Expr.Printable, ArgsPrintable, Literal.Printable]
  decide

end

end KuzuEventBus
