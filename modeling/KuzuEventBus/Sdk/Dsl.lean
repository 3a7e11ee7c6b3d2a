import KuzuEventBus.Gql.Levels
import Mathlib.Algebra.Group.Int.Defs

/-!
# The expression DSL

`Expr`, `_wrap` and `Var` of `casys_db/query.py`: the trees that the operators of Python build
when a lambda is called on a variable, and the text of such a tree.  Only AND and OR are printed
in parentheses, and literals as Python prints them.

An operator is known here by the engine's name for it; the string it is printed as is
`BinOp.text`.

## Main definitions

* `Value`, `Value.toGql` — the values that literals hold, and their texts.
* `Expr`, `Expr.toGql` — trees, and `to_gql`.
* `Expr.toExpr` — the expression of the query language that a tree corresponds to.
* `Expr.Named` — trees of names that can be written.
* `Expr.ReadsBack` — trees whose text says what they are.

## Main results

* `prints_toGql` — the tokens of a text.
* `levelPhrase_tokens_iff` — **the phrases that the tokens of a tree are.**
* `runExprParser_toGql_iff` — **which trees the parser reads back.**
-/

namespace KuzuEventBus.Sdk.Dsl

open Parsing Phrase

/-- An expression of the query language. -/
abbrev GqlExpr := KuzuEventBus.Expr

/-- A Python value: of one of the classes of literals, or of another class, then known by what
`str` gives for it. -/
inductive Value where
  | str (s : String)
  | int (i : ℤ)
  | bool (b : Bool)
  | pyNone
  | other (text : String)
  deriving DecidableEq

/-- `str` of an integer. -/
def intText : ℤ → List Char
  | .ofNat n => n.repr.toList
  | .negSucc n => '-' :: (n + 1).repr.toList

theorem repr_toList_injective {m n : ℕ} (h : m.repr.toList = n.repr.toList) : m = n := by
  rw [Nat.toList_repr, Nat.toList_repr] at h
  simpa only [Nat.ofDigitChars_ten_toDigits] using congrArg (Nat.ofDigitChars 10 · 0) h

/-- No number begins with a minus sign but a negative one. -/
theorem repr_toList_ne_minus (n : ℕ) (cs : List Char) : n.repr.toList ≠ '-' :: cs := by
  intro h
  have hmem : '-' ∈ n.repr.toList := by
    rw [h]
    exact List.mem_cons_self
  rw [Nat.toList_repr] at hmem
  exact absurd (Nat.isDigit_of_mem_toDigits (by omega) (by omega) hmem) (by decide)

theorem intText_injective : Function.Injective intText := by
  rintro (m | m) (n | n) h
  · exact congrArg Int.ofNat (repr_toList_injective h)
  · exact absurd h (repr_toList_ne_minus m _)
  · exact absurd h.symm (repr_toList_ne_minus n _)
  · have hsucc := repr_toList_injective (List.cons.inj h).2
    rw [Nat.succ.inj hsucc]

/-- `to_gql` of a literal: a string between quotes, and `str` of any other value. -/
def Value.toGql : Value → List Char
  | .str s => '\x27' :: (s.toList ++ ['\x27'])
  | .int i => intText i
  | .bool b => if b then ['T', 'r', 'u', 'e'] else ['F', 'a', 'l', 's', 'e']
  | .pyNone => ['N', 'o', 'n', 'e']
  | .other text => text.toList

/-- `Expr`, by its `kind`. -/
inductive Expr where
  | var (name : String)
  | attr (base : Expr) (name : String)
  | lit (value : Value)
  | bin (left : Expr) (op : BinOp) (right : Expr)
  deriving DecidableEq

namespace Expr

/-- The names of chained attributes, after the variable they are of. -/
def path : Expr → List String
  | .var name => [name]
  | .attr base name => base.path ++ [name]
  | _ => []

/-- `Expr.to_gql`. -/
def toGql : Expr → List Char
  | .var name => name.toList
  | .attr base name => List.intercalate ['.'] ((base.path ++ [name]).map String.toList)
  | .lit value => value.toGql
  | .bin left op right =>
    match op with
    | .and | .or => '(' :: (left.toGql ++ (op.print [' '] ++ right.toGql) ++ [')'])
    | op => left.toGql ++ (op.print [' '] ++ right.toGql)

end Expr

/-! ### What a tree corresponds to -/

/-- The literal of the query language for a value. -/
def Value.toLiteral : Value → Option Literal
  | .str s => some (.string s)
  | .int i => if -2 ^ 63 ≤ i ∧ i < 2 ^ 63 then some (.int (Int64.ofInt i)) else none
  | .bool b => some (.bool b)
  | .pyNone => some .null
  | .other _ => none

namespace Expr

/-- The expression of the same operators, the same nesting and the same literals. -/
def toExpr : Expr → Option GqlExpr
  | .var name => some (.ident name)
  | .attr (.var v) name => some (.property v name)
  | .attr _ _ => none
  | .lit value => value.toLiteral.map .literal
  | .bin left op right => do
    let left ← left.toExpr
    let right ← right.toExpr
    pure (.binaryOp left op right)

/-- A tree of a variable, single attributes of it, and strings, integers, booleans and `None`; the
names can be written. -/
def Named (tables : CharTables) : Expr → Prop
  | .var name => IsName tables name
  | .attr (.var v) name => IsName tables v ∧ IsName tables name
  | .attr _ _ => False
  | .lit (.other _) => False
  | .lit _ => True
  | .bin left _ right => left.Named tables ∧ right.Named tables

end Expr

/-! ### What is read back -/

/-- A value whose text is a literal that stands for it: a string without quotes, an integer of 63
bits, a boolean. -/
def Value.ReadsBack : Value → Prop
  | .str s => '\x27' ∉ s.toList
  | .int i => 0 ≤ i ∧ i < 2 ^ 63
  | .bool _ => True
  | .pyNone | .other _ => False

instance : DecidablePred Value.ReadsBack
  | .str s => inferInstanceAs (Decidable ('\x27' ∉ s.toList))
  | .int i => inferInstanceAs (Decidable (0 ≤ i ∧ i < 2 ^ 63))
  | .bool _ => .isTrue trivial
  | .pyNone => .isFalse id
  | .other _ => .isFalse id

namespace Expr

/-- The level of the text of a tree: that of its outermost operator, unless that is in
parentheses. -/
def level : Expr → ℕ
  | .bin _ .and _ | .bin _ .or _ => 5
  | .bin _ op _ => op.level
  | _ => 5

/-- The operands of an operator without parentheses are of its levels. -/
def Fits (left : Expr) (op : BinOp) (right : Expr) : Prop :=
  op = .and ∨ op = .or ∨ (op.leftLevel ≤ left.level ∧ op.level < right.level)

/-- Every operator has operands of its levels, or parentheses. -/
def Nested : Expr → Prop
  | .bin left op right => left.Nested ∧ right.Nested ∧ Fits left op right
  | _ => True

/-- Every literal is of a kind. -/
def Literals (P : Value → Prop) : Expr → Prop
  | .lit value => P value
  | .bin left _ right => left.Literals P ∧ right.Literals P
  | _ => True

/-- Literals whose texts stand for them, and operands that need no parentheses where there are
none. -/
structure ReadsBack (e : Expr) : Prop where
  literals : e.Literals Value.ReadsBack
  nested : e.Nested

instance (left : Expr) (op : BinOp) (right : Expr) : Decidable (Fits left op right) :=
  inferInstanceAs (Decidable (op = .and ∨ op = .or ∨ (_ ≤ _ ∧ _ < _)))

instance decidableNested : DecidablePred Nested
  | .bin left op right =>
    haveI := decidableNested left
    haveI := decidableNested right
    inferInstanceAs (Decidable (left.Nested ∧ right.Nested ∧ Fits left op right))
  | .var _ | .attr _ _ | .lit _ => .isTrue trivial

instance decidableLiterals (P : Value → Prop) [DecidablePred P] : DecidablePred (Literals P)
  | .bin left _ right =>
    haveI := decidableLiterals P left
    haveI := decidableLiterals P right
    inferInstanceAs (Decidable (left.Literals P ∧ right.Literals P))
  | .lit value => inferInstanceAs (Decidable (P value))
  | .var _ | .attr _ _ => .isTrue trivial

instance : DecidablePred ReadsBack := fun e =>
  decidable_of_iff (e.Literals Value.ReadsBack ∧ e.Nested)
    ⟨fun ⟨hliterals, hnested⟩ => ⟨hliterals, hnested⟩, fun h => ⟨h.literals, h.nested⟩⟩

end Expr

/-! ### The tokens of a text -/

/-- The tokens of the text of a literal. -/
def Value.tokens : Value → List Token
  | .str s => [.string s]
  | .int i => [.int (Int64.ofInt i)]
  | .bool b => if b then [.trueKw] else [.falseKw]
  | .pyNone => [.ident "None"]
  | .other _ => []

/-- A value whose text is read, if not as what it is. -/
def Value.Lexes (value : Value) : Prop := value = .pyNone ∨ value.ReadsBack

namespace Expr

/-- The tokens of the text of a tree. -/
def tokens : Expr → List Token
  | .var name => [.ident name]
  | .attr (.var v) name => [.ident v, .dot, .ident name]
  | .attr _ _ => []
  | .lit value => value.tokens
  | .bin left op right =>
    match op with
    | .and | .or => .leftParen :: (left.tokens ++ op.token :: right.tokens ++ [.rightParen])
    | op => left.tokens ++ op.token :: right.tokens

end Expr

section
variable {tables : CharTables}

theorem intText_of_nonneg {i : ℤ} (h0 : 0 ≤ i) (hlt : i < 2 ^ 63) :
    intText i = (Int64.ofInt i).toInt.toNat.repr.toList ∧ 0 ≤ (Int64.ofInt i).toInt := by
  rw [Int64.toInt_ofInt_of_le (by omega) hlt]
  obtain ⟨n, rfl⟩ := Int.eq_ofNat_of_zero_le h0
  exact ⟨rfl, h0⟩

theorem Value.prints_toGql (h : tables.Standard) {value : Value} (hv : value.Lexes) :
    Prints tables value.toGql value.tokens ∧ Opens value.toGql := by
  have hword {c : Char} {cs : List Char} (hc : c ≠ '-' ∧ c ≠ '=' ∧ c ≠ '>') : Opens (c :: cs) :=
    ⟨c, cs, rfl, hc⟩
  rcases hv with rfl | hv
  · exact ⟨.asciiWord h (by decide) (by decide) (by decide), hword (by decide)⟩
  cases value with
  | str s => exact ⟨.string hv, hword (by decide)⟩
  | int i =>
    obtain ⟨htext, hi⟩ := intText_of_nonneg hv.1 hv.2
    have hopens : Opens (Literal.int (Int64.ofInt i)).print := Literal.opens hi
    rw [toGql, htext]
    exact ⟨.number hi, hopens⟩
  | bool b =>
    cases b with
    | true => exact ⟨.asciiWord h (by decide) (by decide) (by decide), hword (by decide)⟩
    | false => exact ⟨.asciiWord h (by decide) (by decide) (by decide), hword (by decide)⟩
  | pyNone => cases hv
  | other text => cases hv

/-- A property is printed as in the query language. -/
theorem Expr.toGql_attr (v name : String) :
    (Expr.attr (.var v) name).toGql = (KuzuEventBus.Expr.property v name).print [' '] := by
  simp [toGql, path, List.intercalate, KuzuEventBus.Expr.print]

/-- An operator between two texts. -/
theorem Prints.operator (h : tables.Standard) {text text' : List Char} {tokens tokens' : List Token}
    (op : BinOp) (htext : Prints tables text tokens) (htext' : Prints tables text' tokens')
    (hopens : Opens text') :
    Prints tables (text ++ (op.print [' '] ++ text')) (tokens ++ op.token :: tokens') := by
  have hgap : ∀ c ∈ [' '], Text.isWhiteSpace c = true := by decide
  intro rest hrest
  have hop := op.spells_print h hgap (hopens.append rest)
  have hcloses : Closes tables (op.print [' '] ++ text' ++ rest) := by
    rw [List.append_assoc]
    exact op.closes_print h hgap _
  exact (htext _ hcloses).append (hop.append (htext' rest hrest))

/-- **The text of a tree is read as its tokens**, if its literals are. -/
theorem Expr.prints_toGql (h : tables.Standard) {e : Expr} (he : e.Named tables)
    (hlex : e.Literals Value.Lexes) : Prints tables e.toGql e.tokens ∧ Opens e.toGql := by
  induction e with
  | var name =>
    simp only [Named] at he
    exact ⟨he.prints h, he.opens h⟩
  | attr base name _ =>
    cases base with
    | var v =>
      have hprintable : (KuzuEventBus.Expr.property v name).Printable tables := by
        simp only [KuzuEventBus.Expr.Printable]
        exact he
      have hprints := KuzuEventBus.prints_print h (by decide : ∀ c ∈ [' '], _) _ hprintable
      rw [toGql_attr]
      simp only [KuzuEventBus.Expr.tokens] at hprints
      exact ⟨hprints, KuzuEventBus.Expr.opens_print h _ hprintable⟩
    | _ => cases he
  | lit value => exact Value.prints_toGql h hlex
  | bin left op right ihl ihr =>
    obtain ⟨hleft, hol⟩ := ihl he.1 hlex.1
    obtain ⟨hright, hor⟩ := ihr he.2 hlex.2
    have hop := Prints.operator h op hleft hright hor
    have hparens : Prints tables (parens [] (left.toGql ++ (op.print [' '] ++ right.toGql))) _ :=
      .parens h (by simp) hop
    have hopens : Opens ('(' :: (left.toGql ++ (op.print [' '] ++ right.toGql) ++ [')'])) :=
      ⟨_, _, rfl, by decide⟩
    cases op
    case and | or => exact ⟨hparens, hopens⟩
    all_goals exact ⟨hop, hol.append _⟩

/-! ### The phrases of a text -/

theorem Value.toLiteral_of_readsBack {value : Value} (h : value.ReadsBack) :
    ∃ l, value.toLiteral = some l ∧ value.tokens = [l.token] ∧ l.token.literal? = some l := by
  cases value with
  | str s => exact ⟨.string s, rfl, rfl, rfl⟩
  | int i =>
    refine ⟨.int (Int64.ofInt i), if_pos ⟨?_, h.2⟩, rfl, rfl⟩
    have h0 : 0 ≤ i := h.1
    omega
  | bool b =>
    refine ⟨.bool b, rfl, ?_, ?_⟩
    · cases b <;> rfl
    · cases b <;> rfl
  | pyNone => cases h
  | other text => cases h

theorem Expr.toExpr_bin {left right : Expr} {op : BinOp} {g : GqlExpr}
    (h : (Expr.bin left op right).toExpr = some g) :
    ∃ l r, left.toExpr = some l ∧ right.toExpr = some r ∧ g = .binaryOp l op r := by
  rw [toExpr] at h
  obtain ⟨l, hl, h⟩ := Option.bind_eq_some_iff.mp h
  obtain ⟨r, hr, h⟩ := Option.bind_eq_some_iff.mp h
  exact ⟨l, r, hl, hr, (Option.some.inj h).symm⟩

theorem Expr.toExpr_attr {base : Expr} {name : String} {g : GqlExpr}
    (h : (Expr.attr base name).toExpr = some g) :
    ∃ v, base = .var v ∧ g = .property v name := by
  cases base with
  | var v =>
    cases h
    exact ⟨v, rfl, rfl⟩
  | _ => cases h

theorem Expr.toExpr_lit {value : Value} {g : GqlExpr} (h : (Expr.lit value).toExpr = some g) :
    ∃ l, value.toLiteral = some l ∧ g = .literal l := by
  obtain ⟨l, hl, rfl⟩ := Option.map_eq_some_iff.mp h
  exact ⟨l, hl, rfl⟩

theorem Expr.plain_of_toExpr {e : Expr} {g : GqlExpr} (h : e.toExpr = some g) : g.Plain := by
  induction e generalizing g with
  | var name =>
    cases h
    trivial
  | attr base name _ =>
    obtain ⟨v, -, rfl⟩ := toExpr_attr h
    trivial
  | lit value =>
    obtain ⟨l, -, rfl⟩ := toExpr_lit h
    trivial
  | bin left op right ihl ihr =>
    obtain ⟨l, r, hl, hr, rfl⟩ := toExpr_bin h
    exact ⟨ihl hl, ihr hr⟩

/-- An operator other than AND and OR has no parentheses. -/
theorem Expr.bin_cases (left : Expr) (op : BinOp) (right : Expr) :
    ((op = .and ∨ op = .or) ∧ (bin left op right).level = 5 ∧ (bin left op right).tokens =
        .leftParen :: (left.tokens ++ op.token :: right.tokens ++ [.rightParen])) ∨
      (op ≠ .and ∧ op ≠ .or ∧ (bin left op right).level = op.level ∧
        (bin left op right).tokens = left.tokens ++ op.token :: right.tokens) := by
  cases op
  case and => exact .inl ⟨.inl rfl, rfl, rfl⟩
  case or => exact .inl ⟨.inr rfl, rfl, rfl⟩
  all_goals exact .inr ⟨nofun, nofun, rfl, rfl⟩

/-- No text is looser than a comparison. -/
theorem Expr.two_le_level (e : Expr) : 2 ≤ e.level := by
  cases e with
  | bin left op right => cases op <;> simp [level, BinOp.level]
  | _ => simp [level]

/-- The operands of AND and OR are of their levels, whatever they are. -/
theorem Expr.Fits.levels {left right : Expr} {op : BinOp} (h : Fits left op right) :
    op.leftLevel ≤ left.level ∧ op.level + 1 ≤ right.level := by
  have hl := left.two_le_level
  have hr := right.two_le_level
  rcases h with rfl | rfl | h
  · exact ⟨le_trans (by decide) hl, hr⟩
  · exact ⟨le_trans (by decide) hl, le_trans (by decide) hr⟩
  · exact h

/-- The tokens of a tree spell it out, if its literals stand for themselves. -/
theorem Expr.spellsOut_tokens {e : Expr} {g : GqlExpr} (he : e.toExpr = some g)
    (hliterals : e.Literals Value.ReadsBack) : SpellsOut e.tokens g := by
  induction e generalizing g with
  | var name =>
    cases he
    exact ⟨rfl, rfl⟩
  | attr base name _ =>
    obtain ⟨v, rfl, rfl⟩ := toExpr_attr he
    exact ⟨rfl, rfl⟩
  | lit value =>
    obtain ⟨l, hl, rfl⟩ := toExpr_lit he
    obtain ⟨l', hl', htokens, hliteral⟩ := Value.toLiteral_of_readsBack hliterals
    rw [hl] at hl'
    cases hl'
    rw [tokens, htokens]
    exact spellsOut_of_literal hliteral
  | bin left op right ihl ihr =>
    obtain ⟨l, r, hl, hr, rfl⟩ := toExpr_bin he
    have hspells := (ihl hl hliterals.1).binaryOp op (ihr hr hliterals.2)
    rcases bin_cases left op right with ⟨-, -, htokens⟩ | ⟨-, -, -, htokens⟩
    · rw [htokens]
      exact hspells.parens
    · rw [htokens]
      exact hspells

/-- The tokens of a tree are phrases of its level. -/
theorem Expr.levelPhrase_tokens {e : Expr} {g : GqlExpr} (he : e.toExpr = some g)
    (h : e.ReadsBack) {n : ℕ} (hn : e.tokens.length ≤ n) :
    levelPhrase (primaryPhrase tables n) e.level e.tokens g := by
  obtain ⟨hliterals, hnested⟩ := h
  induction e generalizing g n with
  | var name =>
    simp only [tokens, List.length_singleton] at hn
    obtain ⟨n, rfl⟩ : ∃ m, n = m + 1 := ⟨n - 1, by omega⟩
    cases he
    exact .ident (.inr (.inr ⟨rfl, rfl⟩))
  | attr base name _ =>
    obtain ⟨v, rfl, rfl⟩ := toExpr_attr he
    simp only [tokens, List.length_cons] at hn
    obtain ⟨n, rfl⟩ : ∃ m, n = m + 1 := ⟨n - 1, by omega⟩
    refine .ident (.inr (.inl ⟨[.dot], [.ident name], (), rfl, rfl, ?_⟩))
    exact ⟨[.ident name], [], name, rfl, ⟨_, rfl, rfl⟩, rfl, rfl⟩
  | lit value =>
    obtain ⟨l, hl, rfl⟩ := toExpr_lit he
    obtain ⟨l', hl', htokens, hliteral⟩ := Value.toLiteral_of_readsBack hliterals
    rw [hl] at hl'
    cases hl'
    rw [tokens, htokens] at hn ⊢
    obtain ⟨n, rfl⟩ : ∃ m, n = m + 1 := ⟨n - 1, by simp only [List.length_singleton] at hn; omega⟩
    exact .literal hliteral
  | bin left op right ihl ihr =>
    obtain ⟨l, r, hl, hr, rfl⟩ := toExpr_bin he
    obtain ⟨hleft, hright⟩ := hnested.2.2.levels
    -- the operands fit the operator, in as many tokens as it leaves for parentheses
    have hop {m : ℕ} (hm : (left.tokens ++ op.token :: right.tokens).length ≤ m) :
        levelPhrase (primaryPhrase tables m) op.level (left.tokens ++ op.token :: right.tokens)
          (.binaryOp l op r) := by
      rw [List.length_append, List.length_cons] at hm
      have hl' := ihl (n := m) hl (by omega) hliterals.1 hnested.1
      have hr' := ihr (n := m) hr (by omega) hliterals.2 hnested.2.1
      exact levelPhrase_binaryOp op (levelPhrase_mono hleft hl') (levelPhrase_mono hright hr')
    rcases bin_cases left op right with ⟨-, hlevel, htokens⟩ | ⟨-, -, hlevel, htokens⟩
    · rw [htokens, List.length_cons, List.length_append] at hn
      obtain ⟨n, rfl⟩ : ∃ m, n = m + 1 := ⟨n - 1, by omega⟩
      rw [hlevel, htokens]
      exact .paren (levelPhrase_mono (Nat.zero_le _) (hop (by omega)))
    · rw [htokens] at hn
      rw [hlevel, htokens]
      exact hop hn

/-- **And of no looser level, unless the operands of some operator are of other levels than it
takes.** -/
theorem Expr.nested_of_levelPhrase {e : Expr} {g : GqlExpr} (he : e.toExpr = some g)
    (hliterals : e.Literals Value.ReadsBack) {n i : ℕ} (hi : i ≤ 5)
    (h : levelPhrase (primaryPhrase tables n) i e.tokens g) : e.Nested ∧ i ≤ e.level := by
  induction e generalizing g n i with
  | var name => exact ⟨trivial, hi⟩
  | attr base name _ => exact ⟨trivial, hi⟩
  | lit value => exact ⟨trivial, hi⟩
  | bin left op right ihl ihr =>
    obtain ⟨l, r, hl, hr, rfl⟩ := toExpr_bin he
    obtain ⟨k, m, ys, zs, hsplit, hleft, hright, hlevel⟩ := levelPhrase_split n h
    have hysl := spellsOut_of_levelPhrase hleft (plain_of_toExpr hl)
    have hspells := spellsOut_tokens hl hliterals.1
    have hl5 : op.leftLevel ≤ 5 := by cases op <;> decide
    rcases bin_cases left op right with ⟨hop, hfive, htokens⟩ | ⟨hand, hor, hlev, htokens⟩
    · have htokens : (bin left op right).tokens = List.replicate 1 .leftParen ++ left.tokens ++
          op.token :: (right.tokens ++ [.rightParen]) := by
        rw [htokens]
        simp
      obtain ⟨rfl, rfl, hzs⟩ := hspells.cut hysl (hsplit.symm.trans htokens)
      have hzs := List.append_cancel_right hzs
      subst hzs
      have hl' := ihl hl hliterals.1 hl5 hleft
      have hr' := ihr hr hliterals.2 op.level_lt hright
      refine ⟨⟨hl'.1, hr'.1, hop.elim .inl fun h => .inr (.inl h)⟩, ?_⟩
      rw [hfive]
      exact hi
    · have htokens : (bin left op right).tokens = List.replicate 0 .leftParen ++ left.tokens ++
          op.token :: right.tokens := by
        rw [htokens]
        simp
      obtain ⟨rfl, rfl, hzs⟩ := hspells.cut hysl (hsplit.symm.trans htokens)
      rw [List.replicate_zero, List.append_nil] at hzs
      subst hzs
      obtain ⟨hnl, hll⟩ := ihl hl hliterals.1 hl5 hleft
      obtain ⟨hnr, hlr⟩ := ihr hr hliterals.2 op.level_lt hright
      refine ⟨⟨hnl, hnr, .inr (.inr ⟨hll, hlr⟩)⟩, ?_⟩
      rw [hlev]
      exact hlevel rfl

/-! ### Literals -/

theorem Expr.Literals.mono {P Q : Value → Prop} (hPQ : ∀ v, P v → Q v) {e : Expr}
    (h : e.Literals P) : e.Literals Q := by
  induction e with
  | lit value => exact hPQ value h
  | bin left op right ihl ihr => exact ⟨ihl h.1, ihr h.2⟩
  | _ => trivial

/-- The literals of a tree are spelled by the expression it corresponds to. -/
theorem Expr.literals_of_toExpr {e : Expr} {g : GqlExpr} (he : e.toExpr = some g) :
    e.Literals fun value => ∃ l, value.toLiteral = some l ∧ l.token ∈ g.spelled := by
  induction e generalizing g with
  | lit value =>
    obtain ⟨l, hl, rfl⟩ := toExpr_lit he
    exact ⟨l, hl, List.mem_cons_self⟩
  | bin left op right ihl ihr =>
    obtain ⟨l, r, hl, hr, rfl⟩ := toExpr_bin he
    rw [KuzuEventBus.Expr.spelled]
    refine ⟨(ihl hl).mono ?_, (ihr hr).mono ?_⟩
    · rintro value ⟨lit, hlit, hmem⟩
      exact ⟨lit, hlit, List.mem_append_left _ hmem⟩
    · rintro value ⟨lit, hlit, hmem⟩
      exact ⟨lit, hlit, List.mem_append_right _ (List.mem_cons_of_mem _ hmem)⟩
  | _ => trivial

/-- No literal is printed as `NULL`. -/
theorem Expr.nullKw_not_mem_tokens (e : Expr) : Token.nullKw ∉ e.tokens := by
  induction e with
  | var name => simp [tokens]
  | attr base name _ => cases base <;> simp [tokens]
  | lit value =>
    cases value with
    | bool b => cases b <;> simp [tokens, Value.tokens]
    | _ => simp [tokens, Value.tokens]
  | bin left op right ihl ihr =>
    have hop : Token.nullKw ≠ op.token := by cases op <;> simp [BinOp.token]
    rcases bin_cases left op right with ⟨-, -, htokens⟩ | ⟨-, -, -, htokens⟩
    all_goals
      rw [htokens]
      simp [ihl, ihr, hop]

/-- A literal that is among the tokens of a text is read, -/
theorem Value.lexes_of_mem {input : List Char} {toks : List Token}
    (h : tokenize tables input = .ok toks) {value : Value} {l : Literal}
    (hl : value.toLiteral = some l) (hmem : l.token ∈ toks) : value.Lexes := by
  obtain ⟨hint, hstring⟩ := forall_mem_tokenize (fun _ _ _ => nextToken_literal) h _ hmem
  cases value with
  | str s =>
    cases hl
    exact .inr (hstring s rfl)
  | int i =>
    rw [toLiteral] at hl
    split at hl
    · next hbounds =>
      cases hl
      have hnonneg := hint _ rfl
      rw [Int64.toInt_ofInt_of_le hbounds.1 hbounds.2] at hnonneg
      exact .inr ⟨hnonneg, hbounds.2⟩
    · cases hl
  | bool b => exact .inr trivial
  | pyNone => exact .inl rfl
  | other text => cases hl

/-- and as what it is, unless it is `NULL`. -/
theorem Value.readsBack_of_mem {value : Value} {l : Literal} (hl : value.toLiteral = some l)
    (hne : l.token ≠ .nullKw) (hlex : value.Lexes) : value.ReadsBack := by
  rcases hlex with rfl | hv
  · cases hl
    exact absurd rfl hne
  · exact hv

theorem Expr.exists_toExpr {e : Expr} (hnamed : e.Named tables)
    (hliterals : e.Literals Value.ReadsBack) : ∃ g, e.toExpr = some g := by
  induction e with
  | var name => exact ⟨_, rfl⟩
  | attr base name _ =>
    cases base with
    | var v => exact ⟨_, rfl⟩
    | _ => cases hnamed
  | lit value =>
    obtain ⟨l, hl, -⟩ := Value.toLiteral_of_readsBack hliterals
    exact ⟨.literal l, by rw [toExpr, hl]; rfl⟩
  | bin left op right ihl ihr =>
    obtain ⟨l, hl⟩ := ihl hnamed.1 hliterals.1
    obtain ⟨r, hr⟩ := ihr hnamed.2 hliterals.2
    exact ⟨.binaryOp l op r, by rw [toExpr, hl, hr]; rfl⟩

theorem Expr.and_literals {P Q R : Value → Prop} (hPQ : ∀ v, P v → Q v → R v) {e : Expr}
    (hP : e.Literals P) (hQ : e.Literals Q) : e.Literals R := by
  induction e with
  | lit value => exact hPQ value hP hQ
  | bin left op right ihl ihr => exact ⟨ihl hP.1 hQ.1, ihr hP.2 hQ.2⟩
  | _ => trivial

/-- A text that is read as the expression its tree corresponds to has literals that stand for
themselves. -/
theorem Expr.literals_of_tokenize (h : tables.Standard) {e : Expr} (hnamed : e.Named tables)
    {g : GqlExpr} (he : e.toExpr = some g) {toks : List Token}
    (htokens : tokenize tables e.toGql = .ok toks) (hspells : SpellsOut toks g) :
    e.Literals Value.ReadsBack ∧ toks = e.tokens := by
  have hmem {t : Token} (ht : t ∈ g.spelled) : t ∈ toks := by
    rw [← hspells.filter_eq] at ht
    exact List.mem_of_mem_filter ht
  have hliterals := literals_of_toExpr he
  have hlex : e.Literals Value.Lexes := hliterals.mono fun value ⟨l, hl, hspelled⟩ =>
    Value.lexes_of_mem htokens hl (hmem hspelled)
  have hread : tokenize tables e.toGql = .ok e.tokens :=
    ((prints_toGql h hnamed hlex).1 [] (by intro c hc; cases hc)).tokenize_eq
  rw [hread] at htokens
  cases htokens
  refine ⟨and_literals ?_ hliterals hlex, rfl⟩
  rintro value ⟨l, hl, hspelled⟩ hv
  refine Value.readsBack_of_mem hl (fun heq => ?_) hv
  exact e.nullKw_not_mem_tokens (heq ▸ hmem hspelled)

/-- A tree that is read back has literals that stand for themselves, and operands of the levels
of their operators. -/
theorem Expr.readsBack_of_runExprParser (h : tables.Standard) {e : Expr}
    (hnamed : e.Named tables) {g : GqlExpr} (he : e.toExpr = some g)
    (hparse : runExprParser tables e.toGql = .ok (g, [])) : e.ReadsBack := by
  obtain ⟨toks, htokens, n, hphrase⟩ := runExprParser_eq_ok_nil_iff.mp hparse
  have hlevel : levelPhrase (primaryPhrase tables n) 0 toks g := hphrase
  have hspells := spellsOut_of_levelPhrase hlevel (plain_of_toExpr he)
  obtain ⟨hliterals, rfl⟩ := literals_of_tokenize h hnamed he htokens hspells
  exact ⟨hliterals, (nested_of_levelPhrase he hliterals (by omega) hlevel).1⟩

/-- And a tree with such literals and operands is. -/
theorem Expr.runExprParser_of_readsBack (h : tables.Standard) {e : Expr}
    (hnamed : e.Named tables) (hreads : e.ReadsBack) :
    ∃ g, e.toExpr = some g ∧ runExprParser tables e.toGql = .ok (g, []) := by
  obtain ⟨g, he⟩ := Expr.exists_toExpr hnamed hreads.literals
  have hlex : e.Literals Value.Lexes := hreads.literals.mono fun value hv => .inr hv
  have htokens : tokenize tables e.toGql = .ok e.tokens :=
    ((Expr.prints_toGql h hnamed hlex).1 [] (by intro c hc; cases hc)).tokenize_eq
  have hexpr : exprPhrase (primaryPhrase tables e.tokens.length) e.tokens g :=
    levelPhrase_mono (Nat.zero_le _) (Expr.levelPhrase_tokens he hreads le_rfl)
  exact ⟨g, he, runExprParser_eq_ok_nil_iff.mpr ⟨e.tokens, htokens, _, hexpr⟩⟩

/-- **The parser reads back exactly the trees** whose literals stand for themselves, and whose
operands need no parentheses where none are printed. -/
theorem runExprParser_toGql_iff (h : tables.Standard) (e : Expr) (hnamed : e.Named tables) :
    (∃ g, e.toExpr = some g ∧ runExprParser tables e.toGql = .ok (g, [])) ↔ e.ReadsBack := by
  constructor
  · rintro ⟨g, he, hparse⟩
    exact Expr.readsBack_of_runExprParser h hnamed he hparse
  · exact Expr.runExprParser_of_readsBack h hnamed

/-- `(p.age + 1 > 20) & (p.name == "Bob")`. -/
def adultTree : Expr :=
  .bin (.bin (.bin (.attr (.var "p") "age") .add (.lit (.int 1))) .gt (.lit (.int 20))) .and
    (.bin (.attr (.var "p") "name") .eq (.lit (.str "Bob")))

theorem runExprParser_toGql_adultTree :
    (∃ g, adultTree.toExpr = some g ∧ runExprParser .ascii adultTree.toGql = .ok (g, [])) ↔
      adultTree.ReadsBack := by
  refine runExprParser_toGql_iff CharTables.ascii_standard adultTree ?_
  simp only [adultTree, Expr.Named]
  decide

/-- `p.age - (p.bonus - 1)` is printed without its parentheses. -/
def bonusTree : Expr :=
  .bin (.attr (.var "p") "age") .sub (.bin (.attr (.var "p") "bonus") .sub (.lit (.int 1)))

/-- `p.city == None` is printed with the word `None`. -/
def cityTree : Expr := .bin (.attr (.var "p") "city") .eq (.lit .pyNone)

/-- Neither is read back. -/
theorem not_runExprParser_toGql :
    (bonusTree.Named .ascii ∧ ¬ ∃ g, bonusTree.toExpr = some g ∧
      runExprParser .ascii bonusTree.toGql = .ok (g, [])) ∧
    (cityTree.Named .ascii ∧ ¬ ∃ g, cityTree.toExpr = some g ∧
      runExprParser .ascii cityTree.toGql = .ok (g, [])) := by
  have hbonus : bonusTree.Named .ascii := by
    simp only [bonusTree, Expr.Named]
    decide
  have hcity : cityTree.Named .ascii := by
    simp only [cityTree, Expr.Named]
    decide
  refine ⟨⟨hbonus, ?_⟩, hcity, ?_⟩
  · rintro ⟨g, he, hparse⟩
    have hreads := Expr.readsBack_of_runExprParser CharTables.ascii_standard hbonus he hparse
    exact absurd hreads (by decide)
  · rintro ⟨g, he, hparse⟩
    have hreads := Expr.readsBack_of_runExprParser CharTables.ascii_standard hcity he hparse
    exact absurd hreads (by decide)

end

end KuzuEventBus.Sdk.Dsl
