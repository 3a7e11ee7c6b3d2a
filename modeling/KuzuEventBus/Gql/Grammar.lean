import KuzuEventBus.Gql.Parser

/-!
# The grammar

The grammar that the rules of the parser describe: for each rule, the phrases it
is for, and what they mean.  Nothing here looks ahead, and a phrase is all of its
tokens; what a phrase may be followed by is not part of the grammar.

## Main definitions

* `nodePhrase`, `edgePhrase`, `patternsMatchPhrase`, `patternsCreatePhrase` — patterns.
* `PrimaryPhrase`, `primaryPhrase`, `exprPhrase` — expressions.
* `queryPhrase` — queries.
* `Sentence` — the texts that are queries from end to end.
-/

namespace KuzuEventBus

open Parsing Phrase

/-- Phrases of the query language. -/
abbrev GqlPhrase := Phrase Token

/-- One or more items with commas between them. -/
def commaListPhrase {α : Type} (item : GqlPhrase α) : GqlPhrase (List α) := do
  let first ← item
  loop (fun items => do
    token .comma
    let item ← item
    pure (items ++ [item])) [first]

/-! ### Patterns -/

/-- `key: value`, and a comma unless it is the last one. -/
def propertyPhrase (st : HashMap String Literal × Bool) :
    GqlPhrase (HashMap String Literal × Bool) := do
  guard (st.2 = true)
  let key ← tokenMap Token.ident?
  token .colon
  let val ← tokenMap Token.literal?
  let more ← flag .comma
  pure (st.1.insert key val, more)

/-- The properties between the braces. -/
def propertiesPhrase : GqlPhrase (HashMap String Literal) := do
  let (props, _) ← loop propertyPhrase (∅, true)
  pure props

/-- Properties in braces, or nothing. -/
def propertiesBlockPhrase : GqlPhrase (HashMap String Literal) :=
  either
    (do
      token .leftBrace
      let props ← propertiesPhrase
      token .rightBrace
      pure props)
    (pure ∅)

/-- A colon and one more token, or nothing. -/
def labelsPhrase : GqlPhrase (List String) := fun xs labels =>
  (∃ t, xs = [.colon, t] ∧ labels = t.ident?.toList) ∨ (xs = [] ∧ labels = [])

/-- `(var:Label {properties})`. -/
def nodePhrase : GqlPhrase NodePattern := do
  token .leftParen
  let var ← optional (tokenMap Token.ident?)
  let labels ← labelsPhrase
  let properties ← propertiesBlockPhrase
  token .rightParen
  pure ⟨var, labels, properties⟩

/-- The forms of a depth range. -/
inductive DepthRangePhrase : GqlPhrase (Option DepthRange)
  /-- No range. -/
  | none : DepthRangePhrase [] none
  /-- `*n`. -/
  | exact (n : Int64) : DepthRangePhrase [.star, .int n] (some ⟨toU32 n, toU32 n⟩)
  /-- `*n..m`. -/
  | between (n m : Int64) :
      DepthRangePhrase [.star, .int n, .dotDot, .int m] (some ⟨toU32 n, toU32 m⟩)
  /-- `*n..`. -/
  | since (n : Int64) : DepthRangePhrase [.star, .int n, .dotDot] (some ⟨toU32 n, maxU32⟩)
  /-- `*..m`. -/
  | upTo (m : Int64) : DepthRangePhrase [.star, .dotDot, .int m] (some ⟨0, toU32 m⟩)
  /-- `*`. -/
  | any : DepthRangePhrase [.star] (some ⟨1, maxU32⟩)

/-- `:A|B`, or nothing. -/
def edgeTypePhrase : GqlPhrase (Option String) :=
  either
    (do
      token .colon
      let first ← tokenMap Token.ident?
      let types ← loop (fun types => do
        token .pipe
        let type ← tokenMap Token.ident?
        pure (types ++ [type])) [first]
      pure (some ("|".intercalate types)))
    (pure none)

/-- The depth is given in one place at most. -/
def finalDepthPhrase (inside outside : Option DepthRange) : GqlPhrase (Option DepthRange) := do
  guard (inside = none ∨ outside = none)
  pure (inside.orElse fun _ => outside)

/-- `[var:TYPE*n..m {properties}]*n..m`, or nothing. -/
def edgeBodyPhrase : GqlPhrase EdgeBody :=
  either
    (do
      token .leftBracket
      let var ← optional (tokenMap Token.ident?)
      let edgeType ← edgeTypePhrase
      let depth ← DepthRangePhrase
      let properties ← propertiesBlockPhrase
      token .rightBracket
      let depthOutside ← DepthRangePhrase
      let depth ← finalDepthPhrase depth depthOutside
      pure ⟨var, edgeType, properties, depth⟩)
    (pure ⟨none, none, ∅, none⟩)

/-- `<-` or `-`. -/
def edgeStartPhrase : GqlPhrase Direction :=
  either
    (do
      token .leftArrow
      pure .left)
    (do
      token .minus
      pure .both)

/-- `->`, `-` or nothing after `-`; nothing after `<-`. -/
def edgeEndPhrase (direction : Direction) : GqlPhrase Direction :=
  if direction = .both then
    either
      (do
        token .arrow
        pure .right)
      (either
        (do
          token .minus
          pure .both)
        (pure .both))
  else pure direction

/-- An edge pattern, and the node pattern it leads to. -/
def edgePhrase (fromNode : NodePattern) : GqlPhrase EdgePattern := do
  let start ← edgeStartPhrase
  let body ← edgeBodyPhrase
  let direction ← edgeEndPhrase start
  let toNode ← nodePhrase
  pure ⟨body.var, body.edgeType, direction, body.properties, fromNode, toNode, body.depth⟩

/-- One more edge of a path. -/
def edgeStepPhrase (st : NodePattern × List Pattern) : GqlPhrase (NodePattern × List Pattern) := do
  let edge ← edgePhrase st.1
  pure (edge.toNode, st.2 ++ [.edge edge])

/-- A path of a MATCH clause. -/
def pathMatchPhrase : GqlPhrase (List Pattern) := do
  let fromNode ← nodePhrase
  let (_, patterns) ← loop edgeStepPhrase (fromNode, [.node fromNode])
  pure patterns

/-- The patterns of a MATCH clause. -/
def patternsMatchPhrase : GqlPhrase (List Pattern) := do
  let paths ← commaListPhrase pathMatchPhrase
  pure paths.flatten

/-- A path of a CREATE clause, after `patterns`. -/
def pathCreatePhrase (patterns : List Pattern) : GqlPhrase (List Pattern) := do
  let fromNode ← nodePhrase
  let (lastNode, patterns) ← loop edgeStepPhrase (fromNode, patterns)
  pure (if endsWithEdge patterns then patterns else patterns ++ [.node lastNode])

/-- The patterns of a CREATE clause. -/
def patternsCreatePhrase : GqlPhrase (List Pattern) := do
  let first ← pathCreatePhrase []
  loop (fun patterns => do
    token .comma
    pathCreatePhrase patterns) first

/-- A MATCH clause. -/
def matchPhrase : GqlPhrase MatchClause := do
  token .matchKw
  let patterns ← patternsMatchPhrase
  pure ⟨patterns⟩

/-- A CREATE clause. -/
def createPhrase : GqlPhrase CreateClause := do
  token .createKw
  let patterns ← patternsCreatePhrase
  pure ⟨patterns⟩

/-! ### Operators -/

/-- Operands with operators between them, associating to the left. -/
def binaryChainPhrase (op? : Token → Option BinOp) (operand : GqlPhrase Expr) :
    GqlPhrase Expr := do
  let left ← operand
  loop (fun left => do
    let op ← tokenMap op?
    let right ← operand
    pure (.binaryOp left op right)) left

section
variable (primary : GqlPhrase Expr)

/-- Products. -/
def multiplicativePhrase : GqlPhrase Expr := binaryChainPhrase multiplicativeOp? primary

/-- Sums. -/
def additivePhrase : GqlPhrase Expr := binaryChainPhrase additiveOp? (multiplicativePhrase primary)

/-- The right operand of a comparison operator. -/
def comparandPhrase (left : Expr) : Option BinOp → GqlPhrase Expr
  | some op => do
    let right ← additivePhrase primary
    pure (.binaryOp left op right)
  | none => pure left

/-- `IS [NOT] NULL`, a comparison operator and its right operand, or nothing. -/
def comparisonTailPhrase (left : Expr) : GqlPhrase Expr :=
  either
    (do
      token .isKw
      let isNot ← flag .notKw
      token .nullKw
      pure (if isNot then .isNotNull left else .isNull left))
    (do
      let op ← optional (tokenMap comparisonOp?)
      comparandPhrase primary left op)

/-- Comparisons. -/
def comparisonPhrase : GqlPhrase Expr := do
  let left ← additivePhrase primary
  comparisonTailPhrase primary left

/-- Conjunctions. -/
def andPhrase : GqlPhrase Expr := binaryChainPhrase andOp? (comparisonPhrase primary)

/-- Expressions. -/
def exprPhrase : GqlPhrase Expr := binaryChainPhrase orOp? (andPhrase primary)

end

/-! ### Clauses and queries -/

section
variable (expr : GqlPhrase Expr)

/-- A WHERE clause. -/
def wherePhrase : GqlPhrase WhereClause := do
  token .whereKw
  let e ← expr
  pure ⟨e⟩

/-- An item of a WITH clause. -/
def withItemPhrase : GqlPhrase WithItem := do
  let e ← expr
  token .asKw
  let aliasName ← tokenMap Token.ident?
  pure ⟨e, aliasName⟩

/-- A WITH clause. -/
def withPhrase : GqlPhrase WithClause := do
  token .withKw
  let items ← commaListPhrase (withItemPhrase expr)
  pure ⟨items⟩

/-- An item of a RETURN clause. -/
def returnItemPhrase : GqlPhrase ReturnItem := do
  let e ← expr
  pure ⟨e, none⟩

/-- A RETURN clause. -/
def returnPhrase : GqlPhrase ReturnClause := do
  token .returnKw
  let items ← commaListPhrase (returnItemPhrase expr)
  pure ⟨items⟩

/-- An item of an ORDER BY clause. -/
def orderByItemPhrase : GqlPhrase OrderByItem := do
  let e ← expr
  let descending ← optional (tokenMap direction?)
  pure ⟨e, descending.getD false⟩

/-- An ORDER BY clause. -/
def orderByPhrase : GqlPhrase OrderByClause := do
  token .orderKw
  token .byKw
  let items ← commaListPhrase (orderByItemPhrase expr)
  pure ⟨items⟩

/-- A LIMIT clause. -/
def limitPhrase : GqlPhrase ℕ := do
  token .limitKw
  let n ← tokenMap Token.int?
  pure (toU64 n)

/-- A query: each clause at most once, in this order, the first or the second of them there. -/
def queryPhrase : GqlPhrase Query := do
  let matchClause ← optional matchPhrase
  let createClause ← optional createPhrase
  guard ((matchClause.isNone && createClause.isNone) = false)
  let withClause ← optional (withPhrase expr)
  let whereClause ← optional (wherePhrase expr)
  let returnClause ← optional (returnPhrase expr)
  let orderBy ← optional (orderByPhrase expr)
  let limit ← optional limitPhrase
  pure ⟨matchClause, createClause, withClause, whereClause, returnClause, orderBy, limit⟩

/-! ### Primary expressions -/

/-- Arguments of a function call. -/
def argsPhrase : GqlPhrase (List Expr) := either (pure []) (commaListPhrase expr)

/-- The arguments of a call, and its closing parenthesis. -/
def callPhrase (name : String) : Option AggFunc → GqlPhrase Expr
  | some func => do
    let arg ← expr
    token .rightParen
    pure (.aggregate func arg)
  | none => do
    let args ← argsPhrase expr
    token .rightParen
    pure (.functionCall name args)

/-- A call, a property, or nothing, after an identifier. -/
def afterIdentPhrase (tables : CharTables) (name : String) : GqlPhrase Expr :=
  either
    (do
      token .leftParen
      callPhrase expr name (aggFunc? (tables.toUppercase name)))
    (either
      (do
        token .dot
        let prop ← tokenMap Token.ident?
        pure (.property name prop))
      (pure (.ident name)))

end

/-- The forms of a primary expression; `primary` are those that may stand inside it. -/
inductive PrimaryPhrase (tables : CharTables) (primary : GqlPhrase Expr) : GqlPhrase Expr
  /-- `$name`. -/
  | parameter (name : String) :
      PrimaryPhrase tables primary [.dollar, .ident name] (.parameter name)
  /-- A variable, a property or a call. -/
  | ident {name : String} {xs : List Token} {e : Expr}
      (h : afterIdentPhrase (exprPhrase primary) tables name xs e) :
      PrimaryPhrase tables primary (.ident name :: xs) e
  /-- `NOT` of a primary expression. -/
  | not {xs : List Token} {e : Expr} (h : primary xs e) :
      PrimaryPhrase tables primary (.notKw :: xs) (.unaryOp .not e)
  /-- `EXISTS` of a query. -/
  | exists {xs : List Token} {q : Query} (h : queryPhrase (exprPhrase primary) xs q) :
      PrimaryPhrase tables primary (.existsKw :: .leftBrace :: (xs ++ [.rightBrace])) (.exists q)
  /-- An expression in parentheses. -/
  | paren {xs : List Token} {e : Expr} (h : exprPhrase primary xs e) :
      PrimaryPhrase tables primary (.leftParen :: (xs ++ [.rightParen])) e
  /-- A literal. -/
  | literal {t : Token} {l : Literal} (h : t.literal? = some l) :
      PrimaryPhrase tables primary [t] (.literal l)

/-- Primary expressions with fewer than `n` primary expressions around the innermost one. -/
def primaryPhrase (tables : CharTables) : ℕ → GqlPhrase Expr
  | 0 => fun _ _ => False
  | n + 1 => PrimaryPhrase tables (primaryPhrase tables n)

/-- The tokens are a query, all of them. -/
def Sentence (tables : CharTables) (tokens : List Token) (q : Query) : Prop :=
  ∃ n, queryPhrase (exprPhrase (primaryPhrase tables n)) tokens q

end KuzuEventBus
