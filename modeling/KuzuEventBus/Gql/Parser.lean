import KuzuEventBus.Gql.Ast
import KuzuEventBus.Gql.Lexer
import KuzuEventBus.Lib.Parsing
import Mathlib.Algebra.Group.Int.Defs

/-!
# The parser

`Parser` of `casys_engine/src/exec/parser.rs`.  The state is the list of tokens
that remain, so `peek` at `Eof` sees the empty list, and `advance` there stays.
The rules for expressions are written over the rule for primary expressions,
which calls them; the calls are bounded by the number of tokens.

## Main definitions

* `parseNodePattern`, `parseEdgePattern`, `parsePatternsMatch`, `parsePatternsCreate` — patterns.
* `parsePrimary`, `parseExpr` — expressions.
* `parseQuery` — queries.
* `runParser`, `parse` — whole texts, with and without the tokens left over.
-/

namespace KuzuEventBus

open Parsing

/-- Parsers of queries. -/
abbrev GqlParser := Parsing.Parser Token Fault

/-- `EngineError::InvalidArgument`. -/
def parseError (msg : String) : Fault := .error (.invalidArgument msg)

/-- `Parser::expect`. -/
def expectToken (expected : Token) : GqlParser Unit :=
  expect expected fun got =>
    parseError ("expected " ++ Token.debug (some expected) ++ ", got " ++ Token.debug got)

namespace Token

/-- The name of an identifier. -/
def ident? : Token → Option String
  | .ident name => some name
  | _ => none

/-- The value of an integer. -/
def int? : Token → Option Int64
  | .int n => some n
  | _ => none

/-- The literal a token stands for. -/
def literal? : Token → Option Literal
  | .string s => some (.string s)
  | .int i => some (.int i)
  | .float f => some (.float f)
  | .trueKw => some (.bool true)
  | .falseKw => some (.bool false)
  | .nullKw => some .null
  | _ => none

end Token

/-- The loop `item { "," item }` of the clauses. -/
def commaList {α : Type} (item : GqlParser α) : GqlParser (List α) := do
  let first ← item
  loopWhile (fun _ next => next = some .comma) (fun items => do
    expectToken .comma
    let item ← item
    pure (items ++ [item])) [first]

/-! ### Patterns -/

/-- `parse_literal`. -/
def parseLiteral : GqlParser Literal :=
  expectMap Token.literal? fun got => parseError ("expected literal, got " ++ Token.debug got)

/-- One round of `parse_properties`; the flag tells whether a comma asks for another one. -/
def parseProperty (st : HashMap String Literal × Bool) :
    GqlParser (HashMap String Literal × Bool) := do
  let key ← expectMap Token.ident? fun _ => parseError "expected property key"
  expectToken .colon
  let val ← parseLiteral
  let more ← accept .comma
  pure (st.1.insert key val, more)

/-- `parse_properties`: a comma before the closing brace is allowed. -/
def parseProperties : GqlParser (HashMap String Literal) := do
  let (props, _) ← loopWhile (fun st next => st.2 && next != some .rightBrace)
    parseProperty (∅, true)
  pure props

/-- Properties in braces, if there are any. -/
def parsePropertiesBlock : GqlParser (HashMap String Literal) :=
  ifNext .leftBrace
    (do
      let props ← parseProperties
      expectToken .rightBrace
      pure props)
    (pure ∅)

/-- The label of a node pattern: whatever token follows the colon is consumed, and is a label
if it is an identifier. -/
def parseLabels : GqlParser (List String)
  | .colon :: label :: ts => .ok (label.ident?.toList, ts)
  | [.colon] => .ok ([], [])
  | ts => .ok ([], ts)

/-- `parse_node_pattern`. -/
def parseNodePattern : GqlParser NodePattern := do
  expectToken .leftParen
  let var ← acceptMap Token.ident?
  let labels ← parseLabels
  let properties ← parsePropertiesBlock
  expectToken .rightParen
  pure ⟨var, labels, properties⟩

/-- `as u32`. -/
def toU32 (n : Int64) : ℕ := (n.toInt % 2 ^ 32).toNat

/-- `as u64`. -/
def toU64 (n : Int64) : ℕ := (n.toInt % 2 ^ 64).toNat

/-- `u32::MAX`. -/
def maxU32 : ℕ := 2 ^ 32 - 1

/-- `parse_depth_range`. -/
def parseDepthRange : GqlParser (Option DepthRange)
  | .star :: .int n :: .dotDot :: .int m :: ts => .ok (some ⟨toU32 n, toU32 m⟩, ts)
  | .star :: .int n :: .dotDot :: ts => .ok (some ⟨toU32 n, maxU32⟩, ts)
  | .star :: .int n :: ts => .ok (some ⟨toU32 n, toU32 n⟩, ts)
  | .star :: .dotDot :: .int m :: ts => .ok (some ⟨0, toU32 m⟩, ts)
  | .star :: .dotDot :: _ => .error (parseError "expected number after ..")
  | .star :: ts => .ok (some ⟨1, maxU32⟩, ts)
  | ts => .ok (none, ts)

/-- The type of an edge pattern, the types of a union joined by bars. -/
def parseEdgeType : GqlParser (Option String) :=
  ifNext .colon
    (do
      let first ← expectMap Token.ident? fun _ => parseError "expected type after :"
      let types ← loopWhile (fun _ next => next = some .pipe) (fun types => do
        expectToken .pipe
        let type ← expectMap Token.ident? fun _ => parseError "expected type after |"
        pure (types ++ [type])) [first]
      pure (some ("|".intercalate types)))
    (pure none)

/-- The depth of an edge pattern, given inside the brackets or after them. -/
def finalDepth : Option DepthRange → Option DepthRange → GqlParser (Option DepthRange)
  | some _, some _ => throw (parseError "depth specified twice (inside and outside bracket)")
  | some d, none => pure (some d)
  | none, depthOutside => pure depthOutside

/-- What stands between the brackets of an edge pattern, and the depth after them. -/
structure EdgeBody where
  var : Option String
  edgeType : Option String
  properties : HashMap String Literal
  depth : Option DepthRange

/-- The brackets of an edge pattern, if there are any. -/
def parseEdgeBody : GqlParser EdgeBody :=
  ifNext .leftBracket
    (do
      let var ← acceptMap Token.ident?
      let edgeType ← parseEdgeType
      let depth ← parseDepthRange
      let properties ← parsePropertiesBlock
      expectToken .rightBracket
      let depthOutside ← parseDepthRange
      let depth ← finalDepth depth depthOutside
      pure ⟨var, edgeType, properties, depth⟩)
    (pure ⟨none, none, ∅, none⟩)

/-- The symbol an edge pattern begins with. -/
def parseEdgeStart : GqlParser Direction :=
  ifNext .leftArrow (pure .left)
    (do
      expectToken .minus
      pure .both)

/-- The symbol an edge pattern ends with; after `<-` none is looked for. -/
def parseEdgeEnd (direction : Direction) : GqlParser Direction :=
  if direction = .both then ifNext .arrow (pure .right) (ifNext .minus (pure .both) (pure .both))
  else pure direction

/-- `parse_edge_pattern`. -/
def parseEdgePattern (fromNode : NodePattern) : GqlParser EdgePattern := do
  let start ← parseEdgeStart
  let body ← parseEdgeBody
  let direction ← parseEdgeEnd start
  let toNode ← parseNodePattern
  pure ⟨body.var, body.edgeType, direction, body.properties, fromNode, toNode, body.depth⟩

/-- The token after a node pattern is the beginning of an edge pattern. -/
def edgeAhead (next : Option Token) : Bool := next = some .minus || next = some .leftArrow

/-- The edge patterns of a path, after its first node: the last node, and the patterns so far. -/
def parseEdges : NodePattern × List Pattern → GqlParser (NodePattern × List Pattern) :=
  loopWhile (fun _ next => edgeAhead next) fun st => do
    let edge ← parseEdgePattern st.1
    pure (edge.toNode, st.2 ++ [.edge edge])

/-- One path of `parse_patterns_match`: its first node, then its edges. -/
def parsePathMatch : GqlParser (List Pattern) := do
  let fromNode ← parseNodePattern
  let (_, patterns) ← parseEdges (fromNode, [.node fromNode])
  pure patterns

/-- `parse_patterns_match`. -/
def parsePatternsMatch : GqlParser (List Pattern) := do
  let paths ← commaList parsePathMatch
  pure paths.flatten

/-- The last pattern is an edge. -/
def endsWithEdge (patterns : List Pattern) : Bool :=
  match patterns.getLast? with
  | some (.edge _) => true
  | _ => false

/-- One path of `parse_patterns_create`: its edges, and its last node unless the last pattern
of all is an edge. -/
def parsePathCreate (patterns : List Pattern) : GqlParser (List Pattern) := do
  let fromNode ← parseNodePattern
  let (lastNode, patterns) ← parseEdges (fromNode, patterns)
  pure (if endsWithEdge patterns then patterns else patterns ++ [.node lastNode])

/-- `parse_patterns_create`. -/
def parsePatternsCreate : GqlParser (List Pattern) := do
  let first ← parsePathCreate []
  loopWhile (fun _ next => next = some .comma) (fun patterns => do
    expectToken .comma
    parsePathCreate patterns) first

/-- `parse_match`. -/
def parseMatch : GqlParser MatchClause := do
  expectToken .matchKw
  let patterns ← parsePatternsMatch
  pure ⟨patterns⟩

/-- `parse_create`. -/
def parseCreate : GqlParser CreateClause := do
  expectToken .createKw
  let patterns ← parsePatternsCreate
  pure ⟨patterns⟩

/-! ### Operators -/

/-- The operator of `parse_or_expr`. -/
def orOp? : Token → Option BinOp
  | .orKw => some .or
  | _ => none

/-- The operator of `parse_and_expr`. -/
def andOp? : Token → Option BinOp
  | .andKw => some .and
  | _ => none

/-- The operators of `parse_comparison`. -/
def comparisonOp? : Token → Option BinOp
  | .eq => some .eq
  | .ne => some .ne
  | .lt => some .lt
  | .le => some .le
  | .gt => some .gt
  | .ge => some .ge
  | _ => none

/-- The operators of `parse_additive`. -/
def additiveOp? : Token → Option BinOp
  | .plus => some .add
  | .minus => some .sub
  | _ => none

/-- The operators of `parse_multiplicative`. -/
def multiplicativeOp? : Token → Option BinOp
  | .star => some .mul
  | .slash => some .div
  | _ => none

/-- The loop `operand { op operand }`, associating to the left. -/
def binaryChain (op? : Token → Option BinOp) (operand : GqlParser Expr) : GqlParser Expr := do
  let left ← operand
  loopWhile (fun _ next => (next.bind op?).isSome) (fun left => do
    let op ← expectMap op? fun got => parseError ("expected operator, got " ++ Token.debug got)
    let right ← operand
    pure (.binaryOp left op right)) left

section
variable (primary : GqlParser Expr)

/-- `parse_multiplicative`. -/
def parseMultiplicative : GqlParser Expr := binaryChain multiplicativeOp? primary

/-- `parse_additive`. -/
def parseAdditive : GqlParser Expr := binaryChain additiveOp? (parseMultiplicative primary)

/-- What follows the left operand of a comparison operator, if there is one. -/
def parseComparand (left : Expr) : Option BinOp → GqlParser Expr
  | some op => do
    let right ← parseAdditive primary
    pure (.binaryOp left op right)
  | none => pure left

/-- `parse_comparison`, after its left operand. -/
def parseComparisonTail (left : Expr) : GqlParser Expr :=
  ifNext .isKw
    (do
      let isNot ← accept .notKw
      expectToken .nullKw
      pure (if isNot then .isNotNull left else .isNull left))
    (do
      let op ← acceptMap comparisonOp?
      parseComparand primary left op)

/-- `parse_comparison`. -/
def parseComparison : GqlParser Expr := do
  let left ← parseAdditive primary
  parseComparisonTail primary left

/-- `parse_and_expr`. -/
def parseAndExpr : GqlParser Expr := binaryChain andOp? (parseComparison primary)

/-- `parse_or_expr`, and `parse_expr`. -/
def parseExpr : GqlParser Expr := binaryChain orOp? (parseAndExpr primary)

end

/-! ### Clauses and queries -/

section
variable (expr : GqlParser Expr)

/-- `parse_where`. -/
def parseWhere : GqlParser WhereClause := do
  expectToken .whereKw
  let e ← expr
  pure ⟨e⟩

/-- One item of `parse_with`. -/
def parseWithItem : GqlParser WithItem := do
  let e ← expr
  expectToken .asKw
  let aliasName ← expectMap Token.ident? fun _ => parseError "expected alias after AS"
  pure ⟨e, aliasName⟩

/-- `parse_with`. -/
def parseWith : GqlParser WithClause := do
  expectToken .withKw
  let items ← commaList (parseWithItem expr)
  pure ⟨items⟩

/-- One item of `parse_return`. -/
def parseReturnItem : GqlParser ReturnItem := do
  let e ← expr
  pure ⟨e, none⟩

/-- `parse_return`. -/
def parseReturn : GqlParser ReturnClause := do
  expectToken .returnKw
  let items ← commaList (parseReturnItem expr)
  pure ⟨items⟩

/-- The direction after an item of `parse_order_by`. -/
def direction? : Token → Option Bool
  | .descKw => some true
  | .ascKw => some false
  | _ => none

/-- One item of `parse_order_by`. -/
def parseOrderByItem : GqlParser OrderByItem := do
  let e ← expr
  let descending ← acceptMap direction?
  pure ⟨e, descending.getD false⟩

/-- `parse_order_by`. -/
def parseOrderBy : GqlParser OrderByClause := do
  expectToken .orderKw
  expectToken .byKw
  let items ← commaList (parseOrderByItem expr)
  pure ⟨items⟩

/-- The LIMIT clause of `parse_query`. -/
def parseLimit : GqlParser ℕ := do
  expectToken .limitKw
  let n ← expectMap Token.int? fun _ => parseError "expected int after LIMIT"
  pure (toU64 n)

/-- The check of `parse_query` after its first two clauses. -/
def requirePattern (m : Option MatchClause) (c : Option CreateClause) : GqlParser Unit := fun ts =>
  if m.isNone && c.isNone then
    .error (parseError ("expected MATCH or CREATE, got " ++ Token.debug ts.head?))
  else .ok ((), ts)

/-- `parse_query`. -/
def parseQuery : GqlParser Query := do
  let matchClause ← optionalAt .matchKw parseMatch
  let createClause ← optionalAt .createKw parseCreate
  requirePattern matchClause createClause
  let withClause ← optionalAt .withKw (parseWith expr)
  let whereClause ← optionalAt .whereKw (parseWhere expr)
  let returnClause ← optionalAt .returnKw (parseReturn expr)
  let orderBy ← optionalAt .orderKw (parseOrderBy expr)
  let limit ← optionalAt .limitKw parseLimit
  pure ⟨matchClause, createClause, withClause, whereClause, returnClause, orderBy, limit⟩

/-! ### Primary expressions -/

/-- The aggregate functions, by their names in upper case. -/
def aggFunc? (upper : String) : Option AggFunc :=
  [("COUNT", AggFunc.count), ("SUM", .sum), ("AVG", .avg), ("MIN", .min), ("MAX", .max)].lookup
    upper

/-- The arguments of a function call. -/
def parseArgs : GqlParser (List Expr) := fun ts =>
  if ts.head? = some .rightParen then .ok ([], ts) else commaList expr ts

/-- A call in `parse_primary`, after its opening parenthesis. -/
def parseCall (name : String) : Option AggFunc → GqlParser Expr
  | some func => do
    let arg ← expr
    expectToken .rightParen
    pure (.aggregate func arg)
  | none => do
    let args ← parseArgs expr
    expectToken .rightParen
    pure (.functionCall name args)

/-- What follows an identifier in `parse_primary`: a call, a property, or nothing. -/
def parseAfterIdent (tables : CharTables) (name : String) : GqlParser Expr :=
  ifNext .leftParen (parseCall expr name (aggFunc? (tables.toUppercase name)))
    (ifNext .dot
      (do
        let prop ← expectMap Token.ident? fun _ => parseError "expected property name"
        pure (.property name prop))
      (pure (.ident name)))

end

/-- `parse_primary`, with at most `fuel` calls of itself nested. -/
def parsePrimary (tables : CharTables) : ℕ → GqlParser Expr
  | 0 => throw (.panic "out of fuel")
  | fuel + 1 => fun
    | .dollar :: ts => (do
        let name ← expectMap Token.ident? fun _ => parseError "expected parameter name after $"
        pure (.parameter name) : GqlParser Expr) ts
    | .ident name :: ts =>
      parseAfterIdent (parseExpr (parsePrimary tables fuel)) tables name ts
    | .notKw :: ts => (do
        let operand ← parsePrimary tables fuel
        pure (.unaryOp .not operand) : GqlParser Expr) ts
    | .existsKw :: ts => (do
        expectToken .leftBrace
        let subquery ← parseQuery (parseExpr (parsePrimary tables fuel))
        expectToken .rightBrace
        pure (.exists subquery) : GqlParser Expr) ts
    | .leftParen :: ts => (do
        let e ← parseExpr (parsePrimary tables fuel)
        expectToken .rightParen
        pure e : GqlParser Expr) ts
    | ts => (do
        let l ← expectMap Token.literal? fun got =>
          parseError ("unexpected token in expr: " ++ Token.debug got)
        pure (.literal l) : GqlParser Expr) ts

/-! ### Texts -/

/-- `Parser::new` and `parse_query`: the query of a text, and the tokens after it.  The calls
of `parse_primary` nest less deep than there are tokens. -/
def runParser (tables : CharTables) (input : String) : Except Fault (Query × List Token) := do
  let tokens ← tokenize tables input.toList
  parseQuery (parseExpr (parsePrimary tables (tokens.length + 1))) tokens

/-- `parse`. -/
def parse (tables : CharTables) (input : String) : Except Fault Query :=
  (runParser tables input).map Prod.fst

end KuzuEventBus
