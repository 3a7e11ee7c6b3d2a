import KuzuEventBus.Sdk.Dsl
import KuzuEventBus.Lib.PyText

/-!
# Lambdas as texts

How `QueryBuilder` of `casys_db/query.py` makes a text of a lambda.  It calls the lambda on a
variable, and prints the tree if the result is one; when the call raises an exception or gives
anything else, the text is cut out of the source code of the lambda instead.

## Main definitions

* `Lambda` — what Python tells of a function.
* `EntityClass` — an entity class, and the relations declared on it.
* `lambdaToGql` — `_lambda_to_gql`.
* `lambdaToExprWithAlias` — `_lambda_to_expr_with_alias`.
* `extractProperty` — `_extract_property_from_lambda`.

## Main results

* `lambdaToGql_of_call` — the text of a predicate that is captured.
-/

namespace KuzuEventBus.Sdk

open Dsl PyText

/-- A Python function. -/
structure Lambda where
  /-- `__code__.co_varnames`. -/
  varnames : List String
  /-- `__code__.co_argcount`. -/
  argcount : ℕ
  /-- `__code__.co_names`. -/
  names : List String
  /-- What the call on `Var(name)` gives, if that is an `Expr`. -/
  call : String → Option Dsl.Expr
  /-- `inspect.getsource`, if there is a source. -/
  source : Option (List Char)

/-- A relation declared on an entity class. -/
structure RelationDescriptor where
  via : String
  target : Option String
  /-- `(target or 'n')[0].lower()`. -/
  targetVar : String
  inverse : Bool
  depthMin : ℤ
  depthMax : ℤ

/-- An entity class. -/
structure EntityClass where
  /-- `_get_label()`. -/
  label : String
  /-- `label[0].lower()`. -/
  var : String
  /-- `_relations`. -/
  relations : List (String × RelationDescriptor)

/-! ### Depths -/

/-- `*n`, or `*n..m`. -/
def depthText (dmin dmax : ℤ) : List Char :=
  if dmin = dmax then '*' :: intText dmin
  else '*' :: (intText dmin ++ ('.' :: '.' :: intText dmax))

/-- `2**31 - 1`. -/
def maxDepth : ℤ := 2 ^ 31 - 1

/-- The depth of a join or an EXISTS clause, if one is given. -/
def depthSpec (min max : Option ℤ) : List Char :=
  if min.isSome || max.isSome then depthText (min.getD 1) (max.getD maxDepth) else []

/-- The depth of a declared relation, unless that is one hop. -/
def RelationDescriptor.depth (desc : RelationDescriptor) : List Char :=
  if desc.depthMin = 1 ∧ desc.depthMax = 1 then [] else depthText desc.depthMin desc.depthMax

/-- `:label`, if there is one. -/
def labelText : Option String → List Char
  | none => []
  | some label => if label = "" then [] else ':' :: label.toList

/-! ### Source code -/

/-- How far the first closing parenthesis that nothing opened is, after `depth` that are open. -/
def closingParen : ℕ → List Char → Option ℕ
  | _, [] => none
  | depth, '(' :: cs => (closingParen (depth + 1) cs).map (· + 1)
  | 0, ')' :: _ => some 0
  | depth + 1, ')' :: cs => (closingParen depth cs).map (· + 1)
  | depth, _ :: cs => (closingParen depth cs).map (· + 1)

/-- The same for a comma outside parentheses too. -/
def closingParenOrComma : ℕ → List Char → Option ℕ
  | _, [] => none
  | depth, '(' :: cs => (closingParenOrComma (depth + 1) cs).map (· + 1)
  | 0, ')' :: _ | 0, ',' :: _ => some 0
  | depth + 1, ')' :: cs => (closingParenOrComma depth cs).map (· + 1)
  | depth, _ :: cs => (closingParenOrComma depth cs).map (· + 1)

/-- The text without what comes after the call that it is an argument of. -/
def trimCall (body : List Char) : List Char :=
  match closingParen 0 body with
  | some (i + 1) => body.take (i + 1)
  | _ => body

/-- `and`, `or`, `not` and `==` of Python as those of the query language. -/
def gqlOperators (body : List Char) : List Char :=
  let body := replace " and ".toList " AND ".toList body
  let body := replace " or ".toList " OR ".toList body
  let body := replace " not ".toList " NOT ".toList body
  replace ['=', '='] ['='] body

/-- `"` as `'`. -/
def gqlQuotes (body : List Char) : List Char := replace ['"'] ['\x27'] body

/-- The parameter of a lambda by its source. -/
def sourceParam (source : List Char) : Option (List Char) :=
  (after? "lambda".toList source).map fun rest => stripChars (before [':'] rest)

/-- The body of a lambda by its source. -/
def sourceBody (source : List Char) : Option (List Char) :=
  ((after? "lambda".toList source).bind (after? [':'])).map stripChars

/-- `param.` as `var.`. -/
def renameParam (param : List Char) (var : String) (body : List Char) : List Char :=
  replace (param ++ ['.']) (var.toList ++ ['.']) body

/-! ### `relation.any()` -/

/-- `_build_exists_for_relation`. -/
def EntityClass.existsForRelation (cls : EntityClass) (desc : RelationDescriptor) : List Char :=
  let base := '(' :: (cls.var.toList ++ ':' :: (cls.label.toList ++ [')']))
  let edge := '[' :: ':' :: (desc.via.toList ++ (desc.depth ++ [']']))
  let target := '(' :: (labelText desc.target ++ [')'])
  let pattern := if desc.inverse then base ++ ('<' :: '-' :: (edge ++ ('-' :: target)))
    else base ++ ('-' :: (edge ++ ('-' :: '>' :: target)))
  "EXISTS \x7b MATCH ".toList ++
    (pattern ++ (" RETURN ".toList ++ (cls.var.toList ++ " \x7d".toList)))

/-- The EXISTS clause for `relation.any(lambda …)`; `arg` is the argument. -/
def EntityClass.existsPredicate (cls : EntityClass) (desc : RelationDescriptor)
    (var : Option String) (arg : List Char) : List Char :=
  let innerParam := ((after? "lambda".toList arg).map fun rest =>
    stripChars (before [':'] rest)).getD []
  let pred := stripChars ((after? [':'] arg).getD [])
  let inner := desc.targetVar.toList
  let body := gqlOperators (gqlQuotes (replace (innerParam ++ ['.']) (inner ++ ['.']) pred))
  let innerNode := '(' :: (inner ++ (labelText desc.target ++ [')']))
  let outerNode := '(' :: ((var.getD cls.var).toList ++ [')'])
  let edge := "-[:".toList ++ (desc.via.toList ++ (desc.depth ++ "]->".toList))
  let pattern := if desc.inverse then innerNode ++ (edge ++ outerNode)
    else outerNode ++ (edge ++ innerNode)
  "EXISTS \x7b MATCH ".toList ++ (pattern ++ (" WHERE ".toList ++ (body ++
    (" RETURN ".toList ++ ((var.getD cls.var).toList ++ " \x7d".toList)))))

/-- The loop over the occurrences of `relation.any(`, from `start` on, for at most `fuel` of
them. -/
def EntityClass.expandAnyPredicate (cls : EntityClass) (desc : RelationDescriptor)
    (var : Option String) (opening : List Char) : ℕ → ℕ → List Char → List Char
  | 0, _, body => body
  | fuel + 1, start, body =>
    match find opening body start with
    | none => body
    | some start =>
      let i := start + opening.length
      match closingParen 0 (body.drop i) with
      | none => body
      | some len =>
        let arg := stripChars ((body.drop i).take len)
        if "lambda".toList.isPrefixOf arg && arg.contains ':' then
          let clause := cls.existsPredicate desc var arg
          let body := body.take start ++ ('(' :: (clause ++ ')' :: body.drop (i + len + 1)))
          cls.expandAnyPredicate desc var opening fuel (start + clause.length + 2) body
        else cls.expandAnyPredicate desc var opening fuel (start + opening.length) body

/-- `relation.any()` and `relation.any(lambda …)` of one relation, of the variables it may be
of. -/
def EntityClass.expandAnyOf (cls : EntityClass) (var : Option String) (body : List Char)
    (relation : String × RelationDescriptor) : List Char :=
  let vars := var.toList ++ [cls.var]
  let opening (v : String) := v.toList ++ '.' :: (relation.1.toList ++ ".any(".toList)
  let body := vars.foldl (fun body v => replace (opening v ++ [')'])
    ('(' :: (cls.existsForRelation relation.2 ++ [')'])) body) body
  vars.foldl (fun body v =>
    cls.expandAnyPredicate relation.2 var (opening v) (body.length + 1) 0 body) body

/-- The same of all relations of the class. -/
def EntityClass.expandAny (cls : EntityClass) (var : Option String) (body : List Char) :
    List Char := cls.relations.foldl (cls.expandAnyOf var) body

/-! ### Texts of lambdas -/

/-- The condition by the source code, without which it is empty. -/
def EntityClass.conditionOfSource (cls : EntityClass) (source : Option (List Char))
    (var : Option String) : List Char :=
  (do
    let source ← source.map stripChars
    let param ← sourceParam source
    let body ← sourceBody source
    let body := trimCall body
    let body := match var with
      | some v => renameParam param v body
      | none => body
    pure (cls.expandAny var (gqlQuotes (gqlOperators body)))).getD []

/-- The name of the parameter. -/
def Lambda.param (f : Lambda) : String :=
  if f.argcount > 0 then f.varnames.headD "x" else "x"

/-- `_lambda_to_gql`. -/
def EntityClass.lambdaToGql (cls : EntityClass) (f : Lambda) (var : Option String) : List Char :=
  match f.call (var.getD f.param) with
  | some e => e.toGql
  | none => cls.conditionOfSource f.source var

/-- `_lambda_to_expr_with_alias`. -/
def lambdaToExprWithAlias (f : Lambda) (aliasName : String) : List Char :=
  match f.call f.param with
  | some e => e.toGql
  | none =>
    match f.names with
    | [name] => (f.varnames.headD "x").toList ++ '.' :: name.toList
    | _ =>
      match f.source.map stripChars with
      | none => aliasName.toList
      | some source =>
        match sourceBody source with
        | none => aliasName.toList
        | some body =>
          let body := body.take ((closingParenOrComma 0 body).getD body.length)
          gqlOperators (gqlQuotes (stripChars body))

/-- The part of a text before the next occurrence of a word, which is `s.split(word)[1]` after the
first one. -/
def secondPart (word cs : List Char) : Option (List Char) := (after? word cs).map (before word)

/-- `_extract_property_from_lambda`. -/
def extractProperty (f : Lambda) (var : Option String) : List Char :=
  let fallback := match var with
    | some v => v.toList ++ ['.', 'i', 'd']
    | none => ['i', 'd']
  (do
    let source ← f.source.map stripChars
    let part ← secondPart "lambda".toList source
    let body ← (secondPart [':'] part).map stripChars
    let body := trimCall body
    pure (match var with
      | some v => renameParam (stripChars (before [':'] part)) v body
      | none => body)).getD fallback

/-- **A predicate that is captured is printed as its tree.** -/
theorem lambdaToGql_of_call {cls : EntityClass} {f : Lambda} {var : Option String} {e : Dsl.Expr}
    (h : f.call (var.getD f.param) = some e) : cls.lambdaToGql f var = e.toGql := by
  unfold EntityClass.lambdaToGql
  rw [h]

/-- A predicate that is captured, over the variable that it is called on. -/
def Lambda.ofTree (param : String) (tree : String → Dsl.Expr) : Lambda where
  varnames := [param]
  argcount := 1
  names := []
  call := fun v => some (tree v)
  source := none

/-- `class Person(NodeEntity)`. -/
def personClass : EntityClass := ⟨"Person", "p", []⟩

/-- `lambda p: p.age > 20`. -/
def ageLambda : Lambda :=
  .ofTree "p" fun v => .bin (.attr (.var v) "age") .gt (.lit (.int 20))

end KuzuEventBus.Sdk
