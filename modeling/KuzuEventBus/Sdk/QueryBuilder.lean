import KuzuEventBus.Lib.HashMap
import KuzuEventBus.Sdk.Lambdas
import Mathlib.Data.List.Perm.Subperm

/-!
# The query builder

`QueryBuilder` of `casys_db/query.py`: the methods that change a builder, the texts that are built
from it, and the methods that send them.  Building a text with `_build_gql` changes the builder as
well: aliases of joins that are taken get a number, and a predicate that was added before
`select()` moves to the place of those added after it.

An EXISTS clause is kept as the arguments it was made from; the class does not change.

## Main definitions

* `Builder` — the state of a builder.
* `Call`, `Builder.apply` — the methods that change it.
* `Builder.buildGql`, `Builder.buildCountGql`, `Builder.updateGql` — the three texts.
* `Request`, `Builder.send` — `all()`, `first()` and `count()`.

## Main results

* `prepare_prepare` — building a text again changes nothing more.
-/

namespace KuzuEventBus.Sdk

open Dsl

/-- The arguments of `where_exists_edge` and `where_not_exists_edge`. -/
structure ExistsEdge where
  rel : String
  /-- `to`. -/
  target : Option String
  min : Option ℤ
  max : Option ℤ
  inverse : Bool
  negated : Bool

/-- A join. -/
structure Join where
  /-- `'in'` instead of `'out'`. -/
  inward : Bool
  via : String
  target : Option String
  aliasName : String
  min : Option ℤ
  max : Option ℤ
  withLabel : Bool

/-- The state of a `QueryBuilder`. -/
structure Builder where
  /-- `entity_class`. -/
  cls : EntityClass
  whereClause : Option Lambda
  /-- The selectors, and whether the order is descending. -/
  orderByClauses : List (Lambda × Bool)
  limitValue : Option ℤ
  depthMin : ℤ
  depthMax : ℤ
  params : HashMap String Dsl.Value
  /-- `(alias, expr_gql)`. -/
  withItems : List (String × List Char)
  returnFields : List String
  existsClauses : List ExistsEdge
  wherePostWith : Option Lambda
  joins : List Join

namespace Builder

/-- `__init__`. -/
def new (cls : EntityClass) : Builder where
  cls := cls
  whereClause := none
  orderByClauses := []
  limitValue := none
  depthMin := 1
  depthMax := 3
  params := ∅
  withItems := []
  returnFields := []
  existsClauses := []
  wherePostWith := none
  joins := []

end Builder

/-! ### Methods that change a builder -/

/-- The calls of a builder. -/
inductive Call where
  | where_ (predicate : Lambda)
  | whereExistsEdge (clause : ExistsEdge)
  | join (j : Join)
  | depth (min max : ℤ)
  /-- `select(alias=selector, …)`. -/
  | select (selectors : List (String × Lambda))
  /-- `select(selector)`: the aliases and expressions found in its source. -/
  | selectDict (items : List (String × List Char))
  | returnFields (fields : List String)
  | orderBy (selector : Lambda) (descending : Bool)
  /-- `take` and `limit`. -/
  | limit (count : ℤ)
  | params (values : List (String × Dsl.Value))

/-- `where`. -/
def Builder.where_ (b : Builder) (predicate : Lambda) : Builder :=
  if b.withItems ≠ [] then { b with wherePostWith := some predicate }
  else { b with whereClause := some predicate }

/-- What `select` keeps of its items. -/
def Builder.selectItems (b : Builder) (items : List (String × List Char)) : Builder :=
  { b with withItems := items, returnFields := items.map Prod.fst }

/-- `take` and `limit`. -/
def Builder.take (b : Builder) (count : ℤ) : Builder := { b with limitValue := some count }

/-- One call; there is no builder after one that raises an exception. -/
def Builder.apply (b : Builder) : Call → Option Builder
  | .where_ predicate => some (b.where_ predicate)
  | .whereExistsEdge clause => some { b with existsClauses := b.existsClauses ++ [clause] }
  | .join j => some { b with joins := b.joins ++ [j] }
  | .depth min max =>
    if min < 0 ∨ max < 0 ∨ max < min then none else some { b with depthMin := min, depthMax := max }
  | .select selectors =>
    if selectors = [] then none
    else some (b.selectItems (selectors.map fun s => (s.1, lambdaToExprWithAlias s.2 s.1)))
  | .selectDict items => some (b.selectItems items)
  | .returnFields fields => some { b with returnFields := fields }
  | .orderBy selector descending =>
    some { b with orderByClauses := b.orderByClauses ++ [(selector, descending)] }
  | .limit count => some (b.take count)
  | .params values =>
    some { b with params := values.foldl (fun ps kv => ps.insert kv.1 kv.2) b.params }

/-! ### Aliases -/

/-- `f"{alias}{suffix}"`. -/
def suffixed (aliasName : String) (suffix : ℕ) : String := aliasName ++ suffix.repr

/-- The first suffix from `suffix` on that gives no used alias, after at most `fuel` others. -/
def freshSuffix (used : List String) (aliasName : String) : ℕ → ℕ → ℕ
  | 0, suffix => suffix
  | fuel + 1, suffix =>
    if suffixed aliasName suffix ∈ used then freshSuffix used aliasName fuel (suffix + 1)
    else suffix

/-- The alias, with a suffix if it is used. -/
def freshAlias (used : List String) (aliasName : String) : String :=
  if aliasName ∈ used then suffixed aliasName (freshSuffix used aliasName (used.length + 1) 2)
  else aliasName

theorem suffixed_injective (aliasName : String) : Function.Injective (suffixed aliasName) := by
  intro m n h
  have hchars := congrArg String.toList h
  rw [suffixed, suffixed, String.toList_append, String.toList_append] at hchars
  exact repr_toList_injective (List.append_cancel_left hchars)

/-- The suffix is fresh, unless all those before it are used. -/
theorem freshSuffix_cases (used : List String) (aliasName : String) :
    ∀ fuel suffix, suffixed aliasName (freshSuffix used aliasName fuel suffix) ∉ used ∨
      ∀ i < fuel, suffixed aliasName (suffix + i) ∈ used := by
  intro fuel
  induction fuel with
  | zero => exact fun suffix => .inr fun i hi => absurd hi (Nat.not_lt_zero i)
  | succ fuel ih =>
    intro suffix
    rw [freshSuffix]
    by_cases hused : suffixed aliasName suffix ∈ used
    · rw [if_pos hused]
      refine (ih (suffix + 1)).imp_right fun h i hi => ?_
      rcases i with _ | i
      · exact hused
      · have := h i (by omega)
        rwa [Nat.add_assoc, Nat.add_comm 1 i] at this
    · rw [if_neg hused]
      exact .inl hused

/-- **There is a fresh suffix among one more than there are used aliases.** -/
theorem freshAlias_not_mem (used : List String) (aliasName : String) :
    freshAlias used aliasName ∉ used := by
  unfold freshAlias
  split
  · refine (freshSuffix_cases used aliasName (used.length + 1) 2).resolve_right fun hall => ?_
    have hnodup : ((List.range (used.length + 1)).map fun i => suffixed aliasName (2 + i)).Nodup :=
      List.nodup_range.map fun i j h => Nat.add_left_cancel (suffixed_injective aliasName h)
    have hsub :
        ((List.range (used.length + 1)).map fun i => suffixed aliasName (2 + i)) ⊆ used := by
      intro name hname
      obtain ⟨i, hi, rfl⟩ := List.mem_map.mp hname
      exact hall i (List.mem_range.mp hi)
    have hlen := (hnodup.subperm hsub).length_le
    rw [List.length_map, List.length_range] at hlen
    omega
  · assumption

theorem freshAlias_of_not_mem {used : List String} {aliasName : String} (h : aliasName ∉ used) :
    freshAlias used aliasName = aliasName := if_neg h

/-- The joins with aliases that differ from each other and from those in use. -/
def renameJoins : List String → List Join → List Join
  | _, [] => []
  | used, j :: js =>
    let aliasName := freshAlias used j.aliasName
    { j with aliasName } :: renameJoins (aliasName :: used) js

/-- Aliases that were made to differ stay as they are. -/
theorem renameJoins_renameJoins (used : List String) (js : List Join) :
    renameJoins used (renameJoins used js) = renameJoins used js := by
  induction js generalizing used with
  | nil => rfl
  | cons j js ih =>
    simp only [renameJoins]
    rw [freshAlias_of_not_mem (freshAlias_not_mem used j.aliasName), ih]

/-! ### Texts -/

/-- The text of an EXISTS clause of entities under the variable `var`. -/
def ExistsEdge.text (clause : ExistsEdge) (var : String) : List Char :=
  let node := '(' :: (var.toList ++ [')'])
  let edge := '[' :: ':' :: (clause.rel.toList ++ (depthSpec clause.min clause.max ++ [']']))
  let target := '(' :: (labelText clause.target ++ [')'])
  let pattern := if clause.inverse then node ++ ('<' :: '-' :: (edge ++ ('-' :: target)))
    else node ++ ('-' :: (edge ++ ('-' :: '>' :: target)))
  let text := "EXISTS \x7b MATCH ".toList ++
    (pattern ++ (" RETURN ".toList ++ (var.toList ++ " \x7d".toList)))
  if clause.negated then "NOT (".toList ++ (text ++ [')']) else text

/-- One more join of a pattern: after it, or before it when it is inward. -/
def Join.extend (pattern : List Char) (j : Join) : List Char :=
  let target := if j.withLabel then labelText j.target else []
  let node := '(' :: (j.aliasName.toList ++ (target ++ [')']))
  let edge := "-[:".toList ++ (j.via.toList ++ (depthSpec j.min j.max ++ "]->".toList))
  if j.inward then node ++ (edge ++ pattern) else pattern ++ (edge ++ node)

/-- Texts with a separator between them. -/
def joinTexts (sep : String) (texts : List (List Char)) : List Char :=
  List.intercalate sep.toList texts

namespace Builder

/-- The variable of the entities. -/
def var (b : Builder) : String := b.cls.var

/-- `({var}:{label})`. -/
def baseNode (b : Builder) : List Char :=
  '(' :: (b.var.toList ++ ':' :: (b.cls.label.toList ++ [')']))

/-- The text of the predicate that was added before `select()`, if there is one. -/
def whereStr (b : Builder) : List Char :=
  match b.whereClause with
  | some predicate => b.cls.lambdaToGql predicate (some b.var)
  | none => []

/-- The text of the predicate that is placed after WITH. -/
def postStr (b : Builder) : List Char :=
  match b.wherePostWith with
  | some predicate => b.cls.lambdaToGql predicate none
  | none => []

/-- A WHERE clause, unless the condition is empty. -/
def whereOf (condition : List Char) : List Char :=
  if condition = [] then [] else " WHERE ".toList ++ condition

/-- What `_build_gql` changes. -/
def prepare (b : Builder) : Builder :=
  let b := { b with joins := renameJoins [b.var] b.joins }
  if b.withItems ≠ [] ∧ b.whereClause.isSome then
    { b with wherePostWith := b.whereClause, whereClause := none }
  else b

/-- **Building a text again changes nothing more.** -/
theorem prepare_prepare (b : Builder) : b.prepare.prepare = b.prepare := by
  unfold prepare
  by_cases h : b.withItems ≠ [] ∧ b.whereClause.isSome
  · simp [h, var, renameJoins_renameJoins]
  · simp [h, var, renameJoins_renameJoins]

theorem prepare_take (b : Builder) (n : ℤ) : (b.take n).prepare = b.prepare.take n := by
  unfold prepare take
  dsimp only [var]
  split <;> rfl

/-- The MATCH clause. -/
def matchText (b : Builder) : List Char :=
  "MATCH ".toList ++ b.joins.foldl Join.extend b.baseNode

/-- The conditions before WITH. -/
def whereParts (b : Builder) : List (List Char) :=
  (if b.whereStr = [] then [] else [b.whereStr]) ++ b.existsClauses.map (·.text b.var)

/-- The WITH clause, and the WHERE clause after it. -/
def withText (b : Builder) : List Char :=
  if b.withItems = [] then []
  else
    let kept := if b.wherePostWith.isSome then [b.var.toList] else []
    let items := b.withItems.map fun item => item.2 ++ (" AS ".toList ++ item.1.toList)
    " WITH ".toList ++ (joinTexts ", " (kept ++ items) ++ whereOf b.postStr)

/-- The RETURN clause. -/
def returnText (b : Builder) : List Char :=
  " RETURN ".toList ++
    (if b.returnFields = [] then b.var.toList
    else joinTexts ", " (b.returnFields.map String.toList))

/-- The ORDER BY clause. -/
def orderText (b : Builder) : List Char :=
  if b.orderByClauses = [] then []
  else
    let var := if b.withItems = [] then some b.var else none
    " ORDER BY ".toList ++ joinTexts ", " (b.orderByClauses.map fun clause =>
      extractProperty clause.1 var ++ (if clause.2 then " DESC".toList else " ASC".toList))

/-- The LIMIT clause; a limit of 0 is none. -/
def limitText (limit : Option ℤ) : List Char :=
  match limit with
  | some n => if n = 0 then [] else " LIMIT ".toList ++ intText n
  | none => []

/-- The text that `_build_gql` makes, once it has changed what it changes. -/
def gqlText (b : Builder) : List Char :=
  b.matchText ++ (whereOf (joinTexts " AND " b.whereParts) ++ (b.withText ++ (b.returnText ++
    (b.orderText ++ limitText b.limitValue))))

/-- `_build_gql`. -/
def buildGql (b : Builder) : List Char × Builder := (b.prepare.gqlText, b.prepare)

/-- `_build_count_gql`. -/
def buildCountGql (b : Builder) : List Char :=
  "MATCH ".toList ++ (b.baseNode ++ (whereOf b.whereStr ++
    (" RETURN COUNT(".toList ++ (b.var.toList ++ [')']))))

/-- The text of `update`, and its parameters; without fields it raises an exception. -/
def updateGql (b : Builder) (fields : List (String × Dsl.Value)) :
    Option (List Char × HashMap String Dsl.Value) :=
  if fields = [] then none
  else
    let parts := fields.map fun kv =>
      b.var.toList ++ '.' :: (kv.1.toList ++ (" = $u_".toList ++ kv.1.toList))
    some ("MATCH ".toList ++ (b.baseNode ++ (whereOf b.whereStr ++ (" SET ".toList ++
        (joinTexts ", " parts ++ (" RETURN COUNT(".toList ++ (b.var.toList ++ [')'])))))),
      fields.foldl (fun params kv => params.insert ("u_" ++ kv.1) kv.2) b.params)

end Builder

/-! ### Methods that send a text -/

/-- A row of a result. -/
inductive Row where
  | dict (values : HashMap String Dsl.Value)
  | list (values : List Dsl.Value)
  | single (value : Dsl.Value)

/-- The result of a query. -/
structure QueryResult where
  columns : List String
  rows : List Row

/-- What `branch.query` answers to a text and its parameters. -/
abbrev Database := List Char → Option (HashMap String Dsl.Value) → QueryResult

/-- An element of what `all` returns: a new entity, whatever the row is, or a `SimpleNamespace`. -/
inductive Item where
  | entity (label : String)
  | namespace_ (values : HashMap String Dsl.Value)

/-- A row under the names of the fields. -/
def Row.toNamespace (fields : List String) : Row → HashMap String Dsl.Value
  | .dict values => values
  | .list values =>
    (fields.zipIdx.map fun f => (f.1, values.getD f.2 .pyNone)).foldl
      (fun data kv => data.insert kv.1 kv.2) ∅
  | .single value =>
    (fields.head?.map fun field => (∅ : HashMap String Dsl.Value).insert field value).getD ∅

/-- The methods that send a text. -/
inductive Request where
  | all
  | first
  | count
  deriving DecidableEq

/-- What they return; `none` of a count is an exception. -/
inductive Answer where
  | items (items : List Item)
  | item (item : Option Item)
  | count (value : Option Dsl.Value)

namespace Builder

/-- The parameters that are sent. -/
def sentParams (b : Builder) : Option (HashMap String Dsl.Value) :=
  if b.params.entries = [] then none else some b.params

/-- `all`. -/
def all (b : Builder) (db : Database) : List Item × Builder :=
  let (gql, b) := b.buildGql
  let result := db gql b.sentParams
  (if b.returnFields = [] then result.rows.map fun _ => .entity b.cls.label
    else result.rows.map fun row => .namespace_ (row.toNamespace b.returnFields), b)

/-- `first`. -/
def first (b : Builder) (db : Database) : Option Item × Builder :=
  let (results, b) := (b.take 1).all db
  (results.head?, b)

/-- `count`. -/
def count (b : Builder) (db : Database) : Option Dsl.Value :=
  match (db b.buildCountGql b.sentParams).rows with
  | [] => some (.int 0)
  | .list (value :: _) :: _ => some value
  | _ => none

/-- One of the methods: what it returns, and the builder after it. -/
def send (b : Builder) (db : Database) : Request → Answer × Builder
  | .all => ((b.all db).1 |> .items, (b.all db).2)
  | .first => ((b.first db).1 |> .item, (b.first db).2)
  | .count => (.count (b.count db), b)

/-- The text that it sends. -/
def sentText (b : Builder) : Request → List Char
  | .all => b.buildGql.1
  | .first => (b.take 1).buildGql.1
  | .count => b.buildCountGql

end Builder

end KuzuEventBus.Sdk
