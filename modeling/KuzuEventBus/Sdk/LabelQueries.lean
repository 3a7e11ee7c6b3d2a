import KuzuEventBus.Gql.AggregateColumns
import KuzuEventBus.Gql.Projection
import KuzuEventBus.Gql.WhereAlgebra
import KuzuEventBus.Gql.WithSubst
import KuzuEventBus.Sdk.Agreement

/-!
# Queries about a label

The texts `all`, `first` and `count` send when a builder has at most a predicate, from the
characters to the rows: the clauses are read as a query of one node pattern, and the engine
answers it with the nodes of the label on which the condition is true, or with how many they are.

## Main definitions

* `Search` — the clauses of such a text.
* `Search.query` — the query they stand for.
* `nodeTuple` — the row of a node.
* `Search.found` — the nodes on which the condition is true.

## Main results

* `parse_search` — **the text is read as the query.**
* `executeGqlOnStore_count`, `executeGqlOnStore_nodes` — **what the engine answers.**
-/

namespace KuzuEventBus

section
variable {tables : CharTables}

/-- White space has no tokens. -/
theorem Prints.space_cons {text : List Char} {tokens : List Token}
    (htext : Prints tables text tokens) : Prints tables (' ' :: text) tokens := fun rest hrest =>
  (Spells.space (by decide : ∀ c ∈ [' '], Text.isWhiteSpace c = true) _).append (htext rest hrest)

/-- A word, and a text after a space. -/
theorem Prints.word_space (h : tables.Standard) {word text : List Char} {tok : Token}
    {tokens : List Token} (hword : Prints tables word [tok]) (htext : Prints tables text tokens) :
    Prints tables (word ++ ' ' :: text) (tok :: tokens) :=
  hword.append (fun _ _ => h.closes_symbol (.inr (by decide)) (by decide) _) htext.space_cons

/-- The text of a clause, which a space begins, or nothing. -/
def PrintsClause (tables : CharTables) (text : List Char) (tokens : List Token) : Prop :=
  (text = [] ∧ tokens = []) ∨ (text.head? = some ' ' ∧ Prints tables text tokens)

/-- A clause closes what is before it. -/
theorem Prints.append_clause (h : tables.Standard) {text text' : List Char}
    {tokens tokens' : List Token} (htext : Prints tables text tokens)
    (htext' : PrintsClause tables text' tokens') :
    Prints tables (text ++ text') (tokens ++ tokens') := by
  rcases htext' with ⟨rfl, rfl⟩ | ⟨hspace, htext'⟩
  · rw [List.append_nil, List.append_nil]
    exact htext
  · cases text' with
    | nil => cases hspace
    | cons c cs =>
      cases hspace
      refine htext.append (fun _ _ => ?_) htext'
      exact h.closes_symbol (.inr (by decide)) (by decide) _

theorem PrintsClause.append (h : tables.Standard) {text text' : List Char}
    {tokens tokens' : List Token} (htext : PrintsClause tables text tokens)
    (htext' : PrintsClause tables text' tokens') :
    PrintsClause tables (text ++ text') (tokens ++ tokens') := by
  rcases htext with ⟨rfl, rfl⟩ | ⟨hspace, htext⟩
  · exact htext'
  · refine .inr ⟨?_, htext.append_clause h htext'⟩
    rw [List.head?_append, hspace]
    rfl

/-- The clause of a word and a text. -/
theorem PrintsClause.word (h : tables.Standard) {word text : List Char} {tok : Token}
    {tokens : List Token} (hword : Prints tables word [tok]) (htext : Prints tables text tokens) :
    PrintsClause tables (' ' :: (word ++ ' ' :: text)) (tok :: tokens) :=
  .inr ⟨rfl, (hword.word_space h htext).space_cons⟩

end

end KuzuEventBus

namespace KuzuEventBus.Sdk

open Dsl Parsing Phrase

/-! ### The texts -/

/-- The clauses of a text about the entities of a class: the condition, what is returned, and the
limit. -/
structure Search where
  cls : EntityClass
  condition : Option Dsl.Expr
  /-- `COUNT(var)` rather than `var`. -/
  count : Bool
  limit : Option ℤ

namespace Search

/-- The clauses as those of a text. -/
def clauses (q : Search) : Clauses where
  joins := []
  condition := q.condition.elim [] Dsl.Expr.toGql
  set := []
  returned := if q.count then .count else .names [q.cls.var]
  order := []
  limit := q.limit

/-- The names can be written, the condition is read back, and the limit is a literal. -/
structure Writable (tables : CharTables) (q : Search) : Prop where
  label : IsName tables q.cls.label
  var : IsName tables q.cls.var
  named : ∀ e ∈ q.condition, e.Named tables
  readsBack : ∀ e ∈ q.condition, e.ReadsBack
  limit : ∀ n ∈ q.limit, 0 ≤ n ∧ n < 2 ^ 63

/-- The item of the RETURN clause. -/
def item (q : Search) : GqlExpr :=
  if q.count then .aggregate .count (.ident q.cls.var) else .ident q.cls.var

/-- The condition as an expression. -/
def expr (q : Search) : Option GqlExpr := q.condition.bind Dsl.Expr.toExpr

/-- The query of the clauses. -/
def query (q : Search) : Query where
  matchClause := some ⟨[.node ⟨some q.cls.var, [q.cls.label], ∅⟩]⟩
  createClause := none
  withClause := none
  whereClause := q.expr.map fun e => ⟨e⟩
  returnClause := some ⟨[⟨q.item, none⟩]⟩
  orderBy := none
  limit := q.limit.map Int.toNat

/-- The tokens of the text. -/
def tokens (q : Search) : List Token :=
  [.matchKw, .leftParen, .ident q.cls.var, .colon, .ident q.cls.label, .rightParen] ++
    (q.condition.elim [] (fun e => .whereKw :: e.tokens) ++
      (.returnKw :: (if q.count then [.ident "COUNT", .leftParen, .ident q.cls.var, .rightParen]
          else [.ident q.cls.var]) ++
        q.limit.elim [] fun n => [.limitKw, .int (Int64.ofInt n)]))

end Search

section
variable {tables : CharTables}

theorem prints_node (h : tables.Standard) {var label : String} (hvar : IsName tables var)
    (hlabel : IsName tables label) :
    Prints tables ('(' :: (var.toList ++ ':' :: (label.toList ++ [')'])))
      [.leftParen, .ident var, .colon, .ident label, .rightParen] := by
  intro rest _
  have hopen : Spells tables ['('] [.leftParen]
      (var.toList ++ ':' :: (label.toList ++ [')']) ++ rest) := .of_nextToken rfl
  have hname : Spells tables var.toList [.ident var] (':' :: (label.toList ++ [')']) ++ rest) :=
    hvar.prints h _ (h.closes_symbol (.inl (by decide)) (by decide) _)
  have hcolon : Spells tables [':'] [.colon] (label.toList ++ [')'] ++ rest) := .of_nextToken rfl
  have hlabel : Spells tables label.toList [.ident label] ([')'] ++ rest) :=
    hlabel.prints h _ (h.closes_symbol (.inl (by decide)) (by decide) _)
  have hclose : Spells tables [')'] [.rightParen] rest := .of_nextToken rfl
  exact hopen.append (hname.append (hcolon.append (hlabel.append hclose)))

theorem prints_match (h : tables.Standard) {var label : String} (hvar : IsName tables var)
    (hlabel : IsName tables label) :
    Prints tables ("MATCH ".toList ++ ('(' :: (var.toList ++ ':' :: (label.toList ++ [')']))))
      [.matchKw, .leftParen, .ident var, .colon, .ident label, .rightParen] := by
  have hword : Prints tables ['M', 'A', 'T', 'C', 'H'] [.matchKw] :=
    .upperWord h (by decide) (by decide) (by decide)
  exact hword.word_space h (prints_node h hvar hlabel)

theorem prints_where (h : tables.Standard) {condition : Option Dsl.Expr}
    (hnamed : ∀ e ∈ condition, e.Named tables) (hreads : ∀ e ∈ condition, e.ReadsBack) :
    PrintsClause tables (Builder.whereOf (condition.elim [] Dsl.Expr.toGql))
      (condition.elim [] fun e => .whereKw :: e.tokens) := by
  cases condition with
  | none => exact .inl ⟨rfl, rfl⟩
  | some e =>
    have hword : Prints tables ['W', 'H', 'E', 'R', 'E'] [.whereKw] :=
      .upperWord h (by decide) (by decide) (by decide)
    have hlex : e.Literals Dsl.Value.Lexes := (hreads e rfl).literals.mono fun value hv => .inr hv
    obtain ⟨htext, c, cs, heq, -⟩ := Dsl.Expr.prints_toGql h (hnamed e rfl) hlex
    have hne : e.toGql ≠ [] := by
      rw [heq]
      exact List.cons_ne_nil c cs
    rw [Option.elim_some, Builder.whereOf, if_neg hne]
    exact .word h hword htext

theorem prints_returned (h : tables.Standard) {q : Search} (hvar : IsName tables q.cls.var) :
    PrintsClause tables (q.clauses.returned.text q.cls.var)
      (.returnKw :: (if q.count then [.ident "COUNT", .leftParen, .ident q.cls.var, .rightParen]
        else [.ident q.cls.var])) := by
  have hword : Prints tables ['R', 'E', 'T', 'U', 'R', 'N'] [.returnKw] :=
    .upperWord h (by decide) (by decide) (by decide)
  unfold Search.clauses
  cases q.count with
  | true =>
    have hcall : Prints tables (AggFunc.count.print ++ KuzuEventBus.parens [] q.cls.var.toList)
        [.ident "COUNT", .leftParen, .ident q.cls.var, .rightParen] :=
      (AggFunc.count.prints h).call h (by decide) (hvar.prints h)
    exact .word h hword hcall
  | false =>
    show PrintsClause tables ((Returned.names [q.cls.var]).text q.cls.var) _
    rw [Returned.text_names, List.map_singleton, Builder.joinTexts_singleton]
    exact .word h hword (hvar.prints h)

theorem prints_limit (h : tables.Standard) {limit : Option ℤ}
    (hlimit : ∀ n ∈ limit, 0 ≤ n ∧ n < 2 ^ 63) :
    PrintsClause tables (limitClause limit)
      (limit.elim [] fun n => [.limitKw, .int (Int64.ofInt n)]) := by
  cases limit with
  | none => exact .inl ⟨rfl, rfl⟩
  | some n =>
    have hword : Prints tables ['L', 'I', 'M', 'I', 'T'] [.limitKw] :=
      .upperWord h (by decide) (by decide) (by decide)
    obtain ⟨h0, hlt⟩ := hlimit n rfl
    obtain ⟨htext, hi⟩ := intText_of_nonneg h0 hlt
    have hnumber : Prints tables (intText n) [.int (Int64.ofInt n)] := by
      rw [htext]
      exact .number hi
    exact .word h hword hnumber

/-- **The text of a search is read as its tokens.** -/
theorem tokenize_search (h : tables.Standard) {q : Search} (hq : q.Writable tables) :
    tokenize tables (q.clauses.text q.cls) = .ok q.tokens := by
  have hclauses := (prints_where h hq.named hq.readsBack).append h
    ((prints_returned h hq.var).append h (prints_limit h hq.limit))
  have htext := (prints_match h hq.var hq.label).append_clause h hclauses
  rw [List.append_assoc] at htext
  exact (htext [] (by intro c hc; cases hc)).tokenize_eq

/-! ### The query of a text -/

/-- A node pattern of a variable and a label. -/
theorem nodePhrase_label (var label : String) :
    nodePhrase [.leftParen, .ident var, .colon, .ident label, .rightParen]
      ⟨some var, [label], ∅⟩ := by
  have hrest : (propertiesBlockPhrase >>= fun properties => token .rightParen >>= fun _ =>
      (pure ⟨some var, [label], properties⟩ : GqlPhrase NodePattern)) [.rightParen]
        ⟨some var, [label], ∅⟩ :=
    ⟨[], _, ∅, rfl, .inr ⟨rfl, rfl⟩, _, [], (), rfl, rfl, rfl, rfl⟩
  exact ⟨[.leftParen], _, (), rfl, rfl, [.ident var], _, some var, rfl, .inr ⟨var, rfl, _, rfl, rfl⟩,
    [.colon, .ident label], _, [label], rfl, .inl ⟨.ident label, rfl, rfl⟩, hrest⟩

theorem matchPhrase_node (var label : String) :
    matchPhrase [.matchKw, .leftParen, .ident var, .colon, .ident label, .rightParen]
      ⟨[.node ⟨some var, [label], ∅⟩]⟩ := by
  let node : NodePattern := ⟨some var, [label], ∅⟩
  let xs : List Token := [.leftParen, .ident var, .colon, .ident label, .rightParen]
  have hpath : pathMatchPhrase xs [.node node] :=
    ⟨xs, [], node, rfl, nodePhrase_label var label, [], [], (node, [.node node]), rfl, .stop _, rfl,
      rfl⟩
  have hpatterns : patternsMatchPhrase xs [.node node] :=
    ⟨xs, [], [[.node node]], rfl, ⟨xs, [], [.node node], rfl, hpath, .stop _⟩, rfl, rfl⟩
  exact ⟨[.matchKw], xs, (), rfl, rfl, xs, [], [.node node], rfl, hpatterns, rfl, rfl⟩

/-- The tokens of a search are a query. -/
theorem sentence_search (h : tables.Standard) {q : Search} (hq : q.Writable tables) :
    Sentence tables q.tokens q.query := by
  let n := (q.condition.elim [] Dsl.Expr.tokens).length + 2
  have hident {m : ℕ} : exprPhrase (primaryPhrase tables (m + 1)) [.ident q.cls.var]
      (.ident q.cls.var) := exprPhrase_of (.ident (.inr (.inr ⟨rfl, rfl⟩)))
  have hwhere : optional (wherePhrase (exprPhrase (primaryPhrase tables n)))
      (q.condition.elim [] fun e => .whereKw :: e.tokens) (q.query.whereClause) := by
    unfold Search.query Search.expr
    cases hcond : q.condition with
    | none => exact .inl ⟨rfl, rfl⟩
    | some e =>
      have hreads := hq.readsBack e hcond
      obtain ⟨g, hg⟩ := Dsl.Expr.exists_toExpr (hq.named e hcond) hreads.literals
      have hn : e.tokens.length ≤ n := by
        simp only [n, hcond, Option.elim_some]
        omega
      have hexpr : exprPhrase (primaryPhrase tables n) e.tokens g :=
        levelPhrase_mono (Nat.zero_le _) (Dsl.Expr.levelPhrase_tokens hg hreads hn)
      refine .inr ⟨⟨g⟩, ?_, [.whereKw], e.tokens, (), rfl, rfl, e.tokens, [], g,
        (List.append_nil _).symm, hexpr, rfl, rfl⟩
      simp [hg]
  have hitem : exprPhrase (primaryPhrase tables n)
      (if q.count then [.ident "COUNT", .leftParen, .ident q.cls.var, .rightParen]
        else [.ident q.cls.var]) q.item := by
    unfold Search.item
    cases q.count with
    | false => exact hident
    | true =>
      have hfunc : aggFunc? (tables.toUppercase "COUNT") = some .count :=
        AggFunc.aggFunc?_print h .count
      have hcall : callPhrase (exprPhrase (primaryPhrase tables (n - 1))) "COUNT" (some .count)
          [.ident q.cls.var, .rightParen] (.aggregate .count (.ident q.cls.var)) :=
        ⟨[.ident q.cls.var], [.rightParen], _, rfl, hident, [.rightParen], [], (), rfl, rfl, rfl,
          rfl⟩
      rw [← hfunc] at hcall
      exact exprPhrase_of (.ident (.inl ⟨[.leftParen], _, (), rfl, rfl, hcall⟩))
  have hlimit : optional limitPhrase (q.limit.elim [] fun n => [.limitKw, .int (Int64.ofInt n)])
      (q.limit.map Int.toNat) := by
    cases hl : q.limit with
    | none => exact .inl ⟨rfl, rfl⟩
    | some k =>
      obtain ⟨h0, hlt⟩ := hq.limit k hl
      have hval : toU64 (Int64.ofInt k) = k.toNat := by
        unfold toU64
        rw [Int64.toInt_ofInt_of_le (by omega) hlt]
        omega
      exact .inr ⟨k.toNat, rfl, [.limitKw], _, (), rfl, rfl, [.int (Int64.ofInt k)], [],
        Int64.ofInt k, rfl, ⟨_, rfl, rfl⟩, rfl, hval.symm⟩
  have hreturn : returnPhrase (exprPhrase (primaryPhrase tables n)) (.returnKw ::
      (if q.count then [.ident "COUNT", .leftParen, .ident q.cls.var, .rightParen]
        else [.ident q.cls.var])) ⟨[⟨q.item, none⟩]⟩ := by
    refine ⟨[.returnKw], _, (), rfl, rfl, _, [], [⟨q.item, none⟩], (List.append_nil _).symm, ?_,
      rfl, rfl⟩
    refine ⟨_, [], ⟨q.item, none⟩, (List.append_nil _).symm, ?_, .stop _⟩
    exact ⟨_, [], q.item, (List.append_nil _).symm, hitem, rfl, rfl⟩
  -- CREATE, WITH and ORDER BY are not there
  refine ⟨n, _, _, some ⟨[.node ⟨some q.cls.var, [q.cls.label], ∅⟩]⟩, rfl,
    .inr ⟨_, rfl, matchPhrase_node _ _⟩, [], _, none, rfl, .inl ⟨rfl, rfl⟩, [], _, (), rfl,
    ⟨rfl, rfl⟩, [], _, none, rfl, .inl ⟨rfl, rfl⟩, _, _, _, rfl, hwhere, ?_⟩
  refine ⟨_, _, _, rfl, .inr ⟨_, rfl, hreturn⟩, [], _, none, rfl, .inl ⟨rfl, rfl⟩, _, [], _,
    (List.append_nil _).symm, hlimit, rfl, ?_⟩
  rfl

/-- **The text of a search is read as its query.** -/
theorem parse_search (h : tables.Standard) {q : Search} (hq : q.Writable tables) :
    parse tables (String.ofList (q.clauses.text q.cls)) = .ok q.query := by
  have hparse := (parseQuery_eq_ok_nil_iff tables q.tokens q.query).mpr (sentence_search h hq)
  have hrun : runParser tables (String.ofList (q.clauses.text q.cls)) = .ok (q.query, []) := by
    unfold runParser
    rw [String.toList_ofList, tokenize_search h hq]
    exact hparse
  rw [parse, hrun]
  rfl

/-! ### The rows -/

/-- The tuple of a node. -/
def nodeTuple (var : String) (n : Node) : Tuple := bindNode ∅ var n.id n.properties

variable {store : InMemoryGraphStore} {params : Option (HashMap String Json)} {q : Search}

/-- The nodes of the label on which the condition is true. -/
def Search.found (q : Search) (store : InMemoryGraphStore) (params : Option (HashMap String Json)) :
    List Node :=
  (store.scanByLabel q.cls.label).filter fun n => q.expr.all fun g =>
    (readExecutor store params).eval g (nodeTuple q.cls.var n) = .ok (.bool true)

/-- The condition does not panic on the nodes of the label. -/
def Search.Calm (q : Search) (store : InMemoryGraphStore) (params : Option (HashMap String Json)) :
    Prop :=
  ∀ g ∈ q.expr, ∀ n ∈ store.scanByLabel q.cls.label,
    NoPanic ((readExecutor store params).eval g (nodeTuple q.cls.var n))

theorem planSource_query (q : Search) :
    planSource q.query = .ok (.labelScan q.cls.var q.cls.label) := rfl

/-- The engine runs the query of the text. -/
theorem executeGqlOnStore_eq (h : tables.Standard) (hq : q.Writable tables) :
    executeGqlOnStore tables store (String.ofList (q.clauses.text q.cls)) params =
      executeQueryOnStore store params q.query := by
  rw [executeGqlOnStore, parse_search h hq]

/-- The tuples that reach RETURN are those of the nodes that are found. -/
theorem sourceTuples_search (hcalm : q.Calm store params) :
    sourceTuples (readExecutor store params) q.query =
      .ok ((q.found store params).map (nodeTuple q.cls.var)) := by
  have hscan : readNode (readExecutor store params).eval (readExecutor store params).read ∅
      (.labelScan q.cls.var q.cls.label) =
        .ok ((store.scanByLabel q.cls.label).map (nodeTuple q.cls.var)) := rfl
  rw [sourceTuples, planSource_query]
  show readNode _ _ ∅ (planPipeline q.query _) = _
  rw [readNode_planPipeline, hscan]
  show whereTuples _ q.query.whereClause _ = _
  unfold Search.query Search.found
  unfold Search.Calm at hcalm
  cases hexpr : q.expr with
  | none => simp [whereTuples]
  | some g =>
    have hpanic : ∀ t ∈ (store.scanByLabel q.cls.label).map (nodeTuple q.cls.var),
        NoPanic ((readExecutor store params).eval g t) := by
      intro t ht
      obtain ⟨n, hn, rfl⟩ := List.mem_map.mp ht
      exact hcalm g hexpr n hn
    show keptBy (readExecutor store params) g _ = _
    rw [keptBy_of_noPanic hpanic, trueOn, List.filter_map]
    rfl

/-- **How many nodes are found is what the engine answers.** -/
theorem executeGqlOnStore_count (h : tables.Standard) (hq : q.Writable tables)
    (hcount : q.count = true) (hlimit : q.limit = none) (hcalm : q.Calm store params) :
    executeGqlOnStore tables store (String.ofList (q.clauses.text q.cls)) params =
      (.ok ⟨[⟨"count", "any"⟩],
        [[(Value.int (Int64.ofNat (q.found store params).length)).toJson]]⟩, store) := by
  have hitem : q.item = .aggregate .count (.ident q.cls.var) := if_pos hcount
  have hrows : returnPart (readExecutor store params).eval q.query ⟨[⟨q.item, none⟩]⟩
      ((q.found store params).map (nodeTuple q.cls.var)) =
        .ok [(∅ : Tuple).insert "count" (.int (Int64.ofNat (q.found store params).length))] := by
    rw [returnPart, hitem, returnTuples_single rfl, evalAggregate, List.length_map]
    unfold Search.query
    rw [hlimit]
    rfl
  have hagg : ∃ item ∈ ([⟨q.item, none⟩] : List ReturnItem), hasAggregate item.expr = true := by
    rw [hitem]
    exact ⟨_, List.mem_singleton_self _, rfl⟩
  rw [executeGqlOnStore_eq h hq,
    executeQueryOnStore_aggregate rfl rfl hagg (sourceTuples_search hcalm) hrows]
  -- the only column there is has the count
  have hkeys : ((∅ : Tuple).insert "count"
      (.int (Int64.ofNat (q.found store params).length))).keys = ["count"] := rfl
  rw [toQueryResult, List.head?_cons, Option.map_some, hkeys]
  simp only [Option.getD_none, Option.getD_some, List.map_cons, List.map_nil, AList.lookup_insert]

/-- **The nodes that are found are what the engine answers.** -/
theorem executeGqlOnStore_nodes (h : tables.Standard) (hq : q.Writable tables)
    (hcount : q.count = false) (hcalm : q.Calm store params) :
    executeGqlOnStore tables store (String.ofList (q.clauses.text q.cls)) params =
      (.ok ⟨[⟨q.cls.var, "any"⟩], limitTuples (q.limit.map Int.toNat)
        ((q.found store params).map fun n => [(Value.nodeId n.id).toJson])⟩, store) := by
  have hitem : q.item = .ident q.cls.var := if_neg (by simp [hcount])
  let ev := (readExecutor store params).eval
  have heval (n : Node) : ev (.ident q.cls.var) (nodeTuple q.cls.var n) = .ok (.nodeId n.id) := by
    rw [show ev (.ident q.cls.var) _ = _ from eval_ident _ _, nodeTuple, lookup_bindNode_self]
  have hrows : returnTuples ev ⟨[⟨q.item, none⟩]⟩
      ((q.found store params).map (nodeTuple q.cls.var)) =
        .ok (((q.found store params).map (nodeTuple q.cls.var)).map
          (projected ev [⟨q.item, none⟩])) := by
    have hno : ([⟨q.item, none⟩] : List ReturnItem).any (hasAggregate ·.expr) = false := by
      rw [hitem]
      rfl
    rw [returnTuples, hno, if_neg Bool.false_ne_true]
    refine mapM_projectTuple_eq_ok_iff.mpr ⟨?_, rfl⟩
    intro t ht item hitem'
    obtain ⟨n, -, rfl⟩ := List.mem_map.mp ht
    rw [List.mem_singleton.mp hitem', hitem, heval]
    exact .ok _
  have hrow (n : Node) : projectedRow ev [⟨q.item, none⟩] (nodeTuple q.cls.var n) =
      [(Value.nodeId n.id).toJson] := by
    rw [projectedRow_eq_iff.mpr, List.map_singleton, cell, hitem, heval]
    · rfl
    · intro item hi item' hi' _
      rw [List.mem_singleton.mp hi, List.mem_singleton.mp hi']
  have hnames : returnNames ⟨[⟨q.item, none⟩]⟩ = some [q.cls.var] := by
    rw [hitem]
    rfl
  rw [executeGqlOnStore_eq h hq, executeQueryOnStore_eq rfl rfl (sourceTuples_search hcalm), hrows,
    hnames]
  show (Except.ok (toQueryResult (some [q.cls.var]) (limitTuples (q.limit.map Int.toNat) _)),
    store) = _
  have hitems : ([⟨q.item, none⟩] : List ReturnItem).map itemName = [q.cls.var] := by
    rw [hitem]
    rfl
  have hall : (toQueryResult (some (([⟨q.item, none⟩] : List ReturnItem).map itemName))
      (((q.found store params).map (nodeTuple q.cls.var)).map
        (projected ev [⟨q.item, none⟩]))).rows =
      ((q.found store params).map (nodeTuple q.cls.var)).map (projectedRow ev [⟨q.item, none⟩]) :=
    toQueryResult_projected
  have hmap : ((q.found store params).map (nodeTuple q.cls.var)).map
      (projectedRow ev [⟨q.item, none⟩]) =
        (q.found store params).map fun n => [(Value.nodeId n.id).toJson] := by
    rw [List.map_map]
    exact List.map_congr_left fun n _ => hrow n
  rw [hitems, hmap] at hall
  rw [toQueryResult_limit, hall]
  rfl

end

end KuzuEventBus.Sdk
