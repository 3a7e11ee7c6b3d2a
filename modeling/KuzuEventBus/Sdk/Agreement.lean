import KuzuEventBus.Sdk.Rerun
import Mathlib.Data.List.Dedup

/-!
# What `all`, `first`, `count` and `update` have in common

The texts of a builder without `select()`, and what the query language says of them.  A text is a
MATCH clause with joins, a condition, SET, what is returned, an order and a limit.  `all()` has the
joins and the EXISTS clauses, which `count()` and `update()` leave out; and a limit of 0 is no
limit.

## Main definitions

* `Clauses`, `Clauses.text` — the clauses of a text.
* `Graph` — a database, and the parts of the query language that are not about rows.
* `Graph.rows`, `Graph.answer`, `Graph.updated` — the rows of a text, what it returns, and the nodes
  that it sets properties of.
* `Agrees` — the four methods agree.
* `OneMatchEach` — a node has one match when it satisfies the condition, and none otherwise.

## Main results

* `buildGql_text`, `buildCountGql_text`, `updateGql_text` — the clauses of the four texts.
* `agrees_iff` — **the four methods agree exactly when nodes have one match each.**
-/

namespace KuzuEventBus.Sdk

open Dsl

/-! ### Clauses -/

/-- What a text returns. -/
inductive Returned where
  | names (columns : List String)
  | count

/-- The clauses of a text about the entities of a class. -/
structure Clauses where
  joins : List Join
  /-- The text of the condition; there is no WHERE clause if it is empty. -/
  condition : List Char
  /-- The text of the SET clause, if there is one. -/
  set : List Char
  returned : Returned
  /-- The text of the ORDER BY clause, if there is one. -/
  order : List Char
  limit : Option ℤ

/-- The text of a RETURN clause. -/
def Returned.text (var : String) : Returned → List Char
  | .names columns => " RETURN ".toList ++ joinTexts ", " (columns.map String.toList)
  | .count => " RETURN COUNT(".toList ++ (var.toList ++ [')'])

theorem Returned.text_names (var : String) (columns : List String) :
    (Returned.names columns).text var =
      " RETURN ".toList ++ joinTexts ", " (columns.map String.toList) := rfl

theorem Returned.text_count (var : String) :
    Returned.count.text var = " RETURN COUNT(".toList ++ (var.toList ++ [')']) := rfl

/-- The text of a LIMIT clause. -/
def limitClause : Option ℤ → List Char
  | some n => " LIMIT ".toList ++ intText n
  | none => []

/-- The text of the clauses. -/
def Clauses.text (cls : EntityClass) (q : Clauses) : List Char :=
  "MATCH ".toList ++ (q.joins.foldl Join.extend (Builder.new cls).baseNode ++
    (Builder.whereOf q.condition ++ (q.set ++ (q.returned.text cls.var ++
      (q.order ++ limitClause q.limit)))))

namespace Builder

/-- The clauses of `all()`: a limit of 0 is none. -/
def allClauses (b : Builder) : Clauses where
  joins := renameJoins [b.var] b.joins
  condition := joinTexts " AND " b.whereParts
  set := []
  returned := .names (if b.returnFields = [] then [b.var] else b.returnFields)
  order := b.orderText
  limit := b.limitValue.filter (· ≠ 0)

/-- The clauses of `count()`. -/
def countClauses (b : Builder) : Clauses where
  joins := []
  condition := b.whereStr
  set := []
  returned := .count
  order := []
  limit := none

/-- The clauses of `update()`. -/
def updateClauses (b : Builder) (fields : List (String × Dsl.Value)) : Clauses :=
  { b.countClauses with
    set := " SET ".toList ++ joinTexts ", " (fields.map fun kv =>
      b.var.toList ++ '.' :: (kv.1.toList ++ (" = $u_".toList ++ kv.1.toList))) }

theorem limitText_eq (limit : Option ℤ) :
    limitText limit = limitClause (limit.filter (· ≠ 0)) := by
  cases limit with
  | none => rfl
  | some n =>
    by_cases hn : n = 0
    · rw [hn]
      rfl
    · have hfilter : (some n).filter (· ≠ 0) = some n := by simp [hn]
      rw [hfilter]
      exact if_neg hn

theorem joinTexts_singleton (sep : String) (text : List Char) : joinTexts sep [text] = text := by
  unfold joinTexts
  rw [List.intercalate_singleton]

theorem returnText_eq (b : Builder) : b.returnText = (Returned.names
    (if b.returnFields = [] then [b.var] else b.returnFields)).text b.cls.var := by
  unfold returnText
  by_cases hfields : b.returnFields = []
  · rw [if_pos hfields, if_pos hfields, Returned.text_names, List.map_singleton,
      joinTexts_singleton]
  · rw [if_neg hfields, if_neg hfields, Returned.text_names]

/-- **The clauses of `all()`**, when nothing was selected. -/
theorem buildGql_text {b : Builder} (hitems : b.withItems = []) :
    b.buildGql.1 = b.allClauses.text b.cls := by
  have hprepare : b.prepare = { b with joins := renameJoins [b.var] b.joins } := by
    unfold prepare
    exact if_neg fun h => h.1 hitems
  have hwith : ({ b with joins := renameJoins [b.var] b.joins } : Builder).withText = [] :=
    if_pos hitems
  rw [buildGql, hprepare, gqlText, hwith, returnText_eq, limitText_eq]
  -- with `unfold` the words of the texts are not evaluated
  unfold matchText Clauses.text allClauses
  simp only [List.nil_append, List.append_assoc]
  rfl

/-- **The clauses of `count()`.** -/
theorem buildCountGql_text (b : Builder) : b.buildCountGql = b.countClauses.text b.cls := by
  have hlimit : limitClause none = [] := rfl
  unfold buildCountGql Clauses.text countClauses
  simp only [hlimit, Returned.text_count, List.append_nil, List.nil_append, List.foldl_nil]
  rfl

/-- **The clauses of `update()`.** -/
theorem updateGql_text {b : Builder} {fields : List (String × Dsl.Value)} (hfields : fields ≠ []) :
    ∃ params, b.updateGql fields = some ((b.updateClauses fields).text b.cls, params) := by
  unfold updateGql
  rw [if_neg hfields]
  refine ⟨_, congrArg some (Prod.ext ?_ rfl)⟩
  have hlimit : limitClause none = [] := rfl
  unfold Clauses.text updateClauses countClauses
  simp only [hlimit, Returned.text_count, List.append_nil, List.foldl_nil, List.append_assoc]
  rfl

end Builder

/-! ### Rows -/

/-- A match of a pattern: the entity, both ends of the pattern so far, and the nodes of the
joins. -/
structure PatternMatch (α : Type*) where
  entity : α
  head : α
  last : α
  joined : List (String × α)

/-- The match of a pattern without joins. -/
def PatternMatch.single {α : Type*} (node : α) : PatternMatch α := ⟨node, node, node, []⟩

/-- A database, and the parts of the query language that are not about rows. -/
structure GraphData (α : Type*) where
  /-- The nodes with a label. -/
  labelled : String → List α
  nodup : ∀ label, (labelled label).Nodup
  /-- The nodes that a join leads to from a node, one for each way there. -/
  reach : Join → α → List α
  /-- Which matches satisfy a condition. -/
  satisfies : List Char → PatternMatch α → Bool
  /-- ORDER BY. -/
  sort : List Char → List (PatternMatch α) → List (PatternMatch α)
  sort_perm : ∀ order ms, (sort order ms).Perm ms
  /-- The value of a column. -/
  value : String → PatternMatch α → Dsl.Value

namespace GraphData

variable {α : Type*} (g : GraphData α)

/-- The matches with one more join. -/
def extend (ms : List (PatternMatch α)) (j : Join) : List (PatternMatch α) :=
  ms.flatMap fun m =>
    if j.inward then (g.reach j m.head).map fun node =>
      { m with head := node, joined := m.joined ++ [(j.aliasName, node)] }
    else (g.reach j m.last).map fun node =>
      { m with last := node, joined := m.joined ++ [(j.aliasName, node)] }

/-- The matches of a pattern. -/
def matchesOf (label : String) (joins : List Join) : List (PatternMatch α) :=
  joins.foldl g.extend ((g.labelled label).map .single)

/-- A match passes the WHERE clause, if there is one. -/
def passes (condition : List Char) (m : PatternMatch α) : Bool :=
  condition = [] || g.satisfies condition m

/-- The matches that pass the WHERE clause. -/
def passing (label : String) (q : Clauses) : List (PatternMatch α) :=
  (g.matchesOf label q.joins).filter (g.passes q.condition)

/-- The rows of a text: in order, and no more than the limit. -/
def rows (label : String) (q : Clauses) : List (PatternMatch α) :=
  let ms := g.sort q.order (g.passing label q)
  match q.limit with
  | some n => ms.take n.toNat
  | none => ms

/-- What a text returns: the columns of each row, or how many rows there are. -/
def answer (label : String) (q : Clauses) : List Row :=
  match q.returned with
  | .names columns => (g.rows label q).map fun m => .list (columns.map fun x => g.value x m)
  | .count => [.list [.int (g.rows label q).length]]

/-- The nodes of the entities in the rows of a text, which are those that its SET clause is for. -/
def entities (label : String) (q : Clauses) : Set α :=
  {node | ∃ m ∈ g.rows label q, m.entity = node}

/-! ### How many rows -/

variable {g}

/-- A join leads from a match to others of the same entity. -/
theorem entity_of_mem_extend {ms : List (PatternMatch α)} {j : Join} {m : PatternMatch α}
    (h : m ∈ g.extend ms j) : ∃ m' ∈ ms, m'.entity = m.entity := by
  obtain ⟨m', hm', hm⟩ := List.mem_flatMap.mp h
  split at hm
  · obtain ⟨node, -, rfl⟩ := List.mem_map.mp hm
    exact ⟨m', hm', rfl⟩
  · obtain ⟨node, -, rfl⟩ := List.mem_map.mp hm
    exact ⟨m', hm', rfl⟩

/-- **Every match is one of an entity with the label.** -/
theorem entity_mem_labelled {label : String} {joins : List Join} {m : PatternMatch α}
    (h : m ∈ g.matchesOf label joins) : m.entity ∈ g.labelled label := by
  unfold matchesOf at h
  induction joins using List.reverseRecOn generalizing m with
  | nil =>
    obtain ⟨node, hnode, rfl⟩ := List.mem_map.mp h
    exact hnode
  | append_singleton joins j ih =>
    rw [List.foldl_concat] at h
    obtain ⟨m', hm', hentity⟩ := entity_of_mem_extend h
    rw [← hentity]
    exact ih hm'

/-- Without a limit there is a row for each match that passes. -/
theorem rows_perm {label : String} {q : Clauses} (h : q.limit = none) :
    (g.rows label q).Perm (g.passing label q) := by
  unfold rows
  rw [h]
  exact g.sort_perm _ _

theorem entities_eq {label : String} {q : Clauses} (h : q.limit = none) :
    g.entities label q = {node | node ∈ (g.passing label q).map (·.entity)} := by
  ext node
  have hmem (m : PatternMatch α) : m ∈ g.rows label q ↔ m ∈ g.passing label q :=
    (rows_perm h).mem_iff
  simp [entities, hmem]

end GraphData

/-! ### The four methods -/

namespace Builder

/-- A builder with a limit, or without one. -/
def withLimit (b : Builder) (limit : Option ℤ) : Builder := { b with limitValue := limit }

/-- What `all` makes of a row. -/
def itemOf (b : Builder) (row : Row) : Item :=
  if b.returnFields = [] then .entity b.cls.label else .namespace_ (row.toNamespace b.returnFields)

/-- What `all` returns, when nothing was selected. -/
theorem all_fst {b : Builder} (hitems : b.withItems = []) (db : Database) :
    (b.all db).1 = (db (b.allClauses.text b.cls) b.sentParams).rows.map b.itemOf := by
  have hsend := b.send_fst db .all
  have hall : (b.all db).1 = if b.returnFields = [] then
      (db b.buildGql.1 b.sentParams).rows.map fun _ => Item.entity b.cls.label
    else (db b.buildGql.1 b.sentParams).rows.map fun row =>
      .namespace_ (row.toNamespace b.returnFields) := Answer.items.inj hsend
  rw [hall, buildGql_text hitems]
  unfold itemOf
  split <;> rfl

end Builder

section
variable {α : Type*}

/-- The database answers the texts of a builder as the query language says: those of `all()`
without a limit, with a limit of 1 and with one of `n`, and that of `count()`. -/
structure Answers (db : Database) (g : GraphData α) (b : Builder) (n : ℕ) : Prop where
  all : ∀ limit ∈ [none, some 1, some (n : ℤ)],
    (db ((b.withLimit limit).allClauses.text b.cls) b.sentParams).rows =
      g.answer b.cls.label (b.withLimit limit).allClauses
  count : (db (b.countClauses.text b.cls) b.sentParams).rows =
    g.answer b.cls.label b.countClauses

/-- `count()` returns how many rows `all()` has without a limit, `all()` has `n` of them after
`take(n)` if there are so many, `first()` returns the first one, and `update()` is for the nodes in
them. -/
structure FourAgree (db : Database) (g : GraphData α) (b : Builder) (n : ℕ) : Prop where
  count : b.count db = some (.int ((b.withLimit none).all db).1.length)
  take : ((b.take n).all db).1.length = min n ((b.withLimit none).all db).1.length
  first : (b.first db).1 = ((b.withLimit none).all db).1.head?
  update : ∀ fields ≠ [], g.entities b.cls.label (b.updateClauses fields) =
    g.entities b.cls.label (b.withLimit none).allClauses

/-- A node that satisfies the condition has one match with the joins and the EXISTS clauses, and
any other node has none.  With a limit of 0, no node satisfies the condition. -/
structure OneMatchEach [DecidableEq α] (g : GraphData α) (b : Builder) (n : ℕ) : Prop where
  one : ∀ node ∈ g.labelled b.cls.label,
    ((g.passing b.cls.label b.allClauses).countP fun m => m.entity = node) =
      if g.passes b.whereStr (.single node) then 1 else 0
  limit : n = 0 → ∀ node ∈ g.labelled b.cls.label, g.passes b.whereStr (.single node) = false

variable {g : GraphData α} {b : Builder} {db : Database} {n : ℕ}

/-- The nodes that `count()` counts. -/
def counted (g : GraphData α) (b : Builder) : List α :=
  (g.labelled b.cls.label).filter fun node => g.passes b.whereStr (.single node)

/-- The entities in the rows of `all()` without a limit. -/
def found (g : GraphData α) (b : Builder) : List α :=
  (g.passing b.cls.label b.allClauses).map (·.entity)

theorem counted_nodup : (counted g b).Nodup := (g.nodup _).filter _

/-- The rows of `count()` and of `update()` are those of the nodes that are counted. -/
theorem passing_countClauses : g.passing b.cls.label b.countClauses =
    (counted g b).map .single := by
  unfold GraphData.passing counted GraphData.matchesOf Builder.countClauses
  rw [List.foldl_nil, List.filter_map]
  rfl

/-- What `count` returns. -/
theorem count_eq (h : Answers db g b n) :
    b.count db = some (.int (counted g b).length) := by
  have hrows : (g.rows b.cls.label b.countClauses).length = (counted g b).length := by
    rw [(GraphData.rows_perm rfl).length_eq, passing_countClauses, List.length_map]
  unfold Builder.count
  rw [Builder.buildCountGql_text, h.count]
  change some (Dsl.Value.int (g.rows b.cls.label b.countClauses).length) = _
  rw [hrows]

/-- What `all` returns under one of the limits. -/
theorem all_eq (hitems : b.withItems = []) (h : Answers db g b n) {limit : Option ℤ}
    (hlimit : limit ∈ [none, some 1, some (n : ℤ)]) :
    ((b.withLimit limit).all db).1 =
      (g.answer b.cls.label (b.withLimit limit).allClauses).map b.itemOf := by
  rw [Builder.all_fst (b := b.withLimit limit) hitems]
  exact congrArg (List.map b.itemOf) (h.all limit hlimit)

/-- The rows of `all()` without a limit. -/
def allRows (g : GraphData α) (b : Builder) : List (PatternMatch α) :=
  g.rows b.cls.label (b.withLimit none).allClauses

/-- A limit takes as many of them, unless it is 0. -/
theorem rows_withLimit (limit : Option ℤ) :
    g.rows b.cls.label (b.withLimit limit).allClauses =
      ((limit.filter (· ≠ 0)).map fun n => (allRows g b).take n.toNat).getD (allRows g b) := by
  unfold allRows GraphData.rows
  have hlimit : (b.withLimit limit).allClauses.limit = limit.filter (· ≠ 0) := rfl
  rw [hlimit]
  cases limit.filter (· ≠ 0) <;> rfl

/-- What `all` makes of the rows. -/
def itemsOf (g : GraphData α) (b : Builder) (ms : List (PatternMatch α)) : List Item :=
  (ms.map fun m => Row.list ((if b.returnFields = [] then [b.var] else b.returnFields).map
    fun x => g.value x m)).map b.itemOf

theorem all_eq_itemsOf (hitems : b.withItems = []) (h : Answers db g b n) {limit : Option ℤ}
    (hlimit : limit ∈ [none, some 1, some (n : ℤ)]) :
    ((b.withLimit limit).all db).1 =
      itemsOf g b (g.rows b.cls.label (b.withLimit limit).allClauses) :=
  all_eq hitems h hlimit

theorem length_itemsOf (ms : List (PatternMatch α)) : (itemsOf g b ms).length = ms.length := by
  unfold itemsOf
  rw [List.length_map, List.length_map]

/-- **There are as many rows without a limit as entities found.** -/
theorem length_all (hitems : b.withItems = []) (h : Answers db g b n) :
    ((b.withLimit none).all db).1.length = (found g b).length := by
  rw [all_eq_itemsOf hitems h (by simp), length_itemsOf, (GraphData.rows_perm rfl).length_eq]
  unfold found
  rw [List.length_map]
  rfl

/-- `take(n)` is right unless it is `take(0)`. -/
theorem take_iff (hitems : b.withItems = []) (h : Answers db g b n) :
    ((b.take n).all db).1.length = min n ((b.withLimit none).all db).1.length ↔
      (n = 0 → found g b = []) := by
  have htake : ((b.take n).all db).1.length =
      (g.rows b.cls.label (b.withLimit (some n)).allClauses).length :=
    (congrArg List.length (all_eq_itemsOf hitems h (by simp))).trans (length_itemsOf _)
  have hall : (allRows g b).length = (found g b).length := by
    rw [← length_all hitems h, all_eq_itemsOf hitems h (by simp), length_itemsOf]
    rfl
  rw [htake, length_all hitems h, rows_withLimit, ← List.length_eq_zero_iff]
  by_cases hn : n = 0
  · subst hn
    have hnone : (some ((0 : ℕ) : ℤ)).filter (· ≠ 0) = none := rfl
    rw [hnone, Option.map_none, Option.getD_none, hall]
    omega
  · have hsome : (some (n : ℤ)).filter (· ≠ 0) = some (n : ℤ) := by simp [hn]
    rw [hsome, Option.map_some, Option.getD_some, List.length_take, hall, Int.toNat_natCast]
    omega

/-- `first()` is always right. -/
theorem first_eq (hitems : b.withItems = []) (h : Answers db g b n) :
    (b.first db).1 = ((b.withLimit none).all db).1.head? := by
  have hone : (some (1 : ℤ)).filter (· ≠ 0) = some 1 := rfl
  change ((b.withLimit (some 1)).all db).1.head? = _
  rw [all_eq_itemsOf hitems h (by simp), all_eq_itemsOf hitems h (by simp), rows_withLimit, hone]
  change (itemsOf g b ((allRows g b).take 1)).head? = (itemsOf g b (allRows g b)).head?
  unfold itemsOf
  cases allRows g b <;> rfl

/-- `update()` is right when the nodes counted are those found. -/
theorem update_iff : (∀ fields ≠ [], g.entities b.cls.label (b.updateClauses fields) =
      g.entities b.cls.label (b.withLimit none).allClauses) ↔
    ∀ node, node ∈ counted g b ↔ node ∈ found g b := by
  have hupdate (fields : List (String × Dsl.Value)) :
      g.entities b.cls.label (b.updateClauses fields) = {node | node ∈ counted g b} := by
    rw [GraphData.entities_eq rfl]
    have hpassing : g.passing b.cls.label (b.updateClauses fields) =
      (counted g b).map .single := passing_countClauses
    rw [hpassing, List.map_map]
    simp [Function.comp_def, PatternMatch.single]
  have hall : g.entities b.cls.label (b.withLimit none).allClauses =
      {node | node ∈ found g b} := GraphData.entities_eq rfl
  rw [hall]
  constructor
  · intro h node
    have := h [("x", .pyNone)] (by simp)
    rw [hupdate] at this
    exact Set.ext_iff.mp this node
  · intro h fields _
    rw [hupdate]
    exact Set.ext h

/-- **Nodes have one match each when the entities found are those counted, as often.** -/
theorem one_iff_perm [DecidableEq α] : (∀ node ∈ g.labelled b.cls.label,
    ((g.passing b.cls.label b.allClauses).countP fun m => m.entity = node) =
      if g.passes b.whereStr (.single node) then 1 else 0) ↔ (found g b).Perm (counted g b) := by
  have hfound (node : α) : (found g b).count node =
      (g.passing b.cls.label b.allClauses).countP fun m => m.entity = node := by
    unfold found
    rw [List.count, List.countP_map]
    congr 1
  have hcounted {node : α} (hnode : node ∈ g.labelled b.cls.label) : (counted g b).count node =
      if g.passes b.whereStr (.single node) then 1 else 0 := by
    by_cases hpasses : g.passes b.whereStr (.single node) = true
    · rw [if_pos hpasses]
      exact List.count_eq_one_of_mem counted_nodup (List.mem_filter.mpr ⟨hnode, hpasses⟩)
    · rw [if_neg hpasses]
      exact List.count_eq_zero_of_not_mem fun h => hpasses (List.mem_filter.mp h).2
  rw [List.perm_iff_count]
  constructor
  · intro h node
    by_cases hnode : node ∈ g.labelled b.cls.label
    · rw [hfound, hcounted hnode]
      exact h node hnode
    · -- no other node is found or counted
      rw [List.count_eq_zero_of_not_mem fun h => ?_, List.count_eq_zero_of_not_mem fun h => ?_]
      · exact hnode (List.mem_filter.mp h).1
      · obtain ⟨m, hm, rfl⟩ := List.mem_map.mp h
        exact hnode (GraphData.entity_mem_labelled (List.mem_filter.mp hm).1)
  · intro h node hnode
    rw [← hfound, ← hcounted hnode]
    exact h node

/-- **The four methods agree exactly when each node that satisfies the condition has one match, no
other node has one, and a limit of 0 is only given when no node satisfies the condition.** -/
theorem agrees_iff [DecidableEq α] (hitems : b.withItems = []) (h : Answers db g b n) :
    FourAgree db g b n ↔ OneMatchEach g b n := by
  constructor
  · rintro ⟨hcount, htake, -, hupdate⟩
    rw [count_eq h, length_all hitems h] at hcount
    have hlen : (counted g b).length = (found g b).length := by
      have := Dsl.Value.int.inj (Option.some.inj hcount)
      omega
    have hmem := update_iff.mp hupdate
    -- the nodes counted differ from each other, so as many found are the same ones
    have hperm : (found g b).Perm (counted g b) :=
      ((counted_nodup.subperm fun node hnode => (hmem node).mp hnode).perm_of_length_le
        hlen.ge).symm
    refine ⟨one_iff_perm.mpr hperm, fun hn node hnode => ?_⟩
    have hnone := (take_iff hitems h).mp htake hn
    rw [hnone] at hperm
    have hempty : counted g b = [] := hperm.nil_eq.symm
    by_contra hpasses
    have hin : node ∈ counted g b := List.mem_filter.mpr ⟨hnode, by simpa using hpasses⟩
    rw [hempty] at hin
    cases hin
  · rintro ⟨hone, hlimit⟩
    have hperm := one_iff_perm.mp hone
    refine ⟨?_, (take_iff hitems h).mpr fun hn => ?_, first_eq hitems h, ?_⟩
    · rw [count_eq h, length_all hitems h, hperm.length_eq]
    · have hempty : counted g b = [] :=
        List.filter_eq_nil_iff.mpr fun node hnode => by simp [hlimit hn node hnode]
      rw [hempty] at hperm
      exact hperm.eq_nil
    · exact update_iff.mpr fun node => hperm.mem_iff.symm

/-- Without joins and EXISTS clauses, nodes have one match each. -/
theorem oneMatchEach_of_plain [DecidableEq α] (hjoins : b.joins = [])
    (hexists : b.existsClauses = []) (hn : n ≠ 0) : OneMatchEach g b n := by
  have hcondition : joinTexts " AND " b.whereParts = b.whereStr := by
    unfold Builder.whereParts
    rw [hexists, List.map_nil, List.append_nil]
    split
    · next hnone => rw [hnone]; rfl
    · exact Builder.joinTexts_singleton _ _
  refine ⟨one_iff_perm.mpr ?_, fun h => absurd h hn⟩
  have hpassing : g.passing b.cls.label b.allClauses = g.passing b.cls.label b.countClauses := by
    unfold GraphData.passing Builder.allClauses Builder.countClauses
    rw [hcondition, hjoins]
    rfl
  unfold found
  rw [hpassing, passing_countClauses, List.map_map]
  simp [Function.comp_def, PatternMatch.single]

end

/-- One node, of which no condition is true. -/
def loneNode : GraphData Unit where
  labelled _ := [()]
  nodup _ := by simp
  reach _ _ := []
  satisfies _ _ := false
  sort _ ms := ms
  sort_perm _ ms := .refl ms
  value _ _ := .other "Person(1)"

/-- `where_exists_edge("FRIEND")`. -/
def friendly : Builder :=
  { Builder.new personClass with existsClauses := [⟨"FRIEND", none, none, none, false, false⟩] }

/-- The text of `count()` of both builders. -/
def countPersons : List Char := (Builder.new personClass).countClauses.text personClass

/-- The database of that node: `RETURN COUNT(p)` is answered with 1, and anything else with
`rows`. -/
def loneDatabase (rows : List Row) : Database := fun gql _ =>
  if gql = countPersons then ⟨["COUNT(p)"], [.list [.int 1]]⟩ else ⟨["p"], rows⟩

/-- It answers as the query language says if those are the rows of `all()`. -/
theorem answers_loneDatabase {b : Builder} {rows : List Row} {n : ℕ}
    (hcount : b.countClauses = (Builder.new personClass).countClauses) (hcls : b.cls = personClass)
    (hall : ∀ limit ∈ [none, some 1, some (n : ℤ)],
      (b.withLimit limit).allClauses.text personClass ≠ countPersons ∧
        loneNode.answer "Person" (b.withLimit limit).allClauses = rows) :
    Answers (loneDatabase rows) loneNode b n := by
  refine ⟨fun limit hlimit => ?_, ?_⟩
  · obtain ⟨htext, hrows⟩ := hall limit hlimit
    rw [hcls]
    unfold loneDatabase
    rw [if_neg htext]
    exact hrows.symm
  · rw [hcls, hcount]
    change (loneDatabase rows countPersons _).rows = _
    unfold loneDatabase
    rw [if_pos rfl]
    rfl

theorem answers_person (n : ℕ) (hn : n ≤ 1) : Answers
    (loneDatabase [.list [.other "Person(1)"]]) loneNode (Builder.new personClass) n := by
  refine answers_loneDatabase rfl rfl fun limit hlimit => ?_
  obtain rfl | rfl : n = 0 ∨ n = 1 := by omega
  all_goals
    simp only [List.mem_cons, List.not_mem_nil, or_false] at hlimit
    obtain rfl | rfl | rfl := hlimit
    all_goals exact ⟨by decide +kernel, rfl⟩

theorem answers_friendly : Answers (loneDatabase []) loneNode friendly 1 := by
  refine answers_loneDatabase rfl rfl fun limit hlimit => ?_
  simp only [List.mem_cons, List.not_mem_nil, or_false] at hlimit
  obtain rfl | rfl | rfl := hlimit
  all_goals exact ⟨by decide +kernel, rfl⟩

/-- Without EXISTS clauses the methods agree on the node. -/
theorem agrees_person : FourAgree (loneDatabase [.list [.other "Person(1)"]]) loneNode
    (Builder.new personClass) 1 :=
  (agrees_iff rfl (answers_person 1 le_rfl)).mpr
    (oneMatchEach_of_plain rfl rfl one_ne_zero)

/-- `take(0)` takes all rows, and `count()` does not look at EXISTS clauses. -/
theorem not_agrees :
    (Answers (loneDatabase [.list [.other "Person(1)"]]) loneNode (Builder.new personClass) 0 ∧
      ¬ FourAgree (loneDatabase [.list [.other "Person(1)"]]) loneNode
        (Builder.new personClass) 0) ∧
    (Answers (loneDatabase []) loneNode friendly 1 ∧
      ¬ FourAgree (loneDatabase []) loneNode friendly 1) := by
  have hperson := answers_person 0 (Nat.zero_le 1)
  refine ⟨⟨hperson, fun h => ?_⟩, answers_friendly, fun h => ?_⟩
  · exact absurd ((take_iff rfl hperson).mp h.take rfl) (by decide)
  · have hcount := h.count
    rw [count_eq answers_friendly, length_all rfl answers_friendly] at hcount
    exact absurd hcount (by decide)

end KuzuEventBus.Sdk
