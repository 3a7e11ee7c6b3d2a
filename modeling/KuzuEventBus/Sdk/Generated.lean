import KuzuEventBus.Gql.SetWords
import KuzuEventBus.Gql.Levels
import KuzuEventBus.Sdk.QueryBuilder

/-!
# Texts that the parser is given

Whether the parser consumes the texts of a builder to their ends.  The text of `update` has a SET
clause, and the parser has none; it stops before SET, whatever the state of the builder and the
fields are.

## Main definitions

* `Accepted` — the parser reads a text as a query, and consumes all of its tokens.
* `TextsAccepted` — it does so with the three texts of a builder.

## Main results

* `accepted_iff` — the texts that are accepted.
* `not_accepted_updateGql` — the text of `update` is not.
* `not_textsAccepted` — **no builder has three texts that are accepted.**
-/

namespace KuzuEventBus.Sdk

open Dsl Parsing Text

/-- The parser reads the text as a query, and consumes every token. -/
def Accepted (tables : CharTables) (gql : List Char) : Prop :=
  ∃ q, runParser tables (String.ofList gql) = .ok (q, [])

/-- The texts of `all`, `count` and `update` are accepted. -/
structure TextsAccepted (tables : CharTables) (b : Builder) (fields : List (String × Dsl.Value)) :
    Prop where
  all : Accepted tables b.buildGql.1
  count : Accepted tables b.buildCountGql
  update : ∀ gql params, b.updateGql fields = some (gql, params) → Accepted tables gql

section
variable {tables : CharTables}

/-- **The texts whose tokens are a sentence.** -/
theorem accepted_iff {gql : List Char} : Accepted tables gql ↔
    ∃ tokens, tokenize tables gql = .ok tokens ∧ ∃ q, Sentence tables tokens q := by
  constructor
  · rintro ⟨q, hq⟩
    obtain ⟨tokens, htokens, hparse⟩ := runParser_eq_ok hq
    rw [String.toList_ofList] at htokens
    exact ⟨tokens, htokens, q, (parseQuery_eq_ok_nil_iff tables tokens q).mp hparse⟩
  · rintro ⟨tokens, htokens, q, hq⟩
    refine ⟨q, ?_⟩
    have hparse := (parseQuery_eq_ok_nil_iff tables tokens q).mpr hq
    unfold runParser
    rw [String.toList_ofList, htokens]
    exact hparse

/-! ### The SET clause -/

/-- There are no quotes in names. -/
theorem IsName.no_quote (h : tables.Standard) {name : String} (hname : IsName tables name) :
    '\x27' ∉ name.toList := by
  intro hmem
  have hident := hname.chars _ hmem
  rw [h.symbol (by decide)] at hident
  cases hident

/-- SET and the variable it is about are the first tokens of their text. -/
theorem tokenize_setVar (h : tables.Standard) {var : String} (hvar : IsName tables var)
    {rest : List Char} {tokens : List Token}
    (htokens : tokenize tables (" SET ".toList ++ (var.toList ++ '.' :: rest)) = .ok tokens) :
    ∃ after, tokens = .setKw :: .ident var :: after := by
  have hset : Spells tables " SET ".toList [.setKw] (var.toList ++ '.' :: rest) := by
    have hword : Prints tables ['S', 'E', 'T'] [.setKw] :=
      .upperWord h (by decide) (by decide) (by decide)
    have hspace : ∀ c ∈ [' '], isWhiteSpace c = true := by decide
    have hbefore : Spells tables [' '] []
        (['S', 'E', 'T'] ++ [' '] ++ (var.toList ++ '.' :: rest)) := .space hspace _
    have hafter : Spells tables [' '] [] (var.toList ++ '.' :: rest) := .space hspace _
    have hcloses : Closes tables ([' '] ++ (var.toList ++ '.' :: rest)) :=
      h.closes_symbol (.inr (by decide)) (by decide) _
    exact hbefore.append ((hword _ hcloses).append hafter)
  have hname : Spells tables var.toList [.ident var] ('.' :: rest) := by
    refine hvar.spells h fun c hc => ?_
    cases hc
    exact h.symbol (by decide)
  have hall := hset.append hname
  unfold Spells at hall
  rw [List.append_assoc, htokens] at hall
  obtain ⟨after, -, heq⟩ := map_eq_ok hall.symm
  exact ⟨after, heq.symm⟩

/-- The first of several texts, and the others with the separator before each. -/
theorem joinTexts_cons (sep : String) (text : List Char) (texts : List (List Char)) :
    joinTexts sep (text :: texts) = text ++ texts.flatMap fun t => sep.toList ++ t := by
  unfold joinTexts
  induction texts generalizing text with
  | nil => simp [List.intercalate]
  | cons text' texts ih =>
    rw [List.intercalate_cons_cons, ih, List.flatMap_cons, List.append_assoc, List.append_assoc]

/-- The text of `update` ends with SET, the variable and more without quotes. -/
theorem updateGql_tail (h : tables.Standard) {b : Builder} (hvar : IsName tables b.var)
    {fields : List (String × Dsl.Value)} (hnames : ∀ kv ∈ fields, IsName tables kv.1)
    {gql : List Char} {params : HashMap String Dsl.Value}
    (hgql : b.updateGql fields = some (gql, params)) :
    ∃ front rest, gql = front ++ (" SET ".toList ++ (b.var.toList ++ '.' :: rest)) ∧
      '\x27' ∉ " SET ".toList ++ (b.var.toList ++ '.' :: rest) := by
  unfold Builder.updateGql at hgql
  split at hgql
  · cases hgql
  next hne =>
  obtain ⟨kv, fields, rfl⟩ := List.exists_cons_of_ne_nil hne
  cases hgql
  have hvarQuote := IsName.no_quote h hvar
  -- no part of the SET clause and of what comes after it has a quote
  have hkey (kv' : String × Dsl.Value) (hkv : kv' ∈ kv :: fields) : '\x27' ∉ kv'.1.toList :=
    IsName.no_quote h (hnames kv' hkv)
  have hkv := hkey kv List.mem_cons_self
  refine ⟨"MATCH ".toList ++ (b.baseNode ++ Builder.whereOf b.whereStr),
    kv.1.toList ++ (" = $u_".toList ++ kv.1.toList) ++
      ((fields.map fun kv => b.var.toList ++ '.' :: (kv.1.toList ++
        (" = $u_".toList ++ kv.1.toList))).flatMap (fun t => ", ".toList ++ t) ++
      (" RETURN COUNT(".toList ++ (b.var.toList ++ [')']))), ?_, ?_⟩
  · rw [List.map_cons, joinTexts_cons]
    simp only [List.append_assoc, List.cons_append]
  · have hfields : '\x27' ∉ (fields.map fun kv => b.var.toList ++ '.' :: (kv.1.toList ++
        (" = $u_".toList ++ kv.1.toList))).flatMap (fun t => ", ".toList ++ t) := by
      intro hmem
      obtain ⟨t, ht, hmem⟩ := List.mem_flatMap.mp hmem
      obtain ⟨kv', hkv', rfl⟩ := List.mem_map.mp ht
      have := hkey kv' (List.mem_cons_of_mem _ hkv')
      simp [hvarQuote, this] at hmem
    rw [List.mem_append, List.mem_append, List.mem_cons, List.mem_append, List.mem_append]
    simp only [List.mem_append, hfields, hvarQuote, hkv]
    simp

/-- **The text of `update` is not accepted.** -/
theorem not_accepted_updateGql (h : tables.Standard) {b : Builder} (hvar : IsName tables b.var)
    {fields : List (String × Dsl.Value)} (hnames : ∀ kv ∈ fields, IsName tables kv.1)
    {gql : List Char} {params : HashMap String Dsl.Value}
    (hgql : b.updateGql fields = some (gql, params)) : ¬ Accepted tables gql := by
  intro haccepted
  obtain ⟨tokens, htokens, q, hq⟩ := accepted_iff.mp haccepted
  obtain ⟨front, rest, rfl, hquote⟩ := updateGql_tail h hvar hnames hgql
  have hspace : isIdentChar tables ' ' = false := h.isIdentChar_space (by decide)
  obtain ⟨before, tail, htail, rfl⟩ := exists_append_of_tokenize hspace htokens rfl hquote
  obtain ⟨after, rfl⟩ := tokenize_setVar h hvar htail
  -- in a sentence no variable comes after SET
  rcases setIsLabel_of_sentence hq before _ rfl with hnext | hnext
  · cases hnext
  · cases hnext

/-- **No builder has three texts that are accepted**: whatever its state and the fields are, the
text of `update` is not. -/
theorem not_textsAccepted (h : tables.Standard) (b : Builder) (hvar : IsName tables b.var)
    (fields : List (String × Dsl.Value)) (hfields : fields ≠ [])
    (hnames : ∀ kv ∈ fields, IsName tables kv.1) : ¬ TextsAccepted tables b fields := by
  intro haccepted
  have hupdate : ∃ gql params, b.updateGql fields = some (gql, params) := by
    unfold Builder.updateGql
    rw [if_neg hfields]
    exact ⟨_, _, rfl⟩
  obtain ⟨gql, params, hgql⟩ := hupdate
  exact not_accepted_updateGql h hvar hnames hgql (haccepted.update gql params hgql)

end

/-- `where(lambda p: p.age > 20).update(age=31)`. -/
theorem not_textsAccepted_ageLambda :
    ¬ TextsAccepted .ascii ((Builder.new personClass).where_ ageLambda) [("age", .int 31)] :=
  not_textsAccepted CharTables.ascii_standard _ (by decide) _ (by simp)
    (by rw [List.forall_mem_singleton]; decide)

/-- `where_exists_edge("KNOWS", "Person", inverse=True)`. -/
def knownPersons : Builder :=
  { Builder.new personClass with
    existsClauses := [⟨"KNOWS", some "Person", none, none, true, false⟩] }

/-- The texts of `all` and `count` of a new builder are accepted, and that of `update` is not.  Nor
is that of `all` with an EXISTS clause for incoming edges, or with a predicate after WITH. -/
theorem not_accepted_update :
    (Accepted .ascii (Builder.new personClass).buildGql.1 ∧
      Accepted .ascii (Builder.new personClass).buildCountGql ∧
      ¬ TextsAccepted .ascii (Builder.new personClass) [("age", .int 31)]) ∧
    ¬ Accepted .ascii knownPersons.buildGql.1 ∧
    ¬ Accepted .ascii (((Builder.new personClass).where_ ageLambda).selectItems
      [("name", "p.name".toList)]).buildGql.1 := by
  have haccepted {gql : List Char}
      (h : (runParser .ascii (String.ofList gql)).map Prod.snd = .ok []) : Accepted .ascii gql := by
    obtain ⟨⟨q, rest⟩, hq, hrest⟩ := map_eq_ok h
    cases hrest
    exact ⟨q, hq⟩
  have hnot {gql : List Char}
      (h : (runParser .ascii (String.ofList gql)).toBool = false) : ¬ Accepted .ascii gql := by
    rintro ⟨q, hq⟩
    rw [hq] at h
    cases h
  refine ⟨⟨haccepted (by decide +kernel), haccepted (by decide +kernel), fun h => ?_⟩,
    hnot (by decide +kernel), hnot (by decide +kernel)⟩
  have hnames : ∀ kv ∈ [("age", Dsl.Value.int 31)], IsName .ascii kv.1 := by
    rw [List.forall_mem_singleton]
    decide
  exact not_accepted_updateGql (b := Builder.new personClass) CharTables.ascii_standard (by decide)
    hnames rfl (h.update _ _ rfl)

end KuzuEventBus.Sdk
