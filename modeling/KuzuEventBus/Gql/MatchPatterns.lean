import KuzuEventBus.Gql.ParserReads
import KuzuEventBus.Gql.Traverse

/-!
# The patterns of a MATCH clause

What the parser makes of the patterns of a MATCH clause, read off its grammar: a list
of paths, each a node pattern and edge patterns, each of which starts at the node
where the pattern before it ends.  The names in it are identifiers of the lexer, and
an identifier has no full stop, so no variable is a property key of another one.

## Main definitions

* `ParsesMatch` — the patterns `parse_patterns_match` returns at some place of a text.
* `Pattern.occurrences`, `Pattern.names` — the node patterns and the names in a pattern.
* `Chained` — each edge pattern starts where the pattern before it ends.
* `Plain`, `KeyOf` — a name without a full stop, and the keys of a variable in a tuple.

## Main results

* `parse_parsesMatch` — the MATCH clause of a query is such a list of patterns.
* `ParsesMatch.isPath` — **the shape of parsed patterns**.
-/

namespace KuzuEventBus

open Parsing Phrase

/-! ### Names -/

/-- A name without a full stop. -/
def Plain (name : String) : Prop := '.' ∉ name.toList

/-- A name without a full stop is no property key. -/
theorem Plain.ne_propKey {w : String} (hw : Plain w) (v k : String) : w ≠ propKey v k := by
  intro heq
  apply hw
  rw [heq, propKey, String.toList_append, String.toList_append]
  simp

/-- The keys of a variable in a tuple. -/
def KeyOf (v key : String) : Prop := key = v ∨ ∃ k, key = propKey v k

/-- A key has one variable. -/
theorem KeyOf.eq {v w key : String} (hv : Plain v) (hw : Plain w) (h : KeyOf v key)
    (h' : KeyOf w key) : v = w := by
  rcases h with rfl | ⟨k, rfl⟩
  · rcases h' with rfl | ⟨k, hk⟩
    · rfl
    · exact absurd hk (hv.ne_propKey w k)
  · rcases h' with h' | ⟨k', hk⟩
    · exact absurd h'.symm (hw.ne_propKey v k)
    · rcases propKey_eq_propKey hk with heq | ⟨key, hkey⟩ | ⟨key, hkey⟩
      · exact heq
      · exact absurd hkey (hw.ne_propKey v key)
      · exact absurd hkey (hv.ne_propKey w key)

/-- No keyword is an identifier. -/
theorem keywords_ident {word : String} {t : Token} (h : keywords.lookup word = some t) :
    t.ident? = none := by
  have hall : ∀ kv ∈ keywords, kv.2.ident? = none := by decide
  obtain ⟨l₁, l₂, hsplit, -⟩ := List.lookup_eq_some_iff.mp h
  apply hall (word, t)
  rw [hsplit]
  simp

/-- The characters of an identifier are alphanumeric or underscores. -/
theorem readWord_plain {tables : CharTables} (hdot : tables.isAlphanumeric '.' = false)
    (cs : List Char) : ∀ name ∈ (readWord tables cs).1.ident?, Plain name := by
  intro name hname hmem
  have hword : name = String.ofList (cs.takeWhile (isIdentChar tables)) := by
    unfold readWord at hname
    cases hk : keywords.lookup (tables.toUppercase
        (String.ofList (cs.takeWhile (isIdentChar tables)))) with
    | some t =>
      simp only [hk, Option.getD_some, keywords_ident hk] at hname
      cases hname
    | none =>
      simp only [hk, Option.getD_none, Token.ident?] at hname
      exact (Option.some.inj hname).symm
  rw [hword, String.toList_ofList] at hmem
  have hchar := List.all_eq_true.mp List.all_takeWhile '.' hmem
  rw [isIdentChar, hdot] at hchar
  simp at hchar

/-- **An identifier has no full stop.** -/
theorem nextToken_plain {tables : CharTables} (hdot : tables.isAlphanumeric '.' = false)
    {input rest : List Char} {tok : Token} (h : nextToken tables input = .ok (some (tok, rest))) :
    ∀ name ∈ tok.ident?, Plain name := by
  intro name hname
  rcases nextToken_cases h with hsymbol | ⟨s, rfl, -⟩ | ⟨num, isFloat, hnum⟩ | ⟨cs, rfl⟩
  · have hnone : ∀ t ∈ symbolTokens, t.ident? = none := by decide
    rw [hnone tok hsymbol] at hname
    cases hname
  · cases hname
  · unfold numberToken at hnum
    split at hnum <;> split at hnum <;> cases hnum <;> cases hname
  · exact readWord_plain hdot cs name hname

/-- The identifiers of a text have no full stops. -/
theorem tokenize_plain {tables : CharTables} (hdot : tables.isAlphanumeric '.' = false)
    {input : List Char} {tokens : List Token} (h : tokenize tables input = .ok tokens) :
    ∀ tok ∈ tokens, ∀ name ∈ tok.ident?, Plain name :=
  forall_mem_tokenize (fun _ _ _ => nextToken_plain hdot) h

/-! ### Parsed patterns -/

/-- `parse_patterns_match` returns `patterns` at some place of the text. -/
def ParsesMatch (tables : CharTables) (input : String) (patterns : List Pattern) : Prop :=
  ∃ tokens ts rest, tokenize tables input.toList = .ok tokens ∧ ts <:+ tokens ∧
    parsePatternsMatch ts = .ok (patterns, rest)

/-- The MATCH clause of a query is a parsed list of patterns. -/
theorem parse_parsesMatch {tables : CharTables} {input : String} {q : Query} {clause : MatchClause}
    (h : parse tables input = .ok q) (hclause : q.matchClause = some clause) :
    ParsesMatch tables input clause.patterns := by
  obtain ⟨⟨q', rest⟩, hrun, rfl⟩ := map_eq_ok h
  obtain ⟨tokens, htokens, hquery⟩ := bind_eq_ok hrun
  unfold parseQuery at hquery
  obtain ⟨m, mid, hmatch, hquery⟩ := Parsing.bind_eq_ok hquery
  have hm : m = some clause := by
    obtain ⟨c, _, -, hquery⟩ := Parsing.bind_eq_ok hquery
    obtain ⟨_, _, -, hquery⟩ := Parsing.bind_eq_ok hquery
    obtain ⟨_, _, -, hquery⟩ := Parsing.bind_eq_ok hquery
    obtain ⟨_, _, -, hquery⟩ := Parsing.bind_eq_ok hquery
    obtain ⟨_, _, -, hquery⟩ := Parsing.bind_eq_ok hquery
    obtain ⟨_, _, -, hquery⟩ := Parsing.bind_eq_ok hquery
    obtain ⟨_, _, -, hquery⟩ := Parsing.bind_eq_ok hquery
    cases hquery
    exact hclause
  subst hm
  unfold optionalAt at hmatch
  split at hmatch
  · rw [map_apply] at hmatch
    cases hp : parseMatch tokens with
    | error e => rw [hp] at hmatch; cases hmatch
    | ok r =>
      rw [hp] at hmatch
      obtain ⟨m, mid'⟩ := r
      cases hmatch
      obtain ⟨_, ts, hkw, hp⟩ := Parsing.bind_eq_ok hp
      obtain ⟨patterns, rest', hpatterns, hp⟩ := Parsing.bind_eq_ok hp
      cases hp
      obtain ⟨xs, hxs, -⟩ := reads_expectToken .matchKw hkw
      exact ⟨tokens, ts, _, htokens, ⟨xs, hxs.symm⟩, hpatterns⟩
  · cases hmatch

/-- The patterns of the MATCH clause of a text, none where it does not parse. -/
def textPatterns (tables : CharTables) (input : String) : List Pattern :=
  (((parse tables input).toOption.bind QueryOf.matchClause).map MatchClause.patterns).getD []

theorem parsesMatch_textPatterns {tables : CharTables} {input : String}
    (h : textPatterns tables input ≠ []) :
    ParsesMatch tables input (textPatterns tables input) := by
  unfold textPatterns at h ⊢
  cases hparse : parse tables input with
  | error e => simp [hparse, Except.toOption] at h
  | ok q =>
    cases hclause : q.matchClause with
    | none => simp [hparse, hclause, Except.toOption] at h
    | some clause =>
      simp only [Except.toOption, Option.bind_some, hclause, Option.map_some, Option.getD_some]
      exact parse_parsesMatch hparse hclause

/-- The node patterns written in a pattern. -/
def Pattern.occurrences : Pattern → List NodePattern
  | .node n => [n]
  | .edge e => [e.fromNode, e.toNode]

/-- The node where a pattern ends. -/
def Pattern.endNode : Pattern → NodePattern
  | .node n => n
  | .edge e => e.toNode

/-- The names a pattern gives to nodes and edges. -/
def Pattern.names : Pattern → List String
  | .node n => n.var.toList
  | .edge e => e.var.toList ++ (e.fromNode.var.toList ++ e.toNode.var.toList)

theorem mem_names_of_occurrence {pattern : Pattern} {node : NodePattern} {var : String}
    (hnode : node ∈ pattern.occurrences) (hvar : var ∈ node.var) : var ∈ pattern.names := by
  cases pattern with
  | node n =>
    obtain rfl := List.mem_singleton.mp hnode
    exact Option.mem_toList.mpr hvar
  | edge e =>
    simp only [Pattern.names, List.mem_append, Option.mem_toList]
    simp only [Pattern.occurrences, List.mem_cons, List.not_mem_nil, or_false] at hnode
    rcases hnode with rfl | rfl
    · exact .inr (.inl hvar)
    · exact .inr (.inr hvar)

/-- Each edge pattern starts where the pattern before it ends, `prev` being the pattern
before the first one. -/
def Chained : Option Pattern → List Pattern → Prop
  | _, [] => True
  | _, .node node :: rest => Chained (some (.node node)) rest
  | prev, .edge edge :: rest =>
    prev.map Pattern.endNode = some edge.fromNode ∧ Chained (some (.edge edge)) rest

theorem Chained.append_edge {edge : EdgePattern} {patterns : List Pattern} :
    ∀ {prev : Option Pattern}, Chained prev patterns →
      (patterns.getLast?.or prev).map Pattern.endNode = some edge.fromNode →
      Chained prev (patterns ++ [.edge edge]) := by
  induction patterns with
  | nil =>
    intro prev _ hend
    exact ⟨hend, trivial⟩
  | cons pattern rest ih =>
    intro prev h hend
    have hlast : ((pattern :: rest).getLast?.or prev) = rest.getLast?.or (some pattern) := by
      cases hrest : rest.getLast? with
      | none => simp [List.getLast?_eq_none_iff.mp hrest]
      | some last => simp [List.getLast?_cons, hrest]
    rw [hlast] at hend
    cases pattern with
    | node node => exact ih h hend
    | edge edge' => exact ⟨h.1, ih h.2 hend⟩

theorem Chained.append {patterns patterns' : List Pattern} (h' : ∀ prev, Chained prev patterns') :
    ∀ {prev : Option Pattern}, Chained prev patterns → Chained prev (patterns ++ patterns') := by
  induction patterns with
  | nil => intro prev _; exact h' prev
  | cons pattern rest ih =>
    intro prev h
    cases pattern with
    | node node => exact ih h
    | edge edge => exact ⟨h.1, ih h.2⟩

/-! ### What the grammar ensures -/

/-- The names of a pattern have no full stops. -/
def PlainPattern (pattern : Pattern) : Prop := ∀ name ∈ pattern.names, Plain name

/-- A path: patterns chained from any pattern before. -/
structure IsPath (patterns : List Pattern) : Prop where
  chained : ∀ prev, Chained prev patterns
  plain : ∀ pattern ∈ patterns, PlainPattern pattern

variable {P : Token → Prop}

theorem ensures_nodePhrase (hP : ∀ t, P t → ∀ name ∈ t.ident?, Plain name) :
    Ensures P nodePhrase fun node => ∀ name ∈ node.var, Plain name := by
  refine (Ensures.any _).bind fun _ _ => ?_
  refine (Ensures.optional (.tokenMap hP)).bind fun var hvar => ?_
  refine (Ensures.any _).bind fun labels _ => ?_
  refine (Ensures.any _).bind fun properties _ => ?_
  exact (Ensures.any _).bind fun _ _ => .pure hvar

theorem ensures_edgeBodyPhrase (hP : ∀ t, P t → ∀ name ∈ t.ident?, Plain name) :
    Ensures P edgeBodyPhrase fun body => ∀ name ∈ body.var, Plain name := by
  refine .either ?_ (.pure (by simp))
  refine (Ensures.any _).bind fun _ _ => ?_
  refine (Ensures.optional (.tokenMap hP)).bind fun var hvar => ?_
  refine (Ensures.any _).bind fun edgeType _ => ?_
  refine (Ensures.any _).bind fun depth _ => ?_
  refine (Ensures.any _).bind fun properties _ => ?_
  refine (Ensures.any _).bind fun _ _ => ?_
  refine (Ensures.any _).bind fun depthOutside _ => ?_
  exact (Ensures.any _).bind fun depth _ => .pure hvar

theorem ensures_edgePhrase (hP : ∀ t, P t → ∀ name ∈ t.ident?, Plain name)
    (fromNode : NodePattern) : Ensures P (edgePhrase fromNode) fun edge =>
      edge.fromNode = fromNode ∧ (∀ name ∈ edge.var, Plain name) ∧
        ∀ name ∈ edge.toNode.var, Plain name := by
  refine (Ensures.any _).bind fun start _ => ?_
  refine (ensures_edgeBodyPhrase hP).bind fun body hbody => ?_
  refine (Ensures.any _).bind fun direction _ => ?_
  exact (ensures_nodePhrase hP).bind fun toNode htoNode => .pure ⟨rfl, hbody, htoNode⟩

/-- Each edge of a path starts at the node the path has led to. -/
theorem ensures_pathMatchPhrase (hP : ∀ t, P t → ∀ name ∈ t.ident?, Plain name) :
    Ensures P pathMatchPhrase IsPath := by
  refine (ensures_nodePhrase hP).bind fun fromNode hfrom => ?_
  refine Ensures.bind (Q := fun st : NodePattern × List Pattern =>
    IsPath st.2 ∧ (∀ name ∈ st.1.var, Plain name) ∧
      ∃ last, st.2.getLast? = some last ∧ last.endNode = st.1)
    (.loop (fun st hst => ?_) ?_) fun st hst => .pure hst.1
  · obtain ⟨hpath, hlast, last, hget, hend⟩ := hst
    refine (ensures_edgePhrase hP st.1).bind fun edge hedge => .pure ?_
    obtain ⟨hfromNode, hvar, hto⟩ := hedge
    refine ⟨⟨fun prev => ?_, fun pattern hmem => ?_⟩, hto, .edge edge, by simp, rfl⟩
    · apply (hpath.chained prev).append_edge
      rw [hget, Option.some_or, Option.map_some, hend, hfromNode]
    · rcases List.mem_append.mp hmem with hmem | hmem
      · exact hpath.plain pattern hmem
      · obtain rfl := List.mem_singleton.mp hmem
        intro name hname
        simp only [Pattern.names, List.mem_append, Option.mem_toList, hfromNode] at hname
        rcases hname with hname | hname | hname
        · exact hvar name hname
        · exact hlast name hname
        · exact hto name hname
  · refine ⟨⟨fun prev => trivial, ?_⟩, hfrom, .node fromNode, rfl, rfl⟩
    intro pattern hmem name hname
    obtain rfl := List.mem_singleton.mp hmem
    exact hfrom name (Option.mem_toList.mp hname)

/-- What each phrase between commas ensures. -/
theorem ensures_commaListPhrase {α : Type} {item : GqlPhrase α} {Q : α → Prop}
    (h : Ensures P item Q) : Ensures P (commaListPhrase item) fun items => ∀ a ∈ items, Q a := by
  refine h.bind fun first hfirst => .loop (fun items hitems => ?_) ?_
  · refine (Ensures.any _).bind fun _ _ => h.bind fun a ha => .pure ?_
    intro b hb
    rcases List.mem_append.mp hb with hb | hb
    · exact hitems b hb
    · rw [List.mem_singleton.mp hb]
      exact ha
  · intro b hb
    rw [List.mem_singleton.mp hb]
    exact hfirst

theorem ensures_patternsMatchPhrase (hP : ∀ t, P t → ∀ name ∈ t.ident?, Plain name) :
    Ensures P patternsMatchPhrase IsPath := by
  refine (ensures_commaListPhrase (ensures_pathMatchPhrase hP)).bind fun paths hpaths => ?_
  refine .pure ⟨?_, fun pattern hmem => ?_⟩
  · induction paths with
    | nil => exact fun prev => trivial
    | cons path paths ih =>
      intro prev
      rw [List.flatten_cons]
      apply Chained.append (ih fun p hp => hpaths p (List.mem_cons_of_mem _ hp))
      exact (hpaths path List.mem_cons_self).chained prev
  · obtain ⟨path, hpath, hmem⟩ := List.mem_flatten.mp hmem
    exact (hpaths path hpath).plain pattern hmem

/-- **Parsed patterns are chained, and their names have no full stops.** -/
theorem ParsesMatch.isPath {tables : CharTables} (hdot : tables.isAlphanumeric '.' = false)
    {input : String} {patterns : List Pattern} (h : ParsesMatch tables input patterns) :
    IsPath patterns := by
  obtain ⟨tokens, ts, rest, htokens, hsuffix, hparse⟩ := h
  obtain ⟨xs, rfl, hphrase⟩ := reads_parsePatternsMatch hparse
  refine ensures_patternsMatchPhrase (fun _ => id) (fun t ht => ?_) hphrase
  exact tokenize_plain hdot htokens t (hsuffix.subset (List.mem_append_left _ ht))

/-- The aliases of WITH are identifiers. -/
theorem ensures_withPhrase (hP : ∀ t, P t → ∀ name ∈ t.ident?, Plain name) (D : GqlPhrase Expr) :
    Ensures P (withPhrase D) fun clause => ∀ item ∈ clause.items, Plain item.aliasName := by
  have hitem : Ensures P (withItemPhrase D) fun item => Plain item.aliasName := by
    refine (Ensures.any _).bind fun e _ => (Ensures.any _).bind fun _ _ => ?_
    exact (Ensures.tokenMap hP).bind fun aliasName halias => .pure halias
  refine (Ensures.any _).bind fun _ _ => ?_
  exact (ensures_commaListPhrase hitem).bind fun items hitems => .pure hitems

/-- **The aliases of a text have no full stops.** -/
theorem parse_withClause_plain {tables : CharTables} (hdot : tables.isAlphanumeric '.' = false)
    {input : String} {query : Query} (h : parse tables input = .ok query) :
    ∀ clause ∈ query.withClause, ∀ item ∈ clause.items, Plain item.aliasName := by
  obtain ⟨⟨query, rest⟩, hrun, rfl⟩ := map_eq_ok h
  obtain ⟨tokens, htokens, hquery⟩ := bind_eq_ok hrun
  obtain ⟨xs, rfl, hphrase⟩ :=
    reads_parseQuery (reads_parseExpr (reads_parsePrimary tables _)) hquery
  have hensures : ∀ D : GqlPhrase Expr,
      Ensures (fun t => ∀ name ∈ t.ident?, Plain name) (queryPhrase D)
        fun query => ∀ clause ∈ query.withClause, ∀ item ∈ clause.items, Plain item.aliasName := by
    intro D
    refine (Ensures.any _).bind fun matchClause _ => (Ensures.any _).bind fun createClause _ => ?_
    refine (Ensures.any _).bind fun _ _ => ?_
    refine (Ensures.optional (ensures_withPhrase (fun _ => id) D)).bind fun withClause hwith => ?_
    refine (Ensures.any _).bind fun whereClause _ => (Ensures.any _).bind fun returnClause _ => ?_
    exact (Ensures.any _).bind fun orderBy _ => (Ensures.any _).bind fun limit _ => .pure hwith
  refine hensures _ (fun t ht => ?_) hphrase
  exact tokenize_plain hdot htokens t (List.mem_append_left _ ht)

end KuzuEventBus
