import KuzuEventBus.Gql.Grammar

/-!
# The parser reads the grammar

Each rule of the parser consumes a phrase of its grammar and returns its meaning:
a text that parses begins with a query.  And a rule does the same whatever depth
its calls are bounded by, as long as the tokens are fewer.

## Main results

* `reads_parsePatternsMatch`, `reads_parsePatternsCreate`, `reads_parseQuery` — soundness.
* `reads_parsePrimary` — soundness of the recursion through expressions and queries.
* `agree_parsePrimary` — the bound on the depth does not show.
-/

namespace KuzuEventBus

open Parsing Phrase

variable {α : Type}

theorem reads_expectToken (t : Token) : Reads (expectToken t) (token t) := .expect t _

theorem reads_commaList {item : GqlParser α} {D : GqlPhrase α} (h : Reads item D) :
    Reads (commaList item) (commaListPhrase D) := by
  refine h.bind fun first => .loopWhile (fun items _ _ => ?_) [first]
  refine (reads_expectToken _).bind fun _ => h.bind fun item => .pure _

/-! ### Patterns -/

theorem reads_parseProperty (st : HashMap String Literal × Bool) (h : st.2 = true) :
    Reads (parseProperty st) (propertyPhrase st) := by
  refine .guard_bind h ?_
  refine (Reads.expectMap _ _).bind fun key => ?_
  refine (reads_expectToken _).bind fun _ => ?_
  refine (Reads.expectMap _ _).bind fun val => ?_
  exact (Reads.accept _).bind fun more => .pure _

theorem reads_parseProperties : Reads parseProperties propertiesPhrase := by
  refine (Reads.loopWhile (fun st next hcond => ?_) (∅, true)).bind fun st => .pure _
  have hmore : st.2 = true := by
    rw [Bool.and_eq_true] at hcond
    exact hcond.1
  exact reads_parseProperty st hmore

theorem reads_parsePropertiesBlock : Reads parsePropertiesBlock propertiesBlockPhrase := by
  refine .ifNext ?_ (.pure ∅)
  refine reads_parseProperties.bind fun props => ?_
  exact (reads_expectToken _).bind fun _ => .pure _

/-- A colon at the end of the text is no label, and nothing may follow it. -/
theorem parseLabels_reads (ts rest : List Token) (labels : List String)
    (h : parseLabels ts = .ok (labels, rest)) (hrest : rest ≠ []) :
    ∃ xs, ts = xs ++ rest ∧ labelsPhrase xs labels := by
  unfold parseLabels at h
  split at h
  · cases h
    exact ⟨_, rfl, .inl ⟨_, rfl, rfl⟩⟩
  · cases h
    exact absurd rfl hrest
  · cases h
    exact ⟨[], rfl, .inr ⟨rfl, rfl⟩⟩

theorem reads_parseNodePattern : Reads parseNodePattern nodePhrase := by
  refine (reads_expectToken _).bind fun _ => ?_
  refine (Reads.acceptMap _).bind fun var => ?_
  refine Reads.bind_of_more parseLabels_reads (fun labels => ?_) fun labels r h => ?_
  · refine reads_parsePropertiesBlock.bind fun properties => ?_
    exact (reads_expectToken _).bind fun _ => .pure _
  · -- the closing parenthesis is still to come
    cases h

theorem reads_parseDepthRange : Reads parseDepthRange DepthRangePhrase := by
  intro ts rest d h
  unfold parseDepthRange at h
  split at h
  · cases h; exact ⟨_, rfl, .between _ _⟩
  · cases h; exact ⟨_, rfl, .since _⟩
  · cases h; exact ⟨_, rfl, .exact _⟩
  · cases h; exact ⟨_, rfl, .upTo _⟩
  · cases h
  · cases h; exact ⟨_, rfl, .any⟩
  · cases h; exact ⟨[], rfl, .none⟩

theorem reads_parseEdgeType : Reads parseEdgeType edgeTypePhrase := by
  refine .ifNext ?_ (.pure none)
  refine (Reads.expectMap _ _).bind fun first => ?_
  refine (Reads.loopWhile (fun types _ _ => ?_) [first]).bind fun types => .pure _
  refine (reads_expectToken _).bind fun _ => ?_
  exact (Reads.expectMap _ _).bind fun type => .pure _

theorem reads_finalDepth (inside outside : Option DepthRange) :
    Reads (finalDepth inside outside) (finalDepthPhrase inside outside) := by
  rcases inside with _ | d
  · exact .guard_bind (.inl rfl) (.pure _)
  · rcases outside with _ | d'
    · exact .guard_bind (.inr rfl) (.pure _)
    · exact .throw _ _

theorem reads_parseEdgeBody : Reads parseEdgeBody edgeBodyPhrase := by
  refine .ifNext ?_ (.pure _)
  refine (Reads.acceptMap _).bind fun var => ?_
  refine reads_parseEdgeType.bind fun edgeType => ?_
  refine reads_parseDepthRange.bind fun depth => ?_
  refine reads_parsePropertiesBlock.bind fun properties => ?_
  refine (reads_expectToken _).bind fun _ => ?_
  refine reads_parseDepthRange.bind fun depthOutside => ?_
  exact (reads_finalDepth _ _).bind fun depth => .pure _

theorem reads_parseEdgeStart : Reads parseEdgeStart edgeStartPhrase :=
  .ifNext (.pure _) ((reads_expectToken _).bind fun _ => .pure _)

theorem reads_parseEdgeEnd (direction : Direction) :
    Reads (parseEdgeEnd direction) (edgeEndPhrase direction) := by
  unfold parseEdgeEnd edgeEndPhrase
  split
  · exact .ifNext (.pure _) (.ifNext (.pure _) (.pure _))
  · exact .pure _

theorem reads_parseEdgePattern (fromNode : NodePattern) :
    Reads (parseEdgePattern fromNode) (edgePhrase fromNode) := by
  refine reads_parseEdgeStart.bind fun start => ?_
  refine reads_parseEdgeBody.bind fun body => ?_
  refine (reads_parseEdgeEnd start).bind fun direction => ?_
  exact reads_parseNodePattern.bind fun toNode => .pure _

theorem reads_parseEdges (st : NodePattern × List Pattern) :
    Reads (parseEdges st) (loop edgeStepPhrase st) :=
  .loopWhile (fun st _ _ => (reads_parseEdgePattern st.1).bind fun _ => .pure _) st

theorem reads_parsePathMatch : Reads parsePathMatch pathMatchPhrase := by
  refine reads_parseNodePattern.bind fun fromNode => ?_
  exact (reads_parseEdges _).bind fun st => .pure _

theorem reads_parsePatternsMatch : Reads parsePatternsMatch patternsMatchPhrase :=
  (reads_commaList reads_parsePathMatch).bind fun _ => .pure _

theorem reads_parsePathCreate (patterns : List Pattern) :
    Reads (parsePathCreate patterns) (pathCreatePhrase patterns) := by
  refine reads_parseNodePattern.bind fun fromNode => ?_
  exact (reads_parseEdges _).bind fun st => .pure _

theorem reads_parsePatternsCreate : Reads parsePatternsCreate patternsCreatePhrase := by
  refine (reads_parsePathCreate []).bind fun first => .loopWhile (fun patterns _ _ => ?_) first
  exact (reads_expectToken _).bind fun _ => reads_parsePathCreate patterns

theorem reads_parseMatch : Reads parseMatch matchPhrase := by
  refine (reads_expectToken _).bind fun _ => ?_
  exact reads_parsePatternsMatch.bind fun patterns => .pure _

theorem reads_parseCreate : Reads parseCreate createPhrase := by
  refine (reads_expectToken _).bind fun _ => ?_
  exact reads_parsePatternsCreate.bind fun patterns => .pure _

/-! ### Expressions -/

theorem reads_binaryChain {op? : Token → Option BinOp} {operand : GqlParser Expr}
    {D : GqlPhrase Expr} (h : Reads operand D) :
    Reads (binaryChain op? operand) (binaryChainPhrase op? D) := by
  refine h.bind fun left => .loopWhile (fun left _ _ => ?_) left
  refine (Reads.expectMap _ _).bind fun op => ?_
  exact h.bind fun right => .pure _

section
variable {primary : GqlParser Expr} {D : GqlPhrase Expr} (h : Reads primary D)
include h

theorem reads_parseMultiplicative : Reads (parseMultiplicative primary) (multiplicativePhrase D) :=
  reads_binaryChain h

theorem reads_parseAdditive : Reads (parseAdditive primary) (additivePhrase D) :=
  reads_binaryChain (reads_parseMultiplicative h)

theorem reads_parseComparand (left : Expr) (op : Option BinOp) :
    Reads (parseComparand primary left op) (comparandPhrase D left op) := by
  cases op with
  | none => exact .pure left
  | some op => exact (reads_parseAdditive h).bind fun right => .pure _

theorem reads_parseComparisonTail (left : Expr) :
    Reads (parseComparisonTail primary left) (comparisonTailPhrase D left) := by
  refine .ifNext ?_ ?_
  · refine (Reads.accept _).bind fun isNot => ?_
    exact (reads_expectToken _).bind fun _ => .pure _
  · exact (Reads.acceptMap _).bind fun op => reads_parseComparand h left op

theorem reads_parseComparison : Reads (parseComparison primary) (comparisonPhrase D) :=
  (reads_parseAdditive h).bind fun left => reads_parseComparisonTail h left

theorem reads_parseAndExpr : Reads (parseAndExpr primary) (andPhrase D) :=
  reads_binaryChain (reads_parseComparison h)

theorem reads_parseExpr : Reads (parseExpr primary) (exprPhrase D) :=
  reads_binaryChain (reads_parseAndExpr h)

end

/-! ### Clauses and queries -/

section
variable {expr : GqlParser Expr} {D : GqlPhrase Expr} (h : Reads expr D)
include h

theorem reads_parseWhere : Reads (parseWhere expr) (wherePhrase D) :=
  (reads_expectToken _).bind fun _ => h.bind fun _ => .pure _

theorem reads_parseWith : Reads (parseWith expr) (withPhrase D) := by
  refine (reads_expectToken _).bind fun _ => ?_
  refine (reads_commaList ?_).bind fun items => .pure _
  refine h.bind fun e => (reads_expectToken _).bind fun _ => ?_
  exact (Reads.expectMap _ _).bind fun aliasName => .pure _

theorem reads_parseReturn : Reads (parseReturn expr) (returnPhrase D) := by
  refine (reads_expectToken _).bind fun _ => ?_
  exact (reads_commaList (h.bind fun e => .pure _)).bind fun items => .pure _

theorem reads_parseOrderBy : Reads (parseOrderBy expr) (orderByPhrase D) := by
  refine (reads_expectToken _).bind fun _ => (reads_expectToken _).bind fun _ => ?_
  refine (reads_commaList ?_).bind fun items => .pure _
  exact h.bind fun e => (Reads.acceptMap _).bind fun descending => .pure _

omit h in
theorem reads_parseLimit : Reads parseLimit limitPhrase := by
  refine (reads_expectToken _).bind fun _ => ?_
  exact (Reads.expectMap _ _).bind fun n => .pure _

omit h in
theorem reads_requirePattern (m : Option MatchClause) (c : Option CreateClause) :
    Reads (requirePattern m c) (guard ((m.isNone && c.isNone) = false)) := by
  intro ts rest u h
  unfold requirePattern at h
  split at h
  · cases h
  · next hsome =>
    cases h
    exact ⟨[], rfl, rfl, Bool.eq_false_iff.mpr hsome⟩

theorem reads_parseQuery : Reads (parseQuery expr) (queryPhrase D) := by
  refine (Reads.optionalAt reads_parseMatch).bind fun matchClause => ?_
  refine (Reads.optionalAt reads_parseCreate).bind fun createClause => ?_
  refine (reads_requirePattern _ _).bind fun _ => ?_
  refine (Reads.optionalAt (reads_parseWith h)).bind fun withClause => ?_
  refine (Reads.optionalAt (reads_parseWhere h)).bind fun whereClause => ?_
  refine (Reads.optionalAt (reads_parseReturn h)).bind fun returnClause => ?_
  refine (Reads.optionalAt (reads_parseOrderBy h)).bind fun orderBy => ?_
  exact (Reads.optionalAt reads_parseLimit).bind fun limit => .pure _

theorem reads_parseArgs : Reads (parseArgs expr) (argsPhrase D) := by
  intro ts rest args hargs
  unfold parseArgs at hargs
  split at hargs
  · cases hargs
    exact ⟨[], rfl, .inl ⟨rfl, rfl⟩⟩
  · obtain ⟨xs, hxs, hD⟩ := reads_commaList h hargs
    exact ⟨xs, hxs, .inr hD⟩

theorem reads_parseCall (name : String) (func : Option AggFunc) :
    Reads (parseCall expr name func) (callPhrase D name func) := by
  cases func with
  | none => exact (reads_parseArgs h).bind fun args => (reads_expectToken _).bind fun _ => .pure _
  | some func => exact h.bind fun arg => (reads_expectToken _).bind fun _ => .pure _

theorem reads_parseAfterIdent (tables : CharTables) (name : String) :
    Reads (parseAfterIdent expr tables name) (afterIdentPhrase D tables name) := by
  refine .ifNext (reads_parseCall h name _) (.ifNext ?_ (.pure _))
  exact (Reads.expectMap _ _).bind fun prop => .pure _

end

/-- **Primary expressions are read as the grammar has them**, to any depth. -/
theorem reads_parsePrimary (tables : CharTables) (fuel : ℕ) :
    Reads (parsePrimary tables fuel) (primaryPhrase tables fuel) := by
  induction fuel with
  | zero => exact .throw _ _
  | succ fuel ih =>
    intro ts rest e h
    unfold parsePrimary at h
    split at h
    · -- `$`
      obtain ⟨name, mid, hname, hpure⟩ := Parsing.bind_eq_ok h
      cases hpure
      obtain ⟨xs, rfl, t, rfl, ht⟩ := Reads.expectMap _ _ hname
      cases t <;> cases ht
      exact ⟨_, rfl, .parameter _⟩
    · -- an identifier
      obtain ⟨xs, rfl, hxs⟩ := reads_parseAfterIdent (reads_parseExpr ih) tables _ h
      exact ⟨_, rfl, .ident hxs⟩
    · -- `NOT`
      obtain ⟨operand, mid, hop, hpure⟩ := Parsing.bind_eq_ok h
      cases hpure
      obtain ⟨xs, rfl, hxs⟩ := ih hop
      exact ⟨_, rfl, .not hxs⟩
    · -- `EXISTS`
      have hreads : Reads _ _ := (reads_expectToken .leftBrace).bind fun _ =>
        (reads_parseQuery (reads_parseExpr ih)).bind fun q =>
          (reads_expectToken .rightBrace).bind fun _ => .pure (Expr.exists q)
      obtain ⟨xs, rfl, ys, zs, u, rfl, rfl, ws, vs, q, rfl, hq, us, vs', u', rfl, rfl, rfl, rfl⟩ :=
        hreads h
      exact ⟨_, rfl, .exists hq⟩
    · -- an opening parenthesis
      have hreads : Reads _ _ := (reads_parseExpr ih).bind fun e =>
        (reads_expectToken .rightParen).bind fun _ => .pure e
      obtain ⟨xs, rfl, ys, zs, e', rfl, he, us, vs, u, rfl, rfl, rfl, rfl⟩ := hreads h
      exact ⟨_, rfl, .paren he⟩
    · -- a literal
      obtain ⟨l, mid, hl, hpure⟩ := Parsing.bind_eq_ok h
      cases hpure
      obtain ⟨xs, rfl, t, rfl, ht⟩ := Reads.expectMap _ _ hl
      exact ⟨_, rfl, .literal ht⟩

/-! ### The bound on the depth -/

section
variable {k : ℕ}

theorem agree_commaList {item item' : GqlParser α} (h : Agree k item item') :
    Agree k (commaList item) (commaList item') := by
  refine h.bind fun first => .loopWhile (fun items => ?_) [first]
  refine (Agree.of_reads k (reads_expectToken _)).bind fun _ => ?_
  exact h.bind fun item => .pure k _

theorem agree_binaryChain {op? : Token → Option BinOp} {operand operand' : GqlParser Expr}
    (h : Agree k operand operand') :
    Agree k (binaryChain op? operand) (binaryChain op? operand') := by
  refine h.bind fun left => .loopWhile (fun left => ?_) left
  refine (Agree.of_reads k (Reads.expectMap _ _)).bind fun op => ?_
  exact h.bind fun right => .pure k _

theorem agree_parseExpr {primary primary' : GqlParser Expr} (h : Agree k primary primary') :
    Agree k (parseExpr primary) (parseExpr primary') := by
  have hadditive : Agree k (parseAdditive primary) (parseAdditive primary') :=
    agree_binaryChain (agree_binaryChain h)
  refine agree_binaryChain (agree_binaryChain (hadditive.bind fun left => .ifNext ?_ ?_))
  · refine (Agree.of_reads k (Reads.accept _)).bind fun isNot => ?_
    exact (Agree.of_reads k (reads_expectToken _)).bind fun _ => .pure k _
  · refine (Agree.of_reads k (Reads.acceptMap _)).bind fun op => ?_
    cases op with
    | none => exact .pure k left
    | some op => exact hadditive.bind fun right => .pure k _

variable {expr expr' : GqlParser Expr} (h : Agree k expr expr')
include h

theorem agree_parseQuery : Agree k (parseQuery expr) (parseQuery expr') := by
  have hexpect : ∀ t, Agree k (expectToken t) (expectToken t) :=
    fun t => .of_reads k (reads_expectToken t)
  refine (Agree.of_reads k (Reads.optionalAt reads_parseMatch)).bind fun matchClause => ?_
  refine (Agree.of_reads k (Reads.optionalAt reads_parseCreate)).bind fun createClause => ?_
  refine (Agree.of_reads k (reads_requirePattern _ _)).bind fun _ => ?_
  refine (Agree.optionalAt ?_).bind fun withClause => ?_
  · refine (hexpect _).bind fun _ => (agree_commaList ?_).bind fun items => .pure k _
    refine h.bind fun e => (hexpect _).bind fun _ => ?_
    exact (Agree.of_reads k (Reads.expectMap _ _)).bind fun aliasName => .pure k _
  refine (Agree.optionalAt ?_).bind fun whereClause => ?_
  · exact (hexpect _).bind fun _ => h.bind fun e => .pure k _
  refine (Agree.optionalAt ?_).bind fun returnClause => ?_
  · refine (hexpect _).bind fun _ => ?_
    exact (agree_commaList (h.bind fun e => .pure k _)).bind fun items => .pure k _
  refine (Agree.optionalAt ?_).bind fun orderBy => ?_
  · refine (hexpect _).bind fun _ => (hexpect _).bind fun _ => ?_
    refine (agree_commaList (h.bind fun e => ?_)).bind fun items => .pure k _
    exact (Agree.of_reads k (Reads.acceptMap _)).bind fun descending => .pure k _
  exact (Agree.of_reads k (Reads.optionalAt reads_parseLimit)).bind fun limit => .pure k _

theorem agree_parseAfterIdent (tables : CharTables) (name : String) :
    Agree k (parseAfterIdent expr tables name) (parseAfterIdent expr' tables name) := by
  have hexpect : ∀ t, Agree k (expectToken t) (expectToken t) :=
    fun t => .of_reads k (reads_expectToken t)
  refine .ifNext ?_ (.ifNext ?_ (.pure k _))
  · cases aggFunc? (tables.toUppercase name) with
    | some func => exact h.bind fun arg => (hexpect _).bind fun _ => .pure k _
    | none =>
      refine Agree.bind (fun ts hts => ?_) fun args => (hexpect _).bind fun _ => .pure k _
      unfold parseArgs
      split
      · exact Agree.pure k [] ts hts
      · exact agree_commaList h ts hts
  · exact (Agree.of_reads k (Reads.expectMap _ _)).bind fun prop => .pure k _

end

/-- **The bound does not show** on fewer tokens: each level of the recursion consumes one. -/
theorem agree_parsePrimary (tables : CharTables) (k : ℕ) :
    ∀ m n, k ≤ m → k ≤ n → Agree k (parsePrimary tables m) (parsePrimary tables n) := by
  induction k with
  | zero => intro m n _ _ ts hts; omega
  | succ k ih =>
    intro m n hm hn ts hts
    obtain ⟨m, rfl⟩ : ∃ m', m = m' + 1 := ⟨m - 1, by omega⟩
    obtain ⟨n, rfl⟩ : ∃ n', n = n' + 1 := ⟨n - 1, by omega⟩
    have hprimary : Agree k (parsePrimary tables m) (parsePrimary tables n) :=
      ih m n (by omega) (by omega)
    have hexpect : ∀ t, Agree k (expectToken t) (expectToken t) :=
      fun t => .of_reads k (reads_expectToken t)
    refine ⟨?_, fun e rest h => ?_⟩
    · unfold parsePrimary
      split
      · rfl
      · exact (agree_parseAfterIdent (agree_parseExpr hprimary) tables _).apply_eq
          (by simpa using hts)
      · exact Agree.apply_eq (hprimary.bind fun operand => .pure k _) (by simpa using hts)
      · refine Agree.apply_eq (k := k) ?_ (by simpa using hts)
        refine (hexpect _).bind fun _ => ?_
        refine (agree_parseQuery (agree_parseExpr hprimary)).bind fun q => ?_
        exact (hexpect _).bind fun _ => .pure k _
      · refine Agree.apply_eq (k := k) ?_ (by simpa using hts)
        exact (agree_parseExpr hprimary).bind fun e => (hexpect _).bind fun _ => .pure k _
      · rfl
    · obtain ⟨xs, rfl, -⟩ := reads_parsePrimary tables _ h
      simp

end KuzuEventBus
