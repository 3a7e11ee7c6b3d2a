import KuzuEventBus.Gql.ParserReads

/-!
# The parser accepts the grammar

Each rule of the parser, given a phrase of its grammar, consumes exactly that phrase,
unless the token after it is one the phrase could go on with.  The sets of such tokens
grow from primary expressions to products, sums, comparisons and so on.

With `ParserReads`, a text is consumed to its end if and only if it is a sentence
of the grammar.  The parser does not ask for that: it stops at the first token
it cannot use, and what is left is ignored.

## Main definitions

* `productGoes`, `sumGoes`, `comparisonGoes`, `exprGoes` — tokens an expression goes on with.
* `clauseGoes` — tokens a clause goes on with.

## Main results

* `accepts_parsePatternsMatch`, `accepts_parseExpr`, `accepts_parseQuery` — completeness.
* `runParser_eq_ok_nil_iff` — the texts that are consumed to their ends, and what they mean.
* `runParser_rest_eq_nil_iff` — a text that parses is consumed if and only if it is a sentence.
-/

namespace KuzuEventBus

open Parsing Phrase

variable {α : Type}

theorem accepts_expectToken (t : Token) {F : List Token → Prop} :
    Accepts (expectToken t) (token t) F := .expect t _ F

/-- A token in front is looked at and nothing else is. -/
theorem leads_token {c : Token → Bool} {t : Token} (ht : c t = false) {F : List Token → Prop} :
    Leads (token t) (Avoids c) F := .token (fun _ => avoids_cons.mpr ht) F

theorem avoids_of_avoids {c d : Token → Bool} (h : ∀ t, c t = true → d t = true)
    (rest : List Token) (hrest : Avoids d rest) : Avoids c rest := hrest.mono h

/-- Tokens a list of items goes on with. -/
def listGoes (c : Token → Bool) (t : Token) : Bool := c t || t = .comma

theorem accepts_commaList {item : GqlParser α} {D D₀ : GqlPhrase α} {c : Token → Bool}
    (hreads : Reads item D₀) (h : Accepts item D (Avoids c)) (hc : c .comma = false) :
    Accepts (commaList item) (commaListPhrase D) (Avoids (listGoes c)) := by
  have hcomma : ∀ rest, Avoids c (.comma :: rest) := fun rest => avoids_cons.mpr hc
  have hlist : ∀ rest, Avoids (listGoes c) rest → Avoids c rest :=
    avoids_of_avoids fun t ht => by rw [listGoes, ht, Bool.true_or]
  refine h.bind (fun first => ?_) fun first => ?_
  · refine .loopWhile (fun items _ _ => (reads_expectToken _).bind fun _ => hreads.bind fun item =>
        .pure (items ++ [item])) (fun items xs _ hD => ne_nil_of_head? (head?_token_bind hD)) ?_
        ?_ ?_ hlist ?_ [first]
    · intro items
      exact (accepts_expectToken _).bind_free fun _ =>
        h.bind (fun item => .pure _ _) fun item => .pure _ fun _ hrest => hrest
    · intro items xs items' hD
      have hhead := head?_token_bind hD
      exact ⟨ne_nil_of_head? hhead, by rw [hhead]; rfl⟩
    · rintro items xs items' rest ⟨ys, zs, u, rfl, rfl, -⟩
      exact hcomma _
    · intro items rest hrest
      rw [decide_eq_false_iff_not]
      intro hhead
      have hfalse := hrest .comma hhead
      rw [listGoes, decide_eq_true rfl, Bool.or_true] at hfalse
      cases hfalse
  · rintro xs rest items (_ | ⟨hD, hloop⟩) hrest
    · exact hlist rest hrest
    · obtain ⟨ys, zs, u, rfl, rfl, -⟩ := hD
      exact hcomma _

theorem leads_commaList {D : GqlPhrase α} {F F' : List Token → Prop}
    (h : Leads D F fun _ => True) : Leads (commaListPhrase D) F F' := .bind_first h

/-! ### Patterns -/

theorem accepts_parseProperty (st : HashMap String Literal × Bool) :
    Accepts (parseProperty st) (propertyPhrase st) (Avoids fun t => decide (t = .comma)) := by
  refine .guard_bind fun _ => ?_
  refine (Accepts.expectMap _ _ _).bind_free fun key => ?_
  refine (accepts_expectToken _).bind_free fun _ => ?_
  refine (Accepts.expectMap _ _ _).bind_free fun val => ?_
  exact (Accepts.accept _).bind (fun more => .pure _ _) fun more => .pure _ fun _ hrest => hrest

/-- A property begins with its key. -/
theorem propertyPhrase_cons {st st' : HashMap String Literal × Bool} {xs : List Token}
    (h : propertyPhrase st xs st') :
    st.2 = true ∧ ∃ key ys, xs = .ident key :: ys := by
  obtain ⟨us, vs, u, rfl, ⟨rfl, hst⟩, ws, zs, key, rfl, ⟨t, rfl, ht⟩, -⟩ := h
  cases t <;> cases ht
  exact ⟨hst, _, zs, rfl⟩

theorem accepts_parseProperties :
    Accepts parseProperties propertiesPhrase (Begins .rightBrace) := by
  refine Accepts.bind (F := Begins .rightBrace) ?_ (fun st => .pure _ _)
    fun st => .pure _ fun _ hrest => hrest
  refine .loopWhile (fun st next hcond => reads_parseProperty st ?_) ?_ accepts_parseProperty
    ?_ ?_ (fun rest hrest => .of_begins hrest rfl) ?_ (∅, true)
  · rw [Bool.and_eq_true] at hcond
    exact hcond.1
  · intro st xs st' hD
    obtain ⟨-, key, ys, rfl⟩ := propertyPhrase_cons hD
    exact List.cons_ne_nil _ _
  · intro st xs st' hD
    obtain ⟨hst, key, ys, rfl⟩ := propertyPhrase_cons hD
    exact ⟨List.cons_ne_nil _ _, by rw [hst]; rfl⟩
  · intro st xs st' rest hD
    obtain ⟨-, key, ys, rfl⟩ := propertyPhrase_cons hD
    exact avoids_cons.mpr rfl
  · intro st rest hrest
    rw [show rest.head? = some .rightBrace from hrest]
    exact Bool.and_false _

theorem accepts_parsePropertiesBlock : Accepts parsePropertiesBlock propertiesBlockPhrase
    (Avoids fun t => decide (t = .leftBrace)) := by
  refine .ifNext (F := fun _ => True) ?_ (.pure ∅ _) (.pure ∅ fun _ hrest => hrest)
    fun _ _ => trivial
  refine accepts_parseProperties.bind (fun props => ?_) fun props => ?_
  · exact (accepts_expectToken _).bind_free fun _ => .pure _ _
  · exact .bind_first (.token (fun _ => rfl) _)

theorem leads_propertiesBlock {c : Token → Bool} (hc : c .leftBrace = false) :
    Leads propertiesBlockPhrase (Avoids c) (Avoids c) :=
  .either (.bind_first (leads_token hc)) (.pure ∅ fun _ hrest => hrest)

theorem accepts_parseLabels :
    Accepts parseLabels labelsPhrase (Avoids fun t => decide (t = .colon)) := by
  rintro xs rest labels (⟨t, rfl, rfl⟩ | ⟨rfl, rfl⟩) hrest
  · rfl
  · change parseLabels rest = _
    unfold parseLabels
    split
    · cases avoids_cons.mp hrest
    · cases avoids_cons.mp hrest
    · rfl

theorem leads_labels {c : Token → Bool} (hc : c .colon = false) :
    Leads labelsPhrase (Avoids c) (Avoids c) := by
  rintro xs rest labels (⟨t, rfl, rfl⟩ | ⟨rfl, rfl⟩) hrest
  · exact avoids_cons.mpr hc
  · exact hrest

theorem accepts_parseNodePattern {F : List Token → Prop} :
    Accepts parseNodePattern nodePhrase F := by
  refine (accepts_expectToken _).bind_free fun _ => ?_
  refine (Accepts.acceptMap _).bind (fun var => ?_) fun var => ?_
  · refine accepts_parseLabels.bind (fun labels => ?_) fun labels => ?_
    · refine accepts_parsePropertiesBlock.bind (fun properties => ?_) fun properties => ?_
      · exact (accepts_expectToken _).bind_free fun _ => .pure _ _
      · exact .bind_first (leads_token rfl)
    · exact (leads_propertiesBlock rfl).bind fun properties => .bind_first (leads_token rfl)
  · refine (leads_labels rfl).bind fun labels => ?_
    exact (leads_propertiesBlock rfl).bind fun properties => .bind_first (leads_token rfl)

theorem leads_node {c : Token → Bool} (hc : c .leftParen = false) {F : List Token → Prop} :
    Leads nodePhrase (Avoids c) F := .bind_first (leads_token hc)

/-- Tokens a depth range goes on with. -/
def depthGoes (t : Token) : Bool := t = .star || t.int?.isSome || t = .dotDot

theorem accepts_parseDepthRange : Accepts parseDepthRange DepthRangePhrase (Avoids depthGoes) := by
  intro xs rest d h hrest
  cases rest with
  | nil => cases h <;> rfl
  | cons t ts =>
    have ht : depthGoes t = false := avoids_cons.mp hrest
    cases h <;> cases t <;> first | rfl | cases ht

theorem leads_depth {c : Token → Bool} (hc : c .star = false) :
    Leads DepthRangePhrase (Avoids c) (Avoids c) := by
  intro xs rest d h hrest
  cases h with
  | none => exact hrest
  | _ => exact avoids_cons.mpr hc

/-- Tokens an edge type goes on with, or begins with. -/
def edgeTypeGoes (t : Token) : Bool := t = .colon || t = .pipe

theorem accepts_parseEdgeType :
    Accepts parseEdgeType edgeTypePhrase (Avoids edgeTypeGoes) := by
  have hcolon : ∀ rest, Avoids edgeTypeGoes rest → Avoids (fun t => decide (t = .colon)) rest :=
    avoids_of_avoids fun t ht => by rw [edgeTypeGoes, ht, Bool.true_or]
  have hpipe : ∀ rest, Avoids edgeTypeGoes rest → rest.head? ≠ some .pipe :=
    fun rest hrest hhead => by cases hrest .pipe hhead
  refine .ifNext (F := fun rest => rest.head? ≠ some .pipe) ?_ (.pure none _)
    (.pure none hcolon) hpipe
  refine (Accepts.expectMap _ _ _).bind_free fun first => ?_
  refine Accepts.bind (F := fun rest => rest.head? ≠ some .pipe) ?_ (fun types => .pure _ _)
    fun types => .pure _ fun _ hrest => hrest
  refine .loopWhile (F := fun _ => True) (fun types _ _ => (reads_expectToken _).bind fun _ =>
      (Reads.expectMap _ _).bind fun type => .pure (types ++ [type]))
      (fun types xs _ hD => ne_nil_of_head? (head?_token_bind hD)) ?_ ?_
      (fun _ _ _ _ _ => trivial) (fun _ _ => trivial) ?_ [first]
  · intro types
    refine (accepts_expectToken _).bind_free fun _ => ?_
    exact (Accepts.expectMap _ _ _).bind_free fun type => .pure _ _
  · intro types xs types' hD
    have hhead := head?_token_bind hD
    exact ⟨ne_nil_of_head? hhead, by rw [hhead]; rfl⟩
  · intro types rest hrest
    exact decide_eq_false hrest

theorem leads_edgeType {c : Token → Bool} (hc : c .colon = false) :
    Leads edgeTypePhrase (Avoids c) (Avoids c) :=
  .either (.bind_first (leads_token hc)) (.pure none fun _ hrest => hrest)

theorem accepts_finalDepth (inside outside : Option DepthRange) {F : List Token → Prop} :
    Accepts (finalDepth inside outside) (finalDepthPhrase inside outside) F := by
  refine .guard_bind fun hone => ?_
  cases inside with
  | none => exact .pure _ _
  | some d =>
    rcases hone with hnone | rfl
    · cases hnone
    · exact .pure _ _

theorem leads_finalDepth (inside outside : Option DepthRange) {F : List Token → Prop} :
    Leads (finalDepthPhrase inside outside) F F :=
  .bind (.guard fun _ hrest => hrest) fun _ => .pure _ fun _ hrest => hrest

/-- Tokens the brackets of an edge pattern go on with, or are. -/
def edgeBodyGoes (t : Token) : Bool := t = .leftBracket || depthGoes t

theorem accepts_parseEdgeBody : Accepts parseEdgeBody edgeBodyPhrase (Avoids edgeBodyGoes) := by
  have hdepth : ∀ rest, Avoids edgeBodyGoes rest → Avoids depthGoes rest :=
    avoids_of_avoids fun t ht => by rw [edgeBodyGoes, ht, Bool.or_true]
  have hbracket : ∀ rest, Avoids edgeBodyGoes rest →
      Avoids (fun t => decide (t = .leftBracket)) rest :=
    avoids_of_avoids fun t ht => by rw [edgeBodyGoes, ht, Bool.true_or]
  refine .ifNext (F := Avoids depthGoes) ?_ (.pure _ _) (.pure _ hbracket) hdepth
  refine (Accepts.acceptMap _).bind (fun var => ?_) fun var => ?_
  · refine accepts_parseEdgeType.bind (fun edgeType => ?_) fun edgeType => ?_
    · refine accepts_parseDepthRange.bind (fun depth => ?_) fun depth => ?_
      · refine accepts_parsePropertiesBlock.bind (fun properties => ?_) fun properties => ?_
        · refine (accepts_expectToken _).bind_free fun _ => ?_
          refine accepts_parseDepthRange.bind (fun depthOutside => ?_) fun depthOutside => ?_
          · exact (accepts_finalDepth _ _).bind_free fun depth => .pure _ _
          · exact (leads_finalDepth _ _).bind fun depth => .pure _ fun _ hrest => hrest
        · exact .bind_first (leads_token rfl)
      · exact (leads_propertiesBlock rfl).bind fun properties => .bind_first (leads_token rfl)
    · refine (leads_depth rfl).bind fun depth => ?_
      exact (leads_propertiesBlock rfl).bind fun properties => .bind_first (leads_token rfl)
  · refine (leads_edgeType rfl).bind fun edgeType => (leads_depth rfl).bind fun depth => ?_
    exact (leads_propertiesBlock rfl).bind fun properties => .bind_first (leads_token rfl)

theorem accepts_parseEdgeStart {F : List Token → Prop} :
    Accepts parseEdgeStart edgeStartPhrase F := by
  refine .ifNext (.pure _ F) ?_ ?_ fun _ hrest => hrest
  · exact (accepts_expectToken _).bind_free fun _ => .pure _ _
  · exact .bind_first (leads_token rfl)

/-- Tokens an edge pattern may end with. -/
def edgeEndGoes (t : Token) : Bool := t = .arrow || t = .minus

theorem accepts_parseEdgeEnd (direction : Direction) :
    Accepts (parseEdgeEnd direction) (edgeEndPhrase direction) (Avoids edgeEndGoes) := by
  have harrow : ∀ rest, Avoids edgeEndGoes rest → Avoids (fun t => decide (t = .arrow)) rest :=
    avoids_of_avoids fun t ht => by rw [edgeEndGoes, ht, Bool.true_or]
  have hminus : ∀ rest, Avoids edgeEndGoes rest → Avoids (fun t => decide (t = .minus)) rest :=
    avoids_of_avoids fun t ht => by rw [edgeEndGoes, ht, Bool.or_true]
  unfold parseEdgeEnd edgeEndPhrase
  split
  · refine .ifNext (F := fun _ => True) (.pure _ _) ?_ ?_ fun _ _ => trivial
    · exact .ifNext (.pure _ _) (.pure _ _) (.pure _ hminus) fun _ hrest => hrest
    · exact .either (.bind_first (leads_token rfl)) (.pure _ harrow)
  · exact .pure _ _

theorem leads_edgeEnd {c : Token → Bool} (direction : Direction) (harrow : c .arrow = false)
    (hminus : c .minus = false) : Leads (edgeEndPhrase direction) (Avoids c) (Avoids c) := by
  unfold edgeEndPhrase
  split
  · refine .either (.bind_first (leads_token harrow)) ?_
    exact .either (.bind_first (leads_token hminus)) (.pure _ fun _ hrest => hrest)
  · exact .pure _ fun _ hrest => hrest

theorem accepts_parseEdgePattern (fromNode : NodePattern) {F : List Token → Prop} :
    Accepts (parseEdgePattern fromNode) (edgePhrase fromNode) F := by
  refine accepts_parseEdgeStart.bind_free fun start => ?_
  refine accepts_parseEdgeBody.bind (fun body => ?_) fun body => ?_
  · refine (accepts_parseEdgeEnd start).bind (fun direction => ?_) fun direction => ?_
    · exact accepts_parseNodePattern.bind_free fun toNode => .pure _ _
    · exact .bind_first (leads_node rfl)
  · exact (leads_edgeEnd start rfl rfl).bind fun direction => .bind_first (leads_node rfl)

/-- Tokens a path goes on with. -/
def pathGoes (t : Token) : Bool := edgeAhead (some t)

theorem edgeAhead_of_avoids {rest : List Token} (h : Avoids pathGoes rest) :
    edgeAhead rest.head? = false := by
  cases rest with
  | nil => rfl
  | cons t ts => exact h t rfl

/-- An edge pattern begins with one of its two symbols. -/
theorem edgePhrase_ahead {fromNode : NodePattern} {xs : List Token} {edge : EdgePattern}
    (h : edgePhrase fromNode xs edge) : xs ≠ [] ∧ edgeAhead xs.head? = true := by
  obtain ⟨ys, zs, start, rfl, ⟨us, vs, u, rfl, rfl, -⟩ | ⟨us, vs, u, rfl, rfl, -⟩, -⟩ := h
  · exact ⟨List.cons_ne_nil _ _, rfl⟩
  · exact ⟨List.cons_ne_nil _ _, rfl⟩

theorem edgeStepPhrase_ahead {st st' : NodePattern × List Pattern} {xs : List Token}
    (h : edgeStepPhrase st xs st') : xs ≠ [] ∧ edgeAhead xs.head? = true := by
  obtain ⟨ys, zs, edge, rfl, hedge, rfl, rfl⟩ := h
  rw [List.append_nil]
  exact edgePhrase_ahead hedge

theorem reads_edgeStep (st : NodePattern × List Pattern) : Reads (do
    let edge ← parseEdgePattern st.1
    pure (edge.toNode, st.2 ++ [.edge edge])) (edgeStepPhrase st) :=
  (reads_parseEdgePattern st.1).bind fun _ => .pure _

theorem accepts_edgeStep (st : NodePattern × List Pattern) {F : List Token → Prop} : Accepts (do
    let edge ← parseEdgePattern st.1
    pure (edge.toNode, st.2 ++ [.edge edge])) (edgeStepPhrase st) F :=
  (accepts_parseEdgePattern st.1).bind_free fun _ => .pure _ _

/-- The edge patterns of a path, before what may be another one. -/
theorem parseEdges_append {st st' : NodePattern × List Pattern} {xs : List Token}
    (h : loop edgeStepPhrase st xs st') (rest : List Token) :
    parseEdges st (xs ++ rest) = parseEdges st' rest :=
  loopWhile_of_loop (F := fun _ => True) (fun st _ _ => reads_edgeStep st)
    (fun _ _ _ hD => (edgeStepPhrase_ahead hD).1) (fun st => accepts_edgeStep st)
    (fun _ _ _ hD => edgeStepPhrase_ahead hD) (fun _ _ _ _ _ => trivial) h trivial

/-- One more edge of a path, or its end. -/
theorem parseEdges_eq (st : NodePattern × List Pattern) (ts : List Token) :
    parseEdges st ts = if edgeAhead ts.head? then (do
      let edge ← parseEdgePattern st.1
      parseEdges (edge.toNode, st.2 ++ [Pattern.edge edge])) ts else .ok (st, ts) := by
  refine (loopWhile_eq (fun st ts st' rest _ h => ?_) st ts).trans ?_
  · exact length_lt_of_reads (reads_edgeStep st) (fun _ _ hD => (edgeStepPhrase_ahead hD).1) h
  · rw [bind_assoc]
    simp only [pure_bind]
    rfl

theorem accepts_parseEdges (st : NodePattern × List Pattern) :
    Accepts (parseEdges st) (loop edgeStepPhrase st) (Avoids pathGoes) := by
  intro xs rest st' h hrest
  rw [parseEdges_append h, parseEdges_eq, edgeAhead_of_avoids hrest, if_neg Bool.false_ne_true]

theorem accepts_parsePathMatch : Accepts parsePathMatch pathMatchPhrase (Avoids pathGoes) := by
  refine accepts_parseNodePattern.bind_free fun fromNode => ?_
  exact (accepts_parseEdges _).bind (fun st => .pure _ _) fun st => .pure _ fun _ hrest => hrest

theorem accepts_parsePatternsMatch :
    Accepts parsePatternsMatch patternsMatchPhrase (Avoids (listGoes pathGoes)) :=
  (accepts_commaList reads_parsePathMatch accepts_parsePathMatch rfl).bind (fun _ => .pure _ _)
    fun _ => .pure _ fun _ hrest => hrest

theorem accepts_parsePathCreate (patterns : List Pattern) :
    Accepts (parsePathCreate patterns) (pathCreatePhrase patterns) (Avoids pathGoes) := by
  refine accepts_parseNodePattern.bind_free fun fromNode => ?_
  exact (accepts_parseEdges _).bind (fun st => .pure _ _) fun st => .pure _ fun _ hrest => hrest

theorem accepts_parsePatternsCreate :
    Accepts parsePatternsCreate patternsCreatePhrase (Avoids (listGoes pathGoes)) := by
  have hpath : ∀ rest, Avoids (listGoes pathGoes) rest → Avoids pathGoes rest :=
    avoids_of_avoids fun t ht => by rw [listGoes, ht, Bool.true_or]
  have hcomma : ∀ rest, Avoids pathGoes (.comma :: rest) := fun _ => avoids_cons.mpr rfl
  refine (accepts_parsePathCreate []).bind (fun first => ?_) fun first => ?_
  · refine .loopWhile (fun patterns _ _ => (reads_expectToken _).bind fun _ =>
        reads_parsePathCreate patterns) (fun _ _ _ hD => ne_nil_of_head? (head?_token_bind hD))
        (fun patterns => ?_) ?_ ?_ hpath ?_ first
    · exact (accepts_expectToken _).bind_free fun _ => accepts_parsePathCreate patterns
    · intro patterns xs patterns' hD
      have hhead := head?_token_bind hD
      exact ⟨ne_nil_of_head? hhead, by rw [hhead]; rfl⟩
    · rintro patterns xs patterns' rest ⟨ys, zs, u, rfl, rfl, -⟩
      exact hcomma _
    · intro patterns rest hrest
      rw [decide_eq_false_iff_not]
      intro hhead
      cases hrest .comma hhead
  · rintro xs rest patterns (_ | ⟨hD, hloop⟩) hrest
    · exact hpath rest hrest
    · obtain ⟨ys, zs, u, rfl, rfl, -⟩ := hD
      exact hcomma _

theorem accepts_parseMatch : Accepts parseMatch matchPhrase (Avoids (listGoes pathGoes)) := by
  refine (accepts_expectToken _).bind_free fun _ => ?_
  exact accepts_parsePatternsMatch.bind (fun patterns => .pure _ _)
    fun patterns => .pure _ fun _ hrest => hrest

theorem accepts_parseCreate : Accepts parseCreate createPhrase (Avoids (listGoes pathGoes)) := by
  refine (accepts_expectToken _).bind_free fun _ => ?_
  exact accepts_parsePatternsCreate.bind (fun patterns => .pure _ _)
    fun patterns => .pure _ fun _ hrest => hrest

/-! ### Expressions -/

/-- Tokens that operands joined by operators go on with. -/
def chainGoes (c : Token → Bool) (op? : Token → Option BinOp) (t : Token) : Bool :=
  c t || (op? t).isSome

theorem accepts_binaryChain {op? : Token → Option BinOp} {operand : GqlParser Expr}
    {D D₀ : GqlPhrase Expr} {c : Token → Bool} (hreads : Reads operand D₀)
    (h : Accepts operand D (Avoids c)) (hc : ∀ t op, op? t = some op → c t = false) :
    Accepts (binaryChain op? operand) (binaryChainPhrase op? D) (Avoids (chainGoes c op?)) := by
  have hchain : ∀ rest, Avoids (chainGoes c op?) rest → Avoids c rest :=
    avoids_of_avoids fun t ht => by rw [chainGoes, ht, Bool.true_or]
  refine h.bind (fun left => ?_) fun left => ?_
  · have hround (left : Expr) : Reads (do
        let op ← expectMap op? fun got => parseError ("expected operator, got " ++ Token.debug got)
        let right ← operand
        pure (Expr.binaryOp left op right)) (tokenMap op? >>= fun op => D₀ >>= fun right =>
          pure (Expr.binaryOp left op right)) :=
      (Reads.expectMap _ _).bind fun op => hreads.bind fun right => .pure _
    refine .loopWhile (fun left _ _ => hround left) ?_ (fun left => ?_) ?_ ?_ hchain ?_ left
    · rintro left xs e ⟨ys, zs, op, rfl, ⟨t, rfl, ht⟩, -⟩
      exact List.cons_ne_nil _ _
    · refine (Accepts.expectMap _ _ _).bind_free fun op => ?_
      exact h.bind (fun right => .pure _ _) fun right => .pure _ fun _ hrest => hrest
    · rintro left xs e ⟨ys, zs, op, rfl, ⟨t, rfl, ht⟩, -⟩
      exact ⟨List.cons_ne_nil _ _, congrArg Option.isSome ht⟩
    · rintro left xs e rest ⟨ys, zs, op, rfl, ⟨t, rfl, ht⟩, -⟩
      exact avoids_cons.mpr (hc t op ht)
    · intro left rest hrest
      cases rest with
      | nil => rfl
      | cons t ts =>
        have ht : chainGoes c op? t = false := hrest t rfl
        rw [chainGoes, Bool.or_eq_false_iff] at ht
        exact ht.2
  · rintro xs rest e (_ | ⟨hD, hloop⟩) hrest
    · exact hchain rest hrest
    · obtain ⟨ys, zs, op, rfl, ⟨t, rfl, ht⟩, -⟩ := hD
      exact avoids_cons.mpr (hc t op ht)

/-- Tokens a primary expression goes on with. -/
def primaryGoes (t : Token) : Bool := t = .leftParen || t = .dot

/-- Tokens a product goes on with. -/
def productGoes : Token → Bool := chainGoes primaryGoes multiplicativeOp?

/-- Tokens a sum goes on with. -/
def sumGoes : Token → Bool := chainGoes productGoes additiveOp?

/-- Tokens a comparison goes on with. -/
def comparisonGoes : Token → Bool := fun t => t = .isKw || chainGoes sumGoes comparisonOp? t

/-- Tokens a conjunction goes on with. -/
def andGoes : Token → Bool := chainGoes comparisonGoes andOp?

/-- Tokens an expression goes on with. -/
def exprGoes : Token → Bool := chainGoes andGoes orOp?

section
variable {primary : GqlParser Expr} {D D₀ : GqlPhrase Expr} (hreads : Reads primary D₀)
  (h : Accepts primary D (Avoids primaryGoes))
include hreads h

theorem accepts_parseMultiplicative :
    Accepts (parseMultiplicative primary) (multiplicativePhrase D) (Avoids productGoes) :=
  accepts_binaryChain hreads h fun t op ht => by cases t <;> first | rfl | cases ht

theorem accepts_parseAdditive :
    Accepts (parseAdditive primary) (additivePhrase D) (Avoids sumGoes) :=
  accepts_binaryChain (reads_parseMultiplicative hreads) (accepts_parseMultiplicative hreads h)
    fun t op ht => by cases t <;> first | rfl | cases ht

theorem accepts_parseComparand (left : Expr) (op : Option BinOp) :
    Accepts (parseComparand primary left op) (comparandPhrase D left op)
      (Avoids comparisonGoes) := by
  have hsum : ∀ rest, Avoids comparisonGoes rest → Avoids sumGoes rest :=
    avoids_of_avoids fun t ht => by rw [comparisonGoes, chainGoes, ht, Bool.true_or, Bool.or_true]
  cases op with
  | none => exact .pure left _
  | some op =>
    exact (accepts_parseAdditive hreads h).bind (fun right => .pure _ _) fun right => .pure _ hsum

theorem accepts_parseComparisonTail (left : Expr) :
    Accepts (parseComparisonTail primary left) (comparisonTailPhrase D left)
      (Avoids comparisonGoes) := by
  have his : ∀ rest, Avoids comparisonGoes rest → Avoids (fun t => decide (t = .isKw)) rest :=
    avoids_of_avoids fun t ht => by rw [comparisonGoes, ht, Bool.true_or]
  have hop : ∀ rest, Avoids comparisonGoes rest →
      Avoids (fun t => (comparisonOp? t).isSome) rest :=
    avoids_of_avoids fun t ht => by rw [comparisonGoes, chainGoes, ht, Bool.or_true, Bool.or_true]
  refine .ifNext (F := fun _ => True) ?_ ?_ ?_ fun _ _ => trivial
  · refine (Accepts.accept _).bind (fun isNot => ?_) fun isNot => .bind_first (leads_token rfl)
    exact (accepts_expectToken _).bind_free fun _ => .pure _ _
  · exact .acceptMap_bind (fun op => accepts_parseComparand hreads h left op) (.pure left hop)
  · refine .optional_bind (.tokenMap (fun t op rest ht => ?_) _) (.pure left his)
    cases t <;> first | exact avoids_cons.mpr rfl | cases ht

theorem accepts_parseComparison :
    Accepts (parseComparison primary) (comparisonPhrase D) (Avoids comparisonGoes) := by
  have hsum : ∀ rest, Avoids comparisonGoes rest → Avoids sumGoes rest :=
    avoids_of_avoids fun t ht => by rw [comparisonGoes, chainGoes, ht, Bool.true_or, Bool.or_true]
  refine (accepts_parseAdditive hreads h).bind
    (fun left => accepts_parseComparisonTail hreads h left)
    fun left => .either (.bind_first (leads_token rfl)) ?_
  refine .optional_bind (.tokenMap (fun t op rest ht => ?_) _) (.pure left hsum)
  cases t <;> first | exact avoids_cons.mpr rfl | cases ht

theorem accepts_parseExpr : Accepts (parseExpr primary) (exprPhrase D) (Avoids exprGoes) := by
  refine accepts_binaryChain (reads_parseAndExpr hreads) ?_
    fun t op ht => by cases t <;> first | rfl | cases ht
  exact accepts_binaryChain (reads_parseComparison hreads) (accepts_parseComparison hreads h)
    fun t op ht => by cases t <;> first | rfl | cases ht

end

theorem leads_expr {D : GqlPhrase Expr} {F : List Token → Prop} (h : Leads D F fun _ => True) :
    Leads (exprPhrase D) F fun _ => True :=
  .bind_first (.bind_first (.bind_first (.bind_first (.bind_first h))))

/-! ### Clauses and queries -/

/-- Tokens a clause goes on with. -/
def clauseGoes (t : Token) : Bool := listGoes (fun t => exprGoes t || (direction? t).isSome) t ||
  pathGoes t

theorem avoids_expr_of_clause : ∀ rest, Avoids clauseGoes rest → Avoids exprGoes rest :=
  avoids_of_avoids fun t ht => by rw [clauseGoes, listGoes, ht]; rfl

theorem avoids_exprList_of_clause :
    ∀ rest, Avoids clauseGoes rest → Avoids (listGoes exprGoes) rest := by
  refine avoids_of_avoids fun t ht => ?_
  rw [listGoes, Bool.or_eq_true] at ht
  rcases ht with ht | ht
  · rw [clauseGoes, listGoes, ht]; rfl
  · rw [clauseGoes, listGoes, ht, Bool.or_true, Bool.true_or]

theorem avoids_pathList_of_clause :
    ∀ rest, Avoids clauseGoes rest → Avoids (listGoes pathGoes) rest := by
  refine avoids_of_avoids fun t ht => ?_
  rw [listGoes, Bool.or_eq_true] at ht
  rcases ht with ht | ht
  · rw [clauseGoes, ht, Bool.or_true]
  · rw [clauseGoes, listGoes, ht, Bool.or_true, Bool.true_or]

section
variable {expr : GqlParser Expr} {D D₀ : GqlPhrase Expr} (hreads : Reads expr D₀)
  (h : Accepts expr D (Avoids exprGoes))
include h

theorem accepts_parseWhere : Accepts (parseWhere expr) (wherePhrase D) (Avoids clauseGoes) := by
  refine (accepts_expectToken _).bind_free fun _ => ?_
  exact h.bind (fun e => .pure _ _) fun e => .pure _ avoids_expr_of_clause

include hreads

theorem accepts_parseWith : Accepts (parseWith expr) (withPhrase D) (Avoids clauseGoes) := by
  have hitem : Accepts (parseWithItem expr) (withItemPhrase D) (Avoids exprGoes) := by
    refine h.bind (fun e => ?_) fun e => .bind_first (leads_token rfl)
    refine (accepts_expectToken _).bind_free fun _ => ?_
    exact (Accepts.expectMap _ _ _).bind_free fun aliasName => .pure _ _
  have hitemReads : Reads (parseWithItem expr) (withItemPhrase D₀) :=
    hreads.bind fun e => (reads_expectToken _).bind fun _ => (Reads.expectMap _ _).bind fun _ =>
      .pure _
  refine (accepts_expectToken _).bind_free fun _ => ?_
  exact (accepts_commaList hitemReads hitem rfl).bind (fun items => .pure _ _)
    fun items => .pure _ avoids_exprList_of_clause

theorem accepts_parseReturn : Accepts (parseReturn expr) (returnPhrase D) (Avoids clauseGoes) := by
  have hitem : Accepts (parseReturnItem expr) (returnItemPhrase D) (Avoids exprGoes) :=
    h.bind (fun e => .pure _ _) fun e => .pure _ fun _ hrest => hrest
  have hitemReads : Reads (parseReturnItem expr) (returnItemPhrase D₀) :=
    hreads.bind fun _ => .pure _
  refine (accepts_expectToken _).bind_free fun _ => ?_
  exact (accepts_commaList hitemReads hitem rfl).bind (fun items => .pure _ _)
    fun items => .pure _ avoids_exprList_of_clause

theorem accepts_parseOrderBy :
    Accepts (parseOrderBy expr) (orderByPhrase D) (Avoids clauseGoes) := by
  have hexpr : ∀ rest, Avoids (fun t => exprGoes t || (direction? t).isSome) rest →
      Avoids exprGoes rest := avoids_of_avoids fun t ht => by rw [ht, Bool.true_or]
  have hdir : ∀ rest, Avoids (fun t => exprGoes t || (direction? t).isSome) rest →
      Avoids (fun t => (direction? t).isSome) rest :=
    avoids_of_avoids fun t ht => by rw [ht, Bool.or_true]
  have hlist : ∀ rest, Avoids clauseGoes rest →
      Avoids (listGoes fun t => exprGoes t || (direction? t).isSome) rest :=
    avoids_of_avoids fun t ht => by rw [clauseGoes, ht, Bool.true_or]
  have hitem : Accepts (parseOrderByItem expr) (orderByItemPhrase D)
      (Avoids fun t => exprGoes t || (direction? t).isSome) := by
    refine h.bind (fun e => ?_) fun e => ?_
    · exact (Accepts.acceptMap _).bind (fun descending => .pure _ _) fun _ => .pure _ hdir
    · refine .optional_bind (.tokenMap (fun t d rest ht => ?_) _) (.pure _ hexpr)
      cases t <;> first | exact avoids_cons.mpr rfl | cases ht
  have hitemReads : Reads (parseOrderByItem expr) (orderByItemPhrase D₀) :=
    hreads.bind fun _ => (Reads.acceptMap _).bind fun _ => .pure _
  refine (accepts_expectToken _).bind_free fun _ => (accepts_expectToken _).bind_free fun _ => ?_
  exact (accepts_commaList hitemReads hitem rfl).bind (fun items => .pure _ _)
    fun items => .pure _ hlist

omit hreads h

theorem accepts_parseLimit {F : List Token → Prop} : Accepts parseLimit limitPhrase F := by
  refine (accepts_expectToken _).bind_free fun _ => ?_
  exact (Accepts.expectMap _ _ _).bind_free fun n => .pure _ _

theorem accepts_requirePattern (m : Option MatchClause) (c : Option CreateClause)
    {F : List Token → Prop} :
    Accepts (requirePattern m c) (guard ((m.isNone && c.isNone) = false)) F := by
  rintro xs rest u ⟨rfl, hsome⟩ _
  rw [List.nil_append, requirePattern, if_neg]
  rw [hsome]
  exact Bool.false_ne_true

theorem accepts_requirePattern_bind {m : Option MatchClause} {c : Option CreateClause}
    {f : Unit → GqlParser Query} {E : Unit → GqlPhrase Query} {F : List Token → Prop}
    {ks : List Token} (hrest : ∀ u, Accepts (f u) (E u) F ∧ Leads (E u) (BeginsIn ks) F) :
    Accepts (requirePattern m c >>= f) (guard ((m.isNone && c.isNone) = false) >>= E) F ∧
      Leads (guard ((m.isNone && c.isNone) = false) >>= E) (BeginsIn ks) F :=
  ⟨(accepts_requirePattern m c).bind_free fun u => (hrest u).1,
    .bind (.guard fun _ hbegins => hbegins) fun u => (hrest u).2⟩

include hreads h

theorem accepts_parseQuery :
    Accepts (parseQuery expr) (queryPhrase D) (BeginsIn [.rightBrace]) := by
  -- what a clause is followed by, in each place, is nothing it goes on with
  have hclause : ∀ ks : List Token, (∀ k ∈ ks, clauseGoes k = false) →
      ∀ rest, BeginsIn ks rest → Avoids clauseGoes rest := fun ks hks rest hrest => hrest.avoids hks
  have hpath : ∀ ks : List Token, (∀ k ∈ ks, clauseGoes k = false) →
      ∀ rest, BeginsIn ks rest → Avoids (listGoes pathGoes) rest :=
    fun ks hks rest hrest => avoids_pathList_of_clause rest (hclause ks hks rest hrest)
  let afterMatch : List Token :=
    [.createKw, .withKw, .whereKw, .returnKw, .orderKw, .limitKw, .rightBrace]
  refine And.left (Accepts.optionalAt_cons accepts_parseMatch (fun _ _ => head?_token_bind)
    (hpath afterMatch (by decide)) (by decide) fun matchClause => ?_)
  refine Accepts.optionalAt_cons accepts_parseCreate (fun _ _ => head?_token_bind)
    (hpath _ (by decide)) (by decide) fun createClause => ?_
  refine accepts_requirePattern_bind fun _ => ?_
  refine Accepts.optionalAt_cons (accepts_parseWith hreads h) (fun _ _ => head?_token_bind)
    (hclause _ (by decide)) (by decide) fun withClause => ?_
  refine Accepts.optionalAt_cons (accepts_parseWhere h) (fun _ _ => head?_token_bind)
    (hclause _ (by decide)) (by decide) fun whereClause => ?_
  refine Accepts.optionalAt_cons (accepts_parseReturn hreads h) (fun _ _ => head?_token_bind)
    (hclause _ (by decide)) (by decide) fun returnClause => ?_
  refine Accepts.optionalAt_cons (accepts_parseOrderBy hreads h) (fun _ _ => head?_token_bind)
    (hclause _ (by decide)) (by decide) fun orderBy => ?_
  refine Accepts.optionalAt_cons accepts_parseLimit (fun _ _ => head?_token_bind)
    (fun _ _ => trivial) (by decide) fun limit => ?_
  exact ⟨.pure _ _, .pure _ fun _ hbegins => hbegins⟩

end

/-! ### Primary expressions -/

/-- No expression begins with a closing parenthesis. -/
theorem leads_primary (tables : CharTables) (n : ℕ) :
    Leads (primaryPhrase tables n) (fun ts => ts.head? ≠ some .rightParen) fun _ => True := by
  intro xs rest e h _
  cases n with
  | zero => cases h
  | succ n =>
    cases h with
    | @literal t l ht =>
      rintro heq
      cases heq
      cases ht
    | _ => rintro heq; cases heq

section
variable {expr : GqlParser Expr} {D D₀ : GqlPhrase Expr} (hreads : Reads expr D₀)
  (h : Accepts expr D (Avoids exprGoes))
  (hstart : Leads D (fun ts => ts.head? ≠ some .rightParen) fun _ => True)
include hreads h hstart

theorem accepts_parseArgs : Accepts (parseArgs expr) (argsPhrase D) (Begins .rightParen) := by
  rintro xs rest args (⟨rfl, rfl⟩ | hargs) hrest
  · exact if_pos hrest
  · have hne : (xs ++ rest).head? ≠ some .rightParen := leads_commaList hstart hargs hrest
    rw [parseArgs, if_neg hne]
    exact accepts_commaList hreads h rfl hargs (.of_begins hrest rfl)

theorem accepts_parseCall (name : String) (func : Option AggFunc) {F : List Token → Prop} :
    Accepts (parseCall expr name func) (callPhrase D name func) F := by
  cases func with
  | some func =>
    refine h.bind (fun arg => ?_) fun arg => .bind_first (leads_token rfl)
    exact (accepts_expectToken _).bind_free fun _ => .pure _ _
  | none =>
    refine (accepts_parseArgs hreads h hstart).bind (fun args => ?_)
      fun args => .bind_first (.token (fun _ => rfl) _)
    exact (accepts_expectToken _).bind_free fun _ => .pure _ _

theorem accepts_parseAfterIdent (tables : CharTables) (name : String) :
    Accepts (parseAfterIdent expr tables name) (afterIdentPhrase D tables name)
      (Avoids primaryGoes) := by
  have hparen : ∀ rest, Avoids primaryGoes rest → Avoids (fun t => decide (t = .leftParen)) rest :=
    avoids_of_avoids fun t ht => by rw [primaryGoes, ht, Bool.true_or]
  have hdot : ∀ rest, Avoids primaryGoes rest → Avoids (fun t => decide (t = .dot)) rest :=
    avoids_of_avoids fun t ht => by rw [primaryGoes, ht, Bool.or_true]
  refine .ifNext (F := fun _ => True) (accepts_parseCall hreads h hstart name _) ?_ ?_
    fun _ _ => trivial
  · refine .ifNext (F := fun _ => True) ?_ (.pure _ _) (.pure _ hdot) fun _ _ => trivial
    exact (Accepts.expectMap _ _ _).bind_free fun prop => .pure _ _
  · exact .either (.bind_first (leads_token rfl)) (.pure _ hparen)

end

/-- **Primary expressions are accepted as the grammar has them**, when the bound on the depth
allows for theirs. -/
theorem accepts_parsePrimary (tables : CharTables) (n : ℕ) : ∀ fuel, n ≤ fuel →
    Accepts (parsePrimary tables fuel) (primaryPhrase tables n) (Avoids primaryGoes) := by
  induction n with
  | zero => intro fuel _ xs rest e h; cases h
  | succ n ih =>
    intro fuel hfuel xs rest e h hrest
    obtain ⟨fuel, rfl⟩ : ∃ k, fuel = k + 1 := ⟨fuel - 1, by omega⟩
    have hreads := reads_parsePrimary tables fuel
    have hprimary := ih fuel (by omega)
    have hexpr := accepts_parseExpr hreads hprimary
    cases h with
    | parameter name => rfl
    | ident hident =>
      exact accepts_parseAfterIdent (reads_parseExpr hreads) hexpr
        (leads_expr (leads_primary tables n)) tables _ hident hrest
    | not hnot =>
      have haccept : Accepts _ _ _ := hprimary.bind (fun e => .pure (Expr.unaryOp .not e) _)
        fun e => .pure _ fun _ hrest => hrest
      exact haccept ⟨_, [], _, (List.append_nil _).symm, hnot, rfl, rfl⟩ hrest
    | @«exists» xs q hq =>
      have haccept : Accepts _ _ (Avoids primaryGoes) :=
        (accepts_expectToken .leftBrace).bind_free fun _ =>
        (accepts_parseQuery (reads_parseExpr hreads) hexpr).bind
          (fun q => (accepts_expectToken .rightBrace).bind_free fun _ => .pure (Expr.exists q) _)
          fun q => .bind_first (.token (fun rest t ht => by cases ht; exact List.mem_cons_self) _)
      exact haccept ⟨_, _, (), rfl, rfl, xs, _, q, rfl, hq, _, [], (), rfl, rfl, rfl, rfl⟩ hrest
    | @paren xs e he =>
      have haccept : Accepts _ _ (Avoids primaryGoes) := hexpr.bind
        (fun e => (accepts_expectToken .rightParen).bind_free fun _ => .pure e _)
        fun e => .bind_first (leads_token rfl)
      exact haccept ⟨xs, _, e, rfl, he, _, [], (), rfl, rfl, rfl, rfl⟩ hrest
    | @literal t l ht =>
      cases t <;> cases ht <;> rfl

/-! ### Whole texts -/

/-- **The tokens consumed to the end are the sentences of the grammar**, and the query is what
they mean.  The bound on the depth is no restriction. -/
theorem parseQuery_eq_ok_nil_iff (tables : CharTables) (tokens : List Token) (q : Query) :
    parseQuery (parseExpr (parsePrimary tables (tokens.length + 1))) tokens = .ok (q, []) ↔
      Sentence tables tokens q := by
  constructor
  · intro h
    obtain ⟨xs, hxs, hq⟩ := reads_parseQuery (reads_parseExpr (reads_parsePrimary tables _)) h
    rw [List.append_nil] at hxs
    subst hxs
    exact ⟨_, hq⟩
  · rintro ⟨n, hq⟩
    -- accepted at a depth that is enough for both bounds
    have hle : n ≤ max n (tokens.length + 1) := le_max_left _ _
    have haccept := accepts_parseQuery (reads_parseExpr (reads_parsePrimary tables _))
      (accepts_parseExpr (reads_parsePrimary tables _) (accepts_parsePrimary tables n _ hle))
    have hmax := haccept hq (beginsIn_nil _)
    rw [List.append_nil] at hmax
    rw [← hmax]
    exact (agree_parseQuery (agree_parseExpr (agree_parsePrimary tables _ _ _ le_rfl
      (le_max_right n _)))).apply_eq (Nat.lt_succ_self _)

theorem runParser_eq_ok {tables : CharTables} {input : String} {q : Query} {rest : List Token}
    (h : runParser tables input = .ok (q, rest)) :
    ∃ tokens, tokenize tables input.toList = .ok tokens ∧
      parseQuery (parseExpr (parsePrimary tables (tokens.length + 1))) tokens = .ok (q, rest) :=
  KuzuEventBus.bind_eq_ok h

/-- **A text that parses is consumed to its end if and only if it is a sentence.**  Otherwise
the parser returns a query all the same: one that the text begins with. -/
theorem runParser_rest_eq_nil_iff (tables : CharTables) (input : String) (q : Query)
    (rest : List Token) (h : runParser tables input = .ok (q, rest)) :
    rest = [] ↔
      ∃ tokens, tokenize tables input.toList = .ok tokens ∧ ∃ q', Sentence tables tokens q' := by
  obtain ⟨tokens, htokens, hparse⟩ := runParser_eq_ok h
  constructor
  · rintro rfl
    exact ⟨tokens, htokens, q, (parseQuery_eq_ok_nil_iff tables tokens q).mp hparse⟩
  · rintro ⟨tokens', htokens', q', hq'⟩
    rw [htokens] at htokens'
    cases htokens'
    rw [(parseQuery_eq_ok_nil_iff tables tokens q').mpr hq'] at hparse
    cases hparse
    rfl

/-- `MATCH (a) RETURN a` is one. -/
theorem runParser_rest_eq_nil_iff_return :
    ∃ q rest, runParser .ascii "MATCH (a) RETURN a" = .ok (q, rest) ∧ (rest = [] ↔
      ∃ tokens, tokenize .ascii "MATCH (a) RETURN a".toList = .ok tokens ∧
        ∃ q', Sentence .ascii tokens q') := by
  have hok : (runParser .ascii "MATCH (a) RETURN a").toBool = true := by decide +kernel
  cases h : runParser .ascii "MATCH (a) RETURN a" with
  | error e => rw [h] at hok; cases hok
  | ok r => exact ⟨r.1, r.2, rfl, runParser_rest_eq_nil_iff .ascii _ r.1 r.2 h⟩

/-- `MATCH (a) SET a.x = 1` parses, and its SET clause is left over; so is the second of two
MATCH clauses, with all that follows it. -/
theorem runParser_leaves_tokens :
    (runParser .ascii "MATCH (a) SET a.x = 1").map Prod.snd =
        .ok [.setKw, .ident "a", .dot, .ident "x", .eq, .int 1] ∧
      (runParser .ascii "MATCH (a) MATCH (b) RETURN a").map Prod.snd =
        .ok [.matchKw, .leftParen, .ident "b", .rightParen, .returnKw, .ident "a"] ∧
      ¬ ∀ (input : String) (q : Query) (rest : List Token),
        runParser .ascii input = .ok (q, rest) → rest = [] := by
  have hset : (runParser .ascii "MATCH (a) SET a.x = 1").map Prod.snd =
      .ok [.setKw, .ident "a", .dot, .ident "x", .eq, .int 1] := by decide +kernel
  refine ⟨hset, by decide +kernel, fun hall => ?_⟩
  cases h : runParser .ascii "MATCH (a) SET a.x = 1" with
  | error e => rw [h] at hset; cases hset
  | ok r =>
    rw [h] at hset
    have hnil := hall _ r.1 r.2 h
    rw [show r.2 = _ from Except.ok.inj hset] at hnil
    cases hnil

end KuzuEventBus
