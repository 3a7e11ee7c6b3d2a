import KuzuEventBus.Gql.Lexemes
import KuzuEventBus.Gql.ParserAccepts

/-!
# Left arrows

The two ways of writing an edge with a direction: `-[…]->` and `<-[…]-`, or `-->` and
`<--` without brackets.  After `<-` the parser looks for the next node at once, so
the dash that closes the brackets is an error, wherever in a path the edge is.

## Main definitions

* `Parses`, `ParsesAll` — what a rule of the parser does on a text.
* `EdgeText` — the text of an edge, its `right` form and its `left` form.
* `LeftLikeRight` — where the right form parses, the left form does, to the other direction.

## Main results

* `IsPathRule.left_not_parses` — the left form does not.
* `not_leftLikeRight` — so that the two are never alike.
-/

namespace KuzuEventBus

open Parsing Phrase

variable {tables : CharTables} {α : Type}

/-- A rule of the parser on a text. -/
def parseText (tables : CharTables) (p : GqlParser α) (text : List Char) :
    Except Fault (α × List Token) := tokenize tables text >>= p

/-- The rule accepts the text, or the beginning of it. -/
def Parses (tables : CharTables) (p : GqlParser α) (text : List Char) : Prop :=
  ∃ r, parseText tables p text = .ok r

/-- The rule consumes the text to its end. -/
def ParsesAll (tables : CharTables) (p : GqlParser α) (text : List Char) : Prop :=
  ∃ a, parseText tables p text = .ok (a, [])

instance (p : GqlParser α) (text : List Char) : Decidable (Parses tables p text) :=
  match h : parseText tables p text with
  | .ok r => .isTrue ⟨r, h⟩
  | .error e => .isFalse fun ⟨r, hr⟩ => by rw [h] at hr; cases hr

instance (p : GqlParser α) (text : List Char) : Decidable (ParsesAll tables p text) :=
  match h : parseText tables p text with
  | .ok (a, []) => .isTrue ⟨a, h⟩
  | .ok (_, _ :: _) => .isFalse fun ⟨a, ha⟩ => by rw [h] at ha; cases ha
  | .error e => .isFalse fun ⟨a, ha⟩ => by rw [h] at ha; cases ha

/-- The text of an edge with a direction: the path before it, its brackets if there are any, and
what comes after its second symbol. -/
structure EdgeText where
  before : List Char
  body : List Char
  after : List Char

namespace EdgeText

/-- `-[…]->`. -/
def right (t : EdgeText) : List Char := t.before ++ '-' :: (t.body ++ '-' :: '>' :: t.after)

/-- `<-[…]-`. -/
def left (t : EdgeText) : List Char := t.before ++ '<' :: '-' :: (t.body ++ '-' :: t.after)

end EdgeText

/-- The rules for a path: that of MATCH clauses, and that of CREATE clauses after the patterns of
other paths. -/
def IsPathRule (p : GqlParser (List Pattern)) : Prop :=
  p = parsePathMatch ∨ ∃ patterns, p = parsePathCreate patterns

/-- Where the right form parses, the left form parses too, to the same patterns except for the
direction of the edge. -/
def LeftLikeRight (tables : CharTables) (p : GqlParser (List Pattern)) (t : EdgeText) : Prop :=
  ∀ patterns rest, parseText tables p t.right = .ok (patterns, rest) →
    ∃ ps edge qs, patterns = ps ++ .edge edge :: qs ∧ edge.direction = .right ∧
      parseText tables p t.left = .ok (ps ++ .edge { edge with direction := .left } :: qs, rest)

/-! ### Where phrases end -/

/-- A node pattern ends with its closing parenthesis. -/
theorem ends_nodePhrase : Ends (· = .rightParen) nodePhrase := by
  have hparen : Ends (· = .rightParen) (token (.rightParen : Token)) := .token rfl
  refine .bind fun _ => .bind fun var => .bind fun labels => .bind fun properties => ?_
  exact hparen.bind_pure

theorem ends_edgeStepPhrase (st : NodePattern × List Pattern) :
    Ends (· = .rightParen) (edgeStepPhrase st) := by
  have hedge : Ends (· = .rightParen) (edgePhrase st.1) := by
    refine .bind fun start => .bind fun body => .bind fun direction => ?_
    exact ends_nodePhrase.bind_pure
  exact hedge.bind_pure

/-- So does a path. -/
theorem pathMatchPhrase_last {xs : List Token} {ps : List Pattern} (h : pathMatchPhrase xs ps) :
    xs.getLast? = some .rightParen := by
  obtain ⟨ys, zs, fromNode, rfl, hnode, us, vs, st, rfl, hloop, rfl, -⟩ := h
  have hends : Ends (· = .rightParen)
      (nodePhrase >>= fun n => loop edgeStepPhrase (n, [.node n])) :=
    ends_nodePhrase.bind_loop ends_edgeStepPhrase
  obtain ⟨t, ht, rfl⟩ := hends ⟨ys, us, fromNode, rfl, hnode, hloop⟩
  rw [List.append_nil]
  exact ht

/-- A dash does not go on with the last token of a depth range, or of what comes before it. -/
theorem DepthRangePhrase.last {xs : List Token} {d : Option DepthRange}
    (h : DepthRangePhrase xs d) :
    xs = [] ∨ ∃ tok ∈ xs.getLast?, tok.goesOn tables '-' = false := by
  cases h with
  | none => exact .inl rfl
  | exact n => exact .inr ⟨.int n, rfl, rfl⟩
  | between n m => exact .inr ⟨.int m, rfl, rfl⟩
  | since n => exact .inr ⟨.dotDot, rfl, rfl⟩
  | upTo m => exact .inr ⟨.int m, rfl, rfl⟩
  | any => exact .inr ⟨.star, rfl, rfl⟩

/-- Nor with the last token of the brackets and the depth after them. -/
theorem edgeBodyPhrase_last {xs : List Token} {body : EdgeBody} (h : edgeBodyPhrase xs body) :
    ∀ tok ∈ xs.getLast?, tok.goesOn tables '-' = false := by
  rcases h with h | ⟨rfl, -⟩
  · have hbracket : Ends (fun tok : Token => tok.goesOn tables '-' = false)
        (token .rightBracket) := .token rfl
    have hends : Ends (fun tok : Token => tok.goesOn tables '-' = false) (do
        token .leftBracket
        let var ← optional (tokenMap Token.ident?)
        let edgeType ← edgeTypePhrase
        let depth ← DepthRangePhrase
        let properties ← propertiesBlockPhrase
        token .rightBracket
        let depthOutside ← DepthRangePhrase
        let depth ← finalDepthPhrase depth depthOutside
        pure (⟨var, edgeType, properties, depth⟩ : EdgeBody)) := by
      refine .bind fun _ => .bind fun var => .bind fun edgeType => .bind fun depth =>
        .bind fun properties => ?_
      refine hbracket.bind_of_nil fun _ xs body h => ?_
      obtain ⟨ys, zs, depthOutside, rfl, hdepth, us, vs, d, rfl,
        ⟨us₁, us₂, u, rfl, ⟨rfl, -⟩, rfl, -⟩, rfl, -⟩ := h
      simp only [List.append_nil]
      exact hdepth.last
    obtain ⟨t, ht, hdash⟩ := hends h
    intro tok htok
    cases ht.symm.trans htok
    exact hdash
  · intro tok htok
    cases htok

/-! ### The right form -/

/-- The tokens of the two parts of the text that both forms share. -/
theorem spells_before {text : List Char} {tokens : List Token} {ps : List Pattern}
    (h : tokenize tables text = .ok tokens) (hpath : pathMatchPhrase tokens ps) (rest : List Char) :
    Spells tables text tokens rest := by
  refine spells_of_tokenize h fun tok htok c _ => ?_
  cases (pathMatchPhrase_last hpath).symm.trans htok
  rfl

theorem spells_body {text : List Char} {tokens : List Token} {body : EdgeBody}
    (h : tokenize tables text = .ok tokens) (hbody : edgeBodyPhrase tokens body)
    (rest : List Char) : Spells tables text tokens ('-' :: rest) := by
  refine spells_of_tokenize h fun tok htok => ?_
  exact stops_cons.mpr (edgeBodyPhrase_last hbody tok htok)

/-- A text that a rule consumes to its end is a phrase of the rule's grammar. -/
theorem phrase_of_parseText {p : GqlParser α} {D : GqlPhrase α} (hp : Reads p D)
    {text : List Char} {a : α} (h : parseText tables p text = .ok (a, [])) :
    ∃ tokens, tokenize tables text = .ok tokens ∧ D tokens a := by
  obtain ⟨tokens, htokens, hparse⟩ := KuzuEventBus.bind_eq_ok h
  obtain ⟨xs, hxs, hD⟩ := hp hparse
  rw [List.append_nil] at hxs
  exact ⟨tokens, htokens, hxs ▸ hD⟩

/-- The edges of a path are the same whatever the patterns before them. -/
theorem loop_edgeStepPhrase_append {st st' : NodePattern × List Pattern} {xs : List Token}
    (h : loop edgeStepPhrase st xs st') : ∃ edges, st'.2 = st.2 ++ edges ∧
      ∀ ps, loop edgeStepPhrase (st.1, ps) xs (st'.1, ps ++ edges) := by
  induction h with
  | stop st =>
    refine ⟨[], by simp, fun ps => ?_⟩
    rw [List.append_nil]
    exact .stop _
  | step hstep _ ih =>
    obtain ⟨ys, zs, edge, rfl, hedge, rfl, rfl⟩ := hstep
    obtain ⟨edges, hedges, hloop⟩ := ih
    refine ⟨.edge edge :: edges, by simp [hedges], fun ps => ?_⟩
    have hrest := hloop (ps ++ [.edge edge])
    rw [List.append_assoc, List.singleton_append] at hrest
    exact .step ⟨ys, [], edge, rfl, hedge, rfl, rfl⟩ hrest

/-- The phrase `-[…]->(…)`. -/
theorem edgePhrase_right (fromNode : NodePattern) {ys zs : List Token} {body : EdgeBody}
    {toNode : NodePattern} (hbody : edgeBodyPhrase ys body) (hnode : nodePhrase zs toNode) :
    edgePhrase fromNode (.minus :: (ys ++ .arrow :: zs)) ⟨body.var, body.edgeType, .right,
      body.properties, fromNode, toNode, body.depth⟩ := by
  refine ⟨[.minus], ys ++ .arrow :: zs, .both, rfl, .inr ⟨[.minus], [], (), rfl, rfl, rfl, rfl⟩, ?_⟩
  refine ⟨ys, .arrow :: zs, body, rfl, hbody, ?_⟩
  refine ⟨[.arrow], zs, .right, rfl, .inl ⟨[.arrow], [], (), rfl, rfl, rfl, rfl⟩, ?_⟩
  exact ⟨zs, [], toNode, (List.append_nil zs).symm, hnode, rfl, rfl⟩

/-! ### The left form -/

theorem parseNodePattern_error {t : Token} (ht : t ≠ .leftParen) (rest : List Token) :
    parseNodePattern (t :: rest) = .error (parseError
      ("expected " ++ Token.debug (some .leftParen) ++ ", got " ++ Token.debug (some t))) := by
  have hexpect : expectToken .leftParen (t :: rest) = .error _ := expect_of_ne ht _ rest
  unfold parseNodePattern
  rw [bind_apply, hexpect]

/-- After `<-` and the brackets, if there are any, the parser looks for a node. -/
theorem parseEdgePattern_leftArrow (fromNode : NodePattern) {xs : List Token} {body : EdgeBody}
    (hbody : edgeBodyPhrase xs body) {t : Token} (hgoes : edgeBodyGoes t = false)
    (ht : t ≠ .leftParen) (rest : List Token) :
    parseEdgePattern fromNode (.leftArrow :: (xs ++ t :: rest)) = .error (parseError
      ("expected " ++ Token.debug (some .leftParen) ++ ", got " ++ Token.debug (some t))) := by
  have hstart : parseEdgeStart (.leftArrow :: (xs ++ t :: rest)) = .ok (.left, xs ++ t :: rest) :=
    rfl
  unfold parseEdgePattern
  rw [bind_of_ok hstart, bind_of_ok (accepts_parseEdgeBody hbody (avoids_cons.mpr hgoes))]
  have hend : parseEdgeEnd .left (t :: rest) = .ok (.left, t :: rest) := rfl
  rw [bind_of_ok hend, bind_apply, parseNodePattern_error ht]

/-- **No path goes on after the left form of an edge.** -/
theorem IsPathRule.left_error {p : GqlParser (List Pattern)} (hp : IsPathRule p)
    {xs ys : List Token} {ps : List Pattern} {body : EdgeBody} (hpath : pathMatchPhrase xs ps)
    (hbody : edgeBodyPhrase ys body) {t : Token} (hgoes : edgeBodyGoes t = false)
    (ht : t ≠ .leftParen) (rest : List Token) :
    ∃ e, p (xs ++ .leftArrow :: (ys ++ t :: rest)) = .error e := by
  obtain ⟨us, vs, fromNode, rfl, hnode, ws, ws', st, rfl, hloop, rfl, -⟩ := hpath
  have hfail (st : NodePattern × List Pattern) :
      parseEdges st (.leftArrow :: (ys ++ t :: rest)) = .error (parseError
        ("expected " ++ Token.debug (some .leftParen) ++ ", got " ++ Token.debug (some t))) := by
    have hahead : edgeAhead (Token.leftArrow :: (ys ++ t :: rest)).head? = true := rfl
    rw [parseEdges_eq, if_pos hahead, bind_apply, parseEdgePattern_leftArrow st.1 hbody hgoes ht]
  have hedges (ps' : List Pattern) : ∃ e,
      parseEdges (fromNode, ps') (ws ++ .leftArrow :: (ys ++ t :: rest)) = .error e := by
    obtain ⟨edges, -, hloop'⟩ := loop_edgeStepPhrase_append hloop
    rw [parseEdges_append (hloop' ps'), hfail]
    exact ⟨_, rfl⟩
  rw [List.append_nil, List.append_assoc]
  rcases hp with rfl | ⟨patterns, rfl⟩
  · obtain ⟨e, he⟩ := hedges [.node fromNode]
    refine ⟨e, ?_⟩
    unfold parsePathMatch
    rw [bind_of_ok (accepts_parseNodePattern (F := fun _ => True) hnode trivial), bind_apply, he]
  · obtain ⟨e, he⟩ := hedges patterns
    refine ⟨e, ?_⟩
    unfold parsePathCreate
    rw [bind_of_ok (accepts_parseNodePattern (F := fun _ => True) hnode trivial), bind_apply, he]

/-- **The left form does not parse**, at any position of a path. -/
theorem IsPathRule.left_not_parses {p : GqlParser (List Pattern)} (hp : IsPathRule p)
    {t : EdgeText} (hbefore : ParsesAll tables parsePathMatch t.before)
    (hbody : ParsesAll tables parseEdgeBody t.body) : ¬ Parses tables p t.left := by
  rintro ⟨r, hleft⟩
  obtain ⟨ps, hbefore⟩ := hbefore
  obtain ⟨body, hbody⟩ := hbody
  obtain ⟨xs, hxs, hpath⟩ := phrase_of_parseText reads_parsePathMatch hbefore
  obtain ⟨ys, hys, hedge⟩ := phrase_of_parseText reads_parseEdgeBody hbody
  obtain ⟨tokens, htokens, hparse⟩ := KuzuEventBus.bind_eq_ok hleft
  -- the symbol after the brackets is a dash, or an arrow if `>` comes next
  have hsymbol : ∃ sym rest, nextToken tables ('-' :: t.after) = .ok (some (sym, rest)) ∧
      edgeBodyGoes sym = false ∧ sym ≠ .leftParen := by
    by_cases hgt : t.after.head? = some '>'
    · obtain ⟨rest, hrest⟩ := List.head?_eq_some_iff.mp hgt
      rw [hrest]
      exact ⟨.arrow, rest, rfl, rfl, by simp⟩
    · exact ⟨.minus, t.after, nextToken_minus hgt, rfl, by simp⟩
  obtain ⟨sym, rest, hnext, hgoes, hne⟩ := hsymbol
  have harrow : Spells tables ['<', '-'] [.leftArrow] (t.body ++ '-' :: t.after) :=
    .of_nextToken rfl
  have hspells : Spells tables (t.before ++ (['<', '-'] ++ t.body)) (xs ++ ([.leftArrow] ++ ys))
      ('-' :: t.after) :=
    (spells_before hxs hpath _).append (harrow.append (spells_body hys hedge _))
  have hsplit : t.left = t.before ++ (['<', '-'] ++ t.body) ++ '-' :: t.after := by
    simp [EdgeText.left]
  rw [hsplit, hspells, KuzuEventBus.tokenize_eq, hnext] at htokens
  obtain ⟨ts, hts, rfl⟩ := map_eq_ok htokens
  obtain ⟨ts', -, rfl⟩ := map_eq_ok hts
  obtain ⟨e, he⟩ := hp.left_error hpath hedge hgoes hne ts'
  rw [List.append_assoc, List.append_assoc, List.singleton_append, he] at hparse
  cases hparse

/-- **Where the right form of an edge parses, the left form does not parse like it.** -/
theorem not_leftLikeRight {p : GqlParser (List Pattern)} (hp : IsPathRule p) {t : EdgeText}
    (hbefore : ParsesAll tables parsePathMatch t.before)
    (hbody : ParsesAll tables parseEdgeBody t.body) (hright : Parses tables p t.right) :
    ¬ LeftLikeRight tables p t := by
  intro hlike
  obtain ⟨⟨patterns, rest⟩, hr⟩ := hright
  obtain ⟨ps, edge, qs, -, -, hleft⟩ := hlike patterns rest hr
  exact hp.left_not_parses hbefore hbody ⟨_, hleft⟩

/-- `(a)-[r:KNOWS*1..3]->(b)` after `(x)--`, and the same to the left. -/
def knowsText : EdgeText where
  before := "(x)--(a)".toList
  body := "[r:KNOWS*1..3]".toList
  after := "(b)".toList

theorem not_leftLikeRight_knows : ¬ LeftLikeRight .ascii parsePathMatch knowsText :=
  not_leftLikeRight (.inl rfl) (by decide +kernel) (by decide +kernel) (by decide +kernel)

/-- `(a)-[:KNOWS]->(b)` and `(a)<-[:KNOWS]-(b)`, and the two without brackets. -/
theorem left_not_like_right :
    (Parses .ascii parsePathMatch "(a)-[:KNOWS]->(b)".toList ∧
      ¬ LeftLikeRight .ascii parsePathMatch ⟨"(a)".toList, "[:KNOWS]".toList, "(b)".toList⟩) ∧
    (Parses .ascii parsePathMatch "(a)-->(b)".toList ∧
      ¬ LeftLikeRight .ascii parsePathMatch ⟨"(a)".toList, [], "(b)".toList⟩) := by
  have hnot {t : EdgeText} (hright : Parses .ascii parsePathMatch t.right)
      (hleft : ¬ Parses .ascii parsePathMatch t.left) :
      ¬ LeftLikeRight .ascii parsePathMatch t := by
    obtain ⟨⟨patterns, rest⟩, hr⟩ := hright
    intro hlike
    obtain ⟨ps, edge, qs, -, -, hl⟩ := hlike patterns rest hr
    exact hleft ⟨_, hl⟩
  refine ⟨⟨by decide +kernel, hnot ?_ ?_⟩, by decide +kernel, hnot ?_ ?_⟩
  all_goals decide +kernel

end KuzuEventBus
