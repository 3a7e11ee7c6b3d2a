import KuzuEventBus.Gql.ParserAccepts

/-!
# Where the word SET may stand

The parser has no SET clause.  The one place where it takes the word is the label of a node, where
it takes any token; and there a brace or a parenthesis follows.  So a text with SET before anything
else is not consumed to its end.

## Main definitions

* `SetIsLabel` — a brace or a parenthesis follows every SET.

## Main results

* `setIsLabel_of_sentence` — **in sentences SET is a label.**
-/

namespace KuzuEventBus

open Parsing Phrase Text

/-- A parenthesis or a brace follows every SET. -/
def SetIsLabel (xs : List Token) : Prop :=
  ∀ us vs, xs = us ++ .setKw :: vs →
    vs.head? = some .rightParen ∨ vs.head? = some .leftBrace

theorem setIsLabel_nil : SetIsLabel [] := by
  intro us vs h
  simp at h

theorem SetIsLabel.append {xs ys : List Token} (hxs : SetIsLabel xs) (hys : SetIsLabel ys) :
    SetIsLabel (xs ++ ys) := by
  intro us vs h
  rcases List.append_eq_append_iff.mp h with ⟨as, rfl, hys'⟩ | ⟨bs, hxs', hvs⟩
  · exact hys as vs hys'
  · cases bs with
    | nil => exact hys [] vs (by simpa using hvs.symm)
    | cons t bs =>
      obtain ⟨rfl, rfl⟩ := List.cons.inj hvs
      -- what follows SET is in the first list
      have hnext := hxs us bs hxs'
      rw [List.append_eq, List.head?_append]
      rcases hnext with hnext | hnext
      · rw [hnext]
        exact .inl rfl
      · rw [hnext]
        exact .inr rfl

theorem setIsLabel_closed : Closed SetIsLabel := ⟨setIsLabel_nil, .append⟩

theorem setIsLabel_singleton {t : Token} (h : t ≠ .setKw) : SetIsLabel [t] := by
  intro us vs heq
  have hmem : Token.setKw ∈ [t] := by
    rw [heq]
    simp
  exact absurd (List.mem_singleton.mp hmem).symm h

/-- A token before a list. -/
theorem SetIsLabel.cons {t : Token} {xs : List Token} (h : t ≠ .setKw) (hxs : SetIsLabel xs) :
    SetIsLabel (t :: xs) := (setIsLabel_singleton h).append hxs

/-! ### The phrases of the grammar -/

/-- A rule all of whose phrases have SET as a label. -/
def LabelsOnly {α : Type} (D : GqlPhrase α) : Prop := Within SetIsLabel D

section
variable {α β : Type}

theorem LabelsOnly.pure (a : α) : LabelsOnly (pure a : GqlPhrase α) :=
  Within.pure setIsLabel_closed a

theorem LabelsOnly.bind {D : GqlPhrase α} {E : α → GqlPhrase β} (hD : LabelsOnly D)
    (hE : ∀ a, LabelsOnly (E a)) : LabelsOnly (D >>= E) := Within.bind setIsLabel_closed hD hE

/-- A token that is not SET, and what comes after it. -/
theorem LabelsOnly.token_bind {t : Token} {E : Unit → GqlPhrase β} (h : t ≠ .setKw)
    (hE : LabelsOnly (E ())) : LabelsOnly (token t >>= E) :=
  .bind (Within.token (setIsLabel_singleton h)) fun _ => hE

theorem LabelsOnly.tokenMap {f : Token → Option α} (h : f .setKw = none) :
    LabelsOnly (tokenMap f) := by
  refine Within.tokenMap fun t a ht => setIsLabel_singleton ?_
  rintro rfl
  rw [h] at ht
  cases ht

theorem LabelsOnly.optional {D : GqlPhrase α} (h : LabelsOnly D) : LabelsOnly (optional D) :=
  Within.optional setIsLabel_closed h

theorem LabelsOnly.either {D E : GqlPhrase α} (hD : LabelsOnly D) (hE : LabelsOnly E) :
    LabelsOnly (either D E) := Within.either hD hE

theorem LabelsOnly.loop {D : α → GqlPhrase α} (h : ∀ a, LabelsOnly (D a)) (a : α) :
    LabelsOnly (Phrase.loop D a) := Within.loop setIsLabel_closed h a

theorem LabelsOnly.commaList {item : GqlPhrase α} (h : LabelsOnly item) :
    LabelsOnly (commaListPhrase item) :=
  .bind h fun _ => .loop (fun _ => .token_bind (by decide) (.bind h fun _ => .pure _)) _

end

/-! ### Patterns -/

theorem labelsOnly_propertiesBlock : LabelsOnly propertiesBlockPhrase := by
  have hproperty (st : HashMap String Literal × Bool) : LabelsOnly (propertyPhrase st) := by
    refine .bind (Within.guard setIsLabel_closed _) fun _ => ?_
    refine .bind (.tokenMap rfl) fun key => .token_bind (by decide) ?_
    refine .bind (.tokenMap rfl) fun val => ?_
    exact .bind (Within.flag setIsLabel_closed (setIsLabel_singleton (by decide)))
      fun more => .pure _
  refine .either (.token_bind (by decide) ?_) (.pure _)
  exact .bind (.bind (.loop hproperty _) fun _ => .pure _) fun props =>
    .token_bind (by decide) (.pure _)

/-- What comes after the label of a node begins with a brace or a parenthesis. -/
theorem head?_afterLabels {xs : List Token} {var : Option String} {labels : List String}
    {node : NodePattern} (h : (do
      let properties ← propertiesBlockPhrase
      token .rightParen
      pure ⟨var, labels, properties⟩ : GqlPhrase NodePattern) xs node) :
    xs.head? = some .rightParen ∨ xs.head? = some .leftBrace := by
  obtain ⟨ys, zs, properties, rfl, hproperties, hrest⟩ := h
  rcases hproperties with hblock | ⟨rfl, -⟩
  · right
    rw [List.head?_append, head?_token_bind hblock]
    rfl
  · left
    rw [List.nil_append]
    exact head?_token_bind hrest

/-- A node may have SET as its label. -/
theorem labelsOnly_node : LabelsOnly nodePhrase := by
  refine .token_bind (by decide) (.bind (.optional (.tokenMap rfl)) fun var => ?_)
  rintro xs node ⟨ys, zs, labels, rfl, hlabels, hrest⟩
  have hzs : SetIsLabel zs := by
    have hafter : LabelsOnly (do
        let properties ← propertiesBlockPhrase
        token .rightParen
        pure ⟨var, labels, properties⟩ : GqlPhrase NodePattern) :=
      .bind labelsOnly_propertiesBlock fun _ => .token_bind (by decide) (.pure _)
    exact hafter hrest
  rcases hlabels with ⟨t, rfl, -⟩ | ⟨rfl, -⟩
  · -- a colon, the label, and what follows
    refine .cons (by decide) ?_
    intro us vs heq
    cases us with
    | nil =>
      obtain ⟨-, rfl⟩ := List.cons.inj heq
      exact head?_afterLabels hrest
    | cons u us =>
      obtain ⟨-, rfl⟩ := List.cons.inj heq
      exact hzs us vs rfl
  · exact hzs

theorem labelsOnly_depthRange : LabelsOnly DepthRangePhrase := by
  intro xs d h
  have hall : ∀ t ∈ xs, t ≠ .setKw := by
    cases h <;> simp
  intro us vs heq
  exact absurd rfl (hall _ (by rw [heq]; simp))

theorem labelsOnly_edgeBody : LabelsOnly edgeBodyPhrase := by
  have htype : LabelsOnly edgeTypePhrase := by
    refine .either (.token_bind (by decide) (.bind (.tokenMap rfl) fun first => ?_)) (.pure _)
    exact .bind (.loop (fun types => .token_bind (by decide)
      (.bind (.tokenMap rfl) fun type => .pure _)) _) fun _ => .pure _
  refine .either (.token_bind (by decide) ?_) (.pure _)
  refine .bind (.optional (.tokenMap rfl)) fun var => .bind htype fun edgeType => ?_
  refine .bind labelsOnly_depthRange fun depth => .bind labelsOnly_propertiesBlock fun props => ?_
  refine .token_bind (by decide) (.bind labelsOnly_depthRange fun depthOutside => ?_)
  exact .bind (.bind (Within.guard setIsLabel_closed _) fun _ => .pure _) fun _ => .pure _

theorem labelsOnly_edge (fromNode : NodePattern) : LabelsOnly (edgePhrase fromNode) := by
  have hstart : LabelsOnly edgeStartPhrase :=
    .either (.token_bind (by decide) (.pure _)) (.token_bind (by decide) (.pure _))
  have hend (direction : Direction) : LabelsOnly (edgeEndPhrase direction) := by
    unfold edgeEndPhrase
    split
    · exact .either (.token_bind (by decide) (.pure _))
        (.either (.token_bind (by decide) (.pure _)) (.pure _))
    · exact .pure _
  exact .bind hstart fun start => .bind labelsOnly_edgeBody fun body =>
    .bind (hend start) fun direction => .bind labelsOnly_node fun toNode => .pure _

theorem labelsOnly_edgeStep (st : NodePattern × List Pattern) : LabelsOnly (edgeStepPhrase st) :=
  .bind (labelsOnly_edge _) fun _ => .pure _

theorem labelsOnly_match : LabelsOnly matchPhrase := by
  have hpath : LabelsOnly pathMatchPhrase :=
    .bind labelsOnly_node fun fromNode => .bind (.loop labelsOnly_edgeStep _) fun _ => .pure _
  exact .token_bind (by decide) (.bind (.bind (.commaList hpath) fun _ => .pure _) fun _ => .pure _)

theorem labelsOnly_create : LabelsOnly createPhrase := by
  have hpath (patterns : List Pattern) : LabelsOnly (pathCreatePhrase patterns) :=
    .bind labelsOnly_node fun fromNode => .bind (.loop labelsOnly_edgeStep _) fun _ => .pure _
  refine .token_bind (by decide) (.bind (.bind (hpath _) fun first => ?_) fun _ => .pure _)
  exact .loop (fun patterns => .token_bind (by decide) (hpath patterns)) _

/-! ### Expressions and clauses -/

theorem labelsOnly_expr {primary : GqlPhrase Expr} (h : LabelsOnly primary) :
    LabelsOnly (exprPhrase primary) := by
  have hchain {op? : Token → Option BinOp} {operand : GqlPhrase Expr} (hop : op? .setKw = none)
      (hoperand : LabelsOnly operand) : LabelsOnly (binaryChainPhrase op? operand) :=
    .bind hoperand fun left => .loop (fun left => .bind (.tokenMap hop) fun op =>
      .bind hoperand fun right => .pure _) _
  have hsum : LabelsOnly (additivePhrase primary) := hchain rfl (hchain rfl h)
  have htail (left : Expr) : LabelsOnly (comparisonTailPhrase primary left) := by
    refine .either (.token_bind (by decide) ?_) ?_
    · exact .bind (Within.flag setIsLabel_closed (setIsLabel_singleton (by decide))) fun isNot =>
        .token_bind (by decide) (.pure _)
    · refine .bind (.optional (.tokenMap rfl)) fun op => ?_
      cases op with
      | none => exact .pure _
      | some op => exact .bind hsum fun right => .pure _
  exact hchain rfl (hchain rfl (.bind hsum htail))

/-- A query of expressions. -/
theorem labelsOnly_query {expr : GqlPhrase Expr} (h : LabelsOnly expr) :
    LabelsOnly (queryPhrase expr) := by
  have hwith : LabelsOnly (withPhrase expr) := by
    refine .token_bind (by decide) (.bind (.commaList ?_) fun _ => .pure _)
    exact .bind h fun e => .token_bind (by decide) (.bind (.tokenMap rfl) fun _ => .pure _)
  have hwhere : LabelsOnly (wherePhrase expr) := .token_bind (by decide) (.bind h fun _ => .pure _)
  have hreturn : LabelsOnly (returnPhrase expr) :=
    .token_bind (by decide) (.bind (.commaList (.bind h fun _ => .pure _)) fun _ => .pure _)
  have horder : LabelsOnly (orderByPhrase expr) := by
    refine .token_bind (by decide) (.token_bind (by decide) ?_)
    refine .bind (.commaList ?_) fun _ => .pure _
    exact .bind h fun e => .bind (.optional (.tokenMap rfl)) fun _ => .pure _
  have hlimit : LabelsOnly limitPhrase :=
    .token_bind (by decide) (.bind (.tokenMap rfl) fun _ => .pure _)
  refine .bind (.optional labelsOnly_match) fun _ => .bind (.optional labelsOnly_create) fun _ => ?_
  refine .bind (Within.guard setIsLabel_closed _) fun _ => .bind (.optional hwith) fun _ => ?_
  refine .bind (.optional hwhere) fun _ => .bind (.optional hreturn) fun _ => ?_
  exact .bind (.optional horder) fun _ => .bind (.optional hlimit) fun _ => .pure _

theorem labelsOnly_primary (tables : CharTables) (n : ℕ) : LabelsOnly (primaryPhrase tables n) := by
  induction n with
  | zero => exact fun _ _ h => h.elim
  | succ n ih =>
    have hexpr := labelsOnly_expr ih
    have hargs : LabelsOnly (argsPhrase (exprPhrase (primaryPhrase tables n))) :=
      .either (.pure _) (.commaList hexpr)
    have hcall (name : String) (func : Option AggFunc) :
        LabelsOnly (callPhrase (exprPhrase (primaryPhrase tables n)) name func) := by
      cases func with
      | some func => exact .bind hexpr fun _ => .token_bind (by decide) (.pure _)
      | none => exact .bind hargs fun _ => .token_bind (by decide) (.pure _)
    have hident (name : String) :
        LabelsOnly (afterIdentPhrase (exprPhrase (primaryPhrase tables n)) tables name) :=
      .either (.token_bind (by decide) (hcall _ _))
        (.either (.token_bind (by decide) (.bind (.tokenMap rfl) fun _ => .pure _)) (.pure _))
    intro xs e h
    cases h with
    | parameter name => exact .cons (by simp) (setIsLabel_singleton (by simp))
    | ident h => exact .cons (by simp) (hident _ h)
    | not h => exact .cons (by simp) (ih h)
    | «exists» h =>
      refine .cons (by simp) (.cons (by simp) (.append ?_ (setIsLabel_singleton (by simp))))
      exact labelsOnly_query hexpr h
    | paren h =>
      exact .cons (by simp) ((hexpr h).append (setIsLabel_singleton (by simp)))
    | literal h =>
      refine setIsLabel_singleton ?_
      rintro rfl
      cases h

/-- **In a sentence SET is a label.** -/
theorem setIsLabel_of_sentence {tables : CharTables} {tokens : List Token} {q : Query}
    (h : Sentence tables tokens q) : SetIsLabel tokens := by
  obtain ⟨n, hq⟩ := h
  exact labelsOnly_query (labelsOnly_expr (labelsOnly_primary tables n)) hq

end KuzuEventBus
