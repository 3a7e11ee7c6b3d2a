import KuzuEventBus.Gql.ParserAccepts
import KuzuEventBus.Gql.WalkEnds

/-!
# Depths and limits

The literals of `*n`, `*n..m`, `*n..`, `*..m` and `LIMIT n`, from the tokens of a text to
the query it parses to.  The lexer reads literals below `2 ^ 63`; a depth is then cast to
32 bits, whatever it was, and the largest of these is also what stands for a missing upper
bound.  A limit is cast to 64 bits, which changes nothing.

## Main definitions

* `WrittenRange`, `Written` — a range or a limit as it is written.
* `BoundScan`, `writtenBounds` — the ranges and limits written in a list of tokens.
* `Amount`, `Query.amounts` — those of a query, in the order of the text.
* `Bounds` — what either of them says.
* `MeansWhatItSays` — the query says what is written.

## Main results

* `scans_query` — **the ranges and limits of a query are the written ones**, cast.
* `mem_traverseVariableLength_maxU32` — the largest bound is none in small stores.
* `runParser_bounds_iff` — when a query says what is written.
-/

namespace KuzuEventBus

open Parsing Phrase Walks

/-! ### What is written -/

/-- A depth range as it is written, or the beginning of one. -/
inductive WrittenRange where
  /-- `*` -/
  | any
  /-- `*n` -/
  | exact (n : Int64)
  /-- `*n..` -/
  | since (n : Int64)
  /-- `*n..m` -/
  | between (n m : Int64)
  /-- `*..`, before its bound -/
  | dots
  /-- `*..m` -/
  | upTo (m : Int64)
  deriving DecidableEq

/-- A depth range or a limit as it is written. -/
inductive Written where
  | range (r : WrittenRange)
  | limit (n : Int64)
  deriving DecidableEq

/-- The range that goes on with a literal. -/
def WrittenRange.int (n : Int64) : WrittenRange → WrittenRange
  | .any => .exact n
  | .since k => .between k n
  | .dots => .upTo n
  | r => r

/-- The range that goes on with `..`. -/
def WrittenRange.dotDot : WrittenRange → WrittenRange
  | .any => .dots
  | .exact n => .since n
  | r => r

/-- The state of the scan: whether it is in an edge, the range that may go on, whether the last
token was LIMIT, and what was written before. -/
structure BoundScan where
  inEdge : Bool
  range : Option WrittenRange
  afterLimit : Bool
  done : List Written

namespace BoundScan

/-- All that was written so far. -/
def written (s : BoundScan) : List Written := s.done ++ (s.range.map Written.range).toList

/-- No range goes on. -/
def close (s : BoundScan) : BoundScan := ⟨s.inEdge, none, false, s.written⟩

/-- One token.  A star begins a range between a bracket and the next parenthesis, and is a
product elsewhere. -/
def step (s : BoundScan) : Token → BoundScan
  | .star => if s.inEdge then { s.close with range := some .any } else s.close
  | .int n =>
    match s.range with
    | some r => { s with range := some (r.int n) }
    | none =>
      if s.afterLimit then { s.close with done := s.written ++ [.limit n] } else s.close
  | .dotDot =>
    match s.range with
    | some r => { s with range := some r.dotDot }
    | none => s.close
  | .limitKw => { s.close with afterLimit := true }
  | .leftBracket => { s.close with inEdge := true }
  | .leftParen | .rightParen => { s.close with inEdge := false }
  | _ => s.close

theorem step_star (s : BoundScan) : s.step .star =
    if s.inEdge then { s.close with range := some .any } else s.close := rfl

theorem step_int (s : BoundScan) (n : Int64) : s.step (.int n) =
    match s.range with
    | some r => { s with range := some (r.int n) }
    | none =>
      if s.afterLimit then { s.close with done := s.written ++ [.limit n] } else s.close := rfl

theorem step_dotDot (s : BoundScan) : s.step .dotDot =
    match s.range with
    | some r => { s with range := some r.dotDot }
    | none => s.close := rfl

/-- Before any token. -/
def start : BoundScan := ⟨false, none, false, []⟩

end BoundScan

/-- The ranges and limits written in a text. -/
def writtenBounds (tokens : List Token) : List Written :=
  (tokens.foldl BoundScan.step .start).written

/-! ### What is parsed -/

/-- A depth range or a limit of a query. -/
inductive Amount where
  | range (d : DepthRange)
  | limit (n : ℕ)
  deriving DecidableEq

/-- The range that the parser makes of a written one. -/
def WrittenRange.depthRange : WrittenRange → DepthRange
  | .any => ⟨1, maxU32⟩
  | .exact n => ⟨toU32 n, toU32 n⟩
  | .since n => ⟨toU32 n, maxU32⟩
  | .between n m => ⟨toU32 n, toU32 m⟩
  | .dots => ⟨0, maxU32⟩
  | .upTo m => ⟨0, toU32 m⟩

/-- The amount that the parser makes of a written one. -/
def Written.amount : Written → Amount
  | .range r => .range r.depthRange
  | .limit n => .limit (toU64 n)

/-- The depth ranges of patterns. -/
def patternAmounts (patterns : List Pattern) : List Amount :=
  patterns.flatMap fun
    | .node _ => []
    | .edge edge => (edge.depth.map Amount.range).toList

@[simp] theorem patternAmounts_append (ps qs : List Pattern) :
    patternAmounts (ps ++ qs) = patternAmounts ps ++ patternAmounts qs :=
  List.flatMap_append

@[simp] theorem patternAmounts_edge (edge : EdgePattern) :
    patternAmounts [.edge edge] = (edge.depth.map Amount.range).toList :=
  List.append_nil _

@[simp] theorem patternAmounts_node (node : NodePattern) : patternAmounts [.node node] = [] := rfl

mutual

/-- The ranges and limits of the subqueries of an expression. -/
def Expr.amounts : Expr → List Amount
  | .binaryOp l _ r => l.amounts ++ r.amounts
  | .unaryOp _ e | .aggregate _ e | .isNull e | .isNotNull e => e.amounts
  | .functionCall _ args => argsAmounts args
  | .exists q => queryAmounts q
  | .literal _ | .ident _ | .property _ _ | .parameter _ => []

/-- … of the arguments of a call. -/
def argsAmounts : List Expr → List Amount
  | [] => []
  | e :: es => e.amounts ++ argsAmounts es

/-- The ranges and limits of a query. -/
def queryAmounts : QueryOf Expr → List Amount
  | ⟨m, c, w, wh, r, o, l⟩ =>
    (m.map fun m => patternAmounts m.patterns).getD [] ++
      ((c.map fun c => patternAmounts c.patterns).getD [] ++ (withAmounts w ++
        (whereAmounts wh ++ (returnAmounts r ++ (orderByAmounts o ++
          (l.map Amount.limit).toList)))))

/-- … of a WITH clause. -/
def withAmounts : Option (WithClauseOf Expr) → List Amount
  | none => []
  | some ⟨items⟩ => withItemsAmounts items

/-- … of the items of a WITH clause. -/
def withItemsAmounts : List (WithItemOf Expr) → List Amount
  | [] => []
  | ⟨e, _⟩ :: items => e.amounts ++ withItemsAmounts items

/-- … of a WHERE clause. -/
def whereAmounts : Option (WhereClauseOf Expr) → List Amount
  | none => []
  | some ⟨e⟩ => e.amounts

/-- … of a RETURN clause. -/
def returnAmounts : Option (ReturnClauseOf Expr) → List Amount
  | none => []
  | some ⟨items⟩ => returnItemsAmounts items

/-- … of the items of a RETURN clause. -/
def returnItemsAmounts : List (ReturnItemOf Expr) → List Amount
  | [] => []
  | ⟨e, _⟩ :: items => e.amounts ++ returnItemsAmounts items

/-- … of an ORDER BY clause. -/
def orderByAmounts : Option (OrderByClauseOf Expr) → List Amount
  | none => []
  | some ⟨items⟩ => orderItemsAmounts items

/-- … of the items of an ORDER BY clause. -/
def orderItemsAmounts : List (OrderByItemOf Expr) → List Amount
  | [] => []
  | ⟨e, _⟩ :: items => e.amounts ++ orderItemsAmounts items

end

/-! ### What it says -/

/-- What a range or a limit says; a range may have no upper bound. -/
inductive Bounds where
  | depth (min : ℕ) (max : Option ℕ)
  | limit (n : ℕ)
  deriving DecidableEq

/-- What is written. -/
def Written.bounds : Written → Bounds
  | .range .any => .depth 1 none
  | .range (.exact n) => .depth n.toInt.toNat (some n.toInt.toNat)
  | .range (.since n) => .depth n.toInt.toNat none
  | .range (.between n m) => .depth n.toInt.toNat (some m.toInt.toNat)
  | .range .dots => .depth 0 none
  | .range (.upTo m) => .depth 0 (some m.toInt.toNat)
  | .limit n => .limit n.toInt.toNat

/-- What the query says: the largest `u32` stands for no upper bound. -/
def Amount.bounds : Amount → Bounds
  | .range d => .depth d.min (if d.max = maxU32 then none else some d.max)
  | .limit n => .limit n

/-- `*n..m` with `n > m`. -/
def Written.Backwards : Written → Prop
  | .range (.between n m) => m < n
  | _ => False

/-- No Expand with this range finds anything. -/
def Amount.FindsNothing : Amount → Prop
  | .range d => ∀ (store : InMemoryGraphStore) (spec : ExpandSpec) (tuple : Tuple),
      spec.depth = some d → expandTuple store spec tuple = []
  | .limit _ => True

/-- The ranges and limits of the query say what is written, and a range written backwards finds
nothing. -/
structure MeansWhatItSays (tokens : List Token) (q : Query) : Prop where
  same : (writtenBounds tokens).map Written.bounds = (queryAmounts q).map Amount.bounds
  backwards : ∀ (i : ℕ) (w : Written) (a : Amount), (writtenBounds tokens)[i]? = some w →
    (queryAmounts q)[i]? = some a → w.Backwards → a.FindsNothing

/-- The literals that 32 bits can hold: the largest one is a lower bound only. -/
def Written.Fits : Written → Prop
  | .range .any | .range .dots => True
  | .range (.exact n) => n.toInt < 2 ^ 32 - 1
  | .range (.since n) => n.toInt < 2 ^ 32
  | .range (.between n m) => n.toInt < 2 ^ 32 ∧ m.toInt < 2 ^ 32 - 1
  | .range (.upTo m) => m.toInt < 2 ^ 32 - 1
  | .limit _ => True

/-! ### The states of the scan -/

namespace BoundScan

variable {s : BoundScan} {l : List Amount} {b : Bool}

/-- What was written so far comes to `l`. -/
def HasWritten (l : List Amount) (s : BoundScan) : Prop := s.written.map Written.amount = l

/-- No range goes on. -/
structure Quiet (b : Bool) (l : List Amount) (s : BoundScan) : Prop where
  edge : s.inEdge = b
  range : s.range = none
  written : s.HasWritten l

/-- In an edge, where a range may go on. -/
structure Inside (l : List Amount) (s : BoundScan) : Prop where
  edge : s.inEdge = true
  written : s.HasWritten l

/-- The state between phrases. -/
structure Resting (l : List Amount) (s : BoundScan) : Prop extends s.Quiet false l where
  limit : s.afterLimit = false

/-- The tokens that only end what goes on. -/
def passive : Token → Bool
  | .star | .int _ | .dotDot | .limitKw | .leftBracket | .leftParen | .rightParen => false
  | _ => true

theorem step_of_passive {t : Token} (h : passive t = true) (s : BoundScan) :
    s.step t = s.close := by
  cases t <;> first | rfl | cases h

theorem HasWritten.close (h : s.HasWritten l) : s.close.HasWritten l := by
  unfold HasWritten at h ⊢
  rw [← h]
  simp [BoundScan.close, BoundScan.written]

theorem HasWritten.passive {t : Token} (ht : BoundScan.passive t = true) (h : s.HasWritten l) :
    (s.step t).HasWritten l := by
  rw [step_of_passive ht]
  exact h.close

theorem Quiet.passive {t : Token} (ht : BoundScan.passive t = true) (h : s.Quiet b l) :
    (s.step t).Quiet b l := by
  rw [step_of_passive ht]
  exact ⟨h.edge, rfl, h.written.close⟩

theorem Inside.passive {t : Token} (ht : BoundScan.passive t = true) (h : s.Inside l) :
    (s.step t).Quiet true l := by
  rw [step_of_passive ht]
  exact ⟨h.edge, rfl, h.written.close⟩

/-- A parenthesis ends everything. -/
theorem HasWritten.paren {t : Token} (ht : t = .leftParen ∨ t = .rightParen)
    (h : s.HasWritten l) : (s.step t).Resting l := by
  rcases ht with rfl | rfl
  · exact ⟨⟨rfl, rfl, h.close⟩, rfl⟩
  · exact ⟨⟨rfl, rfl, h.close⟩, rfl⟩

/-- Between phrases only a bracket or LIMIT begin anything. -/
theorem Resting.step {t : Token} (hbracket : t ≠ .leftBracket) (hlimit : t ≠ .limitKw)
    (h : s.Resting l) : (s.step t).Resting l := by
  have hclose : s.close.Resting l := ⟨⟨h.edge, rfl, h.written.close⟩, rfl⟩
  by_cases ht : BoundScan.passive t = true
  · rw [step_of_passive ht]
    exact hclose
  · cases t with
    | leftParen => exact h.written.paren (.inl rfl)
    | rightParen => exact h.written.paren (.inr rfl)
    | star =>
      rw [step_star, h.edge]
      exact hclose
    | int n =>
      simp only [step_int, h.range, h.limit]
      exact hclose
    | dotDot =>
      simp only [step_dotDot, h.range]
      exact hclose
    | leftBracket => exact absurd rfl hbracket
    | limitKw => exact absurd rfl hlimit
    | _ => exact absurd rfl ht

/-- Any other token still leaves no range open. -/
theorem Resting.step_any (h : s.Resting l) (t : Token) : ∃ b, (s.step t).Quiet b l := by
  by_cases hbracket : t = .leftBracket
  · subst hbracket
    exact ⟨true, rfl, rfl, h.written.close⟩
  · by_cases hlimit : t = .limitKw
    · subst hlimit
      exact ⟨false, h.edge, rfl, h.written.close⟩
    · exact ⟨false, (h.step hbracket hlimit).toQuiet⟩

end BoundScan

/-! ### Patterns -/

section
variable {l : List Amount} {b : Bool}

open BoundScan

/-- A token that `f` accepts ends what goes on, if it is one of the passive ones. -/
theorem scans_tokenMap_quiet {α : Type} {f : Token → Option α}
    (hf : ∀ t a, f t = some a → passive t = true) :
    Scans step (Quiet b l) (tokenMap f) fun _ => Quiet b l :=
  .tokenMap fun t a ht _ hs => hs.passive (hf t a ht)

theorem passive_of_ident? {t : Token} {name : String} (h : t.ident? = some name) :
    passive t = true := by
  cases t <;> first | rfl | cases h

theorem passive_or_int_of_literal? {t : Token} {val : Literal} (h : t.literal? = some val) :
    passive t = true ∨ ∃ n, t = .int n := by
  cases t <;> first | exact .inl rfl | exact .inr ⟨_, rfl⟩ | cases h

theorem scans_ident_quiet :
    Scans step (Quiet b l) (tokenMap Token.ident?) fun _ => Quiet b l :=
  scans_tokenMap_quiet fun _ _ => passive_of_ident?

theorem scans_token_quiet {t : Token} (ht : passive t = true) :
    Scans step (Quiet b l) (token t) fun _ => Quiet b l :=
  .token fun _ hs => hs.passive ht

/-- `key: value`: a literal comes after a colon. -/
theorem scans_property (st : HashMap String Literal × Bool) :
    Scans step (Quiet b l) (propertyPhrase st) fun _ => Quiet b l := by
  refine (Scans.guard fun _ s hs => hs).bind fun _ => scans_ident_quiet.bind fun key => ?_
  refine Scans.bind (Q := fun _ s => s.Quiet b l ∧ s.afterLimit = false)
    (.token fun s hs => ⟨hs.passive rfl, by rw [step_of_passive rfl]; rfl⟩) fun _ => ?_
  refine Scans.bind (Q := fun _ => Quiet b l) (.tokenMap fun t a ht s hs => ?_) fun val => ?_
  · rcases passive_or_int_of_literal? ht with hpassive | ⟨n, rfl⟩
    · exact hs.1.passive hpassive
    · simp only [step_int, hs.1.range, hs.2]
      exact ⟨hs.1.edge, rfl, hs.1.written.close⟩
  · refine Scans.bind (Q := fun _ => Quiet b l) ?_ fun more => .pure fun s hs => hs
    exact .either ((scans_token_quiet rfl).bind fun _ => .pure fun s hs => hs)
      (.pure fun s hs => hs)

/-- Properties in braces, or nothing. -/
theorem scans_propertiesBlock {P : BoundScan → Prop}
    (hopen : ∀ s, P s → (s.step .leftBrace).Quiet b l) (hclose : ∀ s, s.Quiet b l → P s) :
    Scans step P propertiesBlockPhrase fun _ => P := by
  have hprops : Scans step (Quiet b l) propertiesPhrase fun _ => Quiet b l :=
    (Scans.loop (I := fun _ => Quiet b l) scans_property _).bind fun _ => .pure fun _ hs => hs
  refine .either ((Scans.token hopen).bind fun _ => hprops.bind fun props => ?_)
    (.pure fun _ hs => hs)
  exact (scans_token_quiet rfl).bind fun _ => .pure hclose

/-- A node pattern writes nothing: even where its label is a bracket or a keyword, the closing
parenthesis ends what that began. -/
theorem scans_node : Scans step (HasWritten l) nodePhrase fun _ => Resting l := by
  refine Scans.bind (Q := fun _ => Resting l) (.token fun s hs => hs.paren (.inl rfl)) fun _ => ?_
  refine Scans.bind (Q := fun _ => Resting l) ?_ fun var => ?_
  · refine .optional (.tokenMap fun t name ht s hs => ?_) fun s hs => hs
    rw [step_of_passive (passive_of_ident? ht)]
    exact ⟨⟨hs.edge, rfl, hs.written.close⟩, rfl⟩
  refine Scans.bind (Q := fun _ s => ∃ b, s.Quiet b l) ?_ fun labels => ?_
  · rintro xs labels (⟨t, rfl, rfl⟩ | ⟨rfl, rfl⟩) s hs
    · have hcolon : (s.step .colon).Resting l := hs.step (by simp) (by simp)
      exact hcolon.step_any t
    · exact ⟨false, hs.toQuiet⟩
  refine Scans.bind (Q := fun _ s => ∃ b, s.Quiet b l) ?_ fun properties => ?_
  · rintro xs properties hD s ⟨b, hs⟩
    exact ⟨b, scans_propertiesBlock (fun _ h => h.passive rfl) (fun _ h => h) hD s hs⟩
  refine Scans.bind (Q := fun _ => Resting l) (.token fun s hs => ?_) fun _ => .pure fun s hs => hs
  obtain ⟨b, hs⟩ := hs
  exact hs.written.paren (.inr rfl)

/-- The range of an edge pattern. -/
theorem scans_depthRange : Scans step (Quiet true l) DepthRangePhrase fun d =>
    Inside (l ++ (d.map Amount.range).toList) := by
  intro xs d hD s hs
  have hwritten : s.done.map Written.amount = l := by
    have h := hs.written
    simpa [HasWritten, BoundScan.written, hs.range] using h
  have hrange (r : WrittenRange) (hfold : xs.foldl step s = ⟨true, some r, false, s.done⟩) :
      (xs.foldl step s).Inside (l ++ [.range r.depthRange]) := by
    rw [hfold]
    exact ⟨rfl, by simp [HasWritten, BoundScan.written, hwritten, Written.amount]⟩
  have hstar : s.step .star = ⟨true, some .any, false, s.done⟩ := by
    simp [step_star, hs.edge, BoundScan.close, BoundScan.written, hs.range]
  cases hD with
  | none => exact ⟨hs.edge, by simpa using hs.written⟩
  | exact n => exact hrange (.exact n) (by rw [List.foldl_cons, hstar]; rfl)
  | between n m => exact hrange (.between n m) (by rw [List.foldl_cons, hstar]; rfl)
  | since n => exact hrange (.since n) (by rw [List.foldl_cons, hstar]; rfl)
  | upTo m => exact hrange (.upTo m) (by rw [List.foldl_cons, hstar]; rfl)
  | any => exact hrange .any (by rw [List.foldl_cons, hstar]; rfl)

/-- The types of an edge. -/
theorem scans_edgeType : Scans step (Quiet b l) edgeTypePhrase fun _ => Quiet b l := by
  refine .either ((scans_token_quiet rfl).bind fun _ => scans_ident_quiet.bind fun first => ?_)
    (.pure fun _ hs => hs)
  refine Scans.bind (Q := fun _ => Quiet b l) ?_ fun types => .pure fun _ hs => hs
  exact Scans.loop (I := fun _ => Quiet b l) (fun types =>
    (scans_token_quiet rfl).bind fun _ => scans_ident_quiet.bind fun type =>
      .pure fun _ hs => hs) _

/-- The brackets of an edge, with its range inside or after them. -/
theorem scans_edgeBody : Scans step (Resting l) edgeBodyPhrase fun body =>
    HasWritten (l ++ (body.depth.map Amount.range).toList) := by
  refine .either ?_ (.pure fun s hs => by simpa using hs.written)
  refine Scans.bind (Q := fun _ => Quiet true l)
    (.token fun s hs => ⟨rfl, rfl, hs.written.close⟩) fun _ => ?_
  refine Scans.bind (Q := fun _ => Quiet true l)
    (.optional scans_ident_quiet fun _ hs => hs) fun var => ?_
  refine scans_edgeType.bind fun edgeType => scans_depthRange.bind fun depth => ?_
  refine (scans_propertiesBlock (fun _ hs => hs.passive rfl)
    fun _ hs => ⟨hs.edge, hs.written⟩).bind fun properties => ?_
  refine Scans.bind (Q := fun _ => Quiet true _) (.token fun s hs => hs.passive rfl) fun _ => ?_
  refine scans_depthRange.bind fun depthOutside => ?_
  refine Scans.bind (Q := fun d => HasWritten (l ++ (d.map Amount.range).toList)) ?_
    fun d => .pure fun s hs => hs
  -- one of the two is there at most
  refine (Scans.guard (Q := fun s => HasWritten
    (l ++ ((depth.orElse fun _ => depthOutside).map Amount.range).toList) s) ?_).bind
      fun _ => .pure fun s hs => hs
  rintro (rfl | rfl) s hs
  · simpa using hs.written
  · cases depth <;> simpa using hs.written

/-- `<-` or `-`. -/
theorem scans_edgeStart : Scans step (Resting l) edgeStartPhrase fun _ => Resting l :=
  .either ((Scans.token fun s hs => hs.step (by simp) (by simp)).bind fun _ => .pure fun _ hs => hs)
    ((Scans.token fun s hs => hs.step (by simp) (by simp)).bind fun _ => .pure fun _ hs => hs)

/-- `->`, `-` or nothing. -/
theorem scans_edgeEnd (direction : Direction) :
    Scans step (HasWritten l) (edgeEndPhrase direction) fun _ => HasWritten l := by
  unfold edgeEndPhrase
  split
  · refine .either ((Scans.token fun s hs => hs.passive rfl).bind fun _ => .pure fun _ hs => hs) ?_
    exact .either ((Scans.token fun s hs => hs.passive rfl).bind fun _ => .pure fun _ hs => hs)
      (.pure fun _ hs => hs)
  · exact .pure fun _ hs => hs

/-- The edges of a path. -/
theorem scans_edgeStep (st : NodePattern × List Pattern) :
    Scans step (Resting (l ++ patternAmounts st.2)) (edgeStepPhrase st) fun st' =>
      Resting (l ++ patternAmounts st'.2) := by
  refine Scans.bind (Q := fun edge =>
    Resting (l ++ patternAmounts st.2 ++ (edge.depth.map Amount.range).toList)) ?_ fun edge => ?_
  · refine scans_edgeStart.bind fun start => scans_edgeBody.bind fun body =>
      (scans_edgeEnd start).bind fun direction => scans_node.bind fun toNode => ?_
    exact .pure fun s hs => hs
  · refine .pure fun s hs => ?_
    rw [patternAmounts_append, patternAmounts_edge, ← List.append_assoc]
    exact hs

/-- A path of a MATCH clause. -/
theorem scans_pathMatch : Scans step (Resting l) pathMatchPhrase fun patterns =>
    Resting (l ++ patternAmounts patterns) := by
  refine Scans.bind (Q := fun _ => Resting l)
    (scans_node.mono (fun _ hs => hs.written) fun _ _ hs => hs) fun fromNode => ?_
  refine Scans.bind (Q := fun st => Resting (l ++ patternAmounts st.2)) ?_
    fun st => .pure fun s hs => hs
  refine (Scans.loop (I := fun st => Resting (l ++ patternAmounts st.2)) scans_edgeStep _).mono
    (fun s hs => ?_) fun _ _ hs => hs
  rw [patternAmounts_node, List.append_nil]
  exact hs

/-- A list with commas writes what its items write. -/
theorem scans_commaList {α : Type} {item : GqlPhrase α} {amounts : α → List Amount}
    (h : ∀ l, Scans step (Resting l) item fun a => Resting (l ++ amounts a)) :
    Scans step (Resting l) (commaListPhrase item) fun items =>
      Resting (l ++ items.flatMap amounts) := by
  refine (h l).bind fun first => ?_
  refine (Scans.loop (I := fun items => Resting (l ++ items.flatMap amounts))
    (fun items => ?_) [first]).mono (fun s hs => by simpa using hs) fun _ _ hs => hs
  refine Scans.bind (Q := fun _ => Resting (l ++ items.flatMap amounts))
    (.token fun s hs => hs.step (by simp) (by simp)) fun _ => ?_
  refine (h _).bind fun item => .pure fun s hs => ?_
  rw [List.flatMap_append, ← List.append_assoc]
  simpa using hs

theorem patternAmounts_flatten (paths : List (List Pattern)) :
    patternAmounts paths.flatten = paths.flatMap patternAmounts := by
  induction paths with
  | nil => rfl
  | cons path paths ih =>
    rw [List.flatten_cons, patternAmounts_append, ih, List.flatMap_cons]

/-- A MATCH clause. -/
theorem scans_match : Scans step (Resting l) matchPhrase fun clause =>
    Resting (l ++ patternAmounts clause.patterns) := by
  refine Scans.bind (Q := fun _ => Resting l)
    (.token fun s hs => hs.step (by simp) (by simp)) fun _ => ?_
  refine Scans.bind (Q := fun patterns => Resting (l ++ patternAmounts patterns)) ?_
    fun patterns => .pure fun s hs => hs
  refine (scans_commaList fun l => scans_pathMatch).bind fun paths => .pure fun s hs => ?_
  rw [patternAmounts_flatten]
  exact hs

/-- A path of a CREATE clause, after other patterns. -/
theorem scans_pathCreate (patterns : List Pattern) :
    Scans step (Resting (l ++ patternAmounts patterns)) (pathCreatePhrase patterns) fun patterns' =>
      Resting (l ++ patternAmounts patterns') := by
  refine Scans.bind (Q := fun _ => Resting (l ++ patternAmounts patterns))
    (scans_node.mono (fun _ hs => hs.written) fun _ _ hs => hs) fun fromNode => ?_
  refine Scans.bind (Q := fun (st : NodePattern × List Pattern) =>
    Resting (l ++ patternAmounts st.2)) (Scans.loop scans_edgeStep _) fun st =>
      .pure fun s hs => ?_
  split
  · exact hs
  · rw [patternAmounts_append, patternAmounts_node, List.append_nil]
    exact hs

/-- A CREATE clause. -/
theorem scans_create : Scans step (Resting l) createPhrase fun clause =>
    Resting (l ++ patternAmounts clause.patterns) := by
  refine Scans.bind (Q := fun _ => Resting l)
    (.token fun s hs => hs.step (by simp) (by simp)) fun _ => ?_
  refine Scans.bind (Q := fun patterns => Resting (l ++ patternAmounts patterns)) ?_
    fun patterns => .pure fun s hs => hs
  refine Scans.bind (Q := fun patterns => Resting (l ++ patternAmounts patterns))
    ((scans_pathCreate []).mono (fun s hs => by simpa [patternAmounts] using hs)
      fun _ _ hs => hs) fun first => ?_
  refine Scans.loop (I := fun patterns => Resting (l ++ patternAmounts patterns))
    (fun patterns => ?_) first
  exact Scans.bind (Q := fun _ => Resting (l ++ patternAmounts patterns))
    (.token fun s hs => hs.step (by simp) (by simp)) fun _ => scans_pathCreate patterns

end

/-! ### Expressions -/

section
variable {l : List Amount}

open BoundScan

/-- A phrase that writes what its expression does. -/
def ScansExpr (D : GqlPhrase Expr) : Prop :=
  ∀ l, Scans step (Resting l) D fun e => Resting (l ++ e.amounts)

/-- A token of an operator. -/
theorem scans_tokenMap {α : Type} {f : Token → Option α} (hbracket : f .leftBracket = none)
    (hlimit : f .limitKw = none) : Scans step (Resting l) (tokenMap f) fun _ => Resting l := by
  refine .tokenMap fun t a ht s hs => hs.step ?_ ?_
  · rintro rfl
    rw [hbracket] at ht
    cases ht
  · rintro rfl
    rw [hlimit] at ht
    cases ht

theorem scans_flag : Scans step (Resting l) (flag .notKw) fun _ => Resting l :=
  .either ((Scans.token fun _ hs => hs.step (by simp) (by simp)).bind fun _ => .pure fun _ hs => hs)
    (.pure fun _ hs => hs)

theorem scans_binaryChain {op? : Token → Option BinOp} {operand : GqlPhrase Expr}
    (hbracket : op? .leftBracket = none) (hlimit : op? .limitKw = none) (h : ScansExpr operand) :
    ScansExpr (binaryChainPhrase op? operand) := by
  intro l
  refine (h l).bind fun left => Scans.loop (I := fun e => Resting (l ++ e.amounts))
    (fun left => ?_) left
  refine (scans_tokenMap hbracket hlimit).bind fun op => (h _).bind fun right =>
    .pure fun s hs => ?_
  rw [Expr.amounts, ← List.append_assoc]
  exact hs

theorem scans_comparison {operand : GqlPhrase Expr} (h : ScansExpr operand) :
    ScansExpr (comparisonPhrase operand) := by
  have hsum : ScansExpr (additivePhrase operand) :=
    scans_binaryChain rfl rfl (scans_binaryChain rfl rfl h)
  intro l
  refine (hsum l).bind fun left => .either ?_ ?_
  · refine Scans.bind (Q := fun _ => Resting (l ++ left.amounts))
      (.token fun s hs => hs.step (by simp) (by simp)) fun _ => ?_
    refine Scans.bind (Q := fun _ => Resting (l ++ left.amounts)) scans_flag fun isNot => ?_
    refine Scans.bind (Q := fun _ => Resting (l ++ left.amounts))
      (.token fun s hs => hs.step (by simp) (by simp)) fun _ => .pure fun s hs => ?_
    cases isNot <;> exact hs
  · refine Scans.bind (Q := fun _ => Resting (l ++ left.amounts))
      (.optional (scans_tokenMap rfl rfl) fun _ hs => hs) fun op => ?_
    cases op with
    | none => exact .pure fun s hs => hs
    | some op =>
      refine (hsum _).bind fun right => .pure fun s hs => ?_
      rw [Expr.amounts, ← List.append_assoc]
      exact hs

/-- Expressions, from the primary ones. -/
theorem scans_expr {primary : GqlPhrase Expr} (h : ScansExpr primary) :
    ScansExpr (exprPhrase primary) :=
  scans_binaryChain rfl rfl (scans_binaryChain rfl rfl (scans_comparison h))

/-! ### Clauses and queries -/

theorem withItemsAmounts_eq (items : List WithItem) :
    withItemsAmounts items = items.flatMap fun item => item.expr.amounts := by
  induction items with
  | nil => rfl
  | cons item items ih => rw [withItemsAmounts, ih, List.flatMap_cons]

theorem returnItemsAmounts_eq (items : List ReturnItem) :
    returnItemsAmounts items = items.flatMap fun item => item.expr.amounts := by
  induction items with
  | nil => rfl
  | cons item items ih => rw [returnItemsAmounts, ih, List.flatMap_cons]

theorem orderItemsAmounts_eq (items : List OrderByItem) :
    orderItemsAmounts items = items.flatMap fun item => item.expr.amounts := by
  induction items with
  | nil => rfl
  | cons item items ih => rw [orderItemsAmounts, ih, List.flatMap_cons]

theorem argsAmounts_eq (args : List Expr) : argsAmounts args = args.flatMap Expr.amounts := by
  induction args with
  | nil => rfl
  | cons e args ih => rw [argsAmounts, ih, List.flatMap_cons]

section
variable {expr : GqlPhrase Expr} (h : ScansExpr expr)

include h

theorem scans_where : Scans step (Resting l) (wherePhrase expr) fun clause =>
    Resting (l ++ clause.expr.amounts) := by
  refine Scans.bind (Q := fun _ => Resting l)
    (.token fun s hs => hs.step (by simp) (by simp)) fun _ => ?_
  exact (h l).bind fun e => .pure fun s hs => hs

theorem scans_with : Scans step (Resting l) (withPhrase expr) fun clause =>
    Resting (l ++ withItemsAmounts clause.items) := by
  refine Scans.bind (Q := fun _ => Resting l)
    (.token fun s hs => hs.step (by simp) (by simp)) fun _ => ?_
  have hitem (l : List Amount) : Scans step (Resting l) (withItemPhrase expr) fun item =>
      Resting (l ++ item.expr.amounts) := by
    refine (h l).bind fun e => Scans.bind (Q := fun _ => Resting (l ++ e.amounts))
      (.token fun s hs => hs.step (by simp) (by simp)) fun _ => ?_
    exact (scans_tokenMap rfl rfl).bind fun name => .pure fun s hs => hs
  refine (scans_commaList hitem).bind fun items => .pure fun s hs => ?_
  rw [withItemsAmounts_eq]
  exact hs

theorem scans_return : Scans step (Resting l) (returnPhrase expr) fun clause =>
    Resting (l ++ returnItemsAmounts clause.items) := by
  refine Scans.bind (Q := fun _ => Resting l)
    (.token fun s hs => hs.step (by simp) (by simp)) fun _ => ?_
  have hitem (l : List Amount) : Scans step (Resting l) (returnItemPhrase expr) fun item =>
      Resting (l ++ item.expr.amounts) := (h l).bind fun e => .pure fun s hs => hs
  refine (scans_commaList hitem).bind fun items => .pure fun s hs => ?_
  rw [returnItemsAmounts_eq]
  exact hs

theorem scans_orderBy : Scans step (Resting l) (orderByPhrase expr) fun clause =>
    Resting (l ++ orderItemsAmounts clause.items) := by
  refine Scans.bind (Q := fun _ => Resting l)
    (.token fun s hs => hs.step (by simp) (by simp)) fun _ => ?_
  refine Scans.bind (Q := fun _ => Resting l)
    (.token fun s hs => hs.step (by simp) (by simp)) fun _ => ?_
  have hitem (l : List Amount) : Scans step (Resting l) (orderByItemPhrase expr) fun item =>
      Resting (l ++ item.expr.amounts) := by
    refine (h l).bind fun e => Scans.bind (Q := fun _ => Resting (l ++ e.amounts))
      (.optional (scans_tokenMap rfl rfl) fun _ hs => hs) fun descending => ?_
    exact .pure fun s hs => hs
  refine (scans_commaList hitem).bind fun items => .pure fun s hs => ?_
  rw [orderItemsAmounts_eq]
  exact hs

end

/-- A LIMIT clause. -/
theorem scans_limit : Scans step (Resting l) limitPhrase fun n => Resting (l ++ [.limit n]) := by
  refine Scans.bind (Q := fun _ s => s.Quiet false l ∧ s.afterLimit = true)
    (.token fun s hs => ⟨⟨hs.edge, rfl, hs.written.close⟩, rfl⟩) fun _ => ?_
  refine Scans.bind (Q := fun n => Resting (l ++ [.limit (toU64 n)])) (.tokenMap ?_)
    fun n => .pure fun s hs => hs
  intro t n ht s hs
  have hint : t = .int n := by
    cases t <;> first | rfl | cases ht
    rfl
  subst hint
  have hwritten : s.written.map Written.amount = l := hs.1.written
  simp only [step_int, hs.1.range, hs.2, if_true]
  refine ⟨⟨hs.1.edge, rfl, ?_⟩, rfl⟩
  show ((s.written ++ [Written.limit n]) ++ []).map Written.amount = _
  rw [List.append_nil, List.map_append, hwritten]
  rfl

/-- An optional clause. -/
theorem scans_optional {α : Type} {D : GqlPhrase α} {amounts : α → List Amount}
    (h : Scans step (Resting l) D fun a => Resting (l ++ amounts a)) :
    Scans step (Resting l) (optional D) fun o => Resting (l ++ (o.map amounts).getD []) :=
  .optional h fun s hs => by simpa using hs

/-- **The ranges and limits of a query are the written ones.** -/
theorem scans_query {expr : GqlPhrase Expr} (h : ScansExpr expr) :
    Scans step (Resting l) (queryPhrase expr) fun q => Resting (l ++ queryAmounts q) := by
  refine (scans_optional scans_match).bind fun m => (scans_optional scans_create).bind fun c => ?_
  refine (Scans.guard fun _ s hs => hs).bind fun _ => ?_
  refine (scans_optional (scans_with h)).bind fun w => ?_
  refine (scans_optional (scans_where h)).bind fun wh => ?_
  refine (scans_optional (scans_return h)).bind fun r => ?_
  refine (scans_optional (scans_orderBy h)).bind fun o => ?_
  refine (scans_optional scans_limit).bind fun n => .pure fun s hs => ?_
  have hwith : withAmounts w = (w.map fun c => withItemsAmounts c.items).getD [] := by
    cases w <;> rfl
  have hwhere : whereAmounts wh = (wh.map fun c => c.expr.amounts).getD [] := by
    cases wh <;> rfl
  have hreturn : returnAmounts r = (r.map fun c => returnItemsAmounts c.items).getD [] := by
    cases r <;> rfl
  have horder : orderByAmounts o = (o.map fun c => orderItemsAmounts c.items).getD [] := by
    cases o <;> rfl
  have hlimit : (n.map Amount.limit).toList = (n.map fun n => [Amount.limit n]).getD [] := by
    cases n <;> rfl
  rw [queryAmounts, hwith, hwhere, hreturn, horder, hlimit]
  simpa only [List.append_assoc] using hs

/-! ### Primary expressions -/

theorem scans_args {expr : GqlPhrase Expr} (h : ScansExpr expr) :
    Scans step (Resting l) (argsPhrase expr) fun args => Resting (l ++ argsAmounts args) := by
  refine .either (.pure fun s hs => by simpa [argsAmounts] using hs) ?_
  exact (scans_commaList h).mono (fun _ hs => hs) fun args s hs => by
    rw [argsAmounts_eq]
    exact hs

theorem scans_token {t : Token} (hbracket : t ≠ .leftBracket) (hlimit : t ≠ .limitKw) :
    Scans step (Resting l) (token t) fun _ => Resting l :=
  .token fun _ hs => hs.step hbracket hlimit

/-- A call, a property or nothing. -/
theorem scans_afterIdent {expr : GqlPhrase Expr} (h : ScansExpr expr) (tables : CharTables)
    (name : String) : Scans step (Resting l) (afterIdentPhrase expr tables name) fun e =>
      Resting (l ++ e.amounts) := by
  refine .either ((scans_token (by simp) (by simp)).bind fun _ => ?_) (.either ?_ ?_)
  · cases aggFunc? (tables.toUppercase name) with
    | some func =>
      exact (h l).bind fun arg => (scans_token (by simp) (by simp)).bind fun _ =>
        .pure fun s hs => hs
    | none =>
      exact (scans_args h).bind fun args => (scans_token (by simp) (by simp)).bind fun _ =>
        .pure fun s hs => hs
  · refine (scans_token (by simp) (by simp)).bind fun _ => (scans_tokenMap rfl rfl).bind fun prop =>
      .pure fun s hs => ?_
    simpa [Expr.amounts] using hs
  · exact .pure fun s hs => by simpa [Expr.amounts] using hs

/-- Primary expressions, by how deep they are nested. -/
theorem scansExpr_primary (tables : CharTables) (n : ℕ) : ScansExpr (primaryPhrase tables n) := by
  induction n with
  | zero => exact fun l xs e h => h.elim
  | succ n ih =>
    intro l xs e h s hs
    cases h with
    | parameter name =>
      have hdollar := hs.step (t := .dollar) (by simp) (by simp)
      have hname := hdollar.step (t := .ident name) (by simp) (by simp)
      simpa [Expr.amounts] using hname
    | @ident name xs e h =>
      exact scans_afterIdent (scans_expr ih) tables name h _ (hs.step (by simp) (by simp))
    | @not xs e h => exact ih l h _ (hs.step (by simp) (by simp))
    | @«exists» xs q h =>
      have hexists := hs.step (t := .existsKw) (by simp) (by simp)
      have hbrace := hexists.step (t := .leftBrace) (by simp) (by simp)
      have hquery := scans_query (scans_expr ih) h _ hbrace
      simp only [List.foldl_cons, List.foldl_append, List.foldl_nil]
      exact hquery.step (by simp) (by simp)
    | @paren xs e h =>
      have hparen := hs.step (t := .leftParen) (by simp) (by simp)
      have hexpr := scans_expr ih l h _ hparen
      simp only [List.foldl_cons, List.foldl_append, List.foldl_nil]
      exact hexpr.step (by simp) (by simp)
    | @literal t v h =>
      have hliteral : (s.step t).Resting l := by
        refine hs.step ?_ ?_
        · rintro rfl
          cases h
        · rintro rfl
          cases h
      simpa [Expr.amounts] using hliteral

/-- The ranges and limits of what is parsed are those written in what is consumed. -/
theorem amounts_of_runParser {tables : CharTables} {input : String} {q : Query}
    {rest : List Token} (h : runParser tables input = .ok (q, rest)) :
    ∃ consumed, tokenize tables input.toList = .ok (consumed ++ rest) ∧
      (writtenBounds consumed).map Written.amount = queryAmounts q := by
  obtain ⟨tokens, htokens, hparse⟩ := runParser_eq_ok h
  obtain ⟨xs, rfl, hq⟩ := reads_parseQuery (reads_parseExpr (reads_parsePrimary tables _)) hparse
  refine ⟨xs, htokens, ?_⟩
  have hstart : Resting [] start := ⟨⟨rfl, rfl, rfl⟩, rfl⟩
  exact (scans_query (scans_expr (scansExpr_primary tables _)) hq _ hstart).written

end

/-! ### The literals of a text -/

/-- The literals of a range or a limit. -/
def Written.literals : Written → List Int64
  | .range .any | .range .dots => []
  | .range (.exact n) | .range (.since n) | .range (.upTo n) | .limit n => [n]
  | .range (.between n m) => [n, m]

/-- A range that goes on keeps its literals and takes the new one. -/
theorem WrittenRange.literals_int {P : Int64 → Prop} {n : Int64} (hn : P n) {r : WrittenRange}
    (h : ∀ m ∈ (Written.range r).literals, P m) :
    ∀ m ∈ (Written.range (r.int n)).literals, P m := by
  cases r with
  | any => exact List.forall_mem_singleton.mpr hn
  | since k => exact List.forall_mem_cons.mpr ⟨h k List.mem_cons_self,
      List.forall_mem_singleton.mpr hn⟩
  | dots => exact List.forall_mem_singleton.mpr hn
  | _ => exact h

theorem WrittenRange.literals_dotDot {P : Int64 → Prop} {r : WrittenRange}
    (h : ∀ m ∈ (Written.range r).literals, P m) :
    ∀ m ∈ (Written.range r.dotDot).literals, P m := by
  cases r <;> exact h

/-- All literals written so far satisfy `P`. -/
def BoundScan.AllLiterals (P : Int64 → Prop) (s : BoundScan) : Prop :=
  ∀ w ∈ s.written, ∀ n ∈ w.literals, P n

theorem BoundScan.allLiterals_iff {P : Int64 → Prop} {s : BoundScan} : s.AllLiterals P ↔
    (∀ w ∈ s.done, ∀ n ∈ w.literals, P n) ∧
      ∀ r ∈ s.range, ∀ n ∈ (Written.range r).literals, P n := by
  unfold AllLiterals BoundScan.written
  rw [List.forall_mem_append]
  cases s.range <;> simp

theorem BoundScan.AllLiterals.step {P : Int64 → Prop} {s : BoundScan} (h : s.AllLiterals P)
    {t : Token} (ht : ∀ n, t = .int n → P n) : (s.step t).AllLiterals P := by
  have hclose : s.close.AllLiterals P := allLiterals_iff.mpr ⟨h, by simp [BoundScan.close]⟩
  obtain ⟨hdone, hrange⟩ := allLiterals_iff.mp h
  cases t with
  | star =>
    rw [BoundScan.step_star]
    split
    · exact allLiterals_iff.mpr ⟨h, by simp [Written.literals]⟩
    · exact hclose
  | int n =>
    have hn := ht n rfl
    rw [BoundScan.step_int]
    cases hs : s.range with
    | none =>
      simp only
      split
      · refine allLiterals_iff.mpr ⟨List.forall_mem_append.mpr ⟨h, ?_⟩, by simp [BoundScan.close]⟩
        simpa [Written.literals] using hn
      · exact hclose
    | some r =>
      refine allLiterals_iff.mpr ⟨hdone, ?_⟩
      rintro _ ⟨⟩
      exact WrittenRange.literals_int hn (hrange r hs)
  | dotDot =>
    rw [BoundScan.step_dotDot]
    cases hs : s.range with
    | none => exact hclose
    | some r =>
      refine allLiterals_iff.mpr ⟨hdone, ?_⟩
      rintro _ ⟨⟩
      exact WrittenRange.literals_dotDot (hrange r hs)
  | _ => exact hclose

/-- The literals of what is written are literals of the text. -/
theorem literals_of_mem_writtenBounds {P : Int64 → Prop} {tokens : List Token}
    (h : ∀ n, .int n ∈ tokens → P n) : ∀ w ∈ writtenBounds tokens, ∀ n ∈ w.literals, P n := by
  have hscan : ∀ (tokens : List Token) (s : BoundScan), (∀ n, .int n ∈ tokens → P n) →
      s.AllLiterals P → (tokens.foldl BoundScan.step s).AllLiterals P := by
    intro tokens
    induction tokens with
    | nil => exact fun s _ hs => hs
    | cons t ts ih =>
      intro s h hs
      apply ih
      · exact fun n hn => h n (List.mem_cons_of_mem _ hn)
      · exact hs.step fun n hn => h n (by simp [hn])
  exact hscan tokens .start h (by simp [BoundScan.AllLiterals, BoundScan.start, BoundScan.written])

/-! ### Casts -/

/-- No node is found between a lower bound and a smaller upper one. -/
theorem traverseLoop_of_lt {store : InMemoryGraphStore} {startId : NodeId} {types : List String}
    {direction : Direction} {min max : ℕ} (h : max < min) (fuel : ℕ) :
    ∀ st : TraverseState, st.result = [] →
      traverseLoop store startId types direction min max fuel st = [] := by
  have hneighbor (depth : ℕ) (st : TraverseState) (n : Node) (hst : st.result = []) :
      (traverseNeighbor startId min max depth st n).result = [] := by
    unfold traverseNeighbor
    split
    · exact hst
    · simp only
      rw [if_neg (by omega), hst]
  have hfold (depth : ℕ) (ns : List Node) : ∀ st : TraverseState, st.result = [] →
      (ns.foldl (traverseNeighbor startId min max depth) st).result = [] := by
    induction ns with
    | nil => exact fun _ hst => hst
    | cons n ns ih => exact fun st hst => ih _ (hneighbor depth st n hst)
  induction fuel with
  | zero => exact fun _ hst => hst
  | succ fuel ih =>
    intro st hst
    unfold traverseLoop
    split
    · exact hst
    · split
      · exact ih _ hst
      · exact ih _ (hfold _ _ _ hst)

/-- An Expand with such a range finds nothing. -/
theorem findsNothing_of_lt {d : DepthRange} (h : d.max < d.min) :
    (Amount.range d).FindsNothing := by
  intro store spec tuple hdepth
  unfold expandTuple
  split
  · rfl
  · next fromId _ =>
    have hnone : expandTargets store spec fromId = [] := by
      unfold expandTargets
      rw [hdepth]
      simp only
      rw [traverseVariableLength, traverseLoop_of_lt h _ _ rfl]
      rfl
    rw [hnone]
    rfl

/-- **The largest upper bound is none** in a store of at most `2 ^ 32` nodes: the search finds
every node whose distance is at least the lower bound. -/
theorem mem_traverseVariableLength_maxU32 {store : InMemoryGraphStore} (hwf : store.Wf)
    (hends : NoDangling store) (hsmall : store.scanAll.length ≤ 2 ^ 32) {startId : NodeId}
    (hstart : (store.getNode startId).isSome) (types : List String) (direction : Direction)
    (minDepth : ℕ) (b : NodeId) :
    b ∈ (traverseVariableLength store startId types direction minDepth maxU32).map Node.id ↔
      b ≠ startId ∧ ∃ k, minDepth ≤ k ∧ Shortest (Hop store types direction) k startId b := by
  have hnode {a : NodeId} (ha : (store.getNode a).isSome) : a ∈ store.scanAll.map Node.id := by
    obtain ⟨n, hn⟩ := Option.isSome_iff_exists.mp ha
    exact List.mem_map.mpr ⟨n, AList.mem_values_iff.mpr ⟨a, hn⟩, hwf.node_id hn⟩
  have hhop : ∀ x y, Hop store types direction x y → y ∈ store.scanAll.map Node.id := by
    rintro x y ⟨e, he, -, hleads⟩
    exact hnode (hends.isSome_of_leads he hleads)
  rw [mem_traverseVariableLength_iff hwf hends]
  refine and_congr_right fun _ => exists_congr fun k => and_congr_right fun _ => ?_
  rw [and_iff_right_iff_imp]
  intro hshortest
  have hlt := hshortest.lt_length (hnode hstart) hhop
  rw [List.length_map] at hlt
  unfold maxU32
  omega

theorem toU32_of_lt {n : Int64} (h : 0 ≤ n.toInt) (hlt : n.toInt < 2 ^ 32) :
    toU32 n = n.toInt.toNat := by
  unfold toU32
  rw [Int.emod_eq_of_lt h hlt]

theorem toU64_eq {n : Int64} (h : 0 ≤ n.toInt) : toU64 n = n.toInt.toNat := by
  have hlt : n.toInt < 2 ^ 64 := by
    have := n.toInt_lt
    omega
  unfold toU64
  rw [Int.emod_eq_of_lt h hlt]

theorem toU32_lt (n : Int64) : toU32 n < 2 ^ 32 := by
  unfold toU32
  omega

/-- A range or limit says in the query what is written exactly when its literals fit. -/
theorem Written.bounds_amount_iff {w : Written} (h : ∀ n ∈ w.literals, 0 ≤ n.toInt) :
    w.bounds = w.amount.bounds ↔ w.Fits := by
  -- a literal is unchanged by the cast exactly when it is below `2 ^ 32`
  have hcast {n : Int64} (hn : 0 ≤ n.toInt) :
      n.toInt.toNat = toU32 n ↔ n.toInt < 2 ^ 32 := by
    constructor
    · intro heq
      have := toU32_lt n
      omega
    · exact fun hlt => (toU32_of_lt hn hlt).symm
  -- as an upper bound, the largest cast literal is none
  have hupper {n : Int64} (hn : 0 ≤ n.toInt) :
      some n.toInt.toNat = (if toU32 n = maxU32 then none else some (toU32 n)) ↔
        n.toInt < 2 ^ 32 - 1 := by
    unfold maxU32
    split
    · next hmax =>
      refine iff_of_false (by simp) fun hlt => ?_
      have := toU32_of_lt hn (by omega)
      omega
    · next hmax =>
      rw [Option.some.injEq, hcast hn]
      constructor
      · intro hlt
        have := toU32_of_lt hn hlt
        omega
      · omega
  rcases w with (_ | n | n | ⟨n, m⟩ | _ | m) | n
  · simp [Written.bounds, Written.amount, Amount.bounds, WrittenRange.depthRange, Written.Fits]
  · have hn : 0 ≤ n.toInt := h n (by simp [Written.literals])
    simp only [Written.bounds, Written.amount, Amount.bounds, WrittenRange.depthRange, Written.Fits,
      Bounds.depth.injEq]
    rw [hcast hn, hupper hn]
    omega
  · have hn : 0 ≤ n.toInt := h n (by simp [Written.literals])
    simp only [Written.bounds, Written.amount, Amount.bounds, WrittenRange.depthRange, Written.Fits,
      Bounds.depth.injEq]
    rw [hcast hn, if_pos trivial, and_iff_left rfl]
  · have hn : 0 ≤ n.toInt := h n (by simp [Written.literals])
    have hm : 0 ≤ m.toInt := h m (by simp [Written.literals])
    simp only [Written.bounds, Written.amount, Amount.bounds, WrittenRange.depthRange, Written.Fits,
      Bounds.depth.injEq]
    rw [hcast hn, hupper hm]
  · simp [Written.bounds, Written.amount, Amount.bounds, WrittenRange.depthRange, Written.Fits]
  · have hm : 0 ≤ m.toInt := h m (by simp [Written.literals])
    simp only [Written.bounds, Written.amount, Amount.bounds, WrittenRange.depthRange, Written.Fits,
      Bounds.depth.injEq]
    rw [hupper hm, true_and]
  · have hn : 0 ≤ n.toInt := h n (by simp [Written.literals])
    simp only [Written.bounds, Written.amount, Amount.bounds, Written.Fits]
    rw [toU64_eq hn, iff_true]

/-- A range written backwards finds nothing if its literals fit. -/
theorem Written.Fits.findsNothing {w : Written} (hfits : w.Fits)
    (h : ∀ n ∈ w.literals, 0 ≤ n.toInt) (hback : w.Backwards) : w.amount.FindsNothing := by
  rcases w with (_ | n | n | ⟨n, m⟩ | _ | m) | n
  case range.between =>
    have hn : 0 ≤ n.toInt := h n (by simp [Written.literals])
    have hm : 0 ≤ m.toInt := h m (by simp [Written.literals])
    have hlt : m.toInt < n.toInt := Int64.lt_iff_toInt_lt.mp hback
    obtain ⟨hfitn, hfitm⟩ := hfits
    apply findsNothing_of_lt
    show toU32 m < toU32 n
    rw [toU32_of_lt hn hfitn, toU32_of_lt hm (by omega)]
    omega
  all_goals exact hback.elim

/-! ### Texts -/

/-- **When a query says what is written**: exactly when 32 bits can hold every depth of the text,
and no upper bound is the largest of them.  Every limit is held. -/
theorem runParser_bounds_iff {tables : CharTables} {input : String} {q : Query}
    {rest : List Token} (h : runParser tables input = .ok (q, rest)) :
    ∃ consumed, tokenize tables input.toList = .ok (consumed ++ rest) ∧
      (MeansWhatItSays consumed q ↔ ∀ w ∈ writtenBounds consumed, w.Fits) := by
  obtain ⟨consumed, htokens, hamounts⟩ := amounts_of_runParser h
  have hnonneg : ∀ w ∈ writtenBounds consumed, ∀ n ∈ w.literals, 0 ≤ n.toInt := by
    refine literals_of_mem_writtenBounds fun n hn => ?_
    exact (forall_mem_tokenize (fun _ _ _ => nextToken_literal) htokens (.int n)
      (List.mem_append_left _ hn)).1 n rfl
  have hsame : (writtenBounds consumed).map Written.bounds = (queryAmounts q).map Amount.bounds ↔
      ∀ w ∈ writtenBounds consumed, w.Fits := by
    rw [← hamounts, List.map_map, List.map_inj_left]
    exact forall₂_congr fun w hw => Written.bounds_amount_iff (hnonneg w hw)
  refine ⟨consumed, htokens, fun hmeans => hsame.mp hmeans.same, fun hfits => ⟨hsame.mpr hfits, ?_⟩⟩
  intro i w a hw ha hback
  rw [← hamounts, List.getElem?_map, hw] at ha
  cases ha
  have hmem := List.mem_of_getElem? hw
  exact (hfits w hmem).findsNothing (hnonneg w hmem) hback

/-- `MATCH (a)-[:R*1..3]->(b) RETURN b LIMIT 5`. -/
theorem runParser_bounds_iff_small :
    ∃ q rest, runParser .ascii "MATCH (a)-[:R*1..3]->(b) RETURN b LIMIT 5" = .ok (q, rest) ∧
      ∃ consumed, tokenize .ascii "MATCH (a)-[:R*1..3]->(b) RETURN b LIMIT 5".toList =
          .ok (consumed ++ rest) ∧
        (MeansWhatItSays consumed q ↔ ∀ w ∈ writtenBounds consumed, w.Fits) := by
  have hok : (runParser .ascii "MATCH (a)-[:R*1..3]->(b) RETURN b LIMIT 5").toBool = true := by
    decide +kernel
  cases h : runParser .ascii "MATCH (a)-[:R*1..3]->(b) RETURN b LIMIT 5" with
  | error e => rw [h] at hok; cases hok
  | ok r => exact ⟨r.1, r.2, rfl, runParser_bounds_iff h⟩

/-- A range written backwards that is parsed as another one, which finds a node. -/
def backwardsText : String := "MATCH (a)-[:R*4294967297..3]->(b) RETURN b"

/-- `*4294967297..3` is parsed as `*1..3`, and `*1..4294967295` as `*1..`. -/
theorem runParser_bounds_cast :
    (tokenize .ascii backwardsText.toList).map writtenBounds =
        .ok [.range (.between 4294967297 3)] ∧
      (runParser .ascii backwardsText).map (fun r => (queryAmounts r.1, r.2)) =
        .ok ([.range ⟨1, 3⟩], []) ∧
      (expandTuple .twoNodes ⟨"a", none, "b", some "R", .right, some ⟨1, 3⟩⟩
        ((∅ : Tuple).insert "a" (.nodeId 1))).length = 1 ∧
      (runParser .ascii "MATCH (a)-[:R*1..4294967295]->(b) RETURN b").map
          (fun r => queryAmounts r.1) =
        (runParser .ascii "MATCH (a)-[:R*1..]->(b) RETURN b").map (fun r => queryAmounts r.1) ∧
      ¬ ∀ (q : Query) (tokens : List Token), tokenize .ascii backwardsText.toList = .ok tokens →
        runParser .ascii backwardsText = .ok (q, []) → MeansWhatItSays tokens q := by
  have hwritten : (tokenize .ascii backwardsText.toList).map writtenBounds =
      .ok [.range (.between 4294967297 3)] := by decide +kernel
  have hparsed : (runParser .ascii backwardsText).map (fun r => (queryAmounts r.1, r.2)) =
      .ok ([.range ⟨1, 3⟩], []) := by decide +kernel
  refine ⟨hwritten, hparsed, by decide +kernel, by decide +kernel, fun hall => ?_⟩
  obtain ⟨tokens, htokens, htext⟩ := KuzuEventBus.map_eq_ok hwritten
  obtain ⟨⟨q, rest⟩, hparse, hquery⟩ := KuzuEventBus.map_eq_ok hparsed
  obtain ⟨hamounts, rfl⟩ := Prod.mk.injEq .. ▸ hquery
  have hsame := (hall q tokens htokens hparse).same
  rw [htext, hamounts] at hsame
  exact absurd hsame (by decide)

end KuzuEventBus
