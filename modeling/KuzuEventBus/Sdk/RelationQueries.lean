import KuzuEventBus.Gql.LeftArrows
import KuzuEventBus.Gql.WalkEnds
import KuzuEventBus.Sdk.Generated
import KuzuEventBus.Sdk.LabelQueries

/-!
# Queries along a relation

The texts of `with_relations` of `casys_db/orm.py`: the node of an entity under `p`, an edge pattern
with the types, the direction and the depth of a relation, and the nodes it leads to under `t`.  The
text of a relation to or between entities is read as the query that is meant; that of a relation
from entities is not read at all.

## Main definitions

* `RelationDescriptor` — a relation of an entity class.
* `RelationDescriptor.gql` — the text.
* `RelationDescriptor.query` — the query it stands for.

## Main results

* `parse_gql` — **the text is read as the query.**
* `parse_gql_from` — the text of a relation from entities is not read.
-/

namespace KuzuEventBus

open Parsing Phrase

section
variable {tables : CharTables}

/-- An ASCII name is one whatever the other characters are. -/
theorem CharTables.Standard.isName (h : tables.Standard) {name : String}
    (hname : IsName .ascii name) (hascii : ∀ c ∈ name.toList, c.toNat < 128) :
    IsName tables name := by
  have halpha : ∀ c ∈ name.toList, tables.isAlphabetic c = CharTables.ascii.isAlphabetic c := by
    intro c hc
    rw [h.isAlphabetic c (hascii c hc), CharTables.ascii_standard.isAlphabetic c (hascii c hc)]
  have hnum : ∀ c ∈ name.toList, tables.isNumeric c = CharTables.ascii.isNumeric c := by
    intro c hc
    rw [h.isNumeric c (hascii c hc), CharTables.ascii_standard.isNumeric c (hascii c hc)]
  refine ⟨fun c hc => ?_, fun c hc => ?_, hname.ne, ?_⟩
  · rw [isIdentStart, halpha c (List.mem_of_mem_head? hc)]
    exact hname.start c hc
  · rw [isIdentChar, CharTables.isAlphanumeric, halpha c hc, hnum c hc]
    exact hname.chars c hc
  · rw [h.toUppercase name hascii]
    exact hname.noKeyword

/-- The name of a type stands between bars as it is. -/
theorem IsName.typeName (h : tables.Standard) {name : String} (hname : IsName tables name) :
    TypeName name := by
  refine ⟨?_, fun c hc => ⟨?_, ?_⟩⟩
  · rintro rfl
    exact hname.ne rfl
  · rintro rfl
    have hbar := hname.chars _ hc
    rw [h.symbol (by decide)] at hbar
    cases hbar
  · by_contra hspace
    have hchar := hname.chars c hc
    rw [h.isIdentChar_space (Bool.not_eq_false _ ▸ hspace)] at hchar
    cases hchar

/-- A symbol between two texts. -/
theorem Prints.symbol (h : tables.Standard) {c : Char} {tok : Token} (hc : c ∈ symbolChars)
    (hdot : c ≠ '.') (hnext : ∀ rest, nextToken tables (c :: rest) = .ok (some (tok, rest)))
    {text text' : List Char} {tokens tokens' : List Token} (htext : Prints tables text tokens)
    (htext' : Prints tables text' tokens') :
    Prints tables (text ++ c :: text') (tokens ++ tok :: tokens') := by
  refine htext.append (fun rest _ => h.closes_symbol (.inl hc) hdot _) ?_
  intro rest hrest
  have hsymbol : Spells tables [c] [tok] (text' ++ rest) := .of_nextToken (hnext _)
  exact hsymbol.append (htext' rest hrest)

theorem Prints.nil : Prints tables [] [] := fun rest _ => .nil rest

/-- A symbol before a text. -/
theorem Prints.cons_symbol (h : tables.Standard) {c : Char} {tok : Token} (hc : c ∈ symbolChars)
    (hdot : c ≠ '.') (hnext : ∀ rest, nextToken tables (c :: rest) = .ok (some (tok, rest)))
    {text : List Char} {tokens : List Token} (htext : Prints tables text tokens) :
    Prints tables (c :: text) (tok :: tokens) :=
  Prints.nil.symbol h hc hdot hnext htext

/-- A comma and a space between two texts. -/
theorem Prints.comma (h : tables.Standard) {text text' : List Char} {tokens tokens' : List Token}
    (htext : Prints tables text tokens) (htext' : Prints tables text' tokens') :
    Prints tables (text ++ ',' :: ' ' :: text') (tokens ++ .comma :: tokens') :=
  htext.symbol h (by decide) (by decide) (fun _ => rfl) htext'.space_cons

/-- Digits before two points. -/
theorem numberChars_dotDot {ds : List Char} (h : ∀ c ∈ ds, c.isDigit = true) (rest : List Char) :
    numberChars (ds ++ '.' :: '.' :: rest) = (ds, false, '.' :: '.' :: rest) := by
  induction ds with
  | nil => rfl
  | cons d ds ih =>
    have hd : d.isDigit = true := h d List.mem_cons_self
    have hdot : d ≠ '.' := by
      rintro rfl
      cases hd
    rw [List.cons_append, numberChars.eq_2 d _ fun _ _ heq => absurd heq hdot, if_pos hd,
      ih fun c hc => h c (List.mem_cons_of_mem d hc)]

/-- An integer ends at two points. -/
theorem spells_repr_dotDot {n : ℕ} (hn : n < 2 ^ 63) (rest : List Char) :
    Spells tables n.repr.toList [.int (Int64.ofNat n)] ('.' :: '.' :: rest) := by
  have hdigits : ∀ c ∈ n.repr.toList, c.isDigit = true := Text.isDigit_of_mem_repr
  have hread : readNumber (n.repr.toList ++ '.' :: '.' :: rest) =
      .ok (.int (Int64.ofNat n), '.' :: '.' :: rest) := by
    have hval : Nat.ofDigitChars 10 n.repr.toList 0 = n := by
      rw [Nat.toList_repr, Nat.ofDigitChars_ten_toDigits]
    unfold readNumber
    rw [numberChars_dotDot hdigits]
    simp only [numberToken, parseI64, hval, if_pos hn]
    rfl
  apply Spells.of_nextToken
  cases hrepr : n.repr.toList with
  | nil =>
    rw [Nat.toList_repr] at hrepr
    exact absurd hrepr Nat.toDigits_ne_nil
  | cons c cs =>
    rw [hrepr] at hdigits hread
    have hc := hdigits c List.mem_cons_self
    obtain ⟨hws, hsym⟩ := isDigit_not_symbol hc
    rw [List.cons_append] at hread ⊢
    rw [nextToken_eq_of_not_symbol hws hsym, if_pos hc, hread]
    rfl

/-- Phrases with a separator before each are the rounds of a loop. -/
theorem loop_separated {α : Type} {item : GqlPhrase α} (sep : Token)
    {parts : List (List Token × α)} (h : ∀ p ∈ parts, item p.1 p.2) : ∀ items : List α,
    loop (fun items => do
      token sep
      let a ← item
      pure (items ++ [a])) items (parts.flatMap fun p => sep :: p.1)
        (items ++ parts.map Prod.snd) := by
  induction parts with
  | nil =>
    intro items
    rw [List.map_nil, List.append_nil]
    exact .stop items
  | cons p parts ih =>
    intro items
    have hrest := ih (fun q hq => h q (List.mem_cons_of_mem p hq)) (items ++ [p.2])
    rw [List.append_assoc, List.singleton_append] at hrest
    refine .step ⟨[sep], p.1, (), rfl, rfl, p.1, [], p.2, ?_, h p List.mem_cons_self, rfl, rfl⟩
      hrest
    rw [List.append_nil]

/-- The first phrase, and the others with a comma before each. -/
theorem commaListPhrase_of {α : Type} {item : GqlPhrase α} {xs : List Token} {a : α}
    {parts : List (List Token × α)} (ha : item xs a) (h : ∀ p ∈ parts, item p.1 p.2) :
    commaListPhrase item (xs ++ parts.flatMap fun p => .comma :: p.1)
      (a :: parts.map Prod.snd) :=
  ⟨xs, _, a, rfl, ha, loop_separated .comma h [a]⟩

end

end KuzuEventBus

namespace KuzuEventBus.Sdk.Orm

open Builder Dsl Parsing Phrase

/-! ### The texts -/

/-- `'to' | 'from' | 'both'`. -/
inductive RelationDirection where
  | to_
  | from_
  | both
  deriving DecidableEq

/-- `RelationDescriptor`. -/
structure RelationDescriptor where
  /-- Empty where it is `None`. -/
  edgeTypes : List String
  /-- `(name or "").upper()`. -/
  upperName : String
  target : String
  direction : RelationDirection
  depthMin : Option ℤ
  depthMax : Option ℤ
  /-- The name of `relation_cls`. -/
  relationCls : Option String

namespace RelationDescriptor

variable (d : RelationDescriptor)

/-- The edge types: those given, or the name cut at the bars. -/
def types : List String :=
  if d.edgeTypes ≠ [] then d.edgeTypes else (d.upperName.toList.splitOn '|').map String.ofList

/-- `et_spec`. -/
def etSpec : List Char := joinTexts "|" (d.types.map String.toList)

/-- `dmin`. -/
def dmin : ℤ := d.depthMin.getD 1

/-- `dmax`. -/
def dmax : ℤ := d.depthMax.getD maxDepth

/-- A single hop has no depth. -/
def SingleHop : Prop := d.depthMin = some 1 ∧ d.depthMax = some 1

instance : Decidable d.SingleHop := by
  unfold SingleHop
  infer_instance

/-- `depth_spec`. -/
def depthSpec : List Char := if d.SingleHop then [] else depthText d.dmin d.dmax

/-- `[r:types depth]`. -/
def edge : List Char := '[' :: 'r' :: ':' :: (d.etSpec ++ (d.depthSpec ++ [']']))

/-- A node of a label. -/
def node (var label : String) : List Char :=
  '(' :: (var.toList ++ ':' :: (label.toList ++ [')']))

/-- The pattern by the direction. -/
def pattern (label : String) : List Char :=
  match d.direction with
  | .to_ => node "p" label ++ '-' :: (d.edge ++ '-' :: '>' :: node "t" d.target)
  | .from_ => node "p" label ++ '<' :: '-' :: (d.edge ++ '-' :: node "t" d.target)
  | .both => node "p" label ++ '-' :: (d.edge ++ '-' :: node "t" d.target)

/-- The text of the query from an entity of the label. -/
def gql (label : String) : List Char :=
  "MATCH ".toList ++ (d.pattern label ++
    " WHERE ID(p) = $base_id RETURN r, r.edge_type, t".toList)

/-- Names that can be written, and depths that fit a `u32`. -/
structure Writable (tables : CharTables) (label : String) : Prop where
  label : IsName tables label
  target : IsName tables d.target
  types : ∀ t ∈ d.types, IsName tables t
  depth : 0 ≤ d.dmin ∧ d.dmin < 2 ^ 32 ∧ 0 ≤ d.dmax ∧ d.dmax < 2 ^ 32

/-! ### The query -/

/-- The depth of the edge pattern. -/
def depth : Option DepthRange :=
  if d.SingleHop then none else some ⟨d.dmin.toNat, d.dmax.toNat⟩

/-- The direction of the edge pattern. -/
def edgeDirection : Direction :=
  match d.direction with
  | .to_ => .right
  | .from_ => .left
  | .both => .both

/-- The node patterns and the edge pattern. -/
def patterns (label : String) : List Pattern :=
  [.node ⟨some "p", [label], ∅⟩,
    .edge ⟨some "r", typesText d.types, d.edgeDirection, ∅, ⟨some "p", [label], ∅⟩,
      ⟨some "t", [d.target], ∅⟩, d.depth⟩]

/-- `ID(p) = $base_id`. -/
def baseCondition : GqlExpr :=
  .binaryOp (.functionCall "ID" [.ident "p"]) .eq (.parameter "base_id")

/-- `r`, `r.edge_type` and `t`. -/
def items : List ReturnItem :=
  [⟨.ident "r", none⟩, ⟨.property "r" "edge_type", none⟩, ⟨.ident "t", none⟩]

/-- The query of the text. -/
def query (label : String) : Query where
  matchClause := some ⟨d.patterns label⟩
  createClause := none
  withClause := none
  whereClause := some ⟨baseCondition⟩
  returnClause := some ⟨items⟩
  orderBy := none
  limit := none

/-! ### The tokens -/

/-- The types with bars between them. -/
def typesTokens : List String → List Token
  | [] => []
  | t :: ts => .ident t :: ts.flatMap fun t => [.pipe, .ident t]

/-- The depth. -/
def depthTokens : List Token :=
  if d.SingleHop then []
  else if d.dmin = d.dmax then [.star, .int (Int64.ofInt d.dmin)]
  else [.star, .int (Int64.ofInt d.dmin), .dotDot, .int (Int64.ofInt d.dmax)]

/-- The brackets. -/
def edgeTokens : List Token :=
  .leftBracket :: .ident "r" :: .colon ::
    (typesTokens d.types ++ (d.depthTokens ++ [.rightBracket]))

/-- A node of a label. -/
def nodeTokens (var label : String) : List Token :=
  [.leftParen, .ident var, .colon, .ident label, .rightParen]

/-- The symbols before and after the brackets. -/
def arrows : Token × Token :=
  match d.direction with
  | .to_ => (.minus, .arrow)
  | .from_ => (.leftArrow, .minus)
  | .both => (.minus, .minus)

/-- The path. -/
def pathTokens (label : String) : List Token :=
  nodeTokens "p" label ++ d.arrows.1 :: (d.edgeTokens ++ d.arrows.2 :: nodeTokens "t" d.target)

/-- The WHERE clause. -/
def conditionTokens : List Token :=
  .whereKw :: ((.functionCall "ID" [.ident "p"] : GqlExpr).tokens ++ .eq ::
    (.parameter "base_id" : GqlExpr).tokens)

/-- The RETURN clause. -/
def itemTokens : List Token :=
  .returnKw :: ((.ident "r" : GqlExpr).tokens ++
    .comma :: ((.property "r" "edge_type" : GqlExpr).tokens ++ .comma ::
      (.ident "t" : GqlExpr).tokens))

/-- What comes after the path. -/
def clauseTokens : List Token := conditionTokens ++ itemTokens

/-- The tokens of the text. -/
def tokens (label : String) : List Token := .matchKw :: (d.pathTokens label ++ clauseTokens)

theorem types_ne_nil : d.types ≠ [] := by
  unfold types
  split
  · next h => exact h
  · simp

section
variable {tables : CharTables} {label : String} {d}

/-- Names with bars between them. -/
theorem prints_types (h : tables.Standard) {types : List String} (hne : types ≠ [])
    (hnames : ∀ t ∈ types, IsName tables t) :
    Prints tables (joinTexts "|" (types.map String.toList)) (typesTokens types) := by
  obtain ⟨t, ts, rfl⟩ := List.exists_cons_of_ne_nil hne
  -- one more name after those there are
  have hmore : ∀ (ts : List String) (text : List Char) (tokens : List Token),
      (∀ t ∈ ts, IsName tables t) → Prints tables text tokens →
      Prints tables (text ++ (ts.map String.toList).flatMap fun t => "|".toList ++ t)
        (tokens ++ ts.flatMap fun t => [.pipe, .ident t]) := by
    intro ts
    induction ts with
    | nil =>
      intro text tokens _ htext
      simpa using htext
    | cons t ts ih =>
      intro text tokens hts htext
      have hname := (hts t List.mem_cons_self).prints h
      have hbar := htext.symbol h (c := '|') (by decide) (by decide) (fun _ => rfl) hname
      have hrest := ih _ _ (fun t' ht' => hts t' (List.mem_cons_of_mem t ht')) hbar
      simpa using hrest
  rw [List.map_cons, joinTexts_cons]
  have hfirst := (hnames t List.mem_cons_self).prints h
  exact hmore ts _ _ (fun t' ht' => hnames t' (List.mem_cons_of_mem t ht')) hfirst

/-- The depth, and the bracket after it. -/
theorem prints_depth (h : tables.Standard) (hd : 0 ≤ d.dmin ∧ d.dmin < 2 ^ 32 ∧ 0 ≤ d.dmax ∧
    d.dmax < 2 ^ 32) : Prints tables d.depthSpec d.depthTokens := by
  obtain ⟨hmin, hmin', hmax, hmax'⟩ := hd
  have hnumber {n : ℤ} (h0 : 0 ≤ n) (hlt : n < 2 ^ 32) :
      Prints tables (intText n) [.int (Int64.ofInt n)] := by
    obtain ⟨htext, hi⟩ := intText_of_nonneg h0 (by omega)
    rw [htext]
    exact .number hi
  have hstar {text : List Char} {tokens : List Token} (htext : Prints tables text tokens) :
      Prints tables ('*' :: text) (.star :: tokens) :=
    htext.cons_symbol h (by decide) (by decide) fun _ => rfl
  unfold depthSpec depthTokens depthText
  by_cases hsingle : d.SingleHop
  · rw [if_pos hsingle, if_pos hsingle]
    exact .nil
  rw [if_neg hsingle, if_neg hsingle]
  by_cases heq : d.dmin = d.dmax
  · rw [if_pos heq, if_pos heq]
    exact hstar (hnumber hmin hmin')
  · rw [if_neg heq, if_neg heq]
    apply hstar
    intro rest hrest
    obtain ⟨n, hn⟩ := Int.eq_ofNat_of_zero_le hmin
    have hfirst : Spells tables (intText d.dmin) [.int (Int64.ofInt d.dmin)]
        ('.' :: '.' :: (intText d.dmax ++ rest)) := by
      rw [hn, Int64.ofInt_eq_ofNat]
      exact spells_repr_dotDot (by omega) _
    have hdots : Spells tables ['.', '.'] [.dotDot] (intText d.dmax ++ rest) := .of_nextToken rfl
    exact hfirst.append (hdots.append (hnumber hmax hmax' rest hrest))

/-- The brackets, whatever comes after them. -/
theorem spells_edge (h : tables.Standard) (hd : d.Writable tables label) (rest : List Char) :
    Spells tables d.edge d.edgeTokens rest := by
  have hr : IsName tables "r" := h.isName (by decide) (by decide)
  have hopen : Spells tables ['['] [.leftBracket]
      ('r' :: ':' :: (d.etSpec ++ (d.depthSpec ++ [']'])) ++ rest) := .of_nextToken rfl
  have hvar : Spells tables ['r'] [.ident "r"]
      (':' :: (d.etSpec ++ (d.depthSpec ++ [']'])) ++ rest) :=
    hr.prints h _ (h.closes_symbol (.inl (by decide)) (by decide) _)
  have hcolon : Spells tables [':'] [.colon] (d.etSpec ++ (d.depthSpec ++ [']']) ++ rest) :=
    .of_nextToken rfl
  have hclose : Spells tables [']'] [.rightBracket] rest := .of_nextToken rfl
  have hdepth : Spells tables (d.depthSpec ++ [']']) (d.depthTokens ++ [.rightBracket]) rest :=
    (prints_depth h hd.depth _ (h.closes_symbol (.inl (by decide)) (by decide) _)).append hclose
  -- the types end at the star of the depth, or at the bracket
  have hcloses : Closes tables (d.depthSpec ++ [']'] ++ rest) := by
    unfold depthSpec depthText
    split
    · exact h.closes_symbol (.inl (by decide)) (by decide) _
    · split
      · exact h.closes_symbol (.inl (by decide)) (by decide) _
      · exact h.closes_symbol (.inl (by decide)) (by decide) _
  have htypes := prints_types h d.types_ne_nil hd.types _ hcloses
  exact hopen.append (hvar.append (hcolon.append (htypes.append hdepth)))

/-- A path ends with a node pattern. -/
theorem prints_pattern (h : tables.Standard) (hd : d.Writable tables label) :
    Prints tables (d.pattern label) (d.pathTokens label) := by
  have hp : IsName tables "p" := h.isName (by decide) (by decide)
  have ht : IsName tables "t" := h.isName (by decide) (by decide)
  have hbase := prints_node h hp hd.label
  have htarget := prints_node h ht hd.target
  intro rest hrest
  have hnode := htarget rest hrest
  have hclosed {c : Char} (hc : c ∈ symbolChars) (hdot : c ≠ '.') (cs : List Char) :=
    h.closes_symbol (.inl hc) hdot cs
  unfold pattern pathTokens arrows
  cases d.direction with
  | to_ =>
    have hdash : Spells tables ['-'] [.minus] (d.edge ++ '-' :: '>' :: node "t" d.target ++ rest) :=
      .of_nextToken rfl
    have harrow : Spells tables ['-', '>'] [.arrow] (node "t" d.target ++ rest) :=
      .of_nextToken rfl
    exact (hbase _ (hclosed (by decide) (by decide) _)).append
      (hdash.append ((spells_edge h hd _).append (harrow.append hnode)))
  | from_ =>
    have harrow : Spells tables ['<', '-'] [.leftArrow]
      (d.edge ++ '-' :: node "t" d.target ++ rest) := .of_nextToken rfl
    have hdash : Spells tables ['-'] [.minus] (node "t" d.target ++ rest) := .of_nextToken rfl
    exact (hbase _ (hclosed (by decide) (by decide) _)).append
      (harrow.append ((spells_edge h hd _).append (hdash.append hnode)))
  | both =>
    have hfirst : Spells tables ['-'] [.minus] (d.edge ++ '-' :: node "t" d.target ++ rest) :=
      .of_nextToken rfl
    have hdash : Spells tables ['-'] [.minus] (node "t" d.target ++ rest) := .of_nextToken rfl
    exact (hbase _ (hclosed (by decide) (by decide) _)).append
      (hfirst.append ((spells_edge h hd _).append (hdash.append hnode)))

/-- The expressions of the text can be written. -/
theorem printable_clauses (h : tables.Standard) :
    (.functionCall "ID" [.ident "p"] : GqlExpr).Printable tables ∧
      (.parameter "base_id" : GqlExpr).Printable tables ∧
      (.ident "r" : GqlExpr).Printable tables ∧
      (.property "r" "edge_type" : GqlExpr).Printable tables ∧
      (.ident "t" : GqlExpr).Printable tables := by
  have hname {name : String} (hname : IsName .ascii name)
      (hascii : ∀ c ∈ name.toList, c.toNat < 128) : IsName tables name := h.isName hname hascii
  have hagg : aggFunc? (tables.toUppercase "ID") = none := by
    rw [h.toUppercase "ID" (by decide)]
    rfl
  have hr : IsName tables "r" := hname (by decide) (by decide)
  have ht : IsName tables "t" := hname (by decide) (by decide)
  have hparam : IsName tables "base_id" := hname (by decide) (by decide)
  exact ⟨⟨hname (by decide) (by decide), hagg, hname (by decide) (by decide), trivial⟩, hparam, hr,
    ⟨hr, hname (by decide) (by decide)⟩, ht⟩

/-- What comes after the path begins with a space. -/
theorem prints_clauses (h : tables.Standard) : PrintsClause tables
    " WHERE ID(p) = $base_id RETURN r, r.edge_type, t".toList clauseTokens := by
  obtain ⟨hcall, hparam, hr, hprop, ht⟩ := printable_clauses h
  have hprints {e : GqlExpr} (he : e.Printable tables) : Prints tables (e.print []) e.tokens :=
    prints_print h (by simp) e he
  have hopens : Opens ((.parameter "base_id" : GqlExpr).print []) := ⟨_, _, rfl, by decide⟩
  have hcondition := Prints.operator h .eq (hprints hcall) (hprints hparam) hopens
  have hitems := (hprints hr).comma h ((hprints hprop).comma h (hprints ht))
  have hwhere : Prints tables ['W', 'H', 'E', 'R', 'E'] [.whereKw] :=
    .upperWord h (by decide) (by decide) (by decide)
  have hreturn : Prints tables ['R', 'E', 'T', 'U', 'R', 'N'] [.returnKw] :=
    .upperWord h (by decide) (by decide) (by decide)
  exact (PrintsClause.word h hwhere hcondition).append h (.word h hreturn hitems)

/-- **The text is read as the tokens.** -/
theorem tokenize_gql (h : tables.Standard) (hd : d.Writable tables label) :
    tokenize tables (d.gql label) = .ok (d.tokens label) := by
  have hmatch : Prints tables ['M', 'A', 'T', 'C', 'H'] [.matchKw] :=
    .upperWord h (by decide) (by decide) (by decide)
  have hpath := hmatch.word_space h (prints_pattern h hd)
  have htext := hpath.append_clause h (prints_clauses h)
  rw [List.append_assoc] at htext
  exact (htext [] (by intro c hc; cases hc)).tokenize_eq

/-! ### The query of a text -/

theorem edgeTypePhrase_types {types : List String} (hne : types ≠ []) :
    edgeTypePhrase (.colon :: typesTokens types) (typesText types) := by
  obtain ⟨t, ts, rfl⟩ := List.exists_cons_of_ne_nil hne
  have hitems : ∀ p ∈ ts.map (fun t => ([Token.ident t], t)), tokenMap Token.ident? p.1 p.2 := by
    simp [tokenMap, Token.ident?]
  have hloop := loop_separated .pipe hitems [t]
  have hparts : (ts.map fun t => ([Token.ident t], t)).map Prod.snd = ts := by
    rw [List.map_map]
    exact List.map_id ts
  rw [hparts, List.flatMap_map] at hloop
  exact .inl ⟨[.colon], _, (), rfl, rfl, [.ident t], _, t, rfl, ⟨_, rfl, rfl⟩, _, [], _,
    (List.append_nil _).symm, hloop, rfl, rfl⟩

theorem depthRangePhrase_depth (hd : 0 ≤ d.dmin ∧ d.dmin < 2 ^ 32 ∧ 0 ≤ d.dmax ∧
    d.dmax < 2 ^ 32) : DepthRangePhrase d.depthTokens d.depth := by
  obtain ⟨hmin, hmin', hmax, hmax'⟩ := hd
  have hu32 {n : ℤ} (h0 : 0 ≤ n) (hlt : n < 2 ^ 32) : toU32 (Int64.ofInt n) = n.toNat := by
    unfold toU32
    rw [Int64.toInt_ofInt_of_le (by omega) (by omega)]
    omega
  unfold depthTokens depth
  by_cases hsingle : d.SingleHop
  · rw [if_pos hsingle, if_pos hsingle]
    exact .none
  rw [if_neg hsingle, if_neg hsingle]
  by_cases heq : d.dmin = d.dmax
  · rw [if_pos heq, ← heq, ← hu32 hmin hmin']
    exact .exact _
  · rw [if_neg heq, ← hu32 hmin hmin', ← hu32 hmax hmax']
    exact .between _ _

theorem edgeBodyPhrase_edge (hd : d.Writable tables label) :
    edgeBodyPhrase d.edgeTokens ⟨some "r", typesText d.types, ∅, d.depth⟩ := by
  have hend : (token .rightBracket >>= fun _ => DepthRangePhrase >>= fun outside =>
      finalDepthPhrase d.depth outside >>= fun depth =>
        (pure ⟨some "r", typesText d.types, ∅, depth⟩ : GqlPhrase EdgeBody)) [.rightBracket]
          ⟨some "r", typesText d.types, ∅, d.depth⟩ := by
    refine ⟨[_], [], (), rfl, rfl, [], [], none, rfl, .none, [], [], d.depth, rfl, ?_, rfl, rfl⟩
    refine ⟨[], [], (), rfl, ⟨rfl, .inr rfl⟩, rfl, ?_⟩
    cases d.depth <;> rfl
  refine .inl ⟨[.leftBracket], _, (), rfl, rfl, [.ident "r"], _, some "r", rfl,
    .inr ⟨"r", rfl, _, rfl, rfl⟩, .colon :: typesTokens d.types, _, typesText d.types, rfl,
    edgeTypePhrase_types d.types_ne_nil, d.depthTokens, _, d.depth, rfl,
    depthRangePhrase_depth hd.depth, [], _, ∅, rfl, .inr ⟨rfl, rfl⟩, hend⟩

/-- An edge pattern that a dash begins. -/
theorem edgePhrase_edge (hd : d.Writable tables label) (hdir : d.direction ≠ .from_)
    (fromNode : NodePattern) :
    edgePhrase fromNode
      (d.arrows.1 :: (d.edgeTokens ++ d.arrows.2 :: nodeTokens "t" d.target))
      ⟨some "r", typesText d.types, d.edgeDirection, ∅, fromNode, ⟨some "t", [d.target], ∅⟩,
        d.depth⟩ := by
  have hnode := nodePhrase_label "t" d.target
  have hbody := edgeBodyPhrase_edge hd
  unfold arrows edgeDirection
  cases h : d.direction with
  | to_ => exact edgePhrase_right fromNode hbody hnode
  | from_ => exact absurd h hdir
  | both =>
    refine ⟨[.minus], _, .both, rfl, .inr ⟨[.minus], [], (), rfl, rfl, rfl, rfl⟩, d.edgeTokens, _,
      _, rfl, hbody, [.minus], _, .both, rfl, ?_, _, [], _, (List.append_nil _).symm, hnode, rfl, rfl⟩
    exact .inr (.inl ⟨[.minus], [], (), rfl, rfl, rfl, rfl⟩)

theorem pathMatchPhrase_path (hd : d.Writable tables label) (hdir : d.direction ≠ .from_) :
    pathMatchPhrase (d.pathTokens label) (d.patterns label) := by
  have hedge := edgePhrase_edge hd hdir ⟨some "p", [label], ∅⟩
  have hloop := loop.step
    (show edgeStepPhrase (⟨some "p", [label], ∅⟩, [.node ⟨some "p", [label], ∅⟩]) _
      (⟨some "t", [d.target], ∅⟩, d.patterns label) from
        ⟨_, [], _, (List.append_nil _).symm, hedge, rfl, rfl⟩) (.stop _)
  rw [List.append_nil] at hloop
  exact ⟨nodeTokens "p" label, _, _, rfl, nodePhrase_label "p" label, _, [], _,
    (List.append_nil _).symm, hloop, rfl, rfl⟩

/-- The tokens are a query. -/
theorem sentence_gql (h : tables.Standard) (hd : d.Writable tables label)
    (hdir : d.direction ≠ .from_) : Sentence tables (d.tokens label) (d.query label) := by
  obtain ⟨hcall, hparam, hr, hprop, ht⟩ := printable_clauses h
  have hprimary {e : GqlExpr} (he : e.Printable tables) (hn : e.tokens.length ≤ 4) :
      primaryPhrase tables 4 e.tokens e := primaryPhrase_tokens h e he 4 hn
  have hitem {e : GqlExpr} (he : e.Printable tables) (hn : e.tokens.length ≤ 4) :
      returnItemPhrase (exprPhrase (primaryPhrase tables 4)) e.tokens ⟨e, none⟩ :=
    ⟨e.tokens, [], e, (List.append_nil _).symm, exprPhrase_of (hprimary he hn), rfl, rfl⟩
  have hpath := pathMatchPhrase_path hd hdir
  have hpatterns : patternsMatchPhrase (d.pathTokens label) (d.patterns label) :=
    ⟨_, [], [d.patterns label], (List.append_nil _).symm,
      ⟨_, [], d.patterns label, (List.append_nil _).symm, hpath, .stop _⟩, rfl, by simp⟩
  have hmatch : matchPhrase (.matchKw :: d.pathTokens label) ⟨d.patterns label⟩ :=
    ⟨[.matchKw], _, (), rfl, rfl, _, [], _, (List.append_nil _).symm, hpatterns, rfl, rfl⟩
  have hcondition := exprPhrase_compare (t := .eq) (hprimary hcall (by decide)) rfl
    (hprimary hparam (by decide))
  have hwhere : wherePhrase (exprPhrase (primaryPhrase tables 4)) conditionTokens
      ⟨baseCondition⟩ :=
    ⟨[.whereKw], _, (), rfl, rfl, _, [], _, (List.append_nil _).symm, hcondition, rfl, rfl⟩
  have hmore : ∀ p ∈ [((.property "r" "edge_type" : GqlExpr).tokens,
        (⟨.property "r" "edge_type", none⟩ : ReturnItem)),
      ((.ident "t" : GqlExpr).tokens, ⟨.ident "t", none⟩)],
      returnItemPhrase (exprPhrase (primaryPhrase tables 4)) p.1 p.2 := by
    intro p hp
    rcases List.mem_cons.mp hp with rfl | hp
    · exact hitem hprop (by decide)
    · rw [List.mem_singleton.mp hp]
      exact hitem ht (by decide)
  have hitems := commaListPhrase_of (hitem hr (by decide)) hmore
  have hreturn : returnPhrase (exprPhrase (primaryPhrase tables 4)) itemTokens ⟨items⟩ :=
    ⟨[.returnKw], _, (), rfl, rfl, _, [], _, (List.append_nil _).symm, hitems, rfl, rfl⟩
  -- CREATE, WITH, ORDER BY and LIMIT are not there
  refine ⟨4, _, _, _, rfl, .inr ⟨_, rfl, hmatch⟩, [], _, none, rfl, .inl ⟨rfl, rfl⟩, [], _, (), rfl,
    ⟨rfl, rfl⟩, [], _, none, rfl, .inl ⟨rfl, rfl⟩, conditionTokens, itemTokens, _, rfl,
    .inr ⟨_, rfl, hwhere⟩, itemTokens, [], _, (List.append_nil _).symm, .inr ⟨_, rfl, hreturn⟩, ?_⟩
  exact ⟨[], [], none, rfl, .inl ⟨rfl, rfl⟩, [], [], none, rfl, .inl ⟨rfl, rfl⟩, rfl, rfl⟩

/-- **The text is read as the query.** -/
theorem parse_gql (h : tables.Standard) (hd : d.Writable tables label)
    (hdir : d.direction ≠ .from_) :
    parse tables (String.ofList (d.gql label)) = .ok (d.query label) := by
  have hparse := (parseQuery_eq_ok_nil_iff tables _ _).mpr (sentence_gql h hd hdir)
  have hrun : runParser tables (String.ofList (d.gql label)) = .ok (d.query label, []) := by
    unfold runParser
    rw [String.toList_ofList, tokenize_gql h hd]
    exact hparse
  rw [parse, hrun]
  rfl

/-- **The text of a relation from entities is not read**: no path goes on after the brackets. -/
theorem parse_gql_from (h : tables.Standard) (hd : d.Writable tables label)
    (hdir : d.direction = .from_) : ∃ e, parse tables (String.ofList (d.gql label)) = .error e := by
  have hnode : pathMatchPhrase (nodeTokens "p" label) [.node ⟨some "p", [label], ∅⟩] :=
    ⟨_, [], _, (List.append_nil _).symm, nodePhrase_label "p" label, [], [], _, rfl, .stop _, rfl,
      rfl⟩
  obtain ⟨e, he⟩ := IsPathRule.left_error (.inl rfl) hnode (edgeBodyPhrase_edge hd) (t := .minus)
    rfl (by simp) (nodeTokens "t" d.target ++ clauseTokens)
  have htokens : d.tokens label = .matchKw :: (nodeTokens "p" label ++
      .leftArrow :: (d.edgeTokens ++ .minus :: (nodeTokens "t" d.target ++ clauseTokens))) := by
    unfold tokens pathTokens arrows
    rw [hdir]
    simp
  refine ⟨e, ?_⟩
  have hword (ts : List Token) : expectToken .matchKw (.matchKw :: ts) = .ok ((), ts) := rfl
  have hmatch : parseMatch (d.tokens label) = .error e := by
    rw [htokens]
    unfold parseMatch
    rw [bind_of_ok (hword _)]
    unfold parsePatternsMatch commaList
    rw [bind_apply, bind_apply, bind_apply, he]
  have hparse : ∀ n, parseQuery (parseExpr (parsePrimary tables n)) (d.tokens label) =
      .error e := by
    intro n
    have hhead : (d.tokens label).head? = some .matchKw := rfl
    unfold parseQuery
    rw [bind_apply]
    unfold optionalAt
    rw [if_pos hhead, map_apply, hmatch]
  have hrun : runParser tables (String.ofList (d.gql label)) = .error e := by
    unfold runParser
    rw [String.toList_ofList, tokenize_gql h hd]
    exact hparse _
  rw [parse, hrun]
  rfl

end

end RelationDescriptor

end KuzuEventBus.Sdk.Orm
