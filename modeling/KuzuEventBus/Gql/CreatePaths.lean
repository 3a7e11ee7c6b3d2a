import KuzuEventBus.Gql.ParserAccepts
import Mathlib.Data.List.Induction

/-!
# The paths of a CREATE clause

What is written in a CREATE clause is a list of paths, each a node followed by any
number of edges.  `parse_patterns_create` returns a list of patterns: the edges,
and a node for a path of a single node, unless the patterns collected so far,
those of the earlier paths included, end with an edge.  So the patterns are those
written exactly when no single node comes after a path with edges.

## Main definitions

* `CreatePath`, `CreatePath.patterns` — a path as written, and the patterns it stands for.
* `createPathsPhrase` — the texts of CREATE clauses, with the paths they are made of.
* `addCreatePath` — one round of the loop of `parse_patterns_create`.
* `NodesFirst` — no single node is written after an edge.

## Main results

* `createPhrase_iff` — the clause the parser's grammar gives to a text, from its paths.
* `foldl_addCreatePath_eq_iff` — when the loop collects all patterns.
* `parseCreate_patterns_eq_iff` — **when parsing loses no pattern**.
-/

namespace KuzuEventBus

open Parsing Phrase

/-- A path as written: its first node, and its edges, each with the node it leads to. -/
structure CreatePath where
  first : NodePattern
  edges : List EdgePattern

namespace CreatePath

/-- The patterns a path stands for: its edges, or its node if it has none. -/
def patterns (path : CreatePath) : List Pattern :=
  if path.edges = [] then [.node path.first] else path.edges.map .edge

/-- The node a path ends with. -/
def last (path : CreatePath) : NodePattern :=
  (path.edges.getLast?.map EdgePattern.toNode).getD path.first

end CreatePath

/-! ### Texts -/

/-- One more edge of a path, after those that end at `st.1`. -/
def createEdgePhrase (st : NodePattern × List EdgePattern) :
    GqlPhrase (NodePattern × List EdgePattern) := do
  let edge ← edgePhrase st.1
  pure (edge.toNode, st.2 ++ [edge])

/-- A path. -/
def createPathPhrase : GqlPhrase CreatePath := do
  let first ← nodePhrase
  let (_, edges) ← loop createEdgePhrase (first, [])
  pure ⟨first, edges⟩

/-- The text of a CREATE clause: the keyword, and paths with commas between them. -/
def createPathsPhrase : GqlPhrase (List CreatePath) := do
  token .createKw
  commaListPhrase createPathPhrase

/-- One round of the loop of `parse_patterns_create`: the patterns so far, and a path. -/
def addCreatePath (patterns : List Pattern) (path : CreatePath) : List Pattern :=
  let patterns := patterns ++ path.edges.map .edge
  if endsWithEdge patterns then patterns else patterns ++ [.node path.last]

theorem edgeStepPhrase_iff (pre : List Pattern) (st : NodePattern × List EdgePattern)
    (xs : List Token) (r : NodePattern × List Pattern) :
    edgeStepPhrase (st.1, pre ++ st.2.map .edge) xs r ↔
      ∃ st', createEdgePhrase st xs st' ∧ (st'.1, pre ++ st'.2.map Pattern.edge) = r := by
  constructor
  · rintro ⟨ys, zs, edge, rfl, hedge, rfl, rfl⟩
    refine ⟨_, ⟨ys, [], edge, rfl, hedge, rfl, rfl⟩, ?_⟩
    simp
  · rintro ⟨st', ⟨ys, zs, edge, rfl, hedge, rfl, rfl⟩, rfl⟩
    refine ⟨ys, [], edge, rfl, hedge, rfl, ?_⟩
    simp

/-- Where the edges of a path lead to. -/
theorem loop_createEdgePhrase_last {st st' : NodePattern × List EdgePattern} {xs : List Token}
    (h : loop createEdgePhrase st xs st') (first : NodePattern)
    (hst : st.1 = CreatePath.last ⟨first, st.2⟩) : st'.1 = CreatePath.last ⟨first, st'.2⟩ := by
  induction h with
  | stop st => exact hst
  | step hedge _ ih =>
    apply ih
    obtain ⟨ys, zs, edge, rfl, -, -, rfl⟩ := hedge
    simp [CreatePath.last]

/-- The grammar of the parser reads a path as one round of the loop. -/
theorem pathCreatePhrase_iff (pre : List Pattern) (xs : List Token) (patterns : List Pattern) :
    pathCreatePhrase pre xs patterns ↔
      ∃ path, createPathPhrase xs path ∧ addCreatePath pre path = patterns := by
  have hloop (first : NodePattern) (ys : List Token) (r : NodePattern × List Pattern) :
      loop edgeStepPhrase (first, pre) ys r ↔
        ∃ st, loop createEdgePhrase (first, []) ys st ∧
          (st.1, pre ++ st.2.map Pattern.edge) = r := by
    rw [← loop_map (edgeStepPhrase_iff pre), List.map_nil, List.append_nil]
  constructor
  · rintro ⟨ys, zs, first, rfl, hfirst, us, vs, r, rfl, hr, rfl, rfl⟩
    obtain ⟨st, hst, rfl⟩ := (hloop first us r).mp hr
    refine ⟨⟨first, st.2⟩, ⟨ys, _, first, rfl, hfirst, us, [], st, rfl, hst, rfl, rfl⟩, ?_⟩
    rw [addCreatePath, ← loop_createEdgePhrase_last hst first rfl]
  · rintro ⟨path, ⟨ys, zs, first, rfl, hfirst, us, vs, st, rfl, hst, rfl, rfl⟩, rfl⟩
    refine ⟨ys, _, first, rfl, hfirst, us, [], _, rfl, (hloop first us _).mpr ⟨st, hst, rfl⟩,
      rfl, ?_⟩
    rw [addCreatePath, ← loop_createEdgePhrase_last hst first rfl]

/-- One more path of the list. -/
theorem commaPathPhrase_iff (paths : List CreatePath) (xs : List Token) (patterns : List Pattern) :
    (token Token.comma >>= fun _ => pathCreatePhrase (paths.foldl addCreatePath [])) xs patterns ↔
      ∃ paths', (do
        token Token.comma
        let path ← createPathPhrase
        pure (paths ++ [path])) xs paths' ∧ paths'.foldl addCreatePath [] = patterns := by
  constructor
  · rintro ⟨ys, zs, u, rfl, hcomma, h⟩
    obtain ⟨path, hpath, rfl⟩ := (pathCreatePhrase_iff _ zs patterns).mp h
    refine ⟨paths ++ [path], ⟨ys, zs, u, rfl, hcomma, zs, [], path, ?_, hpath, rfl, rfl⟩, ?_⟩
    · rw [List.append_nil]
    · rw [List.foldl_append]
      rfl
  · rintro ⟨paths', ⟨ys, zs, u, rfl, hcomma, us, vs, path, rfl, hpath, rfl, rfl⟩, rfl⟩
    rw [List.append_nil, List.foldl_append]
    exact ⟨ys, us, u, rfl, hcomma, (pathCreatePhrase_iff _ us _).mpr ⟨path, hpath, rfl⟩⟩

/-- The paths after the first one. -/
theorem loop_commaPathPhrase_iff (path : CreatePath) (xs : List Token) (patterns : List Pattern) :
    loop (fun patterns => do
        token Token.comma
        pathCreatePhrase patterns) (addCreatePath [] path) xs patterns ↔
      ∃ paths, loop (fun paths => do
        token Token.comma
        let path ← createPathPhrase
        pure (paths ++ [path])) [path] xs paths ∧ paths.foldl addCreatePath [] = patterns :=
  loop_map (E := fun patterns => token Token.comma >>= fun _ => pathCreatePhrase patterns)
    (f := List.foldl addCreatePath []) commaPathPhrase_iff (s := [path])

/-- **The clause the grammar gives to a text is collected from its paths.** -/
theorem createPhrase_iff (xs : List Token) (c : CreateClause) :
    createPhrase xs c ↔
      ∃ paths, createPathsPhrase xs paths ∧ c.patterns = paths.foldl addCreatePath [] := by
  constructor
  · rintro ⟨ys, zs, u, rfl, hkw, us, vs, patterns, rfl, ⟨ps, qs, first, rfl, hfirst, hrest⟩,
      rfl, rfl⟩
    obtain ⟨path, hpath, rfl⟩ := (pathCreatePhrase_iff [] ps first).mp hfirst
    obtain ⟨paths, hpaths, rfl⟩ := (loop_commaPathPhrase_iff path qs patterns).mp hrest
    rw [List.append_nil]
    exact ⟨paths, ⟨ys, _, u, rfl, hkw, ps, qs, path, rfl, hpath, hpaths⟩, rfl⟩
  · rintro ⟨paths, ⟨ys, zs, u, rfl, hkw, ps, qs, path, rfl, hpath, hpaths⟩, hc⟩
    refine ⟨ys, _, u, rfl, hkw, ps ++ qs, [], paths.foldl addCreatePath [],
      (List.append_nil _).symm, ?_, rfl, ?_⟩
    · refine ⟨ps, qs, addCreatePath [] path, rfl,
        (pathCreatePhrase_iff [] ps _).mpr ⟨path, hpath, rfl⟩, ?_⟩
      exact (loop_commaPathPhrase_iff path qs _).mpr ⟨paths, hpaths, rfl⟩
    · rw [← hc]

/-! ### Lost nodes -/

/-- No path of a single node comes after a path with edges. -/
def NodesFirst (paths : List CreatePath) : Prop :=
  paths.Pairwise fun earlier later => later.edges = [] → earlier.edges = []

theorem endsWithEdge_append_edges (patterns : List Pattern) {edges : List EdgePattern}
    (h : edges ≠ []) : endsWithEdge (patterns ++ edges.map .edge) = true := by
  obtain ⟨front, edge, rfl⟩ := List.eq_nil_or_concat edges |>.resolve_left h
  simp [endsWithEdge]

/-- What a round of the loop does: a single node is dropped where the patterns end with an edge. -/
theorem addCreatePath_eq (patterns : List Pattern) (path : CreatePath) :
    addCreatePath patterns path =
      if path.edges = [] ∧ endsWithEdge patterns = true then patterns
      else patterns ++ path.patterns := by
  unfold addCreatePath CreatePath.patterns
  by_cases hnode : path.edges = []
  · cases hend : endsWithEdge patterns with
    | true => simp [hnode, hend]
    | false => simp [hnode, hend, CreatePath.last]
  · simp [hnode, endsWithEdge_append_edges patterns hnode]

/-- An edge stays the last pattern: what ends with it is closed to single nodes. -/
theorem endsWithEdge_addCreatePath (patterns : List Pattern) (path : CreatePath) :
    endsWithEdge (addCreatePath patterns path) = true ↔
      endsWithEdge patterns = true ∨ path.edges ≠ [] := by
  rw [addCreatePath_eq]
  by_cases hnode : path.edges = []
  · cases hend : endsWithEdge patterns with
    | true => simp [hnode, hend]
    | false => simp [hnode, CreatePath.patterns, endsWithEdge]
  · simp [hnode, CreatePath.patterns, endsWithEdge_append_edges patterns hnode]

theorem endsWithEdge_foldl_iff (paths : List CreatePath) :
    endsWithEdge (paths.foldl addCreatePath []) = true ↔ ∃ path ∈ paths, path.edges ≠ [] := by
  induction paths using List.reverseRecOn with
  | nil => simp [endsWithEdge]
  | append_singleton paths path ih =>
    rw [List.foldl_concat, endsWithEdge_addCreatePath, ih]
    simp [or_and_right, exists_or]

/-- The loop collects some of the patterns written. -/
theorem length_foldl_addCreatePath_le (paths : List CreatePath) :
    (paths.foldl addCreatePath []).length ≤ (paths.flatMap CreatePath.patterns).length := by
  induction paths using List.reverseRecOn with
  | nil => simp
  | append_singleton paths path ih =>
    rw [List.foldl_concat, addCreatePath_eq, List.flatMap_append, List.length_append]
    split
    · omega
    · rw [List.length_append]
      simpa using ih

theorem CreatePath.patterns_ne_nil (path : CreatePath) : path.patterns ≠ [] := by
  unfold CreatePath.patterns
  split
  · simp
  · next h => simpa using h

/-- **The loop collects the patterns written, if and only if no single node comes after an
edge.** -/
theorem foldl_addCreatePath_eq_iff (paths : List CreatePath) :
    paths.foldl addCreatePath [] = paths.flatMap CreatePath.patterns ↔ NodesFirst paths := by
  unfold NodesFirst
  induction paths using List.reverseRecOn with
  | nil => simp
  | append_singleton paths path ih =>
    rw [List.foldl_concat, addCreatePath_eq, List.flatMap_append, List.pairwise_append]
    have hflat : [path].flatMap CreatePath.patterns = path.patterns := by simp
    rw [hflat]
    split
    · next hdrop =>
      -- a pattern is missing, and the lengths tell
      obtain ⟨earlier, hmem, hedges⟩ := (endsWithEdge_foldl_iff paths).mp hdrop.2
      constructor
      · intro heq
        have hle := length_foldl_addCreatePath_le paths
        have hpos := List.length_pos_iff.mpr path.patterns_ne_nil
        rw [heq, List.length_append] at hle
        omega
      · rintro ⟨-, -, hall⟩
        exact absurd (hall earlier hmem path (List.mem_singleton_self path) hdrop.1) hedges
    · next hkeep =>
      rw [List.append_left_inj, ih]
      constructor
      · intro hpair
        refine ⟨hpair, List.pairwise_singleton _ _, fun earlier hmem later hlater hnode => ?_⟩
        rw [List.mem_singleton] at hlater
        subst hlater
        by_contra hedges
        exact hkeep ⟨hnode, (endsWithEdge_foldl_iff paths).mpr ⟨earlier, hmem, hedges⟩⟩
      · exact fun h => h.1

/-- The text of a CREATE clause is made of paths, and however it is read as paths, the loop
collects the patterns of the clause from them. -/
theorem parseCreate_patterns {ts rest : List Token} {c : CreateClause}
    (h : parseCreate ts = .ok (c, rest)) :
    ∃ xs, ts = xs ++ rest ∧ (∃ paths, createPathsPhrase xs paths) ∧
      ∀ paths, createPathsPhrase xs paths → c.patterns = paths.foldl addCreatePath [] := by
  obtain ⟨xs, rfl, hphrase⟩ := reads_parseCreate h
  obtain ⟨paths, hpaths, -⟩ := (createPhrase_iff xs c).mp hphrase
  refine ⟨xs, rfl, ⟨paths, hpaths⟩, fun paths' hpaths' => ?_⟩
  -- the clause alone is accepted with one meaning
  have hend : Avoids (listGoes pathGoes) [] := fun t ht => by cases ht
  have hc := accepts_parseCreate hphrase hend
  have hc' := accepts_parseCreate ((createPhrase_iff xs ⟨_⟩).mpr ⟨paths', hpaths', rfl⟩) hend
  rw [hc] at hc'
  cases hc'
  rfl

/-- **Parsing a CREATE clause loses no pattern, if and only if no single node is written after
an edge.**  The text the parser accepts is made of paths, and however it is read as paths, the
patterns are one for each edge and one for each single node, in this order, exactly when
`NodesFirst` holds of the paths. -/
theorem parseCreate_patterns_eq_iff (ts rest : List Token) (c : CreateClause)
    (h : parseCreate ts = .ok (c, rest)) :
    ∃ xs, ts = xs ++ rest ∧ (∃ paths, createPathsPhrase xs paths) ∧
      ∀ paths, createPathsPhrase xs paths →
        (c.patterns = paths.flatMap CreatePath.patterns ↔ NodesFirst paths) := by
  obtain ⟨xs, hxs, hpaths, hpatterns⟩ := parseCreate_patterns h
  refine ⟨xs, hxs, hpaths, fun paths' hpaths' => ?_⟩
  rw [hpatterns paths' hpaths']
  exact foldl_addCreatePath_eq_iff paths'

theorem nodePhrase_ident (name : String) :
    nodePhrase [.leftParen, .ident name, .rightParen] ⟨some name, [], ∅⟩ :=
  ⟨[_], _, (), rfl, rfl, [_], _, some name, rfl, .inr ⟨name, rfl, _, rfl, rfl⟩, [], _, [], rfl,
    .inr ⟨rfl, rfl⟩, [], _, ∅, rfl, .inr ⟨rfl, rfl⟩, [_], [], (), rfl, rfl, rfl, rfl⟩

/-- The edge of `(a)-(b)`. -/
def plainEdge (a b : String) : EdgePattern :=
  ⟨none, none, .both, ∅, ⟨some a, [], ∅⟩, ⟨some b, [], ∅⟩, none⟩

theorem edgePhrase_plain (a b : String) :
    edgePhrase ⟨some a, [], ∅⟩ [.minus, .leftParen, .ident b, .rightParen] (plainEdge a b) :=
  ⟨[_], _, .both, rfl, .inr ⟨[_], [], (), rfl, rfl, rfl, rfl⟩, [], _, ⟨none, none, ∅, none⟩, rfl,
    .inr ⟨rfl, rfl⟩, [], _, .both, rfl, .inr (.inr ⟨rfl, rfl⟩), _, [], _, rfl,
    nodePhrase_ident b, rfl, rfl⟩

/-- The tokens of `CREATE (c), (a)-(b)` and of `CREATE (a)-(b), (c)`. -/
def createTokens (nodeFirst : Bool) : List Token :=
  let node := [.leftParen, .ident "c", .rightParen]
  let edge := [.leftParen, .ident "a", .rightParen, .minus, .leftParen, .ident "b", .rightParen]
  if nodeFirst then .createKw :: node ++ .comma :: edge else .createKw :: edge ++ .comma :: node

/-- In `CREATE (a)-(b), (c)` the node `c` is written after an edge. -/
theorem createPathsPhrase_edge_node :
    createPathsPhrase (createTokens false)
      [⟨⟨some "a", [], ∅⟩, [plainEdge "a" "b"]⟩, ⟨⟨some "c", [], ∅⟩, []⟩] := by
  have hpath : createPathPhrase [.leftParen, .ident "a", .rightParen, .minus, .leftParen,
      .ident "b", .rightParen] ⟨⟨some "a", [], ∅⟩, [plainEdge "a" "b"]⟩ :=
    ⟨_, _, _, rfl, nodePhrase_ident "a", _, [], _, (List.append_nil _).symm,
      .step ⟨_, [], _, rfl, edgePhrase_plain "a" "b", rfl, rfl⟩ (.stop _), rfl, rfl⟩
  have hnode : createPathPhrase [.leftParen, .ident "c", .rightParen] ⟨⟨some "c", [], ∅⟩, []⟩ :=
    ⟨_, [], _, rfl, nodePhrase_ident "c", [], [], _, rfl, .stop _, rfl, rfl⟩
  exact ⟨[_], _, (), rfl, rfl, _, _, _, rfl, hpath,
    .step ⟨[_], _, (), rfl, rfl, _, [], _, rfl, hnode, rfl, rfl⟩ (.stop _)⟩

/-- `CREATE (c), (a)-(b)` loses nothing. -/
theorem parseCreate_patterns_eq_iff_node_first :
    ∃ c, parseCreate (createTokens true) = .ok (c, []) ∧ c.patterns.length = 2 ∧
      ∃ xs, createTokens true = xs ++ [] ∧ (∃ paths, createPathsPhrase xs paths) ∧
        ∀ paths, createPathsPhrase xs paths →
          (c.patterns = paths.flatMap CreatePath.patterns ↔ NodesFirst paths) := by
  cases h : parseCreate (createTokens true) with
  | error e => cases h
  | ok r =>
    obtain ⟨c, rest⟩ := r
    have hrest : rest = [] := by cases h; rfl
    have hlen : c.patterns.length = 2 := by cases h; rfl
    subst hrest
    exact ⟨c, rfl, hlen, parseCreate_patterns_eq_iff (createTokens true) [] c h⟩

/-- The parser takes `CREATE (a)-(b), (c)`, and returns the edge alone. -/
theorem parseCreate_drops_node :
    tokenize .ascii "CREATE (a)-(b), (c)".toList = .ok (createTokens false) ∧
      (∃ c, parseCreate (createTokens false) = .ok (c, []) ∧ c.patterns.length = 1) ∧
      ¬ ∀ (ts rest : List Token) (c : CreateClause), parseCreate ts = .ok (c, rest) →
        ∃ xs, ts = xs ++ rest ∧
          ∀ paths, createPathsPhrase xs paths → c.patterns = paths.flatMap CreatePath.patterns := by
  have hparse : ∃ c, parseCreate (createTokens false) = .ok (c, []) ∧ c.patterns.length = 1 :=
    ⟨_, rfl, rfl⟩
  refine ⟨by decide +kernel, hparse, fun hall => ?_⟩
  obtain ⟨c, hc, hlen⟩ := hparse
  obtain ⟨xs, hxs, hpatterns⟩ := hall _ _ c hc
  rw [List.append_nil] at hxs
  subst hxs
  rw [hpatterns _ createPathsPhrase_edge_node] at hlen
  cases hlen

end KuzuEventBus
