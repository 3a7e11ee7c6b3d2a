import KuzuEventBus.Gql.Printing

/-!
# Levels of precedence

The phrases of the six levels of expressions, from the loosest to the primary ones.  An
expression of literals, variables, properties and binary operators is spelled by its phrases
token by token in order, up to parentheses; so the token of its outermost operator stands where
the tokens of the left operand end, however the operands are written.

## Main definitions

* `Expr.Plain`, `Expr.spelled` — such expressions, and their tokens without parentheses.
* `SpellsOut` — tokens that are those up to balanced parentheses.
* `levelPhrase`, `BinOp.level`, `BinOp.leftLevel` — levels, and those of the operators.

## Main results

* `spellsOut_of_levelPhrase` — **a phrase spells out what it means.**
* `levelPhrase_binaryOp`, `levelPhrase_split` — operators join phrases of their levels, and
  nothing else, inside as many parentheses as there are.
* `SpellsOut.cut` — the outermost operator is found by counting.
-/

namespace KuzuEventBus

open Parsing Phrase

/-! ### What is spelled -/

/-- Literals, variables, properties, and binary operators over them. -/
def Expr.Plain : Expr → Prop
  | .literal _ | .ident _ | .property _ _ => True
  | .binaryOp left _ right => left.Plain ∧ right.Plain
  | _ => False

/-- The tokens of such an expression in order, without parentheses. -/
def Expr.spelled : Expr → List Token
  | .literal l => [l.token]
  | .ident name => [.ident name]
  | .property var prop => [.ident var, .dot, .ident prop]
  | .binaryOp left op right => left.spelled ++ op.token :: right.spelled
  | _ => []

/-- The token is no parenthesis. -/
def notParen (t : Token) : Bool := t != .leftParen && t != .rightParen

/-- The tokens are those of the expression, up to balanced parentheses. -/
structure SpellsOut (xs : List Token) (e : Expr) : Prop where
  filter_eq : xs.filter notParen = e.spelled
  balanced : xs.count .leftParen = xs.count .rightParen

theorem BinOp.notParen_token (op : BinOp) : notParen op.token = true := by
  cases op <;> rfl

theorem BinOp.count_leftParen (op : BinOp) (xs : List Token) :
    (op.token :: xs).count .leftParen = xs.count .leftParen :=
  List.count_cons_of_ne (by cases op <;> simp [BinOp.token])

theorem BinOp.count_rightParen (op : BinOp) (xs : List Token) :
    (op.token :: xs).count .rightParen = xs.count .rightParen :=
  List.count_cons_of_ne (by cases op <;> simp [BinOp.token])

theorem BinOp.filter_cons (op : BinOp) (xs : List Token) :
    (op.token :: xs).filter notParen = op.token :: xs.filter notParen :=
  List.filter_cons_of_pos op.notParen_token

theorem SpellsOut.binaryOp {xs ys : List Token} {left right : Expr} (hleft : SpellsOut xs left)
    (op : BinOp) (hright : SpellsOut ys right) :
    SpellsOut (xs ++ op.token :: ys) (.binaryOp left op right) where
  filter_eq := by
    rw [List.filter_append, op.filter_cons, hleft.filter_eq, hright.filter_eq]
    rfl
  balanced := by
    rw [List.count_append, List.count_append, op.count_leftParen, op.count_rightParen,
      hleft.balanced, hright.balanced]

theorem SpellsOut.parens {xs : List Token} {e : Expr} (h : SpellsOut xs e) :
    SpellsOut (.leftParen :: (xs ++ [.rightParen])) e where
  filter_eq := by
    rw [← h.filter_eq]
    simp [notParen, List.filter_append]
  balanced := by
    have hbalanced := h.balanced
    simp only [List.count_cons, List.count_append, List.count_nil]
    simp only [reduceCtorEq, beq_iff_eq, if_false, beq_self_eq_true, if_true]
    omega

/-- Two ways to cut tokens at an operator are one, when as many of the other tokens come before
it. -/
theorem BinOp.split_unique {op : BinOp} {xs xs' ys ys' : List Token}
    (hfilter : xs.filter notParen = xs'.filter notParen)
    (heq : xs ++ op.token :: ys = xs' ++ op.token :: ys') : xs = xs' ∧ ys = ys' := by
  -- a longer beginning would have one more operator
  have hmore (as bs : List Token) (h : as.filter notParen =
      (as ++ op.token :: bs).filter notParen) : False := by
    rw [List.filter_append, op.filter_cons] at h
    have hlen := congrArg List.length h
    simp only [List.length_append, List.length_cons] at hlen
    omega
  rcases List.append_eq_append_iff.mp heq with ⟨as, has, hys⟩ | ⟨as, has, hys⟩
  · cases as with
    | nil =>
      rw [List.append_nil] at has
      exact ⟨has.symm, (List.cons.inj hys).2⟩
    | cons t as =>
      obtain ⟨rfl, -⟩ := List.cons.inj hys
      rw [has] at hfilter
      exact (hmore _ as hfilter).elim
  · cases as with
    | nil =>
      rw [List.append_nil] at has
      exact ⟨has, (List.cons.inj hys).2.symm⟩
    | cons t as =>
      obtain ⟨rfl, -⟩ := List.cons.inj hys
      rw [has] at hfilter
      exact (hmore _ as hfilter.symm).elim

/-- **The outermost operator is found by counting**: after opening parentheses and the tokens of
the left operand it is in one place only, and the parentheses are as many. -/
theorem SpellsOut.cut {xs ys zs rest : List Token} {e : Expr} {op : BinOp} {j k : ℕ}
    (hxs : SpellsOut xs e) (hys : SpellsOut ys e)
    (heq : List.replicate k .leftParen ++ ys ++ op.token :: zs =
      List.replicate j .leftParen ++ xs ++ op.token :: rest) : k = j ∧ ys = xs ∧ zs = rest := by
  have hparens (j : ℕ) : (List.replicate j Token.leftParen).filter notParen = [] := by
    rw [List.filter_eq_nil_iff]
    intro t ht
    rw [List.eq_of_mem_replicate ht]
    decide
  have hnone (j : ℕ) : (List.replicate j Token.leftParen).count .rightParen = 0 := by
    simp [List.count_replicate]
  have hfilter : (List.replicate k Token.leftParen ++ ys).filter notParen =
      (List.replicate j Token.leftParen ++ xs).filter notParen := by
    rw [List.filter_append, List.filter_append, hparens, hparens, hys.filter_eq, hxs.filter_eq]
  obtain ⟨hsame, hrest⟩ := BinOp.split_unique hfilter heq
  have hopen := congrArg (List.count .leftParen) hsame
  have hclose := congrArg (List.count .rightParen) hsame
  rw [List.count_append, List.count_append, List.count_replicate_self,
    List.count_replicate_self] at hopen
  rw [List.count_append, List.count_append, hnone, hnone] at hclose
  have hkj : k = j := by
    have := hys.balanced
    have := hxs.balanced
    omega
  subst hkj
  exact ⟨rfl, List.append_cancel_left hsame, hrest⟩

/-! ### Chains -/

section
variable {op? : Token → Option BinOp} {D : GqlPhrase Expr}

/-- What a chain of operands means is the operand, or ends with an operator of the chain. -/
theorem binaryChainPhrase_cases {xs : List Token} {e : Expr}
    (h : binaryChainPhrase op? D xs e) :
    D xs e ∨ ∃ ys zs left t op right, xs = ys ++ t :: zs ∧ e = .binaryOp left op right ∧
      op? t = some op ∧ binaryChainPhrase op? D ys left ∧ D zs right := by
  obtain ⟨ys, zs, first, rfl, hfirst, hloop⟩ := h
  rcases hloop.last with ⟨rfl, rfl⟩ | ⟨us, vs, left, rfl, hbefore, hlast⟩
  · rw [List.append_nil]
    exact .inl hfirst
  · obtain ⟨ts, ws, op, rfl, ⟨t, rfl, ht⟩, rs, ns, right, rfl, hright, rfl, rfl⟩ := hlast
    refine .inr ⟨ys ++ us, rs, left, t, op, right, ?_, rfl, ht, ?_, hright⟩
    · simp
    · exact ⟨ys, us, first, rfl, hfirst, hbefore⟩

/-- A chain goes on. -/
theorem binaryChainPhrase_snoc {ys zs : List Token} {left right : Expr} {t : Token} {op : BinOp}
    (hleft : binaryChainPhrase op? D ys left) (ht : op? t = some op) (hright : D zs right) :
    binaryChainPhrase op? D (ys ++ t :: zs) (.binaryOp left op right) := by
  obtain ⟨us, vs, first, rfl, hfirst, hloop⟩ := hleft
  refine ⟨us, vs ++ t :: zs, first, List.append_assoc .., hfirst, hloop.append ?_⟩
  have hround : (tokenMap op? >>= fun op => D >>= fun right => pure (Expr.binaryOp left op right))
      (t :: zs) (.binaryOp left op right) :=
    ⟨[t], zs, op, rfl, ⟨t, rfl, ht⟩, zs, [], right, (List.append_nil zs).symm, hright, rfl, rfl⟩
  rw [← List.append_nil (t :: zs)]
  exact .step hround (.stop _)

end

/-! ### Levels -/

/-- The phrases of a level, from the loosest one. -/
def levelPhrase (D : GqlPhrase Expr) : ℕ → GqlPhrase Expr
  | 0 => exprPhrase D
  | 1 => andPhrase D
  | 2 => comparisonPhrase D
  | 3 => additivePhrase D
  | 4 => multiplicativePhrase D
  | _ => D

/-- The level of a binary operator. -/
def BinOp.level : BinOp → ℕ
  | .or => 0
  | .and => 1
  | .eq | .ne | .lt | .le | .gt | .ge => 2
  | .add | .sub => 3
  | .mul | .div => 4

/-- The level of its left operand: operators associate to the left, except that comparisons do
not at all.  That of its right operand is the next one. -/
def BinOp.leftLevel : BinOp → ℕ
  | .eq | .ne | .lt | .le | .gt | .ge => 3
  | op => op.level

theorem BinOp.level_lt (op : BinOp) : op.level < 5 := by
  cases op <;> decide

section
variable {D : GqlPhrase Expr} {xs : List Token} {e : Expr}

theorem levelPhrase_succ {i : ℕ} (h : levelPhrase D (i + 1) xs e) : levelPhrase D i xs e := by
  rcases i with _ | _ | _ | _ | _ | i
  · exact binaryChainPhrase_one h
  · exact binaryChainPhrase_one h
  · exact comparisonPhrase_of h
  · exact binaryChainPhrase_one h
  · exact binaryChainPhrase_one h
  · exact h

/-- A phrase of a tighter level is one of a looser level. -/
theorem levelPhrase_mono {i j : ℕ} (hij : i ≤ j) (h : levelPhrase D j xs e) :
    levelPhrase D i xs e := by
  induction hij with
  | refl => exact h
  | step _ ih => exact ih (levelPhrase_succ h)

/-- **An operator joins phrases of its levels.** -/
theorem levelPhrase_binaryOp {ys zs : List Token} {left right : Expr} (op : BinOp)
    (hleft : levelPhrase D op.leftLevel ys left) (hright : levelPhrase D (op.level + 1) zs right) :
    levelPhrase D op.level (ys ++ op.token :: zs) (.binaryOp left op right) := by
  cases op
  case or | and | add | sub | mul | div => exact binaryChainPhrase_snoc hleft rfl hright
  all_goals
    refine ⟨ys, _, left, rfl, hleft, .inr ⟨[_], zs, some _, rfl, .inr ⟨_, rfl, _, rfl, rfl⟩, ?_⟩⟩
    exact ⟨zs, [], right, (List.append_nil zs).symm, hright, rfl, rfl⟩

/-- What a phrase of a level means is an operator of the level between phrases of its levels, a
test for null, or what a phrase of the next level means. -/
theorem levelPhrase_step {i : ℕ} (h : levelPhrase D i xs e) :
    levelPhrase D (i + 1) xs e ∨
      (∃ op ys zs left right, op.level = i ∧ xs = ys ++ op.token :: zs ∧
        e = .binaryOp left op right ∧ levelPhrase D op.leftLevel ys left ∧
        levelPhrase D (op.level + 1) zs right) ∨
      ∃ left, e = .isNull left ∨ e = .isNotNull left := by
  have hchain {op? : Token → Option BinOp}
      (hop : ∀ t op, op? t = some op → t = op.token ∧ op.level = i ∧ op.leftLevel = i)
      (h : binaryChainPhrase op? (levelPhrase D (i + 1)) xs e)
      (hlevel : levelPhrase D i = binaryChainPhrase op? (levelPhrase D (i + 1))) :
      levelPhrase D (i + 1) xs e ∨
        ∃ op ys zs left right, op.level = i ∧ xs = ys ++ op.token :: zs ∧
          e = .binaryOp left op right ∧ levelPhrase D op.leftLevel ys left ∧
          levelPhrase D (op.level + 1) zs right := by
    rcases binaryChainPhrase_cases h with h | ⟨ys, zs, left, t, op, right, rfl, rfl, ht, hl, hr⟩
    · exact .inl h
    · obtain ⟨rfl, hlev, hleft⟩ := hop t op ht
      rw [← hlevel] at hl
      refine .inr ⟨op, ys, zs, left, right, hlev, rfl, rfl, ?_, ?_⟩
      · rw [hleft]
        exact hl
      · rw [hlev]
        exact hr
  rcases i with _ | _ | _ | _ | _ | i
  case zero =>
    exact (hchain (fun t op ht => by cases t <;> cases ht; exact ⟨rfl, rfl, rfl⟩) h rfl).imp_right
      .inl
  case succ.zero =>
    exact (hchain (fun t op ht => by cases t <;> cases ht; exact ⟨rfl, rfl, rfl⟩) h rfl).imp_right
      .inl
  case succ.succ.zero =>
    obtain ⟨ys, zs, left, rfl, hleft, htail⟩ := h
    -- one comparison at most, or a test for null in its place
    rcases htail with hnull | ⟨us, vs, op, rfl, hop, hcomparand⟩
    · obtain ⟨us, vs, u, rfl, -, us', vs', isNot, rfl, -, us'', vs'', u', rfl, -, -, rfl⟩ := hnull
      refine .inr (.inr ⟨left, ?_⟩)
      cases isNot with
      | true => exact .inr rfl
      | false => exact .inl rfl
    · rcases hop with ⟨rfl, rfl⟩ | ⟨op, rfl, t, rfl, ht⟩
      · obtain ⟨rfl, rfl⟩ := hcomparand
        rw [List.append_nil, List.append_nil]
        exact .inl hleft
      · obtain ⟨rs, ns, right, rfl, hright, rfl, rfl⟩ := hcomparand
        rw [List.append_nil]
        refine .inr (.inl ⟨op, ys, rs, left, right, ?_⟩)
        cases t <;> cases ht <;> exact ⟨rfl, rfl, rfl, hleft, hright⟩
  case succ.succ.succ.zero =>
    exact (hchain (fun t op ht => by cases t <;> cases ht <;> exact ⟨rfl, rfl, rfl⟩) h
      rfl).imp_right .inl
  case succ.succ.succ.succ.zero =>
    exact (hchain (fun t op ht => by cases t <;> cases ht <;> exact ⟨rfl, rfl, rfl⟩) h
      rfl).imp_right .inl
  case succ.succ.succ.succ.succ => exact .inl h

/-- **Nothing but an operator of the level or a tighter one, or a test for null, joins phrases**
to one that is not primary. -/
theorem levelPhrase_cases {i : ℕ} (h : levelPhrase D i xs e) :
    D xs e ∨
      (∃ op ys zs left right, i ≤ op.level ∧ xs = ys ++ op.token :: zs ∧
        e = .binaryOp left op right ∧ levelPhrase D op.leftLevel ys left ∧
        levelPhrase D (op.level + 1) zs right) ∨
      ∃ left, e = .isNull left ∨ e = .isNotNull left := by
  induction hn : 5 - i generalizing i with
  | zero =>
    obtain ⟨j, rfl⟩ : ∃ j, i = j + 5 := ⟨i - 5, by omega⟩
    exact .inl h
  | succ n ih =>
    rcases levelPhrase_step h with h | ⟨op, ys, zs, left, right, rfl, rest⟩ | hnull
    · refine (ih h (by omega)).imp_right (Or.imp_left ?_)
      rintro ⟨op, ys, zs, left, right, hle, rest⟩
      exact ⟨op, ys, zs, left, right, by omega, rest⟩
    · exact .inr (.inl ⟨op, ys, zs, left, right, le_rfl, rest⟩)
    · exact .inr (.inr hnull)

end

/-! ### What phrases spell -/

/-- What is true of operands is true of what operators make of them. -/
theorem spellsOut_of_primary {D : GqlPhrase Expr}
    (hD : ∀ xs e, D xs e → e.Plain → SpellsOut xs e) {i : ℕ} {xs : List Token} {e : Expr}
    (h : levelPhrase D i xs e) (he : e.Plain) : SpellsOut xs e := by
  -- on the length: an operator is one token more than its operands have together
  induction hn : xs.length using Nat.strong_induction_on generalizing i xs e with
  | _ n ih =>
    rcases levelPhrase_cases h with h | ⟨op, ys, zs, left, right, -, rfl, rfl, hl, hr⟩ |
      ⟨left, rfl | rfl⟩
    · exact hD xs e h he
    · rw [List.length_append, List.length_cons] at hn
      exact (ih ys.length (by omega) hl he.1 rfl).binaryOp op (ih zs.length (by omega) hr he.2 rfl)
    · cases he
    · cases he

/-- What follows an identifier: nothing, a property, or arguments. -/
theorem afterIdentPhrase_cases {tables : CharTables} {D : GqlPhrase Expr} {name : String}
    {xs : List Token} {e : Expr} (h : afterIdentPhrase D tables name xs e) :
    (xs = [] ∧ e = .ident name) ∨ (∃ prop, xs = [.dot, .ident prop] ∧ e = .property name prop) ∨
      (∃ func arg, e = .aggregate func arg) ∨ ∃ args, e = .functionCall name args := by
  rcases h with ⟨ys, zs, u, rfl, -, hcall⟩ | ⟨ys, zs, u, rfl, rfl, us, vs, prop, rfl, hprop, hnil⟩ |
    ⟨rfl, rfl⟩
  · right; right
    cases hfunc : aggFunc? (tables.toUppercase name) with
    | some func =>
      rw [hfunc] at hcall
      obtain ⟨us, vs, arg, rfl, -, us', vs', u', rfl, -, -, rfl⟩ := hcall
      exact .inl ⟨func, arg, rfl⟩
    | none =>
      rw [hfunc] at hcall
      obtain ⟨us, vs, args, rfl, -, us', vs', u', rfl, -, -, rfl⟩ := hcall
      exact .inr ⟨args, rfl⟩
  · obtain ⟨t, rfl, ht⟩ := hprop
    obtain ⟨rfl, rfl⟩ := hnil
    cases t <;> cases ht
    exact .inr (.inl ⟨prop, rfl, rfl⟩)
  · exact .inl ⟨rfl, rfl⟩

theorem spellsOut_of_literal {t : Token} {l : Literal} (h : t.literal? = some l) :
    SpellsOut [t] (.literal l) := by
  cases t <;> cases h <;> exact ⟨rfl, rfl⟩

theorem spellsOut_of_primaryPhrase (tables : CharTables) (n : ℕ) :
    ∀ xs e, primaryPhrase tables n xs e → e.Plain → SpellsOut xs e := by
  induction n with
  | zero => intro xs e h; cases h
  | succ n ih =>
    intro xs e h he
    cases h with
    | parameter name => cases he
    | ident hident =>
      rcases afterIdentPhrase_cases hident with ⟨rfl, rfl⟩ | ⟨prop, rfl, rfl⟩ | ⟨func, arg, rfl⟩ |
        ⟨args, rfl⟩
      · exact ⟨rfl, rfl⟩
      · exact ⟨rfl, rfl⟩
      · cases he
      · cases he
    | not _ => cases he
    | «exists» _ => cases he
    | paren hexpr => exact (spellsOut_of_primary ih (i := 0) hexpr he).parens
    | literal hl => exact spellsOut_of_literal hl

/-- **A phrase spells out what it means**, up to balanced parentheses. -/
theorem spellsOut_of_levelPhrase {tables : CharTables} {n i : ℕ} {xs : List Token} {e : Expr}
    (h : levelPhrase (primaryPhrase tables n) i xs e) (he : e.Plain) : SpellsOut xs e :=
  spellsOut_of_primary (spellsOut_of_primaryPhrase tables n) h he

/-- **The outermost operator of a phrase** stands between phrases of its levels, inside as many
parentheses as there are; without any, its level is not looser than that of the phrase. -/
theorem levelPhrase_split {tables : CharTables} {left right : Expr} {op : BinOp} (n : ℕ) :
    ∀ {i : ℕ} {xs : List Token},
      levelPhrase (primaryPhrase tables n) i xs (.binaryOp left op right) →
      ∃ k m ys zs, xs = List.replicate k .leftParen ++ ys ++ op.token ::
          (zs ++ List.replicate k .rightParen) ∧
        levelPhrase (primaryPhrase tables m) op.leftLevel ys left ∧
        levelPhrase (primaryPhrase tables m) (op.level + 1) zs right ∧ (k = 0 → i ≤ op.level) := by
  induction n with
  | zero =>
    intro i xs h
    rcases levelPhrase_cases h with h | ⟨op, ys, zs, left, right, hle, rfl, heq, hl, hr⟩ |
      ⟨left, heq | heq⟩
    · cases h
    · cases heq
      exact ⟨0, 0, ys, zs, by simp, hl, hr, fun _ => hle⟩
    · cases heq
    · cases heq
  | succ n ih =>
    intro i xs h
    rcases levelPhrase_cases h with h | ⟨op, ys, zs, left, right, hle, rfl, heq, hl, hr⟩ |
      ⟨left, heq | heq⟩
    · generalize heq : Expr.binaryOp left op right = e at h
      cases h with
      | parameter name => cases heq
      | ident hident =>
        subst heq
        rcases afterIdentPhrase_cases hident with ⟨-, h⟩ | ⟨_, -, h⟩ | ⟨_, _, h⟩ | ⟨_, h⟩ <;>
          cases h
      | not _ => cases heq
      | «exists» _ => cases heq
      | @paren ys e he =>
        subst heq
        obtain ⟨k, m, us, vs, rfl, hl, hr, -⟩ := ih (i := 0) he
        refine ⟨k + 1, m, us, vs, ?_, hl, hr, fun h => by omega⟩
        rw [show List.replicate (k + 1) Token.leftParen = .leftParen :: List.replicate k .leftParen
          from rfl, List.replicate_succ']
        simp only [List.cons_append, List.append_assoc]
      | literal _ => cases heq
    · cases heq
      exact ⟨0, n + 1, ys, zs, by simp, hl, hr, fun _ => hle⟩
    · cases heq
    · cases heq

end KuzuEventBus
