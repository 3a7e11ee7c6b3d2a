import KuzuEventBus.Gql.ExistsDepth

/-!
# WHERE and the boolean operators

`Filter` keeps a tuple when its predicate evaluates to true; an error counts as false.
The operators AND and OR evaluate both of their operands and fail where one of them
fails or is no boolean, so a predicate that is true on a tuple is lost under OR when
the other one has no boolean value there.

## Main definitions

* `keptBy` — the operator `Filter` on its input.
* `BooleanLaws` — the laws of AND and OR for two predicates.
* `Clashes` — the conjunction or disjunction of two predicates panics on one of the tuples.

## Main results

* `eval_and_eq_true_iff`, `eval_or_eq_true_iff` — where AND and OR are true.
* `filter_booleanLaws_iff` — **the laws hold exactly if each predicate has a boolean value
  where the other one is true, and an overflow does not depend on the order of the two**.
-/

namespace KuzuEventBus

/-! ### The operators AND and OR -/

/-- The function of a boolean operator. -/
def boolOp : BinOp → Option (Bool → Bool → Bool)
  | .and => some (· && ·)
  | .or => some (· || ·)
  | _ => none

variable {op : BinOp} {f : Bool → Bool → Bool}

theorem evalBinaryOp_bool (hop : boolOp op = some f) (a b : Bool) :
    evalBinaryOp (.bool a) op (.bool b) = .ok (.bool (f a b)) := by
  cases op <;> simp only [boolOp, Option.some.injEq, reduceCtorEq] at hop <;> subst hop <;> rfl

/-- A boolean operator has a value on booleans only, and it is a boolean. -/
theorem evalBinaryOp_eq_ok (hop : boolOp op = some f) {x y z : Value}
    (h : evalBinaryOp x op y = .ok z) :
    ∃ a b, x = .bool a ∧ y = .bool b ∧ z = .bool (f a b) := by
  have hop' : op = .and ∨ op = .or := by
    cases op <;> simp_all [boolOp]
  cases x <;> cases y <;> rcases hop' with rfl | rfl <;>
    simp_all [evalBinaryOp, evalIntOp, evalFloatOp, invalidArgument, boolOp]

theorem noPanic_boolOp (hop : boolOp op = some f) (x y : Value) :
    NoPanic (evalBinaryOp x op y) := by
  intro msg
  have hop' : op = .and ∨ op = .or := by
    cases op <;> simp_all [boolOp]
  cases x <;> cases y <;> rcases hop' with rfl | rfl <;>
    simp [evalBinaryOp, evalIntOp, evalFloatOp, invalidArgument]

/-! ### Predicates under an operator -/

variable {ex : Executor} {p q : Expr} {t : Tuple} {ts : List Tuple}

/-- A boolean operator is true where both predicates have a boolean value and it is true
of the two. -/
theorem eval_boolOp_eq_true_iff (hop : boolOp op = some f) :
    ex.eval (.binaryOp p op q) t = .ok (.bool true) ↔
      ∃ a b, ex.eval p t = .ok (.bool a) ∧ ex.eval q t = .ok (.bool b) ∧ f a b = true := by
  rw [eval_binaryOp]
  constructor
  · intro h
    obtain ⟨x, hx, h⟩ := bind_eq_ok h
    obtain ⟨y, hy, h⟩ := bind_eq_ok h
    obtain ⟨a, b, rfl, rfl, hab⟩ := evalBinaryOp_eq_ok hop h
    exact ⟨a, b, hx, hy, (Value.bool.inj hab).symm⟩
  · rintro ⟨a, b, ha, hb, hab⟩
    rw [ha, hb]
    show evalBinaryOp (.bool a) op (.bool b) = _
    rw [evalBinaryOp_bool hop, hab]

theorem eval_and_eq_true_iff : ex.eval (.binaryOp p .and q) t = .ok (.bool true) ↔
    ex.eval p t = .ok (.bool true) ∧ ex.eval q t = .ok (.bool true) := by
  rw [eval_boolOp_eq_true_iff rfl]
  constructor
  · rintro ⟨a, b, ha, hb, hab⟩
    obtain ⟨rfl, rfl⟩ : a = true ∧ b = true := by simpa using hab
    exact ⟨ha, hb⟩
  · rintro ⟨ha, hb⟩
    exact ⟨true, true, ha, hb, rfl⟩

theorem eval_or_eq_true_iff : ex.eval (.binaryOp p .or q) t = .ok (.bool true) ↔
    ∃ a b, ex.eval p t = .ok (.bool a) ∧ ex.eval q t = .ok (.bool b) ∧ (a || b) = true :=
  eval_boolOp_eq_true_iff rfl

/-- The second predicate is evaluated where the first one has a value. -/
theorem noPanic_boolOp_iff (hop : boolOp op = some f) :
    NoPanic (ex.eval (.binaryOp p op q) t) ↔
      NoPanic (ex.eval p t) ∧ ∀ v, ex.eval p t = .ok v → NoPanic (ex.eval q t) := by
  rw [eval_binaryOp]
  cases hp : ex.eval p t with
  | error e =>
    constructor
    · intro h
      exact ⟨fun msg hmsg => h msg hmsg, nofun⟩
    · intro h msg hmsg
      exact h.1 msg hmsg
  | ok x =>
    show NoPanic (ex.eval q t >>= fun r => evalBinaryOp x op r) ↔ _
    constructor
    · intro h
      refine ⟨.ok x, ?_⟩
      intro v _ msg hmsg
      rw [hmsg] at h
      exact h msg rfl
    · intro h
      exact (h.2 x rfl).bind fun y => noPanic_boolOp hop x y

/-! ### Filter -/

/-- The tuples `Filter` keeps. -/
def keptBy (ex : Executor) (predicate : Expr) (ts : List Tuple) : Except Fault (List Tuple) :=
  filterE (accepts ex.eval predicate) ts

/-- The tuples on which a predicate is true. -/
def trueOn (ex : Executor) (predicate : Expr) (ts : List Tuple) : List Tuple :=
  ts.filter fun t => ex.eval predicate t = .ok (.bool true)

theorem accepts_of_noPanic {e : Expr} (h : NoPanic (ex.eval e t)) :
    accepts ex.eval e t = .ok (decide (ex.eval e t = .ok (.bool true))) := by
  rw [accepts, okOrNone_of_noPanic h]
  show Except.ok (decide _) = _
  congr 2
  cases ex.eval e t <;> simp [Except.toOption]

/-- Where no evaluation panics, Filter keeps the tuples on which its predicate is true. -/
theorem keptBy_of_noPanic {e : Expr} (h : ∀ t ∈ ts, NoPanic (ex.eval e t)) :
    keptBy ex e ts = .ok (trueOn ex e ts) := by
  induction ts with
  | nil => rfl
  | cons t ts ih =>
    rw [List.forall_mem_cons] at h
    have ih := ih h.2
    rw [keptBy] at ih ⊢
    rw [filterE, accepts_of_noPanic h.1, ih, trueOn, trueOn, List.filter_cons]
    rfl

/-- Filter returns where no evaluation panics. -/
theorem keptBy_eq_ok_iff {e : Expr} {kept : List Tuple} :
    keptBy ex e ts = .ok kept ↔ (∀ t ∈ ts, NoPanic (ex.eval e t)) ∧ kept = trueOn ex e ts := by
  constructor
  · intro h
    have hret : ∀ t ∈ ts, NoPanic (ex.eval e t) := by
      induction ts generalizing kept with
      | nil => simp
      | cons t ts ih =>
        rw [keptBy, filterE] at h
        obtain ⟨keep, hkeep, h⟩ := bind_eq_ok h
        obtain ⟨rest, hrest, -⟩ := bind_eq_ok h
        obtain ⟨v, hv, -⟩ := bind_eq_ok hkeep
        rw [List.forall_mem_cons]
        exact ⟨(okOrNone_eq_ok hv).1, ih hrest⟩
    rw [keptBy_of_noPanic hret] at h
    exact ⟨hret, (Except.ok.inj h).symm⟩
  · rintro ⟨hret, rfl⟩
    exact keptBy_of_noPanic hret

theorem keptBy_toOption (e : Expr) : (keptBy ex e ts).toOption = none ↔
    ¬ ∀ t ∈ ts, NoPanic (ex.eval e t) := by
  constructor
  · intro h hret
    rw [keptBy_of_noPanic hret] at h
    cases h
  · intro h
    cases hk : keptBy ex e ts with
    | ok kept => exact absurd (keptBy_eq_ok_iff.1 hk).1 h
    | error e => rfl

theorem mem_trueOn {e : Expr} : t ∈ trueOn ex e ts ↔ t ∈ ts ∧ ex.eval e t = .ok (.bool true) := by
  simp [trueOn]

/-! ### The laws -/

/-- Filter respects the laws of AND and OR on two predicates and some tuples. -/
structure BooleanLaws (ex : Executor) (p q : Expr) (ts : List Tuple) : Prop where
  and_keeps : ∀ kp kq, keptBy ex p ts = .ok kp → keptBy ex q ts = .ok kq →
    ∃ k, keptBy ex (.binaryOp p .and q) ts = .ok k ∧ ∀ t, t ∈ k ↔ t ∈ kp ∧ t ∈ kq
  or_keeps : ∀ kp kq, keptBy ex p ts = .ok kp → keptBy ex q ts = .ok kq →
    ∃ k, keptBy ex (.binaryOp p .or q) ts = .ok k ∧ ∀ t, t ∈ kp ∨ t ∈ kq → t ∈ k
  and_swap : (keptBy ex (.binaryOp p .and q) ts).toOption =
    (keptBy ex (.binaryOp q .and p) ts).toOption
  or_swap : (keptBy ex (.binaryOp p .or q) ts).toOption =
    (keptBy ex (.binaryOp q .or p) ts).toOption

/-- An operator on the two predicates, in this order, panics on one of the tuples: the first one
panics, or it has a value and the second one panics. -/
def Clashes (ex : Executor) (p q : Expr) (ts : List Tuple) : Prop :=
  ∃ t ∈ ts, ¬ NoPanic (ex.eval p t) ∨ (∃ v, ex.eval p t = .ok v) ∧ ¬ NoPanic (ex.eval q t)

theorem not_clashes_iff (hop : boolOp op = some f) :
    ¬ Clashes ex p q ts ↔ ∀ t ∈ ts, NoPanic (ex.eval (.binaryOp p op q) t) := by
  rw [Clashes]
  constructor
  · intro h t ht
    rw [noPanic_boolOp_iff hop]
    constructor
    · by_contra hp
      exact h ⟨t, ht, .inl hp⟩
    · intro v hv
      by_contra hq
      exact h ⟨t, ht, .inr ⟨⟨v, hv⟩, hq⟩⟩
  · rintro h ⟨t, ht, hclash⟩
    have hret := (noPanic_boolOp_iff hop).1 (h t ht)
    rcases hclash with hp | ⟨⟨v, hv⟩, hq⟩
    · exact hp hret.1
    · exact hq (hret.2 v hv)

/-- Swapping the operands changes nothing but where the operator panics. -/
theorem keptBy_swap_iff (hop : boolOp op = some f) (hf : ∀ a b, f a b = f b a) :
    (keptBy ex (.binaryOp p op q) ts).toOption = (keptBy ex (.binaryOp q op p) ts).toOption ↔
      (Clashes ex p q ts ↔ Clashes ex q p ts) := by
  have hpq : ¬ Clashes ex p q ts ↔ ∀ t ∈ ts, NoPanic (ex.eval (.binaryOp p op q) t) :=
    not_clashes_iff hop
  have hqp : ¬ Clashes ex q p ts ↔ ∀ t ∈ ts, NoPanic (ex.eval (.binaryOp q op p) t) :=
    not_clashes_iff hop
  constructor
  · intro h
    rw [← not_iff_not, hpq, hqp, ← not_iff_not, ← keptBy_toOption, ← keptBy_toOption, h]
  · intro h
    by_cases hclash : Clashes ex p q ts
    · -- both orders panic
      have hl : (keptBy ex (.binaryOp p op q) ts).toOption = none :=
        (keptBy_toOption _).2 fun hret => hpq.2 hret hclash
      have hr : (keptBy ex (.binaryOp q op p) ts).toOption = none :=
        (keptBy_toOption _).2 fun hret => hqp.2 hret (h.1 hclash)
      rw [hl, hr]
    · rw [keptBy_of_noPanic (hpq.1 hclash), keptBy_of_noPanic (hqp.1 fun hq => hclash (h.2 hq))]
      have hsame : trueOn ex (.binaryOp p op q) ts = trueOn ex (.binaryOp q op p) ts := by
        apply List.filter_congr
        intro t _
        rw [decide_eq_decide, eval_boolOp_eq_true_iff hop, eval_boolOp_eq_true_iff hop]
        constructor
        · rintro ⟨a, b, ha, hb, hab⟩
          exact ⟨b, a, hb, ha, by rw [hf, hab]⟩
        · rintro ⟨a, b, ha, hb, hab⟩
          exact ⟨b, a, hb, ha, by rw [hf, hab]⟩
      rw [hsame]

/-- Where neither predicate panics, neither does an operator on them. -/
theorem noPanic_boolOp_of (hop : boolOp op = some f)
    (h : ∀ t ∈ ts, NoPanic (ex.eval p t) ∧ NoPanic (ex.eval q t)) :
    ∀ t ∈ ts, NoPanic (ex.eval (.binaryOp p op q) t) :=
  fun t ht => (noPanic_boolOp_iff hop).2 ⟨(h t ht).1, fun _ _ => (h t ht).2⟩

theorem noPanic_of_keptBy {kp kq : List Tuple} (hp : keptBy ex p ts = .ok kp)
    (hq : keptBy ex q ts = .ok kq) :
    (∀ t ∈ ts, NoPanic (ex.eval p t) ∧ NoPanic (ex.eval q t)) ∧
      kp = trueOn ex p ts ∧ kq = trueOn ex q ts := by
  obtain ⟨hpret, rfl⟩ := keptBy_eq_ok_iff.1 hp
  obtain ⟨hqret, rfl⟩ := keptBy_eq_ok_iff.1 hq
  exact ⟨fun t ht => ⟨hpret t ht, hqret t ht⟩, rfl, rfl⟩

/-- **Filter respects boolean algebra exactly if on each tuple on which one predicate is true the
other one has a boolean value**, and an operator panics in one order as in the other. -/
theorem filter_booleanLaws_iff (ex : Executor) (p q : Expr) (ts : List Tuple) :
    BooleanLaws ex p q ts ↔
      ((∀ t ∈ ts, NoPanic (ex.eval p t) ∧ NoPanic (ex.eval q t)) →
        ∀ t ∈ ts, (ex.eval p t = .ok (.bool true) → ∃ b, ex.eval q t = .ok (.bool b)) ∧
          (ex.eval q t = .ok (.bool true) → ∃ b, ex.eval p t = .ok (.bool b))) ∧
      (Clashes ex p q ts ↔ Clashes ex q p ts) := by
  constructor
  · intro h
    refine ⟨?_, (keptBy_swap_iff rfl Bool.and_comm).1 h.and_swap⟩
    intro hret t ht
    have hp := keptBy_of_noPanic fun t ht => (hret t ht).1
    have hq := keptBy_of_noPanic fun t ht => (hret t ht).2
    obtain ⟨k, hk, hkeeps⟩ := h.or_keeps _ _ hp hq
    obtain ⟨-, rfl⟩ := keptBy_eq_ok_iff.1 hk
    -- what OR keeps has boolean values for both predicates
    have hboth : t ∈ trueOn ex p ts ∨ t ∈ trueOn ex q ts →
        ∃ a b, ex.eval p t = .ok (.bool a) ∧ ex.eval q t = .ok (.bool b) := by
      intro hmem
      obtain ⟨a, b, ha, hb, -⟩ := eval_or_eq_true_iff.1 (mem_trueOn.1 (hkeeps t hmem)).2
      exact ⟨a, b, ha, hb⟩
    constructor
    · intro htrue
      obtain ⟨-, b, -, hb⟩ := hboth (.inl (mem_trueOn.2 ⟨ht, htrue⟩))
      exact ⟨b, hb⟩
    · intro htrue
      obtain ⟨a, -, ha, -⟩ := hboth (.inr (mem_trueOn.2 ⟨ht, htrue⟩))
      exact ⟨a, ha⟩
  · rintro ⟨hbool, hclash⟩
    refine ⟨?_, ?_, (keptBy_swap_iff rfl Bool.and_comm).2 hclash,
      (keptBy_swap_iff rfl Bool.or_comm).2 hclash⟩
    · intro kp kq hp hq
      obtain ⟨hret, rfl, rfl⟩ := noPanic_of_keptBy hp hq
      refine ⟨_, keptBy_of_noPanic (noPanic_boolOp_of rfl hret), ?_⟩
      intro t
      rw [mem_trueOn, mem_trueOn, mem_trueOn, eval_and_eq_true_iff]
      tauto
    · intro kp kq hp hq
      obtain ⟨hret, rfl, rfl⟩ := noPanic_of_keptBy hp hq
      refine ⟨_, keptBy_of_noPanic (noPanic_boolOp_of rfl hret), ?_⟩
      intro t hmem
      rw [mem_trueOn, mem_trueOn] at hmem
      rw [mem_trueOn, eval_or_eq_true_iff]
      rcases hmem with ⟨ht, htrue⟩ | ⟨ht, htrue⟩
      · obtain ⟨b, hb⟩ := (hbool hret t ht).1 htrue
        exact ⟨ht, true, b, htrue, hb, rfl⟩
      · obtain ⟨a, ha⟩ := (hbool hret t ht).2 htrue
        exact ⟨ht, a, true, ha, htrue, Bool.or_true a⟩

/-- A query whose parameter `$tenantId` is null. -/
def noTenant : Executor := ⟨none, (∅ : HashMap String Value).insert "tenantId" .null⟩

/-- A node that has no `tenant_id`. -/
def withoutTenant : Tuple := (∅ : Tuple).insert "n" (.nodeId 1)

/-- `$tenantId IS NULL OR n.tenant_id = $tenantId` loses a node without `tenant_id`, which
`$tenantId IS NULL` keeps. -/
theorem filter_or_loses :
    ¬ BooleanLaws noTenant (.isNull (.parameter "tenantId"))
      (.binaryOp (.property "n" "tenant_id") .eq (.parameter "tenantId")) [withoutTenant] := by
  intro h
  obtain ⟨k, hk, hkeeps⟩ := h.or_keeps [withoutTenant] [] rfl rfl
  have hlost : keptBy noTenant (.binaryOp (.isNull (.parameter "tenantId")) .or
      (.binaryOp (.property "n" "tenant_id") .eq (.parameter "tenantId"))) [withoutTenant] =
        .ok [] := rfl
  rw [hlost] at hk
  cases hk
  exact absurd (hkeeps _ (.inl List.mem_cons_self)) List.not_mem_nil

end KuzuEventBus
