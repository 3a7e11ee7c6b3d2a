import KuzuEventBus.Sdk.QueryBuilder
import Mathlib.Data.List.Induction

/-!
# Running a query again

What `all()`, `first()` and `count()` leave behind in a builder.  `first()` sets the limit to 1,
which a later `all()` then sends; `all()` and `first()` move a predicate that was added before
`select()`, which `count()` then does not find.

## Main definitions

* `Builder.after` — the builder after a list of requests.
* `RunsUnchanged` — every request sends and returns what it would as the first one.
* `Undisturbed` — no request comes after one that disturbs it.

## Main results

* `after_eq` — what a list of requests leaves behind.
* `runsUnchanged_iff` — **requests are as the first one exactly when they are undisturbed.**
-/

namespace KuzuEventBus.Sdk

open Dsl

namespace Builder

/-- The builder after a request. -/
def next (b : Builder) : Request → Builder
  | .all => b.prepare
  | .first => (b.take 1).prepare
  | .count => b

/-- The builder after a list of requests. -/
def after (b : Builder) (requests : List Request) : Builder := requests.foldl next b

/-- What a request returns depends on the text it sends, and on what no request changes. -/
def answerTo (b : Builder) (db : Database) (r : Request) (gql : List Char) : Answer :=
  let rows := (db gql b.sentParams).rows
  let items := if b.returnFields = [] then rows.map fun _ => Item.entity b.cls.label
    else rows.map fun row => .namespace_ (row.toNamespace b.returnFields)
  match r with
  | .all => .items items
  | .first => .item items.head?
  | .count => .count (match rows with
    | [] => some (.int 0)
    | .list (value :: _) :: _ => some value
    | _ => none)

/-- The parts of a builder that no request changes. -/
def SameFixed (b b' : Builder) : Prop :=
  b.cls = b'.cls ∧ b.params = b'.params ∧ b.returnFields = b'.returnFields

theorem answerTo_congr {b b' : Builder} (h : SameFixed b b') (db : Database) (r : Request)
    (gql : List Char) : b.answerTo db r gql = b'.answerTo db r gql := by
  obtain ⟨hcls, hparams, hfields⟩ := h
  unfold answerTo sentParams
  rw [hcls, hparams, hfields]

theorem sameFixed_prepare (b : Builder) : SameFixed b.prepare b := by
  unfold prepare
  dsimp only
  split <;> exact ⟨rfl, rfl, rfl⟩

theorem send_fst (b : Builder) (db : Database) (r : Request) :
    (b.send db r).1 = b.answerTo db r (b.sentText r) := by
  cases r with
  | all => exact answerTo_congr b.sameFixed_prepare db .all b.prepare.gqlText
  | first =>
    exact answerTo_congr (b.take 1).sameFixed_prepare db .first (b.take 1).prepare.gqlText
  | count => rfl

/-! ### What requests leave behind -/

theorem take_take (b : Builder) (m n : ℤ) : (b.take m).take n = b.take n := rfl

/-- **What a list of requests leaves behind**: the limit of a `first()` among them, and what
building a text changes. -/
theorem after_eq (b : Builder) (requests : List Request) : b.after requests =
    (let b := if .first ∈ requests then b.take 1 else b
    if .all ∈ requests ∨ .first ∈ requests then b.prepare else b) := by
  induction requests using List.reverseRecOn with
  | nil => rfl
  | append_singleton requests r ih =>
    unfold after at ih ⊢
    rw [List.foldl_concat, ih]
    by_cases hfirst : .first ∈ requests <;> by_cases hall : .all ∈ requests <;> cases r
    all_goals simp [hfirst, hall, next, prepare_prepare, prepare_take, take_take]

theorem sameFixed_after (b : Builder) (requests : List Request) :
    SameFixed (b.after requests) b := by
  have hprepare (b' : Builder) : SameFixed b'.prepare b' := b'.sameFixed_prepare
  rw [after_eq]
  dsimp only
  split <;> split
  all_goals
    first
    | exact hprepare _
    | exact ⟨rfl, rfl, rfl⟩

/-- The text of `_build_gql` but its last clause. -/
def gqlBody (b : Builder) : List Char :=
  b.matchText ++ (whereOf (joinTexts " AND " b.whereParts) ++ (b.withText ++ (b.returnText ++
    b.orderText)))

theorem gqlText_eq (b : Builder) : b.gqlText = b.gqlBody ++ limitText b.limitValue := by
  simp [gqlText, gqlBody]

theorem prepare_limitValue (b : Builder) : b.prepare.limitValue = b.limitValue := by
  unfold prepare
  dsimp only
  split <;> rfl

theorem after_gqlBody (b : Builder) (requests : List Request) :
    (b.after requests).prepare.gqlBody = b.prepare.gqlBody := by
  rw [after_eq]
  dsimp only
  split <;> split <;> simp only [prepare_prepare, prepare_take] <;> rfl

/-- What `all()` sends after a list of requests. -/
theorem after_buildGql (b : Builder) (requests : List Request) :
    (b.after requests).buildGql.1 = b.prepare.gqlBody ++
      limitText (if .first ∈ requests then some 1 else b.limitValue) := by
  have hlimit : (b.after requests).limitValue =
      if .first ∈ requests then some 1 else b.limitValue := by
    rw [after_eq]
    dsimp only
    split <;> split <;> simp only [prepare_limitValue, take]
  rw [buildGql, gqlText_eq, prepare_limitValue, after_gqlBody, hlimit]

/-- What `first()` sends after a list of requests: always the same. -/
theorem after_take_buildGql (b : Builder) (requests : List Request) :
    ((b.after requests).take 1).buildGql.1 = (b.take 1).buildGql.1 := by
  have hbody (b' : Builder) : (b'.take 1).prepare.gqlText = b'.prepare.gqlBody ++
      limitText (some 1) := by
    rw [prepare_take, gqlText_eq]
    rfl
  rw [buildGql, buildGql, hbody, hbody, after_gqlBody]

/-- The condition that `count()` finds after a list of requests: none, if it was moved. -/
theorem after_whereStr (b : Builder) (requests : List Request) :
    (b.after requests).whereStr =
      if (.all ∈ requests ∨ .first ∈ requests) ∧ b.withItems ≠ [] then [] else b.whereStr := by
  have hprepare (b : Builder) :
      b.prepare.whereStr = if b.withItems ≠ [] then [] else b.whereStr := by
    unfold prepare whereStr
    dsimp only
    by_cases hitems : b.withItems = []
    · simp [hitems, var]
    · cases b.whereClause <;> simp [hitems]
  rw [after_eq]
  dsimp only
  by_cases hbuilt : .all ∈ requests ∨ .first ∈ requests
  · rw [if_pos hbuilt, hprepare]
    by_cases hfirst : .first ∈ requests
    · simp [hfirst, take]
      rfl
    · simp [hfirst, hbuilt.resolve_right hfirst]
  · rw [if_neg hbuilt, if_neg fun h => hbuilt (.inr h), if_neg fun h => hbuilt h.1]

/-- Only a limit of 1 is sent as one. -/
theorem limitText_eq_one_iff {limit : Option ℤ} :
    limitText limit = limitText (some 1) ↔ limit = some 1 := by
  constructor
  · intro h
    cases limit with
    | none => cases h
    | some n =>
      unfold limitText at h
      by_cases hn : n = 0
      · rw [hn] at h
        cases h
      · simp only [hn, if_false, one_ne_zero] at h
        exact congrArg some (intText_injective (List.append_cancel_left h))
  · rintro rfl
    rfl

end Builder

/-! ### Requests as the first one -/

/-- Every request sends the text that it would send as the first one, and returns what it would
return. -/
def RunsUnchanged (b : Builder) (requests : List Request) : Prop :=
  ∀ l r, l ++ [r] <+: requests → (b.after l).sentText r = b.sentText r ∧
    ∀ db, ((b.after l).send db r).1 = (b.send db r).1

/-- No request comes after one that disturbs it: `all()` after `first()`, unless the limit is 1
anyway, and `count()` after either of them, unless there is no `select()` or no condition. -/
structure Undisturbed (b : Builder) (requests : List Request) : Prop where
  limit : b.limitValue = some 1 ∨ ∀ l, l ++ [.all] <+: requests → .first ∉ l
  where_ : (b.withItems = [] ∨ b.whereStr = []) ∨
    ∀ l, l ++ [.count] <+: requests → .all ∉ l ∧ .first ∉ l

/-- The text of a request decides whether it is as the first one. -/
theorem runsUnchanged_iff_text (b : Builder) (requests : List Request) :
    RunsUnchanged b requests ↔
      ∀ l r, l ++ [r] <+: requests → (b.after l).sentText r = b.sentText r := by
  constructor
  · exact fun h l r hl => (h l r hl).1
  · intro h l r hl
    refine ⟨h l r hl, fun db => ?_⟩
    rw [Builder.send_fst, Builder.send_fst, h l r hl]
    exact Builder.answerTo_congr (b.sameFixed_after l) db r _

theorem whereOf_eq_nil_iff {condition : List Char} :
    Builder.whereOf condition = [] ↔ condition = [] := by
  unfold Builder.whereOf
  split
  · next h => exact iff_of_true rfl h
  · next h => exact iff_of_false (by simp) h

/-- `count()` sends its condition, if there is one. -/
theorem buildCountGql_eq_iff {b b' : Builder} (h : b'.cls = b.cls)
    (hwhere : b'.whereStr = [] ∨ b'.whereStr = b.whereStr) :
    b'.buildCountGql = b.buildCountGql ↔ b'.whereStr = b.whereStr := by
  unfold Builder.buildCountGql Builder.baseNode Builder.var
  rw [h, List.append_cancel_left_eq, List.append_cancel_left_eq, List.append_cancel_right_eq]
  constructor
  · intro heq
    refine hwhere.elim (fun hnil => ?_) id
    rw [hnil] at heq ⊢
    exact (whereOf_eq_nil_iff.mp heq.symm).symm
  · intro heq
    rw [heq]

/-- **Every request is as the first one exactly when none comes after one that disturbs it.** -/
theorem runsUnchanged_iff (b : Builder) (requests : List Request) :
    RunsUnchanged b requests ↔ Undisturbed b requests := by
  rw [runsUnchanged_iff_text]
  -- what each kind of request sends after others
  have hall (l : List Request) : (b.after l).sentText .all = b.sentText .all ↔
      .first ∉ l ∨ b.limitValue = some 1 := by
    have hlast := b.after_buildGql []
    have hnow := b.after_buildGql l
    rw [Builder.sentText, Builder.sentText, hnow]
    change _ = ((b.after []).buildGql).1 ↔ _
    rw [hlast, List.append_cancel_left_eq]
    by_cases hfirst : .first ∈ l
    · simp only [hfirst, if_true, List.not_mem_nil, if_false, not_true, false_or]
      exact eq_comm.trans Builder.limitText_eq_one_iff
    · simp [hfirst]
  have hcount (l : List Request) : (b.after l).sentText .count = b.sentText .count ↔
      (.all ∉ l ∧ .first ∉ l) ∨ b.withItems = [] ∨ b.whereStr = [] := by
    have hwhere := b.after_whereStr l
    rw [Builder.sentText, Builder.sentText]
    split at hwhere
    · next hmoved =>
      rw [buildCountGql_eq_iff (b.sameFixed_after l).1 (.inl hwhere), hwhere]
      have hbuilt : ¬ (.all ∉ l ∧ .first ∉ l) := by
        rw [not_and_or, not_not, not_not]
        exact hmoved.1
      constructor
      · exact fun h => .inr (.inr h.symm)
      · rintro (h | h | h)
        · exact absurd h hbuilt
        · exact absurd h hmoved.2
        · exact h.symm
    · next hkept =>
      rw [buildCountGql_eq_iff (b.sameFixed_after l).1 (.inr hwhere), hwhere]
      rw [not_and_or, not_or, not_not] at hkept
      exact iff_of_true rfl (hkept.imp_right .inl)
  constructor
  · intro h
    constructor
    · by_cases hone : b.limitValue = some 1
      · exact .inl hone
      · exact .inr fun l hl => ((hall l).mp (h l .all hl)).resolve_right hone
    · by_cases hkeeps : b.withItems = [] ∨ b.whereStr = []
      · exact .inl hkeeps
      · exact .inr fun l hl => ((hcount l).mp (h l .count hl)).resolve_right hkeeps
  · intro h l r hl
    cases r with
    | all => exact (hall l).mpr (h.limit.symm.imp_left fun h => h l hl)
    | first => exact b.after_take_buildGql l
    | count => exact (hcount l).mpr (h.where_.symm.imp_left fun h => h l hl)

/-- `where(lambda p: p.age > 20)`, and `select(name=…)` after it. -/
def adultNames : Builder :=
  ((Builder.new personClass).where_ ageLambda).selectItems [("name", ['p', '.', 'n'])]

/-- `first()` limits a later `all()`, and `all()` takes the condition from a later `count()`. -/
theorem not_runsUnchanged :
    ¬ RunsUnchanged (Builder.new personClass) [.first, .all] ∧
      ¬ RunsUnchanged adultNames [.all, .count] := by
  constructor
  · intro h
    have htext := (h [.first] .all List.prefix_rfl).1
    have hlast := (Builder.new personClass).after_buildGql []
    have hnow := (Builder.new personClass).after_buildGql [.first]
    have heq := hnow.symm.trans (htext.trans hlast)
    rw [List.append_cancel_left_eq] at heq
    exact absurd heq.symm (by decide)
  · intro h
    have htext := (h [.all] .count List.prefix_rfl).1
    have hmoved : (adultNames.after [.all]).whereStr = [] := by
      rw [Builder.after_whereStr]
      exact if_pos ⟨.inl List.mem_cons_self, by simp [adultNames, Builder.selectItems]⟩
    have hcls := (adultNames.sameFixed_after [.all]).1
    have hsame := (buildCountGql_eq_iff hcls (.inl hmoved)).mp htext
    rw [hmoved] at hsame
    exact absurd hsame (by decide)

end KuzuEventBus.Sdk
