import Mathlib.Data.List.Basic
import Mathlib.Data.List.Infix
import Mathlib.Tactic.TypeStar

/-!
# Runs of a transition system

A transition system is a partial step function of a state and an action.  A run takes the steps of
a list of actions; a property of runs is about its states, or about its steps.

## Main definitions

* `run` — the state after a list of actions, if every one of them is enabled.
* `Always` — a property of every state a run goes through.
* `EachStep` — a relation every step of a run is in.

## Main results

* `always_of_invariant` — what holds at first and is preserved holds in every state.
* `always_and_eachStep_iff` — **the rule for exact conditions**: when, in states with an invariant,
  a step keeps what is asked for exactly under a condition, and then keeps the invariant, a run has
  what is asked for exactly when its steps meet the condition.
* `eachStep_iff`, `eachStep_congr` — the rules for a property of the steps alone.
* `eachStep_of_eachStep`, `always_of_eachStep` — the rules for a condition that is enough.
-/

namespace Runs

variable {σ α : Type*} {step : σ → α → Option σ}

/-- The state after the actions; there is none when an action is not enabled. -/
def run (step : σ → α → Option σ) : σ → List α → Option σ
  | s, [] => some s
  | s, a :: l => (step s a).bind fun s' => run step s' l

/-- Every state the run goes through has the property. -/
def Always (step : σ → α → Option σ) (P : σ → Prop) (s : σ) (l : List α) : Prop :=
  ∀ l', l' <+: l → ∀ s', run step s l' = some s' → P s'

/-- Every step of the run is in the relation. -/
def EachStep (step : σ → α → Option σ) (R : σ → α → σ → Prop) (s : σ) (l : List α) : Prop :=
  ∀ l' a, l' ++ [a] <+: l → ∀ s₁ s₂, run step s l' = some s₁ → step s₁ a = some s₂ → R s₁ a s₂

@[simp] theorem run_nil (s : σ) : run step s [] = some s := rfl

theorem run_cons (s : σ) (a : α) (l : List α) :
    run step s (a :: l) = (step s a).bind fun s' => run step s' l := rfl

theorem run_append (s : σ) (l₁ l₂ : List α) :
    run step s (l₁ ++ l₂) = (run step s l₁).bind fun s' => run step s' l₂ := by
  induction l₁ generalizing s with
  | nil => rfl
  | cons a l₁ ih =>
    rw [List.cons_append, run_cons, run_cons, Option.bind_assoc]
    exact congrArg _ (funext ih)

theorem always_nil {P : σ → Prop} {s : σ} : Always step P s [] ↔ P s := by
  unfold Always
  constructor
  · intro h
    exact h [] List.prefix_rfl s rfl
  · intro h l' hl' s' hrun
    rw [List.prefix_nil.1 hl', run_nil] at hrun
    cases hrun
    exact h

theorem always_cons {P : σ → Prop} {s : σ} {a : α} {l : List α} :
    Always step P s (a :: l) ↔ P s ∧ ∀ s', step s a = some s' → Always step P s' l := by
  unfold Always
  constructor
  · intro h
    refine ⟨h [] (List.nil_prefix) s rfl, fun s' hs' l' hl' s'' hrun => ?_⟩
    refine h (a :: l') (List.prefix_cons_inj a |>.2 hl') s'' ?_
    rw [run_cons, hs']
    exact hrun
  · rintro ⟨hs, h⟩ l' hl' s' hrun
    rcases List.prefix_cons_iff.1 hl' with rfl | ⟨l'', rfl, hl''⟩
    · cases hrun
      exact hs
    · rw [run_cons, Option.bind_eq_some_iff] at hrun
      obtain ⟨s₁, hstep, hrun⟩ := hrun
      exact h s₁ hstep l'' hl'' s' hrun

theorem eachStep_nil {R : σ → α → σ → Prop} {s : σ} : EachStep step R s [] := by
  intro l' a hl'
  simp at hl'

theorem eachStep_cons {R : σ → α → σ → Prop} {s : σ} {a : α} {l : List α} :
    EachStep step R s (a :: l) ↔
      ∀ s', step s a = some s' → R s a s' ∧ EachStep step R s' l := by
  unfold EachStep
  constructor
  · intro h s' hs'
    refine ⟨h [] a ⟨l, rfl⟩ s s' rfl hs', fun l' b hl' s₁ s₂ hrun hstep => ?_⟩
    refine h (a :: l') b (List.prefix_cons_inj a |>.2 hl') s₁ s₂ ?_ hstep
    rw [run_cons, hs']
    exact hrun
  · intro h l' b hl' s₁ s₂ hrun hstep
    rcases l' with _ | ⟨a', l'⟩
    · obtain ⟨t, ht⟩ := hl'
      obtain ⟨rfl, -⟩ := List.cons.inj ht
      cases hrun
      exact (h s₂ hstep).1
    · obtain ⟨rfl, hrest⟩ := List.cons_prefix_cons.1 hl'
      rw [run_cons, Option.bind_eq_some_iff] at hrun
      obtain ⟨s', hs', hrun⟩ := hrun
      exact (h s' hs').2 l' b hrest s₁ s₂ hrun hstep

/-- What all actions of a run have in common holds at each step. -/
theorem eachStep_of_forall_mem {Q : α → Prop} {s : σ} {l : List α} (h : ∀ a ∈ l, Q a) :
    EachStep step (fun _ a _ => Q a) s l :=
  fun l' a hl' _ _ _ _ => h a (hl'.subset (List.mem_append_right l' List.mem_cons_self))

/-- A relation that can be decided can be checked along a run. -/
instance decidableEachStep {R : σ → α → σ → Prop} [∀ s a s', Decidable (R s a s')] :
    ∀ s l, Decidable (EachStep step R s l)
  | _, [] => isTrue eachStep_nil
  | s, a :: l =>
    haveI : ∀ o : Option σ, Decidable (∀ s', o = some s' → R s a s' ∧ EachStep step R s' l)
      | none => isTrue nofun
      | some s' =>
        haveI := decidableEachStep (R := R) s' l
        decidable_of_iff (R s a s' ∧ EachStep step R s' l) (by simp)
    decidable_of_iff _ eachStep_cons.symm

/-- A run has a step that is not in the relation when its last one is not. -/
theorem not_eachStep_concat {R : σ → α → σ → Prop} {s : σ} {l : List α} {a : α}
    (hrun : (run step s l).isSome) (hstep : (step ((run step s l).get hrun) a).isSome)
    (hR : ¬ R ((run step s l).get hrun) a ((step ((run step s l).get hrun) a).get hstep)) :
    ¬ EachStep step R s (l ++ [a]) :=
  fun h => hR (h l a List.prefix_rfl _ _ (Option.some_get hrun).symm (Option.some_get hstep).symm)

/-- A property does not hold in every state of a run when the last one does not have it. -/
theorem not_always_of_last {P : σ → Prop} [DecidablePred P] {s : σ} {l : List α}
    (h : (run step s l).any (fun s' => ¬ P s') = true) : ¬ Always step P s l := by
  obtain ⟨s', hs', hP⟩ := (Option.any_eq_true _ _).mp h
  exact fun halways => of_decide_eq_true hP (halways l List.prefix_rfl s' hs')

/-- What holds at first and is preserved by every step holds in every state. -/
theorem always_of_invariant {P : σ → Prop}
    (hstep : ∀ s a s', P s → step s a = some s' → P s') {s : σ} (hs : P s) (l : List α) :
    Always step P s l := by
  induction l generalizing s with
  | nil => exact always_nil.2 hs
  | cons a l ih => exact always_cons.2 ⟨hs, fun s' hs' => ih (hstep s a s' hs hs')⟩

/-- **The rule for exact conditions.** -/
theorem always_and_eachStep_iff {Inv P : σ → Prop} {R ok : σ → α → σ → Prop}
    (hP : ∀ s, Inv s → P s)
    (hstep : ∀ s a s', Inv s → step s a = some s' → (ok s a s' ↔ P s' ∧ R s a s'))
    (hinv : ∀ s a s', Inv s → step s a = some s' → ok s a s' → Inv s')
    {s : σ} (hs : Inv s) (l : List α) :
    (Always step P s l ∧ EachStep step R s l) ↔ EachStep step ok s l := by
  induction l generalizing s with
  | nil => exact iff_of_true ⟨always_nil.2 (hP s hs), eachStep_nil⟩ eachStep_nil
  | cons a l ih =>
    rw [always_cons, eachStep_cons, eachStep_cons]
    constructor
    · rintro ⟨⟨-, halways⟩, heach⟩ s' hs'
      obtain ⟨hR, heach⟩ := heach s' hs'
      have hnext : P s' := halways s' hs' [] List.nil_prefix s' rfl
      have hok := (hstep s a s' hs hs').2 ⟨hnext, hR⟩
      exact ⟨hok, (ih (hinv s a s' hs hs' hok)).1 ⟨halways s' hs', heach⟩⟩
    · intro h
      have htail : ∀ s', step s a = some s' →
          R s a s' ∧ Always step P s' l ∧ EachStep step R s' l := by
        intro s' hs'
        obtain ⟨hok, heach⟩ := h s' hs'
        exact ⟨((hstep s a s' hs hs').1 hok).2, (ih (hinv s a s' hs hs' hok)).2 heach⟩
      exact ⟨⟨hP s hs, fun s' hs' => (htail s' hs').2.1⟩,
        fun s' hs' => ⟨(htail s' hs').1, (htail s' hs').2.2⟩⟩

/-- The rule for a property of the states alone. -/
theorem always_iff {Inv P : σ → Prop} {ok : σ → α → σ → Prop} (hP : ∀ s, Inv s → P s)
    (hstep : ∀ s a s', Inv s → step s a = some s' → (ok s a s' ↔ P s'))
    (hinv : ∀ s a s', Inv s → step s a = some s' → ok s a s' → Inv s')
    {s : σ} (hs : Inv s) (l : List α) : Always step P s l ↔ EachStep step ok s l := by
  rw [← always_and_eachStep_iff (R := fun _ _ _ => True) hP (by simpa using hstep) hinv hs l]
  exact (and_iff_left fun _ _ _ _ _ _ _ => trivial).symm

/-- The rule for a property of the steps alone, in states with an invariant that every step keeps.
-/
theorem eachStep_iff {Inv : σ → Prop} {R ok : σ → α → σ → Prop}
    (hstep : ∀ s a s', Inv s → step s a = some s' → (ok s a s' ↔ R s a s'))
    (hinv : ∀ s a s', Inv s → step s a = some s' → Inv s') {s : σ} (hs : Inv s) (l : List α) :
    EachStep step R s l ↔ EachStep step ok s l := by
  induction l generalizing s with
  | nil => exact iff_of_true eachStep_nil eachStep_nil
  | cons a l ih =>
    rw [eachStep_cons, eachStep_cons]
    refine forall₂_congr fun s' hs' => ?_
    exact and_congr (hstep s a s' hs hs').symm (ih (hinv s a s' hs hs'))

/-- Two conditions that come to the same in steps of a kind come to the same in runs of such steps.
-/
theorem eachStep_congr {Inv : σ → Prop} {F R ok : σ → α → σ → Prop}
    (hstep : ∀ s a s', Inv s → step s a = some s' → F s a s' → (R s a s' ↔ ok s a s'))
    (hinv : ∀ s a s', Inv s → step s a = some s' → Inv s') {s : σ} (hs : Inv s) {l : List α}
    (hF : EachStep step F s l) : EachStep step R s l ↔ EachStep step ok s l := by
  induction l generalizing s with
  | nil => exact iff_of_true eachStep_nil eachStep_nil
  | cons a l ih =>
    rw [eachStep_cons] at hF ⊢
    rw [eachStep_cons]
    refine forall₂_congr fun s' hs' => ?_
    obtain ⟨hkind, htail⟩ := hF s' hs'
    exact and_congr (hstep s a s' hs hs' hkind) (ih (hinv s a s' hs hs') htail)

/-- The rule for a sufficient condition on the steps: when a step that meets it keeps an invariant
and is in a relation, every step of a run whose steps meet it is in the relation. -/
theorem eachStep_of_eachStep {Inv : σ → Prop} {R ok : σ → α → σ → Prop}
    (hR : ∀ s a s', Inv s → step s a = some s' → ok s a s' → R s a s')
    (hinv : ∀ s a s', Inv s → step s a = some s' → ok s a s' → Inv s')
    {s : σ} (hs : Inv s) (l : List α) (h : EachStep step ok s l) : EachStep step R s l := by
  induction l generalizing s with
  | nil => exact eachStep_nil
  | cons a l ih =>
    rw [eachStep_cons] at h ⊢
    intro s' hs'
    obtain ⟨hok, htail⟩ := h s' hs'
    exact ⟨hR s a s' hs hs' hok, ih (hinv s a s' hs hs' hok) htail⟩

/-- The rule for a sufficient condition on the steps, and a property of the states. -/
theorem always_of_eachStep {Inv P : σ → Prop} {ok : σ → α → σ → Prop} (hP : ∀ s, Inv s → P s)
    (hinv : ∀ s a s', Inv s → step s a = some s' → ok s a s' → Inv s')
    {s : σ} (hs : Inv s) (l : List α) (h : EachStep step ok s l) : Always step P s l := by
  induction l generalizing s with
  | nil => exact always_nil.2 (hP s hs)
  | cons a l ih =>
    rw [eachStep_cons] at h
    refine always_cons.2 ⟨hP s hs, fun s' hs' => ?_⟩
    obtain ⟨hok, htail⟩ := h s' hs'
    exact ih (hinv s a s' hs hs' hok) htail

end Runs
