import Mathlib.Data.List.Basic
import Mathlib.Order.Nat

/-!
# Predictive parsing

Parsers over a list of tokens, and the grammars they implement.  A grammar is a
relation (`Phrase`) between the tokens of a phrase and its meaning; phrases are
put together like parsers are, with an alternative wherever a parser looks ahead.
A parser is related to a grammar in three ways, each of which is checked rule by
rule, along the structure of the parser:

* `Reads` — what the parser consumes is a phrase with the meaning it returns;
* `Accepts` — the parser consumes a phrase it is given, and exactly that, unless
  what comes after it is something the phrase could go on with;
* `Agree` — two parsers that call each other's rules at different depths do the
  same on short inputs.

## Main definitions

* `Parser`, `expectMap`, `acceptMap`, `ifNext`, `optionalAt`, `loopWhile` — parsers.
* `Phrase`, `Phrase.token`, `Phrase.either`, `Phrase.optional`, `Phrase.loop` — grammars.
* `Phrase.Ensures` — what the meaning of a phrase satisfies, given what its tokens satisfy.
* `Phrase.Ends` — what the last token of a phrase satisfies.
* `Phrase.Scans` — what a scan over the tokens of a phrase does to its state.
* `Phrase.Within` — what holds of all tokens of a phrase together.
* `Avoids`, `Begins`, `Leads` — lookahead: what a text begins with.

## Main results

* `Reads.bind`, `Accepts.bind`, `Agree.bind` — sequencing.
* `Phrase.loop_map` — a loop over images of the states of another loop.
* `loopWhile_eq` — the loop is the one its body and condition say.
* `loopWhile_of_loop` — a loop takes the rounds in front of it.
* `Reads.loopWhile`, `Accepts.loopWhile`, `Agree.loopWhile` — loops.
-/

namespace Parsing

/-- A parser: the state is the tokens that remain. -/
abbrev Parser (τ ε : Type) := StateT (List τ) (Except ε)

variable {τ ε α β σ : Type}

/-! ### Parsers -/

/-- The next token, which `f` must accept. -/
def expectMap (f : τ → Option α) (err : Option τ → ε) : Parser τ ε α
  | [] => .error (err none)
  | t :: ts =>
    match f t with
    | some a => .ok (a, ts)
    | none => .error (err (some t))

/-- The next token, if `f` accepts it. -/
def acceptMap (f : τ → Option α) : Parser τ ε (Option α)
  | [] => .ok (none, [])
  | t :: ts =>
    match f t with
    | some a => .ok (some a, ts)
    | none => .ok (none, t :: ts)

/-- The tokens that are `t`, for `expectMap`. -/
def only [DecidableEq τ] (t u : τ) : Option Unit := if u = t then some () else none

/-- The token `t`. -/
def expect [DecidableEq τ] (t : τ) (err : Option τ → ε) : Parser τ ε Unit := expectMap (only t) err

/-- If the next token is `t`, consume it and go on with `p`, else with `q`. -/
def ifNext [DecidableEq τ] (t : τ) (p q : Parser τ ε α) : Parser τ ε α := fun ts =>
  if ts.head? = some t then p ts.tail else q ts

/-- Whether the next token is `t`; if so it is consumed. -/
def accept [DecidableEq τ] (t : τ) : Parser τ ε Bool := ifNext t (pure true) (pure false)

/-- `p`, if the next token is `t`. -/
def optionalAt [DecidableEq τ] (t : τ) (p : Parser τ ε α) : Parser τ ε (Option α) := fun ts =>
  if ts.head? = some t then (some <$> p) ts else .ok (none, ts)

/-- The loop of `loopWhile`, at most `fuel` times. -/
def loopUpTo (cond : σ → Option τ → Bool) (body : σ → Parser τ ε σ) : ℕ → σ → Parser τ ε σ
  | 0, s => pure s
  | fuel + 1, s => fun ts =>
    if cond s ts.head? then (body s >>= loopUpTo cond body fuel) ts else .ok (s, ts)

/-- Run `body` as long as the state and the next token satisfy `cond`.  The body consumes
tokens, so it runs at most once for each of them. -/
def loopWhile (cond : σ → Option τ → Bool) (body : σ → Parser τ ε σ) (s : σ) : Parser τ ε σ :=
  fun ts => loopUpTo cond body (ts.length + 1) s ts

theorem bind_apply (p : Parser τ ε α) (f : α → Parser τ ε β) (ts : List τ) :
    (p >>= f) ts = match p ts with
      | .ok (a, rest) => f a rest
      | .error e => .error e := by
  change (p ts >>= fun r => f r.1 r.2) = _
  cases p ts <;> rfl

theorem map_apply (f : α → β) (p : Parser τ ε α) (ts : List τ) :
    (f <$> p) ts = match p ts with
      | .ok (a, rest) => .ok (f a, rest)
      | .error e => .error e := by
  change (p ts >>= fun r => pure (f r.1, r.2)) = _
  cases p ts <;> rfl

/-- What a sequence that returns went through. -/
theorem bind_eq_ok {p : Parser τ ε α} {f : α → Parser τ ε β} {ts rest : List τ} {b : β}
    (h : (p >>= f) ts = .ok (b, rest)) :
    ∃ a mid, p ts = .ok (a, mid) ∧ f a mid = .ok (b, rest) := by
  rw [bind_apply] at h
  cases hp : p ts with
  | error e => rw [hp] at h; cases h
  | ok r => rw [hp] at h; exact ⟨r.1, r.2, rfl, h⟩

theorem bind_of_ok {p : Parser τ ε α} {f : α → Parser τ ε β} {ts mid : List τ} {a : α}
    (h : p ts = .ok (a, mid)) : (p >>= f) ts = f a mid := by
  rw [bind_apply, h]

/-- Another token than the expected one. -/
theorem expect_of_ne [DecidableEq τ] {t u : τ} (h : u ≠ t) (err : Option τ → ε) (ts : List τ) :
    expect t err (u :: ts) = .error (err (some u)) := by
  simp [expect, expectMap, only, h]

/-! ### Phrases -/

/-- A grammar: the tokens of a phrase and its meaning. -/
def Phrase (τ α : Type) := List τ → α → Prop

namespace Phrase

/-- The empty phrase, and one phrase after another. -/
instance : Monad (Phrase τ) where
  pure a := fun xs b => xs = [] ∧ b = a
  bind D E := fun xs b => ∃ ys zs a, xs = ys ++ zs ∧ D ys a ∧ E a zs b

/-- The token `t`. -/
def token (t : τ) : Phrase τ Unit := fun xs _ => xs = [t]

/-- A token that `f` accepts. -/
def tokenMap (f : τ → Option α) : Phrase τ α := fun xs a => ∃ t, xs = [t] ∧ f t = some a

/-- A phrase, or nothing. -/
def optional (D : Phrase τ α) : Phrase τ (Option α) := fun xs o =>
  (xs = [] ∧ o = none) ∨ ∃ a, o = some a ∧ D xs a

/-- A phrase of one of two kinds. -/
def either (D E : Phrase τ α) : Phrase τ α := fun xs a => D xs a ∨ E xs a

/-- `t`, or nothing. -/
def flag (t : τ) : Phrase τ Bool :=
  either (token t >>= fun _ => pure true) (pure false)

/-- The empty phrase, on a condition. -/
def guard (P : Prop) : Phrase τ Unit := fun xs _ => xs = [] ∧ P

/-- Any number of phrases, each of which takes a state to the next one. -/
inductive loop (D : σ → Phrase τ σ) : σ → List τ → σ → Prop
  /-- No more phrases. -/
  | stop (s : σ) : loop D s [] s
  /-- One phrase, and the rest. -/
  | step {s s' s'' : σ} {xs ys : List τ} (h : D s xs s') (hrest : loop D s' ys s'') :
      loop D s (xs ++ ys) s''

/-- A loop after a loop. -/
theorem loop.append {D : σ → Phrase τ σ} {s s' s'' : σ} {xs ys : List τ} (h : loop D s xs s')
    (h' : loop D s' ys s'') : loop D s (xs ++ ys) s'' := by
  induction h with
  | stop s => exact h'
  | step hD _ ih =>
    rw [List.append_assoc]
    exact .step hD (ih h')

/-- The last phrase of a loop, if there is one. -/
theorem loop.last {D : σ → Phrase τ σ} {s s' : σ} {xs : List τ} (h : loop D s xs s') :
    (xs = [] ∧ s' = s) ∨
      ∃ ys zs mid, xs = ys ++ zs ∧ loop D s ys mid ∧ D mid zs s' := by
  induction h with
  | stop s => exact .inl ⟨rfl, rfl⟩
  | @step s s₁ s₂ xs ys hD _ ih =>
    right
    rcases ih with ⟨rfl, rfl⟩ | ⟨us, vs, mid, rfl, hloop, hlast⟩
    · exact ⟨[], xs, s, List.append_nil xs, .stop s, hD⟩
    · exact ⟨xs ++ us, vs, mid, (List.append_assoc xs us vs).symm, .step hD hloop, hlast⟩

/-- A phrase that begins with a token begins with it whatever follows. -/
theorem head?_bind {D : Phrase τ α} {E : α → Phrase τ β} {t : τ}
    (hD : ∀ xs a, D xs a → xs.head? = some t) {xs : List τ} {b : β} (h : (D >>= E) xs b) :
    xs.head? = some t := by
  obtain ⟨ys, zs, a, rfl, hys, -⟩ := h
  rw [List.head?_append, hD ys a hys]
  rfl

theorem head?_token_bind {t : τ} {E : Unit → Phrase τ β} {xs : List τ} {b : β}
    (h : (token t >>= E) xs b) : xs.head? = some t :=
  head?_bind (fun _ _ hxs => by rw [hxs]; rfl) h

theorem ne_nil_of_head? {t : τ} {xs : List τ} (h : xs.head? = some t) : xs ≠ [] := by
  rintro rfl
  cases h

/-- A loop whose states are the images of the states of another loop goes where that one goes,
if each of its phrases does. -/
theorem loop_map {ρ : Type} {D : σ → Phrase τ σ} {E : ρ → Phrase τ ρ} {f : σ → ρ}
    (h : ∀ s xs r, E (f s) xs r ↔ ∃ s', D s xs s' ∧ f s' = r) {s : σ} {xs : List τ} {r : ρ} :
    loop E (f s) xs r ↔ ∃ s', loop D s xs s' ∧ f s' = r := by
  constructor
  · intro hE
    obtain ⟨q, hq⟩ : ∃ q, q = f s := ⟨f s, rfl⟩
    rw [← hq] at hE
    induction hE generalizing s with
    | stop q => exact ⟨s, .stop s, hq.symm⟩
    | step hE _ ih =>
      rw [hq] at hE
      obtain ⟨s₁, hD, hs₁⟩ := (h s _ _).mp hE
      obtain ⟨s', hloop, hs'⟩ := ih hs₁.symm
      exact ⟨s', .step hD hloop, hs'⟩
  · rintro ⟨s', hD, rfl⟩
    induction hD with
    | stop s => exact .stop (f s)
    | step hD _ ih => exact .step ((h _ _ _).mpr ⟨_, hD, rfl⟩) ih

/-! ### What phrases mean -/

/-- A phrase whose tokens all satisfy `P` has a meaning that satisfies `Q`. -/
def Ensures (P : τ → Prop) (D : Phrase τ α) (Q : α → Prop) : Prop :=
  ∀ ⦃xs : List τ⦄ ⦃a : α⦄, (∀ t ∈ xs, P t) → D xs a → Q a

section
variable {P : τ → Prop} {D : Phrase τ α} {Q : α → Prop} {R : β → Prop}

theorem Ensures.pure {a : α} (h : Q a) : Ensures P (pure a) Q := by
  intro xs b _ hD
  obtain ⟨-, rfl⟩ := hD
  exact h

theorem Ensures.bind {E : α → Phrase τ β} (hD : Ensures P D Q)
    (hE : ∀ a, Q a → Ensures P (E a) R) : Ensures P (D >>= E) R := by
  intro xs b hP h
  obtain ⟨ys, zs, a, rfl, hys, hzs⟩ := h
  have ha : Q a := hD (fun t ht => hP t (List.mem_append_left _ ht)) hys
  exact hE a ha (fun t ht => hP t (List.mem_append_right _ ht)) hzs

theorem Ensures.any (D : Phrase τ α) : Ensures P D fun _ => True := fun _ _ _ _ => trivial

theorem Ensures.tokenMap {f : τ → Option α} (h : ∀ t, P t → ∀ a, f t = some a → Q a) :
    Ensures P (tokenMap f) Q := by
  intro xs a hP hD
  obtain ⟨t, rfl, hf⟩ := hD
  exact h t (hP t List.mem_cons_self) a hf

theorem Ensures.optional (hD : Ensures P D Q) : Ensures P (optional D) fun o => ∀ a ∈ o, Q a := by
  intro xs o hP h a ha
  rcases h with ⟨-, rfl⟩ | ⟨b, rfl, hb⟩
  · cases ha
  · cases ha
    exact hD hP hb

theorem Ensures.either {D' : Phrase τ α} (hD : Ensures P D Q) (hD' : Ensures P D' Q) :
    Ensures P (either D D') Q := fun _ _ hP h => h.elim (hD hP ·) (hD' hP ·)

/-- What each phrase of a loop preserves, the loop preserves. -/
theorem Ensures.loop {D : σ → Phrase τ σ} {I : σ → Prop} (h : ∀ s, I s → Ensures P (D s) I) {s : σ}
    (hs : I s) : Ensures P (loop D s) I := by
  intro xs s' hP hloop
  induction hloop with
  | stop s => exact hs
  | step hD _ ih =>
    apply ih
    · exact h _ hs (fun t ht => hP t (List.mem_append_left _ ht)) hD
    · exact fun t ht => hP t (List.mem_append_right _ ht)

end

end Phrase

/-! ### What phrases end with -/

/-- A phrase has tokens, the last of which satisfies `P`. -/
def Phrase.Ends (P : τ → Prop) (D : Phrase τ α) : Prop :=
  ∀ ⦃xs : List τ⦄ ⦃a : α⦄, D xs a → ∃ t ∈ xs.getLast?, P t

section
variable {P : τ → Prop}

theorem Phrase.Ends.bind {D : Phrase τ α} {E : α → Phrase τ β} (h : ∀ a, Ends P (E a)) :
    Ends P (D >>= E) := by
  rintro xs b ⟨ys, zs, a, rfl, -, hzs⟩
  obtain ⟨t, ht, hP⟩ := h a hzs
  refine ⟨t, ?_, hP⟩
  rw [List.getLast?_append, ht]
  rfl

theorem Phrase.Ends.token {t : τ} (h : P t) : Ends P (token t) := by
  rintro xs u rfl
  exact ⟨t, rfl, h⟩

/-- A phrase whose rest has no tokens, or ends as it should. -/
theorem Phrase.Ends.bind_of_nil {D : Phrase τ α} {E : α → Phrase τ β} (hD : Ends P D)
    (h : ∀ a xs b, E a xs b → xs = [] ∨ ∃ t ∈ xs.getLast?, P t) : Ends P (D >>= E) := by
  rintro xs b ⟨ys, zs, a, rfl, hys, hzs⟩
  rcases h a zs b hzs with rfl | ⟨t, ht, hP⟩
  · rw [List.append_nil]
    exact hD hys
  · refine ⟨t, ?_, hP⟩
    rw [List.getLast?_append, ht]
    rfl

theorem Phrase.Ends.bind_pure {D : Phrase τ α} {f : α → β} (hD : Ends P D) :
    Ends P (D >>= fun a => pure (f a)) :=
  hD.bind_of_nil fun _ _ _ h => .inl h.1

/-- A loop after a phrase that ends as its rounds do. -/
theorem Phrase.Ends.bind_loop {D : Phrase τ α} {f : α → σ} {E : σ → Phrase τ σ} (hD : Ends P D)
    (hE : ∀ s, Ends P (E s)) : Ends P (D >>= fun a => loop E (f a)) := by
  refine hD.bind_of_nil fun a xs s hloop => ?_
  generalize f a = s₀ at hloop
  induction hloop with
  | stop s => exact .inl rfl
  | @step s s₁ s₂ xs ys hxs hloop ih =>
    right
    rcases ih with rfl | ⟨t, ht, hP⟩
    · rw [List.append_nil]
      exact hE s hxs
    · refine ⟨t, ?_, hP⟩
      rw [List.getLast?_append, ht]
      rfl

end

/-! ### Scans over phrases -/

/-- A scan that steps over the tokens of a phrase goes from a state that satisfies `P` to one
that satisfies `Q` of its meaning. -/
def Phrase.Scans (step : σ → τ → σ) (P : σ → Prop) (D : Phrase τ α) (Q : α → σ → Prop) : Prop :=
  ∀ ⦃xs : List τ⦄ ⦃a : α⦄, D xs a → ∀ s, P s → Q a (xs.foldl step s)

section
variable {step : σ → τ → σ} {P P' : σ → Prop} {D : Phrase τ α} {Q Q' : α → σ → Prop}
  {R : β → σ → Prop}

theorem Phrase.Scans.mono (h : Scans step P D Q) (hP : ∀ s, P' s → P s)
    (hQ : ∀ a s, Q a s → Q' a s) : Scans step P' D Q' :=
  fun _ _ hD s hs => hQ _ _ (h hD s (hP s hs))

theorem Phrase.Scans.pure {a : α} (h : ∀ s, P s → Q a s) : Scans step P (pure a) Q := by
  rintro xs b ⟨rfl, rfl⟩ s hs
  exact h s hs

theorem Phrase.Scans.bind {E : α → Phrase τ β} (hD : Scans step P D Q)
    (hE : ∀ a, Scans step (Q a) (E a) R) : Scans step P (D >>= E) R := by
  rintro xs b ⟨ys, zs, a, rfl, hys, hzs⟩ s hs
  rw [List.foldl_append]
  exact hE a hzs _ (hD hys s hs)

theorem Phrase.Scans.token {t : τ} {Q : σ → Prop} (h : ∀ s, P s → Q (step s t)) :
    Scans step P (token t) fun _ => Q := by
  rintro xs u rfl s hs
  exact h s hs

theorem Phrase.Scans.tokenMap {f : τ → Option α} (h : ∀ t a, f t = some a → ∀ s, P s →
    Q a (step s t)) : Scans step P (tokenMap f) Q := by
  rintro xs a ⟨t, rfl, ht⟩ s hs
  exact h t a ht s hs

theorem Phrase.Scans.optional {Q : Option α → σ → Prop} (hD : Scans step P D fun a => Q (some a))
    (hnone : ∀ s, P s → Q none s) : Scans step P (optional D) Q := by
  rintro xs o (⟨rfl, rfl⟩ | ⟨a, rfl, ha⟩) s hs
  · exact hnone s hs
  · exact hD ha s hs

theorem Phrase.Scans.either {E : Phrase τ α} (hD : Scans step P D Q) (hE : Scans step P E Q) :
    Scans step P (either D E) Q :=
  fun _ _ h s hs => h.elim (hD · s hs) (hE · s hs)

theorem Phrase.Scans.guard {C : Prop} {Q : σ → Prop} (h : C → ∀ s, P s → Q s) :
    Scans step P (guard C) fun _ => Q := by
  rintro xs u ⟨rfl, hC⟩ s hs
  exact h hC s hs

/-- What each phrase of a loop preserves, the loop preserves. -/
theorem Phrase.Scans.loop {ρ : Type} {D : ρ → Phrase τ ρ} {I : ρ → σ → Prop}
    (h : ∀ r, Scans step (I r) (D r) I) (r : ρ) : Scans step (I r) (loop D r) I := by
  intro xs r' hloop
  induction hloop with
  | stop r => exact fun s hs => hs
  | step hD _ ih =>
    intro s hs
    rw [List.foldl_append]
    exact ih _ (h _ hD s hs)

end

/-! ### What holds of the tokens of all phrases -/

/-- A property of lists of tokens that holds of one list after another. -/
structure Phrase.Closed (P : List τ → Prop) : Prop where
  nil : P []
  append : ∀ {xs ys : List τ}, P xs → P ys → P (xs ++ ys)

/-- The tokens of every phrase have the property. -/
def Phrase.Within (P : List τ → Prop) (D : Phrase τ α) : Prop :=
  ∀ ⦃xs : List τ⦄ ⦃a : α⦄, D xs a → P xs

section
variable {P : List τ → Prop} {D : Phrase τ α}

theorem Phrase.Within.pure (hP : Closed P) (a : α) : Within P (pure a : Phrase τ α) := by
  rintro xs b ⟨rfl, -⟩
  exact hP.nil

theorem Phrase.Within.bind (hP : Closed P) {E : α → Phrase τ β} (hD : Within P D)
    (hE : ∀ a, Within P (E a)) : Within P (D >>= E) := by
  rintro xs b ⟨ys, zs, a, rfl, hys, hzs⟩
  exact hP.append (hD hys) (hE a hzs)

theorem Phrase.Within.token {t : τ} (h : P [t]) : Within P (token t) := by
  rintro xs u rfl
  exact h

theorem Phrase.Within.tokenMap {f : τ → Option α} (h : ∀ t a, f t = some a → P [t]) :
    Within P (tokenMap f) := by
  rintro xs a ⟨t, rfl, ht⟩
  exact h t a ht

theorem Phrase.Within.optional (hP : Closed P) (hD : Within P D) : Within P (optional D) := by
  rintro xs o (⟨rfl, -⟩ | ⟨a, -, ha⟩)
  · exact hP.nil
  · exact hD ha

theorem Phrase.Within.either {E : Phrase τ α} (hD : Within P D) (hE : Within P E) :
    Within P (either D E) := fun _ _ h => h.elim (hD ·) (hE ·)

theorem Phrase.Within.flag (hP : Closed P) {t : τ} (h : P [t]) : Within P (flag t) :=
  .either (.bind hP (.token h) fun _ => .pure hP true) (.pure hP false)

theorem Phrase.Within.guard (hP : Closed P) (C : Prop) : Within P (guard C : Phrase τ Unit) := by
  rintro xs u ⟨rfl, -⟩
  exact hP.nil

theorem Phrase.Within.loop (hP : Closed P) {D : σ → Phrase τ σ} (h : ∀ s, Within P (D s)) (s : σ) :
    Within P (loop D s) := by
  intro xs s' hloop
  induction hloop with
  | stop s => exact hP.nil
  | step hD _ ih => exact hP.append (h _ hD) ih

end

/-! ### Reading -/

/-- What the parser consumes is a phrase with the meaning it returns. -/
def Reads (p : Parser τ ε α) (D : Phrase τ α) : Prop :=
  ∀ ⦃ts rest : List τ⦄ ⦃a : α⦄, p ts = .ok (a, rest) → ∃ xs, ts = xs ++ rest ∧ D xs a

theorem Reads.pure (a : α) : Reads (pure a : Parser τ ε α) (pure a) := by
  intro ts rest b h
  cases h
  exact ⟨[], rfl, rfl, rfl⟩

theorem Reads.bind {p : Parser τ ε α} {D : Phrase τ α} {f : α → Parser τ ε β}
    {E : α → Phrase τ β} (hp : Reads p D) (hf : ∀ a, Reads (f a) (E a)) :
    Reads (p >>= f) (D >>= E) := by
  intro ts rest b h
  obtain ⟨a, mid, hpa, hfa⟩ := bind_eq_ok h
  obtain ⟨xs, rfl, hD⟩ := hp hpa
  obtain ⟨ys, rfl, hE⟩ := hf a hfa
  exact ⟨xs ++ ys, (List.append_assoc xs ys rest).symm, xs, ys, a, rfl, hD, hE⟩

theorem Reads.throw (e : ε) (D : Phrase τ α) : Reads (throw e : Parser τ ε α) D := by
  intro ts rest a h
  cases h

/-- A parser whose continuation needs another token may read a phrase only where one follows. -/
theorem Reads.bind_of_more {p : Parser τ ε α} {D : Phrase τ α} {f : α → Parser τ ε β}
    {E : α → Phrase τ β}
    (hp : ∀ ts rest a, p ts = .ok (a, rest) → rest ≠ [] → ∃ xs, ts = xs ++ rest ∧ D xs a)
    (hf : ∀ a, Reads (f a) (E a)) (hend : ∀ a r, f a [] ≠ .ok r) : Reads (p >>= f) (D >>= E) := by
  intro ts rest b h
  obtain ⟨a, mid, hpa, hfa⟩ := bind_eq_ok h
  have hmid : mid ≠ [] := by
    rintro rfl
    exact hend a _ hfa
  obtain ⟨xs, rfl, hD⟩ := hp ts mid a hpa hmid
  obtain ⟨ys, rfl, hE⟩ := hf a hfa
  exact ⟨xs ++ ys, (List.append_assoc xs ys rest).symm, xs, ys, a, rfl, hD, hE⟩

theorem Reads.mono {p : Parser τ ε α} {D D' : Phrase τ α} (hp : Reads p D)
    (h : ∀ xs a, D xs a → D' xs a) : Reads p D' := by
  intro ts rest a hpa
  obtain ⟨xs, hxs, hD⟩ := hp hpa
  exact ⟨xs, hxs, h xs a hD⟩

/-- A parser that runs only on a condition reads phrases that ask for it. -/
theorem Reads.guard_bind {p : Parser τ ε α} {D : Phrase τ α} {P : Prop} (h : P) (hp : Reads p D) :
    Reads p (Phrase.guard P >>= fun _ => D) :=
  hp.mono fun xs _ hD => ⟨[], xs, (), rfl, ⟨rfl, h⟩, hD⟩

theorem Reads.expectMap (f : τ → Option α) (err : Option τ → ε) :
    Reads (expectMap f err) (Phrase.tokenMap f) := by
  intro ts rest a h
  cases ts with
  | nil => cases h
  | cons t ts =>
    unfold Parsing.expectMap at h
    cases hf : f t with
    | none => simp [hf] at h
    | some b =>
      simp only [hf, Except.ok.injEq, Prod.mk.injEq] at h
      obtain ⟨rfl, rfl⟩ := h
      exact ⟨[t], rfl, t, rfl, hf⟩

theorem Reads.acceptMap (f : τ → Option α) :
    Reads (acceptMap f : Parser τ ε (Option α)) (Phrase.optional (Phrase.tokenMap f)) := by
  intro ts rest a h
  cases ts with
  | nil => cases h; exact ⟨[], rfl, .inl ⟨rfl, rfl⟩⟩
  | cons t ts =>
    unfold Parsing.acceptMap at h
    cases hf : f t with
    | none =>
      simp only [hf, Except.ok.injEq, Prod.mk.injEq] at h
      obtain ⟨rfl, rfl⟩ := h
      exact ⟨[], rfl, .inl ⟨rfl, rfl⟩⟩
    | some b =>
      simp only [hf, Except.ok.injEq, Prod.mk.injEq] at h
      obtain ⟨rfl, rfl⟩ := h
      exact ⟨[t], rfl, .inr ⟨b, rfl, t, rfl, hf⟩⟩

section
variable [DecidableEq τ]

theorem Reads.ifNext {t : τ} {p q : Parser τ ε α} {D E : Phrase τ α} (hp : Reads p D)
    (hq : Reads q E) :
    Reads (ifNext t p q) (Phrase.either (Phrase.token t >>= fun _ => D) E) := by
  intro ts rest a h
  unfold Parsing.ifNext at h
  split at h
  · next hhead =>
    obtain ⟨us, rfl⟩ := List.head?_eq_some_iff.mp hhead
    obtain ⟨xs, hxs, hD⟩ := hp h
    exact ⟨t :: xs, by rw [List.cons_append, ← hxs]; rfl, .inl ⟨[t], xs, (), rfl, rfl, hD⟩⟩
  · obtain ⟨xs, hxs, hE⟩ := hq h
    exact ⟨xs, hxs, .inr hE⟩

theorem Reads.accept (t : τ) : Reads (accept t : Parser τ ε Bool) (Phrase.flag t) :=
  Reads.ifNext (Reads.pure true) (Reads.pure false)

theorem Phrase.tokenMap_only {t : τ} {xs : List τ} {u : Unit} :
    Phrase.tokenMap (only t) xs u ↔ Phrase.token t xs u := by
  unfold tokenMap token only
  constructor
  · rintro ⟨t', rfl, h⟩
    split at h
    · next heq => rw [heq]
    · cases h
  · rintro rfl
    exact ⟨t, rfl, if_pos rfl⟩

theorem Reads.expect (t : τ) (err : Option τ → ε) : Reads (expect t err) (Phrase.token t) :=
  (Reads.expectMap (only t) err).mono fun _ _ => Phrase.tokenMap_only.mp

theorem Reads.optionalAt {t : τ} {p : Parser τ ε α} {D : Phrase τ α} (hp : Reads p D) :
    Reads (optionalAt t p) (Phrase.optional D) := by
  intro ts rest o h
  unfold Parsing.optionalAt at h
  split at h
  · rw [map_apply] at h
    cases hpa : p ts with
    | error e => rw [hpa] at h; cases h
    | ok r =>
      rw [hpa] at h
      cases h
      obtain ⟨xs, hxs, hD⟩ := hp hpa
      exact ⟨xs, hxs, .inr ⟨r.1, rfl, hD⟩⟩
  · cases h
    exact ⟨[], rfl, .inl ⟨rfl, rfl⟩⟩

end

theorem Reads.loopUpTo {cond : σ → Option τ → Bool} {body : σ → Parser τ ε σ}
    {D : σ → Phrase τ σ} (hbody : ∀ s t, cond s t = true → Reads (body s) (D s)) (fuel : ℕ) :
    ∀ s, Reads (loopUpTo cond body fuel s) (Phrase.loop D s) := by
  induction fuel with
  | zero =>
    intro s ts rest s' h
    cases h
    exact ⟨[], rfl, .stop s⟩
  | succ fuel ih =>
    intro s ts rest s' h
    unfold Parsing.loopUpTo at h
    split at h
    · next hcond =>
      obtain ⟨s₁, mid, hb, hl⟩ := bind_eq_ok h
      obtain ⟨xs, rfl, hD⟩ := hbody s _ hcond hb
      obtain ⟨ys, rfl, hloop⟩ := ih s₁ hl
      exact ⟨xs ++ ys, (List.append_assoc xs ys rest).symm, .step hD hloop⟩
    · cases h
      exact ⟨[], rfl, .stop s⟩

theorem Reads.loopWhile {cond : σ → Option τ → Bool} {body : σ → Parser τ ε σ}
    {D : σ → Phrase τ σ} (hbody : ∀ s t, cond s t = true → Reads (body s) (D s)) (s : σ) :
    Reads (loopWhile cond body s) (Phrase.loop D s) :=
  fun _ _ _ h => Reads.loopUpTo hbody _ s h

/-! ### Agreeing -/

/-- The parsers do the same on fewer than `k` tokens, and lengthen no input. -/
def Agree (k : ℕ) (p q : Parser τ ε α) : Prop :=
  ∀ ts, ts.length < k → p ts = q ts ∧ ∀ a rest, p ts = .ok (a, rest) → rest.length ≤ ts.length

theorem Agree.of_reads {p : Parser τ ε α} {D : Phrase τ α} (k : ℕ) (hp : Reads p D) :
    Agree k p p := by
  intro ts _
  refine ⟨rfl, fun a rest h => ?_⟩
  obtain ⟨xs, rfl, -⟩ := hp h
  simp

theorem Agree.pure (k : ℕ) (a : α) : Agree k (pure a : Parser τ ε α) (pure a) :=
  .of_reads k (Reads.pure a)

theorem Agree.mono {p q : Parser τ ε α} {k l : ℕ} (h : Agree k p q) (hle : l ≤ k) : Agree l p q :=
  fun ts hts => h ts (lt_of_lt_of_le hts hle)

theorem Agree.apply_eq {p q : Parser τ ε α} {k : ℕ} (h : Agree k p q) {ts : List τ}
    (hts : ts.length < k) : p ts = q ts := (h ts hts).1

theorem Agree.bind {k : ℕ} {p q : Parser τ ε α} {f g : α → Parser τ ε β} (hp : Agree k p q)
    (hf : ∀ a, Agree k (f a) (g a)) : Agree k (p >>= f) (q >>= g) := by
  intro ts hts
  obtain ⟨heq, hlen⟩ := hp ts hts
  rw [bind_apply, bind_apply, ← heq]
  cases hpa : p ts with
  | error e => exact ⟨rfl, fun b rest h => by cases h⟩
  | ok r =>
    have hr := hlen r.1 r.2 hpa
    obtain ⟨heq', hlen'⟩ := hf r.1 r.2 (lt_of_le_of_lt hr hts)
    exact ⟨heq', fun b rest h => (hlen' b rest h).trans hr⟩

theorem Agree.ifNext [DecidableEq τ] {k : ℕ} {t : τ} {p p' q q' : Parser τ ε α}
    (hp : Agree k p p') (hq : Agree k q q') : Agree k (ifNext t p q) (ifNext t p' q') := by
  intro ts hts
  unfold Parsing.ifNext
  split
  · have htail : ts.tail.length ≤ ts.length := by simp
    obtain ⟨heq, hlen⟩ := hp ts.tail (lt_of_le_of_lt htail hts)
    exact ⟨heq, fun a rest h => (hlen a rest h).trans htail⟩
  · exact hq ts hts

theorem Agree.optionalAt [DecidableEq τ] {k : ℕ} {t : τ} {p q : Parser τ ε α} (h : Agree k p q) :
    Agree k (optionalAt t p) (optionalAt t q) := by
  intro ts hts
  obtain ⟨heq, hlen⟩ := h ts hts
  unfold Parsing.optionalAt
  split
  · rw [map_apply, map_apply, ← heq]
    cases hpa : p ts with
    | error e => exact ⟨rfl, fun a rest h => by cases h⟩
    | ok r =>
      refine ⟨rfl, fun a rest h => ?_⟩
      cases h
      exact hlen r.1 r.2 hpa
  · refine ⟨rfl, fun a rest h => ?_⟩
    cases h
    exact le_rfl

theorem Agree.loopUpTo {k : ℕ} {cond : σ → Option τ → Bool} {body body' : σ → Parser τ ε σ}
    (h : ∀ s, Agree k (body s) (body' s)) (fuel : ℕ) :
    ∀ s, Agree k (loopUpTo cond body fuel s) (loopUpTo cond body' fuel s) := by
  induction fuel with
  | zero => intro s; exact .pure k s
  | succ fuel ih =>
    intro s ts hts
    unfold Parsing.loopUpTo
    split
    · exact (h s).bind ih ts hts
    · refine ⟨rfl, fun a rest h => ?_⟩
      cases h
      exact le_rfl

theorem Agree.loopWhile {k : ℕ} {cond : σ → Option τ → Bool} {body body' : σ → Parser τ ε σ}
    (h : ∀ s, Agree k (body s) (body' s)) (s : σ) :
    Agree k (loopWhile cond body s) (loopWhile cond body' s) :=
  fun ts hts => Agree.loopUpTo h _ s ts hts

/-! ### The loop -/

/-- Bodies that consume tokens never exhaust the fuel. -/
theorem loopUpTo_fuel {cond : σ → Option τ → Bool} {body : σ → Parser τ ε σ}
    (hbody : ∀ s ts s' rest, cond s ts.head? = true → body s ts = .ok (s', rest) →
      rest.length < ts.length) :
    ∀ (m n : ℕ) (s : σ) (ts : List τ), ts.length < m → ts.length < n →
      loopUpTo cond body m s ts = loopUpTo cond body n s ts := by
  intro m
  induction m with
  | zero => intro n s ts hm; omega
  | succ m ih =>
    intro n s ts hm hn
    obtain ⟨n, rfl⟩ : ∃ n', n = n' + 1 := ⟨n - 1, by omega⟩
    unfold loopUpTo
    split
    · next hcond =>
      rw [bind_apply, bind_apply]
      cases hb : body s ts with
      | error e => rfl
      | ok r =>
        have hr := hbody s ts r.1 r.2 hcond hb
        exact ih n r.1 r.2 (by omega) (by omega)
    · rfl

/-- **The loop is the one its body and condition say.** -/
theorem loopWhile_eq {cond : σ → Option τ → Bool} {body : σ → Parser τ ε σ}
    (hbody : ∀ s ts s' rest, cond s ts.head? = true → body s ts = .ok (s', rest) →
      rest.length < ts.length) (s : σ) (ts : List τ) : loopWhile cond body s ts =
      if cond s ts.head? then (body s >>= loopWhile cond body) ts else .ok (s, ts) := by
  change (if cond s ts.head? then (body s >>= loopUpTo cond body ts.length) ts
    else .ok (s, ts)) = _
  split
  · next hcond =>
    rw [bind_apply, bind_apply]
    cases hb : body s ts with
    | error e => rfl
    | ok r =>
      have hr := hbody s ts r.1 r.2 hcond hb
      exact loopUpTo_fuel hbody _ _ r.1 r.2 (by omega) (by omega)
  · rfl

/-- A body that reads phrases of at least one token consumes tokens. -/
theorem length_lt_of_reads {p : Parser τ ε α} {D : Phrase τ α} (hp : Reads p D)
    (hne : ∀ xs a, D xs a → xs ≠ []) {ts rest : List τ} {a : α} (h : p ts = .ok (a, rest)) :
    rest.length < ts.length := by
  obtain ⟨xs, rfl, hD⟩ := hp h
  have hpos := List.length_pos_iff.mpr (hne xs a hD)
  rw [List.length_append]
  omega

/-! ### Lookahead -/

/-- The text does not begin with a token that satisfies `c`. -/
def Avoids (c : τ → Bool) (ts : List τ) : Prop := ∀ t ∈ ts.head?, c t = false

/-- The text begins with `t`. -/
def Begins (t : τ) (ts : List τ) : Prop := ts.head? = some t

/-- The text is empty or begins with one of `ks`. -/
def BeginsIn (ks : List τ) (ts : List τ) : Prop := ∀ t ∈ ts.head?, t ∈ ks

theorem avoids_cons {c : τ → Bool} {t : τ} {ts : List τ} : Avoids c (t :: ts) ↔ c t = false := by
  simp [Avoids]

theorem Avoids.mono {c d : τ → Bool} {ts : List τ} (h : Avoids d ts)
    (himp : ∀ t, c t = true → d t = true) : Avoids c ts := by
  intro t ht
  have hd := h t ht
  cases hc : c t with
  | false => rfl
  | true => rw [himp t hc] at hd; cases hd

theorem Avoids.of_begins {c : τ → Bool} {t : τ} {ts : List τ} (h : Begins t ts)
    (hc : c t = false) : Avoids c ts := by
  intro u hu
  rw [h] at hu
  cases hu
  exact hc

theorem beginsIn_nil (ks : List τ) : BeginsIn ks [] := by
  intro t h
  cases h

theorem BeginsIn.avoids {ks ts : List τ} {c : τ → Bool} (h : BeginsIn ks ts)
    (hks : ∀ k ∈ ks, c k = false) : Avoids c ts :=
  fun t ht => hks t (h t ht)

/-- Where `F'` holds of what follows, `F` holds of what follows the phrase's beginning. -/
def Leads (D : Phrase τ α) (F F' : List τ → Prop) : Prop :=
  ∀ ⦃xs rest : List τ⦄ ⦃a : α⦄, D xs a → F' rest → F (xs ++ rest)

theorem Leads.pure {F F' : List τ → Prop} (a : α) (h : ∀ rest, F' rest → F rest) :
    Leads (pure a : Phrase τ α) F F' := by
  rintro xs rest b ⟨rfl, rfl⟩ hrest
  exact h rest hrest

theorem Leads.bind {D : Phrase τ α} {E : α → Phrase τ β} {F F' F'' : List τ → Prop}
    (hD : Leads D F F') (hE : ∀ a, Leads (E a) F' F'') : Leads (D >>= E) F F'' := by
  rintro xs rest b ⟨ys, zs, a, rfl, hys, hzs⟩ hrest
  rw [List.append_assoc]
  exact hD hys (hE a hzs hrest)

/-- A phrase that fixes what it begins with does so whatever comes after it. -/
theorem Leads.bind_first {D : Phrase τ α} {E : α → Phrase τ β} {F F' : List τ → Prop}
    (hD : Leads D F fun _ => True) : Leads (D >>= E) F F' :=
  have hE : ∀ a, Leads (E a) (fun _ => True) F' := fun _ _ _ _ _ _ => trivial
  .bind hD hE

theorem Leads.tokenMap {f : τ → Option α} {F : List τ → Prop}
    (h : ∀ t a rest, f t = some a → F (t :: rest)) (F' : List τ → Prop) :
    Leads (Phrase.tokenMap f) F F' := by
  rintro xs rest a ⟨t, rfl, hf⟩ _
  exact h t a rest hf

theorem Leads.token {t : τ} {F : List τ → Prop} (h : ∀ rest, F (t :: rest))
    (F' : List τ → Prop) : Leads (Phrase.token t) F F' := by
  rintro xs rest a rfl _
  exact h rest

theorem Leads.either {D E : Phrase τ α} {F F' : List τ → Prop} (hD : Leads D F F')
    (hE : Leads E F F') : Leads (Phrase.either D E) F F' := by
  rintro xs rest a (h | h) hrest
  · exact hD h hrest
  · exact hE h hrest

theorem Leads.flag {t : τ} {F F' : List τ → Prop} (h : ∀ rest, F (t :: rest))
    (himp : ∀ rest, F' rest → F rest) : Leads (Phrase.flag t) F F' :=
  .either (.bind_first (.token h _)) (.pure false himp)

theorem Leads.optional {D : Phrase τ α} {F F' : List τ → Prop} (h : Leads D F F')
    (himp : ∀ rest, F' rest → F rest) : Leads (Phrase.optional D) F F' := by
  rintro xs rest o (⟨rfl, rfl⟩ | ⟨a, rfl, hD⟩) hrest
  · exact himp rest hrest
  · exact h hD hrest

/-- What follows an optional phrase matters only when it is not there. -/
theorem Leads.optional_bind {D : Phrase τ α} {E : Option α → Phrase τ β} {F F' : List τ → Prop}
    (hsome : Leads D F fun _ => True) (hnone : Leads (E none) F F') :
    Leads (Phrase.optional D >>= E) F F' := by
  rintro xs rest b ⟨ys, zs, o, rfl, ⟨rfl, rfl⟩ | ⟨a, rfl, hD⟩, hE⟩ hrest
  · exact hnone hE hrest
  · rw [List.append_assoc]
    exact hsome hD trivial

/-- One more clause in front. -/
theorem Leads.optional_cons {D : Phrase τ α} {E : Option α → Phrase τ β} {F' : List τ → Prop}
    {t : τ} {ks : List τ} (hD : ∀ xs a, D xs a → xs.head? = some t)
    (hE : ∀ o, Leads (E o) (BeginsIn ks) F') :
    Leads (Phrase.optional D >>= E) (BeginsIn (t :: ks)) F' := by
  refine .optional_bind (fun xs rest a hxs _ u hu => ?_) fun xs rest b h hrest u hu => ?_
  · rw [List.head?_append, hD xs a hxs] at hu
    cases hu
    exact List.mem_cons_self
  · exact List.mem_cons_of_mem t (hE none h hrest u hu)

theorem Leads.guard {P : Prop} {F F' : List τ → Prop} (h : ∀ rest, F' rest → F rest) :
    Leads (Phrase.guard P) F F' := by
  rintro xs rest a ⟨rfl, -⟩ hrest
  exact h rest hrest

/-! ### Accepting -/

/-- The parser consumes a phrase it is given, and exactly that, when `F` holds of what comes
next. -/
def Accepts (p : Parser τ ε α) (D : Phrase τ α) (F : List τ → Prop) : Prop :=
  ∀ ⦃xs rest : List τ⦄ ⦃a : α⦄, D xs a → F rest → p (xs ++ rest) = .ok (a, rest)

theorem Accepts.mono {p : Parser τ ε α} {D : Phrase τ α} {F F' : List τ → Prop}
    (h : Accepts p D F) (himp : ∀ rest, F' rest → F rest) : Accepts p D F' :=
  fun _ _ _ hD hrest => h hD (himp _ hrest)

theorem Accepts.pure (a : α) (F : List τ → Prop) :
    Accepts (pure a : Parser τ ε α) (pure a) F := by
  rintro xs rest b ⟨rfl, rfl⟩ _
  rfl

theorem Accepts.bind {p : Parser τ ε α} {D : Phrase τ α} {f : α → Parser τ ε β}
    {E : α → Phrase τ β} {F F' : List τ → Prop} (hp : Accepts p D F)
    (hf : ∀ a, Accepts (f a) (E a) F') (hlead : ∀ a, Leads (E a) F F') :
    Accepts (p >>= f) (D >>= E) F' := by
  rintro xs rest b ⟨ys, zs, a, rfl, hys, hzs⟩ hrest
  rw [List.append_assoc, bind_of_ok (hp hys (hlead a hzs hrest))]
  exact hf a hzs hrest

/-- A parser that needs no lookahead, and what follows it. -/
theorem Accepts.bind_free {p : Parser τ ε α} {D : Phrase τ α} {f : α → Parser τ ε β}
    {E : α → Phrase τ β} {F' : List τ → Prop} (hp : Accepts p D fun _ => True)
    (hf : ∀ a, Accepts (f a) (E a) F') : Accepts (p >>= f) (D >>= E) F' :=
  hp.bind hf fun _ _ _ _ _ _ => trivial

theorem Accepts.guard_bind {p : Parser τ ε α} {D : Phrase τ α} {P : Prop} {F : List τ → Prop}
    (hp : P → Accepts p D F) : Accepts p (Phrase.guard P >>= fun _ => D) F := by
  rintro xs rest a ⟨ys, zs, u, rfl, ⟨rfl, hP⟩, hD⟩ hrest
  exact hp hP hD hrest

theorem Accepts.expectMap (f : τ → Option α) (err : Option τ → ε) (F : List τ → Prop) :
    Accepts (expectMap f err) (Phrase.tokenMap f) F := by
  rintro xs rest a ⟨t, rfl, hf⟩ _
  rw [List.singleton_append, Parsing.expectMap, hf]

theorem Accepts.acceptMap (f : τ → Option α) :
    Accepts (acceptMap f : Parser τ ε (Option α)) (Phrase.optional (Phrase.tokenMap f))
      (Avoids fun t => (f t).isSome) := by
  rintro xs rest o (⟨rfl, rfl⟩ | ⟨a, rfl, t, rfl, hf⟩) hrest
  · cases rest with
    | nil => rfl
    | cons t ts =>
      have hnone : f t = none := by
        have h : (f t).isSome = false := hrest t rfl
        simpa using h
      rw [List.nil_append, Parsing.acceptMap, hnone]
  · rw [List.singleton_append, Parsing.acceptMap, hf]

section
variable [DecidableEq τ]

theorem Accepts.expect (t : τ) (err : Option τ → ε) (F : List τ → Prop) :
    Accepts (expect t err) (Phrase.token t) F :=
  fun _ _ _ h hrest => Accepts.expectMap (only t) err F (Phrase.tokenMap_only.mpr h) hrest

/-- A phrase that begins with `t` is told from one that does not. -/
theorem Accepts.ifNext {t : τ} {p q : Parser τ ε α} {D E : Phrase τ α} {F F' : List τ → Prop}
    (hp : Accepts p D F) (hq : Accepts q E F')
    (hE : Leads E (Avoids fun u => decide (u = t)) F') (himp : ∀ rest, F' rest → F rest) :
    Accepts (ifNext t p q) (Phrase.either (Phrase.token t >>= fun _ => D) E) F' := by
  rintro xs rest a (⟨ys, zs, u, rfl, rfl, hD⟩ | h) hrest
  · exact (if_pos rfl).trans (hp hD (himp rest hrest))
  · have hne : (xs ++ rest).head? ≠ some t := by
      intro hhead
      have hfalse := hE h hrest t hhead
      simp at hfalse
    exact (if_neg hne).trans (hq h hrest)

theorem Accepts.accept (t : τ) : Accepts (accept t : Parser τ ε Bool) (Phrase.flag t)
    (Avoids fun u => decide (u = t)) :=
  Accepts.ifNext (Accepts.pure true _) (Accepts.pure false _) (.pure false fun _ h => h)
    fun _ h => h

/-- A phrase that begins with `t` is told from what follows by its first token. -/
theorem Accepts.optionalAt {t : τ} {p : Parser τ ε α} {D : Phrase τ α} {F F' : List τ → Prop}
    (hp : Accepts p D F) (hD : ∀ xs a, D xs a → xs.head? = some t)
    (himp : ∀ rest, F' rest → F rest) (hne : ∀ rest, F' rest → rest.head? ≠ some t) :
    Accepts (optionalAt t p) (Phrase.optional D) F' := by
  rintro xs rest o (⟨rfl, rfl⟩ | ⟨a, rfl, hxs⟩) hrest
  · rw [List.nil_append, Parsing.optionalAt, if_neg (hne rest hrest)]
  · have hhead : (xs ++ rest).head? = some t := by
      rw [List.head?_append, hD xs a hxs]; rfl
    rw [Parsing.optionalAt, if_pos hhead, map_apply, hp hxs (himp rest hrest)]

end

/-- A token that may be there, and what follows it. -/
theorem Accepts.acceptMap_bind {g : τ → Option α} {f : Option α → Parser τ ε β}
    {E : Option α → Phrase τ β} {F' : List τ → Prop} (hf : ∀ o, Accepts (f o) (E o) F')
    (hlead : Leads (E none) (Avoids fun t => (g t).isSome) F') :
    Accepts (Parsing.acceptMap g >>= f) (Phrase.optional (Phrase.tokenMap g) >>= E) F' := by
  rintro xs rest b ⟨ys, zs, o, rfl, hys, hzs⟩ hrest
  rw [List.append_assoc]
  rcases hys with ⟨rfl, rfl⟩ | ⟨a, rfl, t, rfl, ht⟩
  · rw [bind_of_ok (Accepts.acceptMap g (.inl ⟨rfl, rfl⟩) (hlead hzs hrest))]
    exact hf none hzs hrest
  · have happ : (Parsing.acceptMap g : Parser τ ε (Option α)) ([t] ++ (zs ++ rest)) =
        .ok (some a, zs ++ rest) := by
      rw [List.singleton_append, Parsing.acceptMap, ht]
    rw [bind_of_ok happ]
    exact hf (some a) hzs hrest

/-- A clause that may be there, before clauses that begin with others of the tokens `ks`. -/
theorem Accepts.optionalAt_cons [DecidableEq τ] {t : τ} {p : Parser τ ε α} {D : Phrase τ α}
    {f : Option α → Parser τ ε β} {E : Option α → Phrase τ β} {F F' : List τ → Prop}
    {ks : List τ} (hp : Accepts p D F) (hD : ∀ xs a, D xs a → xs.head? = some t)
    (hks : ∀ rest, BeginsIn ks rest → F rest) (ht : t ∉ ks)
    (hrest : ∀ o, Accepts (f o) (E o) F' ∧ Leads (E o) (BeginsIn ks) F') :
    Accepts (Parsing.optionalAt t p >>= f) (Phrase.optional D >>= E) F' ∧
      Leads (Phrase.optional D >>= E) (BeginsIn (t :: ks)) F' :=
  ⟨Accepts.bind (Accepts.optionalAt hp hD hks fun _ hbegins hhead => ht (hbegins t hhead))
    (fun o => (hrest o).1) fun o => (hrest o).2, .optional_cons hD fun o => (hrest o).2⟩

section
variable {cond : σ → Option τ → Bool} {body : σ → Parser τ ε σ} {D D' : σ → Phrase τ σ}
  {F : List τ → Prop}

/-- **A loop takes the rounds in front of it**, if each begins with a token that `cond` goes on
for.  That the body consumes tokens may be read off another grammar than the one it is to
accept. -/
theorem loopWhile_of_loop (hreads : ∀ s t, cond s t = true → Reads (body s) (D' s))
    (hne : ∀ s xs s', D' s xs s' → xs ≠ []) (hbody : ∀ s, Accepts (body s) (D s) F)
    (hgo : ∀ s xs s', D s xs s' → xs ≠ [] ∧ cond s xs.head? = true)
    (hround : ∀ s xs s' rest, D s xs s' → F (xs ++ rest)) {s s' : σ} {xs rest : List τ}
    (hloop : Phrase.loop D s xs s') (hrest : F rest) :
    loopWhile cond body s (xs ++ rest) = loopWhile cond body s' rest := by
  induction hloop with
  | stop s => rfl
  | @step s s₁ s₂ xs ys hD hloop ih =>
    -- what follows a round is another round or what follows the loop
    have hnext : F (ys ++ rest) := by
      cases hloop with
      | stop => exact hrest
      | @step _ s₃ _ zs ws hD' _ => rw [List.append_assoc]; exact hround s₁ zs s₃ _ hD'
    have hcond : cond s (xs ++ (ys ++ rest)).head? = true := by
      obtain ⟨hne, hc⟩ := hgo s xs s₁ hD
      rw [List.head?_append_of_ne_nil _ hne]
      exact hc
    have hshrink : ∀ s ts s' rest, cond s ts.head? = true → body s ts = .ok (s', rest) →
        rest.length < ts.length :=
      fun s ts s' rest hcond h => length_lt_of_reads (hreads s _ hcond) (hne s) h
    rw [List.append_assoc, loopWhile_eq hshrink, if_pos hcond, bind_of_ok (hbody s hD hnext)]
    exact ih

theorem Accepts.loopWhile {F' : List τ → Prop}
    (hreads : ∀ s t, cond s t = true → Reads (body s) (D' s))
    (hne : ∀ s xs s', D' s xs s' → xs ≠ []) (hbody : ∀ s, Accepts (body s) (D s) F)
    (hgo : ∀ s xs s', D s xs s' → xs ≠ [] ∧ cond s xs.head? = true)
    (hround : ∀ s xs s' rest, D s xs s' → F (xs ++ rest)) (hlast : ∀ rest, F' rest → F rest)
    (hstop : ∀ s rest, F' rest → cond s rest.head? = false) (s : σ) :
    Accepts (loopWhile cond body s) (Phrase.loop D s) F' := by
  intro xs rest s' hloop hrest
  have hshrink : ∀ s ts s' rest, cond s ts.head? = true → body s ts = .ok (s', rest) →
      rest.length < ts.length :=
    fun s ts s' rest hcond h => length_lt_of_reads (hreads s _ hcond) (hne s) h
  rw [loopWhile_of_loop hreads hne hbody hgo hround hloop (hlast rest hrest),
    loopWhile_eq hshrink, hstop s' rest hrest, if_neg Bool.false_ne_true]

end

end Parsing
