import Mathlib.Algebra.Group.Nat.Defs
import Mathlib.Data.Nat.Notation
import Mathlib.Tactic.TypeStar

/-!
# Shared engine types

The types every crate of the engine shares: errors, validated names, timestamps.
Machine arithmetic is checked: an addition that leaves the range of `u64` panics,
as it does under the profile the repository's tests run in, so a call ends in a
result, in an `EngineError` it returns, or in a panic.

## Main definitions

* `EngineError`, `Fault` — the errors of the engine, and the ways a call can fail.
* `checkedAdd` — addition of `u64`s.
* `validateIdentifier`, `DatabaseName`, `BranchName` — validated names; the types
  carry the validation.
-/

namespace KuzuEventBus

/-- Epoch milliseconds. -/
abbrev Timestamp := ℕ

/-- The errors the engine returns. -/
inductive EngineError where
  | storageIo (msg : String)
  | invalidArgument (msg : String)
  | notFound (msg : String)
  | concurrency (msg : String)
  | notImplemented (msg : String)
  deriving DecidableEq, Repr

/-- How a call can fail: with an error it returns, or with a panic that no
`Result` combinator catches. -/
inductive Fault where
  | error (e : EngineError)
  | panic (msg : String)
  deriving DecidableEq, Repr

/-- `Result::ok` on an evaluation: an error becomes `none`, a panic goes on. -/
def okOrNone {α : Type*} : Except Fault α → Except Fault (Option α)
  | .ok a => .ok (some a)
  | .error (.error _) => .ok none
  | .error (.panic msg) => .error (.panic msg)

/-- The computation does not panic. -/
def NoPanic {α : Type} (x : Except Fault α) : Prop := ∀ msg, x ≠ .error (.panic msg)

theorem NoPanic.ok {α : Type} (a : α) : NoPanic (.ok a : Except Fault α) := by
  intro msg h
  cases h

theorem NoPanic.bind {α β : Type} {x : Except Fault α} {f : α → Except Fault β} (hx : NoPanic x)
    (hf : ∀ a, NoPanic (f a)) : NoPanic (x >>= f) := by
  cases x with
  | ok a => exact hf a
  | error e =>
    intro msg h
    cases h
    exact hx msg rfl

/-- An evaluation that does not panic is a value or none. -/
theorem okOrNone_of_noPanic {α : Type} {x : Except Fault α} (h : NoPanic x) :
    okOrNone x = .ok x.toOption := by
  cases x with
  | ok a => rfl
  | error e =>
    cases e with
    | error e => rfl
    | panic msg => exact absurd rfl (h msg)

theorem okOrNone_eq_ok {α : Type} {x : Except Fault α} {a : Option α} (h : okOrNone x = .ok a) :
    NoPanic x ∧ a = x.toOption := by
  cases x with
  | ok b => cases h; exact ⟨nofun, rfl⟩
  | error e =>
    cases e with
    | error e => cases h; exact ⟨nofun, rfl⟩
    | panic msg => cases h

/-- Addition of `u64`s. -/
def checkedAdd (a b : ℕ) : Except Fault ℕ :=
  if a + b < 2 ^ 64 then .ok (a + b) else .error (.panic "attempt to add with overflow")

theorem checkedAdd_of_lt {a b : ℕ} (h : a + b < 2 ^ 64) : checkedAdd a b = .ok (a + b) :=
  if_pos h

theorem checkedAdd_eq_ok {a b c : ℕ} (h : checkedAdd a b = .ok c) : c = a + b ∧ c < 2 ^ 64 := by
  unfold checkedAdd at h
  split at h
  · next hlt => cases h; exact ⟨rfl, hlt⟩
  · simp at h

/-- What a sequence that returns went through. -/
theorem bind_eq_ok {α β ε : Type} {x : Except ε α} {f : α → Except ε β} {b : β}
    (h : x >>= f = .ok b) : ∃ a, x = .ok a ∧ f a = .ok b := by
  cases x with
  | error e => cases h
  | ok a => exact ⟨a, rfl, h⟩

theorem map_eq_ok {α β ε : Type} {x : Except ε α} {f : α → β} {b : β} (h : x.map f = .ok b) :
    ∃ a, x = .ok a ∧ f a = b := by
  cases x with
  | error e => cases h
  | ok a => exact ⟨a, rfl, Except.ok.inj h⟩

theorem exists_ok {α ε : Type} {x : Except ε α} (h : x.isOk = true) : ∃ a, x = .ok a := by
  cases x with
  | error e => cases h
  | ok a => exact ⟨a, rfl⟩

/-- A loop of fallible steps none of which fails. -/
theorem mapM_eq_ok {α β ε : Type*} {f : α → Except ε β} {g : α → β} {l : List α}
    (h : ∀ a ∈ l, f a = .ok (g a)) : l.mapM f = .ok (l.map g) := by
  induction l with
  | nil => rfl
  | cons a l ih =>
    rw [List.mapM_cons, h a List.mem_cons_self, ih fun b hb => h b (List.mem_cons_of_mem a hb)]
    rfl

/-- A loop of fallible steps that returns has returned from each. -/
theorem mem_of_mapM_eq_ok {α β ε : Type} {f : α → Except ε β} {l : List α} {b : β} :
    ∀ {bs : List β}, l.mapM f = .ok bs → (b ∈ bs ↔ ∃ a ∈ l, f a = .ok b) := by
  induction l with
  | nil => intro bs h; cases h; simp
  | cons a l ih =>
    intro bs h
    rw [List.mapM_cons] at h
    obtain ⟨c, hc, h⟩ := bind_eq_ok h
    obtain ⟨cs, hcs, h⟩ := bind_eq_ok h
    cases h
    simp only [List.mem_cons, ih hcs, or_and_right, exists_or, exists_eq_left, hc,
      Except.ok.injEq, @eq_comm _ b c]

/-- … and so has each step. -/
theorem exists_of_mapM_eq_ok {α β ε : Type} {f : α → Except ε β} {l : List α} {bs : List β}
    (h : l.mapM f = .ok bs) : ∀ a ∈ l, ∃ b, f a = .ok b := by
  induction l generalizing bs with
  | nil => simp
  | cons a l ih =>
    rw [List.mapM_cons] at h
    obtain ⟨b, hb, h⟩ := bind_eq_ok h
    obtain ⟨bs, hbs, -⟩ := bind_eq_ok h
    rw [List.forall_mem_cons]
    exact ⟨⟨b, hb⟩, ih hbs⟩

theorem exists_mapM_eq_ok {α β ε : Type} {f : α → Except ε β} {l : List α}
    (h : ∀ a ∈ l, ∃ b, f a = .ok b) : ∃ bs, l.mapM f = .ok bs := by
  induction l with
  | nil => exact ⟨[], rfl⟩
  | cons a l ih =>
    obtain ⟨b, hb⟩ := h a List.mem_cons_self
    obtain ⟨bs, hbs⟩ := ih fun a ha => h a (List.mem_cons_of_mem _ ha)
    exact ⟨b :: bs, by rw [List.mapM_cons, hb, hbs]; rfl⟩

theorem mapM_congr {α β ε : Type} {f g : α → Except ε β} {l : List α}
    (h : ∀ a ∈ l, f a = g a) : l.mapM f = l.mapM g := by
  induction l with
  | nil => rfl
  | cons a l ih =>
    rw [List.mapM_cons, List.mapM_cons, h a List.mem_cons_self,
      ih fun b hb => h b (List.mem_cons_of_mem a hb)]

/-! ### Validated names -/

/-- The characters an identifier may hold. -/
def isIdentifierChar (c : Char) : Bool := c.isAlphanum || c == '-' || c == '_'

/-- `validate_identifier`: the length is checked before the characters. -/
def validateIdentifier (s : String) : Except Fault Unit :=
  if s.isEmpty || s.utf8ByteSize > 128 then
    .error (.error (.invalidArgument "identifier length"))
  else if !s.toList.all isIdentifierChar then
    .error (.error (.invalidArgument "identifier charset"))
  else .ok ()

/-- A validated database name. -/
structure DatabaseName where
  asStr : String
  valid : validateIdentifier asStr = .ok ()

/-- A validated branch name. -/
structure BranchName where
  asStr : String
  valid : validateIdentifier asStr = .ok ()

theorem BranchName.ext_asStr {a b : BranchName} (h : a.asStr = b.asStr) : a = b := by
  cases a; cases b; simp_all

/-- `DatabaseName::try_from`. -/
def DatabaseName.tryFrom (value : String) : Except Fault DatabaseName :=
  match h : validateIdentifier value with
  | .ok () => .ok ⟨value, h⟩
  | .error e => .error e

/-- `BranchName::try_from`. -/
def BranchName.tryFrom (value : String) : Except Fault BranchName :=
  match h : validateIdentifier value with
  | .ok () => .ok ⟨value, h⟩
  | .error e => .error e

theorem BranchName.tryFrom_asStr (b : BranchName) : tryFrom b.asStr = .ok b := by
  unfold tryFrom
  split
  · rfl
  · next h => rw [b.valid] at h; cases h

end KuzuEventBus
