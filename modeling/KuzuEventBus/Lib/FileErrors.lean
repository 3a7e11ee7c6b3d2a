import KuzuEventBus.Lib.FileOps

/-!
# The exceptions of programs on files

Which exceptions a program can raise when the system does not fail: those of its operations, which
say what is or is not on the disk, and its own.

## Main definitions

* `OnlyRaises` — every exception the program raises on a disk has a property.
* `systemErrors`, `RaisesSystem` — the exceptions of the operations.

## Main results

* `OnlyRaises.bind`, `OnlyRaises.finallyDo`, `RaisesSystem.perform` — the rules.
* `raisesSystem_mkdir`, `raisesSystem_replace`, … — the operations raise nothing else.
-/

namespace FileOps

open FileTree

variable {α β : Type}

/-- Without failures of the system, the program raises only exceptions with the property. -/
def OnlyRaises (E : String → Prop) (m : FileM α) (d : Disk) : Prop :=
  ∀ o ∈ m false d, ∀ e, o.1 = .error e → E e

/-- The exceptions of the operations on files. -/
def systemErrors : List String :=
  ["OSError", "FileExistsError", "FileNotFoundError", "NotADirectoryError", "IsADirectoryError",
    "ReadError"]

/-- The operation raises exceptions of operations only. -/
def RaisesSystem (op : FileOp α) : Prop := ∀ d e, (op d).1.1 = .error e → e ∈ systemErrors

section Rules

variable {E : String → Prop} {m : FileM α} {f : α → FileM β} {op : FileOp α} {d : Disk}

theorem OnlyRaises.pure (a : α) : OnlyRaises E (Pure.pure a) d := by
  intro o ho e he
  rw [pure_run, List.mem_singleton] at ho
  rw [ho] at he
  cases he

theorem OnlyRaises.bind (h : OnlyRaises E m d)
    (hf : ∀ a d', (.ok a, d') ∈ m false d → OnlyRaises E (f a) d') : OnlyRaises E (m >>= f) d := by
  intro o ho e he
  rw [bind_run] at ho
  obtain ⟨⟨e' | a, d'⟩, ho', ho⟩ := List.mem_flatMap.1 ho
  · rw [show o = (.error e', d') from List.mem_singleton.1 ho] at he
    cases he
    exact h _ ho' e rfl
  · exact hf a d' ho' o ho e he

/-- A program that surely returns raises nothing. -/
theorem OnlyRaises.bind_of_ok {a : α} {d' : Disk} (h : m false d = [(.ok a, d')])
    (hf : OnlyRaises E (f a) d') : OnlyRaises E (m >>= f) d := by
  unfold OnlyRaises
  rw [FileOps.bind_of_ok h]
  exact hf

theorem OnlyRaises.perform (h : ∀ e, (op d).1.1 = .error e → E e) :
    OnlyRaises E (FileOps.perform op) d := by
  intro o ho e he
  rw [perform_run, List.mem_singleton] at ho
  rw [ho] at he
  exact h e he

/-- The exception is that of the program, or that of the cleanup. -/
theorem OnlyRaises.finallyDo {cleanup : FileM Unit} (h : OnlyRaises E m d)
    (hcleanup : ∀ d', OnlyRaises E cleanup d') :
    OnlyRaises E (FileOps.finallyDo m cleanup) d := by
  intro o ho e he
  obtain ⟨o', ho', ho⟩ := List.mem_flatMap.1 ho
  obtain ⟨⟨e' | u, d'⟩, ho'', rfl⟩ := List.mem_map.1 ho
  · cases he
    exact hcleanup _ _ ho'' e rfl
  · exact h o' ho' e he

theorem OnlyRaises.mono {E' : String → Prop} (h : OnlyRaises E m d) (hE : ∀ e, E e → E' e) :
    OnlyRaises E' m d := fun o ho e he => hE e (h o ho e he)

theorem RaisesSystem.perform (h : RaisesSystem op) :
    OnlyRaises (· ∈ systemErrors) (FileOps.perform op) d :=
  OnlyRaises.perform fun e he => h d e he

end Rules

/-! ### The operations -/

section Operations

variable {p q : FilePath}

theorem raisesSystem_pathExists (p : FilePath) : RaisesSystem (pathExists p) := nofun

theorem raisesSystem_mkdirFrom (path p : FilePath) : RaisesSystem (mkdirFrom path p) := by
  induction p generalizing path with
  | nil => exact nofun
  | cons name p ih =>
    intro d e he
    unfold mkdirFrom at he
    split at he
    · exact ih _ _ e he
    · cases he
      simp [systemErrors]
    · exact ih _ _ e he

theorem raisesSystem_mkdir (p : FilePath) : RaisesSystem (mkdir p) := raisesSystem_mkdirFrom [] p

theorem raisesSystem_mkdtemp (parent : FilePath) (name : String) :
    RaisesSystem (mkdtemp parent name) := by
  intro d e he
  unfold mkdtemp at he
  split at he
  · split at he
    · cases he
      simp [systemErrors]
    · cases he
  · cases he
    simp [systemErrors]

theorem raisesSystem_replace (src dst : FilePath) : RaisesSystem (replace src dst) := by
  intro d e he
  unfold replace at he
  split at he
  · split at he
    · cases he
    · split at he
      · cases he
        simp [systemErrors]
      · unfold moveOver at he
        split at he
        · cases he
          simp [systemErrors]
        · cases he
          simp [systemErrors]
        · cases he
          simp [systemErrors]
        · cases he
  · cases he
    simp [systemErrors]

theorem raisesSystem_rmtree (p : FilePath) : RaisesSystem (rmtree p) := by
  intro d e he
  unfold rmtree at he
  split at he
  · cases he
  · cases he
    simp [systemErrors]
  · cases he
    simp [systemErrors]

end Operations

end FileOps
