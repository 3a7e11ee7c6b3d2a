import KuzuEventBus.Lib.HashMap
import Mathlib.Data.List.Dedup
import Mathlib.Data.List.Infix

/-!
# A file system

Regular files under paths, without I/O errors: a path is the list of its
components, a directory is there as soon as a file lies below it.  Programs are
either run as functions on the file system or, where the points at which they can
be interrupted matter, given as the list of their operations; `CutAt` then names
the file systems an interruption can leave, a write being cut at any byte.

## Main definitions

* `FileSystem`, `create`, `append`, `readFile`, `rename`, `readDir` — the operations.
* `truncate`, `setByte` — what can become of a file from outside.
* `Op`, `runOps` — operations as data, and running a list of them.
* `CutAt ops fs fs'` — running `ops` on `fs` can be cut leaving `fs'`.
* `rewriteOps` — create a file, write it, flush it.

## Main results

* `mem_readDir` — what a directory lists.
* `runOps_agree`, `CutAt.agree` — files no operation names keep their content.
* `cutAt_append` — where a run of two parts can be cut.
* `CutAt.readFile_rewriteOps` — a rewrite cut short leaves the old content or a prefix of the
  new one.
-/

/-- The content of a file. -/
abbrev Bytes := List UInt8

/-- A path, as the list of its components. -/
abbrev FilePath := List String

/-- The regular files, by path. -/
abbrev FileSystem := HashMap FilePath Bytes

namespace FileSystem

/-- `File::create`: an empty file at `p`, whatever was there. -/
def create (fs : FileSystem) (p : FilePath) : FileSystem := fs.insert p []

/-- `write_all` at the end of the file at `p`. -/
def append (fs : FileSystem) (p : FilePath) (bs : Bytes) : FileSystem :=
  fs.insert p ((fs.lookup p).getD [] ++ bs)

/-- The file at `p` cut to its first `n` bytes. -/
def truncate (fs : FileSystem) (p : FilePath) (n : ℕ) : FileSystem :=
  match fs.lookup p with
  | some bs => fs.insert p (bs.take n)
  | none => fs

/-- Byte `i` of the file at `p` replaced by `b`. -/
def setByte (fs : FileSystem) (p : FilePath) (i : ℕ) (b : UInt8) : FileSystem :=
  match fs.lookup p with
  | some bs => fs.insert p (bs.set i b)
  | none => fs

/-- The content of the file at `p`. -/
def readFile (fs : FileSystem) (p : FilePath) : Option Bytes := fs.lookup p

/-- `Path::exists`, for a regular file. -/
def isFile (fs : FileSystem) (p : FilePath) : Bool := (fs.readFile p).isSome

/-- `fs::rename`: the file at `src` replaces whatever is at `dst`. -/
def rename (fs : FileSystem) (src dst : FilePath) : FileSystem :=
  match fs.readFile src with
  | some bs => AList.insert dst bs (AList.erase src fs)
  | none => fs

/-- The name under which the directory `dir` lists the path `p`. -/
def childOf : FilePath → FilePath → Option String
  | [], n :: _ => some n
  | d :: ds, p :: ps => if d = p then childOf ds ps else none
  | _, [] => none

/-- `fs::read_dir`: the names the directory holds, in no particular order. -/
def readDir (fs : FileSystem) (dir : FilePath) : List String :=
  (fs.keys.filterMap (childOf dir)).dedup

theorem childOf_eq_some {dir p : FilePath} {n : String} :
    childOf dir p = some n ↔ ∃ rest, p = dir ++ n :: rest := by
  induction dir generalizing p with
  | nil => cases p <;> simp [childOf]
  | cons d ds ih =>
    cases p with
    | nil => simp [childOf]
    | cons c cs =>
      simp only [childOf, List.cons_append, List.cons.injEq]
      split
      · next h => rw [ih]; simp [h]
      · next h =>
        constructor
        · intro hn; simp at hn
        · rintro ⟨rest, hc, -⟩; exact absurd hc.symm h

theorem mem_readDir {fs : FileSystem} {dir : FilePath} {n : String} :
    n ∈ fs.readDir dir ↔ ∃ rest, (fs.readFile (dir ++ n :: rest)).isSome := by
  simp only [readDir, List.mem_dedup, List.mem_filterMap, childOf_eq_some, readFile,
    AList.lookup_isSome, AList.mem_keys]
  constructor
  · rintro ⟨p, hp, rest, rfl⟩; exact ⟨rest, hp⟩
  · rintro ⟨rest, h⟩; exact ⟨_, h, rest, rfl⟩

theorem nodup_readDir (fs : FileSystem) (dir : FilePath) : (fs.readDir dir).Nodup :=
  List.nodup_dedup _

theorem readFile_create (fs : FileSystem) (p q : FilePath) :
    (fs.create p).readFile q = if q = p then some [] else fs.readFile q :=
  AList.lookup_insert_eq fs p q []

theorem readFile_append (fs : FileSystem) (p q : FilePath) (bs : Bytes) :
    (fs.append p bs).readFile q =
      if q = p then some ((fs.readFile p).getD [] ++ bs) else fs.readFile q :=
  AList.lookup_insert_eq fs p q _

theorem readFile_truncate {fs : FileSystem} {p : FilePath} {bs : Bytes} (n : ℕ)
    (h : fs.readFile p = some bs) : (fs.truncate p n).readFile p = some (bs.take n) := by
  rw [readFile] at h
  rw [truncate, h]
  exact AList.lookup_insert fs

theorem readFile_setByte {fs : FileSystem} {p : FilePath} {bs : Bytes} (i : ℕ) (b : UInt8)
    (h : fs.readFile p = some bs) : (fs.setByte p i b).readFile p = some (bs.set i b) := by
  rw [readFile] at h
  rw [setByte, h]
  exact AList.lookup_insert fs

theorem readFile_rename {fs : FileSystem} {src dst : FilePath} {bs : Bytes} (q : FilePath)
    (h : fs.readFile src = some bs) : (fs.rename src dst).readFile q =
      if q = dst then some bs else if q = src then none else fs.readFile q := by
  rw [rename, h]
  simp only
  rw [readFile, AList.lookup_insert_eq]
  split
  · rfl
  · next hq =>
    split
    · next hs => rw [hs, AList.lookup_erase]
    · next hs => rw [AList.lookup_erase_ne hs]; rfl

/-! ### Operations as data -/

/-- One file operation. -/
inductive Op where
  /-- Create or truncate a file. -/
  | create (p : FilePath)
  /-- Append bytes to a file. -/
  | write (p : FilePath) (bs : Bytes)
  /-- Flush a file to the device; its content does not change. -/
  | sync (p : FilePath)

/-- The file an operation acts on. -/
def Op.path : Op → FilePath
  | .create p => p
  | .write p _ => p
  | .sync p => p

/-- The effect of an operation that completes. -/
def Op.run (fs : FileSystem) : Op → FileSystem
  | .create p => fs.create p
  | .write p bs => fs.append p bs
  | .sync _ => fs

/-- Run operations one after the other. -/
def runOps (fs : FileSystem) (ops : List Op) : FileSystem := ops.foldl Op.run fs

@[simp] theorem runOps_nil (fs : FileSystem) : runOps fs [] = fs := rfl

@[simp] theorem runOps_cons (fs : FileSystem) (op : Op) (ops : List Op) :
    runOps fs (op :: ops) = runOps (op.run fs) ops := rfl

theorem runOps_append (fs : FileSystem) (ops ops' : List Op) :
    runOps fs (ops ++ ops') = runOps (runOps fs ops) ops' := List.foldl_append

/-- `CutAt ops fs fs'`: running `ops` on `fs` and being interrupted (or failing)
can leave `fs'`: after any number of operations, or with a prefix of the next
write done. -/
inductive CutAt : List Op → FileSystem → FileSystem → Prop
  /-- Nothing of the rest is done. -/
  | stop (ops : List Op) (fs : FileSystem) : CutAt ops fs fs
  /-- Part of a write is done. -/
  | inWrite (p : FilePath) {bs pre : Bytes} (ops : List Op) (fs : FileSystem) (h : pre <+: bs) :
      CutAt (.write p bs :: ops) fs (fs.append p pre)
  /-- An operation completes, and the rest is cut. -/
  | step {op : Op} {ops : List Op} {fs fs' : FileSystem} (h : CutAt ops (op.run fs) fs') :
      CutAt (op :: ops) fs fs'

theorem readFile_run_of_ne {op : Op} {q : FilePath} (fs : FileSystem) (h : op.path ≠ q) :
    (op.run fs).readFile q = fs.readFile q := by
  cases op with
  | create p => exact (readFile_create fs p q).trans (if_neg (Ne.symm h))
  | write p bs => exact (readFile_append fs p q bs).trans (if_neg (Ne.symm h))
  | sync p => rfl

/-- Files no operation names keep their content. -/
theorem runOps_agree {ops : List Op} {q : FilePath} (fs : FileSystem)
    (h : ∀ op ∈ ops, op.path ≠ q) : (runOps fs ops).readFile q = fs.readFile q := by
  induction ops generalizing fs with
  | nil => rfl
  | cons op ops ih =>
    rw [runOps_cons, ih _ fun op' hop' => h op' (List.mem_cons_of_mem _ hop'),
      readFile_run_of_ne fs (h op List.mem_cons_self)]

/-- An interrupted run leaves the files it does not name alone, too. -/
theorem CutAt.agree {ops : List Op} {fs fs' : FileSystem} {q : FilePath} (hcut : CutAt ops fs fs')
    (h : ∀ op ∈ ops, op.path ≠ q) : fs'.readFile q = fs.readFile q := by
  induction hcut with
  | stop => rfl
  | @inWrite p bs pre ops fs hpre =>
    have hne : p ≠ q := h (.write p bs) List.mem_cons_self
    exact (readFile_append fs p q pre).trans (if_neg (Ne.symm hne))
  | @step op ops fs fs' _ ih =>
    rw [ih fun op' hop' => h op' (List.mem_cons_of_mem _ hop'),
      readFile_run_of_ne fs (h op List.mem_cons_self)]

/-- A run of two parts is cut in the first one, or in the second one after the first. -/
theorem cutAt_append {ops ops' : List Op} {fs fs' : FileSystem}
    (h : CutAt (ops ++ ops') fs fs') : CutAt ops fs fs' ∨ CutAt ops' (runOps fs ops) fs' := by
  induction ops generalizing fs with
  | nil => exact .inr h
  | cons op ops ih =>
    rw [List.cons_append] at h
    cases h with
    | stop => exact .inl (.stop _ _)
    | inWrite p _ _ hpre => exact .inl (.inWrite p ops _ hpre)
    | step h =>
      rcases ih h with h | h
      · exact .inl (.step h)
      · exact .inr h

/-- Rewrite a file in place: create or truncate it, write it, flush it. -/
def rewriteOps (p : FilePath) (bs : Bytes) : List Op := [.create p, .write p bs, .sync p]

theorem path_of_mem_rewriteOps {p : FilePath} {bs : Bytes} {op : Op} (h : op ∈ rewriteOps p bs) :
    op.path = p := by
  simp only [rewriteOps, List.mem_cons, List.not_mem_nil, or_false] at h
  rcases h with rfl | rfl | rfl <;> rfl

theorem readFile_runOps_rewriteOps (fs : FileSystem) (p q : FilePath) (bs : Bytes) :
    (runOps fs (rewriteOps p bs)).readFile q = if q = p then some bs else fs.readFile q := by
  by_cases hq : q = p
  · subst hq
    simp [rewriteOps, Op.run, readFile_append, readFile_create]
  · rw [if_neg hq]
    exact runOps_agree fs fun op hop => by rw [path_of_mem_rewriteOps hop]; exact Ne.symm hq

/-- **A rewrite cut short leaves the old content, or a prefix of the new one.** -/
theorem CutAt.readFile_rewriteOps {p : FilePath} {bs : Bytes} {fs fs' : FileSystem}
    (h : CutAt (rewriteOps p bs) fs fs') :
    fs'.readFile p = fs.readFile p ∨ ∃ pre, pre <+: bs ∧ fs'.readFile p = some pre := by
  have hcreate : (fs.create p).readFile p = some [] := by rw [readFile_create, if_pos rfl]
  have happend (pre : Bytes) : ((fs.create p).append p pre).readFile p = some pre := by
    rw [readFile_append, if_pos rfl, hcreate]; rfl
  unfold rewriteOps at h
  cases h with
  | stop => exact .inl rfl
  | step h =>
    cases h with
    | stop => exact .inr ⟨[], List.nil_prefix, hcreate⟩
    | inWrite _ _ _ hpre => exact .inr ⟨_, hpre, happend _⟩
    | step h =>
      -- the flush changes nothing, so before it and after it the whole text is there
      cases h with
      | stop => exact .inr ⟨bs, List.prefix_rfl, happend bs⟩
      | step h =>
        cases h
        exact .inr ⟨bs, List.prefix_rfl, happend bs⟩

end FileSystem
