import KuzuEventBus.Lib.FileOps

/-!
# Extraction into a directory with files

`TarFile.extractall` into a directory that need not be empty, one member of the archive after the
other.  A directory that is there is kept with what is in it, and a file is written over another
one.

## Main definitions

* `makeDirectory`, `extractMember`, `extractMembers`, `extractInto` — the operations and programs.
* `FileStep`, `memberSteps`, `performSteps` — the same as a list of single steps.

## Main results

* `performSteps_membersSteps` — the steps of an extraction, one after the other, are the extraction.

* `mem_extractMembers_iff` — **beside other entries, an extraction that returns leaves the entries
  of the archive, and nothing else is changed.**
-/

namespace FileOps

open FileTree

/-- `os.mkdir`, which is not told that there is something. -/
def makeDirectory (p : FilePath) : FileOp Unit := fun d =>
  match get p.dropLast d, get p d with
  | some (.dir _), none => ((.ok (), put p (some (.dir [])) d), [d])
  | some (.dir _), some _ => ((.ok (), d), [d])
  | _, _ => refuse "NotADirectoryError" d

mutual

/-- The extraction of a member to a path. -/
def extractMember : FilePath → FileTree → FileM Unit
  | p, .file content => perform (writeBytes p content)
  | p, .dir entries => do
    perform (makeDirectory p)
    extractMembers p entries

/-- The extraction of members into a directory. -/
def extractMembers : FilePath → List (String × FileTree) → FileM Unit
  | _, [] => pure ()
  | p, (name, x) :: entries => do
    extractMember (p ++ [name]) x
    extractMembers p entries

end

/-- `tarfile.open` and `extractall`. -/
def extractInto (archive : Archive) (p : FilePath) : FileM Unit :=
  match archive with
  | .unreadable => raise "ReadError"
  | .readable entries complete => do
    extractMembers p entries
    if complete then pure () else raise "ReadError"

/-! ### Single steps -/

/-- A step of an extraction: a directory is made, or a file is written. -/
structure FileStep where
  path : FilePath
  content : Option Bytes

/-- The operation of a step. -/
def FileStep.op (fileStep : FileStep) : FileOp Unit :=
  match fileStep.content with
  | none => makeDirectory fileStep.path
  | some content => writeBytes fileStep.path content

mutual

/-- The steps of a member, each directory before what is in it. -/
def memberSteps : FilePath → FileTree → List FileStep
  | p, .file content => [⟨p, some content⟩]
  | p, .dir entries => ⟨p, none⟩ :: membersSteps p entries

/-- The steps of the members, in their order. -/
def membersSteps : FilePath → List (String × FileTree) → List FileStep
  | _, [] => []
  | p, (name, x) :: entries => memberSteps (p ++ [name]) x ++ membersSteps p entries

end

/-- One step after the other. -/
def performSteps : List FileStep → FileM Unit
  | [] => pure ()
  | fileStep :: rest => do
    perform fileStep.op
    performSteps rest

theorem performSteps_append (l₁ l₂ : List FileStep) :
    performSteps (l₁ ++ l₂) = performSteps l₁ >>= fun _ => performSteps l₂ := by
  induction l₁ with
  | nil => exact (pure_bind_run () fun _ => performSteps l₂).symm
  | cons fileStep l₁ ih =>
    show (perform fileStep.op >>= fun _ => performSteps (l₁ ++ l₂)) =
      (perform fileStep.op >>= fun _ => performSteps l₁) >>= fun _ => performSteps l₂
    rw [ih, bind_assoc_run]

mutual

theorem performSteps_memberSteps (p : FilePath) (x : FileTree) :
    performSteps (memberSteps p x) = extractMember p x := by
  cases x with
  | file content =>
    unfold memberSteps extractMember performSteps performSteps
    exact bind_pure_run _
  | dir entries =>
    unfold memberSteps extractMember performSteps
    rw [performSteps_membersSteps p entries]
    rfl

/-- **The steps of an extraction, one after the other, are the extraction.** -/
theorem performSteps_membersSteps (p : FilePath) (entries : Entries) :
    performSteps (membersSteps p entries) = extractMembers p entries := by
  cases entries with
  | nil => rfl
  | cons entry entries =>
    obtain ⟨name, x⟩ := entry
    unfold membersSteps extractMembers
    rw [performSteps_append, performSteps_memberSteps (p ++ [name]) x,
      performSteps_membersSteps p entries]

end

section

variable {fileStep : FileStep} {d d' : Disk}

/-- A step changes at most its path, and nothing where there is a directory. -/
theorem eq_or_put_of_mem_op (hd' : d' ∈ disks fileStep.op d) :
    d' = d ∨ ¬ IsDir (get fileStep.path d) ∧ ∃ o, d' = put fileStep.path o d := by
  obtain ⟨path, content⟩ := fileStep
  cases content with
  | none =>
    have hd' : d' ∈ disks (makeDirectory path) d := hd'
    unfold disks makeDirectory at hd'
    split at hd'
    · next hnone =>
      rcases List.mem_cons.1 hd' with rfl | hd'
      · refine Or.inr ⟨?_, _, rfl⟩
        rw [hnone]
        rintro ⟨entries, hentries⟩
        cases hentries
      · exact Or.inl (List.mem_singleton.1 hd')
    · refine Or.inl ?_
      simpa using hd'
    · exact Or.inl (eq_of_mem_refuse rfl hd')
  | some content =>
    have hd' : d' ∈ disks (writeBytes path content) d := hd'
    by_cases hdir : IsDir (get path d)
    · exact Or.inl (eq_of_mem_writeBytes (Or.inl hdir) hd')
    · rcases touches_writeBytes path content d d' hd' with rfl | hput
      · exact Or.inl rfl
      · exact Or.inr ⟨hdir, hput⟩

/-- The directories on the way to a step, and those it goes to, stay directories. -/
theorem isDir_of_mem_op {q : FilePath} (h : IsDir (get q d)) (hd' : d' ∈ disks fileStep.op d) :
    IsDir (get q d') := by
  rcases eq_or_put_of_mem_op hd' with rfl | ⟨hnot, o, rfl⟩
  · exact h
  · by_cases hbelow : fileStep.path <+: q
    · -- what leads to a directory is one
      obtain ⟨rest, hrest⟩ := hbelow
      cases rest with
      | nil =>
        rw [List.append_nil] at hrest
        rw [hrest] at hnot
        exact absurd h hnot
      | cons name rest =>
        rw [← hrest, get_append, get_cons_of_not_isDir hnot] at h
        obtain ⟨entries, hentries⟩ := h
        cases hentries
    · by_cases habove : q <+: fileStep.path
      · obtain ⟨rest, hrest⟩ := habove
        cases rest with
        | nil => exact absurd (by rw [← hrest, List.append_nil]) hbelow
        | cons name rest =>
          rw [← hrest]
          exact isDir_put_append h name rest _
      · rwa [get_put_of_apart ⟨hbelow, habove⟩]

end

/-! ### What an extraction leaves -/

section

variable {d : Disk} {p : FilePath} {name : String} {there : Entries}

theorem makeDirectory_of_none (hparent : get p d = some (.dir there))
    (hnone : there.lookup name = none) :
    (makeDirectory (p ++ [name]) d).1 = (.ok (), put (p ++ [name]) (some (.dir [])) d) := by
  unfold makeDirectory
  rw [List.dropLast_concat, get_append, hparent, get_cons_dir, get_nil, hnone]

theorem makeDirectory_of_isDir (hparent : IsDir (get p d))
    (hthere : IsDir (get (p ++ [name]) d)) : (makeDirectory (p ++ [name]) d).1 = (.ok (), d) := by
  obtain ⟨entries, hentries⟩ := hparent
  obtain ⟨entries', hentries'⟩ := hthere
  unfold makeDirectory
  rw [List.dropLast_concat, hentries, hentries']

/-- A new entry is put after those that are there. -/
theorem put_entry (h : get p d = some (.dir there)) (hnone : there.lookup name = none)
    (x : FileTree) :
    put (p ++ [name]) (some x) d = put p (some (.dir (there ++ [(name, x)]))) d := by
  rw [put_append, h, put_cons_dir, put_nil, setEntry_of_lookup_none hnone]

end

mutual

/-- **A member is extracted to where there is nothing.** -/
theorem mem_extractMember_iff {faults : Bool} {d d' : Disk} {p : FilePath} {name : String}
    {there : Entries} (x : FileTree) (hx : x.Distinct) (h : get p d = some (.dir there))
    (hnone : there.lookup name = none) :
    (.ok (), d') ∈ extractMember (p ++ [name]) x faults d ↔
      d' = put p (some (.dir (there ++ [(name, x)]))) d := by
  cases x with
  | file content =>
    have hnot : ¬ IsDir (get (p ++ [name]) d) := by
      rw [get_append, h, get_cons_dir, get_nil, hnone]
      rintro ⟨entries, hentries⟩
      cases hentries
    unfold extractMember
    rw [mem_perform_ok_iff,
      writeBytes_of_not_isDir hnot (by rw [List.dropLast_concat]; exact ⟨_, h⟩),
      put_entry h hnone, Prod.mk.injEq, eq_comm (a := put _ _ _)]
    exact and_iff_right rfl
  | dir entries =>
    have hmade := makeDirectory_of_none h hnone
    rw [put_entry h hnone] at hmade
    have hsome : (get p d).isSome := by
      rw [h]
      rfl
    have hthere : get p (put p (some (.dir (there ++ [(name, .dir [])]))) d) =
        some (.dir (there ++ [(name, .dir [])])) := get_put_of_isSome hsome _
    have hempty : get (p ++ [name]) (put p (some (.dir (there ++ [(name, .dir [])]))) d) =
        some (.dir []) := by
      rw [get_append, hthere, get_cons_dir, get_nil, List.lookup_append, hnone]
      simp
    have hnested : (.ok (), d') ∈ extractMembers (p ++ [name]) entries faults
        (put p (some (.dir (there ++ [(name, .dir [])]))) d) ↔ d' = put (p ++ [name])
          (some (.dir ([] ++ entries))) (put p (some (.dir (there ++ [(name, .dir [])]))) d) :=
      mem_extractMembers_iff entries hx hempty fun _ _ => rfl
    -- the members are put into the new directory
    have hput : put (p ++ [name]) (some (.dir ([] ++ entries)))
        (put p (some (.dir (there ++ [(name, .dir [])]))) d) =
          put p (some (.dir (there ++ [(name, .dir entries)]))) d := by
      rw [put_append, hthere, put_cons_dir, put_nil, put_put hsome,
        ← setEntry_of_lookup_none (x := .dir []) hnone, setEntry_setEntry,
        setEntry_of_lookup_none hnone, List.nil_append]
    rw [hput] at hnested
    unfold extractMember
    rw [mem_bind_ok_iff]
    constructor
    · rintro ⟨a, d₁, hmake, hrest⟩
      rw [mem_perform_ok_iff, hmade] at hmake
      cases hmake
      exact hnested.1 hrest
    · intro hd'
      exact ⟨(), _, mem_perform_ok_iff.2 hmade, hnested.2 hd'⟩

/-- **Beside other entries, the entries of the archive are extracted.** -/
theorem mem_extractMembers_iff {faults : Bool} {d d' : Disk} {p : FilePath} {there : Entries}
    (entries : Entries) (hentries : DistinctEntries entries)
    (h : get p d = some (.dir there))
    (hnone : ∀ name ∈ entries.map Prod.fst, there.lookup name = none) :
    (.ok (), d') ∈ extractMembers p entries faults d ↔
      d' = put p (some (.dir (there ++ entries))) d := by
  cases entries with
  | nil =>
    unfold extractMembers
    rw [mem_pure_ok_iff, List.append_nil, ← h, put_get]
    exact and_iff_right rfl
  | cons entry entries =>
    obtain ⟨name, x⟩ := entry
    obtain ⟨hnew, hx, hrest⟩ := hentries
    have hname : there.lookup name = none := hnone name List.mem_cons_self
    have hsome : (get p d).isSome := by
      rw [h]
      rfl
    have hthere : get p (put p (some (.dir (there ++ [(name, x)]))) d) =
        some (.dir (there ++ [(name, x)])) := get_put_of_isSome hsome _
    -- the names are distinct, so what is extracted now is not in the way of the rest
    have hfree : ∀ name' ∈ entries.map Prod.fst,
        (there ++ [(name, x)]).lookup name' = none := by
      intro name' hname'
      have hne : (name' == name) = false := by
        rw [beq_eq_false_iff_ne]
        rintro rfl
        exact hnew hname'
      rw [List.lookup_append, hnone name' (List.mem_cons_of_mem _ hname'), Option.none_or,
        List.lookup_cons, hne]
      rfl
    have hmembers : (.ok (), d') ∈ extractMembers p entries faults
        (put p (some (.dir (there ++ [(name, x)]))) d) ↔
          d' = put p (some (.dir (there ++ [(name, x)] ++ entries)))
            (put p (some (.dir (there ++ [(name, x)]))) d) :=
      mem_extractMembers_iff entries hrest hthere hfree
    rw [put_put hsome, List.append_assoc] at hmembers
    unfold extractMembers
    rw [mem_bind_ok_iff]
    constructor
    · rintro ⟨a, d₁, hmember, hmore⟩
      rw [mem_extractMember_iff x hx h hname] at hmember
      subst hmember
      exact hmembers.1 hmore
    · intro hd'
      exact ⟨(), _, (mem_extractMember_iff x hx h hname).2 rfl, hmembers.2 hd'⟩

end

end FileOps
