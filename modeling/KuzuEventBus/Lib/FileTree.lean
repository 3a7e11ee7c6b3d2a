import KuzuEventBus.Lib.FileSystem

/-!
# Trees of files

A file or a directory as a value: what lies at a path, and how it is replaced.  A directory lists
its entries in an order of its own, in which programs that walk it go through them.

Two paths neither of which leads to the other are apart; what happens at one is not seen at the
other.

## Main definitions

* `FileTree`, `get`, `put` — trees, what is at a path, and putting something there.
* `Apart` — neither path is a prefix of the other.
* `removals`, `partialCopies` — the states of a recursive removal, and what a recursive copy that
  fails can leave.

## Main results

* `get_put_self`, `get_put_append`, `get_put_of_apart` — what is at a path after a change.
* `put_get` — putting back what is there changes nothing.
-/

/-- A file, or a directory with its entries. -/
inductive FileTree where
  | file (content : Bytes)
  | dir (entries : List (String × FileTree))

namespace FileTree

/-- The entries of a directory. -/
abbrev Entries := List (String × FileTree)

/-- There is a directory. -/
def IsDir (t : Option FileTree) : Prop := ∃ entries, t = some (.dir entries)

/-- The entries with what is under a name replaced. -/
def setEntry (name : String) : Option FileTree → Entries → Entries
  | none, entries => entries.filter fun entry => entry.1 ≠ name
  | some x, [] => [(name, x)]
  | some x, (name', y) :: entries =>
    if name' = name then (name, x) :: entries else (name', y) :: setEntry name (some x) entries

/-- What is at a path below a tree. -/
def get : FilePath → Option FileTree → Option FileTree
  | [], t => t
  | name :: p, some (.dir entries) => get p (entries.lookup name)
  | _ :: _, _ => none

/-- The tree with what is at a path replaced; nothing changes when the path does not lead through
directories. -/
def put : FilePath → Option FileTree → Option FileTree → Option FileTree
  | [], x, _ => x
  | name :: p, x, some (.dir entries) =>
    some (.dir (setEntry name (put p x (entries.lookup name)) entries))
  | _ :: _, _, t => t

/-! ### The entries of a directory -/

variable {name name' : String} {entries : Entries} {x : FileTree} {o t : Option FileTree}

theorem lookup_setEntry :
    (setEntry name o entries).lookup name' =
      if name' = name then o else entries.lookup name' := by
  cases o with
  | none =>
    unfold setEntry
    induction entries with
    | nil => simp
    | cons entry entries ih =>
      obtain ⟨name₀, y⟩ := entry
      by_cases hname : name₀ = name
      -- the entry goes, and any other one of its name
      · subst hname
        rw [List.filter_cons_of_neg (by simp), ih]
        split
        · rfl
        · next hne =>
          have hne : (name' == name₀) = false := by simpa using hne
          rw [List.lookup_cons, hne]
      · rw [List.filter_cons_of_pos (by simpa using hname), List.lookup_cons, List.lookup_cons, ih]
        by_cases heq : name' = name
        · subst heq
          have hne : (name' == name₀) = false := by simpa using fun h => hname h.symm
          simp [hne]
        · simp [heq]
  | some x =>
    induction entries with
    | nil =>
      unfold setEntry
      by_cases heq : name' = name
      · subst heq
        simp
      · have hne : (name' == name) = false := by simpa using heq
        simp [heq, List.lookup_cons, hne]
    | cons entry entries ih =>
      obtain ⟨name₀, y⟩ := entry
      unfold setEntry
      by_cases hname : name₀ = name
      · subst hname
        rw [if_pos rfl]
        by_cases heq : name' = name₀
        · subst heq
          simp
        · have hne : (name' == name₀) = false := by simpa using heq
          simp [heq, List.lookup_cons, hne]
      · rw [if_neg hname, List.lookup_cons, List.lookup_cons, ih]
        by_cases heq : name' = name
        · subst heq
          have hne : (name' == name₀) = false := by simpa using fun h => hname h.symm
          simp [hne]
        · simp [heq]

/-- Setting an entry to what it is changes nothing. -/
theorem setEntry_lookup (name : String) (entries : Entries) :
    setEntry name (entries.lookup name) entries = entries := by
  induction entries with
  | nil => rfl
  | cons entry entries ih =>
    obtain ⟨name₀, y⟩ := entry
    by_cases hname : name₀ = name
    · subst hname
      rw [List.lookup_cons, beq_self_eq_true]
      exact if_pos rfl
    · have hne : (name == name₀) = false := by simpa using fun h => hname h.symm
      rw [List.lookup_cons, hne]
      dsimp only
      cases hlookup : entries.lookup name with
      | none =>
        rw [hlookup] at ih
        unfold setEntry at ih ⊢
        rw [List.filter_cons_of_pos (by simpa using hname), ih]
      | some x =>
        rw [hlookup] at ih
        unfold setEntry
        rw [if_neg hname, ih]

/-- A new entry is the last. -/
theorem setEntry_of_lookup_none (h : entries.lookup name = none) :
    setEntry name (some x) entries = entries ++ [(name, x)] := by
  induction entries with
  | nil => rfl
  | cons entry entries ih =>
    obtain ⟨name₀, y⟩ := entry
    rw [List.lookup_cons] at h
    split at h
    · cases h
    · next hne =>
      have hname : name₀ ≠ name := by
        rintro rfl
        simp at hne
      unfold setEntry
      rw [if_neg hname, ih h]
      rfl

/-- An entry that is set again is set once. -/
theorem setEntry_setEntry : setEntry name o (setEntry name (some x) entries) =
    setEntry name o entries := by
  induction entries with
  | nil => cases o <;> simp [setEntry]
  | cons entry entries ih =>
    obtain ⟨name₀, y⟩ := entry
    by_cases hname : name₀ = name
    · subst hname
      cases o <;> simp [setEntry]
    · have hother : ∀ z l, setEntry name (some z) ((name₀, y) :: l) =
          (name₀, y) :: setEntry name (some z) l := fun z l => if_neg hname
      have hnone : ∀ l, setEntry name none ((name₀, y) :: l) =
          (name₀, y) :: setEntry name none l := by
        intro l
        unfold setEntry
        exact List.filter_cons_of_pos (by simpa using hname)
      cases o with
      | none => rw [hother, hnone, hnone, ih]
      | some z => rw [hother, hother, hother, ih]

theorem sizeOf_lookup (h : entries.lookup name = some x) : sizeOf x < sizeOf entries := by
  induction entries with
  | nil => cases h
  | cons entry entries ih =>
    obtain ⟨name₀, y⟩ := entry
    rw [List.lookup_cons] at h
    split at h
    · cases h
      simp only [List.cons.sizeOf_spec, Prod.mk.sizeOf_spec]
      omega
    · have hlt := ih h
      simp only [List.cons.sizeOf_spec]
      omega

/-- A directory is in none of its entries. -/
theorem ne_dir_of_lookup (h : entries.lookup name = some x) : x ≠ .dir entries := by
  rintro rfl
  have hlt := sizeOf_lookup h
  simp only [FileTree.dir.sizeOf_spec] at hlt
  omega

/-! ### What is at a path -/

variable {p q : FilePath}

@[simp] theorem get_nil (t : Option FileTree) : get [] t = t := rfl

@[simp] theorem get_cons_dir (name : String) (p : FilePath) (entries : Entries) :
    get (name :: p) (some (.dir entries)) = get p (entries.lookup name) := rfl

@[simp] theorem put_nil (o t : Option FileTree) : put [] o t = o := rfl

@[simp] theorem put_cons_dir (name : String) (p : FilePath) (o : Option FileTree)
    (entries : Entries) : put (name :: p) o (some (.dir entries)) =
      some (.dir (setEntry name (put p o (entries.lookup name)) entries)) := rfl

@[simp]
theorem get_cons_none (name : String) (p : FilePath) : get (name :: p) none = none := rfl

@[simp]
theorem get_cons_file (name : String) (p : FilePath) (content : Bytes) :
    get (name :: p) (some (.file content)) = none := rfl

/-- Nothing lies below what is no directory. -/
theorem get_cons_of_not_isDir (h : ¬ IsDir t) (name : String) (p : FilePath) :
    get (name :: p) t = none := by
  rcases t with _ | (content | entries)
  · rfl
  · rfl
  · exact absurd ⟨entries, rfl⟩ h

theorem put_cons_of_not_isDir (h : ¬ IsDir t) (name : String) (p : FilePath)
    (o : Option FileTree) : put (name :: p) o t = t := by
  rcases t with _ | (content | entries)
  · rfl
  · rfl
  · exact absurd ⟨entries, rfl⟩ h

@[simp]
theorem get_none (p : FilePath) : get p none = none := by
  cases p <;> rfl

/-- Nothing lies in an empty directory. -/
@[simp]
theorem get_cons_empty (name : String) (p : FilePath) : get (name :: p) (some (.dir [])) = none :=
  get_none p

/-- Nothing is put into what is no directory. -/
theorem put_append_of_not_isDir {p : FilePath} (h : ¬ IsDir (get p t)) (name : String)
    (q : FilePath) (o : Option FileTree) : put (p ++ name :: q) o t = t := by
  induction p generalizing t with
  | nil => exact put_cons_of_not_isDir h name q o
  | cons name' p ih =>
    by_cases hdir : IsDir t
    · obtain ⟨entries, rfl⟩ := hdir
      rw [List.cons_append, put_cons_dir, ih h, setEntry_lookup]
    · exact put_cons_of_not_isDir hdir _ _ o

theorem get_append (p q : FilePath) (t : Option FileTree) :
    get (p ++ q) t = get q (get p t) := by
  induction p generalizing t with
  | nil => rfl
  | cons name p ih =>
    by_cases hdir : IsDir t
    · obtain ⟨entries, rfl⟩ := hdir
      exact ih (entries.lookup name)
    · rw [List.cons_append, get_cons_of_not_isDir hdir, get_cons_of_not_isDir hdir]
      cases q with
      | nil =>
        rfl
      | cons name' q => rfl

/-- What leads to a change changes below it. -/
theorem get_put_append (p q : FilePath) (name : String) (o t : Option FileTree) :
    get p (put (p ++ name :: q) o t) = put (name :: q) o (get p t) := by
  induction p generalizing t with
  | nil => rfl
  | cons name' p ih =>
    by_cases hdir : IsDir t
    · obtain ⟨entries, rfl⟩ := hdir
      rw [List.cons_append, put_cons_dir, get_cons_dir, get_cons_dir, lookup_setEntry, if_pos rfl,
        ih]
    · rw [List.cons_append, put_cons_of_not_isDir hdir, get_cons_of_not_isDir hdir]
      rfl

/-- A directory stays one when something below it is replaced. -/
theorem isDir_put_append (h : IsDir (get p t)) (name : String) (q : FilePath)
    (o : Option FileTree) : IsDir (get p (put (p ++ name :: q) o t)) := by
  obtain ⟨entries, hentries⟩ := h
  rw [get_put_append, hentries]
  exact ⟨_, rfl⟩

/-- What is put into a directory is there. -/
theorem get_put_self (h : IsDir (get p t)) (name : String) (o : Option FileTree) :
    get (p ++ [name]) (put (p ++ [name]) o t) = o := by
  obtain ⟨entries, hentries⟩ := h
  rw [get_append, get_put_append, hentries, put_cons_dir, get_cons_dir, lookup_setEntry, if_pos rfl]
  rfl

/-- Nothing is in an empty directory. -/
theorem get_in_empty (h : get p t = some (.dir [])) (name : String) :
    get (p ++ [name]) t = none := by
  rw [get_append, h]
  rfl

/-- What is put into an empty directory is the only thing there. -/
theorem get_put_in_empty (h : get p t = some (.dir [])) (name : String) (x : FileTree) :
    get p (put (p ++ [name]) (some x) t) = some (.dir [(name, x)]) := by
  rw [get_put_append, h]
  rfl

/-- Putting back what is there changes nothing. -/
theorem put_get (p : FilePath) (t : Option FileTree) : put p (get p t) t = t := by
  induction p generalizing t with
  | nil => rfl
  | cons name p ih =>
    by_cases hdir : IsDir t
    · obtain ⟨entries, rfl⟩ := hdir
      rw [get_cons_dir, put_cons_dir, ih, setEntry_lookup]
    · exact put_cons_of_not_isDir hdir name p _

/-- A change below a path is a change of what is at the path. -/
theorem put_append (p q : FilePath) (o t : Option FileTree) :
    put (p ++ q) o t = put p (put q o (get p t)) t := by
  induction p generalizing t with
  | nil => rfl
  | cons name p ih =>
    by_cases hdir : IsDir t
    · obtain ⟨entries, rfl⟩ := hdir
      rw [List.cons_append, put_cons_dir, put_cons_dir, get_cons_dir, ih]
    · rw [List.cons_append, put_cons_of_not_isDir hdir, put_cons_of_not_isDir hdir]

/-- What is put over something is there. -/
theorem get_put_of_isSome (h : (get p t).isSome) (o : Option FileTree) : get p (put p o t) = o := by
  induction p generalizing t with
  | nil => rfl
  | cons name p ih =>
    by_cases hdir : IsDir t
    · obtain ⟨entries, rfl⟩ := hdir
      rw [put_cons_dir, get_cons_dir, lookup_setEntry, if_pos rfl]
      exact ih h
    · rw [get_cons_of_not_isDir hdir] at h
      cases h

/-- Of two changes at a path the last one counts. -/
theorem put_put (h : (get p t).isSome) (x : FileTree) (o : Option FileTree) :
    put p o (put p (some x) t) = put p o t := by
  induction p generalizing t with
  | nil => rfl
  | cons name p ih =>
    by_cases hdir : IsDir t
    · obtain ⟨entries, rfl⟩ := hdir
      rw [get_cons_dir] at h
      rw [put_cons_dir, put_cons_dir, put_cons_dir, lookup_setEntry, if_pos rfl, ih h]
      have hsome : ∃ y, put p (some x) (entries.lookup name) = some y := by
        cases p with
        | nil => exact ⟨x, rfl⟩
        | cons name' p =>
          rcases hlookup : entries.lookup name with _ | (content | entries')
          · rw [hlookup] at h
            cases h
          · exact ⟨_, rfl⟩
          · exact ⟨_, rfl⟩
      obtain ⟨y, hy⟩ := hsome
      rw [hy, setEntry_setEntry]
    · rw [get_cons_of_not_isDir hdir] at h
      cases h

/-- Neither path leads to the other. -/
def Apart (p q : FilePath) : Prop := ¬ p <+: q ∧ ¬ q <+: p

theorem Apart.symm (h : Apart p q) : Apart q p := ⟨h.2, h.1⟩

/-- What lies below is apart too. -/
theorem Apart.append (h : Apart p q) (r : FilePath) : Apart (p ++ r) q := by
  refine ⟨fun hbelow => h.1 ((List.prefix_append p r).trans hbelow), fun hbelow => ?_⟩
  rcases List.prefix_or_prefix_of_prefix hbelow (List.prefix_append p r) with hqp | hpq
  · exact h.2 hqp
  · exact h.1 hpq

/-- What lies under different names is apart. -/
theorem apart_append (p q q' : FilePath) (h : name ≠ name') :
    Apart (p ++ name :: q) (p ++ name' :: q') := by
  constructor
  · rw [List.prefix_append_right_inj, List.cons_prefix_cons]
    exact fun hbelow => h hbelow.1
  · rw [List.prefix_append_right_inj, List.cons_prefix_cons]
    exact fun hbelow => h hbelow.1.symm

/-- A change is not seen at a path that is apart. -/
theorem get_put_of_apart (h : Apart p q) (o t : Option FileTree) :
    get q (put p o t) = get q t := by
  induction p generalizing q t with
  | nil => exact absurd List.nil_prefix h.1
  | cons name p ih =>
    by_cases hdir : IsDir t
    · obtain ⟨entries, rfl⟩ := hdir
      cases q with
      | nil => exact absurd List.nil_prefix h.2
      | cons name' q =>
        rw [put_cons_dir, get_cons_dir, get_cons_dir, lookup_setEntry]
        split
        · next heq =>
          subst heq
          refine ih ⟨fun hbelow => h.1 ?_, fun hbelow => h.2 ?_⟩ _
          · exact List.cons_prefix_cons.2 ⟨rfl, hbelow⟩
          · exact List.cons_prefix_cons.2 ⟨rfl, hbelow⟩
        · rfl
    · rw [put_cons_of_not_isDir hdir]

/-- A change is not seen in the files that are not below it. -/
theorem get_put_file_iff (h : ¬ p <+: q) (o t : Option FileTree) (content : Bytes) :
    get q (put p o t) = some (.file content) ↔ get q t = some (.file content) := by
  by_cases hq : q <+: p
  · obtain ⟨rest, rfl⟩ := hq
    cases rest with
    | nil =>
      rw [List.append_nil] at h
      exact absurd List.prefix_rfl h
    | cons name rest =>
      rw [get_put_append]
      by_cases hdir : IsDir (get q t)
      · obtain ⟨entries, hentries⟩ := hdir
        rw [hentries, put_cons_dir]
        exact iff_of_false nofun nofun
      · rw [put_cons_of_not_isDir hdir]
  · rw [get_put_of_apart ⟨h, hq⟩]

/-! ### Going through a tree -/

mutual

/-- The names in every directory differ. -/
def Distinct : FileTree → Prop
  | .file _ => True
  | .dir entries => DistinctEntries entries

/-- The names of the entries differ, and those in each of them. -/
def DistinctEntries : List (String × FileTree) → Prop
  | [] => True
  | (name, x) :: entries => name ∉ entries.map Prod.fst ∧ Distinct x ∧ DistinctEntries entries

end

/-- A single entry has one name. -/
theorem distinctEntries_singleton (h : x.Distinct) : DistinctEntries [(name, x)] :=
  ⟨nofun, h, trivial⟩

mutual

/-- The successive states of a recursive removal, the entries of a directory before itself. -/
def removals : FileTree → List (Option FileTree)
  | .file _ => [none]
  | .dir entries => (entryRemovals entries).map (fun left => some (.dir left)) ++ [none]

/-- The successive entries of a directory that is being emptied. -/
def entryRemovals : List (String × FileTree) → List (List (String × FileTree))
  | [] => []
  | (name, x) :: entries =>
    (removals x).map (fun left => (left.map (Prod.mk name)).toList ++ entries) ++
      entryRemovals entries

end

/-- The contents of a file that is being written. -/
def writes (content : Bytes) : List Bytes :=
  (List.range (content.length + 1)).map fun n => content.take n

mutual

/-- What a recursive copy that fails can leave: it goes on after an entry that cannot be copied. -/
def partialCopies : FileTree → List (Option FileTree)
  | .file content => none :: (writes content).map fun written => some (.file written)
  | .dir entries => none :: (partialEntries entries).map fun copied => some (.dir copied)

/-- The entries a directory can be left with. -/
def partialEntries : List (String × FileTree) → List (List (String × FileTree))
  | [] => [[]]
  | (name, x) :: entries =>
    (partialCopies x).flatMap fun copied =>
      (partialEntries entries).map fun rest => (copied.map (Prod.mk name)).toList ++ rest

end

end FileTree
