import KuzuEventBus.Lib.FileTree

/-!
# Programs on files, and their failures

Programs that work on a tree of files one operation after the other.  Each operation returns or
raises by what it finds; where failures are admitted it can also raise for reasons of the system,
after any part of its work.  A program has the list of its outcomes.

The operations are those of Python's `pathlib`, `os`, `shutil`, `tempfile` and `tarfile`, on regular
files and directories.

## Main definitions

* `Disk`, `Outcome`, `FileOp` — the tree, and what an operation does and can leave.
* `FileM`, `perform`, `raise`, `finallyDo`, `suppress` — programs.
* `Triple` — what holds after a program that returns, and after one that raises.
* `mkdir`, `mkdtemp`, `replace`, `rmtree`, `copytree`, `copy2`, … — the operations.

## Main results

* `Triple.bind`, `Triple.perform`, `Triple.finallyDo`, … — the rules.
* `get_of_mem_mkdir`, `Touches.get` — what an operation does not change.
-/

namespace FileOps

open FileTree

/-- What is on the disk. -/
abbrev Disk := Option FileTree

/-- What a program returns or raises, and the disk after it. -/
abbrev Outcome (α : Type) := Except String α × Disk

/-- An operation: its outcome, and the disks a failure can leave. -/
abbrev FileOp (α : Type) := Disk → Outcome α × List Disk

/-- A program: its outcomes, with the failures of the system or without them. -/
def FileM (α : Type) := Bool → Disk → List (Outcome α)

variable {α β : Type}

/-- The rest of a program, after an outcome. -/
def andThen (f : α → FileM β) (faults : Bool) : Outcome α → List (Outcome β)
  | (.ok a, d) => f a faults d
  | (.error e, d) => [(.error e, d)]

instance : Monad FileM where
  pure a := fun _ d => [(.ok a, d)]
  bind m f := fun faults d => (m faults d).flatMap (andThen f faults)

/-- An operation of a program. -/
def perform (op : FileOp α) : FileM α := fun faults d =>
  (op d).1 :: if faults then (op d).2.map fun d' => (.error "OSError", d') else []

/-- `raise`. -/
def raise (e : String) : FileM α := fun _ d => [(.error e, d)]

/-- `try: … finally: …`, after an outcome of the first part: an exception of the second takes the
place of it. -/
def thenFinally (cleanup : FileM Unit) (faults : Bool) (o : Outcome α) : List (Outcome α) :=
  (cleanup faults o.2).map fun o' =>
    match o'.1 with
    | .ok _ => (o.1, o'.2)
    | .error e => (.error e, o'.2)

/-- `try: … finally: …`. -/
def finallyDo (body : FileM α) (cleanup : FileM Unit) : FileM α := fun faults d =>
  (body faults d).flatMap (thenFinally cleanup faults)

/-- `try: … except Exception: pass`. -/
def suppress (body : FileM Unit) : FileM Unit := fun faults d =>
  (body faults d).map fun o => (.ok (), o.2)

/-! ### Outcomes -/

section Outcomes

variable {m : FileM α} {f : α → FileM β} {op : FileOp α} {cleanup : FileM Unit} {faults : Bool}
  {d d' : Disk} {a : α} {e : String}

theorem pure_run (a : α) (faults : Bool) (d : Disk) :
    (pure a : FileM α) faults d = [(.ok a, d)] := rfl

theorem bind_run (m : FileM α) (f : α → FileM β) (faults : Bool) (d : Disk) :
    (m >>= f) faults d = (m faults d).flatMap (andThen f faults) := rfl

theorem raise_run (e : String) (faults : Bool) (d : Disk) :
    (raise e : FileM α) faults d = [(.error e, d)] := rfl

theorem pure_bind_run (a : α) (f : α → FileM β) : (pure a >>= f) = f a := by
  funext faults d
  exact List.append_nil _

theorem bind_pure_run (m : FileM α) : (m >>= pure) = m := by
  funext faults d
  rw [bind_run]
  induction m faults d with
  | nil => rfl
  | cons o outcomes ih =>
    rw [List.flatMap_cons, ih]
    obtain ⟨e | a, d'⟩ := o
    · rfl
    · rfl

theorem bind_assoc_run {γ : Type} (m : FileM α) (f : α → FileM β) (g : β → FileM γ) :
    (m >>= f >>= g) = m >>= fun a => f a >>= g := by
  funext faults d
  rw [bind_run, bind_run, bind_run, List.flatMap_assoc]
  congr 1
  funext o
  obtain ⟨e | a, d'⟩ := o
  · exact List.append_nil _
  · rfl

/-- Without failures an operation has one outcome. -/
theorem perform_run (op : FileOp α) (d : Disk) : perform op false d = [(op d).1] := rfl

theorem perform_sure {o : Outcome α} (h : (op d).1 = o) : perform op false d = [o] := by
  rw [perform_run, h]

/-- A program that surely returns goes on. -/
theorem bind_of_ok (h : m faults d = [(.ok a, d')]) : (m >>= f) faults d = f a faults d' := by
  rw [bind_run, h]
  exact List.append_nil _

/-- A program that surely raises stops. -/
theorem bind_of_error (h : m faults d = [(.error e, d')]) :
    (m >>= f) faults d = [(.error e, d')] := by
  rw [bind_run, h]
  rfl

theorem finallyDo_of_eq {o : Outcome α} (h : m faults d = [o])
    (hcleanup : cleanup faults o.2 = [(.ok (), d')]) :
    finallyDo m cleanup faults d = [(o.1, d')] := by
  unfold finallyDo
  rw [h, List.flatMap_cons, List.flatMap_nil, List.append_nil]
  unfold thenFinally
  rw [hcleanup]
  rfl

theorem suppress_of_eq {body : FileM Unit} {o : Outcome Unit} (h : body faults d = [o]) :
    suppress body faults d = [(.ok (), o.2)] := by
  unfold suppress
  rw [h]
  rfl

/-- The outcome of an operation is one of the program. -/
theorem mem_perform (op : FileOp α) (faults : Bool) (d : Disk) :
    (op d).1 ∈ perform op faults d := List.mem_cons_self

/-- What a failure leaves is an outcome. -/
theorem mem_perform_of_fails (h : d' ∈ (op d).2) :
    ((.error "OSError", d') : Outcome α) ∈ perform op true d :=
  List.mem_cons_of_mem _ (List.mem_map.2 ⟨d', h, rfl⟩)

theorem mem_bind_of_ok {o : Outcome β} (h : (.ok a, d') ∈ m faults d)
    (ho : o ∈ f a faults d') : o ∈ (m >>= f) faults d :=
  List.mem_flatMap.2 ⟨_, h, ho⟩

theorem mem_bind_of_error (h : (.error e, d') ∈ m faults d) :
    ((.error e, d') : Outcome β) ∈ (m >>= f) faults d :=
  List.mem_flatMap.2 ⟨_, h, List.mem_cons_self⟩

/-- The rest of a program, after an operation that returns. -/
theorem mem_bind_perform {o : Outcome β} (h : (op d).1 = (.ok a, d')) (ho : o ∈ f a faults d') :
    o ∈ (perform op >>= f) faults d :=
  mem_bind_of_ok (h ▸ mem_perform op faults d) ho

theorem mem_finallyDo {o : Outcome α} {o' : Outcome Unit} (h : o ∈ m faults d)
    (ho' : o' ∈ cleanup faults o.2) :
    (match o'.1 with
      | .ok _ => (o.1, o'.2)
      | .error e => (.error e, o'.2)) ∈ finallyDo m cleanup faults d :=
  List.mem_flatMap.2 ⟨o, h, List.mem_map.2 ⟨o', ho', rfl⟩⟩

/-! ### Outcomes that return -/

theorem mem_pure_ok_iff {a' : α} :
    (.ok a', d') ∈ (pure a : FileM α) faults d ↔ a' = a ∧ d' = d := by
  rw [pure_run, List.mem_singleton, Prod.mk.injEq, Except.ok.injEq]

theorem not_mem_raise : (.ok a, d') ∉ (raise e : FileM α) faults d := by
  rw [raise_run, List.mem_singleton]
  nofun

theorem mem_perform_ok_iff : (.ok a, d') ∈ perform op faults d ↔ (op d).1 = (.ok a, d') := by
  unfold perform
  rw [List.mem_cons, eq_comm]
  refine or_iff_left fun h => ?_
  cases faults with
  | false => cases h
  | true =>
    obtain ⟨d'', -, heq⟩ := List.mem_map.1 h
    cases heq

/-- A program returns when its parts do, one after the other. -/
theorem mem_bind_ok_iff {b : β} : (.ok b, d') ∈ (m >>= f) faults d ↔
    ∃ a d₁, (.ok a, d₁) ∈ m faults d ∧ (.ok b, d') ∈ f a faults d₁ := by
  rw [bind_run, List.mem_flatMap]
  constructor
  · rintro ⟨⟨e | a, d₁⟩, hm, hf⟩
    · cases List.mem_singleton.1 hf
    · exact ⟨a, d₁, hm, hf⟩
  · rintro ⟨a, d₁, hm, hf⟩
    exact ⟨_, hm, hf⟩

theorem mem_finallyDo_ok_iff : (.ok a, d') ∈ finallyDo m cleanup faults d ↔
    ∃ d₁, (.ok a, d₁) ∈ m faults d ∧ (.ok (), d') ∈ cleanup faults d₁ := by
  unfold finallyDo thenFinally
  rw [List.mem_flatMap]
  constructor
  · rintro ⟨⟨r, d₁⟩, hm, hcleanup⟩
    obtain ⟨⟨e | u, d₂⟩, ho, heq⟩ := List.mem_map.1 hcleanup
    · cases heq
    · cases heq
      exact ⟨d₁, hm, ho⟩
  · rintro ⟨d₁, hm, hcleanup⟩
    exact ⟨_, hm, List.mem_map.2 ⟨_, hcleanup, rfl⟩⟩

end Outcomes

/-! ### Triples -/

/-- What holds of an outcome. -/
def Ensures (R : α → Disk → Prop) (E : Disk → Prop) : Outcome α → Prop
  | (.ok a, d) => R a d
  | (.error _, d) => E d

/-- From any disk with `P`, the program leaves one with `R` when it returns, and one with `E` when
it raises, wherever that is. -/
def Triple (P : Disk → Prop) (m : FileM α) (R : α → Disk → Prop) (E : Disk → Prop) : Prop :=
  ∀ d, P d → ∀ o ∈ m true d, Ensures R E o

namespace Triple

variable {P P' E E' : Disk → Prop} {R R' : α → Disk → Prop} {S : β → Disk → Prop} {m : FileM α}
  {f : α → FileM β} {op : FileOp α} {cleanup : FileM Unit}

theorem conseq (h : Triple P m R E) (hP : ∀ d, P' d → P d) (hR : ∀ a d, R a d → R' a d)
    (hE : ∀ d, E d → E' d) : Triple P' m R' E' := by
  rintro d hd ⟨a | e, d'⟩ ho
  · exact hE _ (h d (hP d hd) _ ho)
  · exact hR _ _ (h d (hP d hd) _ ho)

theorem pre (h : Triple P m R E) (hP : ∀ d, P' d → P d) : Triple P' m R E :=
  h.conseq hP (fun _ _ hd => hd) fun _ hd => hd

theorem ret {a : α} (h : ∀ d, P d → R a d) : Triple P (Pure.pure a) R E := by
  intro d hd o ho
  rw [pure_run, List.mem_singleton] at ho
  rw [ho]
  exact h d hd

theorem pure (a : α) : Triple P (Pure.pure a) (fun _ => P) E := ret fun _ hd => hd

theorem raise (e : String) : Triple E (FileOps.raise e) R E := by
  intro d hd o ho
  rw [raise_run, List.mem_singleton] at ho
  rw [ho]
  exact hd

theorem bind (h : Triple P m R E) (hf : ∀ a, Triple (R a) (f a) S E) :
    Triple P (m >>= f) S E := by
  intro d hd o ho
  rw [bind_run] at ho
  obtain ⟨⟨a | e, d'⟩, ho', ho⟩ := List.mem_flatMap.1 ho
  · rw [show o = (.error a, d') from List.mem_singleton.1 ho]
    exact h d hd _ ho'
  · exact hf e d' (h d hd _ ho') o ho

theorem perform (h : ∀ d, P d → Ensures R E (op d).1 ∧ ∀ d' ∈ (op d).2, E d') :
    Triple P (FileOps.perform op) R E := by
  intro d hd o ho
  rcases List.mem_cons.1 ho with rfl | ho
  · exact (h d hd).1
  · obtain ⟨d', hd', rfl⟩ := List.mem_map.1 ho
    exact (h d hd).2 d' hd'

theorem finallyDo (h : Triple P m R E) (hR : ∀ a, Triple (R a) cleanup (fun _ => R' a) E')
    (hE : Triple E cleanup (fun _ => E') E') : Triple P (FileOps.finallyDo m cleanup) R' E' := by
  intro d hd o ho
  obtain ⟨⟨a | a, d'⟩, ho', ho⟩ := List.mem_flatMap.1 ho
  · obtain ⟨⟨e | u, d''⟩, ho'', rfl⟩ := List.mem_map.1 ho
    · exact hE d' (h d hd _ ho') _ ho''
    · exact hE d' (h d hd _ ho') _ ho''
  · obtain ⟨⟨e | u, d''⟩, ho'', rfl⟩ := List.mem_map.1 ho
    · exact hR a d' (h d hd _ ho') _ ho''
    · exact hR a d' (h d hd _ ho') _ ho''

theorem suppress {body : FileM Unit} (h : Triple P body (fun _ => E) E) :
    Triple P (FileOps.suppress body) (fun _ => E) E' := by
  intro d hd o ho
  obtain ⟨⟨e | u, d'⟩, ho', rfl⟩ := List.mem_map.1 ho
  · exact h d hd _ ho'
  · exact h d hd _ ho'

/-- An operation none of whose disks loses what holds. -/
theorem perform_keeps (h : ∀ d, P d → P (op d).1.2 ∧ ∀ d' ∈ (op d).2, P d') :
    Triple P (FileOps.perform op) (fun _ => P) P := by
  refine perform fun d hd => ⟨?_, (h d hd).2⟩
  have hkept := (h d hd).1
  generalize (op d).1 = o at hkept ⊢
  obtain ⟨a | e, d'⟩ := o
  · exact hkept
  · exact hkept

end Triple

/-! ### The operations -/

/-- An operation that only looks. -/
def look (f : Disk → Except String α) : FileOp α := fun d => ((f d, d), [d])

/-- An operation that raises before it does anything. -/
def refuse (e : String) (d : Disk) : Outcome α × List Disk := ((.error e, d), [d])

/-- `Path.exists`. -/
def pathExists (p : FilePath) : FileOp Bool := look fun d => .ok (get p d).isSome

/-- `Path.is_dir`. -/
def isDirectory (p : FilePath) : FileOp Bool := look fun d =>
  match get p d with
  | some (.dir _) => .ok true
  | _ => .ok false

theorem pathExists_run {p : FilePath} {d : Disk} {b : Bool} (h : (get p d).isSome = b) :
    (pathExists p d).1 = (.ok b, d) := by
  rw [← h]
  rfl

theorem isDirectory_of_isDir {p : FilePath} {d : Disk} (h : IsDir (get p d)) :
    (isDirectory p d).1 = (.ok true, d) := by
  obtain ⟨entries, hentries⟩ := h
  unfold isDirectory look
  dsimp only
  rw [hentries]

theorem isDirectory_of_file {p : FilePath} {d : Disk} {content : Bytes}
    (h : get p d = some (.file content)) : (isDirectory p d).1 = (.ok false, d) := by
  unfold isDirectory look
  dsimp only
  rw [h]

/-- `Path.iterdir`, the names. -/
def iterdir (p : FilePath) : FileOp (List String) := look fun d =>
  match get p d with
  | some (.dir entries) => .ok (entries.map Prod.fst).dedup
  | some (.file _) => .error "NotADirectoryError"
  | none => .error "FileNotFoundError"

theorem iterdir_run {p : FilePath} {d : Disk} {entries : Entries}
    (h : get p d = some (.dir entries)) :
    (iterdir p d).1 = (.ok (entries.map Prod.fst).dedup, d) := by
  unfold iterdir look
  dsimp only
  rw [h]

/-- `Path.mkdir(parents=True, exist_ok=True)`, below a path that is done. -/
def mkdirFrom : FilePath → FilePath → FileOp Unit
  | _, [], d => ((.ok (), d), [d])
  | path, name :: rest, d =>
    match get (path ++ [name]) d with
    | some (.dir _) => mkdirFrom (path ++ [name]) rest d
    | some (.file _) => refuse "FileExistsError" d
    | none =>
      let (o, left) := mkdirFrom (path ++ [name]) rest (put (path ++ [name]) (some (.dir [])) d)
      (o, d :: left)

/-- `Path.mkdir(parents=True, exist_ok=True)`. -/
def mkdir (p : FilePath) : FileOp Unit := mkdirFrom [] p

/-- `tempfile.mkdtemp`, with the name it tries. -/
def mkdtemp (parent : FilePath) (name : String) : FileOp FilePath := fun d =>
  match get parent d with
  | some (.dir entries) =>
    if (entries.lookup name).isSome then refuse "FileExistsError" d
    else ((.ok (parent ++ [name]), put (parent ++ [name]) (some (.dir [])) d), [d])
  | _ => refuse "FileNotFoundError" d

/-- `Path.write_bytes`: the file is emptied first. -/
def writeBytes (p : FilePath) (content : Bytes) : FileOp Unit := fun d =>
  match get p.dropLast d, get p d with
  | some (.dir _), some (.dir _) => refuse "IsADirectoryError" d
  | some (.dir _), _ =>
    ((.ok (), put p (some (.file content)) d),
      d :: (writes content).map fun written => put p (some (.file written)) d)
  | _, _ => refuse "FileNotFoundError" d

/-- The move of a file over a file or nothing, or of a directory over an empty one or nothing. -/
def moveOver (x : FileTree) (src dst : FilePath) : FileOp Unit := fun d =>
  match x, get dst d with
  | .file _, some (.dir _) => refuse "IsADirectoryError" d
  | .dir _, some (.file _) => refuse "NotADirectoryError" d
  | .dir _, some (.dir (_ :: _)) => refuse "OSError" d
  | _, _ => ((.ok (), put dst (some x) (put src none d)), [d])

/-- `os.replace`. -/
def replace (src dst : FilePath) : FileOp Unit := fun d =>
  match get src d, get dst.dropLast d with
  | some x, some (.dir _) =>
    if src = dst then ((.ok (), d), [d])
    else if src.isPrefixOf dst then refuse "OSError" d
    else moveOver x src dst d
  | _, _ => refuse "FileNotFoundError" d

/-- `shutil.rmtree`, and the loop over `os.walk` that does the same. -/
def rmtree (p : FilePath) : FileOp Unit := fun d =>
  match get p d with
  | some (.dir entries) =>
    ((.ok (), put p none d), d :: (removals (.dir entries)).map fun left => put p left d)
  | some (.file _) => refuse "NotADirectoryError" d
  | none => refuse "FileNotFoundError" d

/-- `shutil.copytree`, which makes the directory it copies to. -/
def copytree (src dst : FilePath) : FileOp Unit := fun d =>
  match get src d with
  | some (.dir entries) =>
    if (get dst d).isSome then refuse "FileExistsError" d
    else
      match mkdir dst.dropLast d with
      | ((.ok _, d), left) =>
        ((.ok (), put dst (some (.dir entries)) d),
          left ++ (partialCopies (.dir entries)).map fun copied => put dst copied d)
      | ((.error e, d), left) => ((.error e, d), left)
  | some (.file _) => refuse "NotADirectoryError" d
  | none => refuse "FileNotFoundError" d

/-- Where `shutil.copy2` copies to: into a directory, under the name of the source. -/
def copyTarget (src dst : FilePath) (d : Disk) : FilePath :=
  match get dst d with
  | some (.dir _) => dst ++ src.getLast?.toList
  | _ => dst

/-- `shutil.copy2`. -/
def copy2 (src dst : FilePath) : FileOp Unit := fun d =>
  match get src d with
  | some (.file content) =>
    if src = copyTarget src dst d then refuse "SameFileError" d
    else writeBytes (copyTarget src dst d) content d
  | some (.dir _) => refuse "IsADirectoryError" d
  | none => refuse "FileNotFoundError" d

/-- What `tarfile` makes of data: nothing, or the entries it reads, up to the end or up to damage.
-/
inductive Archive where
  | unreadable
  | readable (entries : Entries) (complete : Bool)

/-- `tarfile.open` and `extractall`, into an empty directory. -/
def extractall (archive : Archive) (p : FilePath) : FileOp Unit := fun d =>
  match archive with
  | .unreadable => refuse "ReadError" d
  | .readable entries complete =>
    ((if complete then .ok () else .error "ReadError", put p (some (.dir entries)) d),
      d :: (partialEntries entries).map fun extracted => put p (some (.dir extracted)) d)

/-! ### What an operation does not change -/

section Frames

variable {op : FileOp α} {p q : FilePath} {d d' : Disk} {t : Option FileTree}

/-- Every disk of the operation. -/
def disks (op : FileOp α) (d : Disk) : List Disk := (op d).1.2 :: (op d).2

/-- The operation changes at most what is at the path. -/
def Touches (op : FileOp α) (p : FilePath) : Prop :=
  ∀ d, ∀ d' ∈ disks op d, d' = d ∨ ∃ o, d' = put p o d

theorem Touches.get (h : Touches op p) (hapart : Apart p q) (hd' : d' ∈ disks op d) :
    get q d' = get q d := by
  rcases h d d' hd' with rfl | ⟨o, rfl⟩
  · rfl
  · exact get_put_of_apart hapart o d

theorem eq_of_mem_refuse {e : String} {o : Outcome α × List Disk} (h : o = refuse e d)
    (hd' : d' ∈ o.1.2 :: o.2) : d' = d := by
  subst h
  simpa [refuse] using hd'

theorem touches_mkdtemp (parent : FilePath) (name : String) :
    Touches (mkdtemp parent name) (parent ++ [name]) := by
  intro d d' hd'
  unfold disks mkdtemp at hd'
  split at hd'
  · split at hd'
    · exact Or.inl (eq_of_mem_refuse rfl hd')
    · rcases List.mem_cons.1 hd' with rfl | hd'
      · exact Or.inr ⟨_, rfl⟩
      · exact Or.inl (List.mem_singleton.1 hd')
  · exact Or.inl (eq_of_mem_refuse rfl hd')

theorem touches_writeBytes (p : FilePath) (content : Bytes) :
    Touches (writeBytes p content) p := by
  intro d d' hd'
  unfold disks writeBytes at hd'
  split at hd'
  · exact Or.inl (eq_of_mem_refuse rfl hd')
  · rcases List.mem_cons.1 hd' with rfl | hd'
    · exact Or.inr ⟨_, rfl⟩
    · rcases List.mem_cons.1 hd' with rfl | hd'
      · exact Or.inl rfl
      · obtain ⟨written, -, rfl⟩ := List.mem_map.1 hd'
        exact Or.inr ⟨_, rfl⟩
  · exact Or.inl (eq_of_mem_refuse rfl hd')

theorem touches_rmtree (p : FilePath) : Touches (rmtree p) p := by
  intro d d' hd'
  unfold disks rmtree at hd'
  split at hd'
  · rcases List.mem_cons.1 hd' with rfl | hd'
    · exact Or.inr ⟨_, rfl⟩
    · rcases List.mem_cons.1 hd' with rfl | hd'
      · exact Or.inl rfl
      · obtain ⟨left, -, rfl⟩ := List.mem_map.1 hd'
        exact Or.inr ⟨_, rfl⟩
  · exact Or.inl (eq_of_mem_refuse rfl hd')
  · exact Or.inl (eq_of_mem_refuse rfl hd')

theorem touches_extractall (archive : Archive) (p : FilePath) :
    Touches (extractall archive p) p := by
  intro d d' hd'
  unfold disks extractall at hd'
  cases archive with
  | unreadable => exact Or.inl (eq_of_mem_refuse rfl hd')
  | readable entries complete =>
    rcases List.mem_cons.1 hd' with rfl | hd'
    · exact Or.inr ⟨_, rfl⟩
    · rcases List.mem_cons.1 hd' with rfl | hd'
      · exact Or.inl rfl
      · obtain ⟨extracted, -, rfl⟩ := List.mem_map.1 hd'
        exact Or.inr ⟨_, rfl⟩

/-- An operation none of whose disks differs keeps everything. -/
theorem Triple.perform_of_eq {P : Disk → Prop} (h : ∀ d, P d → ∀ d' ∈ disks op d, d' = d) :
    Triple P (FileOps.perform op) (fun _ => P) P := by
  refine Triple.perform_keeps fun d hd => ⟨?_, fun d' hd' => ?_⟩
  · rw [h d hd _ List.mem_cons_self]
    exact hd
  · rw [h d hd d' (List.mem_cons_of_mem _ hd')]
    exact hd

/-- An operation that touches a path keeps what is apart. -/
theorem Triple.perform_apart (h : Touches op p) (hapart : Apart p q) :
    Triple (fun d => FileTree.get q d = t) (FileOps.perform op) (fun _ d => FileTree.get q d = t)
      (fun d => FileTree.get q d = t) := by
  refine Triple.perform_keeps fun d hd => ⟨?_, fun d' hd' => ?_⟩
  · exact (h.get hapart List.mem_cons_self).trans hd
  · exact (h.get hapart (List.mem_cons_of_mem _ hd')).trans hd

/-- An operation that only looks keeps everything. -/
theorem Triple.perform_look {P : Disk → Prop} (f : Disk → Except String α) :
    Triple P (FileOps.perform (look f)) (fun _ => P) P := by
  refine Triple.perform_of_eq fun d _ d' hd' => ?_
  simpa [disks, look] using hd'

/-- What an operation that only looks has seen. -/
theorem Triple.perform_look_eq {P : Disk → Prop} (f : Disk → Except String α) :
    Triple P (FileOps.perform (look f)) (fun a d => f d = .ok a ∧ P d) P := by
  refine Triple.perform fun d hd => ⟨?_, fun d' hd' => ?_⟩
  · unfold look
    dsimp only
    cases hf : f d with
    | error e => exact hd
    | ok a => exact ⟨hf, hd⟩
  · rw [List.mem_singleton.1 hd']
    exact hd

/-- A write over a directory, or of nothing over an empty file, changes nothing. -/
theorem eq_of_mem_writeBytes {content : Bytes}
    (h : IsDir (get p d) ∨ content = [] ∧ get p d = some (.file []))
    (hd' : d' ∈ disks (writeBytes p content) d) : d' = d := by
  have hput : ∀ written, content = [] ∧ get p d = some (.file []) →
      put p (some (.file (List.take written content))) d = d := by
    rintro written ⟨rfl, hfile⟩
    rw [List.take_nil, ← hfile, put_get]
  unfold disks writeBytes at hd'
  split at hd'
  · exact eq_of_mem_refuse rfl hd'
  · next hnot =>
    have hempty : content = [] ∧ get p d = some (.file []) := by
      rcases h with ⟨entries, hdir⟩ | h
      · exact (hnot entries hdir).elim
      · exact h
    rcases List.mem_cons.1 hd' with rfl | hd'
    · have hsame := hput content.length hempty
      rwa [List.take_length] at hsame
    · rcases List.mem_cons.1 hd' with rfl | hd'
      · rfl
      · obtain ⟨written, hwritten, rfl⟩ := List.mem_map.1 hd'
        obtain ⟨n, -, rfl⟩ := List.mem_map.1 hwritten
        exact hput n hempty
  · exact eq_of_mem_refuse rfl hd'

/-- A copy over a directory, or of nothing over an empty file, changes nothing. -/
theorem eq_of_mem_copy2 {src dst : FilePath} {content : Bytes}
    (hsrc : get src d = some (.file content))
    (h : IsDir (get (copyTarget src dst d) d) ∨
      content = [] ∧ get (copyTarget src dst d) d = some (.file []))
    (hd' : d' ∈ disks (copy2 src dst) d) : d' = d := by
  unfold disks copy2 at hd'
  rw [hsrc] at hd'
  dsimp only at hd'
  split at hd'
  · exact eq_of_mem_refuse rfl hd'
  · exact eq_of_mem_writeBytes h hd'

/-- Between paths that are apart, a replacement is a move. -/
theorem replace_of_apart {src dst : FilePath} {x : FileTree} (hsrc : get src d = some x)
    (hdst : IsDir (get dst.dropLast d)) (hapart : Apart src dst) :
    replace src dst d = moveOver x src dst d := by
  obtain ⟨entries, hentries⟩ := hdst
  have hne : src ≠ dst := by
    rintro rfl
    exact hapart.1 List.prefix_rfl
  have hbelow : src.isPrefixOf dst = false := by
    rw [← Bool.not_eq_true, List.isPrefixOf_iff_prefix]
    exact hapart.1
  unfold replace
  rw [hsrc, hentries]
  dsimp only
  rw [if_neg hne, hbelow, if_neg Bool.false_ne_true]

/-- The tree after a move. -/
def moved (src dst : FilePath) (x : FileTree) (d : Disk) : Disk :=
  put dst (some x) (put src none d)

/-- A move to where there is nothing. -/
theorem replace_of_none {src dst : FilePath} {x : FileTree} (hsrc : get src d = some x)
    (hparent : IsDir (get dst.dropLast d)) (hapart : Apart src dst) (hdst : get dst d = none) :
    replace src dst d = ((.ok (), moved src dst x d), [d]) := by
  rw [replace_of_apart hsrc hparent hapart]
  unfold moveOver moved
  rw [hdst]
  cases x <;> rfl

/-- A directory that is there need not be made. -/
theorem mkdirFrom_of_isDir (path p : FilePath) (h : IsDir (get (path ++ p) d)) :
    mkdirFrom path p d = ((.ok (), d), [d]) := by
  induction p generalizing path with
  | nil => rfl
  | cons name p ih =>
    have hassoc : path ++ name :: p = (path ++ [name]) ++ p := by simp
    rw [hassoc] at h
    unfold mkdirFrom
    split
    · exact ih _ h
    · next content hfile =>
      rw [get_append, hfile] at h
      cases p with
      | nil =>
        obtain ⟨entries, hentries⟩ := h
        cases hentries
      | cons name' p =>
        obtain ⟨entries, hentries⟩ := h
        cases hentries
    · next hnone =>
      rw [get_append, hnone, get_none] at h
      obtain ⟨entries, hentries⟩ := h
      cases hentries

theorem mkdir_of_isDir (h : IsDir (get p d)) : mkdir p d = ((.ok (), d), [d]) :=
  mkdirFrom_of_isDir [] p h

/-- A directory is copied to where there is nothing. -/
theorem copytree_of_none {src dst : FilePath} {entries : Entries}
    (hsrc : get src d = some (.dir entries)) (hdst : get dst d = none)
    (hparent : IsDir (get dst.dropLast d)) :
    copytree src dst d = ((.ok (), put dst (some (.dir entries)) d),
      [d] ++ (partialCopies (.dir entries)).map fun copied => put dst copied d) := by
  unfold copytree
  rw [hsrc, hdst, mkdir_of_isDir hparent]
  rfl

/-- A file is written over a file or nothing. -/
theorem writeBytes_of_not_isDir {content : Bytes} (hp : ¬ IsDir (get p d))
    (hparent : IsDir (get p.dropLast d)) :
    writeBytes p content d = ((.ok (), put p (some (.file content)) d),
      d :: (writes content).map fun written => put p (some (.file written)) d) := by
  obtain ⟨entries, hentries⟩ := hparent
  unfold writeBytes
  rw [hentries]
  cases hthere : get p d with
  | none => rfl
  | some x =>
    cases x with
    | file written => rfl
    | dir entries' => exact absurd ⟨entries', hthere⟩ hp

/-- Writing something else over a file or nothing can fail with something else there. -/
theorem exists_writeBytes {content : Bytes} (hp : ¬ IsDir (get p d))
    (hparent : IsDir (get p.dropLast d)) (hne : p ≠ [])
    (h : ¬ (content = [] ∧ get p d = some (.file []))) :
    ∃ o ∈ perform (writeBytes p content) true d, get p o.2 ≠ get p d := by
  have hput : ∀ o', get p (put p o' d) = o' := by
    intro o'
    have hself := get_put_self hparent (p.getLast hne) o'
    rwa [List.dropLast_append_getLast hne] at hself
  by_cases hsame : get p d = some (.file content)
  · -- the file is emptied
    refine ⟨(.error "OSError", put p (some (.file [])) d), mem_perform_of_fails ?_, ?_⟩
    · rw [writeBytes_of_not_isDir hp hparent]
      refine List.mem_cons_of_mem _ (List.mem_map.2 ⟨[], List.mem_map.2 ⟨0, ?_, rfl⟩, rfl⟩)
      exact List.mem_range.2 (Nat.succ_pos _)
    · rw [hput, hsame]
      intro heq
      obtain rfl : content = [] := by
        injection heq with heq
        injection heq with heq
        exact heq.symm
      exact h ⟨rfl, hsame⟩
  · refine ⟨(.ok (), put p (some (.file content)) d), ?_, ?_⟩
    · have hmem := mem_perform (writeBytes p content) true d
      rwa [writeBytes_of_not_isDir hp hparent] at hmem
    · rw [hput]
      exact fun heq => hsame heq.symm

/-- Making a directory does not change what is below it. -/
theorem get_of_mem_mkdirFrom (path p : FilePath) (name : String) (q : FilePath)
    (hd' : d' ∈ disks (mkdirFrom path p) d) :
    get (path ++ p ++ name :: q) d' = get (path ++ p ++ name :: q) d := by
  induction p generalizing path d d' with
  | nil =>
    have hd' : d' ∈ [d, d] := hd'
    simp only [List.mem_cons, List.not_mem_nil, or_false, or_self] at hd'
    rw [hd']
  | cons name' p ih =>
    have hassoc : path ++ name' :: p ++ name :: q = (path ++ [name']) ++ (p ++ name :: q) := by simp
    have hassoc' : path ++ [name'] ++ p ++ name :: q = (path ++ [name']) ++ (p ++ name :: q) := by
      simp
    unfold disks mkdirFrom at hd'
    split at hd'
    · have hkept := ih (path ++ [name']) hd'
      rw [hassoc'] at hkept
      rw [hassoc, hkept]
    · rw [eq_of_mem_refuse rfl hd']
    · next hnone =>
      rw [hassoc]
      -- below a directory that is made there is nothing, as before
      have hmade : get ((path ++ [name']) ++ (p ++ name :: q))
          (put (path ++ [name']) (some (.dir [])) d) =
            get ((path ++ [name']) ++ (p ++ name :: q)) d := by
        by_cases hdir : IsDir (get path d)
        · rw [get_append, get_append _ _ d, get_put_self hdir, hnone, get_none]
          cases p <;> simp
        · rw [put_append_of_not_isDir hdir]
      have hrest : ∀ d' ∈ disks (mkdirFrom (path ++ [name']) p)
          (put (path ++ [name']) (some (.dir [])) d),
          get ((path ++ [name']) ++ (p ++ name :: q)) d' =
            get ((path ++ [name']) ++ (p ++ name :: q)) d := by
        intro d' hd'
        have hkept := ih (path ++ [name']) hd'
        rw [hassoc'] at hkept
        exact hkept.trans hmade
      rcases List.mem_cons.1 hd' with hd' | hd'
      · exact hrest d' (hd' ▸ List.mem_cons_self)
      · rcases List.mem_cons.1 hd' with rfl | hd'
        · rfl
        · exact hrest d' (List.mem_cons_of_mem _ hd')

theorem get_of_mem_mkdir (p : FilePath) (name : String) (q : FilePath)
    (hd' : d' ∈ disks (mkdir p) d) : get (p ++ name :: q) d' = get (p ++ name :: q) d :=
  get_of_mem_mkdirFrom [] p name q hd'

/-- A directory that is made is there. -/
theorem isDir_of_mkdirFrom (path p : FilePath) (hpath : IsDir (get path d))
    (h : (mkdirFrom path p d).1 = (.ok (), d')) : IsDir (get (path ++ p) d') := by
  induction p generalizing path d with
  | nil =>
    cases h
    rwa [List.append_nil]
  | cons name p ih =>
    have hassoc : path ++ name :: p = (path ++ [name]) ++ p := by simp
    rw [hassoc]
    unfold mkdirFrom at h
    split at h
    · next entries hdir => exact ih _ ⟨entries, hdir⟩ h
    · cases h
    · exact ih _ ⟨[], get_put_self hpath name _⟩ h

theorem isDir_of_mkdir (hroot : IsDir d) (h : (mkdir p d).1 = (.ok (), d')) :
    IsDir (get p d') := isDir_of_mkdirFrom [] p hroot h

/-- A directory that is made where there is nothing is seen only on the way to it. -/
theorem get_put_dir {path : FilePath} {name : String} (hpath : IsDir (get path d))
    (hnone : get (path ++ [name]) d = none) (hq : ¬ q <+: path ++ [name]) :
    get q (put (path ++ [name]) (some (.dir [])) d) = get q d := by
  by_cases hbelow : path ++ [name] <+: q
  · obtain ⟨rest, rfl⟩ := hbelow
    rw [get_append, get_put_self hpath, get_append, hnone, get_none]
    cases rest with
    | nil => exact absurd (by simp) hq
    | cons name' rest => exact get_cons_empty _ _
  · exact get_put_of_apart ⟨hbelow, hq⟩ _ d

/-- The directories that are made are seen only on the way to the path. -/
theorem get_of_mkdirFrom (path p : FilePath) (hpath : IsDir (get path d))
    (h : (mkdirFrom path p d).1 = (.ok (), d')) (hq : ¬ q <+: path ++ p) : get q d' = get q d := by
  induction p generalizing path d with
  | nil =>
    cases h
    rfl
  | cons name p ih =>
    have hassoc : path ++ name :: p = (path ++ [name]) ++ p := by simp
    rw [hassoc] at hq
    unfold mkdirFrom at h
    split at h
    · next entries hdir => exact ih _ ⟨entries, hdir⟩ h hq
    · cases h
    · next hnone =>
      rw [ih _ ⟨[], get_put_self hpath name _⟩ h hq]
      exact get_put_dir hpath hnone fun hbelow => hq (hbelow.trans (List.prefix_append _ _))

theorem get_of_mkdir (hroot : IsDir d) (h : (mkdir p d).1 = (.ok (), d')) (hq : ¬ q <+: p) :
    get q d' = get q d := get_of_mkdirFrom [] p hroot h hq

/-- No file is changed by it. -/
theorem mkdirFrom_file_iff (path p : FilePath) (hpath : IsDir (get path d))
    (h : (mkdirFrom path p d).1 = (.ok (), d')) (content : Bytes) :
    get q d' = some (.file content) ↔ get q d = some (.file content) := by
  induction p generalizing path d with
  | nil =>
    cases h
    rfl
  | cons name p ih =>
    unfold mkdirFrom at h
    split at h
    · next entries hdir => exact ih _ ⟨entries, hdir⟩ h
    · cases h
    · next hnone =>
      rw [ih _ ⟨[], get_put_self hpath name _⟩ h]
      by_cases hbelow : path ++ [name] <+: q
      · obtain ⟨rest, rfl⟩ := hbelow
        rw [get_append, get_put_self hpath, get_append, hnone, get_none]
        cases rest with
        | nil => exact iff_of_false nofun nofun
        | cons name' rest =>
          rw [get_cons_empty]
      · exact get_put_file_iff hbelow _ d content

theorem mkdir_file_iff (hroot : IsDir d) (h : (mkdir p d).1 = (.ok (), d')) (content : Bytes) :
    get q d' = some (.file content) ↔ get q d = some (.file content) :=
  mkdirFrom_file_iff [] p hroot h content

/-- A directory that was not there is empty. -/
theorem get_mkdirFrom_of_none (path p : FilePath) (hpath : IsDir (get path d))
    (h : (mkdirFrom path p d).1 = (.ok (), d')) (hnone : get (path ++ p) d = none) :
    get (path ++ p) d' = some (.dir []) := by
  induction p generalizing path d with
  | nil =>
    obtain ⟨entries, hentries⟩ := hpath
    rw [List.append_nil, hentries] at hnone
    cases hnone
  | cons name p ih =>
    have hassoc : path ++ name :: p = (path ++ [name]) ++ p := by simp
    rw [hassoc] at hnone ⊢
    unfold mkdirFrom at h
    split at h
    · next entries hdir => exact ih _ ⟨entries, hdir⟩ h hnone
    · cases h
    · have hmade : get (path ++ [name]) (put (path ++ [name]) (some (.dir [])) d) =
          some (.dir []) := get_put_self hpath name _
      cases p with
      | nil =>
        cases h
        rwa [List.append_nil]
      | cons name' p =>
        refine ih _ ⟨[], hmade⟩ h ?_
        rw [get_append, hmade, get_cons_empty]

theorem get_mkdir_of_none (hroot : IsDir d) (h : (mkdir p d).1 = (.ok (), d'))
    (hnone : get p d = none) : get p d' = some (.dir []) :=
  get_mkdirFrom_of_none [] p hroot h hnone

/-- What is at the path is left by it. -/
theorem get_of_mem_mkdirFrom_of_isSome (path p : FilePath) (h : (get (path ++ p) d).isSome)
    (hd' : d' ∈ disks (mkdirFrom path p) d) : get (path ++ p) d' = get (path ++ p) d := by
  induction p generalizing path with
  | nil =>
    have hd' : d' ∈ [d, d] := hd'
    simp only [List.mem_cons, List.not_mem_nil, or_false, or_self] at hd'
    rw [hd']
  | cons name p ih =>
    have hassoc : path ++ name :: p = (path ++ [name]) ++ p := by simp
    rw [hassoc] at h ⊢
    unfold disks mkdirFrom at hd'
    split at hd'
    · exact ih _ h hd'
    · rw [eq_of_mem_refuse rfl hd']
    · next hnone =>
      rw [get_append, hnone, get_none] at h
      cases h

theorem get_of_mem_mkdir_of_isSome (h : (get p d).isSome) (hd' : d' ∈ disks (mkdir p) d) :
    get p d' = get p d := get_of_mem_mkdirFrom_of_isSome [] p h hd'

/-- A directory on the way stays one. -/
theorem isDir_of_mem_mkdirFrom (path p : FilePath) (h : IsDir (get q d))
    (hd' : d' ∈ disks (mkdirFrom path p) d) : IsDir (get q d') := by
  induction p generalizing path d with
  | nil =>
    have hd' : d' ∈ [d, d] := hd'
    simp only [List.mem_cons, List.not_mem_nil, or_false, or_self] at hd'
    rwa [hd']
  | cons name p ih =>
    unfold disks mkdirFrom at hd'
    split at hd'
    · exact ih _ h hd'
    · rwa [eq_of_mem_refuse rfl hd']
    · next hnone =>
      have hput : IsDir (get q (put (path ++ [name]) (some (.dir [])) d)) := by
        by_cases hbelow : path ++ [name] <+: q
        · obtain ⟨rest, rfl⟩ := hbelow
          rw [get_append, hnone, get_none] at h
          obtain ⟨entries, hentries⟩ := h
          cases hentries
        · by_cases habove : q <+: path ++ [name]
          · obtain ⟨rest, hrest⟩ := habove
            cases rest with
            | nil => exact absurd (by rw [← hrest, List.append_nil]) hbelow
            | cons name' rest =>
              rw [← hrest]
              exact isDir_put_append h name' rest _
          · rwa [get_put_of_apart ⟨hbelow, habove⟩]
      rcases List.mem_cons.1 hd' with rfl | hd'
      · exact ih _ hput List.mem_cons_self
      · rcases List.mem_cons.1 hd' with rfl | hd'
        · exact h
        · exact ih _ hput (List.mem_cons_of_mem _ hd')

theorem isDir_of_mem_mkdir (h : IsDir (get q d)) (hd' : d' ∈ disks (mkdir p) d) :
    IsDir (get q d') := isDir_of_mem_mkdirFrom [] p h hd'

/-- Where there is nothing, directories are made. -/
theorem mkdirFrom_of_none (path p : FilePath) (hpath : IsDir (get path d))
    (hnone : ∀ name q, p = name :: q → get (path ++ [name]) d = none) :
    ∃ d', (mkdirFrom path p d).1 = (.ok (), d') := by
  induction p generalizing path d with
  | nil => exact ⟨d, rfl⟩
  | cons name p ih =>
    unfold mkdirFrom
    rw [hnone name p rfl]
    have hmade : get (path ++ [name]) (put (path ++ [name]) (some (.dir [])) d) = some (.dir []) :=
      get_put_self hpath name _
    refine ih (path ++ [name]) ⟨[], hmade⟩ fun name' q _ => ?_
    rw [get_append, hmade]
    rfl

theorem mkdir_of_empty (p : FilePath) : ∃ d', (mkdir p (some (.dir []))).1 = (.ok (), d') :=
  mkdirFrom_of_none [] p ⟨[], rfl⟩ fun _ _ _ => rfl

/-- One directory is made in another. -/
theorem mkdirFrom_child (path p : FilePath) (name : String) (hparent : IsDir (get (path ++ p) d))
    (hnone : get (path ++ p ++ [name]) d = none) :
    mkdirFrom path (p ++ [name]) d =
      ((.ok (), put (path ++ p ++ [name]) (some (.dir [])) d),
        [d, put (path ++ p ++ [name]) (some (.dir [])) d]) := by
  induction p generalizing path with
  | nil =>
    rw [List.append_nil] at hnone ⊢
    rw [List.nil_append]
    unfold mkdirFrom
    rw [hnone]
    rfl
  | cons name' p ih =>
    have hassoc : path ++ name' :: p = (path ++ [name']) ++ p := by simp
    rw [hassoc] at hparent hnone ⊢
    rw [List.cons_append]
    unfold mkdirFrom
    have hdir : IsDir (get (path ++ [name']) d) := by
      by_contra hnot
      rw [get_append] at hparent
      cases p with
      | nil => exact hnot hparent
      | cons name'' p =>
        rw [get_cons_of_not_isDir hnot] at hparent
        obtain ⟨entries, hentries⟩ := hparent
        cases hentries
    obtain ⟨entries, hentries⟩ := hdir
    rw [hentries]
    exact ih (path ++ [name']) hparent hnone

theorem mkdir_child (name : String) (hparent : IsDir (get p d))
    (hnone : get (p ++ [name]) d = none) :
    mkdir (p ++ [name]) d = ((.ok (), put (p ++ [name]) (some (.dir [])) d),
      [d, put (p ++ [name]) (some (.dir [])) d]) :=
  mkdirFrom_child [] p name hparent hnone

end Frames

end FileOps
