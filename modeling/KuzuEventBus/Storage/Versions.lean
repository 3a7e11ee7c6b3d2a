import KuzuEventBus.Storage.Backend
import KuzuEventBus.Storage.WalRuns

/-!
# The versions of a branch

The directories of branches, seen as what they are for: a map from timestamps to
manifests for each branch.  Each call of a backend writes WAL segments of its
branch, if any, and then one manifest, under its own reading of the clock.

## Main definitions

* `manifestAt` — the manifest of a branch at a timestamp.
* `Versioned` — branch directories hold nothing but such manifests under names of manifests.
* `Publishes` — what a call does to the files.

## Main results

* `Versioned.mem_listManifestNames` — what the listing of a branch holds.
* `Versioned.latestManifest`, `Versioned.pitrManifest_self`, `Versioned.readManifestMeta` — what
  reading finds.
* `Publishes.manifestAt`, `Publishes.versioned` — **a call adds one version and leaves the others
  alone.**
-/

namespace KuzuEventBus

open Text

/-- What is written reads back. -/
def ManifestCodec.Lawful (codec : ManifestCodec) : Prop :=
  ∀ m, codec.fromSlice (codec.toVecPretty m) = some m

/-! ### Names and paths -/

/-- The file name of the manifest with the timestamp `ts`. -/
def manifestName (ts : Timestamp) : String := "manifest-" ++ toString ts ++ ".json"

theorem Manifest.filename_eq (m : Manifest) : m.filename = manifestName m.versionTs := rfl

theorem manifestName_toList (ts : Timestamp) :
    (manifestName ts).toList = "manifest-".toList ++ (ts.repr.toList ++ ".json".toList) := by
  simp [manifestName, String.toList_append, toString]

/-- A manifest's name parses as its timestamp. -/
theorem parseTsFromFilename_manifestName {ts : Timestamp} (h : ts < 2 ^ 64) :
    parseTsFromFilename (manifestName ts) = some ts := by
  have hpre : "manifest-".toList.isPrefixOf (manifestName ts).toList = true := by
    rw [manifestName_toList, List.isPrefixOf_iff_prefix]
    exact List.prefix_append _ _
  have hdrop : (manifestName ts).toList.drop 9 = ts.repr.toList ++ ".json".toList := by
    rw [manifestName_toList]
    exact List.drop_left' rfl
  have hsuf : ".json".toList.isSuffixOf (ts.repr.toList ++ ".json".toList) = true := by
    rw [List.isSuffixOf_iff_suffix]
    exact List.suffix_append _ _
  have htake : (ts.repr.toList ++ ".json".toList).take
      ((ts.repr.toList ++ ".json".toList).length - 5) = ts.repr.toList := by
    apply List.take_left'
    rw [List.length_append]
    exact (Nat.add_sub_cancel _ 5).symm
  simp only [parseTsFromFilename, hpre, hdrop, hsuf, Bool.and_self, if_true, htake]
  exact parseU64_repr h

theorem manifestName_injective {ts ts' : Timestamp} (h : manifestName ts = manifestName ts') :
    ts = ts' := by
  have hl := congrArg String.toList h
  rw [manifestName_toList, manifestName_toList, List.append_cancel_left_eq,
    List.append_cancel_right_eq] at hl
  have hd := congrArg (Nat.ofDigitChars 10 · 0) hl
  simpa only [Nat.toList_repr, Nat.ofDigitChars_ten_toDigits] using hd

/-- A temporary file is no manifest. -/
theorem parseTsFromFilename_tmpFileName (name : String) (ts : ℕ) :
    parseTsFromFilename (tmpFileName name ts) = none := by
  have hdot : (tmpFileName name ts).toList =
      '.' :: (name.toList ++ (".tmp-".toList ++ (toString ts).toList)) := by
    simp [tmpFileName, String.toList_append]
  have hpre : "manifest-".toList.isPrefixOf (tmpFileName name ts).toList = false := by
    rw [hdot]
    rfl
  rw [parseTsFromFilename, hpre, Bool.false_and]
  rfl

theorem parseTsFromFilename_wal : parseTsFromFilename "wal" = none := by decide

theorem DatabaseName.ext_asStr {a b : DatabaseName} (h : a.asStr = b.asStr) : a = b := by
  cases a; cases b; simp_all

variable {codec : ManifestCodec} {root : FilePath} {fs fs' : FileSystem} {db db' : DatabaseName}
  {b b' : BranchName} {ts ts' : Timestamp} {m : Manifest}

/-- Different branches have different directories, none of them inside another. -/
theorem branchDir_append_eq {xs ys : FilePath}
    (h : branchDir root db b ++ xs = branchDir root db' b' ++ ys) :
    db = db' ∧ b = b' ∧ xs = ys := by
  simp only [branchDir, List.append_assoc, List.append_cancel_left_eq, List.cons_append,
    List.nil_append, List.cons.injEq, true_and] at h
  exact ⟨DatabaseName.ext_asStr h.1, BranchName.ext_asStr h.2.1, h.2.2⟩

theorem walDir_eq (root : FilePath) (db : DatabaseName) (b : BranchName) :
    walDir root db b = branchDir root db b ++ ["wal"] := by
  simp [walDir, branchDir]

/-- The path of the manifest of a branch with the timestamp `ts`. -/
def manifestPath (root : FilePath) (db : DatabaseName) (b : BranchName)
    (ts : Timestamp) : FilePath :=
  branchDir root db b ++ [manifestName ts]

/-! ### Versions -/

/-- The manifest of a branch with the timestamp `ts`. -/
def manifestAt (codec : ManifestCodec) (root : FilePath) (fs : FileSystem) (db : DatabaseName)
    (b : BranchName) (ts : Timestamp) : Option Manifest :=
  (fs.readFile (manifestPath root db b ts)).bind codec.fromSlice

/-- Under a name that parses as that of a manifest, a branch directory holds the text of a
manifest of this branch with this timestamp, and the name is the one it was written under. -/
def Versioned (codec : ManifestCodec) (root : FilePath) (fs : FileSystem) : Prop :=
  ∀ ⦃db b name rest ts bytes⦄, parseTsFromFilename name = some ts →
    fs.readFile (branchDir root db b ++ name :: rest) = some bytes →
      rest = [] ∧ name = manifestName ts ∧ ts < 2 ^ 64 ∧
        ∃ m : Manifest, bytes = codec.toVecPretty m ∧ m.branch = b.asStr ∧ m.versionTs = ts

theorem versioned_empty : Versioned codec root ∅ := by
  intro db b name rest ts bytes _ h
  cases h

section
variable (hcodec : codec.Lawful) (h : Versioned codec root fs)
include hcodec h

/-- A version is stored as its text, under its own timestamp. -/
theorem Versioned.manifestAt_eq_some (hm : manifestAt codec root fs db b ts = some m)
    (hts : ts < 2 ^ 64) : fs.readFile (manifestPath root db b ts) = some (codec.toVecPretty m) ∧
      m.branch = b.asStr ∧ m.versionTs = ts := by
  obtain ⟨bytes, hbytes, hdecode⟩ := Option.bind_eq_some_iff.mp hm
  obtain ⟨-, -, -, m', rfl, hb, hv⟩ := h (parseTsFromFilename_manifestName hts) hbytes
  rw [hcodec m'] at hdecode
  cases hdecode
  exact ⟨hbytes, hb, hv⟩

omit hcodec in
/-- Every name of the listing is the name of a version. -/
theorem Versioned.mem_listManifestNames {name : String} :
    name ∈ listManifestNames fs (branchDir root db b) ↔
      ∃ ts, ts < 2 ^ 64 ∧ name = manifestName ts ∧
        (fs.readFile (manifestPath root db b ts)).isSome := by
  rw [listManifestNames, mem_sortNames, List.mem_filter, FileSystem.mem_readDir]
  constructor
  · rintro ⟨⟨rest, hfile⟩, hparse⟩
    obtain ⟨ts, hts⟩ := Option.isSome_iff_exists.mp hparse
    obtain ⟨bytes, hbytes⟩ := Option.isSome_iff_exists.mp hfile
    obtain ⟨rfl, rfl, hlt, -⟩ := h hts hbytes
    exact ⟨ts, hlt, rfl, hfile⟩
  · rintro ⟨ts, hlt, rfl, hfile⟩
    exact ⟨⟨[], hfile⟩, by rw [parseTsFromFilename_manifestName hlt]; rfl⟩

/-- Every listed manifest can be read, and is a version. -/
theorem Versioned.readManifest {name : String}
    (hname : name ∈ listManifestNames fs (branchDir root db b)) :
    ∃ ts m, ts < 2 ^ 64 ∧ name = manifestName ts ∧ manifestAt codec root fs db b ts = some m ∧
      readManifest codec fs (branchDir root db b ++ [name]) = .ok m := by
  obtain ⟨ts, hlt, rfl, hfile⟩ := h.mem_listManifestNames.mp hname
  obtain ⟨bytes, hbytes⟩ := Option.isSome_iff_exists.mp hfile
  obtain ⟨-, -, -, m, rfl, -⟩ := h (parseTsFromFilename_manifestName hlt) hbytes
  refine ⟨ts, m, hlt, rfl, ?_, ?_⟩
  · rw [manifestAt, hbytes, Option.bind_some, hcodec m]
  · change KuzuEventBus.readManifest codec fs (manifestPath root db b ts) = .ok m
    rw [KuzuEventBus.readManifest, hbytes]
    simp only [hcodec m]

/-- `latest_manifest` finds a version, unless there is none. -/
theorem Versioned.latestManifest : ∃ o, latestManifest codec fs root db b = .ok o ∧
    ∀ m ∈ o, ∃ ts, ts < 2 ^ 64 ∧ manifestAt codec root fs db b ts = some m := by
  unfold KuzuEventBus.latestManifest listManifestPaths
  rw [List.getLast?_map]
  cases hlast : (listManifestNames fs (branchDir root db b)).getLast? with
  | none => exact ⟨none, rfl, fun m hm => by cases hm⟩
  | some name =>
    obtain ⟨ts, m, hlt, -, hat, hread⟩ := h.readManifest hcodec (List.mem_of_getLast? hlast)
    refine ⟨some m, ?_, fun m' hm' => ?_⟩
    · simp only [Option.map_some, hread]
      rfl
    · cases hm'
      exact ⟨ts, hlt, hat⟩

end

/-! ### Looking up a version -/

/-- What `pitr_manifest` chooses is listed, and not too late. -/
theorem bestManifest_mem {at' : Timestamp} {names : List String} :
    ∀ {best : Option (Timestamp × String)}
    {r : Timestamp × String}, bestManifest at' names best = some r →
      best = some r ∨ r.2 ∈ names ∧ parseTsFromFilename r.2 = some r.1 ∧ r.1 ≤ at' := by
  induction names with
  | nil => intro best r h; exact .inl h
  | cons name names ih =>
    intro best r h
    have htail {best' : Option (Timestamp × String)} (h' : bestManifest at' names best' = some r)
        (hbest : best' = some r → best = some r ∨ r = (r.1, name) ∧
          parseTsFromFilename name = some r.1 ∧ r.1 ≤ at') :
        best = some r ∨ r.2 ∈ name :: names ∧ parseTsFromFilename r.2 = some r.1 ∧ r.1 ≤ at' := by
      rcases ih h' with h' | ⟨hmem, hr⟩
      · rcases hbest h' with h' | ⟨heq, hr⟩
        · exact .inl h'
        · have hname : r.2 = name := congrArg Prod.snd heq
          rw [hname]
          exact .inr ⟨List.mem_cons_self, hr⟩
      · exact .inr ⟨List.mem_cons_of_mem name hmem, hr⟩
    unfold bestManifest at h
    cases hparse : parseTsFromFilename name with
    | none =>
      rw [hparse] at h
      exact htail h .inl
    | some t =>
      rw [hparse] at h
      by_cases hle : t ≤ at'
      · simp only [hle, if_true] at h
        have hnew : some (t, name) = some r → best = some r ∨ r = (r.1, name) ∧
            some t = some r.1 ∧ r.1 ≤ at' := by
          intro heq
          cases heq
          exact .inr ⟨rfl, rfl, hle⟩
        rw [hparse] at htail
        cases best with
        | none => exact htail h hnew
        | some best =>
          by_cases hge : best.1 ≥ t
          · simp only [hge, if_true] at h
            exact htail h .inl
          · simp only [hge, if_false] at h
            exact htail h hnew
      · simp only [hle, if_false] at h
        exact htail h .inl

/-- What `pitr_manifest` chooses is no earlier than anything it may choose. -/
theorem le_bestManifest {at' t : Timestamp} {names : List String} :
    ∀ {best : Option (Timestamp × String)},
      (∃ name ∈ names, parseTsFromFilename name = some t ∧ t ≤ at') ∨ (∃ r ∈ best, t ≤ r.1) →
        ∃ r, bestManifest at' names best = some r ∧ t ≤ r.1 := by
  induction names with
  | nil =>
    rintro best (⟨name, hname, -⟩ | ⟨r, hr, hle⟩)
    · cases hname
    · exact ⟨r, hr, hle⟩
  | cons name names ih =>
    intro best h
    unfold bestManifest
    cases hparse : parseTsFromFilename name with
    | none =>
      refine ih ?_
      rcases h with ⟨name', hname', hp, hle⟩ | h
      · rcases List.mem_cons.mp hname' with rfl | hmem
        · rw [hparse] at hp; cases hp
        · exact .inl ⟨name', hmem, hp, hle⟩
      · exact .inr h
    | some t' =>
      by_cases hle' : t' ≤ at'
      · simp only [hle', if_true]
        -- whatever is kept is no earlier than the two that are compared
        have hkeep {best' : Option (Timestamp × String)}
            (hnew : ∃ r ∈ best', t' ≤ r.1) (hold : ∀ r ∈ best, ∃ r' ∈ best', r.1 ≤ r'.1) :
            ∃ r, bestManifest at' names best' = some r ∧ t ≤ r.1 := by
          refine ih ?_
          rcases h with ⟨name', hname', hp, hle⟩ | ⟨r, hr, hle⟩
          · rcases List.mem_cons.mp hname' with rfl | hmem
            · rw [hparse] at hp
              cases hp
              exact .inr hnew
            · exact .inl ⟨name', hmem, hp, hle⟩
          · obtain ⟨r', hr', hle''⟩ := hold r hr
            exact .inr ⟨r', hr', hle.trans hle''⟩
        cases best with
        | none => exact hkeep ⟨_, rfl, le_rfl⟩ fun r hr => by cases hr
        | some best =>
          by_cases hge : best.1 ≥ t'
          · simp only [hge, if_true]
            exact hkeep ⟨best, rfl, hge⟩ fun r hr => ⟨best, rfl, by cases hr; exact le_rfl⟩
          · simp only [hge, if_false]
            exact hkeep ⟨_, rfl, le_rfl⟩ fun r hr =>
              ⟨_, rfl, by cases hr; exact (not_le.mp hge).le⟩
      · simp only [hle', if_false]
        refine ih ?_
        rcases h with ⟨name', hname', hp, hle⟩ | h
        · rcases List.mem_cons.mp hname' with rfl | hmem
          · rw [hparse] at hp
            cases hp
            exact absurd hle hle'
          · exact .inl ⟨name', hmem, hp, hle⟩
        · exact .inr h

section
variable (hcodec : codec.Lawful) (h : Versioned codec root fs)
include hcodec h

/-- `pitr_manifest` finds a version, unless there is none. -/
theorem Versioned.pitrManifest (at' : Timestamp) : ∃ o, pitrManifest codec fs root db b at' =
    .ok o ∧
    ∀ m ∈ o, ∃ ts, ts < 2 ^ 64 ∧ manifestAt codec root fs db b ts = some m := by
  unfold KuzuEventBus.pitrManifest
  cases hbest : bestManifest at' (listManifestNames fs (branchDir root db b)) none with
  | none => exact ⟨none, rfl, fun m hm => by cases hm⟩
  | some r =>
    rcases bestManifest_mem hbest with hr | ⟨hmem, -, -⟩
    · cases hr
    · obtain ⟨ts, m, hlt, -, hat, hread⟩ := h.readManifest hcodec hmem
      refine ⟨some m, ?_, fun m' hm' => ?_⟩
      · simp only [hread]
        rfl
      · cases hm'
        exact ⟨ts, hlt, hat⟩

/-- A branch is created from a version, or from nothing. -/
theorem Versioned.baseManifest (at' : Option Timestamp) :
    ∃ o, FsBackend.baseManifest codec fs root db b at' = .ok o ∧
      ∀ m ∈ o, ∃ ts, ts < 2 ^ 64 ∧ manifestAt codec root fs db b ts = some m := by
  cases at' with
  | none => exact h.latestManifest hcodec
  | some at' => exact h.pitrManifest hcodec at'

/-- **`pitr_manifest` at the timestamp of a version finds it.** -/
theorem Versioned.pitrManifest_self (hts : ts < 2 ^ 64)
    (hm : manifestAt codec root fs db b ts = some m) :
    KuzuEventBus.pitrManifest codec fs root db b ts = .ok (some m) := by
  have hfile := (h.manifestAt_eq_some hcodec hm hts).1
  have hlisted : manifestName ts ∈ listManifestNames fs (branchDir root db b) :=
    h.mem_listManifestNames.mpr ⟨ts, hts, rfl, by rw [hfile]; rfl⟩
  obtain ⟨r, hbest, hge⟩ : ∃ r, bestManifest ts (listManifestNames fs (branchDir root db b)) none =
      some r ∧ ts ≤ r.1 :=
    le_bestManifest (.inl ⟨_, hlisted, parseTsFromFilename_manifestName hts, le_rfl⟩)
  rcases bestManifest_mem hbest with hr | ⟨hmem, hparse, hle⟩
  · cases hr
  · obtain ⟨ts', m', hlt', hname, hat, hread⟩ := h.readManifest hcodec hmem
    have hrts : r.1 = ts := le_antisymm hle hge
    rw [hname, parseTsFromFilename_manifestName hlt'] at hparse
    have heq : ts' = ts := (Option.some.inj hparse).trans hrts
    rw [heq, hm] at hat
    cases hat
    unfold KuzuEventBus.pitrManifest
    rw [hbest]
    simp only [hread]
    rfl

/-- **`read_manifest_meta` finds the version with a timestamp.** -/
theorem Versioned.readManifestMeta (hts : ts < 2 ^ 64)
    (hm : manifestAt codec root fs db b ts = some m) :
    FsBackend.readManifestMeta codec fs root db b ts = .ok (some (FsBackend.toMeta m)) := by
  have hfile := (h.manifestAt_eq_some hcodec hm hts).1
  change (if fs.isFile (manifestPath root db b ts) then
    (KuzuEventBus.readManifest codec fs (manifestPath root db b ts)).map fun m =>
      some (FsBackend.toMeta m) else .ok none) = _
  rw [FileSystem.isFile, hfile, KuzuEventBus.readManifest, hfile]
  simp only [hcodec m]
  rfl

end

/-! ### What a writer does to the files -/

/-- From `fs` to `fs'`, segments in the directory `dir` are created or written, and no other
files. -/
structure AppendsIn (dir : FilePath) (fs fs' : FileSystem) : Prop where
  frame : ∀ q, (∀ ep < 2 ^ 64, ∀ sq < 2 ^ 64, q ≠ dir ++ [walFilename ep sq]) →
    fs'.readFile q = fs.readFile q
  keeps : ∀ q, (fs.readFile q).isSome → (fs'.readFile q).isSome

theorem AppendsIn.refl (dir : FilePath) (fs : FileSystem) : AppendsIn dir fs fs :=
  ⟨fun _ _ => rfl, fun _ h => h⟩

theorem AppendsIn.trans {dir : FilePath} {fs'' : FileSystem} (h : AppendsIn dir fs fs')
    (h' : AppendsIn dir fs' fs'') : AppendsIn dir fs fs'' :=
  ⟨fun q hq => (h'.frame q hq).trans (h.frame q hq), fun q hq => h'.keeps q (h.keeps q hq)⟩

variable {ep sq : ℕ}

theorem appendsIn_create (dir : FilePath) (hep : ep < 2 ^ 64) (hsq : sq < 2 ^ 64) :
    AppendsIn dir fs (fs.create (dir ++ [walFilename ep sq])) where
  frame q hq := by rw [FileSystem.readFile_create, if_neg (hq ep hep sq hsq)]
  keeps q hq := by
    rw [FileSystem.readFile_create]
    split
    · rfl
    · exact hq

theorem appendsIn_append (dir : FilePath) (hep : ep < 2 ^ 64) (hsq : sq < 2 ^ 64) (bs : Bytes) :
    AppendsIn dir fs (fs.append (dir ++ [walFilename ep sq]) bs) where
  frame q hq := by rw [FileSystem.readFile_append, if_neg (hq ep hep sq hsq)]
  keeps q hq := by
    rw [FileSystem.readFile_append]
    split
    · rfl
    · exact hq

/-- The writer's file is there, under the name of its segment. -/
structure WalWriter.At (w : WalWriter) (fs : FileSystem) : Prop where
  file : w.file = w.dir ++ [walFilename w.epoch w.seq]
  epoch_lt : w.epoch < 2 ^ 64
  seq_lt : w.seq < 2 ^ 64
  isFile : (fs.readFile w.file).isSome

theorem parseU64_lt {cs : List Char} {n : ℕ} (h : parseU64 cs = some n) : n < 2 ^ 64 := by
  have hdigits {ds : List Char} (h : (if ds.isEmpty || !ds.all Char.isDigit then none
      else if Nat.ofDigitChars 10 ds 0 < u64Size then some (Nat.ofDigitChars 10 ds 0)
      else none) = some n) : n < 2 ^ 64 := by
    split at h
    · cases h
    · split at h
      · next hlt => cases h; exact hlt
      · cases h
  exact hdigits h

theorem parseSeqFromName_lt {name : String} {t : ℕ × ℕ} (h : parseSeqFromName name = some t) :
    t.1 < 2 ^ 64 ∧ t.2 < 2 ^ 64 := by
  simp only [parseSeqFromName] at h
  split at h
  · cases h
  · split at h
    · obtain ⟨ep, hep, h⟩ := Option.bind_eq_some_iff.mp h
      obtain ⟨sq, hsq, h⟩ := Option.bind_eq_some_iff.mp h
      cases h
      exact ⟨parseU64_lt hep, parseU64_lt hsq⟩
    · cases h

/-- Opening a writer creates one file. -/
theorem appendsIn_open {max : ℕ} {w : WalWriter}
    (h : WalWriter.open fs root db b max = .ok (w, fs')) :
    w.dir = walDir root db b ∧ w.At fs' ∧ AppendsIn (walDir root db b) fs fs' := by
  have hopen {ep sq : ℕ} (hep : ep < 2 ^ 64) (hsq : sq < 2 ^ 64)
      (heq : (w, fs') =
        (⟨walDir root db b, walDir root db b ++ [walFilename ep sq], ep, sq, 0, max⟩,
        fs.create (walDir root db b ++ [walFilename ep sq]))) :
      w.dir = walDir root db b ∧ w.At fs' ∧ AppendsIn (walDir root db b) fs fs' := by
    cases heq
    refine ⟨rfl, ⟨rfl, hep, hsq, ?_⟩, appendsIn_create _ hep hsq⟩
    rw [FileSystem.readFile_create, if_pos rfl]
    rfl
  unfold WalWriter.open at h
  cases hlast : (listWalNames fs (walDir root db b)).getLast?.bind parseSeqFromName with
  | none =>
    simp only [hlast] at h
    exact hopen (by decide) (by decide) (Except.ok.inj h).symm
  | some t =>
    simp only [hlast] at h
    obtain ⟨next, hnext, h⟩ := bind_eq_ok h
    obtain ⟨rfl, hlt⟩ := checkedAdd_eq_ok hnext
    obtain ⟨name, -, hname⟩ := Option.bind_eq_some_iff.mp hlast
    exact hopen (parseSeqFromName_lt hname).1 hlt (Except.ok.inj h).symm

/-- Writing a record writes to the writer's file, or to a new one. -/
theorem appendsIn_writeRecord {w w' : WalWriter} {p : Bytes} (hw : w.At fs)
    (h : w.writeRecord fs p = .ok (w', fs')) :
    w'.dir = w.dir ∧ w'.At fs' ∧ AppendsIn w.dir fs fs' := by
  have hwrite {w₁ : WalWriter} {fs₁ : FileSystem} (hw₁ : w₁.At fs₁) (hdir : w₁.dir = w.dir)
      (happ : AppendsIn w.dir fs fs₁)
      (heq : (w', fs') = ({ w₁ with bytesWritten := w₁.bytesWritten + (4 + p.length) },
        (fs₁.append w₁.file (u32LeBytes (p.length % 2 ^ 32))).append w₁.file p)) :
      w'.dir = w.dir ∧ w'.At fs' ∧ AppendsIn w.dir fs fs' := by
    cases heq
    have happ' : AppendsIn w.dir fs₁
        ((fs₁.append w₁.file (u32LeBytes (p.length % 2 ^ 32))).append w₁.file p) := by
      rw [hw₁.file, hdir]
      exact (appendsIn_append _ hw₁.epoch_lt hw₁.seq_lt _).trans
        (appendsIn_append _ hw₁.epoch_lt hw₁.seq_lt _)
    exact ⟨hdir, ⟨hw₁.file, hw₁.epoch_lt, hw₁.seq_lt, happ'.keeps _ hw₁.isFile⟩, happ.trans happ'⟩
  unfold WalWriter.writeRecord at h
  by_cases hfull : w.bytesWritten + (4 + p.length) > w.maxSegmentBytes
  · simp only [hfull, if_true] at h
    obtain ⟨⟨w₁, fs₁⟩, hrotate, h⟩ := bind_eq_ok h
    obtain ⟨next, hnext, heq⟩ := bind_eq_ok hrotate
    obtain ⟨rfl, hlt⟩ := checkedAdd_eq_ok hnext
    cases heq
    have hw₁ : (WalWriter.mk w.dir (w.dir ++ [walFilename w.epoch (w.seq + 1)]) w.epoch (w.seq + 1)
      0 w.maxSegmentBytes).At (fs.create (w.dir ++ [walFilename w.epoch (w.seq + 1)])) := by
      refine ⟨rfl, hw.epoch_lt, hlt, ?_⟩
      rw [FileSystem.readFile_create, if_pos rfl]
      rfl
    exact hwrite hw₁ rfl (appendsIn_create _ hw.epoch_lt hlt) (Except.ok.inj h).symm
  · simp only [hfull, if_false] at h
    exact hwrite hw rfl (.refl _ _) (Except.ok.inj h).symm

theorem appendsIn_writeAll {ps : List Bytes} : ∀ {w w' : WalWriter} {fs fs' : FileSystem}, w.At fs →
    w.writeAll fs ps = .ok (w', fs') → w'.dir = w.dir ∧ w'.At fs' ∧ AppendsIn w.dir fs fs' := by
  induction ps with
  | nil => intro w w' fs fs' hw h; cases h; exact ⟨rfl, hw, .refl _ _⟩
  | cons p ps ih =>
    intro w w' fs fs' hw h
    obtain ⟨⟨w₁, fs₁⟩, hrecord, hrest⟩ := bind_eq_ok h
    obtain ⟨hdir, hw₁, happ⟩ := appendsIn_writeRecord hw hrecord
    obtain ⟨hdir', hw', happ'⟩ := ih hw₁ hrest
    rw [hdir] at happ'
    exact ⟨hdir'.trans hdir, hw', happ.trans happ'⟩

/-- **Writing records creates and writes files of the branch's WAL directory only.** -/
theorem appendsIn_writeRecords {records : List Bytes} {w : WalWriter}
    (h : FsBackend.writeRecords fs root db b records = .ok (w, fs')) :
    w.dir = walDir root db b ∧ w.At fs' ∧ AppendsIn (walDir root db b) fs fs' := by
  obtain ⟨⟨w₀, fs₀⟩, hopen, hwrite⟩ := bind_eq_ok h
  obtain ⟨hdir, hw₀, happ⟩ := appendsIn_open hopen
  obtain ⟨hdir', hw, happ'⟩ := appendsIn_writeAll hw₀ hwrite
  rw [hdir] at happ'
  exact ⟨hdir'.trans hdir, hw, happ.trans happ'⟩

/-- Writing to a WAL directory leaves everything else in branch directories alone. -/
theorem AppendsIn.readFile {name : String} {rest : FilePath}
    (h : AppendsIn (walDir root db b) fs fs') (hname : name ≠ "wal") :
    fs'.readFile (branchDir root db' b' ++ name :: rest) =
      fs.readFile (branchDir root db' b' ++ name :: rest) := by
  refine h.frame _ fun ep _ sq _ heq => hname ?_
  rw [walDir_eq, List.append_assoc] at heq
  obtain ⟨-, -, htail⟩ := branchDir_append_eq heq
  exact List.head_eq_of_cons_eq htail

theorem manifestName_ne_wal (hts : ts < 2 ^ 64) : manifestName ts ≠ "wal" := by
  intro heq
  have hparse := parseTsFromFilename_manifestName hts
  rw [heq, parseTsFromFilename_wal] at hparse
  cases hparse

/-- Writing to a WAL directory leaves all versions alone. -/
theorem AppendsIn.manifestAt (h : AppendsIn (walDir root db b) fs fs') (hts : ts < 2 ^ 64) :
    manifestAt codec root fs' db' b' ts = manifestAt codec root fs db' b' ts := by
  rw [KuzuEventBus.manifestAt, manifestPath, h.readFile (manifestName_ne_wal hts)]
  rfl

theorem AppendsIn.versioned (h : AppendsIn (walDir root db b) fs fs')
    (hfs : Versioned codec root fs) : Versioned codec root fs' := by
  intro db' b' name rest ts bytes hparse hfile
  have hname : name ≠ "wal" := by
    rintro rfl
    rw [parseTsFromFilename_wal] at hparse
    cases hparse
  rw [h.readFile hname] at hfile
  exact hfs hparse hfile

/-! ### What a call does to the files -/

/-- A call that publishes the manifest `m` of a branch: WAL segments of the branch are written,
if any, and then the manifest. -/
structure Publishes (codec : ManifestCodec) (root : FilePath) (db : DatabaseName) (b : BranchName)
    (clock : Clock) (m : Manifest) (fs fs' : FileSystem) : Prop where
  branch : m.branch = b.asStr
  versionTs : m.versionTs = clock.nowMs
  writes : ∃ fs₁, AppendsIn (walDir root db b) fs fs₁ ∧
    fs' = writeManifest codec fs₁ root db b m clock.tmpTs

variable {clock : Clock}

/-- The manifest is there afterwards. -/
theorem Publishes.readFile_self (h : Publishes codec root db b clock m fs fs') :
    fs'.readFile (manifestPath root db b clock.nowMs) = some (codec.toVecPretty m) := by
  obtain ⟨fs₁, -, rfl⟩ := h.writes
  rw [writeManifest, readFile_atomicWriteFile, m.filename_eq, h.versionTs]
  exact if_pos rfl

/-- A path of a branch directory, under the name of a manifest, other than the one a call
writes. -/
theorem Publishes.readFile (h : Publishes codec root db b clock m fs fs') {name : String}
    {rest : FilePath} (hparse : parseTsFromFilename name = some ts)
    (hne : branchDir root db' b' ++ name :: rest ≠ manifestPath root db b clock.nowMs) :
    fs'.readFile (branchDir root db' b' ++ name :: rest) =
      fs.readFile (branchDir root db' b' ++ name :: rest) := by
  obtain ⟨fs₁, happ, rfl⟩ := h.writes
  have hmanifest : branchDir root db' b' ++ name :: rest ≠
      branchDir root db b ++ [manifestName clock.nowMs] := hne
  have htmp : branchDir root db' b' ++ name :: rest ≠
      branchDir root db b ++ [tmpFileName (manifestName clock.nowMs) clock.tmpTs] := by
    intro heq
    obtain ⟨-, -, htail⟩ := branchDir_append_eq heq
    rw [List.head_eq_of_cons_eq htail, parseTsFromFilename_tmpFileName] at hparse
    cases hparse
  have hwal : name ≠ "wal" := by
    rintro rfl
    rw [parseTsFromFilename_wal] at hparse
    cases hparse
  rw [writeManifest, readFile_atomicWriteFile, m.filename_eq, h.versionTs, if_neg hmanifest,
    if_neg htmp, happ.readFile hwal]

/-- The version is there afterwards. -/
theorem Publishes.manifestAt_self (hcodec : codec.Lawful)
    (h : Publishes codec root db b clock m fs fs') :
    manifestAt codec root fs' db b clock.nowMs = some m := by
  rw [manifestAt, h.readFile_self, Option.bind_some, hcodec m]

/-- **The other versions are as they were.** -/
theorem Publishes.manifestAt_of_ne (h : Publishes codec root db b clock m fs fs')
    (hts : ts' < 2 ^ 64) (hne : (db', b', ts') ≠ (db, b, clock.nowMs)) :
    manifestAt codec root fs' db' b' ts' = manifestAt codec root fs db' b' ts' := by
  have hpath : manifestPath root db' b' ts' ≠ manifestPath root db b clock.nowMs := by
    intro heq
    obtain ⟨rfl, rfl, hname⟩ := branchDir_append_eq heq
    rw [manifestName_injective (List.head_eq_of_cons_eq hname)] at hne
    exact hne rfl
  have hread : fs'.readFile (manifestPath root db' b' ts') =
      fs.readFile (manifestPath root db' b' ts') :=
    h.readFile (parseTsFromFilename_manifestName hts) hpath
  rw [manifestAt, hread]
  rfl

/-- **A call leaves the branch directories in order.** -/
theorem Publishes.versioned (h : Publishes codec root db b clock m fs fs')
    (hfs : Versioned codec root fs) : Versioned codec root fs' := by
  intro db' b' name rest ts bytes hparse hfile
  by_cases hmanifest : branchDir root db' b' ++ name :: rest = manifestPath root db b clock.nowMs
  · rw [hmanifest, h.readFile_self] at hfile
    cases hfile
    obtain ⟨rfl, rfl, hname⟩ := branchDir_append_eq hmanifest
    obtain ⟨rfl, rfl⟩ := List.cons.inj hname
    rw [parseTsFromFilename_manifestName clock.nowMs_lt] at hparse
    cases hparse
    exact ⟨rfl, rfl, clock.nowMs_lt, m, rfl, h.branch, h.versionTs⟩
  · rw [h.readFile hparse hmanifest] at hfile
    exact hfs hparse hfile

/-- Writing a manifest leaves the WAL directories alone. -/
theorem readFile_writeManifest_wal (tmpTs : ℕ) (name : String) (rest : FilePath) :
    (writeManifest codec fs root db b m tmpTs).readFile (walDir root db' b' ++ name :: rest) =
      fs.readFile (walDir root db' b' ++ name :: rest) := by
  have hne (other : String) :
      walDir root db' b' ++ name :: rest ≠ branchDir root db b ++ [other] := by
    intro heq
    rw [walDir_eq, List.append_assoc] at heq
    obtain ⟨-, -, hname⟩ := branchDir_append_eq heq
    cases (List.cons.inj hname).2
  rw [writeManifest, readFile_atomicWriteFile, if_neg (hne _), if_neg (hne _)]

end KuzuEventBus
