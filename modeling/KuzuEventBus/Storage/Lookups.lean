import KuzuEventBus.Storage.Publishing

/-!
# Looking up a version by its time

The two lookups of `manifest.rs` order the versions of a branch differently: the
latest one is the last file name in text order, the one of a point in time has the
greatest number parsed from a name.  The text order is that of the numbers only as
long as these have the right digits, and the parser also takes names no manifest is
written under, such as `manifest-007.json`.

## Main definitions

* `writeManifests`, `lastWritten` — manifests written one after the other, and what they leave.
* `IsNewest writes at' o` — `o` is the newest version written, up to `at'`.
* `Wins` — the name `pitr_manifest` chooses.
* `LatestIsNewest` — the timestamps are listed in order, and the latest version is the newest.

## Main results

* `bestManifest_eq_some_iff` — the loop chooses the winner.
* `pitr_exact_iff` — when a lookup by time finds the newest version.
* `latest_newest_iff` — when the latest version is the newest.
* `textOrdered_of_length` — timestamps with the same number of digits are in order.
-/

namespace KuzuEventBus

open Text

variable {codec : ManifestCodec} {root : FilePath} {fs : FileSystem} {db : DatabaseName}
  {b : BranchName} {ts : Timestamp} {m : Manifest} {writes : List (Manifest × ℕ)}

/-! ### Writing manifests -/

/-- `write_manifest`, for each of the manifests with the clock reading of its temporary file. -/
def writeManifests (codec : ManifestCodec) (root : FilePath) (db : DatabaseName) (b : BranchName)
    (fs : FileSystem) (writes : List (Manifest × ℕ)) : FileSystem :=
  writes.foldl (fun fs w => writeManifest codec fs root db b w.1 w.2) fs

/-- The manifest last written with the timestamp `ts`. -/
def lastWritten (writes : List (Manifest × ℕ)) (ts : Timestamp) : Option Manifest :=
  ((writes.map Prod.fst).filter fun m => m.versionTs = ts).getLast?

theorem lastWritten_concat (writes : List (Manifest × ℕ)) (w : Manifest × ℕ) (ts : Timestamp) :
    lastWritten (writes ++ [w]) ts =
      if w.1.versionTs = ts then some w.1 else lastWritten writes ts := by
  rw [lastWritten, List.map_append, List.filter_append]
  by_cases h : w.1.versionTs = ts
  · rw [if_pos h]
    simp [h]
  · rw [if_neg h]
    simp [h, lastWritten]

theorem versionTs_of_lastWritten (h : lastWritten writes ts = some m) : m.versionTs = ts := by
  have hmem := List.mem_of_getLast? h
  simpa using (List.mem_filter.mp hmem).2

theorem mem_of_lastWritten (h : lastWritten writes ts = some m) : ∃ w ∈ writes, w.1 = m := by
  have hmem := List.mem_of_getLast? h
  simpa using (List.mem_filter.mp hmem).1

theorem exists_lastWritten {w : Manifest × ℕ} (hw : w ∈ writes) :
    ∃ m, lastWritten writes w.1.versionTs = some m := by
  induction writes using List.reverseRecOn with
  | nil => cases hw
  | append_singleton writes w' ih =>
    rw [lastWritten_concat]
    by_cases h : w'.1.versionTs = w.1.versionTs
    · exact ⟨w'.1, if_pos h⟩
    · rw [if_neg h]
      rcases List.mem_append.mp hw with hw | hw
      · exact ih hw
      · rw [List.mem_singleton.mp hw] at h
        exact absurd rfl h

theorem writeManifests_concat (writes : List (Manifest × ℕ)) (w : Manifest × ℕ) :
    writeManifests codec root db b fs (writes ++ [w]) =
      writeManifest codec (writeManifests codec root db b fs writes) root db b w.1 w.2 := by
  rw [writeManifests, List.foldl_append]
  rfl

/-- What one write leaves under the names of manifests. -/
theorem readFile_writeManifest {name : String} (rest : FilePath) (tmpTs : ℕ)
    (hname : (parseTsFromFilename name).isSome) :
    (writeManifest codec fs root db b m tmpTs).readFile (branchDir root db b ++ name :: rest) =
      if name = manifestName m.versionTs ∧ rest = [] then some (codec.toVecPretty m)
      else fs.readFile (branchDir root db b ++ name :: rest) := by
  have htmp : branchDir root db b ++ name :: rest ≠
      branchDir root db b ++ [tmpFileName m.filename tmpTs] := by
    intro heq
    rw [List.append_cancel_left_eq] at heq
    rw [List.head_eq_of_cons_eq heq, parseTsFromFilename_tmpFileName] at hname
    cases hname
  rw [writeManifest, readFile_atomicWriteFile, if_neg htmp, m.filename_eq]
  simp only [List.append_cancel_left_eq, List.cons.injEq]

/-- **A manifest is there as it was last written.** -/
theorem readFile_of_lastWritten (hts : ts < 2 ^ 64) (h : lastWritten writes ts = some m) :
    (writeManifests codec root db b fs writes).readFile (manifestPath root db b ts) =
      some (codec.toVecPretty m) := by
  have hparse : (parseTsFromFilename (manifestName ts)).isSome := by
    rw [parseTsFromFilename_manifestName hts]
    rfl
  induction writes using List.reverseRecOn with
  | nil => cases h
  | append_singleton writes w ih =>
    rw [lastWritten_concat] at h
    rw [writeManifests_concat, manifestPath, readFile_writeManifest [] w.2 hparse]
    by_cases hw : w.1.versionTs = ts
    · rw [if_pos hw] at h
      cases h
      rw [if_pos ⟨by rw [hw], rfl⟩]
    · rw [if_neg hw] at h
      rw [if_neg fun heq => hw (manifestName_injective heq.1).symm]
      exact ih h

/-- Under other names that parse, the directory holds what it held. -/
theorem readFile_writeManifests_of_ne {name : String} {rest : FilePath}
    (hname : (parseTsFromFilename name).isSome)
    (hne : ∀ w ∈ writes, ¬ (name = manifestName w.1.versionTs ∧ rest = [])) :
    (writeManifests codec root db b fs writes).readFile (branchDir root db b ++ name :: rest) =
      fs.readFile (branchDir root db b ++ name :: rest) := by
  induction writes using List.reverseRecOn with
  | nil => rfl
  | append_singleton writes w ih =>
    rw [writeManifests_concat, readFile_writeManifest rest w.2 hname,
      if_neg (hne w (List.mem_append_right _ (List.mem_singleton_self w)))]
    exact ih fun w' hw' => hne w' (List.mem_append_left _ hw')

/-! ### The winner of a lookup -/

/-- The name `pitr_manifest` chooses among `names`: none has a later timestamp up to `at'`, and
those with the same one are not before it in text order. -/
def Wins (at' : Timestamp) (names : List String) (ts : Timestamp) (name : String) : Prop :=
  (name ∈ names ∧ parseTsFromFilename name = some ts ∧ ts ≤ at') ∧
    ∀ other ∈ names, ∀ ts', parseTsFromFilename other = some ts' → ts' ≤ at' →
      ts' < ts ∨ ts' = ts ∧ name ≤ other

/-- The loop keeps the first name of the greatest timestamp: those in front of it are
earlier, and so is what it started from. -/
theorem bestManifest_split {at' : Timestamp} {names : List String} :
    ∀ {best : Option (Timestamp × String)} {r : Timestamp × String},
      bestManifest at' names best = some r → best = some r ∨ ∃ before after,
        names = before ++ r.2 :: after ∧ parseTsFromFilename r.2 = some r.1 ∧ r.1 ≤ at' ∧
          (∀ name ∈ before, ∀ t, parseTsFromFilename name = some t → t ≤ at' → t < r.1) ∧
          ∀ r' ∈ best, r'.1 < r.1 := by
  induction names with
  | nil => intro best r h; exact .inl h
  | cons name names ih =>
    intro best r h
    -- a name that is not taken is in front of whatever is chosen later
    have hpass (h : bestManifest at' names best = some r)
        (hname : ∀ t, parseTsFromFilename name = some t → t ≤ at' → ∃ r' ∈ best, t ≤ r'.1) :
        best = some r ∨ ∃ before after, name :: names = before ++ r.2 :: after ∧
          parseTsFromFilename r.2 = some r.1 ∧ r.1 ≤ at' ∧
            (∀ n ∈ before, ∀ t, parseTsFromFilename n = some t → t ≤ at' → t < r.1) ∧
            ∀ r' ∈ best, r'.1 < r.1 := by
      rcases ih h with h | ⟨before, after, rfl, hr, hle, hbefore, hbest⟩
      · exact .inl h
      · refine .inr ⟨name :: before, after, rfl, hr, hle, ?_, hbest⟩
        intro n hn t ht hle'
        rcases List.mem_cons.mp hn with rfl | hn
        · obtain ⟨r', hr', hle''⟩ := hname t ht hle'
          exact hle''.trans_lt (hbest r' hr')
        · exact hbefore n hn t ht hle'
    -- a name that is taken is chosen, or in front of a later one
    have htake {t : Timestamp} (h : bestManifest at' names (some (t, name)) = some r)
        (hparse : parseTsFromFilename name = some t) (hle : t ≤ at')
        (hbest : ∀ r' ∈ best, r'.1 < t) :
        best = some r ∨ ∃ before after, name :: names = before ++ r.2 :: after ∧
          parseTsFromFilename r.2 = some r.1 ∧ r.1 ≤ at' ∧
            (∀ n ∈ before, ∀ t, parseTsFromFilename n = some t → t ≤ at' → t < r.1) ∧
            ∀ r' ∈ best, r'.1 < r.1 := by
      right
      rcases ih h with h | ⟨before, after, rfl, hr, hle', hbefore, hlater⟩
      · cases h
        exact ⟨[], names, rfl, hparse, hle, by simp, hbest⟩
      · have hlt : t < r.1 := hlater _ rfl
        refine ⟨name :: before, after, rfl, hr, hle', ?_, fun r' hr' => (hbest r' hr').trans hlt⟩
        intro n hn t' ht' hle''
        rcases List.mem_cons.mp hn with rfl | hn
        · rw [hparse] at ht'
          cases ht'
          exact hlt
        · exact hbefore n hn t' ht' hle''
    unfold bestManifest at h
    cases hparse : parseTsFromFilename name with
    | none =>
      rw [hparse] at h
      exact hpass h fun t ht => by rw [hparse] at ht; cases ht
    | some t =>
      rw [hparse] at h
      by_cases hle : t ≤ at'
      · simp only [hle, if_true] at h
        cases best with
        | none => exact htake h hparse hle (by simp)
        | some best =>
          by_cases hge : best.1 ≥ t
          · simp only [hge, if_true] at h
            refine hpass h fun t' ht' _ => ⟨best, rfl, ?_⟩
            rw [hparse] at ht'
            cases ht'
            exact hge
          · simp only [hge, if_false] at h
            refine htake h hparse hle fun r' hr' => ?_
            cases hr'
            exact Nat.not_le.mp hge
      · simp only [hle, if_false] at h
        refine hpass h fun t' ht' hle' => ?_
        rw [hparse] at ht'
        cases ht'
        exact absurd hle' hle

/-- Of a sorted listing the loop chooses a winner. -/
theorem wins_of_bestManifest {at' : Timestamp} {names : List String} {name : String}
    (hsorted : names.Pairwise (· ≤ ·)) (h : bestManifest at' names none = some (ts, name)) :
    Wins at' names ts name := by
  rcases bestManifest_split h with h | ⟨before, after, rfl, hparse, hle, hbefore, -⟩
  · cases h
  refine ⟨⟨by simp, hparse, hle⟩, ?_⟩
  intro other hother ts' hts' hle'
  rcases List.mem_append.mp hother with hother | hother
  · exact .inl (hbefore other hother ts' hts' hle')
  -- what follows is no earlier in text order
  have hfollow : name ≤ other := by
    rcases List.mem_cons.mp hother with rfl | hother
    · exact le_rfl
    · exact (List.pairwise_cons.mp (List.pairwise_append.mp hsorted).2.1).1 other hother
  have hmax : ts' ≤ ts := by
    obtain ⟨r, hr, hle''⟩ := le_bestManifest
      (.inl ⟨other, List.mem_append_right before hother, hts', hle'⟩)
    rw [h] at hr
    cases hr
    exact hle''
  rcases Nat.lt_or_eq_of_le hmax with hlt | heq
  · exact .inl hlt
  · exact .inr ⟨heq, hfollow⟩

theorem Wins.unique {at' ts' : Timestamp} {names : List String} {name name' : String}
    (h : Wins at' names ts name) (h' : Wins at' names ts' name') : ts = ts' ∧ name = name' := by
  obtain ⟨⟨hmem, hparse, hle⟩, hmax⟩ := h
  obtain ⟨⟨hmem', hparse', hle'⟩, hmax'⟩ := h'
  rcases hmax name' hmem' ts' hparse' hle' with hlt | ⟨rfl, hname⟩
  · rcases hmax' name hmem ts hparse hle with hlt' | ⟨heq, -⟩
    · exact absurd (hlt.trans hlt') (Nat.lt_irrefl _)
    · exact absurd heq.symm hlt.ne
  · rcases hmax' name hmem ts' hparse hle with hlt' | ⟨-, hname'⟩
    · exact absurd hlt' (Nat.lt_irrefl _)
    · exact ⟨rfl, le_antisymm hname hname'⟩

/-- **The loop chooses the winner.** -/
theorem bestManifest_eq_some_iff {at' : Timestamp} {names : List String} {name : String}
    (hsorted : names.Pairwise (· ≤ ·)) :
    bestManifest at' names none = some (ts, name) ↔ Wins at' names ts name := by
  constructor
  · exact wins_of_bestManifest hsorted
  · intro h
    obtain ⟨r, hr, -⟩ := le_bestManifest (.inl ⟨name, h.1.1, h.1.2.1, h.1.2.2⟩)
    obtain ⟨rfl, rfl⟩ := h.unique (wins_of_bestManifest hsorted hr)
    exact hr

theorem bestManifest_eq_none {at' : Timestamp} {names : List String} {name : String}
    (h : bestManifest at' names none = none) (hname : name ∈ names)
    (hparse : parseTsFromFilename name = some ts) : at' < ts := by
  by_contra hle
  obtain ⟨r, hr, -⟩ := le_bestManifest (.inl ⟨name, hname, hparse, Nat.not_lt.mp hle⟩)
  rw [h] at hr
  cases hr

/-! ### The lookup by time -/

/-- The manifest with the greatest timestamp up to `at'` of those written, none if there is
none. -/
def IsNewest (writes : List (Manifest × ℕ)) (at' : Timestamp) : Option Manifest → Prop
  | none => ∀ w ∈ writes, at' < w.1.versionTs
  | some m => lastWritten writes m.versionTs = some m ∧ m.versionTs ≤ at' ∧
      ∀ w ∈ writes, w.1.versionTs ≤ at' → w.1.versionTs ≤ m.versionTs

/-- The manifest last written with the greatest timestamp is the newest one. -/
theorem isNewest_some {at' : Timestamp} (hm : lastWritten writes ts = some m) (hle : ts ≤ at')
    (hmax : ∀ w ∈ writes, w.1.versionTs ≤ at' → w.1.versionTs ≤ ts) :
    IsNewest writes at' (some m) := by
  obtain rfl := versionTs_of_lastWritten hm
  exact ⟨hm, hle, hmax⟩

theorem IsNewest.unique {at' : Timestamp} {o o' : Option Manifest} (h : IsNewest writes at' o)
    (h' : IsNewest writes at' o') : o = o' := by
  -- one of the two being none, no manifest is early enough for the other
  have hnone {m : Manifest} (h : IsNewest writes at' (some m)) (h' : IsNewest writes at' none) :
      False := by
    obtain ⟨w, hw, rfl⟩ := mem_of_lastWritten h.1
    exact absurd h.2.1 (Nat.not_le.mpr (h' w hw))
  cases o with
  | none =>
    cases o' with
    | none => rfl
    | some m' => exact (hnone h' h).elim
  | some m =>
    cases o' with
    | none => exact (hnone h h').elim
    | some m' =>
      obtain ⟨hm, hle, hmax⟩ := h
      obtain ⟨hm', hle', hmax'⟩ := h'
      obtain ⟨w, hw, rfl⟩ := mem_of_lastWritten hm
      obtain ⟨w', hw', rfl⟩ := mem_of_lastWritten hm'
      rw [le_antisymm (hmax' w hw hle) (hmax w' hw' hle'), hm'] at hm
      exact hm.symm

section
variable (hts : ∀ w ∈ writes, w.1.versionTs < 2 ^ 64)
include hts

/-- Every manifest written is listed. -/
theorem mem_readDir_of_mem {w : Manifest × ℕ} (hw : w ∈ writes) :
    manifestName w.1.versionTs ∈
      (writeManifests codec root db b fs writes).readDir (branchDir root db b) := by
  obtain ⟨m, hm⟩ := exists_lastWritten hw
  rw [FileSystem.mem_readDir]
  refine ⟨[], ?_⟩
  rw [← manifestPath, readFile_of_lastWritten (hts w hw) hm]
  rfl

theorem mem_listManifestNames_of_mem {w : Manifest × ℕ} (hw : w ∈ writes) :
    manifestName w.1.versionTs ∈
      listManifestNames (writeManifests codec root db b fs writes) (branchDir root db b) := by
  rw [listManifestNames, mem_sortNames, List.mem_filter]
  exact ⟨mem_readDir_of_mem hts hw, by rw [parseTsFromFilename_manifestName (hts w hw)]; rfl⟩

/-- Reading a manifest by its name gives the one last written. -/
theorem readManifest_of_lastWritten (hcodec : codec.Lawful) (h : lastWritten writes ts = some m) :
    readManifest codec (writeManifests codec root db b fs writes)
      (branchDir root db b ++ [manifestName ts]) = .ok m := by
  have hlt : ts < 2 ^ 64 := by
    obtain ⟨w, hw, rfl⟩ := mem_of_lastWritten h
    rw [← versionTs_of_lastWritten h]
    exact hts w hw
  rw [← manifestPath, readManifest, readFile_of_lastWritten hlt h]
  simp only [hcodec m]

/-- A lookup by time finds the newest manifest if no stray name wins. -/
theorem pitr_isNewest (hcodec : codec.Lawful) {at' : Timestamp}
    (hwinner : ∀ ts name, Wins at' (listManifestNames (writeManifests codec root db b fs writes)
      (branchDir root db b)) ts name → ∃ w ∈ writes, name = manifestName w.1.versionTs) :
    ∃ o, pitrManifest codec (writeManifests codec root db b fs writes) root db b at' = .ok o ∧
      IsNewest writes at' o := by
  rw [pitrManifest]
  cases hbest : bestManifest at' (listManifestNames (writeManifests codec root db b fs writes)
      (branchDir root db b)) none with
  | none =>
    refine ⟨none, rfl, fun w hw => ?_⟩
    exact bestManifest_eq_none hbest (mem_listManifestNames_of_mem hts hw)
      (parseTsFromFilename_manifestName (hts w hw))
  | some r =>
    obtain ⟨ts, name⟩ := r
    have hwins := wins_of_bestManifest (List.pairwise_insertionSort _ _) hbest
    obtain ⟨w, hw, rfl⟩ := hwinner ts name hwins
    obtain ⟨m, hm⟩ := exists_lastWritten hw
    obtain ⟨⟨-, hparse, hle⟩, hmax⟩ := hwins
    rw [parseTsFromFilename_manifestName (hts w hw)] at hparse
    cases hparse
    refine ⟨some m, ?_, isNewest_some hm hle fun w' hw' hle' => ?_⟩
    · simp only [readManifest_of_lastWritten hts hcodec hm]
      rfl
    · rcases hmax _ (mem_listManifestNames_of_mem hts hw') _
        (parseTsFromFilename_manifestName (hts w' hw')) hle' with hlt | ⟨heq, -⟩
      · exact hlt.le
      · exact heq.le

end

theorem nodup_listManifestNames (fs : FileSystem) (dir : FilePath) :
    (listManifestNames fs dir).Nodup :=
  (List.perm_insertionSort _ _).nodup_iff.mpr ((FileSystem.nodup_readDir fs dir).filter _)

theorem sorted_listManifestNames (fs : FileSystem) (dir : FilePath) :
    (listManifestNames fs dir).Pairwise (· ≤ ·) := List.pairwise_insertionSort _ _

theorem readManifest_eq_ok_iff {path : FilePath} :
    readManifest codec fs path = .ok m ↔ (fs.readFile path).bind codec.fromSlice = some m := by
  rw [readManifest]
  cases fs.readFile path with
  | none => simp
  | some data =>
    simp only [Option.bind_some]
    cases codec.fromSlice data <;> simp

/-- **A lookup by time is exact unless a stray name wins.**  The files of the branch may
hold anything before the manifests are written; the newest one up to `at'` is found
exactly when the name that wins is that of a manifest written, or its file holds a copy
of the manifest looked for. -/
theorem pitr_exact_iff (hcodec : codec.Lawful) (hts : ∀ w ∈ writes, w.1.versionTs < 2 ^ 64)
    (at' : Timestamp) :
    (∃ o, pitrManifest codec (writeManifests codec root db b fs writes) root db b at' = .ok o ∧
      IsNewest writes at' o) ↔
    ∀ ts name, Wins at' (listManifestNames (writeManifests codec root db b fs writes)
        (branchDir root db b)) ts name →
      (∀ w ∈ writes, name ≠ manifestName w.1.versionTs) →
        ∃ m, (fs.readFile (branchDir root db b ++ [name])).bind codec.fromSlice = some m ∧
          IsNewest writes at' (some m) := by
  have hsorted := sorted_listManifestNames (writeManifests codec root db b fs writes)
    (branchDir root db b)
  -- under a stray name the file is what it was
  have hstray {name : String} (hname : (parseTsFromFilename name).isSome)
      (hne : ∀ w ∈ writes, name ≠ manifestName w.1.versionTs) :
      (writeManifests codec root db b fs writes).readFile (branchDir root db b ++ [name]) =
        fs.readFile (branchDir root db b ++ [name]) :=
    readFile_writeManifests_of_ne hname fun w hw heq => hne w hw heq.1
  constructor
  · rintro ⟨o, ho, hnewest⟩ ts name hwins hne
    rw [pitrManifest, (bestManifest_eq_some_iff hsorted).mpr hwins] at ho
    obtain ⟨m, hm, rfl⟩ := map_eq_ok ho
    rw [readManifest_eq_ok_iff, hstray (by rw [hwins.1.2.1]; rfl) hne] at hm
    exact ⟨m, hm, hnewest⟩
  · intro h
    by_cases hall : ∀ ts name, Wins at' (listManifestNames
        (writeManifests codec root db b fs writes) (branchDir root db b)) ts name →
          ∃ w ∈ writes, name = manifestName w.1.versionTs
    · exact pitr_isNewest hts hcodec hall
    · push Not at hall
      obtain ⟨ts, name, hwins, hne⟩ := hall
      obtain ⟨m, hm, hnewest⟩ := h ts name hwins hne
      rw [← hstray (by rw [hwins.1.2.1]; rfl) hne, ← readManifest_eq_ok_iff] at hm
      rw [pitrManifest, (bestManifest_eq_some_iff hsorted).mpr hwins]
      exact ⟨some m, by simp only [hm]; rfl, hnewest⟩

/-- Versions 9 and 10 of a branch. -/
def ninthAndTenth : List (Manifest × ℕ) := [(⟨"main", 9, [], none⟩, 1), (⟨"main", 10, [], none⟩, 2)]

def tenVersionsCodec : ManifestCodec := .listed (ninthAndTenth.map Prod.fst)

theorem tenVersionsCodec_lawful : tenVersionsCodec.Lawful :=
  ManifestCodec.listed_lawful (by decide +kernel)

/-- Two versions beside a malformed name, which does not parse. -/
theorem pitr_exact_malformed_name :
    let fs := writeManifests tenVersionsCodec [] testDb mainBranch
      (FileSystem.create ∅ (branchDir [] testDb mainBranch ++ ["manifest-x.json"])) ninthAndTenth
    ∃ o, pitrManifest tenVersionsCodec fs [] testDb mainBranch 12 = .ok o ∧
      IsNewest ninthAndTenth 12 o := by
  refine (pitr_exact_iff tenVersionsCodec_lawful (by decide) 12).mpr fun ts name hwins hne => ?_
  have hlisted : listManifestNames (writeManifests tenVersionsCodec [] testDb mainBranch
      (FileSystem.create ∅ (branchDir [] testDb mainBranch ++ ["manifest-x.json"])) ninthAndTenth)
      (branchDir [] testDb mainBranch) = ["manifest-10.json", "manifest-9.json"] := by
    decide +kernel
  have hname := hwins.1.1
  rw [hlisted] at hname
  simp only [List.mem_cons, List.not_mem_nil, or_false] at hname
  rcases hname with rfl | rfl
  · exact absurd rfl (hne (⟨"main", 10, [], none⟩, 2) (by decide))
  · exact absurd rfl (hne (⟨"main", 9, [], none⟩, 1) (by decide))

/-- A copy of version 9 kept as `manifest-+11.json` wins over version 10. -/
theorem pitr_stray_copy :
    let path := branchDir [] testDb mainBranch ++ ["manifest-+11.json"]
    let copy := tenVersionsCodec.toVecPretty ⟨"main", 9, [], none⟩
    let fs := writeManifests tenVersionsCodec [] testDb mainBranch
      ((FileSystem.create ∅ path).append path copy) ninthAndTenth
    pitrManifest tenVersionsCodec fs [] testDb mainBranch 12 =
        .ok (some ⟨"main", 9, [], none⟩) ∧
      IsNewest ninthAndTenth 12 (some ⟨"main", 10, [], none⟩) ∧
      ¬ IsNewest ninthAndTenth 12 (some ⟨"main", 9, [], none⟩) := by
  refine ⟨by decide +kernel, ⟨rfl, by decide, by decide⟩, ?_⟩
  rintro ⟨-, -, hmax⟩
  exact absurd (hmax (⟨"main", 10, [], none⟩, 2) (by decide) (by decide)) (by decide)

/-! ### The latest version -/

/-- The timestamps are listed in increasing order, and the latest version is the newest one,
the one a lookup at `u64::MAX` finds. -/
def LatestIsNewest (codec : ManifestCodec) (root : FilePath) (fs : FileSystem) (db : DatabaseName)
    (b : BranchName) (writes : List (Manifest × ℕ)) : Prop :=
  (∃ tss, FsBackend.listSnapshotTimestamps codec fs root db b = .ok tss ∧
      tss.Pairwise (· < ·)) ∧
    ∃ o, latestManifest codec fs root db b = .ok o ∧ IsNewest writes (2 ^ 64 - 1) o ∧
      pitrManifest codec fs root db b (2 ^ 64 - 1) = .ok o

/-- The names of the versions are in text order as their timestamps are. -/
def TextOrdered (writes : List (Manifest × ℕ)) : Prop :=
  ∀ w ∈ writes, ∀ w' ∈ writes, w.1.versionTs < w'.1.versionTs →
    manifestName w.1.versionTs < manifestName w'.1.versionTs

instance (writes : List (Manifest × ℕ)) : Decidable (TextOrdered writes) :=
  inferInstanceAs (Decidable (∀ w ∈ writes, ∀ w' ∈ writes,
    w.1.versionTs < w'.1.versionTs → manifestName w.1.versionTs < manifestName w'.1.versionTs))

/-- Timestamps with the same number of digits, as those of the present clock, are in order. -/
theorem textOrdered_of_length {n : ℕ}
    (h : ∀ w ∈ writes, w.1.versionTs.repr.toList.length = n) : TextOrdered writes := by
  intro w hw w' hw' hlt
  have hdigits := repr_lt_of_lt ((h w hw).trans (h w' hw').symm) hlt
  rw [String.lt_iff_toList_lt, manifestName_toList, manifestName_toList]
  apply List.append_left_lt
  exact append_lt_append_of_length ((h w hw).trans (h w' hw').symm) hdigits _ _

section
variable (hcodec : codec.Lawful) (hts : ∀ w ∈ writes, w.1.versionTs < 2 ^ 64)
  (hempty : ∀ name rest, (parseTsFromFilename name).isSome →
    fs.readFile (branchDir root db b ++ name :: rest) = none)
include hts hempty

/-- The listing of a branch that held no manifests: the names of the manifests written. -/
theorem mem_listManifestNames_writeManifests {name : String} :
    name ∈ listManifestNames (writeManifests codec root db b fs writes) (branchDir root db b) ↔
      ∃ w ∈ writes, name = manifestName w.1.versionTs := by
  constructor
  · intro hname
    rw [listManifestNames, mem_sortNames, List.mem_filter, FileSystem.mem_readDir] at hname
    obtain ⟨⟨rest, hfile⟩, hparse⟩ := hname
    by_contra hne
    rw [readFile_writeManifests_of_ne hparse fun w hw heq => hne ⟨w, hw, heq.1⟩,
      hempty name rest hparse] at hfile
    cases hfile
  · rintro ⟨w, hw, rfl⟩
    exact mem_listManifestNames_of_mem hts hw

include hcodec

/-- Every listed name reads as the manifest last written under it. -/
theorem exists_readManifest {name : String}
    (hname : name ∈ listManifestNames (writeManifests codec root db b fs writes)
      (branchDir root db b)) :
    ∃ ts m, name = manifestName ts ∧ ts < 2 ^ 64 ∧ lastWritten writes ts = some m ∧
      readManifest codec (writeManifests codec root db b fs writes)
        (branchDir root db b ++ [name]) = .ok m := by
  obtain ⟨w, hw, rfl⟩ := (mem_listManifestNames_writeManifests hts hempty).mp hname
  obtain ⟨m, hm⟩ := exists_lastWritten hw
  exact ⟨_, m, rfl, hts w hw, hm, readManifest_of_lastWritten hts hcodec hm⟩

/-- The timestamps are those of the names, in the order of the names. -/
theorem listSnapshotTimestamps_writeManifests :
    FsBackend.listSnapshotTimestamps codec (writeManifests codec root db b fs writes) root db b =
      .ok ((listManifestNames (writeManifests codec root db b fs writes) (branchDir root db b)).map
        fun name => (parseTsFromFilename name).getD 0) := by
  rw [FsBackend.listSnapshotTimestamps, listManifestPaths, List.mapM_map]
  apply mapM_eq_ok
  intro name hname
  obtain ⟨ts, m, rfl, hlt, hm, hread⟩ := exists_readManifest hcodec hts hempty hname
  rw [Function.comp_apply, hread, parseTsFromFilename_manifestName hlt,
    ← versionTs_of_lastWritten hm]
  rfl

/-- With no manifests before, a lookup by time is exact. -/
theorem pitr_exact (at' : Timestamp) :
    ∃ o, pitrManifest codec (writeManifests codec root db b fs writes) root db b at' = .ok o ∧
      IsNewest writes at' o :=
  pitr_isNewest hts hcodec fun _ _ hwins =>
    (mem_listManifestNames_writeManifests hts hempty).mp hwins.1.1

omit hcodec in
/-- The listing is in the order of the timestamps exactly when the names are. -/
theorem increasing_iff : ((listManifestNames (writeManifests codec root db b fs writes)
      (branchDir root db b)).map fun name => (parseTsFromFilename name).getD 0).Pairwise (· < ·) ↔
    TextOrdered writes := by
  have hmem (name : String) : name ∈ listManifestNames (writeManifests codec root db b fs writes)
      (branchDir root db b) ↔ ∃ w ∈ writes, name = manifestName w.1.versionTs :=
    mem_listManifestNames_writeManifests hts hempty
  have hstamp {w : Manifest × ℕ} (hw : w ∈ writes) :
      (parseTsFromFilename (manifestName w.1.versionTs)).getD 0 = w.1.versionTs := by
    rw [parseTsFromFilename_manifestName (hts w hw), Option.getD_some]
  have hsorted := sorted_listManifestNames (writeManifests codec root db b fs writes)
    (branchDir root db b)
  have hnodup := nodup_listManifestNames (writeManifests codec root db b fs writes)
    (branchDir root db b)
  generalize listManifestNames (writeManifests codec root db b fs writes) (branchDir root db b) =
    names at *
  rw [List.pairwise_map]
  constructor
  · intro hinc w hw w' hw' hlt
    have hne : manifestName w.1.versionTs ≠ manifestName w'.1.versionTs :=
      fun heq => hlt.ne (manifestName_injective heq)
    -- of two names of the listing one is before the other, in both orders
    obtain ⟨i, hi, hname⟩ := List.getElem_of_mem ((hmem _).mpr ⟨w, hw, rfl⟩)
    obtain ⟨j, hj, hname'⟩ := List.getElem_of_mem ((hmem _).mpr ⟨w', hw', rfl⟩)
    rw [List.pairwise_iff_getElem] at hsorted hinc
    rcases lt_trichotomy i j with hij | rfl | hji
    · have hle := hsorted i j hi hj hij
      rw [hname, hname'] at hle
      exact lt_of_le_of_ne hle hne
    · exact absurd (hname.symm.trans hname') hne
    · have hgt := hinc j i hj hi hji
      rw [hname, hname', hstamp hw, hstamp hw'] at hgt
      exact absurd hlt (lt_asymm hgt)
  · intro htext
    refine (hsorted.and hnodup).imp_of_mem fun hn hn' h => ?_
    obtain ⟨w, hw, rfl⟩ := (hmem _).mp hn
    obtain ⟨w', hw', rfl⟩ := (hmem _).mp hn'
    rw [hstamp hw, hstamp hw']
    rcases lt_trichotomy w.1.versionTs w'.1.versionTs with hlt | heq | hgt
    · exact hlt
    · exact absurd (by rw [heq]) h.2
    · exact absurd h.1 (not_le_of_gt (htext w' hw' w hw hgt))

/-- With the names in the order of the timestamps, the latest version is the newest one. -/
theorem latestManifest_isNewest (htext : TextOrdered writes) :
    ∃ o, latestManifest codec (writeManifests codec root db b fs writes) root db b = .ok o ∧
      IsNewest writes (2 ^ 64 - 1) o := by
  rw [latestManifest, listManifestPaths, List.getLast?_map]
  cases hlast : (listManifestNames (writeManifests codec root db b fs writes)
      (branchDir root db b)).getLast? with
  | none =>
    rw [List.getLast?_eq_none_iff] at hlast
    refine ⟨none, rfl, fun w hw => ?_⟩
    have hmem : manifestName w.1.versionTs ∈ listManifestNames
        (writeManifests codec root db b fs writes) (branchDir root db b) :=
      mem_listManifestNames_of_mem hts hw
    rw [hlast] at hmem
    cases hmem
  | some name =>
    obtain ⟨ts, m, rfl, hlt, hm, hread⟩ :=
      exists_readManifest hcodec hts hempty (List.mem_of_getLast? hlast)
    refine ⟨some m, ?_, isNewest_some hm (Nat.le_pred_of_lt hlt) fun w hw _ => ?_⟩
    · simp only [Option.map_some, hread]
      rfl
    · by_contra hgt
      obtain ⟨w', hw', rfl⟩ := mem_of_lastWritten hm
      obtain rfl := versionTs_of_lastWritten hm
      have hname := htext w' hw' w hw (Nat.not_le.mp hgt)
      rw [listManifestNames, getLast?_sortNames] at hlast
      have hle := hlast.2 (manifestName w.1.versionTs)
        (mem_sortNames.mp (mem_listManifestNames_of_mem hts hw))
      exact absurd hname (not_lt_of_ge hle)

end

/-- **The latest version is the newest one exactly when the names of the versions are in
text order as their timestamps are**: for the manifests of a branch, written in any order,
it is then that the timestamps are listed in increasing order and that the latest manifest
is the one with the greatest timestamp, the one a lookup at `u64::MAX` finds. -/
theorem latest_newest_iff (hcodec : codec.Lawful) (hts : ∀ w ∈ writes, w.1.versionTs < 2 ^ 64)
    (hempty : ∀ name rest, (parseTsFromFilename name).isSome →
      fs.readFile (branchDir root db b ++ name :: rest) = none) :
    LatestIsNewest codec root (writeManifests codec root db b fs writes) db b writes ↔
      TextOrdered writes := by
  have htext := @increasing_iff codec root fs db b writes hts hempty
  rw [← htext]
  constructor
  · rintro ⟨⟨tss, htss, hinc⟩, -⟩
    rw [listSnapshotTimestamps_writeManifests hcodec hts hempty] at htss
    cases htss
    exact hinc
  · intro hinc
    refine ⟨⟨_, listSnapshotTimestamps_writeManifests hcodec hts hempty, hinc⟩, ?_⟩
    obtain ⟨o, ho, hnewest⟩ :=
      latestManifest_isNewest hcodec hts hempty (htext.mp hinc)
    obtain ⟨o', ho', hnewest'⟩ := pitr_exact hcodec hts hempty (2 ^ 64 - 1)
    rw [hnewest'.unique hnewest] at ho'
    exact ⟨o, ho, hnewest, ho'⟩

/-- Two versions of two digits, the later one written first. -/
theorem latest_newest_two_writes :
    LatestIsNewest tenVersionsCodec [] (writeManifests tenVersionsCodec [] testDb mainBranch ∅
        [(⟨"main", 15, [], none⟩, 1), (⟨"main", 10, [], none⟩, 2)]) testDb mainBranch
      [(⟨"main", 15, [], none⟩, 1), (⟨"main", 10, [], none⟩, 2)] :=
  (latest_newest_iff tenVersionsCodec_lawful (by decide) fun _ _ _ => rfl).mpr
    (textOrdered_of_length (n := 2) (by decide))

/-- Versions 9 and 10: they are listed in the wrong order, and the latest one is 9. -/
theorem latest_ninth_of_ten :
    let fs := writeManifests tenVersionsCodec [] testDb mainBranch ∅ ninthAndTenth
    FsBackend.listSnapshotTimestamps tenVersionsCodec fs [] testDb mainBranch = .ok [10, 9] ∧
      latestManifest tenVersionsCodec fs [] testDb mainBranch =
        .ok (some ⟨"main", 9, [], none⟩) ∧
      pitrManifest tenVersionsCodec fs [] testDb mainBranch (2 ^ 64 - 1) =
        .ok (some ⟨"main", 10, [], none⟩) ∧
      ¬ LatestIsNewest tenVersionsCodec [] fs testDb mainBranch ninthAndTenth := by
  have hlisted : FsBackend.listSnapshotTimestamps tenVersionsCodec
      (writeManifests tenVersionsCodec [] testDb mainBranch ∅ ninthAndTenth) [] testDb
      mainBranch = .ok [10, 9] := by decide +kernel
  refine ⟨hlisted, by decide +kernel, by decide +kernel, ?_⟩
  rintro ⟨⟨tss, htss, hinc⟩, -⟩
  rw [hlisted] at htss
  cases htss
  exact absurd hinc (by decide)

end KuzuEventBus
