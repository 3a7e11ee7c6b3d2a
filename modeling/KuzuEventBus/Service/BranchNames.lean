import KuzuEventBus.Lib.Separators
import KuzuEventBus.Lib.Text
import KuzuEventBus.Service.BranchFailure

/-!
# Full names of branches

`src/domain/branching/value_objects.py`: the full name of a branch is the name of its
parent, `--branch--` and its own name.  It is read back by splitting at the first
`--branch--` there is, and the characters of the separator are characters of names.

## Main definitions

* `BranchName`, `DatabaseName` — names that passed the checks of their constructors.
* `BranchName.toFullName`, `fromFullName` — full names, and reading them back.
* `Separable` — no separator begins inside the name of the parent.
* `Fits` — what the full name of a branch needs to be the name of a database.
* `FailsOnName` — a branch is refused for its full name after its snapshot was taken.

## Main results

* `separable_iff` — what that says of the name.
* `fullName_roundTrip_iff` — **a full name is read back exactly when its parent is
  separable, and of such parents no two pairs share a full name.**
* `not_separable_toFullName` — a branch is no separable parent.
* `provisionable_iff` — **a branch can be provisioned exactly when it fits its parent.**
-/

namespace KuzuEventBus.Service.BranchNames

open EffectM KuzuEventBus.Service.BranchFailure Separators

/-! ### Names -/

/-- `BranchName`. -/
structure BranchName where
  value : String
  /-- `__post_init__` raised nothing. -/
  valid : branchNameError value = none

/-- `DatabaseName`. -/
structure DatabaseName where
  value : String
  /-- `__post_init__` raised nothing. -/
  valid : isDatabaseName value = true

theorem BranchName.ext_value {b b' : BranchName} (h : b.value = b'.value) : b = b' := by
  cases b
  cases b'
  cases h
  rfl

/-- `BranchName(value)`. -/
def BranchName.new (value : String) : Except PyError BranchName :=
  match h : branchNameError value with
  | some e => .error e
  | none => .ok ⟨value, h⟩

theorem BranchName.new_value (b : BranchName) : BranchName.new b.value = .ok b := by
  unfold BranchName.new
  split
  · next e he => rw [b.valid] at he; cases he
  · rfl

theorem value_of_new {value : String} {b : BranchName} (h : BranchName.new value = .ok b) :
    b.value = value := by
  unfold BranchName.new at h
  split at h
  · cases h
  · cases h; rfl

/-! ### Full names -/

/-- `--branch`, `--branch-` and `--branch--`. -/
def branchWord : List Char := ['-', '-', 'b', 'r', 'a', 'n', 'c', 'h']

@[inherit_doc branchWord]
def branchDash : List Char := branchWord ++ ['-']

@[inherit_doc branchWord]
def separator : List Char := branchDash ++ ['-']

/-- `to_full_name`. -/
def BranchName.toFullName (b : BranchName) (parentDatabase : String) : String :=
  BranchFailure.toFullName parentDatabase b.value

/-- `from_full_name`: the parent and the branch, or nothing if this is not a branch. -/
def fromFullName (fullName : String) : Except PyError (Option (String × BranchName)) :=
  match splitFirst separator fullName.toList with
  | none => .ok none
  | some (parent, branchName) =>
    (BranchName.new (String.ofList branchName)).map fun b => some (String.ofList parent, b)

/-- No separator begins inside the name of a parent, also none that goes on in the one after it. -/
def Separable (parent : String) : Prop :=
  ¬ separator <:+: parent.toList ++ separator.dropLast

theorem toList_toFullName (b : BranchName) (p : String) :
    (b.toFullName p).toList = p.toList ++ separator ++ b.value.toList := by
  have hsep : "--branch--".toList = separator := by decide +kernel
  rw [BranchName.toFullName, BranchFailure.toFullName, String.toList_append, String.toList_append,
    hsep]

theorem separator_ne_nil : separator ≠ [] := by decide

/-- **A parent is separable exactly when the separator is not in its name and its name does not end
in `--branch` or `--branch-`.** -/
theorem separable_iff (parent : String) : Separable parent ↔
    ¬ separator <:+: parent.toList ∧ ¬ branchWord <:+ parent.toList ∧
      ¬ branchDash <:+ parent.toList := by
  have hshift : parent.toList ++ separator.dropLast = parent.toList ++ ['-'] ++ ['-'] ++ ['b'] ++
      ['r'] ++ ['a'] ++ ['n'] ++ ['c'] ++ ['h'] ++ ['-'] := by
    simp [separator, branchDash, branchWord]
  -- where the separator can end in the separator that is written
  have hlast (cs : List Char) (c : Char) : separator <:+ cs ++ [c] ↔
      '-' = c ∧ branchDash <:+ cs := concat_suffix_concat_iff
  have hlast' (cs : List Char) (c : Char) : branchDash <:+ cs ++ [c] ↔
      '-' = c ∧ branchWord <:+ cs := concat_suffix_concat_iff
  have hne : ¬ '-' = 'b' ∧ ¬ '-' = 'r' ∧ ¬ '-' = 'a' ∧ ¬ '-' = 'n' ∧ ¬ '-' = 'c' ∧ ¬ '-' = 'h' := by
    decide
  obtain ⟨hb, hr, ha, hn, hc, hh⟩ := hne
  unfold Separable
  rw [hshift]
  simp only [List.infix_concat_iff, hlast, hlast', hb, hr, ha, hn, hc, hh, false_and, false_or,
    and_false, true_and, not_or]
  exact ⟨fun ⟨hword, hdash, hin⟩ => ⟨hin, hword, hdash⟩,
    fun ⟨hin, hword, hdash⟩ => ⟨hword, hdash, hin⟩⟩

/-! ### Reading full names back -/

/-- What is read from a full name is the parts it is split into. -/
theorem fromFullName_eq_iff (p : String) (b : BranchName) (fullName : String) :
    fromFullName fullName = .ok (some (p, b)) ↔
      splitFirst separator fullName.toList = some (p.toList, b.value.toList) := by
  unfold fromFullName
  constructor
  · intro h
    split at h
    · cases h
    · next parent branchName hsplit =>
      cases hnew : BranchName.new (String.ofList branchName) with
      | error e => rw [hnew] at h; cases h
      | ok b' =>
        rw [hnew] at h
        cases h
        rw [hsplit, value_of_new hnew, String.toList_ofList, String.toList_ofList]
  · intro h
    rw [h]
    dsimp only
    rw [String.ofList_toList, String.ofList_toList, b.new_value]
    rfl

/-- **A full name is read back exactly when its parent is separable, and of such parents no two
pairs share a full name.** -/
theorem fullName_roundTrip_iff (p : String) (b : BranchName) :
    (fromFullName (b.toFullName p) = .ok (some (p, b)) ↔ Separable p) ∧
      ∀ (p' : String) (b' : BranchName), Separable p → Separable p' →
        b.toFullName p = b'.toFullName p' → p = p' ∧ b = b' := by
  constructor
  · rw [fromFullName_eq_iff, toList_toFullName]
    exact splitFirst_append_iff separator_ne_nil _ _
  · intro p' b' hp hp' hsame
    have hlists := congrArg String.toList hsame
    rw [toList_toFullName, toList_toFullName] at hlists
    obtain ⟨hpp, hbb⟩ := append_sep_inj separator_ne_nil hp hp' hlists
    exact ⟨String.toList_inj.mp hpp, BranchName.ext_value (String.toList_inj.mp hbb)⟩

/-- `prod-db--branch--alice-test` is read back, and as nothing else. -/
theorem fullName_roundTrip_aliceTest :
    let alice : BranchName := ⟨"alice-test", by decide⟩
    fromFullName (alice.toFullName "prod-db") = .ok (some ("prod-db", alice)) ∧
      ("prod-db" = "prod-db" ∧ alice = alice) := by
  intro alice
  have hseparable : Separable "prod-db" := by unfold Separable; decide +kernel
  have hiff := fullName_roundTrip_iff "prod-db" alice
  exact ⟨hiff.1.mpr hseparable, hiff.2 "prod-db" alice hseparable hseparable rfl⟩

/-- **A branch is no separable parent**: its full name has a separator in it. -/
theorem not_separable_toFullName (p : String) (b : BranchName) : ¬ Separable (b.toFullName p) := by
  rw [Separable, not_not, toList_toFullName, List.append_assoc, List.append_assoc]
  exact List.infix_append_of_infix_right List.infix_append_left

/-- **The branch `test` of the branch `dev` of `prod` is read back as a branch of `prod`**, and the
full name is the one of another branch of `prod`. -/
theorem toFullName_of_branch :
    let dev : BranchName := ⟨"dev", by decide⟩
    let test : BranchName := ⟨"test", by decide⟩
    let devTest : BranchName := ⟨"dev--branch--test", by decide⟩
    isDatabaseName "prod" = true ∧ isDatabaseName (dev.toFullName "prod") = true ∧
      fromFullName (test.toFullName (dev.toFullName "prod")) = .ok (some ("prod", devTest)) ∧
      test.toFullName (dev.toFullName "prod") = devTest.toFullName "prod" ∧
      ¬ ∀ (p : DatabaseName) (b : BranchName),
        fromFullName (b.toFullName p.value) = .ok (some (p.value, b)) := by
  intro dev test devTest
  have hread : fromFullName (test.toFullName (dev.toFullName "prod")) =
      .ok (some ("prod", devTest)) :=
    (fromFullName_eq_iff "prod" devTest _).mpr (by decide +kernel)
  have hdev : isDatabaseName (dev.toFullName "prod") = true := by decide +kernel
  have hne : "prod" ≠ dev.toFullName "prod" := by decide +kernel
  refine ⟨by decide +kernel, hdev, hread, by decide +kernel, fun hall => ?_⟩
  have hback := hall ⟨dev.toFullName "prod", hdev⟩ test
  rw [hread] at hback
  obtain ⟨hparent, -⟩ := Prod.mk.inj (Option.some.inj (Except.ok.inj hback))
  exact hne hparent

/-! ### Provisioning full names -/

/-- The parent's name has no newline at its end, the one of the branch has no upper case, and there
are at most thirty characters in both, without a newline at the end. -/
structure Fits (p : DatabaseName) (b : BranchName) : Prop where
  newline : '\n' ∉ p.value.toList
  lowercase : ∀ c ∈ b.value.toList, c.isUpper = false
  length : p.value.length + (withoutNewline b.value).length ≤ 30

/-- The snapshot is there, and the full name is not the name of a database. -/
def FailsOnName (deps : Deps) (a : BranchAnswers) (req : CreateBranchRequest)
    (w : BranchFailure.World) : Prop :=
  branchNameError req.branchName = none ∧
    ¬ isDatabaseName (BranchFailure.toFullName req.sourceDatabaseName req.branchName) = true ∧
      ∃ source w', (sourceSnapshot deps a req).run w = (.ok source, w')

/-- **What fails on its name raises after the snapshot**, which stays. -/
theorem createBranch_of_failsOnName {deps : Deps} {a : BranchAnswers} {req : CreateBranchRequest}
    {w : BranchFailure.World} (h : FailsOnName deps a req w) :
    ∃ source w', (sourceSnapshot deps a req).run w = (.ok source, w') ∧
      wp (createBranch deps a req) (fun _ _ => False)
        (fun e w'' => e = "DatabaseName must be 3-40 chars, lowercase, [a-z0-9_-]" ∧ w'' = w')
        w := by
  obtain ⟨hbranch, hname, source, w', hsource⟩ := h
  refine ⟨source, w', hsource, ?_⟩
  unfold createBranch
  rw [hbranch]
  simp only [wp_bind]
  rw [wp, hsource]
  dsimp only
  unfold provision
  simp [hname]

/-- What is left of the characters of branches when those of databases are taken away. -/
theorem isDatabaseChar_iff {c : Char} (h : (c.isAlphanum || c = '_' || c = '-') = true) :
    (c.isLower || c.isDigit || c = '_' || c = '-') = true ↔ c.isUpper = false := by
  have hlower : c.isLower = true → c.isUpper = false := by
    rw [Text.isLower_iff_toNat, Bool.eq_false_iff, ne_eq, Text.isUpper_iff_toNat]
    omega
  have hdigit : c.isDigit = true → c.isUpper = false := by
    intro h
    have hrange : 48 ≤ c.toNat ∧ c.toNat ≤ 57 := Char.isDigit_iff_toNat.mp h
    rw [Bool.eq_false_iff, ne_eq, Text.isUpper_iff_toNat]
    omega
  constructor
  · simp only [Bool.or_eq_true, decide_eq_true_eq]
    rintro (((h | h) | rfl) | rfl)
    · exact hlower h
    · exact hdigit h
    · rfl
    · rfl
  · intro hupper
    have hsplit : c.isAlphanum = (c.isUpper || c.isLower || c.isDigit) := rfl
    rwa [hsplit, hupper, Bool.false_or] at h

/-- The end of a full name is the one of its branch. -/
theorem withoutNewline_toFullName (p : String) (b : BranchName) :
    withoutNewline (b.toFullName p) = p.toList ++ separator ++ withoutNewline b.value := by
  have hne : b.value.toList ≠ [] := by
    intro h
    have hvalid := b.valid
    unfold branchNameError at hvalid
    simp [← String.length_toList, h] at hvalid
  unfold withoutNewline
  rw [toList_toFullName, List.getLast?_append_of_ne_nil _ hne, List.dropLast_append_of_ne_nil hne]
  split
  · rfl
  · rfl

/-- A newline is only at the end of a name. -/
theorem withoutNewline_eq {s : String} (h : '\n' ∉ s.toList) : withoutNewline s = s.toList := by
  unfold withoutNewline
  rw [if_neg]
  intro hlast
  exact h (List.mem_of_getLast? hlast)

theorem mem_withoutNewline {s : String} {c : Char} (h : c ∈ s.toList) :
    c ∈ withoutNewline s ∨ c = '\n' := by
  unfold withoutNewline
  split
  · next hlast =>
    rw [← List.dropLast_append_getLast? _ hlast, List.mem_append, List.mem_singleton] at h
    exact h
  · exact .inl h

/-- The characters of a branch's name. -/
theorem BranchName.all_branchChars (b : BranchName) : ∀ c ∈ withoutNewline b.value,
    (c.isAlphanum || c = '_' || c = '-') = true := by
  have hvalid := b.valid
  unfold branchNameError at hvalid
  split_ifs at hvalid with h₁ h₂ h₃ hword h₄
  unfold isBranchWord at hword
  simp only [Bool.not_eq_true', Bool.not_eq_false, Bool.and_eq_true] at hword
  exact List.all_eq_true.mp hword.1

/-- **The full name of a branch is the name of a database exactly when it fits its parent.** -/
theorem isDatabaseName_toFullName_iff (p : DatabaseName) (b : BranchName) :
    isDatabaseName (b.toFullName p.value) = true ↔ Fits p b := by
  have hseparator : separator.all
      (fun c => c.isLower || c.isDigit || c = '_' || c = '-') = true := by decide
  have hlength : separator.length = 10 := rfl
  unfold isDatabaseName
  rw [withoutNewline_toFullName]
  simp only [List.all_append, List.length_append, hlength, hseparator, Bool.and_true,
    Bool.and_eq_true, decide_eq_true_eq, List.all_eq_true]
  constructor
  · rintro ⟨⟨⟨hparent, hbranch⟩, -⟩, hshort⟩
    refine ⟨fun hnewline => ?_, fun c hc => ?_, ?_⟩
    · exact absurd (hparent _ hnewline) (by decide)
    · -- a newline at the end is no upper case letter
      rcases mem_withoutNewline hc with hmem | rfl
      · exact (isDatabaseChar_iff (b.all_branchChars c hmem)).mp (hbranch c hmem)
      · rfl
    · rw [← String.length_toList]
      omega
  · rintro ⟨hnewline, hlower, hshort⟩
    have hvalid := p.valid
    unfold isDatabaseName at hvalid
    rw [withoutNewline_eq hnewline] at hvalid
    simp only [Bool.and_eq_true, decide_eq_true_eq, List.all_eq_true] at hvalid
    rw [← String.length_toList] at hshort
    refine ⟨⟨⟨hvalid.1.1, fun c hc => ?_⟩, by omega⟩, by omega⟩
    refine (isDatabaseChar_iff (b.all_branchChars c hc)).mpr (hlower c ?_)
    unfold withoutNewline at hc
    split at hc
    · exact List.mem_of_mem_dropLast hc
    · exact hc

/-- **A branch can be provisioned exactly when it fits its parent**: otherwise its full name is
refused, and where the snapshot can be taken, after it. -/
theorem provisionable_iff (p : DatabaseName) (b : BranchName) :
    (isDatabaseName (b.toFullName p.value) = true ∧
      ∀ deps a (req : CreateBranchRequest) w, req.sourceDatabaseName = p.value →
        req.branchName = b.value → ¬ FailsOnName deps a req w) ↔ Fits p b := by
  rw [isDatabaseName_toFullName_iff]
  refine and_iff_left_of_imp fun hfits deps a req w hparent hbranch => ?_
  rintro ⟨-, hname, -⟩
  rw [hparent, hbranch] at hname
  exact hname ((isDatabaseName_toFullName_iff p b).mpr hfits)

/-- **`Dev` is the name of a branch, and no database is named `shop--branch--Dev`**: the branch is
refused, and its snapshot stays. -/
theorem failsOnName_upperCase :
    let shop : DatabaseName := ⟨"shop", by decide⟩
    let dev : BranchName := ⟨"Dev", by decide⟩
    isDatabaseName (dev.toFullName shop.value) = false ∧
      FailsOnName ⟨true, true⟩ lostBranch { devRequest with branchName := dev.value } shopWorld ∧
      ¬ ∀ (p : DatabaseName) (b : BranchName),
        isDatabaseName (b.toFullName p.value) = true ∧
          ∀ deps a (req : CreateBranchRequest) w, req.sourceDatabaseName = p.value →
            req.branchName = b.value → ¬ FailsOnName deps a req w := by
  intro shop dev
  have hname : isDatabaseName (dev.toFullName shop.value) = false := by decide +kernel
  have hfails : FailsOnName ⟨true, true⟩ lostBranch
      { devRequest with branchName := dev.value } shopWorld :=
    ⟨by decide +kernel, by decide +kernel, _, _, rfl⟩
  refine ⟨hname, hfails, fun hall => ?_⟩
  exact (hall shop dev).2 _ _ _ _ rfl rfl hfails

end KuzuEventBus.Service.BranchNames
