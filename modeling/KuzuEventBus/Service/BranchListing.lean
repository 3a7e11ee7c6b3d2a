import KuzuEventBus.Service.BranchNames
import Mathlib.Data.List.Sort

/-!
# Listing branches

`src/application/usecases/branching/list_branches.py`: a database is listed when its name begins
with the requested one and the separator, and what is listed of it is read with `from_full_name`.
A name that is not read raises, and so does the whole listing.

How a time is printed is an argument.

## Main definitions

* `DatabaseMetadata`, `BranchInfo` — the rows of a tenant, and the entries of a listing.
* `listBranches` — the use case.
* `FindsByTenant` — how the repository answers.
* `Exact` — the listing has one entry for each branch, and none for a branch of a branch.
* `WellRead` — what that needs of the name of a database.

## Main results

* `listed_ok_iff` — the databases that are listed under the requested name.
* `exact_iff` — **a listing is exact exactly when the names of all databases are well read.**
-/

namespace KuzuEventBus.Service.BranchNames.Listing

open Separators

/-! ### The use case -/

/-- `DatabaseMetadata`. -/
structure DatabaseMetadata where
  id : Uuid
  tenantId : Uuid
  name : DatabaseName
  filesystemPath : String
  createdAt : Instant

/-- `BranchInfo`. -/
structure BranchInfo where
  name : String
  fullName : String
  parent : String
  branchDatabaseId : Uuid
  createdAt : String
  description : Option String
  deriving DecidableEq

/-- `ListBranchesResponse`. -/
structure ListBranchesResponse where
  parentDatabase : String
  branches : List BranchInfo
  count : ℕ
  deriving DecidableEq

/-- The answer of `find_by_tenant`: the rows of the tenant, in the order of their times. -/
structure FindsByTenant (table : List DatabaseMetadata) (tenantId : Uuid)
    (allDbs : List DatabaseMetadata) : Prop where
  perm : allDbs.Perm (table.filter fun d => d.tenantId = tenantId)
  sorted : allDbs.Pairwise fun d d' => d.createdAt ≤ d'.createdAt

/-- The requested name, and the separator. -/
def pattern (requested : String) : List Char :=
  requested.toList ++ separator

section

variable (isoformat : Instant → String) (requested : String)

/-- The entry of a database, with what was read from its name. -/
def entry (d : DatabaseMetadata) (parent : String) (b : BranchName) : BranchInfo where
  name := b.value
  fullName := d.name.value
  parent
  branchDatabaseId := d.id
  createdAt := isoformat d.createdAt ++ "Z"
  description := none

/-- What is listed of a database. -/
def listed (d : DatabaseMetadata) : Except PyError (Option BranchInfo) :=
  if pattern requested <+: d.name.value.toList then
    (fromFullName d.name.value).map fun parsed =>
      parsed.map fun (parent, b) => entry isoformat d parent b
  else .ok none

/-- The loop over the databases. -/
def collect : List DatabaseMetadata → List BranchInfo → Except PyError (List BranchInfo)
  | [], branches => .ok branches
  | d :: ds, branches => do
    let info ← listed isoformat requested d
    collect ds (branches ++ info.toList)

/-- `ListBranchesUseCase.execute`. -/
def listBranches (allDbs : List DatabaseMetadata) : Except PyError ListBranchesResponse := do
  let branches ← collect isoformat requested allDbs []
  pure ⟨requested, branches, branches.length⟩

/-! ### What is asked for -/

/-- The branch of the requested database that has this name. -/
def branchOf (name : String) : Option BranchName :=
  if pattern requested <+: name.toList then
    (BranchName.new (String.ofList (name.toList.drop (pattern requested).length))).toOption
  else none

/-- **There is one entry for each branch, with its name and the requested database, and none is a
branch of a branch.** -/
structure Exact (table : List DatabaseMetadata) (tenantId : Uuid)
    (response : ListBranchesResponse) : Prop where
  parent : response.parentDatabase = requested
  count : response.count = response.branches.length
  branches : response.branches.Perm ((table.filter fun d => d.tenantId = tenantId).filterMap
    fun d => (branchOf requested d.name.value).map (entry isoformat d requested))
  nested : ∀ info ∈ response.branches, ∀ b c : BranchName,
    info.fullName ≠ c.toFullName (b.toFullName requested)

/-- No separator begins inside the requested name, and after it and the separator there is the name
of a branch, and not the one of a branch of a branch. -/
def WellRead (name : String) : Prop :=
  pattern requested <+: name.toList →
    Separable requested ∧ (∃ b, branchOf requested name = some b) ∧
      ∀ b c : BranchName, name ≠ c.toFullName (b.toFullName requested)

end

/-! ### What is listed -/

section

variable {isoformat : Instant → String} {requested : String}

theorem toList_pattern_append (b : BranchName) :
    (b.toFullName requested).toList = pattern requested ++ b.value.toList :=
  toList_toFullName b requested

/-- **The branch of a name is the one that has the name as its full name.** -/
theorem branchOf_eq_some_iff {name : String} {b : BranchName} :
    branchOf requested name = some b ↔ name = b.toFullName requested := by
  unfold branchOf
  constructor
  · intro h
    split at h
    · next hpattern =>
      cases hnew : BranchName.new (String.ofList (name.toList.drop (pattern requested).length)) with
      | error e =>
        rw [hnew] at h
        cases h
      | ok b' =>
        rw [hnew] at h
        cases h
        rw [← String.toList_inj, toList_pattern_append, value_of_new hnew, String.toList_ofList]
        exact (List.prefix_iff_eq_append.mp hpattern).symm
    · cases h
  · rintro rfl
    rw [toList_pattern_append, if_pos (List.prefix_append _ _), List.drop_left,
      String.ofList_toList, b.new_value]
    rfl

/-- **A name is listed under the requested one exactly when that is separable and the rest is the
name of the branch.** -/
theorem listed_ok_iff {d : DatabaseMetadata} {b : BranchName} :
    listed isoformat requested d = .ok (some (entry isoformat d requested b)) ↔
      Separable requested ∧ d.name.value = b.toFullName requested := by
  unfold listed
  constructor
  · intro h
    split at h
    · cases hread : fromFullName d.name.value with
      | error e =>
        rw [hread] at h
        cases h
      | ok parsed =>
        rw [hread] at h
        -- the fields of the entry say what was parsed
        obtain ⟨⟨parent, b'⟩, hparsed, hentry⟩ := Option.map_eq_some_iff.mp (Except.ok.inj h)
        subst hparsed
        have hparent : parent = requested := congrArg BranchInfo.parent hentry
        have hbranch : b' = b := BranchName.ext_value (congrArg BranchInfo.name hentry)
        rw [hparent, hbranch, fromFullName_eq_iff] at hread
        have hname := eq_of_splitFirst hread
        rw [hname, splitFirst_append_iff separator_ne_nil] at hread
        refine ⟨hread, ?_⟩
        rw [← String.toList_inj, hname, toList_toFullName]
    · cases h
  · rintro ⟨hseparable, hname⟩
    have hread : fromFullName d.name.value = .ok (some (requested, b)) := by
      rw [fromFullName_eq_iff, hname, toList_toFullName]
      exact (splitFirst_append_iff separator_ne_nil _ _).mpr hseparable
    rw [if_pos, hread]
    · rfl
    · rw [hname, toList_pattern_append]
      exact List.prefix_append _ _

/-- A name with the separator in it is read as the one of some branch, or raises. -/
theorem listed_of_pattern {d : DatabaseMetadata} (h : pattern requested <+: d.name.value.toList)
    (hok : (listed isoformat requested d).isOk = true) :
    ∃ parent b, listed isoformat requested d = .ok (some (entry isoformat d parent b)) := by
  have hseparator : separator <:+: d.name.value.toList :=
    (List.suffix_append _ _).isInfix.trans h.isInfix
  unfold listed at hok ⊢
  rw [if_pos h] at hok ⊢
  cases hread : fromFullName d.name.value with
  | error e =>
    rw [hread] at hok
    cases hok
  | ok parsed =>
    cases parsed with
    | none =>
      unfold fromFullName at hread
      split at hread
      · next hnone =>
        rw [splitFirst_eq_none_iff separator_ne_nil] at hnone
        exact absurd hseparator hnone
      · next parent rest hsplit =>
        cases hnew : BranchName.new (String.ofList rest) with
        | error e => rw [hnew] at hread; cases hread
        | ok b => rw [hnew] at hread; cases hread
    | some parsed => exact ⟨parsed.1, parsed.2, rfl⟩

/-- What is listed of a name that is well read. -/
theorem listed_of_wellRead {d : DatabaseMetadata} (h : WellRead requested d.name.value) :
    listed isoformat requested d =
      .ok ((branchOf requested d.name.value).map (entry isoformat d requested)) := by
  by_cases hpattern : pattern requested <+: d.name.value.toList
  · obtain ⟨hseparable, ⟨b, hb⟩, -⟩ := h hpattern
    rw [hb, Option.map_some]
    exact listed_ok_iff.mpr ⟨hseparable, branchOf_eq_some_iff.mp hb⟩
  · unfold listed branchOf
    rw [if_neg hpattern, if_neg hpattern]
    rfl

/-- **The listing returns exactly when every database is read, and has what is listed of each.** -/
theorem collect_eq_ok_iff {ds : List DatabaseMetadata} {branches branches' : List BranchInfo} :
    collect isoformat requested ds branches = .ok branches' ↔
      (∀ d ∈ ds, (listed isoformat requested d).isOk = true) ∧
        branches' = branches ++ ds.filterMap fun d =>
          (listed isoformat requested d).toOption.join := by
  induction ds generalizing branches with
  | nil =>
    rw [collect, Except.ok.injEq, eq_comm]
    simp
  | cons d ds ih =>
    unfold collect
    rw [List.forall_mem_cons, List.filterMap_cons]
    cases hlisted : listed isoformat requested d with
    | error e => simp [bind, Except.bind, Except.isOk, Except.toBool]
    | ok info =>
      refine ih.trans ?_
      cases info with
      | none => simp [Except.isOk, Except.toBool, Except.toOption]
      | some info => simp [Except.isOk, Except.toBool, Except.toOption]

/-- A listing is exact when the names are well read. -/
theorem exact_of_wellRead {table allDbs : List DatabaseMetadata} {tenantId : Uuid}
    (hfinds : FindsByTenant table tenantId allDbs)
    (h : ∀ d ∈ allDbs, WellRead requested d.name.value) :
    ∃ response, listBranches isoformat requested allDbs = .ok response ∧
      Exact isoformat requested table tenantId response := by
  have hlisted : (allDbs.filterMap fun d => (listed isoformat requested d).toOption.join) =
      allDbs.filterMap fun d =>
        (branchOf requested d.name.value).map (entry isoformat d requested) :=
    List.filterMap_congr fun d hd => by rw [listed_of_wellRead (h d hd)]; rfl
  have hcollect : collect isoformat requested allDbs [] = .ok (allDbs.filterMap fun d =>
      (branchOf requested d.name.value).map (entry isoformat d requested)) := by
    refine collect_eq_ok_iff.mpr ⟨fun d hd => ?_, ?_⟩
    · rw [listed_of_wellRead (h d hd)]
      rfl
    · rw [hlisted, List.nil_append]
  refine ⟨⟨requested, _, _⟩, by rw [listBranches, hcollect]; rfl, rfl, rfl,
    hfinds.perm.filterMap _, fun info hinfo => ?_⟩
  obtain ⟨d, hd, hinfo⟩ := List.mem_filterMap.mp hinfo
  obtain ⟨b, hb, rfl⟩ := Option.map_eq_some_iff.mp hinfo
  have hpattern : pattern requested <+: d.name.value.toList := by
    rw [branchOf_eq_some_iff.mp hb, toList_pattern_append]
    exact List.prefix_append _ _
  exact (h d hd hpattern).2.2

/-- The names are well read when a listing is exact. -/
theorem wellRead_of_exact {table allDbs : List DatabaseMetadata} {tenantId : Uuid}
    {response : ListBranchesResponse}
    (hresponse : listBranches isoformat requested allDbs = .ok response)
    (h : Exact isoformat requested table tenantId response) :
    ∀ d ∈ allDbs, WellRead requested d.name.value := by
  intro d hd hpattern
  cases hcollect : collect isoformat requested allDbs [] with
  | error e =>
    rw [listBranches, hcollect] at hresponse
    cases hresponse
  | ok branches =>
    rw [listBranches, hcollect] at hresponse
    cases hresponse
    obtain ⟨hok, hbranches⟩ := collect_eq_ok_iff.mp hcollect
    obtain ⟨parent, b, hlisted⟩ := listed_of_pattern hpattern (hok d hd)
    have hmem : entry isoformat d parent b ∈ branches := by
      rw [hbranches, List.nil_append, List.mem_filterMap]
      exact ⟨d, hd, by rw [hlisted]; rfl⟩
    -- every entry of an exact listing has the requested parent
    obtain ⟨d', -, hentry⟩ := List.mem_filterMap.mp (h.branches.mem_iff.mp hmem)
    obtain ⟨b', -, hentry⟩ := Option.map_eq_some_iff.mp hentry
    have hparent : requested = parent := congrArg BranchInfo.parent hentry
    rw [← hparent] at hlisted hmem
    obtain ⟨hseparable, hname⟩ := listed_ok_iff.mp hlisted
    exact ⟨hseparable, ⟨b, branchOf_eq_some_iff.mpr hname⟩, h.nested _ hmem⟩

end

/-! ### Exact listings -/

/-- **A listing is exact exactly when the names of all databases of the tenant are well read.** -/
theorem exact_iff (isoformat : Instant → String) (requested : String)
    (table : List DatabaseMetadata) (tenantId : Uuid) :
    (∀ allDbs, FindsByTenant table tenantId allDbs →
      ∃ response, listBranches isoformat requested allDbs = .ok response ∧
        Exact isoformat requested table tenantId response) ↔
      ∀ d ∈ table, d.tenantId = tenantId → WellRead requested d.name.value := by
  constructor
  · intro h d hd htenant
    let rows := table.filter fun d => d.tenantId = tenantId
    have hfinds : FindsByTenant table tenantId
        (rows.mergeSort fun d d' => d.createdAt ≤ d'.createdAt) := by
      refine ⟨List.mergeSort_perm _ _, ?_⟩
      have htrans (d d' d'' : DatabaseMetadata) : decide (d.createdAt ≤ d'.createdAt) = true →
          decide (d'.createdAt ≤ d''.createdAt) = true →
            decide (d.createdAt ≤ d''.createdAt) = true := by
        simpa using Nat.le_trans
      have htotal (d d' : DatabaseMetadata) :
          (decide (d.createdAt ≤ d'.createdAt) || decide (d'.createdAt ≤ d.createdAt)) = true := by
        simpa using Nat.le_total d.createdAt d'.createdAt
      simpa using List.pairwise_mergeSort htrans htotal rows
    obtain ⟨response, hresponse, hexact⟩ := h _ hfinds
    refine wellRead_of_exact hresponse hexact d (hfinds.perm.mem_iff.mpr ?_)
    simpa using ⟨hd, htenant⟩
  · intro h allDbs hfinds
    refine exact_of_wellRead hfinds fun d hd => ?_
    obtain ⟨hmem, htenant⟩ := List.mem_filter.mp (hfinds.perm.mem_iff.mp hd)
    exact h d hmem (by simpa using htenant)

/-- A database of tenant 7. -/
def someDatabase (name : DatabaseName) : DatabaseMetadata :=
  ⟨1, 7, name, "/7/1/data.kuzu", 5⟩

/-- `prod--branch--x`, whose last letter is no name of a branch. -/
def prodX : DatabaseName := ⟨"prod--branch--x", by decide +kernel⟩

/-- `prod--branch--dev--branch--test`. -/
def prodDevTest : DatabaseName := ⟨"prod--branch--dev--branch--test", by decide +kernel⟩

/-- **One odd name fails the listing**, and a branch of a branch is listed. -/
theorem not_exact_oddName :
    listBranches (fun _ => "1970-01-01T00:00:00") "prod" [someDatabase prodX] =
      .error "Branch name must be at least 2 characters" ∧
    (∃ dev test : BranchName, prodDevTest.value = test.toFullName (dev.toFullName "prod")) ∧
    (∃ info, listBranches (fun _ => "1970-01-01T00:00:00") "prod" [someDatabase prodDevTest] =
      .ok ⟨"prod", [info], 1⟩) ∧
    ¬ ∀ isoformat requested table tenantId allDbs, FindsByTenant table tenantId allDbs →
      ∃ response, listBranches isoformat requested allDbs = .ok response ∧
        Exact isoformat requested table tenantId response := by
  have hraises : listBranches (fun _ => "1970-01-01T00:00:00") "prod" [someDatabase prodX] =
      .error "Branch name must be at least 2 characters" := by
    decide +kernel
  refine ⟨hraises, ⟨⟨"dev", by decide⟩, ⟨"test", by decide⟩, by decide +kernel⟩, ?_, fun hall => ?_⟩
  · exact ⟨_, rfl⟩
  · obtain ⟨response, hresponse, -⟩ := hall (fun _ => "1970-01-01T00:00:00") "prod"
      [someDatabase prodX] 7 [someDatabase prodX] ⟨by rfl, by simp⟩
    rw [hraises] at hresponse
    cases hresponse

end KuzuEventBus.Service.BranchNames.Listing
