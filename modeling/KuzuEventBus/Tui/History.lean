import KuzuEventBus.Lib.Lineage
import KuzuEventBus.Tui.AppState

/-!
# Commits, parents and branches

Every commit of the application is numbered by the place at which it was made, so that no id is
used twice, and its parents are commits made before it.  A branch is a list of commits each of
which has the one before it as its first parent; the one exception is the commit that a recovery
makes, which has no parents at all and stands on the recovery branch after the commit it recovers.

## Main definitions

* `FirstParent`, `Recovers`, `Follows` — how a commit of a branch goes on from the one before it.
* `Sound` — what holds of commits, parents and branches.

## Main results

* `lineage_run` — **after every run of actions, commits are numbered without repetition, parents
  come before their children and branches follow first parents**.
-/

namespace KuzuEventBus.Tui

open Lineage

/-! ### What holds of the commits -/

/-- The first parent of `b` is `a`. -/
def FirstParent (parents : HashMap String (List String)) (a b : String) : Prop :=
  (parents.lookup b).bind List.head? = some a

/-- `b` is the commit of a recovery of `a`: it is a later one, without parents. -/
def Recovers (commits : List String) (parents : HashMap String (List String)) (a b : String) :
    Prop :=
  (∃ n : ℕ, b = "r" ++ toString n) ∧ parents.lookup b = none ∧ Earlier commits a b

/-- How a commit of a branch goes on from the one before it. -/
def Follows (commits : List String) (parents : HashMap String (List String)) (a b : String) :
    Prop :=
  FirstParent parents a b ∨ Recovers commits parents a b

/-- `b` has the parent `a`. -/
def HasParent (parents : HashMap String (List String)) (a b : String) : Prop :=
  ∃ ps, parents.lookup b = some ps ∧ a ∈ ps

/-- What a commit id begins with. -/
def kinds : List String := ["c", "m", "r"]

/-- What holds of commits, parents and branches. -/
structure Sound (commits : List String) (parents branches : HashMap String (List String)) :
    Prop where
  numbered : ∀ i id, commits[i]? = some id → ∃ kind ∈ kinds, id = kind ++ toString (i + 1)
  first : "c1" ∈ commits
  known : ∀ b, b ∉ commits → parents.lookup b = none
  earlier : ∀ a b, HasParent parents a b → Earlier commits a b
  line : ∀ name list, branches.lookup name = some list →
    Line commits (Follows commits parents) list

variable {commits : List String} {parents branches : HashMap String (List String)}

theorem kind_inj {kind kind' : String} (h : kind ∈ kinds) (h' : kind' ∈ kinds) {m n : ℕ}
    (heq : kind ++ toString m = kind' ++ toString n) : m = n := by
  have hlen : kind.toList.length = kind'.toList.length := by
    simp only [kinds, List.mem_cons, List.not_mem_nil, or_false] at h h'
    rcases h with rfl | rfl | rfl <;> rcases h' with rfl | rfl | rfl <;> rfl
  have hlist := congrArg String.toList heq
  rw [String.toList_append, String.toList_append] at hlist
  have hkind : kind = kind' := String.toList_injective (List.append_inj_left hlist hlen)
  rw [hkind] at heq
  exact Text.numbered_injective kind' heq

namespace Sound

/-- The number of the next commit is not used yet. -/
theorem next_notMem (h : Sound commits parents branches) {kind : String} (hkind : kind ∈ kinds) :
    kind ++ toString (commits.length + 1) ∉ commits := by
  intro hmem
  obtain ⟨i, hi, hid⟩ := List.mem_iff_getElem.mp hmem
  obtain ⟨kind', hkind', heq⟩ := h.numbered i _ (List.getElem?_eq_getElem hi)
  have hnumber := kind_inj hkind hkind' (hid.symm.trans heq)
  omega

theorem nodup (h : Sound commits parents branches) : commits.Nodup := by
  rw [List.nodup_iff_injective_getElem]
  intro i j hij
  obtain ⟨kind, hkind, hi⟩ := h.numbered i _ (List.getElem?_eq_getElem i.2)
  obtain ⟨kind', hkind', hj⟩ := h.numbered j _ (List.getElem?_eq_getElem j.2)
  have hnumber := kind_inj hkind hkind' (hi.symm.trans (hij.trans hj))
  exact Fin.ext (by omega)

theorem earlier_of_follows (h : Sound commits parents branches) {a b : String}
    (hab : Follows commits parents a b) : Earlier commits a b := by
  rcases hab with hfirst | ⟨-, -, hearlier⟩
  · obtain ⟨ps, hps, hhead⟩ := Option.bind_eq_some_iff.mp hfirst
    exact h.earlier a b ⟨ps, hps, List.mem_of_head? hhead⟩
  · exact hearlier

/-- **A new commit**, whose parents are commits already. -/
theorem commit (h : Sound commits parents branches) {kind id : String} (hkind : kind ∈ kinds)
    (hid : id = kind ++ toString (commits.length + 1))
    {parents' : HashMap String (List String)}
    (hothers : ∀ b, b ≠ id → parents'.lookup b = parents.lookup b)
    (hparents : ∀ a, HasParent parents' a id → a ∈ commits) :
    Sound (commits ++ [id]) parents' branches := by
  have hnew : id ∉ commits := hid ▸ h.next_notMem hkind
  have hne : ∀ {b}, b ∈ commits → b ≠ id := fun hb heq => hnew (heq ▸ hb)
  constructor
  · intro i x hx
    rcases Nat.lt_or_ge i commits.length with hi | hi
    · rw [List.getElem?_append_left hi] at hx
      exact h.numbered i x hx
    · have hlen := (List.getElem?_eq_some_iff.mp hx).1
      rw [List.length_append, List.length_singleton] at hlen
      obtain rfl : i = commits.length := by omega
      rw [List.getElem?_concat_length] at hx
      cases hx
      exact ⟨kind, hkind, hid⟩
  · exact List.mem_append_left _ h.first
  · intro b hb
    rw [List.mem_append, not_or, List.mem_singleton] at hb
    rw [hothers b hb.2]
    exact h.known b hb.1
  · intro a b hab
    by_cases hb : b = id
    · subst hb
      exact earlier_concat (hparents a hab) hnew
    · obtain ⟨ps, hps, ha⟩ := hab
      rw [hothers b hb] at hps
      exact (h.earlier a b ⟨ps, hps, ha⟩).append _
  · intro name list hlist
    refine (h.line name list hlist).mono (fun a ha => List.mem_append_left _ ha) ?_
    intro a b hb hab
    rcases hab with hfirst | ⟨hrecovery, hnone, hearlier⟩
    · left
      rw [FirstParent, hothers b (hne hb)]
      exact hfirst
    · right
      exact ⟨hrecovery, by rw [hothers b (hne hb)]; exact hnone, hearlier.append _⟩

/-- A branch that follows first parents, set. -/
theorem setBranch (h : Sound commits parents branches) (name : String) {list : List String}
    (hline : Line commits (Follows commits parents) list) :
    Sound commits parents (branches.insert name list) where
  numbered := h.numbered
  first := h.first
  known := h.known
  earlier := h.earlier
  line := by
    intro name' list' hlist
    rw [AList.lookup_insert_eq] at hlist
    split at hlist
    · cases hlist
      exact hline
    · exact h.line name' list' hlist

/-- A branch, removed. -/
theorem eraseBranch (h : Sound commits parents branches) (name : String) :
    Sound commits parents (branches.erase name) where
  numbered := h.numbered
  first := h.first
  known := h.known
  earlier := h.earlier
  line := by
    intro name' list hlist
    by_cases hname : name' = name
    · subst hname
      rw [AList.lookup_erase] at hlist
      cases hlist
    · rw [AList.lookup_erase_ne hname] at hlist
      exact h.line name' list hlist

/-- The head of a branch is a commit. -/
theorem head_mem (h : Sound commits parents branches) {name a : String}
    (ha : (branches.lookup name).bind List.getLast? = some a) : a ∈ commits := by
  obtain ⟨list, hlist, hlast⟩ := Option.bind_eq_some_iff.mp ha
  exact (h.line name list hlist).mem a (List.mem_of_getLast? hlast)

end Sound

/-! ### The actions -/

/-- What holds of the commits, the parents and the branches of a state. -/
def AppState.Sound (s : AppState) : Prop := Tui.Sound s.commits s.parents s.branches

variable {s : AppState}

theorem AppState.SameWork.sound_iff {t : AppState} (h : s.SameWork t) : t.Sound ↔ s.Sound := by
  rw [AppState.Sound, AppState.Sound, h.commits, h.parents, h.branches]

theorem AppState.sound_new : AppState.new.Sound where
  numbered := by
    intro i id hid
    obtain ⟨hi, rfl⟩ := List.getElem?_eq_some_iff.mp hid
    obtain rfl : i = 0 := by simp [AppState.new] at hi; omega
    exact ⟨"c", by simp [kinds], rfl⟩
  first := by simp [AppState.new]
  known := by intro b _; rfl
  earlier := by
    rintro a b ⟨ps, hps, -⟩
    cases hps
  line := by
    intro name list hlist
    simp only [AppState.new, AList.lookup_insert_eq] at hlist
    split at hlist
    · cases hlist
      exact line_singleton (List.mem_singleton_self _)
    · cases hlist

/-- The heads of branches are the parents of the commits made on them. -/
theorem AppState.Sound.head_mem (h : s.Sound) {name a : String} (ha : s.currentHead name = some a) :
    a ∈ s.commits := Tui.Sound.head_mem h ha

/-- The next commit, with the parents `ps`. -/
theorem AppState.Sound.commit (h : s.Sound) {kind : String} (hkind : kind ∈ kinds)
    {ps : List String} (hps : ∀ p ∈ ps, p ∈ s.commits) :
    Tui.Sound (s.commits ++ [s.nextCommitId kind]) (s.parents.insert (s.nextCommitId kind) ps)
      s.branches := by
  have hid : s.nextCommitId kind = kind ++ toString (s.commits.length + 1) := rfl
  refine Tui.Sound.commit h hkind hid (fun b hb => AList.lookup_insert_ne hb) ?_
  rintro a ⟨ps', hps', ha⟩
  rw [AList.lookup_insert] at hps'
  cases hps'
  exact hps a ha

/-- The next commit, at the end of the branch `name`, whose head is its first parent. -/
theorem AppState.Sound.commitOn (h : s.Sound) {kind name : String} (hkind : kind ∈ kinds)
    {ps : List String} (hps : ∀ p ∈ ps, p ∈ s.commits)
    (hhead : ∀ a, s.currentHead name = some a → ps.head? = some a) :
    Tui.Sound (s.commits ++ [s.nextCommitId kind]) (s.parents.insert (s.nextCommitId kind) ps)
      (s.branches.pushTo name (s.nextCommitId kind)) := by
  have hcommit := h.commit hkind hps
  have hnew : s.nextCommitId kind ∈ s.commits ++ [s.nextCommitId kind] :=
    List.mem_append_right _ (List.mem_singleton_self _)
  apply hcommit.setBranch
  cases hlist : s.branches.lookup name with
  | none => exact line_singleton hnew
  | some list =>
    refine (hcommit.line name list hlist).concat hnew fun a ha => .inl ?_
    rw [FirstParent, AList.lookup_insert]
    exact hhead a (by rw [AppState.currentHead, hlist]; exact ha)

theorem AppState.Sound.snapshot (h : s.Sound) : s.snapshot.Sound := by
  rw [AppState.snapshot, (AppState.sameWork_setCursorToHead _).sound_iff]
  refine h.commitOn (by simp [kinds]) ?_ ?_
  · intro p hp
    exact h.head_mem (Option.mem_toList.mp hp)
  · intro a ha
    rw [ha]
    rfl

theorem AppState.Sound.merge (h : s.Sound) : s.merge.Sound := by
  unfold AppState.merge
  split
  · exact h
  · have hps : ∀ p ∈ (s.currentHead "main").toList ++ (s.currentHead s.current).toList,
        p ∈ s.commits := by
      intro p hp
      rcases List.mem_append.mp hp with hp | hp <;> exact h.head_mem (Option.mem_toList.mp hp)
    cases hmain : s.branches.lookup "main" with
    | none => exact h.commit (by simp [kinds]) hps
    | some list =>
      have hsound : Tui.Sound (s.commits ++ [s.nextCommitId "m"]) _
          (s.branches.pushTo "main" (s.nextCommitId "m")) :=
        h.commitOn (by simp [kinds]) hps fun a ha => by rw [ha]; rfl
      rw [AList.pushTo, hmain] at hsound
      exact hsound

theorem AppState.Sound.branchFromSelected (h : s.Sound) (name : Option String) :
    (s.branchFromSelected name).Sound := by
  rw [AppState.branchFromSelected, (AppState.sameWork_setCursorToHead _).sound_iff]
  apply Tui.Sound.setBranch h
  cases hselected : s.selectedCommitId with
  | none => exact line_nil
  | some a => exact line_singleton (List.mem_reverse.mp (List.mem_of_getElem? hselected))

theorem AppState.Sound.deleteCurrentBranch (h : s.Sound) : s.deleteCurrentBranch.Sound := by
  unfold AppState.deleteCurrentBranch
  split
  · exact h
  · rw [(AppState.sameWork_setCursorToHead _).sound_iff]
    exact Tui.Sound.eraseBranch h s.current

theorem AppState.Sound.branch (h : s.Sound) (name : String) : (s.branch name).Sound := by
  unfold AppState.branch
  split
  · exact h
  · apply Tui.Sound.setBranch h
    apply line_singleton
    cases hhead : s.currentHead s.current with
    | none => exact h.first
    | some a => exact h.head_mem hhead

theorem AppState.Sound.recoveryBase_mem (h : s.Sound) : s.recoveryBase ∈ s.commits := by
  unfold AppState.recoveryBase
  cases hbase : (s.branches.lookup "main").bind fun list => (list[1]?).or list.getLast? with
  | none => exact h.first
  | some a =>
    obtain ⟨list, hlist, ha⟩ := Option.bind_eq_some_iff.mp hbase
    apply (h.line "main" list hlist).mem
    rcases Option.or_eq_some_iff.mp ha with ha | ⟨-, ha⟩
    · exact List.mem_of_getElem? ha
    · exact List.mem_of_getLast? ha

theorem AppState.Sound.recovery (h : s.Sound) : s.recovery.Sound := by
  unfold AppState.recovery
  split
  · exact h
  · have hr : "r" ∈ kinds := by simp [kinds]
    have hnew : s.nextCommitId "r" ∉ s.commits := Tui.Sound.next_notMem h hr
    have hnone : s.parents.lookup (s.nextCommitId "r") = none := h.known _ hnew
    -- the commit is recorded without parents
    have hcommit : Tui.Sound (s.commits ++ [s.nextCommitId "r"]) s.parents s.branches := by
      have hid : s.nextCommitId "r" = "r" ++ toString (s.commits.length + 1) := rfl
      refine Tui.Sound.commit h hr hid (fun _ _ => rfl) ?_
      rintro a ⟨ps, hps, -⟩
      rw [hnone] at hps
      cases hps
    apply hcommit.setBranch
    have hbase : s.recoveryBase ∈ s.commits ++ [s.nextCommitId "r"] :=
      List.mem_append_left _ h.recoveryBase_mem
    refine (line_singleton hbase).concat (List.mem_append_right _ (List.mem_singleton_self _)) ?_
    intro a ha
    cases ha
    exact .inr ⟨⟨_, rfl⟩, hnone, earlier_concat h.recoveryBase_mem hnew⟩

/-- Every action keeps it. -/
theorem AppState.Sound.step (h : s.Sound) (a : Action) : (s.step a).Sound := by
  cases a with
  | snapshot => exact h.snapshot
  | merge => exact h.merge
  | branchFromSelected name => exact h.branchFromSelected name
  | deleteCurrentBranch => exact h.deleteCurrentBranch
  | branch name => exact h.branch name
  | recovery => exact h.recovery
  | reset => exact AppState.sound_new
  | insert => exact h
  | checkoutSelected => exact (AppState.sameWork_setCursorToHead _).sound_iff.mpr h
  | _ => exact (s.sameWork_step rfl).sound_iff.mpr h

/-- **After every run of actions** no commit id is used twice, no commit is its own ancestor, the
commits of each branch are in the order they were made, and each has the one before it as its
first parent, but for the commit of a recovery, which has no parents. -/
theorem lineage_run (actions : List Action) :
    let s := AppState.run actions
    s.commits.Nodup ∧
      (∀ id ∈ s.commits, ¬ Relation.TransGen (HasParent s.parents) id id) ∧
      (∀ a b, HasParent s.parents a b → a ∈ s.commits ∧ b ∈ s.commits) ∧
      ∀ name list, s.branches.lookup name = some list →
        (∀ id ∈ list, id ∈ s.commits) ∧ list.Pairwise (Earlier s.commits) ∧
          list.IsChain (Follows s.commits s.parents) := by
  intro s
  have h : s.Sound := AppState.run_induction AppState.sound_new
    (fun s a hs => AppState.Sound.step hs a) actions
  refine ⟨Tui.Sound.nodup h, ?_, ?_, ?_⟩
  · intro id _
    exact not_transGen h.earlier
  · intro a b hab
    exact ⟨(h.earlier a b hab).mem_left, (h.earlier a b hab).2⟩
  · intro name list hlist
    have hline := h.line name list hlist
    exact ⟨hline.mem, hline.pairwise fun _ _ => Tui.Sound.earlier_of_follows h, hline.chain⟩

end KuzuEventBus.Tui
