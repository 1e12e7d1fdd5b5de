import DevHarness.Lib.Stash
/-!
# Restore — `git checkout` of a stored commit, with the changes stashed over it (`vcs/restore.py`)

`stash push` takes tracked files only, and what is popped after the checkout is whatever lies on top of the stack, if
`git status` then prints nothing.  `target` is the commit the sha names.
-/
namespace DevHarness
namespace Vcs

open Lib
open Lib.Git

variable {N P B M : Type} [DecidableEq P] [DecidableEq B]

inductive RestoreError where
  | dirtyWorktree (message remediation : String)
  | vcs (message remediation : String)
  | noCommits (message remediation : String)

/-- What `_git` raises. -/
def gitError (stderr : List String → String) (args : List String) : RestoreError :=
  .vcs ("git " ++ " ".intercalate args ++ " failed: " ++ stderr args)
    "Inspect the git repository state and retry the operation."

/-- Before the checkout: a dirty tree is refused, or stashed. -/
def stashFirst [DecidableEq N] (g : Rules N P B M) (stderr : List String → String) (sha : String) (autostash : Bool)
    (s : Stashing N P B M) : Except RestoreError (Stashing N P B M) :=
  if s.repo.IsDirty g.ignores then
    if autostash = false then .error (.dirtyWorktree ("refusing to restore " ++ sha ++ " on a dirty tree")
      "Commit, stash, or autostash the uncommitted changes before restoring.")
    else match s.repo.stashPush with
      | .refused => .error (gitError stderr ["stash", "push", "-m", "harness-autostash"])
      | .nothing => .ok s
      | .saved e r => .ok { s with repo := r, stash := e :: s.stash }
  else .ok s

def checkoutTarget (g : Rules N P B M) (target : Option (Commit (Tree P B) M)) (r : Repo N P B M) :
    Option (Repo N P B M) :=
  target.bind (r.checkout g)

/-- The `finally` block: whether it raises, and what it leaves. -/
def reapply (g : Rules N P B M) (autostash : Bool) (s : Stashing N P B M) : Bool × Stashing N P B M :=
  if autostash = true ∧ ¬ s.repo.IsDirty g.ignores ∧ s.stash ≠ [] then
    match s.pop g with
    | (popped, s') => (!popped, s')
  else (false, s)

/-- `Restorer.restore`. -/
def restore [DecidableEq N] (g : Rules N P B M) (stderr : List String → String) (sha : String)
    (target : Option (Commit (Tree P B) M)) (autostash : Bool) (s : Stashing N P B M) :
    Except RestoreError (Commit (Tree P B) M) × Stashing N P B M :=
  match stashFirst g stderr sha autostash s with
  | .error e => (.error e, s)
  | .ok s₁ => match checkoutTarget g target s₁.repo with
    | none => match reapply g autostash s₁ with
      | (true, s₃) => (.error (gitError stderr ["stash", "pop"]), s₃)
      | (false, s₃) => (.error (gitError stderr ["checkout", sha]), s₃)
    | some r => match reapply g autostash { s₁ with repo := r } with
      | (true, s₃) => (.error (gitError stderr ["stash", "pop"]), s₃)
      | (false, s₃) => match s₃.repo.headCommit with
        | some c => (.ok c, s₃)
        | none => (.error (.noCommits "the repository has no commits yet"
            "Create an initial commit before running the harness."), s₃)

/-! ## What autostash is for -/

/-- The files `git status` lists as untracked, HEAD's own apart (removed from the index, they are tracked changes). -/
def listed (g : Rules N P B M) (r : Repo N P B M) : Finset P :=
  (r.untracked g.ignores).filter (fun p => p ∉ r.headTree.paths)

/-- Each of them is there, and still untracked. -/
def KeepsListed (g : Rules N P B M) (r r' : Repo N P B M) : Prop :=
  ∀ p ∈ listed g r, r'.files.get p = r.files.get p ∧ p ∉ r'.headTree.paths

/-- The stash holds what it held, and no entry of it was applied. -/
def KeepsStash (s s' : Stashing N P B M) : Prop :=
  s.stash <:+ s'.stash ∧ ∃ new, s'.applied = s.applied ++ new ∧ ∀ below ∈ new, s.stash <:+ below

/-- HEAD is at the target, and the tracked changes are in the working tree, merged with it. -/
def Carried (g : Rules N P B M) (target : Option (Commit (Tree P B) M)) (r r' : Repo N P B M) : Prop :=
  ∃ c t, target = some c ∧ r'.headCommit = some c ∧ g.merging.merge r.headTree c.tree r.work = .clean t ∧
    ∀ p, r'.files.get p =
      if p ∈ r.index.paths ∪ r.headTree.paths ∪ c.tree.paths then t.get p else r.files.get p

/-- The tracked changes, if any, are in the files or in an entry of their own on top of the stash. -/
def Recoverable (s s' : Stashing N P B M) : Prop :=
  ¬ s.repo.Changed ∨ (∀ p ∈ s.repo.index.paths ∪ s.repo.headTree.paths, s'.repo.files.get p = s.repo.files.get p) ∨
    ∃ e, s'.stash = e :: s.stash ∧ s.repo.headCommit = some e.base ∧ e.index = s.repo.index ∧ e.work = s.repo.work

/-- **Nothing is lost**: on success the changes are in the working tree, on failure they can be recovered; untracked files
stay, and the entries stashed before. -/
def KeepsWork (g : Rules N P B M) (target : Option (Commit (Tree P B) M)) (s : Stashing N P B M) :
    Except RestoreError (Commit (Tree P B) M) × Stashing N P B M → Prop
  | (.ok _, s') => Carried g target s.repo s'.repo ∧ KeepsListed g s.repo s'.repo ∧ KeepsStash s s'
  | (.error _, s') => Recoverable s s' ∧ KeepsListed g s.repo s'.repo ∧ KeepsStash s s'

/-- **When a push saves an entry and the checkout goes through**: no listed file has a place in the target, and either
`git status` prints nothing then or the target has the changes already. -/
def PopsOwn [DecidableEq N] (g : Rules N P B M) (target : Option (Commit (Tree P B) M)) (r : Repo N P B M) : Prop :=
  ∀ h c r', r.headCommit = some h → r.unmerged = ∅ → target = some c → (r.resetHard h).checkout g c = some r' →
    (∀ p ∈ listed g r, p ∉ c.tree.paths) ∧
      (r'.IsDirty g.ignores → g.merging.merge h.tree c.tree r.work = .clean c.tree)

/-- **When no entry is saved**: there is none, or `git status` prints something after the checkout, or git refuses to apply
the top one. -/
def LeavesOld (g : Rules N P B M) (target : Option (Commit (Tree P B) M)) (s : Stashing N P B M) : Prop :=
  (s.repo.IsDirty g.ignores → s.repo.headCommit ≠ none) → ∀ e below, s.stash = e :: below →
    ((checkoutTarget g target s.repo).getD s.repo).IsDirty g.ignores ∨
      ((checkoutTarget g target s.repo).getD s.repo).stashApply g e = .refused

/-! ## The parts -/

omit [DecidableEq P] [DecidableEq B] in
theorem KeepsStash.refl (s : Stashing N P B M) (r : Repo N P B M) : KeepsStash s { s with repo := r } :=
  ⟨List.suffix_rfl, [], (List.append_nil _).symm, fun _ h => by cases h⟩

omit [DecidableEq B] in
theorem keepsStash_of_keepsWork {g : Rules N P B M} {target : Option (Commit (Tree P B) M)} {s s' : Stashing N P B M}
    {out : Except RestoreError (Commit (Tree P B) M)} (h : KeepsWork g target s (out, s')) : KeepsStash s s' := by
  cases out with
  | ok c => exact h.2.2
  | error e => exact h.2.2

omit [DecidableEq B] in
theorem keepsListed_of_keepsWork {g : Rules N P B M} {target : Option (Commit (Tree P B) M)} {s s' : Stashing N P B M}
    {out : Except RestoreError (Commit (Tree P B) M)} (h : KeepsWork g target s (out, s')) :
    KeepsListed g s.repo s'.repo := by
  cases out with
  | ok c => exact h.2.1
  | error e => exact h.2.1

omit [DecidableEq B] in
theorem mem_listed {g : Rules N P B M} {r : Repo N P B M} {p : P} :
    p ∈ listed g r ↔ p ∈ r.untracked g.ignores ∧ p ∉ r.headTree.paths :=
  Finset.mem_filter

omit [DecidableEq B] in
theorem keepsListed_refl (g : Rules N P B M) (r : Repo N P B M) : KeepsListed g r r :=
  fun _ hp => ⟨rfl, (mem_listed.1 hp).2⟩

omit [DecidableEq B] in
/-- An error before anything was done. -/
theorem keepsWork_untouched (g : Rules N P B M) (target : Option (Commit (Tree P B) M)) (s : Stashing N P B M)
    (e : RestoreError) : KeepsWork g target s (.error e, s) :=
  ⟨Or.inr (Or.inl (fun _ _ => rfl)), keepsListed_refl g s.repo, KeepsStash.refl s s.repo⟩

/-- A push that is refused changes nothing. -/
theorem keepsWork_of_refused [DecidableEq N] {g : Rules N P B M} {target : Option (Commit (Tree P B) M)}
    {s : Stashing N P B M} (stderr : List String → String) (sha : String) (hdirty : s.repo.IsDirty g.ignores)
    (hpush : s.repo.stashPush = .refused) : KeepsWork g target s (restore g stderr sha target true s) := by
  have hfirst : stashFirst g stderr sha true s =
      .error (gitError stderr ["stash", "push", "-m", "harness-autostash"]) := by
    rw [stashFirst, if_pos hdirty, if_neg (by simp), hpush]
  rw [restore, hfirst]
  exact keepsWork_untouched g target s _

theorem reapply_of_dirty {g : Rules N P B M} {s : Stashing N P B M} (h : s.repo.IsDirty g.ignores) :
    reapply g true s = (false, s) := by
  rw [reapply, if_neg (fun hn => hn.2.1 h)]

theorem reapply_of_empty {g : Rules N P B M} {s : Stashing N P B M} (h : s.stash = []) :
    reapply g true s = (false, s) := by
  rw [reapply, if_neg (fun hn => hn.2.2 h)]

theorem reapply_of_clean {g : Rules N P B M} {s : Stashing N P B M} {e : Entry P B M} {below : List (Entry P B M)}
    (h : ¬ s.repo.IsDirty g.ignores) (hs : s.stash = e :: below) :
    reapply g true s = match s.repo.stashApply g e with
      | .refused => (true, s)
      | .conflicted r => (true, { s with repo := r, applied := s.applied ++ [below] })
      | .done r => (false, ⟨r, below, s.applied ++ [below]⟩) := by
  rw [reapply, if_pos ⟨rfl, h, by rw [hs]; exact List.cons_ne_nil _ _⟩]
  cases ha : s.repo.stashApply g e <;> simp [Stashing.pop, hs, ha]

/-- The call from the checkout on. -/
theorem restore_of_stashFirst [DecidableEq N] {g : Rules N P B M} {stderr : List String → String} {sha : String}
    {target : Option (Commit (Tree P B) M)} {s s₁ s₃ : Stashing N P B M} {raised : Bool}
    (h : stashFirst g stderr sha true s = .ok s₁)
    (hre : reapply g true ⟨(checkoutTarget g target s₁.repo).getD s₁.repo, s₁.stash, s₁.applied⟩ = (raised, s₃)) :
    ∃ out, restore g stderr sha target true s = (out, s₃) ∧
      ((∃ e, out = .error e) ↔
        checkoutTarget g target s₁.repo = none ∨ raised = true ∨ s₃.repo.headCommit = none) := by
  rw [restore, h]
  dsimp only
  cases hc : checkoutTarget g target s₁.repo with
  | none =>
    rw [hc, Option.getD_none] at hre
    rw [hre]
    cases raised <;> exact ⟨_, rfl, iff_of_true ⟨_, rfl⟩ (Or.inl rfl)⟩
  | some r =>
    rw [hc, Option.getD_some] at hre
    dsimp only
    rw [hre]
    cases raised with
    | true => exact ⟨_, rfl, iff_of_true ⟨_, rfl⟩ (Or.inr (Or.inl rfl))⟩
    | false =>
      dsimp only
      cases hh : s₃.repo.headCommit with
      | none => exact ⟨_, rfl, iff_of_true ⟨_, rfl⟩ (Or.inr (Or.inr rfl))⟩
      | some c =>
        refine ⟨_, rfl, iff_of_false ?_ (by simp)⟩
        rintro ⟨e, he⟩
        cases he

/-! ## No entry was saved -/

section Nothing

variable {g : Rules N P B M} {target : Option (Commit (Tree P B) M)} {s : Stashing N P B M}

/-- **The checkout of a tree without changes** keeps the listed files, and carries no changes over. -/
theorem checkout_nothing (h : ¬ s.repo.Changed) :
    ¬ ((checkoutTarget g target s.repo).getD s.repo).Changed ∧
      KeepsListed g s.repo ((checkoutTarget g target s.repo).getD s.repo) ∧
      (checkoutTarget g target s.repo ≠ none →
        Carried g target s.repo ((checkoutTarget g target s.repo).getD s.repo)) := by
  obtain ⟨hindex, -, -⟩ := Repo.not_changed_iff.1 h
  cases hc : checkoutTarget g target s.repo with
  | none => exact ⟨h, keepsListed_refl g s.repo, fun hn => absurd rfl hn⟩
  | some r =>
    obtain ⟨c, htarget, hr⟩ := Option.bind_eq_some_iff.1 hc
    obtain ⟨hclean, hhead, hfiles, hspared⟩ := Repo.checkout_spec h hr
    refine ⟨hclean, fun p hp => ?_, fun _ => ⟨c, c.tree, htarget, hhead, ?_, fun p => ?_⟩⟩
    · obtain ⟨hun, hnot⟩ := mem_listed.1 hp
      have hout := hspared p hun
      rw [Option.getD_some, hfiles, if_neg (by rw [Finset.mem_union]; exact not_or.2 ⟨hnot, hout⟩),
        Repo.headTree_of_headCommit hhead]
      exact ⟨rfl, hout⟩
    · rw [Repo.work_of_not_changed h]
      exact g.merging.unchanged _ _
    · rw [hindex, Finset.union_self]
      exact hfiles p

theorem stashFirst_nothing [DecidableEq N] (stderr : List String → String) (sha : String) (h : ¬ s.repo.Changed)
    (hborn : s.repo.IsDirty g.ignores → s.repo.headCommit ≠ none) : stashFirst g stderr sha true s = .ok s := by
  rw [stashFirst]
  split
  · rename_i hdirty
    obtain ⟨c, hc⟩ := Option.ne_none_iff_exists'.1 (hborn hdirty)
    obtain ⟨-, -, hu⟩ := Repo.not_changed_iff.1 h
    rw [if_neg (by simp), Repo.stashPush, hc]
    dsimp only
    rw [if_neg (not_not.2 hu), if_neg h]
  · rfl

/-- What the call leaves when it applies no entry. -/
theorem keepsWork_nothing [DecidableEq N] {stderr : List String → String} {sha : String} (h : ¬ s.repo.Changed)
    (hfirst : stashFirst g stderr sha true s = .ok s)
    {raised : Bool} (hre : reapply g true ⟨(checkoutTarget g target s.repo).getD s.repo, s.stash, s.applied⟩ =
      (raised, ⟨(checkoutTarget g target s.repo).getD s.repo, s.stash, s.applied⟩)) :
    KeepsWork g target s (restore g stderr sha target true s) := by
  obtain ⟨hclean, hlisted, hcarried⟩ := @checkout_nothing _ _ _ _ _ _ g target s h
  obtain ⟨out, hrestore, herror⟩ := restore_of_stashFirst hfirst hre
  rw [hrestore]
  cases out with
  | error e => exact ⟨Or.inl h, hlisted, KeepsStash.refl s _⟩
  | ok c =>
    have hsome : checkoutTarget g target s.repo ≠ none := by
      intro hn
      obtain ⟨e, he⟩ := herror.2 (Or.inl hn)
      cases he
    exact ⟨hcarried hsome, hlisted, KeepsStash.refl s _⟩

omit [DecidableEq P] [DecidableEq B] in
/-- An entry that was applied lay on less than the whole stash. -/
theorem not_keepsStash_of_applied {s' : Stashing N P B M} {e : Entry P B M} {below : List (Entry P B M)}
    (hs : s.stash = e :: below) (ha : s'.applied = s.applied ++ [below]) : ¬ KeepsStash s s' := by
  rintro ⟨-, new, hnew, hbelow⟩
  have hmem : below ∈ new := by
    rw [← List.append_cancel_left (ha.symm.trans hnew)]
    exact List.mem_singleton_self below
  have hle := (hbelow below hmem).length_le
  rw [hs, List.length_cons] at hle
  omega

/-- On a tree that is clean after the checkout, the top entry has to be one git refuses. -/
theorem keepsWork_nothing_iff_refused [DecidableEq N] {stderr : List String → String} {sha : String}
    (h : ¬ s.repo.Changed) (hfirst : stashFirst g stderr sha true s = .ok s)
    (hclean : ¬ ((checkoutTarget g target s.repo).getD s.repo).IsDirty g.ignores) {e : Entry P B M}
    {below : List (Entry P B M)} (hs : s.stash = e :: below) :
    KeepsWork g target s (restore g stderr sha target true s) ↔
      ((checkoutTarget g target s.repo).getD s.repo).stashApply g e = .refused := by
  have hreapply := @reapply_of_clean _ _ _ _ _ _ g
    ⟨(checkoutTarget g target s.repo).getD s.repo, s.stash, s.applied⟩ e below hclean hs
  dsimp only at hreapply
  cases ha : ((checkoutTarget g target s.repo).getD s.repo).stashApply g e with
  | refused =>
    rw [ha] at hreapply
    exact iff_of_true (keepsWork_nothing h hfirst hreapply) rfl
  | conflicted r =>
    rw [ha] at hreapply
    obtain ⟨out, hrestore, -⟩ := restore_of_stashFirst hfirst hreapply
    rw [hrestore]
    exact iff_of_false (fun hk => not_keepsStash_of_applied hs rfl (keepsStash_of_keepsWork hk)) (by rintro ⟨⟩)
  | done r =>
    rw [ha] at hreapply
    obtain ⟨out, hrestore, -⟩ := restore_of_stashFirst hfirst hreapply
    rw [hrestore]
    exact iff_of_false (fun hk => not_keepsStash_of_applied hs rfl (keepsStash_of_keepsWork hk)) (by rintro ⟨⟩)

/-- **Without tracked changes.** -/
theorem keepsWork_nothing_iff [DecidableEq N] (stderr : List String → String) (sha : String) (h : ¬ s.repo.Changed) :
    KeepsWork g target s (restore g stderr sha target true s) ↔ LeavesOld g target s := by
  by_cases hborn : s.repo.IsDirty g.ignores → s.repo.headCommit ≠ none
  · have hfirst := stashFirst_nothing stderr sha h hborn
    by_cases hdirty : ((checkoutTarget g target s.repo).getD s.repo).IsDirty g.ignores
    · exact iff_of_true (keepsWork_nothing h hfirst (reapply_of_dirty hdirty)) (fun _ e below _ => Or.inl hdirty)
    · cases hs : s.stash with
      | nil =>
        exact iff_of_true (keepsWork_nothing h hfirst (reapply_of_empty hs)) (fun _ e below he => by rw [hs] at he; cases he)
      | cons e below =>
        rw [keepsWork_nothing_iff_refused h hfirst hdirty hs]
        constructor
        · intro hrefused _ e' below' he
          rw [hs] at he
          cases he
          exact Or.inr hrefused
        · intro hl
          exact (hl hborn e below hs).resolve_left hdirty
  · -- no commit yet: the push is refused
    refine iff_of_true ?_ (fun hb => absurd hb hborn)
    rw [Classical.not_imp, not_not] at hborn
    exact keepsWork_of_refused stderr sha hborn.1 (by rw [Repo.stashPush, hborn.2])

end Nothing

/-! ## An entry was saved -/

section Saved

variable {g : Rules N P B M} {r after : Repo N P B M} {h d : Commit (Tree P B) M} {old : List (Entry P B M)}
  {applied : List (List (Entry P B M))}

/-- At a commit, with nothing left of the changes: the commit's files, and what was not tracked before. -/
structure Landed (r : Repo N P B M) (d : Commit (Tree P B) M) (after : Repo N P B M) : Prop where
  clean : ¬ after.Changed
  head : after.headCommit = some d
  files : ∀ p, after.files.get p =
    if p ∈ r.index.paths ∪ r.headTree.paths ∪ d.tree.paths then d.tree.get p else r.files.get p

omit [DecidableEq B] in
theorem landed_resetHard [DecidableEq N] (hh : r.headCommit = some h) (hu : r.unmerged = ∅) :
    Landed r h (r.resetHard h) := by
  obtain ⟨hclean, hhead, hfiles⟩ := Repo.resetHard_spec h hu
  refine ⟨hclean, hhead, fun p => ?_⟩
  rw [hfiles, Repo.headTree_of_headCommit hh, Finset.union_assoc, Finset.union_self]

theorem Landed.checkout {after' : Repo N P B M} (hl : Landed r h after) (hh : r.headCommit = some h)
    (hc : after.checkout g d = some after') : Landed r d after' := by
  obtain ⟨hclean, hhead, hfiles, -⟩ := Repo.checkout_spec hl.clean hc
  refine ⟨hclean, hhead, fun p => ?_⟩
  rw [hfiles, hl.files, Repo.headTree_of_headCommit hl.head, Repo.headTree_of_headCommit hh]
  by_cases hd : p ∈ d.tree.paths
  · simp [hd]
  · by_cases hp : p ∈ h.tree.paths
    · simp [hd, hp]
    · simp [hd, hp, (d.tree.get_eq_none_iff p).2 hd, (h.tree.get_eq_none_iff p).2 hp]

omit [DecidableEq B] in
/-- The merge of the entry writes only tracked paths and the commit's. -/
theorem merged_paths (hh : r.headCommit = some h) :
    h.tree.paths ∪ d.tree.paths ∪ r.work.paths ⊆ r.index.paths ∪ r.headTree.paths ∪ d.tree.paths := by
  rw [Repo.headTree_of_headCommit hh]
  intro p hp
  have hwork := @Repo.paths_work_subset _ _ _ _ _ r p
  rw [Repo.headTree_of_headCommit hh] at hwork
  simp only [Finset.mem_union] at hp hwork ⊢
  tauto

/-- **Reapplying the own entry**: what it leaves alone, and what can come of it. -/
structure Reapplied (g : Rules N P B M) (r : Repo N P B M) (h d : Commit (Tree P B) M) (after : Repo N P B M)
    (old : List (Entry P B M)) (applied : List (List (Entry P B M))) (raised : Bool) (s' : Stashing N P B M) : Prop where
  head : s'.repo.headCommit = some d
  listed : (∀ p ∈ listed g r, p ∉ d.tree.paths) → KeepsListed g r s'.repo
  stash : old <:+ s'.stash
  log : ∃ new, s'.applied = applied ++ new ∧ ∀ below ∈ new, old <:+ below
  cases : (after.IsDirty g.ignores ∧ raised = false ∧ s' = ⟨after, r.entry h :: old, applied⟩) ∨
    (¬ after.IsDirty g.ignores ∧ raised = true ∧ s'.stash = r.entry h :: old) ∨
    (¬ after.IsDirty g.ignores ∧ raised = false ∧ ∃ t, g.merging.merge h.tree d.tree r.work = .clean t ∧
      ∀ p, s'.repo.files.get p =
        if p ∈ r.index.paths ∪ r.headTree.paths ∪ d.tree.paths then t.get p else r.files.get p)

omit [DecidableEq B] in
/-- Files outside the paths of the merge are as they were: the listed ones stay. -/
theorem keepsListed_of_landed {r' : Repo N P B M} (hh : r.headCommit = some h) (hl : Landed r d after)
    (hhead : r'.headCommit = some d)
    (hfiles : ∀ p, p ∉ h.tree.paths ∪ d.tree.paths ∪ r.work.paths → r'.files.get p = after.files.get p)
    (hspared : ∀ p ∈ listed g r, p ∉ d.tree.paths) : KeepsListed g r r' := by
  intro p hp
  obtain ⟨hun, hnot⟩ := mem_listed.1 hp
  have hout : p ∉ r.index.paths ∪ r.headTree.paths ∪ d.tree.paths := by
    simp only [Finset.mem_union, not_or]
    exact ⟨⟨(Repo.mem_untracked.1 hun).2.1, hnot⟩, hspared p hp⟩
  refine ⟨?_, by rw [Repo.headTree_of_headCommit hhead]; exact hspared p hp⟩
  rw [hfiles p (fun hn => hout (merged_paths hh hn)), hl.files, if_neg hout]

/-- **The own entry, applied cleanly**: the merged files on the paths of the merge, the others as they were. -/
theorem Landed.reapplied {r' : Repo N P B M} (hl : Landed r d after) (hh : r.headCommit = some h)
    (ha : after.stashApply g (r.entry h) = .done r') :
    r'.headCommit = some d ∧ ((∀ p ∈ listed g r, p ∉ d.tree.paths) → KeepsListed g r r') ∧
      ∃ t, g.merging.merge h.tree d.tree r.work = .clean t ∧ ∀ p, r'.files.get p =
        if p ∈ r.index.paths ∪ r.headTree.paths ∪ d.tree.paths then t.get p else r.files.get p := by
  obtain ⟨hhead, t, hmerge, hfiles⟩ := Repo.stashApply_done hl.clean ha
  rw [Repo.headTree_of_headCommit hl.head] at hmerge hfiles
  have hwithin := g.merging.within h.tree d.tree r.work
  have hmerge' : g.merging.merge h.tree d.tree r.work = .clean t := hmerge
  rw [hmerge'] at hwithin
  have hhead' := hhead.trans hl.head
  refine ⟨hhead', keepsListed_of_landed hh hl hhead' (fun p hp => ?_), t, hmerge', fun p => ?_⟩
  · refine (hfiles p).trans (if_neg (fun hn => hp ?_))
    rcases Finset.mem_union.1 hn with hn | hn
    · exact Finset.mem_union_left _ (Finset.mem_union_right _ hn)
    · exact hwithin hn
  · rw [hfiles, hl.files]
    by_cases hp : p ∈ r.index.paths ∪ r.headTree.paths ∪ d.tree.paths
    · rw [if_pos hp, if_pos hp]
      split
      · rfl
      · -- tracked before, and neither the commit nor the merge has it
        rename_i hout
        rw [Finset.mem_union, not_or] at hout
        rw [(d.tree.get_eq_none_iff p).2 hout.1, (t.get_eq_none_iff p).2 hout.2]
    · rw [if_neg hp, if_neg hp, if_neg]
      intro hn
      rcases Finset.mem_union.1 hn with hn | hn
      · exact hp (Finset.mem_union_right _ hn)
      · exact hp (merged_paths hh (hwithin hn))

theorem reapply_own (hh : r.headCommit = some h) (hl : Landed r d after) :
    Reapplied g r h d after old applied (reapply g true ⟨after, r.entry h :: old, applied⟩).1
      (reapply g true ⟨after, r.entry h :: old, applied⟩).2 := by
  have hstay : ∃ new, applied = applied ++ new ∧ ∀ below ∈ new, old <:+ below :=
    ⟨[], (List.append_nil _).symm, fun _ hb => by cases hb⟩
  have hnew : ∃ new, applied ++ [old] = applied ++ new ∧ ∀ below ∈ new, old <:+ below :=
    ⟨[old], rfl, fun below hb => by rw [List.mem_singleton.1 hb]⟩
  by_cases hdirty : after.IsDirty g.ignores
  · have hsame : reapply g true ⟨after, r.entry h :: old, applied⟩ = (false, ⟨after, r.entry h :: old, applied⟩) :=
      reapply_of_dirty hdirty
    rw [hsame]
    exact ⟨hl.head, keepsListed_of_landed hh hl hl.head (fun _ _ => rfl), List.suffix_cons _ old, hstay,
      Or.inl ⟨hdirty, rfl, rfl⟩⟩
  · have hreapply := @reapply_of_clean _ _ _ _ _ _ g ⟨after, r.entry h :: old, applied⟩ _ old hdirty rfl
    dsimp only at hreapply
    cases ha : after.stashApply g (r.entry h) with
    | refused =>
      rw [ha] at hreapply
      rw [hreapply]
      exact ⟨hl.head, keepsListed_of_landed hh hl hl.head (fun _ _ => rfl), List.suffix_cons _ old, hstay,
        Or.inr (Or.inl ⟨hdirty, rfl, rfl⟩)⟩
    | conflicted r' =>
      rw [ha] at hreapply
      rw [hreapply]
      obtain ⟨hhead, hfiles⟩ := Repo.stashApply_conflicted hl.clean ha
      rw [Repo.headTree_of_headCommit hl.head] at hfiles
      have hhead' := hhead.trans hl.head
      exact ⟨hhead', keepsListed_of_landed hh hl hhead' hfiles, List.suffix_cons _ old, hnew,
        Or.inr (Or.inl ⟨hdirty, rfl, rfl⟩)⟩
    | done r' =>
      rw [ha] at hreapply
      rw [hreapply]
      obtain ⟨hhead, hlisted, t, hmerge, hfiles⟩ := hl.reapplied hh ha
      exact ⟨hhead, hlisted, List.suffix_rfl, hnew, Or.inr (Or.inr ⟨hdirty, rfl, t, hmerge, hfiles⟩)⟩

/-! ### The whole call -/

variable {target : Option (Commit (Tree P B) M)} {s : Stashing N P B M}

theorem stashFirst_saved [DecidableEq N] (stderr : List String → String) (sha : String) (hchanged : s.repo.Changed)
    (hh : s.repo.headCommit = some h) (hu : s.repo.unmerged = ∅) :
    stashFirst g stderr sha true s = .ok ⟨s.repo.resetHard h, s.repo.entry h :: s.stash, s.applied⟩ := by
  have hpush : s.repo.stashPush = .saved (s.repo.entry h) (s.repo.resetHard h) := by
    rw [Repo.stashPush, hh]
    dsimp only
    rw [if_neg (not_not.2 hu), if_pos hchanged]
  rw [stashFirst, if_pos (show s.repo.IsDirty g.ignores from Or.inl hchanged), if_neg (by simp), hpush]

omit [DecidableEq B] in
theorem Reapplied.keepsStash {raised : Bool} {s' : Stashing N P B M}
    (hr : Reapplied g s.repo h d after s.stash s.applied raised s') : KeepsStash s s' :=
  ⟨hr.stash, hr.log⟩

omit [DecidableEq B] in
/-- The own entry on top of the stash is enough to recover the changes. -/
theorem recoverable_of_entry {s' : Stashing N P B M} (hh : s.repo.headCommit = some h)
    (hs : s'.stash = s.repo.entry h :: s.stash) : Recoverable s s' :=
  Or.inr (Or.inr ⟨s.repo.entry h, hs, hh, rfl, rfl⟩)

omit [DecidableEq B] in
/-- A merge that leaves the target's files is the target. -/
theorem carried_landed_iff (hh : s.repo.headCommit = some h) (htarget : target = some d) (hl : Landed s.repo d after) :
    Carried g target s.repo after ↔ g.merging.merge h.tree d.tree s.repo.work = .clean d.tree := by
  have htree := Repo.headTree_of_headCommit hh
  constructor
  · rintro ⟨c, t, hc, -, hmerge, hfiles⟩
    obtain rfl : d = c := Option.some.inj (htarget.symm.trans hc)
    rw [htree] at hmerge
    have hwithin := g.merging.within h.tree d.tree s.repo.work
    rw [hmerge] at hwithin
    have ht : t = d.tree := by
      ext1 p
      by_cases hp : p ∈ s.repo.index.paths ∪ s.repo.headTree.paths ∪ d.tree.paths
      · have hboth := hfiles p
        rw [hl.files, if_pos hp, if_pos hp] at hboth
        exact hboth.symm
      · have hd : p ∉ d.tree.paths := fun hn => hp (Finset.mem_union_right _ hn)
        rw [(t.get_eq_none_iff p).2 (fun hn => hp (merged_paths hh (hwithin hn))), (d.tree.get_eq_none_iff p).2 hd]
    rw [hmerge, ht]
  · intro hmerge
    exact ⟨d, d.tree, htarget, hl.head, by rw [htree]; exact hmerge, hl.files⟩

omit [DecidableEq B] in
/-- **The checkout failed**: the entry is reapplied at the commit it was made on. -/
theorem Reapplied.recoverable {raised : Bool} {s' : Stashing N P B M} (hh : s.repo.headCommit = some h)
    (hr : Reapplied g s.repo h h after s.stash s.applied raised s') : Recoverable s s' := by
  rcases hr.cases with ⟨-, -, rfl⟩ | ⟨-, -, hs⟩ | ⟨-, -, t, hmerge, hfiles⟩
  · exact recoverable_of_entry hh rfl
  · exact recoverable_of_entry hh hs
  · rw [g.merging.ontoBase] at hmerge
    cases hmerge
    refine Or.inr (Or.inl (fun p hp => ?_))
    rw [hfiles, if_pos (Finset.mem_union_left _ hp), Repo.work_get, if_pos hp]

theorem keepsWork_of_failed_checkout [DecidableEq N] (stderr : List String → String) (sha : String)
    (hchanged : s.repo.Changed) (hh : s.repo.headCommit = some h) (hu : s.repo.unmerged = ∅)
    (hc : checkoutTarget g target (s.repo.resetHard h) = none) :
    KeepsWork g target s (restore g stderr sha target true s) := by
  have hown := @reapply_own _ _ _ _ _ _ g s.repo (s.repo.resetHard h) h h s.stash s.applied hh (landed_resetHard hh hu)
  have hfirst := @stashFirst_saved _ _ _ _ _ _ g h s _ stderr sha hchanged hh hu
  obtain ⟨out, hrestore, herror⟩ := restore_of_stashFirst hfirst (by rw [hc, Option.getD_none])
  obtain ⟨e, rfl⟩ := herror.2 (Or.inl hc)
  rw [hrestore]
  refine ⟨hown.recoverable hh, hown.listed (fun p hp => ?_), hown.keepsStash⟩
  rw [← Repo.headTree_of_headCommit hh]
  exact (mem_listed.1 hp).2

/-- **The checkout went through.** -/
theorem keepsWork_checkedOut_iff [DecidableEq N] (stderr : List String → String) (sha : String) {c : Commit (Tree P B) M}
    (hchanged : s.repo.Changed) (hh : s.repo.headCommit = some h) (hu : s.repo.unmerged = ∅) (htarget : target = some c)
    (hc : (s.repo.resetHard h).checkout g c = some after) :
    KeepsWork g target s (restore g stderr sha target true s) ↔
      (∀ p ∈ listed g s.repo, p ∉ c.tree.paths) ∧
        (after.IsDirty g.ignores → g.merging.merge h.tree c.tree s.repo.work = .clean c.tree) := by
  have hl := (landed_resetHard hh hu).checkout hh hc
  have hown := @reapply_own _ _ _ _ _ _ g s.repo after h c s.stash s.applied hh hl
  have hfirst := @stashFirst_saved _ _ _ _ _ _ g h s _ stderr sha hchanged hh hu
  have hchecked : checkoutTarget g target (s.repo.resetHard h) = some after := by rw [htarget]; exact hc
  obtain ⟨out, hrestore, herror⟩ := restore_of_stashFirst hfirst (by rw [hchecked, Option.getD_some])
  generalize hre : reapply g true ⟨after, s.repo.entry h :: s.stash, s.applied⟩ = again at hown hrestore herror
  obtain ⟨raised, s'⟩ := again
  dsimp only at hown hrestore herror hchecked
  rw [hrestore]
  by_cases hspared : ∀ p ∈ listed g s.repo, p ∉ c.tree.paths
  · rw [and_iff_right hspared]
    have hlisted := hown.listed hspared
    have hsucceeds : raised = false → ∃ c', out = .ok c' := by
      intro hraised
      cases out with
      | ok c' => exact ⟨c', rfl⟩
      | error e =>
        rw [hchecked, hraised, hown.head] at herror
        simpa using herror.1 ⟨e, rfl⟩
    rcases hown.cases with ⟨hdirty, hraised, rfl⟩ | ⟨hclean, hraised, hs⟩ | ⟨hclean, hraised, t, hmerge, hfiles⟩
    · -- something is left for `git status` to print, and the entry stays on the stash
      obtain ⟨c', rfl⟩ := hsucceeds hraised
      rw [Classical.imp_iff_right_iff.2 (Or.inl hdirty), ← carried_landed_iff hh htarget hl]
      exact ⟨fun hk => hk.1, fun hcarried => ⟨hcarried, hlisted, hown.keepsStash⟩⟩
    · obtain ⟨e, rfl⟩ := herror.2 (Or.inr (Or.inl hraised))
      exact iff_of_true ⟨recoverable_of_entry hh hs, hlisted, hown.keepsStash⟩ (fun hd => absurd hd hclean)
    · obtain ⟨c', rfl⟩ := hsucceeds hraised
      refine iff_of_true ⟨⟨c, t, htarget, hown.head, ?_, hfiles⟩, hlisted, hown.keepsStash⟩
        (fun hd => absurd hd hclean)
      rw [Repo.headTree_of_headCommit hh]
      exact hmerge
  · refine iff_of_false (fun hk => hspared (fun p hp => ?_)) (fun hp => hspared hp.1)
    rw [← Repo.headTree_of_headCommit hown.head]
    exact (keepsListed_of_keepsWork hk p hp).2

/-- **With tracked changes.** -/
theorem keepsWork_saved_iff [DecidableEq N] (stderr : List String → String) (sha : String) (hchanged : s.repo.Changed) :
    KeepsWork g target s (restore g stderr sha target true s) ↔ PopsOwn g target s.repo := by
  by_cases hpush : s.repo.unmerged = ∅ ∧ ∃ h, s.repo.headCommit = some h
  · obtain ⟨hu, h, hh⟩ := hpush
    cases hc : checkoutTarget g target (s.repo.resetHard h) with
    | none =>
      refine iff_of_true (keepsWork_of_failed_checkout stderr sha hchanged hh hu hc) (fun h' c r' hh' _ htarget hr => ?_)
      obtain rfl : h = h' := Option.some.inj (hh.symm.trans hh')
      rw [checkoutTarget, htarget, Option.bind_some, hr] at hc
      cases hc
    | some after =>
      obtain ⟨c, htarget, hr⟩ := Option.bind_eq_some_iff.1 hc
      rw [keepsWork_checkedOut_iff stderr sha hchanged hh hu htarget hr]
      constructor
      · intro hboth h' c' r' hh' _ htarget' hr'
        obtain rfl : h = h' := Option.some.inj (hh.symm.trans hh')
        obtain rfl : c = c' := Option.some.inj (htarget.symm.trans htarget')
        obtain rfl : after = r' := Option.some.inj (hr.symm.trans hr')
        exact hboth
      · intro hpops
        exact hpops h c after hh hu htarget hr
  · -- unresolved conflicts, or no commit yet: the push is refused
    have hrefused : s.repo.stashPush = .refused := by
      rw [Repo.stashPush]
      cases hh : s.repo.headCommit with
      | none => rfl
      | some h => exact if_pos (fun hu => hpush ⟨hu, h, hh⟩)
    exact iff_of_true (keepsWork_of_refused stderr sha (Or.inl hchanged) hrefused)
      (fun h c r' hh hu => absurd ⟨hu, h, hh⟩ hpush)

end Saved

/-- **What autostash keeps**: with tracked changes it is the own entry that has to be popped, without them no entry may be. -/
theorem keepsWork_iff [DecidableEq N] (g : Rules N P B M) (stderr : List String → String) (sha : String)
    (target : Option (Commit (Tree P B) M)) (s : Stashing N P B M) :
    KeepsWork g target s (restore g stderr sha target true s) ↔
      (s.repo.Changed → PopsOwn g target s.repo) ∧ (¬ s.repo.Changed → LeavesOld g target s) := by
  by_cases hchanged : s.repo.Changed
  · rw [keepsWork_saved_iff stderr sha hchanged, Classical.imp_iff_right_iff.2 (Or.inl hchanged)]
    exact (and_iff_left (fun hn => absurd hchanged hn)).symm
  · rw [keepsWork_nothing_iff stderr sha hchanged, Classical.imp_iff_right_iff.2 (Or.inl hchanged)]
    exact (and_iff_right (fun hn => absurd hn hchanged)).symm

/-! ## Two failures -/

def plainRules : Rules Unit String String Unit := ⟨.pathwise, fun _ _ => false, fun _ _ => false⟩

def firstCommit : Commit (Tree String String) Unit := .mk (.single "a.py" "a = 1") () []

def secondCommit : Commit (Tree String String) Unit :=
  .mk (.overlay {"b.py"} (.single "b.py" "b = 1") firstCommit.tree) () [firstCommit]

/-- A checkout of `main`, which is at the second commit. -/
def onMain (files : Tree String String) : Repo Unit String String Unit where
  branches := fun _ => some secondCommit
  head := .branch ()
  index := secondCommit.tree
  unmerged := ∅
  mergeHead := none
  files := files

/-- `a.py` was edited, and next to it is a file git does not track. -/
def editBesideNotes : Stashing Unit String String Unit where
  repo := onMain (.overlay {"a.py"} (.single "a.py" "a = 2")
    (.overlay {"notes.txt"} (.single "notes.txt" "todo") secondCommit.tree))
  stash := []
  applied := []

/-- Nothing to stash, and an entry from before. -/
def cleanOverOldEntry : Stashing Unit String String Unit where
  repo := onMain secondCommit.tree
  stash := [⟨firstCommit, firstCommit.tree, .single "a.py" "a = 2"⟩]
  applied := []

/-- **Beside an untracked file the edit stays stashed; on a clean tree the older entry is popped.** -/
theorem edit_stays_stashed :
    ¬ KeepsWork plainRules (some firstCommit) editBesideNotes
        (restore plainRules (fun _ => "") "4f1d2c0" (some firstCommit) true editBesideNotes) ∧
      ¬ KeepsWork plainRules (some firstCommit) cleanOverOldEntry
        (restore plainRules (fun _ => "") "4f1d2c0" (some firstCommit) true cleanOverOldEntry) := by
  constructor
  · intro hk
    rw [keepsWork_saved_iff _ _ (by decide +kernel)] at hk
    have hchecked : ((editBesideNotes.repo.resetHard secondCommit).checkout plainRules firstCommit).any
        (fun r => decide (r.IsDirty plainRules.ignores)) = true := by decide +kernel
    obtain ⟨after, hc, hdirty⟩ := (Option.any_eq_true _ _).1 hchecked
    have hmerge := (hk secondCommit firstCommit after rfl rfl rfl hc).2 (of_decide_eq_true hdirty)
    have hsplit : ¬ (pathwiseSplit secondCommit.tree firstCommit.tree editBesideNotes.repo.work).Nonempty := by
      decide +kernel
    -- the merge has the edit, the target has not
    have htree := ThreeWay.clean.inj ((pathwise_of_no_split _ _ _ hsplit).symm.trans hmerge)
    exact absurd htree (by decide +kernel)
  · intro hk
    rw [keepsWork_nothing_iff _ _ (by decide +kernel)] at hk
    rcases hk (fun _ => by decide +kernel) _ _ rfl with hdirty | hrefused
    · exact absurd hdirty (by decide +kernel)
    · have happlies : (match ((checkoutTarget plainRules (some firstCommit) cleanOverOldEntry.repo).getD
          cleanOverOldEntry.repo).stashApply plainRules ⟨firstCommit, firstCommit.tree, .single "a.py" "a = 2"⟩ with
        | .refused => false
        | _ => true) = true := by decide +kernel
      rw [hrefused] at happlies
      cases happlies

end Vcs
end DevHarness
