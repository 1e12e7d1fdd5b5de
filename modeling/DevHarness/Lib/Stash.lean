import DevHarness.Lib.Git
import Mathlib.Data.Finset.Lattice.Lemmas
/-!
# Stash — status, checkout, and the stack of stashed changes

What three-way merges give is a parameter with three laws (`Merge3`); which files are ignored, and what else may be in a
command's way, are parameters as well.  A stash entry holds the tracked files alone.  `applied` is no part of a repository:
it records what lay below each entry that was applied.
-/
namespace Lib
namespace Git

/-- The paths a three-way merge writes. -/
def ThreeWay.touched {P B : Type} [DecidableEq P] : ThreeWay P B → Finset P
  | .clean t => t.paths
  | .conflict t unmerged _ => t.paths ∪ unmerged

/-- **A three-way merge of trees**: base, ours, theirs. -/
structure Merge3 (P B : Type) [DecidableEq P] where
  merge : Tree P B → Tree P B → Tree P B → ThreeWay P B
  ontoBase : ∀ b t, merge b b t = .clean t
  unchanged : ∀ b o, merge b o b = .clean o
  within : ∀ b o t, (merge b o t).touched ⊆ b.paths ∪ o.paths ∪ t.paths

section Pathwise

variable {P B : Type} [DecidableEq P] [DecidableEq B] (b o t : Tree P B)

/-- Path by path, theirs where ours is the base's. -/
def pathwiseTree : Tree P B :=
  Tree.build (b.paths ∪ o.paths ∪ t.paths) (fun p => if o.get p = b.get p then t.get p else o.get p)

/-- The paths where both sides left the base, and differ. -/
def pathwiseSplit : Finset P :=
  (b.paths ∪ o.paths ∪ t.paths).filter (fun p => o.get p ≠ b.get p ∧ t.get p ≠ b.get p ∧ o.get p ≠ t.get p)

theorem pathwiseTree_get (p : P) : (pathwiseTree b o t).get p = if o.get p = b.get p then t.get p else o.get p := by
  refine Tree.build_get (fun hp => ?_)
  simp only [Finset.mem_union, not_or, ← Tree.get_eq_none_iff] at hp
  rw [hp.2, hp.1.2, ite_self]

theorem pathwiseSplit_eq_empty (h : ∀ p, o.get p = b.get p ∨ t.get p = b.get p) :
    ¬ (pathwiseSplit b o t).Nonempty := by
  rintro ⟨p, hp⟩
  obtain ⟨-, ho, ht, -⟩ := Finset.mem_filter.1 hp
  exact (h p).elim ho ht

/-- **Merging path by path** satisfies the laws. -/
def Merge3.pathwise : Merge3 P B where
  merge b o t :=
    if h : (pathwiseSplit b o t).Nonempty then .conflict (pathwiseTree b o t) (pathwiseSplit b o t) h
    else .clean (pathwiseTree b o t)
  ontoBase b t := by
    rw [dif_neg (pathwiseSplit_eq_empty b b t (fun _ => Or.inl rfl))]
    congr 1
    ext1 p
    rw [pathwiseTree_get, if_pos rfl]
  unchanged b o := by
    rw [dif_neg (pathwiseSplit_eq_empty b o b (fun _ => Or.inr rfl))]
    congr 1
    ext1 p
    rw [pathwiseTree_get]
    split
    · rename_i h
      exact h.symm
    · rfl
  within b o t := by
    have htree : (pathwiseTree b o t).paths ⊆ b.paths ∪ o.paths ∪ t.paths := Finset.filter_subset _ _
    split
    · exact Finset.union_subset htree (Finset.filter_subset _ _)
    · exact htree

theorem pathwise_of_no_split (h : ¬ (pathwiseSplit b o t).Nonempty) :
    Merge3.pathwise.merge b o t = .clean (pathwiseTree b o t) := dif_neg h

end Pathwise

structure Entry (P B M : Type) where
  base : Commit (Tree P B) M
  index : Tree P B
  work : Tree P B

structure Rules (N P B M : Type) [DecidableEq P] where
  merging : Merge3 P B
  -- by the ignore files of a working tree
  ignores : Tree P B → P → Bool
  -- anything else that keeps a command from writing a tree
  obstructed : Repo N P B M → Tree P B → Bool

inductive Pushed (N P B M : Type) where
  | refused
  | nothing
  | saved (e : Entry P B M) (r : Repo N P B M)

inductive Applied (N P B M : Type) where
  | refused
  | conflicted (r : Repo N P B M)
  | done (r : Repo N P B M)

structure Stashing (N P B M : Type) where
  repo : Repo N P B M
  stash : List (Entry P B M)
  applied : List (List (Entry P B M))

variable {N P B M : Type}

namespace Repo

/-- HEAD's tree; an unborn branch has none. -/
def headTree (r : Repo N P B M) : Tree P B := (r.headCommit.map Commit.tree).getD .empty

/-- A tracked file, the index or a conflict differs from HEAD. -/
def Changed (r : Repo N P B M) : Prop :=
  r.index ≠ r.headTree ∨ (∃ p ∈ r.index.paths, r.files.get p ≠ r.index.get p) ∨ r.unmerged ≠ ∅

theorem not_changed_iff {r : Repo N P B M} :
    ¬ r.Changed ↔ r.index = r.headTree ∧ (∀ p ∈ r.index.paths, r.files.get p = r.index.get p) ∧ r.unmerged = ∅ := by
  simp only [Changed, not_or, not_exists, not_and, not_not]

theorem headTree_of_headCommit {r : Repo N P B M} {h : Commit (Tree P B) M} (hh : r.headCommit = some h) :
    r.headTree = h.tree := by
  rw [headTree, hh]
  rfl

variable [DecidableEq P]

/-- The untracked files `git status` lists. -/
def untracked (ignores : Tree P B → P → Bool) (r : Repo N P B M) : Finset P :=
  r.files.paths.filter (fun p => p ∉ r.index.paths ∧ ignores r.files p = false)

/-- The tracked files as they are in the working tree. -/
def work (r : Repo N P B M) : Tree P B := Tree.overlay (r.index.paths ∪ r.headTree.paths) r.files .empty

def entry (r : Repo N P B M) (h : Commit (Tree P B) M) : Entry P B M := ⟨h, r.index, r.work⟩

theorem mem_untracked {ignores : Tree P B → P → Bool} {r : Repo N P B M} {p : P} :
    p ∈ r.untracked ignores ↔ p ∈ r.files.paths ∧ p ∉ r.index.paths ∧ ignores r.files p = false :=
  Finset.mem_filter

theorem work_get (r : Repo N P B M) (p : P) :
    r.work.get p = if p ∈ r.index.paths ∪ r.headTree.paths then r.files.get p else none := rfl

theorem paths_work_subset (r : Repo N P B M) : r.work.paths ⊆ r.index.paths ∪ r.headTree.paths := by
  intro p hp
  by_contra hn
  rw [r.work.mem_paths, work_get, if_neg hn] at hp
  cases hp

/-- Without changes the tracked files are HEAD's. -/
theorem work_of_not_changed {r : Repo N P B M} (h : ¬ r.Changed) : r.work = r.headTree := by
  obtain ⟨hindex, hfiles, -⟩ := not_changed_iff.1 h
  ext1 p
  rw [work_get, hindex, Finset.union_self]
  by_cases hp : p ∈ r.headTree.paths
  · rw [if_pos hp, ← hindex]
    exact hfiles p (hindex ▸ hp)
  · rw [if_neg hp, ((r.headTree.get_eq_none_iff p).2 hp)]

/-- **After a push that saved an entry**: HEAD's tracked files, and the rest as it was. -/
theorem resetHard_spec [DecidableEq N] {r : Repo N P B M} (h : Commit (Tree P B) M) (hu : r.unmerged = ∅) :
    ¬ (r.resetHard h).Changed ∧ (r.resetHard h).headCommit = some h ∧
      ∀ p, (r.resetHard h).files.get p =
        if p ∈ r.index.paths ∪ h.tree.paths then h.tree.get p else r.files.get p := by
  have hhead : (r.resetHard h).headCommit = some h := headCommit_setHead r h
  have hfiles : ∀ p, (r.resetHard h).files.get p =
      if p ∈ r.index.paths ∪ h.tree.paths then h.tree.get p else r.files.get p := by
    intro p
    show (Tree.overlay (r.index.paths ∪ r.unmerged ∪ h.tree.paths) h.tree r.files).get p = _
    rw [hu, Finset.union_empty, Tree.overlay_get]
  refine ⟨not_changed_iff.2 ⟨(headTree_of_headCommit hhead).symm, fun p hp => ?_, rfl⟩, hhead, hfiles⟩
  have hp' : p ∈ h.tree.paths := hp
  rw [hfiles, if_pos (Finset.mem_union_right _ hp')]
  rfl

variable [DecidableEq B]

instance (r : Repo N P B M) : Decidable r.Changed :=
  inferInstanceAs (Decidable (_ ≠ _ ∨ (∃ p ∈ r.index.paths, _) ∨ _ ≠ _))

/-- `git status --porcelain` prints something. -/
def IsDirty (ignores : Tree P B → P → Bool) (r : Repo N P B M) : Prop := r.Changed ∨ r.untracked ignores ≠ ∅

instance (ignores : Tree P B → P → Bool) (r : Repo N P B M) : Decidable (r.IsDirty ignores) :=
  inferInstanceAs (Decidable (_ ∨ _ ≠ _))

/-- `git stash push`: index and tracked files are saved and then HEAD's; untracked files stay. -/
def stashPush [DecidableEq N] (r : Repo N P B M) : Pushed N P B M :=
  match r.headCommit with
  | none => .refused
  | some h =>
    if r.unmerged ≠ ∅ then .refused
    else if r.Changed then .saved (r.entry h) (r.resetHard h)
    else .nothing

/-- A tracked file was edited, or an untracked one that is not ignored is there. -/
def InTheWay (ignores : Tree P B → P → Bool) (r : Repo N P B M) (on : Finset P) : Prop :=
  (∃ p ∈ on, p ∈ r.index.paths ∧ r.files.get p ≠ r.index.get p) ∨ ∃ p ∈ on, p ∈ r.untracked ignores

instance (ignores : Tree P B → P → Bool) (r : Repo N P B M) (on : Finset P) : Decidable (r.InTheWay ignores on) :=
  inferInstanceAs (Decidable ((∃ p ∈ on, _ ∧ _) ∨ ∃ p ∈ on, _))

/-- `git checkout` of a commit: HEAD is detached at it.  Changes on a path where the trees differ refuse it. -/
def checkout (g : Rules N P B M) (r : Repo N P B M) (c : Commit (Tree P B) M) : Option (Repo N P B M) :=
  let on := Tree.diff r.headTree c.tree
  if r.unmerged ≠ ∅ ∨ (∃ p ∈ on, r.index.get p ≠ r.headTree.get p) ∨ r.InTheWay g.ignores on ∨
    g.obstructed r c.tree = true then none
  else some { r with
    head := .detached c
    index := Tree.overlay on c.tree r.index
    mergeHead := none
    files := Tree.overlay on c.tree r.files }

/-- `git stash apply`: the entry's changes merged into the index's tree; of a clean result only new files are staged. -/
def stashApply (g : Rules N P B M) (r : Repo N P B M) (e : Entry P B M) : Applied N P B M :=
  if r.unmerged ≠ ∅ then .refused
  else match g.merging.merge e.base.tree r.index e.work with
    | .clean t =>
      let on := Tree.diff r.index t
      if r.InTheWay g.ignores on ∨ g.obstructed r t = true then .refused
      else .done { r with
        index := Tree.overlay (t.paths.filter (fun p => p ∉ r.index.paths)) t r.index
        files := Tree.overlay on t r.files }
    | .conflict t unmerged _ =>
      let on := Tree.diff r.index t ∪ unmerged
      if r.InTheWay g.ignores on ∨ g.obstructed r t = true then .refused
      else .conflicted { r with
        index := Tree.overlay on t r.index
        unmerged := unmerged
        files := Tree.overlay on t r.files }

/-! ## Clean states -/

/-- Laid over the files of a clean checkout where it differs from HEAD, a tree holds on its own paths and HEAD's. -/
theorem overlay_diff_get {r : Repo N P B M} (h : ¬ r.Changed) (t : Tree P B) (p : P) :
    (Tree.overlay (Tree.diff r.headTree t) t r.files).get p =
      if p ∈ r.headTree.paths ∪ t.paths then t.get p else r.files.get p := by
  obtain ⟨hindex, hfiles, -⟩ := not_changed_iff.1 h
  by_cases hdiff : p ∈ Tree.diff r.headTree t
  · rw [Tree.overlay_get_of_mem hdiff]
    by_cases hp : p ∈ r.headTree.paths ∪ t.paths
    · rw [if_pos hp]
    · rw [Finset.mem_union, not_or, ← Tree.get_eq_none_iff, ← Tree.get_eq_none_iff] at hp
      exact absurd (hp.1.trans hp.2.symm) (Tree.mem_diff.1 hdiff)
  · rw [Tree.overlay_get_of_notMem hdiff]
    have hsame : r.headTree.get p = t.get p := by
      by_contra hn
      exact hdiff (Tree.mem_diff.2 hn)
    by_cases hp : p ∈ r.headTree.paths ∪ t.paths
    · have hhead : p ∈ r.headTree.paths := by
        rcases Finset.mem_union.1 hp with hp | hp
        · exact hp
        · rw [Tree.mem_paths, hsame, ← Tree.mem_paths]
          exact hp
      rw [if_pos hp, ← hsame, ← hindex]
      exact hfiles p (hindex ▸ hhead)
    · rw [if_neg hp]

/-- A listed file with a place in the tree is in the way of it. -/
theorem not_mem_of_not_inTheWay {ignores : Tree P B → P → Bool} {r : Repo N P B M} {t : Tree P B} {p : P}
    (h : ¬ r.Changed) (hway : ¬ r.InTheWay ignores (Tree.diff r.headTree t)) (hp : p ∈ r.untracked ignores) :
    p ∉ t.paths := by
  intro hpt
  refine hway (Or.inr ⟨p, Tree.mem_diff.2 (fun he => ?_), hp⟩)
  obtain ⟨hindex, -, -⟩ := not_changed_iff.1 h
  have hhead : p ∈ r.headTree.paths := by
    rw [Tree.mem_paths, he, ← Tree.mem_paths]
    exact hpt
  exact (mem_untracked.1 hp).2.1 (hindex ▸ hhead)

/-! ## What the commands do -/

/-- **A checkout from a clean state**: the commit's files, the others as they were, and none of those listed has a place in
the commit. -/
theorem checkout_spec {g : Rules N P B M} {r r' : Repo N P B M} {c : Commit (Tree P B) M} (h : ¬ r.Changed)
    (hc : r.checkout g c = some r') :
    ¬ r'.Changed ∧ r'.headCommit = some c ∧
      (∀ p, r'.files.get p = if p ∈ r.headTree.paths ∪ c.tree.paths then c.tree.get p else r.files.get p) ∧
      ∀ p ∈ r.untracked g.ignores, p ∉ c.tree.paths := by
  obtain ⟨hindex, -, hu⟩ := not_changed_iff.1 h
  unfold checkout at hc
  dsimp only at hc
  split at hc
  · cases hc
  · rename_i hok
    cases hc
    have hway : ¬ r.InTheWay g.ignores (Tree.diff r.headTree c.tree) := fun hw => hok (Or.inr (Or.inr (Or.inl hw)))
    refine ⟨not_changed_iff.2 ⟨?_, fun p hp => ?_, hu⟩, rfl, overlay_diff_get h c.tree,
      fun p hp => not_mem_of_not_inTheWay h hway hp⟩
    · show Tree.overlay (Tree.diff r.headTree c.tree) c.tree r.index = c.tree
      ext1 p
      rw [hindex, Tree.overlay_get]
      by_cases hp : p ∈ Tree.diff r.headTree c.tree
      · rw [if_pos hp]
      · rw [if_neg hp]
        by_contra hn
        exact hp (Tree.mem_diff.2 hn)
    · show (Tree.overlay (Tree.diff r.headTree c.tree) c.tree r.files).get p =
        (Tree.overlay (Tree.diff r.headTree c.tree) c.tree r.index).get p
      by_cases hd : p ∈ Tree.diff r.headTree c.tree
      · rw [Tree.overlay_get_of_mem hd, Tree.overlay_get_of_mem hd]
      · rw [Tree.overlay_get_of_notMem hd, Tree.overlay_get_of_notMem hd]
        have hp' : (Tree.overlay (Tree.diff r.headTree c.tree) c.tree r.index).get p ≠ none := by
          rw [ne_eq, Tree.get_eq_none_iff, not_not]
          exact hp
        rw [Tree.overlay_get_of_notMem hd] at hp'
        have hin : p ∈ r.index.paths := by
          by_contra hn
          exact hp' ((r.index.get_eq_none_iff p).2 hn)
        exact (not_changed_iff.1 h).2.1 p hin

/-- **A clean application to a clean state.** -/
theorem stashApply_done {g : Rules N P B M} {r r' : Repo N P B M} {e : Entry P B M} (h : ¬ r.Changed)
    (ha : r.stashApply g e = .done r') :
    r'.headCommit = r.headCommit ∧ ∃ t, g.merging.merge e.base.tree r.headTree e.work = .clean t ∧
      ∀ p, r'.files.get p = if p ∈ r.headTree.paths ∪ t.paths then t.get p else r.files.get p := by
  obtain ⟨hindex, -, hu⟩ := not_changed_iff.1 h
  rw [stashApply, if_neg (not_not.2 hu), hindex] at ha
  dsimp only at ha
  split at ha
  · rename_i t hm
    split at ha
    · cases ha
    · cases ha
      exact ⟨rfl, t, hm, overlay_diff_get h t⟩
  · split at ha <;> cases ha

/-- **A conflict** leaves HEAD, and every file the merge does not write. -/
theorem stashApply_conflicted {g : Rules N P B M} {r r' : Repo N P B M} {e : Entry P B M} (h : ¬ r.Changed)
    (ha : r.stashApply g e = .conflicted r') :
    r'.headCommit = r.headCommit ∧
      ∀ p, p ∉ e.base.tree.paths ∪ r.headTree.paths ∪ e.work.paths → r'.files.get p = r.files.get p := by
  obtain ⟨hindex, -, hu⟩ := not_changed_iff.1 h
  rw [stashApply, if_neg (not_not.2 hu), hindex] at ha
  dsimp only at ha
  split at ha
  · split at ha <;> cases ha
  · rename_i t unmerged hne hm
    split at ha
    · cases ha
    · cases ha
      refine ⟨rfl, fun p hp => Tree.overlay_get_of_notMem (fun hn => hp ?_) t r.files⟩
      have hwithin := g.merging.within e.base.tree r.headTree e.work
      rw [hm] at hwithin
      rcases Finset.mem_union.1 hn with hd | hd
      · by_cases hh : p ∈ r.headTree.paths
        · exact Finset.mem_union_left _ (Finset.mem_union_right _ hh)
        · refine hwithin (Finset.mem_union_left _ ?_)
          rw [Tree.mem_diff, (r.headTree.get_eq_none_iff p).2 hh] at hd
          rw [t.mem_paths, Option.isSome_iff_ne_none]
          exact hd.symm
      · exact hwithin (Finset.mem_union_right _ hd)

end Repo

variable [DecidableEq P] [DecidableEq B]

/-- `git stash pop`: whether it succeeds; the top entry is dropped if its changes went in cleanly. -/
def Stashing.pop (g : Rules N P B M) (s : Stashing N P B M) : Bool × Stashing N P B M :=
  match s.stash with
  | [] => (false, s)
  | e :: below => match s.repo.stashApply g e with
    | .refused => (false, s)
    | .conflicted r => (false, { s with repo := r, applied := s.applied ++ [below] })
    | .done r => (true, ⟨r, below, s.applied ++ [below]⟩)

end Git
end Lib
