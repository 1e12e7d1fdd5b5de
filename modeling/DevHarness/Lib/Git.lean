import DevHarness.Lib.Tree
import Mathlib.Logic.Function.Basic
/-!
# Git — commits, one checkout, and the commands that merge into it

A commit is its content: a tree, a message and its parents.  A repository is its branches and one checkout: a HEAD, an
index, a working tree and a merge in progress.  What a merge of contents gives and what counts as a rename are parameters
(`Merger`); when `merge` refuses, what it touches, what `merge --abort` restores and what `reset --hard` destroys are
fixed here.  The rules at the end say that an aborted conflict was never begun (`mergeAbort_of_conflicted`) and what a
hard reset after merges restores (`resetHard_eq_iff`).
-/
namespace Lib
namespace Git

/-! ## Commits -/

inductive Commit (T M : Type) where
  | mk (tree : T) (message : M) (parents : List (Commit T M))

namespace Commit

variable {T M : Type}

def tree : Commit T M → T
  | .mk t _ _ => t

def parents : Commit T M → List (Commit T M)
  | .mk _ _ ps => ps

mutual

def decEq [DecidableEq T] [DecidableEq M] : (a b : Commit T M) → Decidable (a = b)
  | .mk t m ps, .mk t' m' ps' => match decEqAll ps ps' with
    | isTrue h => if h' : t = t' ∧ m = m' then isTrue (by rw [h, h'.1, h'.2])
      else isFalse (by rintro ⟨rfl, rfl, rfl⟩; exact h' ⟨rfl, rfl⟩)
    | isFalse h => isFalse (by rintro ⟨rfl, rfl, rfl⟩; exact h rfl)

def decEqAll [DecidableEq T] [DecidableEq M] : (as bs : List (Commit T M)) → Decidable (as = bs)
  | [], [] => isTrue rfl
  | [], _ :: _ => isFalse (by rintro ⟨⟩)
  | _ :: _, [] => isFalse (by rintro ⟨⟩)
  | a :: as, b :: bs => match decEq a b, decEqAll as bs with
    | isTrue h, isTrue h' => isTrue (by rw [h, h'])
    | isFalse h, _ => isFalse (by rintro ⟨rfl, rfl⟩; exact h rfl)
    | _, isFalse h => isFalse (by rintro ⟨rfl, rfl⟩; exact h rfl)

end

instance [DecidableEq T] [DecidableEq M] : DecidableEq (Commit T M) := decEq

mutual

def history : Commit T M → List (Commit T M)
  | .mk t m ps => .mk t m ps :: histories ps

def histories : List (Commit T M) → List (Commit T M)
  | [] => []
  | c :: cs => history c ++ histories cs

end

theorem self_mem_history (c : Commit T M) : c ∈ c.history := by
  cases c
  exact List.mem_cons_self

theorem mem_histories {a : Commit T M} : ∀ {cs : List (Commit T M)}, a ∈ histories cs ↔ ∃ c ∈ cs, a ∈ c.history
  | [] => by simp [histories]
  | c :: cs => by
    rw [histories, List.mem_append, mem_histories]
    simp

theorem mem_history_iff {a c : Commit T M} : a ∈ c.history ↔ a = c ∨ ∃ p ∈ c.parents, a ∈ p.history := by
  cases c with
  | mk t m ps =>
    rw [history, List.mem_cons, mem_histories]
    rfl

mutual

theorem mem_history_trans {a b : Commit T M} (hab : a ∈ b.history) : ∀ (c : Commit T M), b ∈ c.history → a ∈ c.history
  | .mk t m ps, hbc => by
    rw [history, List.mem_cons] at hbc ⊢
    rcases hbc with rfl | hbc
    · rw [history, List.mem_cons] at hab
      exact hab
    · exact Or.inr (mem_histories_trans hab ps hbc)

theorem mem_histories_trans {a b : Commit T M} (hab : a ∈ b.history) : ∀ (cs : List (Commit T M)), b ∈ histories cs →
    a ∈ histories cs
  | [], hbc => by cases hbc
  | c :: cs, hbc => by
    rw [histories, List.mem_append] at hbc ⊢
    rcases hbc with h | h
    · exact Or.inl (mem_history_trans hab c h)
    · exact Or.inr (mem_histories_trans hab cs h)

end

theorem mem_history_of_parent {a p c : Commit T M} (hp : p ∈ c.parents) (ha : a ∈ p.history) : a ∈ c.history :=
  mem_history_iff.2 (Or.inr ⟨p, hp, ha⟩)

mutual

theorem eq_or_sizeOf_lt {a : Commit T M} : ∀ (c : Commit T M), a ∈ c.history → a = c ∨ sizeOf a < sizeOf c
  | .mk t m ps, h => by
    rw [history, List.mem_cons] at h
    rcases h with rfl | h
    · exact Or.inl rfl
    · refine Or.inr (Nat.lt_trans (sizeOf_lt_of_mem_histories ps h) ?_)
      simp

theorem sizeOf_lt_of_mem_histories {a : Commit T M} : ∀ (cs : List (Commit T M)), a ∈ histories cs → sizeOf a < sizeOf cs
  | [], h => by cases h
  | c :: cs, h => by
    rw [histories, List.mem_append] at h
    rcases h with h | h
    · have hc : sizeOf a ≤ sizeOf c := (eq_or_sizeOf_lt c h).elim (fun he => he ▸ Nat.le_refl _) Nat.le_of_lt
      rw [List.cons.sizeOf_spec]
      omega
    · have hcs := sizeOf_lt_of_mem_histories cs h
      rw [List.cons.sizeOf_spec]
      omega

end

theorem eq_of_mem_history {a b : Commit T M} (hab : a ∈ b.history) (hba : b ∈ a.history) : a = b := by
  rcases eq_or_sizeOf_lt b hab with h | h
  · exact h
  · rcases eq_or_sizeOf_lt a hba with h' | h'
    · exact h'.symm
    · omega

variable [DecidableEq T] [DecidableEq M]

/-- The common ancestors no other common ancestor reaches. -/
def mergeBases (a b : Commit T M) : List (Commit T M) :=
  let common := a.history.filter (fun c => c ∈ b.history)
  common.filter (fun c => common.all (fun d => decide (c ∉ d.history) || decide (c = d)))

theorem mem_mergeBases_iff {a b c : Commit T M} : c ∈ a.mergeBases b ↔ (c ∈ a.history ∧ c ∈ b.history) ∧
    ∀ d, d ∈ a.history → d ∈ b.history → c ∈ d.history → c = d := by
  simp only [mergeBases, List.mem_filter, List.all_eq_true, Bool.or_eq_true, decide_eq_true_eq]
  constructor
  · rintro ⟨hc, hall⟩
    exact ⟨hc, fun d hda hdb hcd => (hall d ⟨hda, hdb⟩).resolve_left (not_not.2 hcd)⟩
  · rintro ⟨hc, hall⟩
    refine ⟨hc, fun d hd => ?_⟩
    by_cases hcd : c ∈ d.history
    · exact Or.inr (hall d hd.1 hd.2 hcd)
    · exact Or.inl hcd

theorem mem_mergeBases_of_reach {a b : Commit T M} (h : b ∈ a.history) : b ∈ a.mergeBases b ∧ b ∈ b.mergeBases a := by
  rw [mem_mergeBases_iff, mem_mergeBases_iff]
  exact ⟨⟨⟨h, b.self_mem_history⟩, fun d _ hd hb => eq_of_mem_history hb hd⟩,
    ⟨b.self_mem_history, h⟩, fun d hd _ hb => eq_of_mem_history hb hd⟩

end Commit

/-! ## A repository -/

variable {N P B M : Type}

inductive Head (N P B M : Type) where
  | branch (name : N)
  | detached (c : Commit (Tree P B) M)

/-- Branches and one checkout. -/
@[ext] structure Repo (N P B M : Type) where
  branches : N → Option (Commit (Tree P B) M)
  head : Head N P B M
  index : Tree P B
  -- The paths with a conflict not yet resolved.
  unmerged : Finset P
  mergeHead : Option (Commit (Tree P B) M)
  files : Tree P B

/-- A three-way merge of contents: a tree, or a tree with its conflicts written into it. -/
inductive ThreeWay (P B : Type) where
  | clean (tree : Tree P B)
  | conflict (tree : Tree P B) (unmerged : Finset P) (nonempty : unmerged.Nonempty)

structure Merger (N P B M : Type) where
  threeWay : Commit (Tree P B) M → Commit (Tree P B) M → ThreeWay P B
  message : Head N P B M → N → M
  -- The old names of files moved between two commits: a listing by name leaves them out.
  renamed : Commit (Tree P B) M → Commit (Tree P B) M → Finset P

inductive MergeOutcome (N P B M : Type) where
  | done (r : Repo N P B M)
  | refused
  | conflicted (r : Repo N P B M)

namespace Repo

variable [DecidableEq N]

def headCommit (r : Repo N P B M) : Option (Commit (Tree P B) M) :=
  match r.head with
  | .branch n => r.branches n
  | .detached c => some c

/-- HEAD, or the branch it is on, moved to a commit. -/
def setHead (r : Repo N P B M) (c : Commit (Tree P B) M) : Repo N P B M :=
  match r.head with
  | .branch n => { r with branches := Function.update r.branches n (some c) }
  | .detached _ => { r with head := .detached c }

theorem headCommit_setHead (r : Repo N P B M) (c : Commit (Tree P B) M) : (r.setHead c).headCommit = some c := by
  unfold setHead
  cases hh : r.head with
  | branch n => simp [headCommit]
  | detached d => simp [headCommit]

theorem setHead_setHead (r : Repo N P B M) (c d : Commit (Tree P B) M) : (r.setHead c).setHead d = r.setHead d := by
  unfold setHead
  cases hh : r.head with
  | branch n => simp
  | detached e => simp

theorem setHead_self {r : Repo N P B M} {c : Commit (Tree P B) M} (h : r.headCommit = some c) : r.setHead c = r := by
  obtain ⟨branches, head, index, unmerged, mergeHead, files⟩ := r
  cases head with
  | branch n =>
    have hn : branches n = some c := h
    simp [setHead, ← hn]
  | detached d =>
    have hd : some d = some c := h
    cases hd
    rfl

theorem setHead_congr {r s : Repo N P B M} (hh : r.head = s.head) (hb : r.branches = s.branches)
    (c : Commit (Tree P B) M) : (r.setHead c).head = (s.setHead c).head ∧ (r.setHead c).branches = (s.setHead c).branches := by
  unfold setHead
  rw [← hh, ← hb]
  cases r.head <;> exact ⟨rfl, rfl⟩

theorem setHead_rest (r : Repo N P B M) (c : Commit (Tree P B) M) : (r.setHead c).index = r.index ∧
    (r.setHead c).unmerged = r.unmerged ∧ (r.setHead c).mergeHead = r.mergeHead ∧ (r.setHead c).files = r.files := by
  unfold setHead
  cases r.head <;> exact ⟨rfl, rfl, rfl, rfl⟩

/-- **Only HEAD moves**: a branch it is not on stays. -/
theorem setHead_branches {r : Repo N P B M} {name : N} (hn : r.head ≠ .branch name) (c : Commit (Tree P B) M) :
    (r.setHead c).branches name = r.branches name ∧ (r.setHead c).head ≠ .branch name := by
  unfold setHead
  cases hh : r.head with
  | branch n =>
    rw [hh] at hn
    exact ⟨Function.update_of_ne (fun he => hn (by rw [he])) _ _, hn⟩
  | detached d => exact ⟨rfl, by simp⟩

/-! ## Merging -/

variable [DecidableEq P] [DecidableEq B] [DecidableEq M]

/-- Index and working tree are HEAD's on these paths. -/
def Clean (r : Repo N P B M) (h : Commit (Tree P B) M) (on : Finset P) : Prop :=
  ∀ p ∈ on, r.index.get p = h.tree.get p ∧ r.files.get p = h.tree.get p

instance (r : Repo N P B M) (h : Commit (Tree P B) M) (on : Finset P) : Decidable (r.Clean h on) :=
  inferInstanceAs (Decidable (∀ p ∈ on, _))

/-- A checkout of `c` that touches only the paths given. -/
def moveTo (r : Repo N P B M) (c : Commit (Tree P B) M) (on : Finset P) : Repo N P B M :=
  { r.setHead c with
    index := Tree.overlay on c.tree r.index
    files := Tree.overlay on c.tree r.files }

def mergeContents (r : Repo N P B M) (h t : Commit (Tree P B) M) (msg : M) : ThreeWay P B → MergeOutcome N P B M
  | .clean tree =>
    if r.Clean h (Tree.diff h.tree tree) then .done (r.moveTo (.mk tree msg [h, t]) (Tree.diff h.tree tree)) else .refused
  | .conflict tree unmerged _ =>
    if r.Clean h (Tree.diff h.tree tree ∪ unmerged) then .conflicted { r with
      index := Tree.overlay (Tree.diff h.tree tree ∪ unmerged) tree r.index
      files := Tree.overlay (Tree.diff h.tree tree ∪ unmerged) tree r.files
      unmerged := unmerged
      mergeHead := some t } else .refused

/-- `git merge --no-edit name`: refused while a merge is unfinished; up to date, a fast-forward, or a merge of contents,
which wants an index that is HEAD's; never over a local change. -/
def merge (m : Merger N P B M) (r : Repo N P B M) (name : N) : MergeOutcome N P B M :=
  match r.headCommit, r.branches name with
  | some h, some t =>
    if r.mergeHead.isSome ∨ r.unmerged.Nonempty then .refused
    else if t ∈ h.history then .done r
    else if h ∈ t.history then
      if r.Clean h (Tree.diff h.tree t.tree) then .done (r.moveTo t (Tree.diff h.tree t.tree)) else .refused
    else if h.mergeBases t = [] ∨ r.index ≠ h.tree then .refused
    else r.mergeContents h t (m.message r.head name) (m.threeWay h t)
  | _, _ => .refused

def mergeAll (m : Merger N P B M) : Repo N P B M → List N → Option (Repo N P B M)
  | r, [] => some r
  | r, name :: names => match r.merge m name with
    | .done r' => mergeAll m r' names
    | _ => none

/-- The paths `merge --abort` puts back. -/
def staged (r : Repo N P B M) (h : Commit (Tree P B) M) : Finset P := Tree.diff h.tree r.index ∪ r.unmerged

/-- `git merge --abort`: index and touched files back to HEAD's; `none` with no merge in progress, or with an edit on top
of a staged file. -/
def mergeAbort (r : Repo N P B M) : Option (Repo N P B M) :=
  match r.headCommit, r.mergeHead with
  | some h, some _ =>
    if ∃ p ∈ Tree.diff h.tree r.index, p ∉ r.unmerged ∧ r.files.get p ≠ r.index.get p then none
    else some { r with
      index := h.tree
      files := Tree.overlay (r.staged h) h.tree r.files
      unmerged := ∅
      mergeHead := none }
  | _, _ => none

/-- `git reset --hard c`: every path that is tracked, or tracked in `c`, is `c`'s. -/
def resetHard (r : Repo N P B M) (c : Commit (Tree P B) M) : Repo N P B M :=
  { r.setHead c with
    index := c.tree
    files := Tree.overlay (r.index.paths ∪ r.unmerged ∪ c.tree.paths) c.tree r.files
    unmerged := ∅
    mergeHead := none }

/-- `git merge-base`: the first of the best common ancestors. -/
def mergeBase (r : Repo N P B M) (name : N) : Option (Commit (Tree P B) M) :=
  match r.headCommit, r.branches name with
  | some h, some t => (h.mergeBases t).head?
  | _, _ => none

/-! ## What a merge does -/

/-- **What a merge can do**: refuse; or, with none unfinished, find itself up to date, fast-forward to a branch that
reaches HEAD, or merge contents with a branch that shares a commit, from an index that is HEAD's. -/
theorem merge_cases (m : Merger N P B M) (r : Repo N P B M) (name : N) : r.merge m name = .refused ∨
    ∃ h₀ t, r.headCommit = some h₀ ∧ r.branches name = some t ∧ r.mergeHead = none ∧ r.unmerged = ∅ ∧
      ((t ∈ h₀.history ∧ r.merge m name = .done r) ∨
        (h₀ ∈ t.history ∧ r.Clean h₀ (Tree.diff h₀.tree t.tree) ∧
          r.merge m name = .done (r.moveTo t (Tree.diff h₀.tree t.tree))) ∨
        (h₀.mergeBases t ≠ [] ∧ r.index = h₀.tree ∧
          r.merge m name = r.mergeContents h₀ t (m.message r.head name) (m.threeWay h₀ t))) := by
  unfold merge
  cases hh : r.headCommit with
  | none => exact Or.inl rfl
  | some h₀ =>
    cases ht : r.branches name with
    | none => exact Or.inl rfl
    | some t =>
      dsimp only
      by_cases hbusy : r.mergeHead.isSome ∨ r.unmerged.Nonempty
      · exact Or.inl (if_pos hbusy)
      · rw [if_neg hbusy]
        rw [not_or, Bool.not_eq_true, Option.isSome_eq_false_iff, Option.isNone_iff_eq_none,
          Finset.not_nonempty_iff_eq_empty] at hbusy
        by_cases hup : t ∈ h₀.history
        · rw [if_pos hup]
          exact Or.inr ⟨h₀, t, rfl, rfl, hbusy.1, hbusy.2, Or.inl ⟨hup, rfl⟩⟩
        · rw [if_neg hup]
          by_cases hff : h₀ ∈ t.history
          · rw [if_pos hff]
            by_cases hclean : r.Clean h₀ (Tree.diff h₀.tree t.tree)
            · rw [if_pos hclean]
              exact Or.inr ⟨h₀, t, rfl, rfl, hbusy.1, hbusy.2, Or.inr (Or.inl ⟨hff, hclean, rfl⟩)⟩
            · exact Or.inl (if_neg hclean)
          · rw [if_neg hff]
            by_cases hready : h₀.mergeBases t = [] ∨ r.index ≠ h₀.tree
            · exact Or.inl (if_pos hready)
            · rw [if_neg hready]
              rw [not_or, not_not] at hready
              exact Or.inr ⟨h₀, t, rfl, rfl, hbusy.1, hbusy.2, Or.inr (Or.inr ⟨hready.1, hready.2, rfl⟩)⟩

omit [DecidableEq M] in
theorem mergeContents_eq_done {r r' : Repo N P B M} {h t : Commit (Tree P B) M} {msg : M} {contents : ThreeWay P B}
    (hm : r.mergeContents h t msg contents = .done r') : ∃ tree,
      r' = r.moveTo (.mk tree msg [h, t]) (Tree.diff h.tree tree) ∧ r.Clean h (Tree.diff h.tree tree) := by
  cases contents with
  | clean tree =>
    rw [mergeContents] at hm
    split at hm
    · rename_i hclean
      cases hm
      exact ⟨tree, rfl, hclean⟩
    · cases hm
  | conflict tree unmerged hne =>
    rw [mergeContents] at hm
    split at hm <;> cases hm

omit [DecidableEq M] in
theorem mergeContents_eq_conflicted {r r' : Repo N P B M} {h t : Commit (Tree P B) M} {msg : M}
    {contents : ThreeWay P B} (hm : r.mergeContents h t msg contents = .conflicted r') : ∃ tree unmerged,
      unmerged.Nonempty ∧ r.Clean h (Tree.diff h.tree tree ∪ unmerged) ∧ r' = { r with
        index := Tree.overlay (Tree.diff h.tree tree ∪ unmerged) tree r.index
        files := Tree.overlay (Tree.diff h.tree tree ∪ unmerged) tree r.files
        unmerged := unmerged
        mergeHead := some t } := by
  cases contents with
  | clean tree =>
    rw [mergeContents] at hm
    split at hm <;> cases hm
  | conflict tree unmerged hne =>
    rw [mergeContents] at hm
    split at hm
    · rename_i hclean
      cases hm
      exact ⟨tree, unmerged, hne, hclean, rfl⟩
    · cases hm

/-- **A merge that succeeds** finds no merge unfinished and leaves HEAD where it reaches the branch: where it was, or at a
commit whose changed paths were clean. -/
theorem merge_eq_done {m : Merger N P B M} {r r' : Repo N P B M} {name : N} (h : r.merge m name = .done r') :
    ∃ h₀ t, r.headCommit = some h₀ ∧ r.branches name = some t ∧ r.mergeHead = none ∧ r.unmerged = ∅ ∧
      ((r' = r ∧ t ∈ h₀.history) ∨
        ∃ c, r' = r.moveTo c (Tree.diff h₀.tree c.tree) ∧ r.Clean h₀ (Tree.diff h₀.tree c.tree) ∧
          h₀ ∈ c.history ∧ t ∈ c.history) := by
  rcases merge_cases m r name with hrefused | ⟨h₀, t, hh, ht, hmh, hum, hcase⟩
  · rw [hrefused] at h
    cases h
  · refine ⟨h₀, t, hh, ht, hmh, hum, ?_⟩
    rcases hcase with ⟨hup, hdone⟩ | ⟨hff, hclean, hdone⟩ | ⟨-, -, hcontents⟩
    · rw [hdone] at h
      cases h
      exact Or.inl ⟨rfl, hup⟩
    · rw [hdone] at h
      cases h
      exact Or.inr ⟨t, rfl, hclean, hff, t.self_mem_history⟩
    · rw [hcontents] at h
      obtain ⟨tree, rfl, hclean⟩ := mergeContents_eq_done h
      refine Or.inr ⟨_, rfl, hclean, ?_, ?_⟩
      · exact Commit.mem_history_of_parent (p := h₀) (by simp [Commit.parents]) h₀.self_mem_history
      · exact Commit.mem_history_of_parent (p := t) (by simp [Commit.parents]) t.self_mem_history

/-- On an unborn branch nothing merges. -/
theorem mergeAll_cons_of_unborn {m : Merger N P B M} {r : Repo N P B M} (h : r.headCommit = none) (name : N)
    (names : List N) : r.mergeAll m (name :: names) = none := by
  have hrefused : r.merge m name = .refused := by rw [merge, h]
  rw [mergeAll, hrefused]

/-- A merge that is not refused has a merge base. -/
theorem mergeBase_of_merge {m : Merger N P B M} {r : Repo N P B M} {name : N} {outcome : MergeOutcome N P B M}
    (h : r.merge m name = outcome) (hne : outcome ≠ .refused) : r.mergeBase name ≠ none := by
  obtain ⟨h₀, t, hh, ht, -, -, hcase⟩ := (merge_cases m r name).resolve_left (h ▸ hne)
  unfold mergeBase
  rw [hh, ht]
  dsimp only
  rw [Ne, List.head?_eq_none_iff]
  rcases hcase with ⟨hup, -⟩ | ⟨hff, -, -⟩ | ⟨hbases, -, -⟩
  · exact List.ne_nil_of_mem (Commit.mem_mergeBases_of_reach hup).1
  · exact List.ne_nil_of_mem (Commit.mem_mergeBases_of_reach hff).2
  · exact hbases

omit [DecidableEq N] in
/-- The base with a branch HEAD reaches is the branch. -/
theorem mergeBase_of_reach {r : Repo N P B M} {name : N} {h t : Commit (Tree P B) M} (hh : r.headCommit = some h)
    (ht : r.branches name = some t) (hreach : t ∈ h.history) : r.mergeBase name = some t := by
  have hall : ∀ c ∈ h.mergeBases t, c = t := fun c hc =>
    (Commit.mem_mergeBases_iff.1 hc).2 t hreach t.self_mem_history (Commit.mem_mergeBases_iff.1 hc).1.2
  unfold mergeBase
  rw [hh, ht]
  dsimp only
  cases hbases : h.mergeBases t with
  | nil =>
    have hmem := (Commit.mem_mergeBases_of_reach hreach).1
    rw [hbases] at hmem
    cases hmem
  | cons c cs =>
    rw [hbases] at hall
    exact congrArg some (hall c List.mem_cons_self)

/-- HEAD reaches the branch. -/
def Reached (r : Repo N P B M) (name : N) : Prop :=
  ∃ h t, r.headCommit = some h ∧ r.branches name = some t ∧ t ∈ h.history

omit [DecidableEq P] [DecidableEq B] [DecidableEq M] in
/-- A branch that HEAD reached, or that the commit HEAD moves to reaches, is reached after the move. -/
theorem reached_setHead {r : Repo N P B M} {name : N} {c t : Commit (Tree P B) M} (ht : r.branches name = some t)
    (hreach : t ∈ c.history) : (r.setHead c).Reached name := by
  refine ⟨c, ?_⟩
  by_cases hn : r.head = .branch name
  · refine ⟨c, headCommit_setHead r c, ?_, c.self_mem_history⟩
    simp [setHead, hn]
  · refine ⟨t, headCommit_setHead r c, ?_, hreach⟩
    rw [(setHead_branches hn c).1]
    exact ht

/-- **Merged once, reached from then on**: a merge leaves HEAD where it reaches the branch, and every branch it reached
before. -/
theorem reached_of_merge {m : Merger N P B M} {r r' : Repo N P B M} {name : N} (hm : r.merge m name = .done r') :
    r'.Reached name ∧ ∀ other, r.Reached other → r'.Reached other := by
  obtain ⟨h, t, hh, ht, -, -, hcase⟩ := merge_eq_done hm
  rcases hcase with ⟨rfl, hup⟩ | ⟨c, rfl, -, hhc, htc⟩
  · exact ⟨⟨h, t, hh, ht, hup⟩, fun _ hreached => hreached⟩
  · refine ⟨reached_setHead ht htc, fun other hreached => ?_⟩
    obtain ⟨h', t', hh', ht', hreach⟩ := hreached
    rw [hh] at hh'
    cases hh'
    exact reached_setHead ht' (Commit.mem_history_trans hreach c hhc)

/-- **A merge that conflicts** finds no merge unfinished, an index that is HEAD's, and clean paths wherever it writes. -/
theorem merge_eq_conflicted {m : Merger N P B M} {r r' : Repo N P B M} {name : N} (h : r.merge m name = .conflicted r') :
    ∃ h₀ t tree unmerged, r.headCommit = some h₀ ∧ r.branches name = some t ∧ r.mergeHead = none ∧ r.unmerged = ∅ ∧
      r.index = h₀.tree ∧ unmerged.Nonempty ∧ r.Clean h₀ (Tree.diff h₀.tree tree ∪ unmerged) ∧
      r' = { r with
        index := Tree.overlay (Tree.diff h₀.tree tree ∪ unmerged) tree r.index
        files := Tree.overlay (Tree.diff h₀.tree tree ∪ unmerged) tree r.files
        unmerged := unmerged
        mergeHead := some t } := by
  rcases merge_cases m r name with hrefused | ⟨h₀, t, hh, ht, hmh, hum, hcase⟩
  · rw [hrefused] at h
    cases h
  · rcases hcase with ⟨-, hdone⟩ | ⟨-, -, hdone⟩ | ⟨-, hindex, hcontents⟩
    · rw [hdone] at h
      cases h
    · rw [hdone] at h
      cases h
    · rw [hcontents] at h
      obtain ⟨tree, unmerged, hne, hclean, he⟩ := mergeContents_eq_conflicted h
      exact ⟨h₀, t, tree, unmerged, hh, ht, hmh, hum, hindex, hne, hclean, he⟩

theorem merge_branches {m : Merger N P B M} {r r' : Repo N P B M} {name branch : N} (hn : r.head ≠ .branch branch)
    (h : r.merge m name = .done r') : r'.branches branch = r.branches branch ∧ r'.head ≠ .branch branch := by
  obtain ⟨h₀, t, -, -, -, -, hcase⟩ := merge_eq_done h
  rcases hcase with ⟨rfl, -⟩ | ⟨c, rfl, -⟩
  · exact ⟨rfl, hn⟩
  · exact setHead_branches hn c

theorem merge_conflicted_refs {m : Merger N P B M} {r r' : Repo N P B M} {name : N}
    (h : r.merge m name = .conflicted r') : r'.branches = r.branches ∧ r'.head = r.head := by
  obtain ⟨-, -, -, -, -, -, -, -, -, -, -, rfl⟩ := merge_eq_conflicted h
  exact ⟨rfl, rfl⟩

omit [DecidableEq N] [DecidableEq M] in
theorem mergeAbort_refs {r r' : Repo N P B M} (h : r.mergeAbort = some r') :
    r'.branches = r.branches ∧ r'.head = r.head := by
  unfold mergeAbort at h
  split at h
  · split at h
    · cases h
    · cases h
      exact ⟨rfl, rfl⟩
  · cases h

/-- **Aborting a conflict restores what was there before the merge**, local edits included. -/
theorem mergeAbort_of_conflicted {m : Merger N P B M} {r r' : Repo N P B M} {name : N}
    (h : r.merge m name = .conflicted r') : r'.mergeAbort = some r := by
  obtain ⟨h₀, t, tree, unmerged, hh, -, hmh, hum, hindex, -, hclean, rfl⟩ := merge_eq_conflicted h
  have hmarked : unmerged ⊆ Tree.diff h₀.tree tree ∪ unmerged := Finset.subset_union_right
  generalize Tree.diff h₀.tree tree ∪ unmerged = on at hclean hmarked
  unfold mergeAbort
  have hhead : headCommit { r with
      index := Tree.overlay on tree r.index, files := Tree.overlay on tree r.files, unmerged := unmerged,
      mergeHead := some t } = some h₀ := hh
  rw [hhead]
  dsimp only
  rw [if_neg, Option.some.injEq]
  · have hfiles := Tree.overlay_back (b := tree) hmarked (fun p hp => (hclean p hp).2)
    ext1
    · rfl
    · rfl
    · exact hindex.symm
    · exact hum.symm
    · exact hmh.symm
    · rw [staged, hindex]
      exact hfiles
  · rintro ⟨p, hp, -, hne⟩
    rw [hindex] at hp
    have hpo := Tree.mem_of_mem_diff_overlay hp
    rw [Tree.overlay_get_of_mem hpo, Tree.overlay_get_of_mem hpo] at hne
    exact hne rfl

/-! ## Merges from a start, and a reset to it -/

/-- **A repository some merges on from `start`**: HEAD has moved on from `h₀` to `h`, and a path is either as it was, or
was clean and is clean. -/
structure Advanced (start : Repo N P B M) (h₀ : Commit (Tree P B) M) (r : Repo N P B M) (h : Commit (Tree P B) M) : Prop where
  startHead : start.headCommit = some h₀
  headRefs : r.head = (start.setHead h).head ∧ r.branches = (start.setHead h).branches
  merging : r.unmerged = start.unmerged ∧ r.mergeHead = start.mergeHead
  ancestor : h₀ ∈ h.history
  paths : ∀ p, ((start.index.get p = h₀.tree.get p ∧ start.files.get p = h₀.tree.get p) ∧
      r.index.get p = h.tree.get p ∧ r.files.get p = h.tree.get p) ∨
    (h.tree.get p = h₀.tree.get p ∧ r.index.get p = start.index.get p ∧ r.files.get p = start.files.get p)

omit [DecidableEq P] [DecidableEq B] [DecidableEq M] in
theorem Advanced.refl {start : Repo N P B M} {h₀ : Commit (Tree P B) M} (h : start.headCommit = some h₀) :
    Advanced start h₀ start h₀ := by
  refine ⟨h, ?_, ⟨rfl, rfl⟩, h₀.self_mem_history, fun p => Or.inr ⟨rfl, rfl, rfl⟩⟩
  rw [setHead_self h]
  exact ⟨rfl, rfl⟩

omit [DecidableEq P] [DecidableEq B] [DecidableEq M] in
theorem Advanced.head {start r : Repo N P B M} {h₀ h : Commit (Tree P B) M} (ha : Advanced start h₀ r h) :
    r.headCommit = some h := by
  have hset := headCommit_setHead start h
  unfold headCommit at hset ⊢
  rw [ha.headRefs.1, ha.headRefs.2]
  exact hset

omit [DecidableEq M] in
theorem Advanced.moveTo {start r : Repo N P B M} {h₀ h c : Commit (Tree P B) M} (ha : Advanced start h₀ r h)
    (hclean : r.Clean h (Tree.diff h.tree c.tree)) (hanc : h ∈ c.history) :
    Advanced start h₀ (r.moveTo c (Tree.diff h.tree c.tree)) c := by
  have hset := setHead_congr ha.headRefs.1 ha.headRefs.2 c
  rw [setHead_setHead] at hset
  obtain ⟨-, hu, hm, -⟩ := r.setHead_rest c
  refine ⟨ha.startHead, hset, ⟨hu.trans ha.merging.1, hm.trans ha.merging.2⟩,
    Commit.mem_history_trans ha.ancestor c hanc, fun p => ?_⟩
  show ((_ ∧ _) ∧ (Tree.overlay _ c.tree r.index).get p = _ ∧ (Tree.overlay _ c.tree r.files).get p = _) ∨
    (_ ∧ (Tree.overlay _ c.tree r.index).get p = _ ∧ (Tree.overlay _ c.tree r.files).get p = _)
  by_cases hp : p ∈ Tree.diff h.tree c.tree
  · -- a touched path was clean
    rw [Tree.overlay_get_of_mem hp, Tree.overlay_get_of_mem hp]
    obtain ⟨hi, hf⟩ := hclean p hp
    rcases ha.paths p with ⟨hs, -⟩ | ⟨hh, hri, hrf⟩
    · exact Or.inl ⟨hs, rfl, rfl⟩
    · refine Or.inl ⟨⟨?_, ?_⟩, rfl, rfl⟩
      · rw [← hri, hi, hh]
      · rw [← hrf, hf, hh]
  · rw [Tree.overlay_get_of_notMem hp, Tree.overlay_get_of_notMem hp]
    have hsame : h.tree.get p = c.tree.get p := by
      by_contra hne
      exact hp (Tree.mem_diff.2 hne)
    rw [← hsame]
    exact ha.paths p

omit [DecidableEq P] [DecidableEq B] [DecidableEq M] in
theorem Advanced.branch {start r : Repo N P B M} {h₀ h t : Commit (Tree P B) M} (ha : Advanced start h₀ r h) {name : N}
    (ht : r.branches name = some t) : ∃ t₀, start.branches name = some t₀ ∧ t₀ ∈ t.history := by
  rw [ha.headRefs.2] at ht
  unfold setHead at ht
  cases hh : start.head with
  | branch n =>
    rw [hh] at ht
    dsimp only at ht
    by_cases hn : name = n
    · have hstart := ha.startHead
      rw [hn, Function.update_self] at ht
      cases ht
      rw [headCommit, hh] at hstart
      exact ⟨h₀, hn ▸ hstart, ha.ancestor⟩
    · rw [Function.update_of_ne hn] at ht
      exact ⟨t, ht, t.self_mem_history⟩
  | detached d =>
    rw [hh] at ht
    exact ⟨t, ht, t.self_mem_history⟩

/-- **One more merge**: HEAD reaches where it was and the branch that was merged. -/
theorem Advanced.merge {start r r' : Repo N P B M} {h₀ h : Commit (Tree P B) M} (ha : Advanced start h₀ r h)
    {m : Merger N P B M} {name : N} (hm : r.merge m name = .done r') :
    ∃ h', Advanced start h₀ r' h' ∧ h ∈ h'.history ∧ ∃ t, start.branches name = some t ∧ t ∈ h'.history := by
  obtain ⟨h₁, t, hh, ht, -, -, hcase⟩ := merge_eq_done hm
  rw [ha.head] at hh
  cases hh
  obtain ⟨t₀, hstart, htt⟩ := ha.branch ht
  rcases hcase with ⟨rfl, hup⟩ | ⟨c, rfl, hclean, hhc, htc⟩
  · exact ⟨h, ha, h.self_mem_history, t₀, hstart, Commit.mem_history_trans htt h hup⟩
  · exact ⟨c, ha.moveTo hclean hhc, hhc, t₀, hstart, Commit.mem_history_trans htt c htc⟩

/-- **Merges in a row**: HEAD reaches every branch that was merged. -/
theorem Advanced.mergeAll {start : Repo N P B M} {h₀ : Commit (Tree P B) M} {m : Merger N P B M} :
    ∀ (names : List N) {r r' : Repo N P B M} {h : Commit (Tree P B) M}, Advanced start h₀ r h →
      r.mergeAll m names = some r' → ∃ h', Advanced start h₀ r' h' ∧ h ∈ h'.history ∧
        ∀ name ∈ names, ∃ t, start.branches name = some t ∧ t ∈ h'.history
  | [], r, r', h, ha, hm => by
    cases hm
    exact ⟨h, ha, h.self_mem_history, fun name hn => by cases hn⟩
  | name :: names, r, r', h, ha, hm => by
    rw [Repo.mergeAll] at hm
    cases hmerge : r.merge m name with
    | refused => rw [hmerge] at hm; cases hm
    | conflicted r₁ => rw [hmerge] at hm; cases hm
    | done r₁ =>
      rw [hmerge] at hm
      obtain ⟨h₁, ha₁, hh₁, t, hstart, ht⟩ := ha.merge hmerge
      obtain ⟨h', ha', hh', hall⟩ := Advanced.mergeAll names ha₁ hm
      refine ⟨h', ha', Commit.mem_history_trans hh₁ h' hh', fun n hn => ?_⟩
      rcases List.mem_cons.1 hn with rfl | hn
      · exact ⟨t, hstart, Commit.mem_history_trans ht h' hh'⟩
      · exact hall n hn

omit [DecidableEq P] [DecidableEq B] [DecidableEq M] in
/-- **Nothing has changed exactly when HEAD has not moved.** -/
theorem Advanced.eq_iff {start r : Repo N P B M} {h₀ h : Commit (Tree P B) M} (ha : Advanced start h₀ r h) :
    r = start ↔ h = h₀ := by
  constructor
  · intro he
    have hhead := ha.head
    rw [he, ha.startHead] at hhead
    exact (Option.some.inj hhead).symm
  · rintro rfl
    have hrefs := ha.headRefs
    rw [setHead_self ha.startHead] at hrefs
    ext1
    · exact hrefs.2
    · exact hrefs.1
    · ext1 p
      rcases ha.paths p with ⟨⟨hs, -⟩, hi, -⟩ | ⟨-, hi, -⟩
      · rw [hi, hs]
      · exact hi
    · exact ha.merging.1
    · exact ha.merging.2
    · ext1 p
      rcases ha.paths p with ⟨⟨-, hs⟩, -, hf⟩ | ⟨-, -, hf⟩
      · rw [hf, hs]
      · exact hf

def TrackedClean (r : Repo N P B M) (h : Commit (Tree P B) M) : Prop := ∀ p ∈ h.tree.paths, r.files.get p = h.tree.get p

instance (r : Repo N P B M) (h : Commit (Tree P B) M) : Decidable (r.TrackedClean h) :=
  inferInstanceAs (Decidable (∀ p ∈ h.tree.paths, _))

omit [DecidableEq B] [DecidableEq M] in
/-- **A hard reset to the start, after merges and with an index that is HEAD's, gives the start back exactly when no
tracked file was edited there.** -/
theorem resetHard_eq_iff {start r : Repo N P B M} {h₀ h : Commit (Tree P B) M} (ha : Advanced start h₀ r h)
    (hindex : r.index = h.tree) (hunmerged : r.unmerged = ∅) (hmerge : r.mergeHead = none) :
    r.resetHard h₀ = start ↔ start.TrackedClean h₀ := by
  have hset := setHead_congr ha.headRefs.1 ha.headRefs.2 h₀
  rw [setHead_setHead, setHead_self ha.startHead] at hset
  have hstartIndex : start.index = h₀.tree := by
    ext1 p
    rcases ha.paths p with ⟨⟨hs, -⟩, -⟩ | ⟨hh, hi, -⟩
    · exact hs
    · rw [← hi, hindex, hh]
  -- off the tracked paths the reset keeps the file, and the file is the start's
  have hfiles : ∀ p, (r.resetHard h₀).files.get p = if p ∈ h₀.tree.paths then h₀.tree.get p else start.files.get p := by
    intro p
    show (Tree.overlay _ h₀.tree r.files).get p = _
    rw [Tree.overlay_get]
    by_cases hp : p ∈ h₀.tree.paths
    · rw [if_pos hp, if_pos (Finset.mem_union_right _ hp)]
    · have hnone : h₀.tree.get p = none := (h₀.tree.get_eq_none_iff p).2 hp
      rw [if_neg hp]
      by_cases hq : p ∈ r.index.paths
      · rw [if_pos (Finset.mem_union_left _ (Finset.mem_union_left _ hq)), hnone]
        have hsome : h.tree.get p ≠ none := by
          intro hn
          exact (h.tree.get_eq_none_iff p).1 hn (hindex ▸ hq)
        rcases ha.paths p with ⟨⟨-, hs⟩, -⟩ | ⟨hh, -⟩
        · rw [hs, hnone]
        · rw [hh] at hsome
          exact absurd hnone hsome
      · rw [if_neg (by simp [hq, hunmerged, hp])]
        have hno : h.tree.get p = none := (h.tree.get_eq_none_iff p).2 (hindex ▸ hq)
        rcases ha.paths p with ⟨⟨-, hs⟩, -, hf⟩ | ⟨-, -, hf⟩
        · rw [hf, hno, hs, hnone]
        · exact hf
  constructor
  · intro he p hp
    rw [← he, hfiles p, if_pos hp]
  · intro hclean
    ext1
    · exact hset.2
    · exact hset.1
    · exact hstartIndex.symm
    · exact (hunmerged.symm.trans ha.merging.1)
    · exact (hmerge.symm.trans ha.merging.2)
    · ext1 p
      rw [hfiles p]
      by_cases hp : p ∈ h₀.tree.paths
      · rw [if_pos hp, hclean p hp]
      · rw [if_neg hp]

end Repo
end Git
end Lib
