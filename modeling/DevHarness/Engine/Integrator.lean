import DevHarness.Contracts
import DevHarness.Lib.Git
import Mathlib.Data.Finset.Max
import Mathlib.Data.String.Basic
/-!
# Integrator — chunk branches merged one after another (`engine/integrator.py`)

`integrate` merges each chunk's branch in the order given.  Only a conflict is rolled back, by `merge --abort` and a hard
reset to where the call began: a branch that is missing, or a merge git refuses, leaves the merges before it standing,
and the hard reset takes uncommitted edits with it.  `integrate_allOrNothing_iff` says exactly when the call is all or
nothing (`Recoverable`).
-/
namespace DevHarness
namespace Engine

open Lib.Git

abbrev GitRepo (B : Type) := Repo String String B String

abbrev GitMerger (B : Type) := Merger String String B String

def chunkBranch (chunkId : String) : String := "chunk/" ++ chunkId

inductive IntegrateError where
  -- `VcsError`: the git command that failed.
  | vcs (command : String)
  | conflict (conflictFile other chunkId : String)
  deriving DecidableEq, Repr

def IntegrateError.message : IntegrateError → String
  | .vcs command => "git " ++ command ++ " failed: "
  | .conflict conflictFile other chunkId =>
    "Integration conflict on '" ++ conflictFile ++ "' between chunks '" ++ other ++ "' and '" ++ chunkId ++ "'."

namespace Integrator

variable {B : Type} [DecidableEq B]

def primaryBranch (r : GitRepo B) : String :=
  match r.head with
  | .branch n => n
  | .detached _ => "HEAD"

/-- `git diff --name-only`: the files that differ, a renamed one under its new name only. -/
def nameOnly (m : GitMerger B) (base tip : Commit (Lib.Tree String B) String) : Finset String :=
  Lib.Tree.diff base.tree tip.tree \ m.renamed base tip

/-- `_changed_files`: what the branch changed since its merge base; `none` when git finds no branch or no base. -/
def changedFiles (m : GitMerger B) (r : GitRepo B) (branch : String) : Option (Finset String) :=
  match r.mergeBase branch, r.branches branch with
  | some base, some tip => some (nameOnly m base tip)
  | _, _ => none

/-- `_other_chunk`: the first merged chunk on record for the file. -/
def otherChunk (conflictFile : String) : List (String × Finset String) → String → String
  | [], fallback => fallback
  | (chunkId, files) :: touched, fallback =>
    if conflictFile ∈ files then chunkId else otherChunk conflictFile touched fallback

/-- What `integrate` does after a `git merge` that failed. -/
def mergeFailed (startHead : Commit (Lib.Tree String B) String) (touched : List (String × Finset String)) (chunk : Chunk)
    (r : GitRepo B) : Except IntegrateError (List String) × GitRepo B :=
  if h : r.unmerged.Nonempty then
    let conflictFile := r.unmerged.min' h
    let other := otherChunk conflictFile touched (primaryBranch r)
    match r.mergeAbort with
    | none => (.error (.vcs "merge --abort"), r)
    | some r' => (.error (.conflict conflictFile other chunk.chunkId), r'.resetHard startHead)
  else (.error (.vcs ("merge " ++ chunkBranch chunk.chunkId)), r)

def integrateFrom (m : GitMerger B) (startHead : Commit (Lib.Tree String B) String) : List Chunk → List String →
    List (String × Finset String) → GitRepo B → Except IntegrateError (List String) × GitRepo B
  | [], merged, _, r => (.ok merged, r)
  | chunk :: chunks, merged, touched, r =>
    match changedFiles m r (chunkBranch chunk.chunkId) with
    | none => (.error (.vcs ("merge-base " ++ primaryBranch r ++ " " ++ chunkBranch chunk.chunkId)), r)
    | some changed =>
      match r.merge m (chunkBranch chunk.chunkId) with
      | .done r' => integrateFrom m startHead chunks (merged ++ [chunk.chunkId]) (touched ++ [(chunk.chunkId, changed)]) r'
      | .refused => mergeFailed startHead touched chunk r
      | .conflicted r' => mergeFailed startHead touched chunk r'

/-- `Integrator.integrate`: its result, and the repository it leaves. -/
def integrate (m : GitMerger B) (r : GitRepo B) (chunks : List Chunk) : Except IntegrateError (List String) × GitRepo B :=
  match r.headCommit with
  | none => (.error (.vcs "rev-parse HEAD"), r)
  | some startHead => integrateFrom m startHead chunks [] [] r

/-! ## All or nothing -/

def branchesOf (chunks : List Chunk) : List String := chunks.map (fun c => chunkBranch c.chunkId)

def RollsBack (start : GitRepo B) (res : Except IntegrateError (List String) × GitRepo B) : Prop :=
  ∀ e, res.1 = .error e → res.2 = start

def MergesAll (m : GitMerger B) (start : GitRepo B) (chunks : List Chunk)
    (res : Except IntegrateError (List String) × GitRepo B) : Prop :=
  ∀ ids, res.1 = .ok ids → ids = chunks.map Chunk.chunkId ∧ start.mergeAll m (branchesOf chunks) = some res.2 ∧
    ∃ h, res.2.headCommit = some h ∧ ∀ b ∈ branchesOf chunks, ∃ t, start.branches b = some t ∧ t ∈ h.history

/-- **All or nothing**: raised, HEAD, branches, index and working tree are as before; returned, every chunk's branch is
merged, in the order given. -/
def AllOrNothing (m : GitMerger B) (start : GitRepo B) (chunks : List Chunk) : Prop :=
  RollsBack start (integrate m start chunks) ∧ MergesAll m start chunks (integrate m start chunks)

/-- **Stopping at this branch loses nothing**: without a conflict HEAD has not moved, with one no tracked file was edited,
and a merge begun before the call cannot be aborted. -/
def StopsClean (m : GitMerger B) (start r : GitRepo B) (branch : String) : Prop :=
  if r.mergeBase branch = none then r.headCommit = start.headCommit
  else match r.merge m branch with
    | .done _ => True
    | .refused => if r.unmerged = ∅ then r.headCommit = start.headCommit else r.mergeAbort = none
    | .conflicted _ => ∀ h, start.headCommit = some h → start.TrackedClean h

/-- **Recoverable**: wherever the merges from the start can come to a stop, they stop clean. -/
def Recoverable (m : GitMerger B) (start : GitRepo B) (chunks : List Chunk) : Prop :=
  ∀ before c after r, chunks = before ++ c :: after → start.mergeAll m (branchesOf before) = some r →
    StopsClean m start r (chunkBranch c.chunkId)

theorem changedFiles_eq_none_iff {m : GitMerger B} {r : GitRepo B} {branch : String} :
    changedFiles m r branch = none ↔ r.mergeBase branch = none := by
  unfold changedFiles
  cases hb : r.mergeBase branch with
  | none => simp
  | some base =>
    cases ht : r.branches branch with
    | none => simp [Repo.mergeBase, ht] at hb
    | some tip => simp

theorem integrateFrom_ok {m : GitMerger B} {startHead : Commit (Lib.Tree String B) String} : ∀ (chunks : List Chunk)
    {merged : List String} {touched : List (String × Finset String)} {r : GitRepo B} {ids : List String},
    (integrateFrom m startHead chunks merged touched r).1 = .ok ids → ids = merged ++ chunks.map Chunk.chunkId ∧
      r.mergeAll m (branchesOf chunks) = some (integrateFrom m startHead chunks merged touched r).2
  | [], merged, touched, r, ids, h => by
    cases h
    simp [integrateFrom, branchesOf, Repo.mergeAll]
  | chunk :: chunks, merged, touched, r, ids, h => by
    have hfailed : ∀ r₁, (mergeFailed startHead touched chunk r₁).1 ≠ .ok ids := by
      intro r₁
      unfold mergeFailed
      split
      · dsimp only
        split <;> simp
      · simp
    rw [integrateFrom] at h ⊢
    cases hc : changedFiles m r (chunkBranch chunk.chunkId) with
    | none => rw [hc] at h; cases h
    | some changed =>
      rw [hc] at h
      dsimp only at h ⊢
      cases hm : r.merge m (chunkBranch chunk.chunkId) with
      | refused => rw [hm] at h; exact absurd h (hfailed r)
      | conflicted r' => rw [hm] at h; exact absurd h (hfailed r')
      | done r' =>
        rw [hm] at h
        dsimp only at h ⊢
        obtain ⟨hids, hall⟩ := integrateFrom_ok chunks h
        refine ⟨by rw [hids]; simp, ?_⟩
        rw [branchesOf, List.map_cons, Repo.mergeAll, hm]
        exact hall

theorem mergesAll_integrate (m : GitMerger B) (start : GitRepo B) (chunks : List Chunk) :
    MergesAll m start chunks (integrate m start chunks) := by
  intro ids hids
  unfold integrate at hids ⊢
  cases hh : start.headCommit with
  | none => rw [hh] at hids; cases hids
  | some h₀ =>
    rw [hh] at hids
    dsimp only at hids ⊢
    obtain ⟨hnames, hall⟩ := integrateFrom_ok chunks hids
    obtain ⟨h, ha, -, htips⟩ := Repo.Advanced.mergeAll _ (Repo.Advanced.refl hh) hall
    exact ⟨hnames, hall, h, ha.head, htips⟩

theorem mergeFailed_branches {r : GitRepo B} {b : String} (hb : r.head ≠ .branch b)
    (startHead : Commit (Lib.Tree String B) String) (touched : List (String × Finset String)) (chunk : Chunk) :
    (mergeFailed startHead touched chunk r).2.branches b = r.branches b := by
  unfold mergeFailed
  split
  · dsimp only
    split
    · rfl
    · rename_i r' habort
      obtain ⟨hbranches, hhead⟩ := Repo.mergeAbort_refs habort
      calc (r'.resetHard startHead).branches b = r'.branches b := (Repo.setHead_branches (hhead ▸ hb) startHead).1
        _ = r.branches b := by rw [hbranches]
  · rfl

theorem integrateFrom_branches (m : GitMerger B) (startHead : Commit (Lib.Tree String B) String) {b : String} :
    ∀ (chunks : List Chunk) (merged : List String) (touched : List (String × Finset String)) {r : GitRepo B},
      r.head ≠ .branch b → (integrateFrom m startHead chunks merged touched r).2.branches b = r.branches b
  | [], _, _, _, _ => rfl
  | chunk :: chunks, merged, touched, r, hb => by
    rw [integrateFrom]
    cases changedFiles m r (chunkBranch chunk.chunkId) with
    | none => rfl
    | some changed =>
      dsimp only
      cases hm : r.merge m (chunkBranch chunk.chunkId) with
      | done r' =>
        obtain ⟨hbranch, hhead⟩ := Repo.merge_branches hb hm
        exact (integrateFrom_branches m startHead chunks _ _ hhead).trans hbranch
      | refused => exact mergeFailed_branches hb startHead touched chunk
      | conflicted r' =>
        obtain ⟨hbranches, hhead⟩ := Repo.merge_conflicted_refs hm
        exact (mergeFailed_branches (hhead ▸ hb) startHead touched chunk).trans (congrFun hbranches b)

/-- **The integrator moves no branch but HEAD's**, whether it returns or raises. -/
theorem integrate_branches (m : GitMerger B) {r : GitRepo B} (chunks : List Chunk) {b : String}
    (hb : r.head ≠ .branch b) : (integrate m r chunks).2.branches b = r.branches b := by
  unfold integrate
  split
  · rfl
  · exact integrateFrom_branches m _ chunks [] [] hb

theorem stops_cons_iff {m : GitMerger B} {P : GitRepo B → String → Prop} {r : GitRepo B} {chunk : Chunk}
    {chunks : List Chunk} :
    (∀ before c after r₁, chunk :: chunks = before ++ c :: after → r.mergeAll m (branchesOf before) = some r₁ →
      P r₁ (chunkBranch c.chunkId)) ↔
    P r (chunkBranch chunk.chunkId) ∧ ∀ r', r.merge m (chunkBranch chunk.chunkId) = .done r' →
      ∀ before c after r₁, chunks = before ++ c :: after → r'.mergeAll m (branchesOf before) = some r₁ →
        P r₁ (chunkBranch c.chunkId) := by
  constructor
  · intro h
    refine ⟨h [] chunk chunks r rfl rfl, fun r' hm before c after r₁ hs hr => ?_⟩
    refine h (chunk :: before) c after r₁ (by rw [hs]; rfl) ?_
    rw [branchesOf, List.map_cons, Repo.mergeAll, hm]
    exact hr
  · rintro ⟨hhead, htail⟩ before c after r₁ hs hr
    cases before with
    | nil =>
      obtain ⟨rfl, rfl⟩ := List.cons.inj hs
      cases hr
      exact hhead
    | cons d before =>
      obtain ⟨rfl, hs'⟩ := List.cons.inj hs
      rw [branchesOf, List.map_cons, Repo.mergeAll] at hr
      cases hm : r.merge m (chunkBranch chunk.chunkId) with
      | refused => rw [hm] at hr; cases hr
      | conflicted r' => rw [hm] at hr; cases hr
      | done r' =>
        rw [hm] at hr
        exact htail r' hm before c after r₁ hs' hr

omit [DecidableEq B] in
theorem rollsBack_error_iff {start r : GitRepo B} {e : IntegrateError} : RollsBack start (.error e, r) ↔ r = start :=
  ⟨fun h => h e rfl, fun h _ _ => h⟩

theorem rollsBack_refused_iff {m : GitMerger B} {start r : GitRepo B} {h₀ h : Commit (Lib.Tree String B) String}
    (ha : Repo.Advanced start h₀ r h) (hbusy : r.unmerged.Nonempty → r = start) {chunk : Chunk}
    (hbase : r.mergeBase (chunkBranch chunk.chunkId) ≠ none) (hm : r.merge m (chunkBranch chunk.chunkId) = .refused)
    (touched : List (String × Finset String)) :
    RollsBack start (mergeFailed h₀ touched chunk r) ↔ StopsClean m start r (chunkBranch chunk.chunkId) := by
  rw [StopsClean, if_neg hbase, hm]
  dsimp only
  by_cases hu : r.unmerged = ∅
  · rw [if_pos hu, mergeFailed, dif_neg (Finset.not_nonempty_iff_eq_empty.2 hu), rollsBack_error_iff, ha.eq_iff, ha.head,
      ha.startHead, Option.some.injEq]
  · have hne : r.unmerged.Nonempty := Finset.nonempty_iff_ne_empty.2 hu
    rw [if_neg hu, mergeFailed, dif_pos hne]
    dsimp only
    cases hab : r.mergeAbort with
    | none =>
      dsimp only
      rw [rollsBack_error_iff]
      exact iff_of_true (hbusy hne) rfl
    | some r' =>
      dsimp only
      rw [rollsBack_error_iff]
      refine iff_of_false (fun he => ?_) (by simp)
      -- a reset leaves nothing unmerged
      have hempty : start.unmerged = ∅ := by rw [← he]; rfl
      rw [ha.merging.1] at hu
      exact hu hempty

theorem rollsBack_conflicted_iff {m : GitMerger B} {start r r' : GitRepo B} {h₀ h : Commit (Lib.Tree String B) String}
    (ha : Repo.Advanced start h₀ r h) {chunk : Chunk} (hbase : r.mergeBase (chunkBranch chunk.chunkId) ≠ none)
    (hm : r.merge m (chunkBranch chunk.chunkId) = .conflicted r') (touched : List (String × Finset String)) :
    RollsBack start (mergeFailed h₀ touched chunk r') ↔ StopsClean m start r (chunkBranch chunk.chunkId) := by
  have habort := Repo.mergeAbort_of_conflicted hm
  rw [StopsClean, if_neg hbase, hm]
  dsimp only
  obtain ⟨h₁, t, tree, unmerged, hh, -, hmerging, hu, hindex, hne, -, he⟩ := Repo.merge_eq_conflicted hm
  rw [ha.head] at hh
  cases hh
  have hnonempty : r'.unmerged.Nonempty := by rw [he]; exact hne
  rw [mergeFailed, dif_pos hnonempty, habort]
  dsimp only
  rw [rollsBack_error_iff, Repo.resetHard_eq_iff ha hindex hu hmerging]
  constructor
  · intro hclean h' hh'
    rw [ha.startHead] at hh'
    cases hh'
    exact hclean
  · intro hclean
    exact hclean h₀ ha.startHead

/-- **The loop**, some merges on from the start, rolls back exactly when every stop ahead is clean. -/
theorem integrateFrom_rollsBack_iff {m : GitMerger B} {start : GitRepo B} {h₀ : Commit (Lib.Tree String B) String} :
    ∀ (chunks : List Chunk) (merged : List String) (touched : List (String × Finset String)) {r : GitRepo B}
      {h : Commit (Lib.Tree String B) String}, Repo.Advanced start h₀ r h → (r.unmerged.Nonempty → r = start) →
      (RollsBack start (integrateFrom m h₀ chunks merged touched r) ↔
        ∀ before c after r₁, chunks = before ++ c :: after → r.mergeAll m (branchesOf before) = some r₁ →
          StopsClean m start r₁ (chunkBranch c.chunkId))
  | [], merged, touched, r, h, ha, hbusy => by
    refine iff_of_true (fun e he => by cases he) (fun before c after r₁ hs => ?_)
    cases before <;> cases hs
  | chunk :: chunks, merged, touched, r, h, ha, hbusy => by
    rw [integrateFrom, stops_cons_iff]
    cases hc : changedFiles m r (chunkBranch chunk.chunkId) with
    | none =>
      dsimp only
      have hbase := changedFiles_eq_none_iff.1 hc
      rw [rollsBack_error_iff, ha.eq_iff, StopsClean, if_pos hbase, ha.head, ha.startHead, Option.some.injEq]
      exact (and_iff_left (fun r' hm => absurd hbase (Repo.mergeBase_of_merge hm (by simp)))).symm
    | some changed =>
      have hbase : r.mergeBase (chunkBranch chunk.chunkId) ≠ none := by
        intro hn
        rw [changedFiles_eq_none_iff.2 hn] at hc
        cases hc
      dsimp only
      cases hm : r.merge m (chunkBranch chunk.chunkId) with
      | refused =>
        dsimp only
        rw [rollsBack_refused_iff ha hbusy hbase hm]
        exact (and_iff_left (fun r' hd => by cases hd)).symm
      | conflicted r' =>
        dsimp only
        rw [rollsBack_conflicted_iff ha hbase hm]
        exact (and_iff_left (fun r' hd => by cases hd)).symm
      | done r' =>
        dsimp only
        obtain ⟨h', ha', -⟩ := ha.merge hm
        obtain ⟨-, -, -, -, -, hidle, -⟩ := Repo.merge_eq_done hm
        have hbusy' : r'.unmerged.Nonempty → r' = start := by
          intro hne
          rw [ha'.merging.1, ← ha.merging.1, hidle] at hne
          exact absurd hne Finset.not_nonempty_empty
        rw [integrateFrom_rollsBack_iff chunks _ _ ha' hbusy']
        have hstop : StopsClean m start r (chunkBranch chunk.chunkId) := by
          rw [StopsClean, if_neg hbase, hm]
          trivial
        constructor
        · intro htail
          refine ⟨hstop, fun r₁ hd => ?_⟩
          cases hd
          exact htail
        · rintro ⟨-, htail⟩
          exact htail r' rfl

def halfFinished : GitRepo String :=
  let base : Commit (Lib.Tree String String) String := .mk (Lib.Tree.single "README.md" "readme") "init" []
  let tip : Commit (Lib.Tree String String) String :=
    .mk (Lib.Tree.overlay {"a.py"} (Lib.Tree.single "a.py" "a = 1") base.tree) "chunk a" [base]
  { branches := fun n => if n = "main" then some base else if n = "chunk/a" then some tip else none
    head := .branch "main"
    index := base.tree
    unmerged := ∅
    mergeHead := none
    files := base.tree }

end Integrator
end Engine
end DevHarness
