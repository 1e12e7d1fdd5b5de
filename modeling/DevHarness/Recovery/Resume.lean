import DevHarness.Engine.Integrator
import DevHarness.Engine.WorktreeState
import DevHarness.Recovery.Reclaim
import DevHarness.Recovery.Session
/-!
# Resume — worktrees bound and restored from a recovery plan (`recovery/session_recovery.py`)

After `reclaim`, each worker of the plan has the branch named by its own id deleted, a worktree bound on a new branch of
that name, and its captured state restored there.  A branch named by a chunk keeps its commits, and a worker its chunk's
branch, exactly when no worker's own branch loses any and every worker was on the chunk of its own name
(`resume_keeps_iff`).
-/
namespace DevHarness
namespace Recovery

open Lib Storage Engine

abbrev FileTree := Tree String String

abbrev GitCommit := Git.Commit FileTree String

abbrev WorkCheckout := Checkout String String String

/-- A worktree git knows: the branch it is on, and whether git keeps it locked. -/
structure GitWorktree where
  branch : Option String
  locked : Bool
  checkout : WorkCheckout

/-- The repository of a workspace: its directories and processes, the branches, the primary checkout, and the worktrees
git knows, by worker. -/
structure Repository where
  site : Site
  branches : String → Option GitCommit
  head : GitCommit
  primaryBranch : Option String
  checkouts : Dict String GitWorktree

inductive RecoveryError where
  | restore (workerId : String)
  deriving DecidableEq

def RecoveryError.message (exc : String) : RecoveryError → String
  | .restore workerId => s!"failed to restore worktree '{workerId}' during resume: {exc}"

def RecoveryError.remediation : RecoveryError → String
  | .restore _ => "Inspect the worktree and re-apply the captured diff, or resume from an earlier checkpoint."

namespace Repository

/-- The branch is checked out, in the primary tree or a worktree. -/
def checkedOut (r : Repository) (branch : String) : Bool :=
  decide (r.primaryBranch = some branch) || r.checkouts.values.any (fun w => decide (w.branch = some branch))

/-- `git branch -D`, which refuses a branch that is checked out. -/
def deleteBranch (r : Repository) (branch : String) : Repository :=
  if r.checkedOut branch then r else { r with branches := Function.update r.branches branch none }

/-- What `restore` leaves in a worktree: its checkout, its branch, which HEAD is on, and its `.pid` file. -/
def setCheckout (r : Repository) (workerId branch : String) (c : WorkCheckout) : Repository :=
  { r with
    site := { r.site with worktrees := match r.site.worktrees.get? workerId with
      | none => r.site.worktrees
      | some wt => r.site.worktrees.set workerId { wt with pidFile := c.files.get ".pid" } }
    branches := Function.update r.branches branch (some c.head)
    checkouts := r.checkouts.set workerId ⟨some branch, false, c⟩ }

/-- `git worktree add -b`: a new directory, and in it a new branch at HEAD. -/
def addWorktree (r : Repository) (pid : ℕ) (workerId branch : String) : Repository :=
  { r with
    site := { r.site with worktrees := r.site.worktrees.set workerId ⟨pid, r.head.tree.get ".pid"⟩ }
    branches := Function.update r.branches branch (some r.head)
    checkouts := r.checkouts.set workerId ⟨some branch, false, ⟨r.head, Checkout.staged r.head.tree, r.head.tree⟩⟩ }

/-- The worktrees a fresh `WorkerWorkspace` gets to know as it binds them. -/
def roots (r : Repository) : Roots String String String := fun name => (r.checkouts.get? name).map GitWorktree.checkout

section
variable (accepts : String → Bool)

/-- `WorktreeManager.create`: whether it made the worktree, where no directory has its name.  Git makes the branch, of a
name it accepts, before it finds that it still knows a worktree at the path. -/
def create (r : Repository) (pid : ℕ) (workerId branch : String) : Bool × Repository :=
  match r.site.worktrees.get? workerId with
  | some _ => (false, r)
  | none =>
    if (r.branches branch).isSome || !accepts branch then (false, r)
    else match r.checkouts.get? workerId with
      | some _ => (false, { r with branches := Function.update r.branches branch (some r.head) })
      | none => (true, r.addWorktree pid workerId branch)

variable (g : GitDiff String String) (o : Objects String String String)

/-- One worker of the plan: whether its worktree was restored, and the repository. -/
def rebindWorker (r : Repository) (pid : ℕ) (workerId : String) (snapshot : Snapshot) : Bool × Repository :=
  let bound := (r.deleteBranch (chunkBranch workerId)).create accepts pid workerId (chunkBranch workerId)
  if bound.1 = false then bound
  else
    let restored := restore g o bound.2.roots workerId ⟨snapshot.head, snapshot.diff⟩
    match restored.2 workerId with
    | none => (false, bound.2)
    | some c => (restored.1 matches .ok _, bound.2.setCheckout workerId (chunkBranch workerId) c)

/-- The loop of `resume`, up to the first worker that cannot be restored. -/
def rebindWorkers (pid : ℕ) : List (String × Snapshot) → Repository → Except RecoveryError Unit × Repository
  | [], r => (.ok (), r)
  | (workerId, snapshot) :: plan, r =>
    let turn := r.rebindWorker accepts g o pid workerId snapshot
    if turn.1 then rebindWorkers pid plan turn.2 else (.error (.restore workerId), turn.2)

/-- `reclaim` on the repository: git forgets a worktree whose directory it removes.  It refuses to remove a locked one,
and `_destroy_worktree` then removes the directory only. -/
def reclaim (py : Builtins) (r : Repository) : Repository :=
  { r with
    site := (r.site.reclaim py).2
    checkouts := r.checkouts.keep (fun p => (r.site.worktrees.get? p.1).isNone ||
      ((r.site.reclaim py).2.worktrees.get? p.1).isSome || p.2.locked) }

variable {σ : Type}

def resume (py : Builtins) (pid : ℕ) (plan : RecoveryPlan σ) (r : Repository) : Except RecoveryError σ × Repository :=
  match rebindWorkers accepts g o pid plan.worktrees.items (r.reclaim py) with
  | (.error e, r') => (.error e, r')
  | (.ok _, r') => (.ok plan.state, r')

end

/-! ## What a resume keeps -/

/-- Every commit reachable from the branch stays reachable from it. -/
def KeepsBranch (r r' : Repository) (branch : String) : Prop :=
  ∀ t, r.branches branch = some t → ∃ t', r'.branches branch = some t' ∧ ∀ c ∈ t.history, c ∈ t'.history

/-- **Every commit reachable from a chunk's branch stays reachable from it.** -/
def KeepsCommits (r r' : Repository) : Prop := ∀ chunkId, KeepsBranch r r' (chunkBranch chunkId)

/-- **Each of the workers has its worktree on the branch of the chunk it was working on.** -/
def Rebinds (workers : List String) (chunkOf : String → String) (r : Repository) : Prop :=
  ∀ workerId ∈ workers, ∃ w, r.checkouts.get? workerId = some w ∧ w.branch = some (chunkBranch (chunkOf workerId))

/-- The repository with the worktrees that a `reclaim` leaves: those whose `.pid` file names a live process, and in git's
list those without a directory and those it keeps locked too. -/
def liveOnly (py : Builtins) (r : Repository) : Repository :=
  { r with
    site := { r.site with worktrees := r.site.worktrees.keep (fun p => r.site.isLive py p.2.pidFile) }
    checkouts := r.checkouts.keep (fun p => (r.site.worktrees.get? p.1).isNone ||
      r.site.isLive py (r.site.pidFileOf p.1) || p.2.locked) }

section
variable (accepts : String → Bool) (g : GitDiff String String) (o : Objects String String String)

/-- The commit a new worktree is restored to: the recorded one, or HEAD without a record or a commit of that name. -/
def restoredHead (r : Repository) (snapshot : Snapshot) : GitCommit :=
  if snapshot.head = "" ∨ o.sha r.head = snapshot.head then r.head else (o.resolve snapshot.head).getD r.head

/-- The recorded state can be restored in a new worktree at HEAD: its HEAD is a commit there, and its diff applies. -/
def Restorable (r : Repository) (snapshot : Snapshot) : Prop :=
  (snapshot.head = "" ∨ o.sha r.head = snapshot.head ∨ (o.resolve snapshot.head).isSome = true) ∧
    (snapshot.diff = "" ∨ (g.apply snapshot.diff (restoredHead o r snapshot).tree).isSome = true)

/-- The worker's own branch is made anew: no directory of its name, the branch not there or not checked out, and its
name accepted. -/
def Remade (r : Repository) (workerId : String) : Prop :=
  r.site.worktrees.get? workerId = none ∧
    (r.checkedOut (chunkBranch workerId) = true → r.branches (chunkBranch workerId) = none) ∧
    accepts (chunkBranch workerId) = true

def Bindable (r : Repository) (workerId : String) : Prop :=
  Remade accepts r workerId ∧ r.checkouts.get? workerId = none

/-- Where the worker's own branch is when it is made anew: without a worktree, at HEAD. -/
def remadeHead (r : Repository) (workerId : String) (snapshot : Snapshot) : GitCommit :=
  if (r.checkouts.get? workerId).isSome then r.head else restoredHead o r snapshot

/-- **The worker's own branch loses nothing**: it is not there, or checked out and so left alone, or made anew where
every commit it had is reachable. -/
def LosesNothing (r : Repository) (workerId : String) (snapshot : Snapshot) : Prop :=
  ∀ t, r.branches (chunkBranch workerId) = some t → r.checkedOut (chunkBranch workerId) = true ∨
    Remade accepts r workerId ∧ t ∈ (remadeHead o r workerId snapshot).history

/-- The workers the resume comes to lose nothing of their own branches. -/
def AllLoseNothing (r : Repository) : List (String × Snapshot) → Prop
  | [] => True
  | (workerId, snapshot) :: plan => LosesNothing accepts o r workerId snapshot ∧
      (Bindable accepts r workerId ∧ Restorable g o r snapshot → AllLoseNothing r plan)

end

/-! ## One worker -/

theorem checkedOut_eq_true_iff (r : Repository) (branch : String) : r.checkedOut branch = true ↔
    r.primaryBranch = some branch ∨ ∃ workerId w, r.checkouts.get? workerId = some w ∧ w.branch = some branch := by
  unfold checkedOut
  rw [Bool.or_eq_true, decide_eq_true_eq, List.any_eq_true]
  refine or_congr_right ⟨?_, ?_⟩
  · rintro ⟨w, hmem, hb⟩
    rw [decide_eq_true_eq] at hb
    obtain ⟨workerId, hget⟩ := (Dict.mem_values_iff _ _).1 hmem
    exact ⟨workerId, w, hget, hb⟩
  · rintro ⟨workerId, w, hget, hb⟩
    exact ⟨w, (Dict.mem_values_iff _ _).2 ⟨workerId, hget⟩, decide_eq_true hb⟩

theorem deleteBranch_branches (r : Repository) (branch : String) : (r.deleteBranch branch).branches =
    if r.checkedOut branch then r.branches else Function.update r.branches branch none := by
  unfold deleteBranch
  split <;> rfl

theorem deleteBranch_self_eq_none_iff (r : Repository) (branch : String) :
    (r.deleteBranch branch).branches branch = none ↔ (r.checkedOut branch = true → r.branches branch = none) := by
  rw [deleteBranch_branches]
  split
  · rename_i hout
    exact ⟨fun h _ => h, fun h => h hout⟩
  · rename_i hfree
    exact iff_of_true (Function.update_self _ _ _) (fun h => absurd h hfree)

theorem deleteBranch_rest (r : Repository) (branch : String) : (r.deleteBranch branch).site = r.site ∧
    (r.deleteBranch branch).head = r.head ∧ (r.deleteBranch branch).checkouts = r.checkouts ∧
    (r.deleteBranch branch).primaryBranch = r.primaryBranch := by
  unfold deleteBranch
  split <;> exact ⟨rfl, rfl, rfl, rfl⟩

/-- Deleted or left, a branch that is then set is the branch set. -/
theorem deleteBranch_update (r : Repository) (branch : String) (c : Option GitCommit) :
    Function.update (r.deleteBranch branch).branches branch c = Function.update r.branches branch c := by
  rw [deleteBranch_branches]
  split
  · rfl
  · exact Function.update_idem _ _ _

section
variable (accepts : String → Bool)

theorem create_refused {r : Repository} (pid : ℕ) {workerId branch : String}
    (h : ¬ (r.site.worktrees.get? workerId = none ∧ r.branches branch = none ∧ accepts branch = true)) :
    r.create accepts pid workerId branch = (false, r) := by
  unfold create
  cases hdir : r.site.worktrees.get? workerId with
  | some wt => rfl
  | none =>
    dsimp only
    refine if_pos ?_
    cases hbranch : r.branches branch with
    | some t => rfl
    | none =>
      cases hname : accepts branch with
      | false => rfl
      | true => exact absurd ⟨hdir, hbranch, hname⟩ h

theorem create_made {r : Repository} (pid : ℕ) {workerId branch : String} (hdir : r.site.worktrees.get? workerId = none)
    (hbranch : r.branches branch = none) (hname : accepts branch = true) : r.create accepts pid workerId branch =
      if (r.checkouts.get? workerId).isSome then
        (false, { r with branches := Function.update r.branches branch (some r.head) })
      else (true, r.addWorktree pid workerId branch) := by
  cases hknown : r.checkouts.get? workerId <;> simp [create, hdir, hbranch, hname, hknown]

/-- **What the bind of a worker does**, its own branch deleted. -/
theorem bind_cases (r : Repository) (pid : ℕ) (workerId : String) :
    (¬ Remade accepts r workerId ∧
      (r.deleteBranch (chunkBranch workerId)).create accepts pid workerId (chunkBranch workerId) =
        (false, r.deleteBranch (chunkBranch workerId))) ∨
    (Remade accepts r workerId ∧ (r.checkouts.get? workerId).isSome = true ∧
      (r.deleteBranch (chunkBranch workerId)).create accepts pid workerId (chunkBranch workerId) =
        (false, { r with branches := Function.update r.branches (chunkBranch workerId) (some r.head) })) ∨
    (Bindable accepts r workerId ∧
      (r.deleteBranch (chunkBranch workerId)).create accepts pid workerId (chunkBranch workerId) =
        (true, r.addWorktree pid workerId (chunkBranch workerId))) := by
  obtain ⟨hsite, hhead, hcheckouts, hprimary⟩ := r.deleteBranch_rest (chunkBranch workerId)
  have hupdate := r.deleteBranch_update (chunkBranch workerId)
  have hcreate : Remade accepts r workerId ↔
      ((r.deleteBranch (chunkBranch workerId)).site.worktrees.get? workerId = none ∧
        (r.deleteBranch (chunkBranch workerId)).branches (chunkBranch workerId) = none ∧
        accepts (chunkBranch workerId) = true) := by
    rw [hsite, deleteBranch_self_eq_none_iff]
    rfl
  by_cases hmade : Remade accepts r workerId
  · obtain ⟨hdir, hbranch, hname⟩ := hcreate.1 hmade
    have hbind := create_made accepts pid hdir hbranch hname
    rw [hcheckouts] at hbind
    split at hbind
    · rename_i hknown
      refine Or.inr (Or.inl ⟨hmade, hknown, ?_⟩)
      rw [hbind]
      simp only [hsite, hhead, hprimary, hupdate]
    · rename_i hnew
      refine Or.inr (Or.inr ⟨⟨hmade, by simpa using hnew⟩, ?_⟩)
      rw [hbind]
      simp only [addWorktree, hsite, hhead, hcheckouts, hprimary, hupdate]
  · exact Or.inl ⟨hmade, create_refused accepts pid (fun h => hmade (hcreate.2 h))⟩

end

theorem addWorktree_roots (r : Repository) (pid : ℕ) (workerId branch : String) :
    (r.addWorktree pid workerId branch).roots workerId = some ⟨r.head, Checkout.staged r.head.tree, r.head.tree⟩ := by
  unfold roots addWorktree
  rw [Dict.get?_set_self]
  rfl

theorem setCheckout_addWorktree (r : Repository) (pid : ℕ) (workerId branch : String) (c : WorkCheckout) :
    (r.addWorktree pid workerId branch).setCheckout workerId branch c = { r with
      site := { r.site with worktrees := r.site.worktrees.set workerId ⟨pid, c.files.get ".pid"⟩ }
      branches := Function.update r.branches branch (some c.head)
      checkouts := r.checkouts.set workerId ⟨some branch, false, c⟩ } := by
  simp only [setCheckout, addWorktree, Dict.get?_set_self, Function.update_idem, Dict.set_set]

section
variable (g : GitDiff String String) (o : Objects String String String)

/-- The reset of a new worktree: to the recorded commit, where there is one of that name. -/
theorem resetTo_new (r : Repository) (snapshot : Snapshot) :
    (¬ (snapshot.head = "" ∨ o.sha r.head = snapshot.head ∨ (o.resolve snapshot.head).isSome = true) ∧
      resetTo o ⟨r.head, Checkout.staged r.head.tree, r.head.tree⟩ snapshot.head = none ∧
      restoredHead o r snapshot = r.head) ∨
    ((snapshot.head = "" ∨ o.sha r.head = snapshot.head ∨ (o.resolve snapshot.head).isSome = true) ∧
      ∃ c, resetTo o ⟨r.head, Checkout.staged r.head.tree, r.head.tree⟩ snapshot.head = some c ∧
        c.head = restoredHead o r snapshot ∧ c.files = (restoredHead o r snapshot).tree) := by
  let root : WorkCheckout := ⟨r.head, Checkout.staged r.head.tree, r.head.tree⟩
  have hclean : root.Clean := ⟨rfl, rfl⟩
  unfold resetTo restoredHead
  split
  · rename_i hstays
    exact Or.inr ⟨hstays.elim Or.inl (fun h => Or.inr (Or.inl h)), root, rfl, rfl, rfl⟩
  · rename_i hmoves
    cases hd : o.resolve snapshot.head with
    | none =>
      refine Or.inl ⟨?_, rfl, rfl⟩
      rw [← or_assoc]
      exact fun h => h.elim hmoves (fun h => by cases h)
    | some d => exact Or.inr ⟨Or.inr (Or.inr rfl), _, rfl, rfl, (Checkout.clean_resetHard hclean d).2⟩

/-- **A restore in a new worktree** leaves its HEAD where the record says, and succeeds when the record can be
restored. -/
theorem restore_new {roots : Roots String String String} {workerId : String} {r : Repository} (snapshot : Snapshot)
    (hroot : roots workerId = some ⟨r.head, Checkout.staged r.head.tree, r.head.tree⟩) :
    ∃ c, (restore g o roots workerId ⟨snapshot.head, snapshot.diff⟩).2 workerId = some c ∧
      c.head = restoredHead o r snapshot ∧
      ((restore g o roots workerId ⟨snapshot.head, snapshot.diff⟩).1 = .ok () ↔ Restorable g o r snapshot) := by
  unfold restore
  simp only [hroot]
  rcases resetTo_new o r snapshot with ⟨hunknown, hreset, hstays⟩ | ⟨hknown, c, hreset, hhead, htree⟩
  · simp only [hreset]
    exact ⟨_, hroot, hstays.symm, iff_of_false (fun h => by cases h) (fun h => hunknown h.1)⟩
  · simp only [hreset]
    by_cases hdiff : snapshot.diff = ""
    · rw [if_pos hdiff]
      exact ⟨c, Function.update_self _ _ _, hhead, iff_of_true rfl ⟨hknown, Or.inl hdiff⟩⟩
    · rw [if_neg hdiff, htree]
      cases happly : g.apply snapshot.diff (restoredHead o r snapshot).tree with
      | none =>
        refine ⟨c, Function.update_self _ _ _, hhead, iff_of_false (fun h => by cases h) ?_⟩
        rintro ⟨-, hor⟩
        rw [happly] at hor
        exact hor.elim hdiff (fun h => by cases h)
      | some files =>
        exact ⟨_, Function.update_self _ _ _, hhead, iff_of_true rfl ⟨hknown, Or.inr (by rw [happly]; rfl)⟩⟩

variable (accepts : String → Bool)

/-- **What a worker's turn does**: without a new branch it has deleted the old one; with one but no worktree, the branch
is at HEAD; with both, the branch is where the restore left it. -/
theorem rebindWorker_cases (r : Repository) (pid : ℕ) (workerId : String) (snapshot : Snapshot) :
    (¬ Remade accepts r workerId ∧ r.rebindWorker accepts g o pid workerId snapshot =
      (false, r.deleteBranch (chunkBranch workerId))) ∨
    (Remade accepts r workerId ∧ (r.checkouts.get? workerId).isSome = true ∧
      r.rebindWorker accepts g o pid workerId snapshot =
        (false, { r with branches := Function.update r.branches (chunkBranch workerId) (some r.head) })) ∨
    (Bindable accepts r workerId ∧ ∃ ok c, (ok = true ↔ Restorable g o r snapshot) ∧
      r.rebindWorker accepts g o pid workerId snapshot = (ok, { r with
        site := { r.site with worktrees := r.site.worktrees.set workerId ⟨pid, c.files.get ".pid"⟩ }
        branches := Function.update r.branches (chunkBranch workerId) (some (restoredHead o r snapshot))
        checkouts := r.checkouts.set workerId ⟨some (chunkBranch workerId), false, c⟩ })) := by
  unfold rebindWorker
  rcases r.bind_cases accepts pid workerId with ⟨hmade, hbind⟩ | ⟨hmade, hknown, hbind⟩ | ⟨hbindable, hbind⟩
  · rw [hbind]
    exact Or.inl ⟨hmade, rfl⟩
  · rw [hbind]
    exact Or.inr (Or.inl ⟨hmade, hknown, rfl⟩)
  · obtain ⟨c, hc, hhead, hok⟩ := restore_new g o snapshot (r.addWorktree_roots pid workerId (chunkBranch workerId))
    rw [hbind]
    simp only [hc, setCheckout_addWorktree, hhead]
    refine Or.inr (Or.inr ⟨hbindable, _, c, ?_, rfl⟩)
    rw [← hok]
    split
    · rename_i heq
      exact iff_of_true rfl heq
    · rename_i hne
      exact iff_of_false (by simp) (hne ())

/-! ## The other workers -/

theorem chunkBranch_injective : Function.Injective chunkBranch := fun _ _ h => String.append_right_inj _ |>.1 h

/-- What a worker's turn depends on is the same in both. -/
structure SameFor (r r' : Repository) (workerId : String) : Prop where
  head : r'.head = r.head
  directory : r'.site.worktrees.get? workerId = none ↔ r.site.worktrees.get? workerId = none
  branch : r'.branches (chunkBranch workerId) = r.branches (chunkBranch workerId)
  checkedOut : r'.checkedOut (chunkBranch workerId) = r.checkedOut (chunkBranch workerId)
  checkout : r'.checkouts.get? workerId = r.checkouts.get? workerId

theorem checkedOut_congr {r r' : Repository} (hprimary : r'.primaryBranch = r.primaryBranch)
    (hcheckouts : r'.checkouts = r.checkouts) (branch : String) : r'.checkedOut branch = r.checkedOut branch := by
  unfold checkedOut
  rw [hprimary, hcheckouts]

/-- **A worker's turn leaves the other workers what theirs depend on.** -/
theorem rebindWorker_sameFor (r : Repository) (pid : ℕ) {workerId other : String} (snapshot : Snapshot)
    (hne : other ≠ workerId) : SameFor r (r.rebindWorker accepts g o pid workerId snapshot).2 other := by
  have hbranch : chunkBranch other ≠ chunkBranch workerId := fun h => hne (chunkBranch_injective h)
  rcases r.rebindWorker_cases g o accepts pid workerId snapshot with
    ⟨-, hturn⟩ | ⟨-, -, hturn⟩ | ⟨⟨-, hnew⟩, ok, c, -, hturn⟩
  · obtain ⟨hsite, hhead, hcheckouts, hprimary⟩ := r.deleteBranch_rest (chunkBranch workerId)
    rw [hturn]
    refine ⟨hhead, by rw [hsite], ?_, checkedOut_congr hprimary hcheckouts _, by rw [hcheckouts]⟩
    rw [deleteBranch_branches]
    split
    · rfl
    · exact Function.update_of_ne hbranch _ _
  · rw [hturn]
    exact ⟨rfl, Iff.rfl, Function.update_of_ne hbranch _ _, checkedOut_congr rfl rfl _, rfl⟩
  · rw [hturn]
    refine ⟨rfl, by rw [Dict.get?_set_ne _ _ hne], Function.update_of_ne hbranch _ _, ?_, Dict.get?_set_ne _ _ hne⟩
    rw [Bool.eq_iff_iff, checkedOut_eq_true_iff, checkedOut_eq_true_iff]
    refine or_congr_right (exists_congr fun name => exists_congr fun w => and_congr_left fun hw => ?_)
    rw [Dict.get?_set]
    split
    · rename_i hname
      subst hname
      rw [hnew]
      refine iff_of_false (fun h => ?_) (fun h => by cases h)
      cases h
      exact hbranch (Option.some.inj hw).symm
    · rfl

theorem SameFor.trans {r r' r'' : Repository} {workerId : String} (h : SameFor r r' workerId)
    (h' : SameFor r' r'' workerId) : SameFor r r'' workerId :=
  ⟨h'.head.trans h.head, h'.directory.trans h.directory, h'.branch.trans h.branch, h'.checkedOut.trans h.checkedOut,
    h'.checkout.trans h.checkout⟩

section
variable {r r' : Repository} {workerId : String} (h : SameFor r r' workerId)

include h

theorem SameFor.bindable_iff : Bindable accepts r' workerId ↔ Bindable accepts r workerId := by
  unfold Bindable Remade
  rw [h.directory, h.branch, h.checkedOut, h.checkout]

theorem SameFor.restorable_iff (snapshot : Snapshot) : Restorable g o r' snapshot ↔ Restorable g o r snapshot := by
  unfold Restorable restoredHead
  rw [h.head]

theorem SameFor.losesNothing_iff (snapshot : Snapshot) :
    LosesNothing accepts o r' workerId snapshot ↔ LosesNothing accepts o r workerId snapshot := by
  unfold LosesNothing Remade remadeHead restoredHead
  rw [h.head, h.directory, h.branch, h.checkedOut, h.checkout]

end

theorem allLoseNothing_congr {r r' : Repository} : ∀ (plan : List (String × Snapshot)),
    (∀ p ∈ plan, SameFor r r' p.1) → (AllLoseNothing accepts g o r' plan ↔ AllLoseNothing accepts g o r plan)
  | [], _ => Iff.rfl
  | (workerId, snapshot) :: plan, h => by
    have hfirst := h _ List.mem_cons_self
    have hrest := allLoseNothing_congr plan (fun p hp => h p (List.mem_cons_of_mem _ hp))
    rw [AllLoseNothing, AllLoseNothing, hfirst.losesNothing_iff, hfirst.bindable_iff, hfirst.restorable_iff, hrest]

/-! ## A plan -/

theorem rebindWorker_fst_eq_true_iff (r : Repository) (pid : ℕ) (workerId : String) (snapshot : Snapshot) :
    (r.rebindWorker accepts g o pid workerId snapshot).1 = true ↔
      Bindable accepts r workerId ∧ Restorable g o r snapshot := by
  rcases r.rebindWorker_cases g o accepts pid workerId snapshot with
    ⟨hmade, hturn⟩ | ⟨-, hknown, hturn⟩ | ⟨hbind, ok, c, hok, hturn⟩
  · rw [hturn]
    exact iff_of_false (by simp) (fun h => hmade h.1.1)
  · rw [hturn]
    refine iff_of_false (by simp) (fun h => ?_)
    rw [h.1.2] at hknown
    cases hknown
  · rw [hturn]
    exact hok.trans ⟨fun h => ⟨hbind, h⟩, And.right⟩

/-- **Where a worker's turn leaves its own branch.** -/
theorem rebindWorker_own_branch (r : Repository) (pid : ℕ) (workerId : String) (snapshot : Snapshot) :
    (Remade accepts r workerId ∧ (r.rebindWorker accepts g o pid workerId snapshot).2.branches (chunkBranch workerId) =
      some (remadeHead o r workerId snapshot)) ∨
    (¬ Remade accepts r workerId ∧ (r.rebindWorker accepts g o pid workerId snapshot).2.branches (chunkBranch workerId) =
      if r.checkedOut (chunkBranch workerId) then r.branches (chunkBranch workerId) else none) := by
  rcases r.rebindWorker_cases g o accepts pid workerId snapshot with
    ⟨hmade, hturn⟩ | ⟨hmade, hknown, hturn⟩ | ⟨⟨hmade, hnew⟩, ok, c, -, hturn⟩
  · refine Or.inr ⟨hmade, ?_⟩
    rw [hturn, deleteBranch_branches]
    split
    · rfl
    · exact Function.update_self _ _ _
  · refine Or.inl ⟨hmade, ?_⟩
    rw [hturn, remadeHead, if_pos hknown]
    exact Function.update_self _ _ _
  · refine Or.inl ⟨hmade, ?_⟩
    rw [hturn, remadeHead, hnew]
    exact Function.update_self _ _ _

/-- **A worker's turn keeps its own branch's commits exactly when the branch loses nothing.** -/
theorem keepsBranch_rebindWorker_iff (r : Repository) (pid : ℕ) (workerId : String) (snapshot : Snapshot) :
    KeepsBranch r (r.rebindWorker accepts g o pid workerId snapshot).2 (chunkBranch workerId) ↔
      LosesNothing accepts o r workerId snapshot := by
  refine forall_congr' fun t => forall_congr' fun ht => ?_
  rcases r.rebindWorker_own_branch g o accepts pid workerId snapshot with ⟨hmade, hown⟩ | ⟨hmade, hown⟩
  · have hfree : ¬ r.checkedOut (chunkBranch workerId) = true := fun h => by
      have hnone := hmade.2.1 h
      rw [ht] at hnone
      cases hnone
    rw [hown]
    constructor
    · rintro ⟨t', htip, hall⟩
      cases htip
      exact Or.inr ⟨hmade, hall t (Git.Commit.self_mem_history t)⟩
    · intro h
      exact ⟨_, rfl, fun a ha => Git.Commit.mem_history_trans ha _ (h.resolve_left hfree).2⟩
  · rw [hown]
    split
    · rename_i hout
      exact iff_of_true ⟨t, ht, fun _ hc => hc⟩ (Or.inl hout)
    · rename_i hfree
      exact iff_of_false (fun ⟨_, h, _⟩ => by cases h) (fun h => h.elim hfree (fun h => hmade h.1))

theorem rebindWorkers_sameFor (pid : ℕ) {other : String} : ∀ (plan : List (String × Snapshot)) (r : Repository),
    other ∉ plan.map Prod.fst → SameFor r (rebindWorkers accepts g o pid plan r).2 other
  | [], r, _ => ⟨rfl, Iff.rfl, rfl, rfl, rfl⟩
  | (workerId, snapshot) :: plan, r, hother => by
    rw [List.map_cons, List.mem_cons, not_or] at hother
    have hturn := r.rebindWorker_sameFor g o accepts pid snapshot hother.1
    rw [rebindWorkers]
    split
    · exact hturn.trans (rebindWorkers_sameFor pid plan _ hother.2)
    · exact hturn

/-- **A plan is carried out exactly when every worker can be bound and its record restored.** -/
theorem rebindWorkers_ok_iff (pid : ℕ) : ∀ (plan : List (String × Snapshot)) (r : Repository),
    (plan.map Prod.fst).Nodup → ((rebindWorkers accepts g o pid plan r).1 = .ok () ↔
      ∀ p ∈ plan, Bindable accepts r p.1 ∧ Restorable g o r p.2)
  | [], r, _ => by simp [rebindWorkers]
  | (workerId, snapshot) :: plan, r, hnodup => by
    rw [List.map_cons, List.nodup_cons] at hnodup
    have hfirst := r.rebindWorker_fst_eq_true_iff g o accepts pid workerId snapshot
    have hrest := rebindWorkers_ok_iff pid plan (r.rebindWorker accepts g o pid workerId snapshot).2 hnodup.2
    have hsame : ∀ p ∈ plan, SameFor r (r.rebindWorker accepts g o pid workerId snapshot).2 p.1 := by
      intro p hp
      refine r.rebindWorker_sameFor g o accepts pid snapshot ?_
      rintro rfl
      exact hnodup.1 (List.mem_map.2 ⟨p, hp, rfl⟩)
    rw [List.forall_mem_cons, ← hfirst, rebindWorkers]
    split
    · rename_i hok
      rw [hrest]
      refine ⟨fun h => ⟨hok, fun p hp => ?_⟩, fun h p hp => ?_⟩
      · exact ⟨((hsame p hp).bindable_iff accepts).1 (h p hp).1, ((hsame p hp).restorable_iff g o _).1 (h p hp).2⟩
      · exact ⟨((hsame p hp).bindable_iff accepts).2 (h.2 p hp).1, ((hsame p hp).restorable_iff g o _).2 (h.2 p hp).2⟩
    · rename_i hfails
      exact iff_of_false (fun h => by cases h) (fun h => hfails h.1)

theorem keepsCommits_iff_of_turn {r r₁ r' : Repository} {workerId : String}
    (hothers : ∀ other, other ≠ workerId → r₁.branches (chunkBranch other) = r.branches (chunkBranch other))
    (hown : r'.branches (chunkBranch workerId) = r₁.branches (chunkBranch workerId)) :
    KeepsCommits r r' ↔ KeepsBranch r r₁ (chunkBranch workerId) ∧ KeepsCommits r₁ r' := by
  have hkeeps : ∀ chunkId, KeepsBranch r r' (chunkBranch chunkId) ↔
      if chunkId = workerId then KeepsBranch r r₁ (chunkBranch workerId) else KeepsBranch r₁ r' (chunkBranch chunkId) := by
    intro chunkId
    unfold KeepsBranch
    split
    · rename_i heq
      rw [heq, hown]
    · rename_i hne
      rw [hothers chunkId hne]
  constructor
  · intro h
    refine ⟨by simpa using (hkeeps workerId).1 (h workerId), fun chunkId => ?_⟩
    by_cases heq : chunkId = workerId
    · rw [heq]
      exact fun t ht => ⟨t, hown.trans ht, fun _ hc => hc⟩
    · have hchunk := (hkeeps chunkId).1 (h chunkId)
      rwa [if_neg heq] at hchunk
  · rintro ⟨hfirst, hrest⟩ chunkId
    rw [hkeeps]
    split
    · exact hfirst
    · exact hrest chunkId

/-- **A plan keeps the chunks' commits exactly when the workers it comes to lose nothing.** -/
theorem keepsCommits_rebindWorkers_iff (pid : ℕ) : ∀ (plan : List (String × Snapshot)) (r : Repository),
    (plan.map Prod.fst).Nodup →
    (KeepsCommits r (rebindWorkers accepts g o pid plan r).2 ↔ AllLoseNothing accepts g o r plan)
  | [], r, _ => iff_of_true (fun _ t ht => ⟨t, ht, fun _ hc => hc⟩) trivial
  | (workerId, snapshot) :: plan, r, hnodup => by
    rw [List.map_cons, List.nodup_cons] at hnodup
    have hturn : ∀ other, other ≠ workerId → SameFor r (r.rebindWorker accepts g o pid workerId snapshot).2 other :=
      fun other hne => r.rebindWorker_sameFor g o accepts pid snapshot hne
    have hok := r.rebindWorker_fst_eq_true_iff g o accepts pid workerId snapshot
    rw [AllLoseNothing, ← r.keepsBranch_rebindWorker_iff g o accepts pid, ← hok, rebindWorkers]
    generalize r.rebindWorker accepts g o pid workerId snapshot = turn at hturn hok ⊢
    split
    · rename_i hdone
      have hsame : ∀ p ∈ plan, SameFor r turn.2 p.1 := by
        intro p hp
        refine hturn p.1 ?_
        rintro rfl
        exact hnodup.1 (List.mem_map.2 ⟨p, hp, rfl⟩)
      rw [keepsCommits_iff_of_turn (fun other hne => (hturn other hne).branch)
          (rebindWorkers_sameFor g o accepts pid plan turn.2 hnodup.1).branch,
        keepsCommits_rebindWorkers_iff pid plan turn.2 hnodup.2, allLoseNothing_congr g o accepts plan hsame]
      exact and_congr_right fun _ => ⟨fun h _ => h, fun h => h hdone⟩
    · rename_i hstops
      rw [keepsCommits_iff_of_turn (fun other hne => (hturn other hne).branch) rfl]
      exact and_congr_right fun _ =>
        iff_of_true (fun _ t ht => ⟨t, ht, fun _ hc => hc⟩) (fun h => absurd h hstops)

/-- **The directories of a plan are made one bind after another**, up to the worker that cannot be restored. -/
theorem rebindWorkers_site (pid : ℕ) : ∀ (plan : List (String × Snapshot)) (r : Repository),
    ∃ binds, (rebindWorkers accepts g o pid plan r).2.site = Site.rebind pid binds r.site
  | [], r => ⟨[], rfl⟩
  | (workerId, snapshot) :: plan, r => by
    rw [rebindWorkers]
    rcases r.rebindWorker_cases g o accepts pid workerId snapshot with
      ⟨-, hturn⟩ | ⟨-, -, hturn⟩ | ⟨⟨⟨hdir, -⟩, -⟩, ok, c, -, hturn⟩
    · rw [hturn]
      exact ⟨[], (r.deleteBranch_rest _).1⟩
    · rw [hturn]
      exact ⟨[], rfl⟩
    · rw [hturn]
      have hbind : ∀ binds, Site.rebind pid ((workerId, c.files.get ".pid") :: binds) r.site = Site.rebind pid binds
          { r.site with worktrees := r.site.worktrees.set workerId ⟨pid, c.files.get ".pid"⟩ } := by
        intro binds
        simp only [Site.rebind, Site.createWorktree, hdir]
      split
      · obtain ⟨binds, hbinds⟩ := rebindWorkers_site pid plan _
        exact ⟨(workerId, c.files.get ".pid") :: binds, hbinds.trans (hbind binds).symm⟩
      · exact ⟨[(workerId, c.files.get ".pid")], (hbind []).symm⟩

/-- **A plan carried out has each worker on the branch of its own name.** -/
theorem rebindWorkers_rebinds (pid : ℕ) : ∀ (plan : List (String × Snapshot)) (r : Repository),
    (plan.map Prod.fst).Nodup → (rebindWorkers accepts g o pid plan r).1 = .ok () →
    Rebinds (plan.map Prod.fst) id (rebindWorkers accepts g o pid plan r).2
  | [], r, _, _ => fun _ h => by cases h
  | (workerId, snapshot) :: plan, r, hnodup, hok => by
    rw [List.map_cons, List.nodup_cons] at hnodup
    have hturn := r.rebindWorker_cases g o accepts pid workerId snapshot
    rw [rebindWorkers] at hok ⊢
    split at hok
    · rename_i hdone
      rw [if_pos hdone]
      intro name hname
      rcases List.mem_cons.1 hname with rfl | hname
      · rw [(rebindWorkers_sameFor g o accepts pid plan _ hnodup.1).checkout]
        rcases hturn with ⟨-, hturn⟩ | ⟨-, -, hturn⟩ | ⟨-, ok, c, -, hturn⟩
        · rw [hturn] at hdone
          cases hdone
        · rw [hturn] at hdone
          cases hdone
        · rw [hturn]
          exact ⟨_, Dict.get?_set_self _ _ _, rfl⟩
      · exact rebindWorkers_rebinds pid plan _ hnodup.2 hok name hname
    · cases hok

/-! ## A resume -/

/-- **What a reclaim leaves is what the records say is live.** -/
theorem reclaim_sameFor (py : Builtins) (r : Repository) (workerId : String) :
    SameFor (r.liveOnly py) (r.reclaim py) workerId := by
  obtain ⟨-, -, hdirs⟩ := r.site.reclaim_spec py
  have hdir : (r.reclaim py).site.worktrees.get? workerId = (r.liveOnly py).site.worktrees.get? workerId := by
    show (r.site.reclaim py).2.worktrees.get? workerId = (r.site.worktrees.keep _).get? workerId
    rw [hdirs, Dict.get?_keep, Site.pidFileOf]
    cases hwt : r.site.worktrees.get? workerId with
    | none => simp
    | some wt => simp [Option.filter]
  have hcheckouts : (r.reclaim py).checkouts = (r.liveOnly py).checkouts := by
    show r.checkouts.keep _ = r.checkouts.keep _
    refine congrArg r.checkouts.keep (funext fun p => ?_)
    rw [hdirs]
    cases hwt : r.site.worktrees.get? p.1 with
    | none => rfl
    | some wt => cases r.site.isLive py (r.site.pidFileOf p.1) <;> rfl
  have hout : (r.reclaim py).checkedOut (chunkBranch workerId) = (r.liveOnly py).checkedOut (chunkBranch workerId) := by
    unfold checkedOut
    rw [hcheckouts]
    rfl
  exact ⟨rfl, by rw [hdir], rfl, hout, by rw [hcheckouts]⟩

variable {σ : Type}

/-- **The directories of a resume are those of a step of the workspace's processes.** -/
theorem resume_site (py : Builtins) (hostname : String) (pid : ℕ) (plan : RecoveryPlan σ) (r : Repository)
    (hlive : r.site.lock.pidAlive pid = true) : ∃ binds, (siteMachine py hostname).step r.site (.resume pid binds) =
      some (r.resume accepts g o py pid plan).2.site := by
  obtain ⟨binds, hbinds⟩ := rebindWorkers_site g o accepts pid plan.worktrees.items (r.reclaim py)
  refine ⟨binds, ?_⟩
  have hresume : (r.resume accepts g o py pid plan).2 =
      (rebindWorkers accepts g o pid plan.worktrees.items (r.reclaim py)).2 := by
    unfold resume
    split <;> simp only [*]
  rw [hresume, hbinds]
  exact if_pos hlive

/-- **A resume keeps the chunks' commits and puts each worker back on its chunk's branch** exactly when no worker it comes
to loses anything of its own branch and, where every worker can be restored, each was on the chunk of its own name. -/
theorem resume_keeps_iff (py : Builtins) (pid : ℕ) (plan : RecoveryPlan σ) (r : Repository) (chunkOf : String → String) :
    (KeepsCommits r (r.resume accepts g o py pid plan).2 ∧ ∀ state, (r.resume accepts g o py pid plan).1 = .ok state →
        Rebinds plan.worktrees.keys chunkOf (r.resume accepts g o py pid plan).2) ↔
      AllLoseNothing accepts g o (r.liveOnly py) plan.worktrees.items ∧
      ((∀ p ∈ plan.worktrees.items, Bindable accepts (r.liveOnly py) p.1 ∧ Restorable g o (r.liveOnly py) p.2) →
        ∀ workerId ∈ plan.worktrees.keys, chunkOf workerId = workerId) := by
  have hnodup := plan.worktrees.nodup
  have hsame : ∀ workerId, SameFor (r.liveOnly py) (r.reclaim py) workerId := r.reclaim_sameFor py
  have hkeeps := keepsCommits_rebindWorkers_iff g o accepts pid plan.worktrees.items (r.reclaim py) hnodup
  have hok := rebindWorkers_ok_iff g o accepts pid plan.worktrees.items (r.reclaim py) hnodup
  have hrebinds := rebindWorkers_rebinds g o accepts pid plan.worktrees.items (r.reclaim py) hnodup
  rw [allLoseNothing_congr g o accepts _ (fun p _ => hsame p.1)] at hkeeps
  have hbind : (∀ p ∈ plan.worktrees.items, Bindable accepts (r.reclaim py) p.1 ∧ Restorable g o (r.reclaim py) p.2) ↔
      ∀ p ∈ plan.worktrees.items, Bindable accepts (r.liveOnly py) p.1 ∧ Restorable g o (r.liveOnly py) p.2 :=
    forall_congr' fun p => forall_congr' fun _ =>
      and_congr ((hsame p.1).bindable_iff accepts) ((hsame p.1).restorable_iff g o _)
  rw [hbind] at hok
  unfold resume
  cases hrun : rebindWorkers accepts g o pid plan.worktrees.items (r.reclaim py) with
  | mk result r' =>
    rw [hrun] at hkeeps hok hrebinds
    cases result with
    | error e => exact and_congr hkeeps (iff_of_true (fun _ h => by cases h) (fun h => by cases hok.2 h))
    | ok u =>
      refine and_congr hkeeps ?_
      have hall := hok.1 rfl
      have hown := hrebinds rfl
      constructor
      · intro h _ workerId hmem
        obtain ⟨w, hw, hchunk⟩ := h plan.state rfl workerId hmem
        obtain ⟨w', hw', hself⟩ := hown workerId hmem
        rw [hw] at hw'
        cases hw'
        exact chunkBranch_injective (Option.some.inj (hchunk.symm.trans hself))
      · intro h _ _ workerId hmem
        rw [h hall workerId hmem]
        exact hown workerId hmem

end

/-! ## A chunk with a worker's name -/

def workCommit : GitCommit := .mk editedTree "chunk worker-1" [firstCommit]

/-- Worker 2 has committed the chunk named as worker 1 is, which died at work on another. -/
def crashed : Repository where
  site := { worktrees := (Dict.empty.set "worker-1" ⟨1, none⟩).set "worker-2" ⟨1, none⟩ }
  branches := Function.update (Function.update (fun _ => none) "chunk/worker-1" (some workCommit)) "chunk/c2" (some firstCommit)
  head := firstCommit
  primaryBranch := some "main"
  checkouts := (Dict.empty.set "worker-1" ⟨some "chunk/c2", false, ⟨firstCommit, Checkout.staged firstTree, firstTree⟩⟩).set
    "worker-2" ⟨some "chunk/worker-1", false, ⟨workCommit, Checkout.staged editedTree, editedTree⟩⟩

def crashedPlan : RecoveryPlan String := ⟨⟨"p", "t"⟩, "cp_1", "running", Dict.empty.set "worker-1" ⟨"3f1c2a", ""⟩⟩

def resumed : Except RecoveryError String × Repository :=
  crashed.resume (fun _ => true) gitEdit store Builtins.decimal 2 crashedPlan

/-- **The commit is gone and the worker on another branch** when the resume returns. -/
theorem resume_loses_chunk : resumed.1 = .ok "running" ∧ resumed.2.branches "chunk/worker-1" = some firstCommit ∧
    (resumed.2.checkouts.get? "worker-1").map GitWorktree.branch = some (some "chunk/worker-1") ∧
    ¬ KeepsCommits crashed resumed.2 ∧ ¬ Rebinds ["worker-1"] (fun _ => "c2") resumed.2 := by
  have hrun : resumed.1 = .ok "running" ∧ resumed.2.branches "chunk/worker-1" = some firstCommit ∧
      (resumed.2.checkouts.get? "worker-1").map GitWorktree.branch = some (some "chunk/worker-1") := by
    refine ⟨rfl, ?_, ?_⟩
    · decide +kernel
    · decide +kernel
  obtain ⟨hok, hbranch, hcheckout⟩ := hrun
  refine ⟨hok, hbranch, hcheckout, fun hkeeps => ?_, fun hrebinds => ?_⟩
  · obtain ⟨t', ht', hall⟩ := hkeeps "worker-1" workCommit (by decide +kernel)
    have htip : some t' = some firstCommit := ht'.symm.trans hbranch
    cases htip
    have hmem := hall _ (Git.Commit.self_mem_history _)
    revert hmem
    decide +kernel
  · obtain ⟨w, hw, hchunk⟩ := hrebinds "worker-1" (List.mem_singleton.2 rfl)
    rw [hw, Option.map_some, hchunk] at hcheckout
    revert hcheckout
    decide

end Repository

end Recovery
end DevHarness
