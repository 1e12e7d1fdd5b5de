import DevHarness.Engine.Integrator
import DevHarness.Lib.Dict
/-!
# WorkerWorkspace — worktrees bound to workers (`engine/worker_workspace.py`, `vcs/worktree.py`)

A worker's worktree is the directory named by its id.  What is followed here is which branch each worktree has checked out
and, for each branch, the chunks whose work was committed on it.  A binding is made once for a worker: a second `bind`
returns the root that is there, whatever the chunk (`bind_of_bound`).
-/
namespace DevHarness
namespace Engine

/-- The bindings of a workspace, its worktree directories and its branches. -/
structure WorkerWorkspace where
  -- the keys of `_roots`; the root of a worker is the directory of its id
  roots : List String
  -- the branch checked out in a worker's directory, when it exists
  worktrees : String → Option String
  -- the chunks committed on a branch since it was made, when it exists
  branches : String → Option (List String)

namespace WorkerWorkspace

def new (worktrees : String → Option String) (branches : String → Option (List String)) : WorkerWorkspace :=
  ⟨[], worktrees, branches⟩

/-- `WorktreeManager.create`: `none` when the directory or the branch exists, or git fails otherwise. -/
def create (ws : WorkerWorkspace) (worker branch : String) (gitOk : Bool) : Option WorkerWorkspace :=
  if (ws.worktrees worker).isSome ∨ (ws.branches branch).isSome ∨ gitOk = false then none
  else some { ws with
    worktrees := Function.update ws.worktrees worker (some branch)
    branches := Function.update ws.branches branch (some []) }

def bind (ws : WorkerWorkspace) (worker branch : String) (gitOk : Bool) : Option WorkerWorkspace :=
  if worker ∈ ws.roots then some ws
  else match ws.create worker branch gitOk with
    | none => none
    | some ws' => some { ws' with roots := worker :: ws.roots }

def rootFor (ws : WorkerWorkspace) (assignedWorkerId : Option String) : Option String :=
  match assignedWorkerId with
  | none => none
  | some worker => if worker ∈ ws.roots then some worker else none

/-- `git add -A` and `git commit` in a worktree, on the branch checked out there. -/
def commit (ws : WorkerWorkspace) (worker chunkId : String) : WorkerWorkspace :=
  match ws.worktrees worker with
  | none => ws
  | some b => { ws with branches := Function.update ws.branches b (some ((ws.branches b).getD [] ++ [chunkId])) }

/-- **A bound worker keeps its worktree**, whatever the branch asked for. -/
theorem bind_of_bound {ws : WorkerWorkspace} {worker : String} (h : worker ∈ ws.roots) (branch : String) (gitOk : Bool) :
    ws.bind worker branch gitOk = some ws := if_pos h

theorem bind_eq_some_of_unbound {ws ws' : WorkerWorkspace} {worker branch : String} {gitOk : Bool}
    (h : worker ∉ ws.roots) (hb : ws.bind worker branch gitOk = some ws') :
    ws.worktrees worker = none ∧ ws.branches branch = none ∧
      ws' = ⟨worker :: ws.roots, Function.update ws.worktrees worker (some branch),
        Function.update ws.branches branch (some [])⟩ := by
  rw [bind, if_neg h, create] at hb
  by_cases hc : (ws.worktrees worker).isSome ∨ (ws.branches branch).isSome ∨ gitOk = false
  · rw [if_pos hc] at hb
    cases hb
  · rw [if_neg hc] at hb
    simp only [not_or, Bool.not_eq_true, Option.isSome_eq_false_iff, Option.isNone_iff_eq_none] at hc
    cases hb
    exact ⟨hc.1, hc.2.1, rfl⟩

/-- Every bound worker has its worktree, and the branch checked out there exists. -/
def Wf (ws : WorkerWorkspace) : Prop := ∀ w ∈ ws.roots, ∃ b, ws.worktrees w = some b ∧ (ws.branches b).isSome

theorem wf_new (worktrees : String → Option String) (branches : String → Option (List String)) :
    (new worktrees branches).Wf := by
  intro w hw
  cases hw

/-- **A binding keeps** the other worktrees, and every commit on every branch. -/
theorem bind_keeps {ws ws' : WorkerWorkspace} {worker branch : String} {gitOk : Bool} (hwf : ws.Wf)
    (hb : ws.bind worker branch gitOk = some ws') :
    ws'.Wf ∧ worker ∈ ws'.roots ∧ (∀ w ∈ ws.roots, w ∈ ws'.roots ∧ ws'.worktrees w = ws.worktrees w) ∧
      ∀ b l, ws.branches b = some l → ws'.branches b = some l := by
  by_cases h : worker ∈ ws.roots
  · rw [bind_of_bound h] at hb
    cases hb
    exact ⟨hwf, h, fun w hw => ⟨hw, rfl⟩, fun b l hl => hl⟩
  · obtain ⟨-, hbranch, rfl⟩ := bind_eq_some_of_unbound h hb
    have hkeep : ∀ b l, ws.branches b = some l → Function.update ws.branches branch (some []) b = some l := by
      intro b l hl
      rw [Function.update_of_ne (fun he => by rw [he, hbranch] at hl; cases hl)]
      exact hl
    have hother : ∀ w ∈ ws.roots, Function.update ws.worktrees worker (some branch) w = ws.worktrees w := by
      intro w hw
      refine Function.update_of_ne ?_ _ _
      rintro rfl
      exact h hw
    refine ⟨fun w hw => ?_, List.mem_cons_self, fun w hw => ⟨List.mem_cons_of_mem _ hw, hother w hw⟩, hkeep⟩
    rcases List.mem_cons.1 hw with rfl | hw
    · exact ⟨branch, Function.update_self _ _ _, by simp⟩
    · obtain ⟨b, hb', hsome⟩ := hwf w hw
      obtain ⟨l, hl⟩ := Option.isSome_iff_exists.1 hsome
      exact ⟨b, (hother w hw).trans hb', Option.isSome_iff_exists.2 ⟨l, hkeep b l hl⟩⟩

theorem commit_keeps {ws : WorkerWorkspace} {worker branch : String} (hwf : ws.Wf)
    (h : ws.worktrees worker = some branch) (chunkId : String) :
    (ws.commit worker chunkId).Wf ∧ (ws.commit worker chunkId).roots = ws.roots ∧
      (ws.commit worker chunkId).worktrees = ws.worktrees ∧
      (∀ b l, ws.branches b = some l → ∃ l', (ws.commit worker chunkId).branches b = some l' ∧ l ⊆ l') ∧
      ∃ l, (ws.commit worker chunkId).branches branch = some l ∧ chunkId ∈ l := by
  have he : ws.commit worker chunkId = { ws with
      branches := Function.update ws.branches branch (some ((ws.branches branch).getD [] ++ [chunkId])) } := by
    rw [commit, h]
  have hkeep : ∀ b l, ws.branches b = some l → ∃ l',
      Function.update ws.branches branch (some ((ws.branches branch).getD [] ++ [chunkId])) b = some l' ∧ l ⊆ l' := by
    intro b l hl
    by_cases hb : b = branch
    · subst hb
      rw [Function.update_self, hl]
      exact ⟨_, rfl, List.subset_append_left _ _⟩
    · rw [Function.update_of_ne hb]
      exact ⟨l, hl, fun _ hx => hx⟩
  rw [he]
  refine ⟨fun w hw => ?_, rfl, rfl, hkeep, _, Function.update_self _ _ _, by simp⟩
  obtain ⟨b, hb, hsome⟩ := hwf w hw
  obtain ⟨l, hl⟩ := Option.isSome_iff_exists.1 hsome
  obtain ⟨l', hl', -⟩ := hkeep b l hl
  exact ⟨b, hb, Option.isSome_iff_exists.2 ⟨l', hl'⟩⟩

end WorkerWorkspace
end Engine
end DevHarness
