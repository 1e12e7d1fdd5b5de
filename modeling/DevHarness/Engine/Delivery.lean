import DevHarness.Engine.Isolation
import DevHarness.Engine.DagOrder
import DevHarness.Engine.SdlcGraph
import DevHarness.Lib.Stash
/-!
# Delivery — from a chunk's commit to HEAD (`engine/pipeline.py`, `engine/worker_workspace.py`, `engine/integrator.py`)

A run of the graph beside the repository that its git commands change: a binding makes a branch at HEAD, a chunk's commit
goes on top of the branch its worktree has checked out, and the integrator merges the branches of the chunks that
`chunk_dag` lists.  No commit is ever lost, whatever the run does and however the integrator ends (`commits_kept`).  With
every chunk on its own branch and no execution abandoned, what the integrator leaves HEAD at reaches every commit the run
made, one of each chunk, and what HEAD was before (`delivered`).
-/
namespace DevHarness
namespace Engine

open Lib.Git

variable {B : Type}

abbrev ChunkCommit (B : Type) := Commit (Lib.Tree String B) String

/-- `git worktree add -b name`, of the repository: a branch at HEAD. -/
def addBranch (r : GitRepo B) (name : String) : GitRepo B :=
  { r with branches := Function.update r.branches name r.headCommit }

/-- `git commit` in a worktree that has this branch checked out. -/
def commitOn (r : GitRepo B) (name : String) (commit : ChunkCommit B) : GitRepo B :=
  { r with branches := Function.update r.branches name (some commit) }

/-- A commit a run made, and the branch it was made on. -/
structure MadeCommit (B : Type) where
  chunk : Nat
  branch : String
  commit : ChunkCommit B

/-- A run, the repository, and the commits made so far. -/
structure Delivery (B : Type) where
  run : Run
  repo : GitRepo B
  made : List (MadeCommit B) := []

namespace Delivery

variable (cfg : PipelineConfig)

/-- `WorktreeManager.create`, where this binding is a new one. -/
def gitBind (s : Delivery B) (c : Nat) (gitOk : Bool) : GitRepo B :=
  match s.run.pool.assignedWorkerId c with
  | none => s.repo
  | some w =>
    if w ∉ s.run.workspace.roots ∧ (s.run.workspace.bind w (cfg.branch c) gitOk).isSome = true then
      addBranch s.repo (cfg.branch c)
    else s.repo

/-- `_commit_chunk`: what `git add -A` has staged, as a commit on the worktree's branch. -/
def gitCommit (s : Delivery B) (c : Nat) (tree : Lib.Tree String B) : Option (MadeCommit B) :=
  match s.run.workspace.rootFor (s.run.pool.assignedWorkerId c) with
  | none => none
  | some w => match s.run.workspace.worktrees w with
    | none => none
    | some name => (s.repo.branches name).map (fun tip => ⟨c, name, .mk tree ("chunk " ++ cfg.chunkId c) [tip]⟩)

/-- What the git commands of a step leave; `tree` is what is staged when it commits. -/
def after (s : Delivery B) (run : Run) (tree : Lib.Tree String B) : Act → Delivery B
  | .bind c gitOk => ⟨run, s.gitBind cfg c gitOk, s.made⟩
  | .commit c true => match s.gitCommit cfg c tree with
    | none => ⟨run, s.repo, s.made⟩
    | some x => ⟨run, commitOn s.repo x.branch x.commit, s.made ++ [x]⟩
  | _ => ⟨run, s.repo, s.made⟩

def step (s : Delivery B) (a : Act × Lib.Tree String B) : Option (Delivery B) :=
  (cfg.step s.run a.1).map (fun run => s.after cfg run a.2 a.1)

def machine : Lib.Machine (Delivery B) (Act × Lib.Tree String B) := ⟨step cfg⟩

/-- A new workspace on a repository: its branches are those that are there. -/
def start (status : Nat → ChunkStatus) (worktrees : String → Option String) (r : GitRepo B) : Delivery B :=
  ⟨PipelineConfig.init status (.new worktrees (fun name => (r.branches name).map (fun _ => []))), r, []⟩

/-- `_Pipeline.integrate`: the branches of the chunks in `chunk_dag` are merged, unless `ChunkDAG` refuses them. -/
def integrate [DecidableEq B] (limit : Nat) (m : GitMerger B) (s : Delivery B) :
    Option (Except IntegrateError (List String) × GitRepo B) :=
  match ChunkDAG.build limit (SdlcConfig.dagChunks cfg.chunks s.run) with
  | .error _ => none
  | .ok dag => some (Integrator.integrate m s.repo dag.topologicalChunks)

/-- **The repository as the run has left it**: no branch that was there has moved, the bound worktrees are on others, and
every commit is on the one it was made on. -/
structure Tracked (r₀ : GitRepo B) (s : Delivery B) : Prop where
  wf : s.run.workspace.Wf
  head : s.repo.head = r₀.head
  kept : ∀ b t, r₀.branches b = some t → s.repo.branches b = some t
  agree : ∀ b, (s.run.workspace.branches b).isSome = (s.repo.branches b).isSome
  own : ∀ w ∈ s.run.workspace.roots, ∀ b, s.run.workspace.worktrees w = some b → r₀.branches b = none
  made : ∀ x ∈ s.made, r₀.branches x.branch = none ∧ ∃ tip, s.repo.branches x.branch = some tip ∧ x.commit ∈ tip.history
  returned : ∀ c, s.run.exec c = .returned → ∃ x ∈ s.made, x.chunk = c

variable {cfg} {r₀ : GitRepo B} {s : Delivery B}

theorem after_run (run : Run) (tree : Lib.Tree String B) (a : Act) : (s.after cfg run tree a).run = run := by
  unfold after
  split
  · rfl
  · split <;> rfl
  · rfl

/-- **The run is the pipeline's.** -/
theorem step_run (s : Delivery B) (a : Act × Lib.Tree String B) (t : Delivery B) (h : (machine cfg).step s a = some t) :
    cfg.machine.step s.run a.1 = some t.run := by
  obtain ⟨run, hrun, rfl⟩ := Option.map_eq_some_iff.1 h
  rw [after_run]
  exact hrun

theorem tracked_start (status : Nat → ChunkStatus) (worktrees : String → Option String) (r : GitRepo B) :
    Tracked r (start status worktrees r) where
  wf := WorkerWorkspace.wf_new _ _
  head := rfl
  kept := fun _ _ h => h
  agree := fun b => Option.isSome_map
  own := fun w hw => by cases hw
  made := fun x hx => by cases hx
  returned := fun c hc => by cases hc

theorem Tracked.headCommit (h : Tracked r₀ s) {h₀ : ChunkCommit B} (hr : r₀.headCommit = some h₀) :
    s.repo.headCommit = some h₀ := by
  unfold Repo.headCommit at hr ⊢
  rw [h.head]
  cases hh : r₀.head with
  | branch n =>
    rw [hh] at hr
    exact h.kept n h₀ hr
  | detached c =>
    rw [hh] at hr
    exact hr

/-- A step without git: the workspace is the same, and no execution returns. -/
theorem Tracked.congr (h : Tracked r₀ s) {run : Run} (hws : run.workspace = s.run.workspace)
    (hreturned : ∀ c, run.exec c = .returned → s.run.exec c = .returned) :
    Tracked r₀ ⟨run, s.repo, s.made⟩ where
  wf := by
    rw [hws]
    exact h.wf
  head := h.head
  kept := h.kept
  agree := fun b => by
    rw [hws]
    exact h.agree b
  own := fun w hw => by
    rw [hws] at hw ⊢
    exact h.own w hw
  made := h.made
  returned := fun c hc => h.returned c (hreturned c hc)

theorem returned_of_move {run : Run} {c d : Nat} {e : Exec} {st : ChunkStatus} {ws : WorkerWorkspace}
    (he : e ≠ .returned) (hd : (PipelineConfig.move run c e st ws).exec d = .returned) : run.exec d = .returned := by
  by_cases hdc : d = c
  · rw [hdc, move_exec_self] at hd
    exact absurd hd he
  · rwa [move_exec_of_ne run hdc] at hd

theorem Tracked.moved (h : Tracked r₀ s) {c : Nat} {e : Exec} (he : e ≠ .returned) (st : ChunkStatus) :
    Tracked r₀ ⟨PipelineConfig.move s.run c e st s.run.workspace, s.repo, s.made⟩ :=
  h.congr rfl (fun _ hd => returned_of_move he hd)

/-- **A binding** leaves the repository as it is, or makes a branch that was not there. -/
theorem Tracked.bind (h : Tracked r₀ s) {h₀ : ChunkCommit B} (hr : r₀.headCommit = some h₀) (c : Nat) (gitOk : Bool) :
    Tracked r₀ ⟨cfg.runBind s.run c gitOk, s.gitBind cfg c gitOk, s.made⟩ := by
  unfold PipelineConfig.runBind gitBind
  cases hw : s.run.pool.assignedWorkerId c with
  | none => exact h.moved (by simp) _
  | some w =>
    dsimp only
    by_cases hroot : w ∈ s.run.workspace.roots
    · rw [WorkerWorkspace.bind_of_bound hroot, if_neg (fun hc => hc.1 hroot)]
      exact h.moved (by simp) _
    · cases hb : s.run.workspace.bind w (cfg.branch c) gitOk with
      | none =>
        rw [if_neg (fun hc => by cases hc.2)]
        exact h.moved (by simp) _
      | some ws =>
        rw [if_pos ⟨hroot, rfl⟩]
        obtain ⟨hnotree, hnew, rfl⟩ := WorkerWorkspace.bind_eq_some_of_unbound hroot hb
        have hnone : s.repo.branches (cfg.branch c) = none := by
          have hagree := h.agree (cfg.branch c)
          rw [hnew] at hagree
          exact Option.not_isSome_iff_eq_none.1 (by rw [← hagree]; simp)
        have hkept : ∀ b t, s.repo.branches b = some t → (addBranch s.repo (cfg.branch c)).branches b = some t := by
          intro b t hb
          refine (Function.update_of_ne (fun he => ?_) _ _).trans hb
          rw [he, hnone] at hb
          cases hb
        refine ⟨(WorkerWorkspace.bind_keeps h.wf hb).1, h.head, fun b t hb => hkept b t (h.kept b t hb), fun b => ?_,
          fun v hv b hvb => ?_, fun x hx => ?_,
          fun d hd => h.returned d (returned_of_move (by simp) hd)⟩
        · show (Function.update s.run.workspace.branches (cfg.branch c) (some []) b).isSome =
            (Function.update s.repo.branches (cfg.branch c) s.repo.headCommit b).isSome
          by_cases hbc : b = cfg.branch c
          · rw [hbc, Function.update_self, Function.update_self, h.headCommit hr]
            rfl
          · rw [Function.update_of_ne hbc, Function.update_of_ne hbc]
            exact h.agree b
        · change Function.update s.run.workspace.worktrees w (some (cfg.branch c)) v = some b at hvb
          rcases List.mem_cons.1 hv with rfl | hold
          · -- the new worktree's branch was in neither repository
            rw [Function.update_self] at hvb
            cases hvb
            cases hr₀ : r₀.branches (cfg.branch c) with
            | none => rfl
            | some t =>
              rw [h.kept _ t hr₀] at hnone
              cases hnone
          · have hvw : v ≠ w := fun he => hroot (he ▸ hold)
            rw [Function.update_of_ne hvw] at hvb
            exact h.own v hold b hvb
        · obtain ⟨hnew', tip, htip, hx⟩ := h.made x hx
          exact ⟨hnew', tip, hkept _ tip htip, hx⟩

theorem gitCommit_spec {c : Nat} {tree : Lib.Tree String B} {x : MadeCommit B} (h : s.gitCommit cfg c tree = some x) :
    x.chunk = c ∧ ∃ w, s.run.workspace.rootFor (s.run.pool.assignedWorkerId c) = some w ∧
      s.run.workspace.worktrees w = some x.branch := by
  unfold gitCommit at h
  split at h
  · cases h
  · rename_i w hroot
    split at h
    · cases h
    · rename_i name htree
      obtain ⟨tip, -, rfl⟩ := Option.map_eq_some_iff.1 h
      exact ⟨rfl, w, hroot, htree⟩

/-- **A commit** goes on top of the branch of its worktree, which is none of those that were there. -/
theorem Tracked.commit (h : Tracked r₀ s) (c : Nat) (tree : Lib.Tree String B) :
    Tracked r₀ (s.after cfg (cfg.runCommit s.run c true) tree (.commit c true)) := by
  cases hroot : s.run.workspace.rootFor (s.run.pool.assignedWorkerId c) with
  | none =>
    have hgit : s.gitCommit cfg c tree = none := by rw [gitCommit, hroot]
    have hrun : cfg.runCommit s.run c true =
        PipelineConfig.move s.run c .raised (s.run.pool.status c) s.run.workspace := by
      rw [PipelineConfig.runCommit, hroot]
    rw [after, hgit, hrun]
    exact h.moved (by simp) _
  | some w =>
    obtain ⟨-, hmem⟩ := rootFor_eq_some.1 hroot
    obtain ⟨name, htree, hsome⟩ := h.wf w hmem
    have hnew := h.own w hmem name htree
    rw [h.agree] at hsome
    obtain ⟨tip, htip⟩ := Option.isSome_iff_exists.1 hsome
    have hgit : s.gitCommit cfg c tree = some ⟨c, name, .mk tree ("chunk " ++ cfg.chunkId c) [tip]⟩ := by
      rw [gitCommit, hroot]
      dsimp only
      rw [htree]
      dsimp only
      rw [htip, Option.map_some]
    have hgrown : ∀ d x t, s.repo.branches d = some t → x ∈ t.history →
        ∃ t', (commitOn s.repo name (.mk tree ("chunk " ++ cfg.chunkId c) [tip])).branches d = some t' ∧
          x ∈ t'.history := by
      intro d x t ht hx
      by_cases hd : d = name
      · rw [hd, htip] at ht
        cases ht
        rw [hd]
        exact ⟨_, Function.update_self _ _ _, Commit.mem_history_of_parent List.mem_cons_self hx⟩
      · exact ⟨t, (Function.update_of_ne hd _ _).trans ht, hx⟩
    have hws : s.run.workspace.commit w (cfg.chunkId c) = { s.run.workspace with
        branches := Function.update s.run.workspace.branches name
          (some ((s.run.workspace.branches name).getD [] ++ [cfg.chunkId c])) } := by
      rw [WorkerWorkspace.commit, htree]
    have hwf := (WorkerWorkspace.commit_keeps h.wf htree (cfg.chunkId c)).1
    have hrun : cfg.runCommit s.run c true =
        PipelineConfig.move s.run c .returned (s.run.pool.status c) (s.run.workspace.commit w (cfg.chunkId c)) := by
      rw [PipelineConfig.runCommit, hroot]
      exact if_pos rfl
    rw [after, hgit, hrun]
    rw [hws] at hwf ⊢
    refine ⟨hwf, h.head, fun b t hb => ?_, fun b => ?_, h.own, fun x hx => ?_, fun d hd => ?_⟩
    · refine (Function.update_of_ne (fun he => ?_) _ _).trans (h.kept b t hb)
      rw [he, hnew] at hb
      cases hb
    · show (Function.update s.run.workspace.branches name (some _) b).isSome =
        (Function.update s.repo.branches name (some _) b).isSome
      by_cases hbc : b = name
      · rw [hbc, Function.update_self, Function.update_self]
        rfl
      · rw [Function.update_of_ne hbc, Function.update_of_ne hbc]
        exact h.agree b
    · rcases List.mem_append.1 hx with hx | hx
      · obtain ⟨hin, t, ht, hxt⟩ := h.made x hx
        exact ⟨hin, hgrown _ _ t ht hxt⟩
      · cases List.mem_singleton.1 hx
        exact ⟨hnew, _, Function.update_self _ _ _, Commit.self_mem_history _⟩
    · by_cases hdc : d = c
      · exact ⟨_, List.mem_append_right _ (List.mem_singleton_self _), hdc.symm⟩
      · change (PipelineConfig.move s.run c .returned _ _).exec d = .returned at hd
        rw [move_exec_of_ne s.run hdc] at hd
        obtain ⟨x, hm, hx⟩ := h.returned d hd
        exact ⟨x, List.mem_append_left _ hm, hx⟩

/-- **Every step keeps track**: no law of the run is needed. -/
theorem tracked_step {h₀ : ChunkCommit B} (hr : r₀.headCommit = some h₀) (h : Tracked r₀ s) {t : Delivery B}
    {a : Act × Lib.Tree String B} (hstep : step cfg s a = some t) : Tracked r₀ t := by
  obtain ⟨act, tree⟩ := a
  obtain ⟨run, hrun, rfl⟩ := Option.map_eq_some_iff.1 hstep
  dsimp only at hrun ⊢
  cases act with
  | bind c gitOk =>
    simp only [PipelineConfig.step, Option.ite_none_right_eq_some, Option.some.injEq] at hrun
    obtain ⟨-, rfl⟩ := hrun
    exact h.bind hr c gitOk
  | commit c gitOk =>
    simp only [PipelineConfig.step, Option.ite_none_right_eq_some, Option.some.injEq] at hrun
    obtain ⟨-, rfl⟩ := hrun
    cases gitOk with
    | true => exact h.commit c tree
    | false =>
      unfold PipelineConfig.runCommit
      cases hroot : s.run.workspace.rootFor (s.run.pool.assignedWorkerId c) with
      | none => exact h.moved (by simp) _
      | some w => exact h.moved (by simp) _
  | develop c ok =>
    simp only [PipelineConfig.step, Option.ite_none_right_eq_some, Option.some.injEq] at hrun
    obtain ⟨-, rfl⟩ := hrun
    unfold PipelineConfig.runDeveloper
    split
    · exact h.moved (by simp) _
    · split
      · exact h.moved (by simp) _
      · exact h.moved (by simp) _
  | test c outcome =>
    simp only [PipelineConfig.step, Option.ite_none_right_eq_some, Option.some.injEq] at hrun
    obtain ⟨-, rfl⟩ := hrun
    cases outcome with
    | passed => exact h.moved (by simp) _
    | failed => exact h.moved (by simp) _
    | crashed => exact h.moved (by simp) _
  | enter =>
    simp only [PipelineConfig.step, Option.ite_none_right_eq_some, Option.some.injEq] at hrun
    obtain ⟨-, rfl⟩ := hrun
    exact h.congr rfl (fun c hc => hc)
  | turn =>
    simp only [PipelineConfig.step, Option.ite_none_right_eq_some, Option.some.injEq] at hrun
    obtain ⟨-, rfl⟩ := hrun
    refine h.congr rfl (fun c hc => ?_)
    simp only [PipelineConfig.turn] at hc
    split at hc
    · cases hc
    · exact hc
  | wake done =>
    simp only [PipelineConfig.step, Option.ite_none_right_eq_some, Option.some.injEq] at hrun
    obtain ⟨-, rfl⟩ := hrun
    exact h.congr rfl (fun c hc => hc)
  | settle =>
    simp only [PipelineConfig.step, Option.ite_none_right_eq_some] at hrun
    obtain ⟨-, hrun⟩ := hrun
    split at hrun
    · obtain ⟨ok, -, rfl⟩ := Option.map_eq_some_iff.1 hrun
      exact h.congr rfl (fun c hc => hc)
    · cases hrun
  | leave =>
    cases effect_of_step hrun with
    | execute hn hm ht hbegins hleave hturn => exact absurd rfl hleave
    | leave hn hp hall => exact h.congr rfl (fun c hc => hc)

theorem tracked_of_run {h₀ : ChunkCommit B} (hr : r₀.headCommit = some h₀) {status : Nat → ChunkStatus}
    {worktrees : String → Option String} {acts : List (Act × Lib.Tree String B)}
    (hrun : (machine cfg).run (start status worktrees r₀) acts = some s) : Tracked r₀ s :=
  (machine cfg).inv_of_run (Tracked r₀) (fun _ _ _ h hstep => tracked_step hr h hstep) acts _ s
    (tracked_start status worktrees r₀) hrun

/-- **On its own branch**: each commit was made for a chunk of the plan, on that chunk's branch. -/
def Housed (cfg : PipelineConfig) (s : Delivery B) : Prop :=
  ∀ x ∈ s.made, x.chunk ∈ cfg.graph.order ∧ x.branch = cfg.branch x.chunk

theorem made_of_step {t : Delivery B} {a : Act × Lib.Tree String B} (hstep : step cfg s a = some t) :
    t.made = s.made ∨ ∃ c x, a.1 = .commit c true ∧ s.gitCommit cfg c a.2 = some x ∧ t.made = s.made ++ [x] := by
  obtain ⟨act, tree⟩ := a
  obtain ⟨run, -, rfl⟩ := Option.map_eq_some_iff.1 hstep
  unfold after
  dsimp only
  split
  · exact Or.inl rfl
  · rename_i c
    split
    · exact Or.inl rfl
    · rename_i x hgit
      exact Or.inr ⟨c, x, rfl, hgit, rfl⟩
  · exact Or.inl rfl

theorem housed_step (ho : Orderly cfg s.run) (hi : Isolated cfg s.run) (h : Housed cfg s) {t : Delivery B}
    {a : Act × Lib.Tree String B} (hstep : step cfg s a = some t) : Housed cfg t := by
  rcases made_of_step hstep with hmade | ⟨c, x, hact, hgit, hmade⟩
  · rw [Housed, hmade]
    exact h
  · have hrun := step_run s a t hstep
    change cfg.step s.run a.1 = some t.run at hrun
    rw [hact] at hrun
    simp only [PipelineConfig.step, Option.ite_none_right_eq_some] at hrun
    obtain ⟨⟨hn, he⟩, -⟩ := hrun
    have hworking : (s.run.exec c).Working := Or.inr (Or.inr he)
    obtain ⟨hchunk, w, hroot, htree⟩ := gitCommit_spec hgit
    obtain ⟨v, hroot', hown⟩ := hi.working c hworking
    rw [hroot] at hroot'
    cases hroot'
    rw [htree] at hown
    intro y hy
    rw [hmade] at hy
    rcases List.mem_append.1 hy with hy | hy
    · exact h y hy
    · rw [List.mem_singleton.1 hy, hchunk]
      exact ⟨(ho.visit hn).sub c ((ho.visit hn).active c hworking.active), Option.some.inj hown⟩

theorem housed_of_run {status : Nat → ChunkStatus} {worktrees : String → Option String}
    {acts : List (Act × Lib.Tree String B)}
    (howns : cfg.machine.Along (BindsOwn cfg) (start status worktrees r₀).run (acts.map Prod.fst))
    (hrun : (machine cfg).run (start status worktrees r₀) acts = some s) : Housed cfg s := by
  refine ((machine cfg).inv_of_along
    (fun s => Orderly cfg s.run ∧ s.run.workspace.Wf ∧ Isolated cfg s.run ∧ Housed cfg s) (fun s a t hi hl h => ?_)
    acts _ s ⟨orderly_init _ _, WorkerWorkspace.wf_new _ _, isolated_init _ _, fun x hx => by cases hx⟩
    (Lib.Machine.along_of_project step_run acts _ howns) hrun).2.2.2
  obtain ⟨horderly, hwf, hisolated, hhoused⟩ := hi
  obtain ⟨hwf', hisolated'⟩ := isolated_step horderly hwf hisolated hl (step_run s a t h)
  exact ⟨orderly_step horderly (step_run s a t h), hwf', hisolated', housed_step horderly hisolated hhoused h⟩

/-! ## The integrator -/

def firstRepo : GitRepo String :=
  let first : ChunkCommit String := .mk (Lib.Tree.single "README.md" "readme") "init" []
  { branches := fun n => if n = "main" then some first else none
    head := .branch "main"
    index := first.tree
    unmerged := ∅
    mergeHead := none
    files := first.tree }

def pathByPath : GitMerger String where
  threeWay := fun h t => match h.mergeBases t with
    | base :: _ => Merge3.pathwise.merge base.tree h.tree t.tree
    | [] => .clean h.tree
  message := fun _ name => "Merge branch '" ++ name ++ "'"
  renamed := fun _ _ => ∅

def withFile (path : String) : Lib.Tree String String :=
  Lib.Tree.overlay {path} (Lib.Tree.single path "pass") (Lib.Tree.single "README.md" "readme")

/-- **No commit is lost**, in any run beside a repository whose HEAD has a commit, however the integrator ends: HEAD and
the branches that were there are where they were when it is called, and a commit's branch reaches the commit and is not
moved by it. -/
theorem commits_kept [DecidableEq B] (status : Nat → ChunkStatus) (worktrees : String → Option String) {r : GitRepo B}
    {h₀ : ChunkCommit B} (hr : r.headCommit = some h₀) (limit : Nat) (m : GitMerger B)
    (acts : List (Act × Lib.Tree String B)) (s : Delivery B)
    (hrun : (machine cfg).run (start status worktrees r) acts = some s) :
    s.repo.head = r.head ∧ (∀ b t, r.branches b = some t → s.repo.branches b = some t) ∧
      ∀ x ∈ s.made, ∃ tip, s.repo.branches x.branch = some tip ∧ x.commit ∈ tip.history ∧
        ∀ res, s.integrate cfg limit m = some res → res.2.branches x.branch = some tip := by
  have htracked := tracked_of_run hr hrun
  refine ⟨htracked.head, htracked.kept, fun x hx => ?_⟩
  obtain ⟨hnew, tip, htip, hreach⟩ := htracked.made x hx
  refine ⟨tip, htip, hreach, fun res hres => ?_⟩
  have hhead : s.repo.head ≠ .branch x.branch := by
    intro he
    rw [htracked.head] at he
    rw [Repo.headCommit, he] at hr
    exact absurd (hnew.symm.trans hr) (by simp)
  unfold integrate at hres
  split at hres
  · cases hres
  · rw [← Option.some.inj hres, Integrator.integrate_branches m _ hhead]
    exact htip

def stagedFiles (acts : List Act) : List (Act × Lib.Tree String String) :=
  acts.map (fun a => (a, match a with
    | .commit c _ => withFile (if c = 0 then "a.py" else "b.py")
    | _ => .empty))

/-- **On a slot used twice**: the commits are kept, both on the first chunk's branch, and the integrator raises. -/
theorem commits_kept_slotReused : ∃ cfg, PipelineConfig.ofChunks 900 [⟨"a", []⟩, ⟨"b", []⟩] 1 = some cfg ∧ ∃ s r' e,
    (machine cfg).run (start (fun _ => .pending) (fun _ => none) firstRepo) (stagedFiles slotReused) = some s ∧
      s.made.map MadeCommit.branch = ["chunk/a", "chunk/a"] ∧ s.integrate cfg 900 pathByPath = some (.error e, r') ∧
      ∀ x ∈ s.made, ∃ tip, r'.branches x.branch = some tip ∧ x.commit ∈ tip.history := by
  obtain ⟨cfg, hcfg, h⟩ := (Option.any_eq_true (p := fun cfg : PipelineConfig =>
      ((machine cfg).run (start (fun _ => .pending) (fun _ => none) firstRepo) (stagedFiles slotReused)).any
        (fun s : Delivery String => decide (s.made.map MadeCommit.branch = ["chunk/a", "chunk/a"]) &&
          (s.integrate cfg 900 pathByPath).any (fun res : Except IntegrateError (List String) × GitRepo String =>
            decide (res.1.toOption = none)))) _).1
    (show (PipelineConfig.ofChunks 900 [⟨"a", []⟩, ⟨"b", []⟩] 1).any _ = true by decide +kernel)
  obtain ⟨s, hrun, hs⟩ := (Option.any_eq_true _ _).1 h
  rw [Bool.and_eq_true, decide_eq_true_eq] at hs
  obtain ⟨⟨result, r'⟩, hintegrate, hraised⟩ := (Option.any_eq_true _ _).1 hs.2
  cases result with
  | ok ids => cases of_decide_eq_true hraised
  | error e =>
    obtain ⟨-, -, hmade⟩ := commits_kept (fun _ => .pending) (fun _ => none) rfl 900 pathByPath _ s hrun
    refine ⟨cfg, hcfg, s, r', e, hrun, hs.1, hintegrate, fun x hx => ?_⟩
    obtain ⟨tip, -, hreach, hkept⟩ := hmade x hx
    exact ⟨tip, hkept _ hintegrate, hreach⟩

/-- When the integrator is entered, the last visit has appended every chunk. -/
theorem mem_chunkDag_of_run {run run' : Run} {acts : List Act} (hstart : run.node = .develop)
    (hrun : cfg.machine.run run acts = some run') (hnode : run'.node = .integrate) :
    ∀ c < cfg.chunks.length, c ∈ run'.chunkDag := by
  refine cfg.machine.inv_of_run (fun run => run.node = .integrate → ∀ c < cfg.chunks.length, c ∈ run.chunkDag)
    (fun run a run' _ hstep hnode => ?_) acts run run' (fun hn => by rw [hstart] at hn; cases hn) hrun hnode
  cases effect_of_step hstep with
  | enter hn => cases hnode
  | turn hn hp => exact absurd (hn.symm.trans hnode) (by simp)
  | wake hn hp hd hall => exact absurd (hn.symm.trans hnode) (by simp)
  | settle hn hp hr => exact absurd (hn.symm.trans hnode) (by simp)
  | execute hn hm ht hbegins hleave hturn => exact absurd (hn.symm.trans hnode) (by simp)
  | leave hn hp hall => exact fun c hc => List.mem_append_right _ (List.mem_range.2 hc)

theorem branch_mem_branchesOf {run : Run} {limit : Nat} {dag : ChunkDAG}
    (hdag : ChunkDAG.build limit (SdlcConfig.dagChunks cfg.chunks run) = .ok dag) {c : Nat}
    (hc : c ∈ run.chunkDag) (hlt : c < cfg.chunks.length) :
    cfg.branch c ∈ Integrator.branchesOf dag.topologicalChunks := by
  have hget : cfg.chunks[c]? = some cfg.chunks[c] := List.getElem?_eq_getElem hlt
  have hlisted : cfg.chunks[c] ∈ SdlcConfig.dagChunks cfg.chunks run :=
    List.mem_filterMap.2 ⟨c, hc, hget⟩
  have hid : cfg.chunks[c].chunkId ∈ dag.order := by
    rw [ChunkDAG.mem_order_iff hdag, (ChunkDAG.build_spec hdag).1]
    exact exists_get?_chunksById hlisted
  rw [← ChunkDAG.map_chunkId_topologicalChunks hdag] at hid
  obtain ⟨chunk, hm, he⟩ := List.mem_map.1 hid
  refine List.mem_map.2 ⟨chunk, hm, ?_⟩
  rw [he, PipelineConfig.branch, PipelineConfig.chunkId, hget]

/-- **Delivered**: from a fresh plan, where every binding gets its own branch and no visit abandons an execution, the
integrator, when it returns, leaves HEAD at a commit that reaches every commit the run made, one of each chunk of the
graph's order, and what HEAD was before. -/
theorem delivered [DecidableEq B] (hslots : 1 ≤ cfg.maxParallelWorkers) {status : Nat → ChunkStatus}
    (hstart : Unstarted cfg status) (worktrees : String → Option String) {r r' : GitRepo B} {h₀ : ChunkCommit B}
    (hr : r.headCommit = some h₀) (m : GitMerger B) (acts : List (Act × Lib.Tree String B)) (s : Delivery B)
    (howns : cfg.machine.Along (BindsOwn cfg) (start status worktrees r).run (acts.map Prod.fst))
    (habandoned : cfg.machine.Along NothingAbandoned (start status worktrees r).run (acts.map Prod.fst))
    (hrun : (machine cfg).run (start status worktrees r) acts = some s) (hnode : s.run.node = .integrate)
    {limit : Nat} {ids : List String} (hintegrate : s.integrate cfg limit m = some (.ok ids, r')) :
    ∃ h, r'.headCommit = some h ∧ h₀ ∈ h.history ∧ (∀ x ∈ s.made, x.commit ∈ h.history) ∧
      ∀ c ∈ cfg.graph.order, ∃ x ∈ s.made, x.chunk = c := by
  have hrun' := Lib.Machine.run_of_project step_run acts _ _ hrun
  have htracked := tracked_of_run hr hrun
  have hboard := board_of_run hslots hstart habandoned hrun'
  unfold Board at hboard
  rw [hnode] at hboard
  unfold integrate at hintegrate
  cases hdag : ChunkDAG.build limit (SdlcConfig.dagChunks cfg.chunks s.run) with
  | error e => rw [hdag] at hintegrate; cases hintegrate
  | ok dag =>
    rw [hdag] at hintegrate
    have hres := Option.some.inj hintegrate
    obtain ⟨-, hall, -⟩ := Integrator.mergesAll_integrate m s.repo dag.topologicalChunks ids (by rw [hres])
    rw [hres] at hall
    obtain ⟨h, hadvanced, hanc, htips⟩ := Repo.Advanced.mergeAll _ (Repo.Advanced.refl (htracked.headCommit hr)) hall
    refine ⟨h, hadvanced.head, hanc, fun x hx => ?_, fun c hc => htracked.returned c (hboard c hc).2⟩
    obtain ⟨horder, hbranch⟩ := housed_of_run howns hrun x hx
    obtain ⟨-, tip, htip, hxtip⟩ := htracked.made x hx
    have hlt := lt_of_mem_order horder
    obtain ⟨t, ht, hreach⟩ := htips _ (branch_mem_branchesOf hdag (mem_chunkDag_of_run rfl hrun' hnode x.chunk hlt) hlt)
    rw [← hbranch, htip] at ht
    cases ht
    exact Commit.mem_history_trans hxtip h hreach

/-- Two chunks at once, each on a worker of its own. -/
def twoWorkers : List Act :=
  [.enter, .turn, .bind 0 true, .bind 1 true, .develop 1 true, .develop 0 true, .test 0 .passed, .test 1 .passed,
    .commit 1 true, .commit 0 true, .wake [1, 0], .settle, .settle, .turn, .leave]

theorem delivered_twoWorkers : ∃ cfg, PipelineConfig.ofChunks 900 [⟨"a", []⟩, ⟨"b", []⟩] 2 = some cfg ∧ ∃ s r' h,
    (machine cfg).run (start (fun _ => .pending) (fun _ => none) firstRepo) (stagedFiles twoWorkers) = some s ∧
      s.integrate cfg 900 pathByPath = some (.ok ["a", "b"], r') ∧ r'.headCommit = some h ∧
      (∀ x ∈ s.made, x.commit ∈ h.history) ∧ ∀ c ∈ cfg.graph.order, ∃ x ∈ s.made, x.chunk = c := by
  obtain ⟨cfg, hcfg, h⟩ := (Option.any_eq_true (p := fun cfg : PipelineConfig => decide (1 ≤ cfg.maxParallelWorkers ∧
      Unstarted cfg (fun _ => .pending) ∧
      cfg.machine.Along (BindsOwn cfg) (start (fun _ => .pending) (fun _ => none) firstRepo).run
        ((stagedFiles twoWorkers).map Prod.fst) ∧
      cfg.machine.Along NothingAbandoned (start (fun _ => .pending) (fun _ => none) firstRepo).run
        ((stagedFiles twoWorkers).map Prod.fst)) &&
      ((machine cfg).run (start (fun _ => .pending) (fun _ => none) firstRepo) (stagedFiles twoWorkers)).any
        (fun s : Delivery String => decide (s.run.node = .integrate) &&
          (s.integrate cfg 900 pathByPath).any (fun res : Except IntegrateError (List String) × GitRepo String =>
            decide (res.1.toOption = some ["a", "b"])))) _).1
    (show (PipelineConfig.ofChunks 900 [⟨"a", []⟩, ⟨"b", []⟩] 2).any _ = true by decide +kernel)
  rw [Bool.and_eq_true, decide_eq_true_eq] at h
  obtain ⟨⟨hslots, hstart, howns, habandoned⟩, hany⟩ := h
  obtain ⟨s, hrun, hs⟩ := (Option.any_eq_true _ _).1 hany
  rw [Bool.and_eq_true, decide_eq_true_eq] at hs
  obtain ⟨⟨result, r'⟩, hintegrate, hids⟩ := (Option.any_eq_true _ _).1 hs.2
  cases result with
  | error e => cases of_decide_eq_true hids
  | ok ids =>
    cases of_decide_eq_true hids
    obtain ⟨h, hh, -, hall, hmade⟩ := delivered hslots hstart (fun _ => none) rfl pathByPath _ s howns habandoned
      hrun hs.1 hintegrate
    exact ⟨cfg, hcfg, s, r', h, hrun, hintegrate, hh, hall, hmade⟩

end Delivery
end Engine
end DevHarness
