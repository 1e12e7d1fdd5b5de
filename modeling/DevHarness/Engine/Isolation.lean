import DevHarness.Engine.Completion
/-!
# Isolation — which branch a chunk's work lands on

The pool gives a slot back as soon as its chunk is settled; the workspace keeps a slot's first worktree for good.  The
next chunk on the slot is bound to that worktree, writes into it and is committed on the first chunk's branch.  While every
chunk is given a slot that is not bound, or bound to its own branch (`BindsOwn`), each chunk works and is committed on its
own branch, and the integrator finds one for every chunk (`isolated_of_bindsOwn`).
-/
namespace DevHarness
namespace Engine

def OnOwnBranch (cfg : PipelineConfig) (s : Run) (c : Nat) : Prop :=
  ∃ w, s.workspace.rootFor (s.pool.assignedWorkerId c) = some w ∧ s.workspace.worktrees w = some (cfg.branch c)

def Committed (cfg : PipelineConfig) (s : Run) (c : Nat) : Prop :=
  ∃ commits, s.workspace.branches (cfg.branch c) = some commits ∧ cfg.chunkId c ∈ commits

/-- Bound, and not ended: the nodes write, or a commit is due. -/
def Exec.Working (e : Exec) : Prop := e = .bound ∨ e = .developed ∨ e = .tested

/-- **Isolated**: a chunk at work is on its own branch, and one that returned is committed there. -/
structure Isolated (cfg : PipelineConfig) (s : Run) : Prop where
  working : ∀ c, (s.exec c).Working → OnOwnBranch cfg s c
  returned : ∀ c, s.exec c = .returned → Committed cfg s c

/-- **A binding that gets its own branch**: the worker is not bound yet, or its worktree is on this chunk's branch. -/
def BindsOwn (cfg : PipelineConfig) (s : Run) (a : Act) (_ : Run) : Prop :=
  ∀ c ∈ a.begins, ∀ w ∈ s.pool.assignedWorkerId c, w ∈ s.workspace.roots →
    s.workspace.worktrees w = some (cfg.branch c)

instance (cfg : PipelineConfig) (s : Run) (a : Act) (s' : Run) : Decidable (BindsOwn cfg s a s') :=
  inferInstanceAs (Decidable (∀ c ∈ a.begins, ∀ w ∈ s.pool.assignedWorkerId c, _ → _))

variable {cfg : PipelineConfig}

theorem rootFor_eq_some {ws : WorkerWorkspace} {assigned : Option String} {w : String} :
    ws.rootFor assigned = some w ↔ assigned = some w ∧ w ∈ ws.roots := by
  cases assigned with
  | none => simp [WorkerWorkspace.rootFor]
  | some v =>
    simp only [WorkerWorkspace.rootFor, Option.ite_none_right_eq_some, Option.some.injEq]
    constructor
    · rintro ⟨hv, rfl⟩
      exact ⟨rfl, hv⟩
    · rintro ⟨rfl, hv⟩
      exact ⟨hv, rfl⟩

theorem Exec.Working.active {e : Exec} (h : e.Working) : e.Active := by
  rcases h with rfl | rfl | rfl <;> simp [Exec.Active]

theorem OnOwnBranch.congr {s s' : Run} {c : Nat} (h : OnOwnBranch cfg s c)
    (hassigned : s'.pool.assignedWorkerId c = s.pool.assignedWorkerId c)
    (hws : ∀ w ∈ s.workspace.roots, w ∈ s'.workspace.roots ∧ s'.workspace.worktrees w = s.workspace.worktrees w) :
    OnOwnBranch cfg s' c := by
  obtain ⟨w, hroot, hw⟩ := h
  obtain ⟨ha, hm⟩ := rootFor_eq_some.1 hroot
  refine ⟨w, rootFor_eq_some.2 ⟨hassigned.trans ha, (hws w hm).1⟩, ?_⟩
  rw [(hws w hm).2, hw]

theorem Isolated.congr {s s' : Run} (h : Isolated cfg s) (hws : s'.workspace = s.workspace)
    (hworking : ∀ c, (s'.exec c).Working → (s.exec c).Working ∧
      s'.pool.assignedWorkerId c = s.pool.assignedWorkerId c)
    (hreturned : ∀ c, s'.exec c = .returned → s.exec c = .returned) : Isolated cfg s' := by
  refine ⟨fun c hc => ?_, fun c hc => ?_⟩
  · obtain ⟨hc', ha⟩ := hworking c hc
    exact (h.working c hc').congr ha (fun w hw => by rw [hws]; exact ⟨hw, rfl⟩)
  · rw [Committed, hws]
    exact h.returned c (hreturned c hc)

theorem isolated_turn {s : Run} (hv : Visit cfg s) (h : Isolated cfg s) (hp : s.pool.phase = .looping) :
    Isolated cfg (cfg.turn s) := by
  rcases turn_spec hv hp with ⟨-, he⟩ | ⟨p, taken, ht, he⟩
  · rw [he]
    exact h.congr rfl (fun c hc => ⟨hc, rfl⟩) (fun c hc => hc)
  · rw [he]
    refine h.congr rfl (fun c hc => ?_) (fun c hc => ?_)
    · dsimp only at hc
      by_cases hct : c ∈ taken
      · rw [if_pos hct] at hc
        rcases hc with hc | hc | hc <;> cases hc
      · rw [if_neg hct] at hc
        exact ⟨hc, ht.assigned c hct⟩
    · dsimp only at hc
      by_cases hct : c ∈ taken
      · rw [if_pos hct] at hc
        cases hc
      · rwa [if_neg hct] at hc

theorem enter_assigned (s : Run) : (cfg.enter s).pool.assignedWorkerId = s.pool.assignedWorkerId := by
  obtain ⟨phase, hpool, -⟩ := enter_pool cfg s
  rw [hpool]
  rfl

theorem Moves.working {e e' : Exec} {st st' : ChunkStatus} (h : Moves e st e' st') (hw : e'.Working) :
    e' = .bound ∨ e.Working := by
  cases h <;> simp_all [Exec.Working]

theorem Moves.returned {e e' : Exec} {st st' : ChunkStatus} (h : Moves e st e' st') (he : e' = .returned) : e = .tested := by
  cases h <;> simp_all

theorem Moves.bound {e e' : Exec} {st st' : ChunkStatus} (h : Moves e st e' st') (he : e' = .bound) : e = .submitted := by
  cases h <;> simp_all

theorem isolated_move_others {s : Run} {c : Nat} {e : Exec} {st : ChunkStatus} {ws : WorkerWorkspace}
    (h : Isolated cfg s)
    (hws : ∀ w ∈ s.workspace.roots, w ∈ ws.roots ∧ ws.worktrees w = s.workspace.worktrees w)
    (hbranches : ∀ b l, s.workspace.branches b = some l → ∃ l', ws.branches b = some l' ∧ l ⊆ l')
    (hworking : e.Working → OnOwnBranch cfg (PipelineConfig.move s c e st ws) c)
    (hreturned : e = .returned → Committed cfg (PipelineConfig.move s c e st ws) c) :
    Isolated cfg (PipelineConfig.move s c e st ws) := by
  refine ⟨fun d hd => ?_, fun d hd => ?_⟩
  · by_cases hdc : d = c
    · rw [hdc, move_exec_self] at hd
      rw [hdc]
      exact hworking hd
    · rw [move_exec_of_ne s hdc] at hd
      exact (h.working d hd).congr rfl hws
  · by_cases hdc : d = c
    · rw [hdc, move_exec_self] at hd
      rw [hdc]
      exact hreturned hd
    · rw [move_exec_of_ne s hdc] at hd
      obtain ⟨l, hl, hm⟩ := h.returned d hd
      obtain ⟨l', hl', hsub⟩ := hbranches _ l hl
      exact ⟨l', hl', hsub hm⟩

theorem isolated_move {s : Run} {a : Act} {c : Nat} {e : Exec} {st : ChunkStatus} {ws : WorkerWorkspace}
    (hwf : s.workspace.Wf) (h : Isolated cfg s) (hlaw : BindsOwn cfg s a (PipelineConfig.move s c e st ws))
    (hm : Moves (s.exec c) (s.pool.status c) e st) (ht : Touches cfg s c e ws)
    (hbegins : a.begins = if s.exec c = .submitted then some c else none) :
    ws.Wf ∧ Isolated cfg (PipelineConfig.move s c e st ws) := by
  cases ht with
  | nothing he =>
    refine ⟨hwf, isolated_move_others h (fun w hw => ⟨hw, rfl⟩) (fun b l hl => ⟨l, hl, fun _ hx => hx⟩) (fun hw => ?_)
      (fun hr => absurd hr he.2)⟩
    exact (h.working c ((hm.working hw).resolve_left he.1)).congr rfl (fun w hw => ⟨hw, rfl⟩)
  | binds hw hb =>
    rename_i w gitOk
    obtain ⟨hwf', hmem, hkeep, hbranches⟩ := WorkerWorkspace.bind_keeps hwf hb
    refine ⟨hwf', isolated_move_others h hkeep (fun b l hl => ⟨l, hbranches b l hl, fun _ hx => hx⟩) (fun _ => ?_)
      (fun hr => by cases hr)⟩
    refine ⟨w, rootFor_eq_some.2 ⟨hw, hmem⟩, ?_⟩
    show ws.worktrees w = some (cfg.branch c)
    by_cases hroot : w ∈ s.workspace.roots
    · -- an old binding: the law says whose branch it is on
      rw [(hkeep w hroot).2]
      rw [if_pos (hm.bound rfl)] at hbegins
      exact hlaw c hbegins w hw hroot
    · obtain ⟨-, -, rfl⟩ := WorkerWorkspace.bind_eq_some_of_unbound hroot hb
      exact Function.update_self _ _ _
  | commits hroot =>
    rename_i w
    obtain ⟨v, hroot', hv⟩ := h.working c (Or.inr (Or.inr (hm.returned rfl)))
    rw [hroot] at hroot'
    cases hroot'
    obtain ⟨hwf', hroots, htrees, hbranches, hown⟩ := WorkerWorkspace.commit_keeps hwf hv (cfg.chunkId c)
    refine ⟨hwf', isolated_move_others h (fun w hw => by rw [hroots, htrees]; exact ⟨hw, rfl⟩) hbranches (fun hw => ?_)
      (fun _ => hown)⟩
    rcases hw with hw | hw | hw <;> cases hw

/-- **Isolation is kept** by every step whose binding gets its own branch. -/
theorem isolated_step {s s' : Run} {a : Act} (ho : Orderly cfg s) (hwf : s.workspace.Wf) (h : Isolated cfg s)
    (hlaw : BindsOwn cfg s a s') (hstep : cfg.step s a = some s') : s'.workspace.Wf ∧ Isolated cfg s' := by
  cases effect_of_step hstep with
  | enter hn =>
    exact ⟨hwf, h.congr rfl (fun c hc => ⟨hc, by rw [enter_assigned]⟩) (fun c hc => hc)⟩
  | turn hn hp => exact ⟨hwf, isolated_turn (ho.visit hn) h hp⟩
  | wake hn hp hd hall => exact ⟨hwf, h.congr rfl (fun c hc => ⟨hc, rfl⟩) (fun c hc => hc)⟩
  | settle hn hp hr =>
    exact ⟨hwf, h.congr rfl (fun c hc => ⟨hc, by rw [Pool.settle_assignedWorkerId]⟩) (fun c hc => hc)⟩
  | execute hn hm ht hbegins hleave hturn => exact isolated_move hwf h hlaw hm ht hbegins
  | leave hn hp hall => exact ⟨hwf, h.congr rfl (fun c hc => ⟨hc, rfl⟩) (fun c hc => hc)⟩

theorem isolated_init (status : Nat → ChunkStatus) (ws : WorkerWorkspace) :
    Isolated cfg (PipelineConfig.init status ws) := by
  refine ⟨fun c hc => ?_, fun c hc => by cases hc⟩
  rcases hc with hc | hc | hc <;> cases hc

/-- **Every chunk works and is committed on its own branch**, in every run whose bindings get their own branch; and when no
visit abandons an execution, the integrator finds a branch with the chunk's commit for each chunk it is given. -/
theorem isolated_of_bindsOwn (hslots : 1 ≤ cfg.maxParallelWorkers) {status : Nat → ChunkStatus}
    (hstart : Unstarted cfg status) (worktrees : String → Option String) (branches : String → Option (List String))
    (acts : List Act) (s : Run)
    (hlaw : cfg.machine.Along (BindsOwn cfg) (PipelineConfig.init status (.new worktrees branches)) acts)
    (hrun : cfg.machine.run (PipelineConfig.init status (.new worktrees branches)) acts = some s) :
    (∀ c, (s.exec c).Working → OnOwnBranch cfg s c) ∧ (∀ c, s.exec c = .returned → Committed cfg s c) ∧
      (cfg.machine.Along NothingAbandoned (PipelineConfig.init status (.new worktrees branches)) acts →
        s.node = .integrate → ∀ c ∈ cfg.graph.order, Committed cfg s c) := by
  have hinv := cfg.machine.inv_of_along (fun s => Orderly cfg s ∧ s.workspace.Wf ∧ Isolated cfg s)
    (fun _ _ _ hi hl h => ⟨orderly_step hi.1 h, isolated_step hi.1 hi.2.1 hi.2.2 hl h⟩) acts _ s
    ⟨orderly_init _ _, WorkerWorkspace.wf_new worktrees branches, isolated_init _ _⟩ hlaw hrun
  refine ⟨hinv.2.2.working, hinv.2.2.returned, fun habandoned hnode c hc => ?_⟩
  have hboard := board_of_run hslots hstart habandoned hrun
  unfold Board at hboard
  rw [hnode] at hboard
  exact hinv.2.2.returned c (hboard c hc).2

theorem isolated_redThenGreen : ∃ cfg, PipelineConfig.ofChunks 900 [⟨"a", []⟩] 1 = some cfg ∧ ∃ s,
    cfg.machine.run (PipelineConfig.init (fun _ => .pending) emptyWorkspace) redThenGreen = some s ∧
      s.node = .integrate ∧ ∀ c ∈ cfg.graph.order, Committed cfg s c := by
  obtain ⟨cfg, hcfg, h⟩ := (Option.any_eq_true (p := fun cfg : PipelineConfig => decide (1 ≤ cfg.maxParallelWorkers ∧
      Unstarted cfg (fun _ => .pending) ∧
      cfg.machine.Along (BindsOwn cfg) (PipelineConfig.init (fun _ => .pending) emptyWorkspace) redThenGreen ∧
      cfg.machine.Along NothingAbandoned (PipelineConfig.init (fun _ => .pending) emptyWorkspace) redThenGreen) &&
      (cfg.machine.run (PipelineConfig.init (fun _ => .pending) emptyWorkspace) redThenGreen).any
        (fun s : Run => decide (s.node = .integrate))) _).1
    (show (PipelineConfig.ofChunks 900 [⟨"a", []⟩] 1).any _ = true by decide +kernel)
  rw [Bool.and_eq_true, decide_eq_true_eq] at h
  obtain ⟨⟨hslots, hstart, hlaw, habandoned⟩, hany⟩ := h
  obtain ⟨s, hrun, hnode⟩ := (Option.any_eq_true _ _).1 hany
  have hint := of_decide_eq_true hnode
  exact ⟨cfg, hcfg, s, hrun, hint,
    (isolated_of_bindsOwn hslots hstart (fun _ => none) (fun _ => none) redThenGreen s hlaw hrun).2.2 habandoned hint⟩

def slotReused : List Act :=
  [.enter, .turn, .bind 0 true, .develop 0 true, .test 0 .passed, .commit 0 true, .wake [0], .settle, .turn, .bind 1 true,
    .develop 1 true, .test 1 .passed, .commit 1 true, .wake [1], .settle, .turn, .leave]

/-- **The second chunk on a slot is committed on the first one's branch**: its own does not exist when the integrator is
entered. -/
theorem committed_elsewhere : ∃ cfg, PipelineConfig.ofChunks 900 [⟨"a", []⟩, ⟨"b", []⟩] 1 = some cfg ∧ ∃ s,
    cfg.machine.run (PipelineConfig.init (fun _ => .pending) emptyWorkspace) slotReused = some s ∧
      s.node = .integrate ∧ s.exec 1 = .returned ∧ s.workspace.branches "chunk/a" = some ["a", "b"] ∧
      s.workspace.branches (cfg.branch 1) = none := by
  obtain ⟨cfg, hcfg, h⟩ := (Option.any_eq_true (p := fun cfg : PipelineConfig =>
      (cfg.machine.run (PipelineConfig.init (fun _ => .pending) emptyWorkspace) slotReused).any
        (fun s : Run => decide (s.node = .integrate ∧ s.exec 1 = .returned ∧
          s.workspace.branches "chunk/a" = some ["a", "b"] ∧ s.workspace.branches (cfg.branch 1) = none))) _).1
    (show (PipelineConfig.ofChunks 900 [⟨"a", []⟩, ⟨"b", []⟩] 1).any _ = true by decide +kernel)
  obtain ⟨s, hs, hd⟩ := (Option.any_eq_true _ _).1 h
  exact ⟨cfg, hcfg, s, hs, of_decide_eq_true hd⟩

end Engine
end DevHarness
