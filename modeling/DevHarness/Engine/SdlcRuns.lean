import DevHarness.Engine.SdlcGraph
import DevHarness.Engine.PoolOutcome
/-!
# SdlcRuns — every run of the graph ends, and what its `chunk_dag` holds

`remaining` is what every step of a visit lowers, and no visit begins at the ceiling: so the routing cycle is followed at
most `e2eCeiling` times (`visits_le_and_ends`).  Each visit that returns appends the whole plan to the `chunk_dag` channel,
so the channel holds a chunk once for every visit, not once (`chunkDag_once_iff`).
-/
namespace DevHarness
namespace Engine

variable {cfg : PipelineConfig}

/-! ## What every step of a visit lowers -/

def execWeight : Exec → Nat
  | .submitted => 4
  | .bound => 3
  | .developed => 2
  | .tested => 1
  | _ => 0

/-- What a chunk has before it in a visit. -/
def chunkWeight (s : Run) (c : Nat) : Nat :=
  if c ∈ s.pool.inFlight then 1 + execWeight (s.exec c) else if s.pool.status c = .pending then 6 else 0

def visitMeasure (order : List Nat) (s : Run) : Nat :=
  3 * (order.map (chunkWeight s)).sum + WorkerPool.phaseWeight s.pool.phase

/-- More than any visit has before it. -/
def fullVisit (order : List Nat) : Nat := 18 * order.length + 4

/-- **What is left of the visits**: those the ceiling still allows, and this one. -/
def remaining (order : List Nat) (s : Run) : Nat :=
  match s.node with
  | .develop => (e2eCeiling - s.e2eRetryCount) * fullVisit order
  | .developing => (e2eCeiling - (s.e2eRetryCount + 1)) * fullVisit order + visitMeasure order s
  | _ => 0

theorem chunkWeight_le (s : Run) (c : Nat) (h : c ∉ s.pool.inFlight) : chunkWeight s c ≤ 6 := by
  rw [chunkWeight, if_neg h]
  split <;> omega

theorem visitMeasure_lt_of_work {order : List Nat} {s s' : Run} {c : Nat} (hle : ∀ d, d ≠ c → chunkWeight s' d = chunkWeight s d)
    (hc : c ∈ order) (hlt : chunkWeight s' c < chunkWeight s c)
    (hphase : WorkerPool.phaseWeight s'.pool.phase ≤ WorkerPool.phaseWeight s.pool.phase + 2) :
    visitMeasure order s' < visitMeasure order s := by
  have hall : ∀ d ∈ order, chunkWeight s' d ≤ chunkWeight s d := by
    intro d _
    by_cases hdc : d = c
    · rw [hdc]
      exact Nat.le_of_lt hlt
    · exact Nat.le_of_eq (hle d hdc)
  exact WorkerPool.weighed_lt_of_work hall hc hlt hphase

theorem visitMeasure_lt_full (order : List Nat) {s : Run} (h : s.pool.inFlight = []) :
    visitMeasure order s < fullVisit order := by
  have hsum : (order.map (chunkWeight s)).sum ≤ order.length * 6 := by
    have := List.sum_le_card_nsmul (order.map (chunkWeight s)) 6 (fun w hw => by
      obtain ⟨c, -, rfl⟩ := List.mem_map.1 hw
      exact chunkWeight_le s c (by rw [h]; exact List.not_mem_nil))
    simpa using this
  have hphase := WorkerPool.phaseWeight_le s.pool.phase
  unfold visitMeasure fullVisit
  omega

theorem visitMeasure_turn {s : Run} (hv : Visit cfg s) (hp : s.pool.phase = .looping) :
    visitMeasure cfg.graph.order (cfg.turn s) < visitMeasure cfg.graph.order s := by
  rcases turn_spec hv hp with ⟨-, he⟩ | ⟨p, taken, ht, he⟩
  · rw [he]
    refine WorkerPool.weighed_lt_of_phase (fun d => Nat.le_refl _) ?_
    rw [hp]
    show 1 < 3
    omega
  · rw [he]
    refine WorkerPool.weighed_lt_of_phase (fun d => ?_) ?_
    · show (if d ∈ p.inFlight then 1 + execWeight (if d ∈ taken then .submitted else s.exec d)
        else if p.status d = .pending then 6 else 0) ≤ _
      rw [ht.inFlight, ht.status d, chunkWeight]
      by_cases hd : d ∈ taken
      · have hst := (claimed_ready ht hd).2.1
        have hno : d ∉ s.pool.inFlight := fun hf => (hv.flying d hf).ne_pending hst
        simp [hd, hno, hst, execWeight]
      · simp [hd]
    · rw [hp]
      show WorkerPool.phaseWeight (if p.inFlight = [] then PoolPhase.leaving true else PoolPhase.waiting) < 3
      split
      · show 1 < 3
        omega
      · show 2 < 3
        omega

theorem visitMeasure_settle {s : Run} {c : Nat} {rest : List Nat} {ok : Bool} (hv : Visit cfg s)
    (hp : s.pool.phase = .settling (c :: rest)) :
    visitMeasure cfg.graph.order { s with pool := s.pool.settle c rest ok } < visitMeasure cfg.graph.order s := by
  have hc := (hv.head hp).1
  refine visitMeasure_lt_of_work (c := c) (fun d hdc => ?_) (hv.sub c hc) ?_ ?_
  · have hmem := hv.mem_settle hp ok d
    have hst : (s.pool.settle c rest ok).status d = s.pool.status d := by
      rw [Pool.settle_status]
      exact Function.update_of_ne hdc _ _
    unfold chunkWeight
    simp only [hmem, hst, hdc, ne_eq, not_false_eq_true, true_and]
  · have hgone : c ∉ (s.pool.settle c rest ok).inFlight := fun h => ((hv.mem_settle hp ok c).1 h).1 rfl
    have hst : (s.pool.settle c rest ok).status c ≠ .pending := by
      rw [Pool.settle_status, Function.update_self]
      cases ok <;> simp
    unfold chunkWeight
    rw [if_pos hc, if_neg hgone, if_neg hst]
    omega
  · rw [hp]
    exact WorkerPool.phaseWeight_le _

theorem Moves.weight_lt {e e' : Exec} {st st' : ChunkStatus} (h : Moves e st e' st') : execWeight e' < execWeight e := by
  cases h <;> simp [execWeight]

theorem visitMeasure_move {s : Run} {c : Nat} {e : Exec} {st : ChunkStatus} (ws : WorkerWorkspace) (hv : Visit cfg s)
    (hm : Moves (s.exec c) (s.pool.status c) e st) :
    visitMeasure cfg.graph.order (PipelineConfig.move s c e st ws) < visitMeasure cfg.graph.order s := by
  have hc := hv.active c hm.active
  refine visitMeasure_lt_of_work (c := c) (fun d hdc => ?_) (hv.sub c hc) ?_ (Nat.le_add_right _ _)
  · unfold chunkWeight
    rw [move_exec_of_ne s hdc, move_status_of_ne s hdc]
    rfl
  · have hlt := hm.weight_lt
    have hc' : c ∈ (PipelineConfig.move s c e st ws).pool.inFlight := hc
    unfold chunkWeight
    rw [if_pos hc, if_pos hc', move_exec_self]
    omega

/-- **Every step of an accepted plan's loop leaves less to do**, whatever is chosen. -/
theorem remaining_step {n visits returns : Nat} {s s' : Run} {a : Act} {order : List Nat} (h : Counted n visits returns s)
    (hl : Loops n s a s') (hbegins : s'.node = .developing → a = .enter → s'.pool.inFlight = [])
    (hgoes : s.node = .developing → s'.node = .developing → visitMeasure order s' < visitMeasure order s) :
    remaining order s' < remaining order s := by
  have h' := counted_loops h hl
  cases hl with
  | begins hn hn' hc hd =>
    obtain ⟨-, hlt⟩ := h.retries (Or.inl hn)
    have he := (h.retries (Or.inl hn)).1
    have hfull := visitMeasure_lt_full order (hbegins hn' rfl)
    obtain ⟨k, hk⟩ : ∃ k, e2eCeiling - s.e2eRetryCount = k + 1 := ⟨e2eCeiling - s.e2eRetryCount - 1, by omega⟩
    have hk' : e2eCeiling - (s.e2eRetryCount + 1) = k := by omega
    rw [remaining, remaining, hn, hn', hc]
    dsimp only
    rw [hk, hk', Nat.succ_mul]
    omega
  | goes hn hn' hc hd henter hleave =>
    have hlt := hgoes hn hn'
    rw [remaining, remaining, hn, hn', hc]
    dsimp only
    omega
  | @returns raised hn hclear =>
    have hpos : 0 < visitMeasure order s := by
      have := WorkerPool.phaseWeight_pos s.pool.phase
      unfold visitMeasure
      omega
    have he := (h.retries (Or.inr hn)).1
    rw [remaining, remaining, hn]
    cases hnode : (developReturns n s raised).node with
    | develop =>
      have he' := (h'.retries (Or.inl hnode)).1
      have hone : returns + [Act.leave].count .leave = s.e2eRetryCount + 1 := by rw [he]; rfl
      dsimp only
      rw [he', hone]
      omega
    | developing => exact absurd hnode (developReturns_node_ne n s raised)
    | integrate => dsimp only; omega
    | hitl => dsimp only; omega

/-! ## Runs of the graph -/

namespace SdlcConfig

variable (cfg : SdlcConfig)

/-- The order of the plan's graph; nothing when it is refused. -/
def order : List Nat :=
  match PipelineConfig.ofChunks cfg.developLimit cfg.chunks cfg.maxParallelWorkers with
  | some p => p.graph.order
  | none => []

/-- **Where the work stands**: an accepted plan's run is orderly and tallies; a refused one's visits have nothing to do. -/
def InOrder (s : Run) : Prop :=
  match PipelineConfig.ofChunks cfg.developLimit cfg.chunks cfg.maxParallelWorkers with
  | some p => Orderly p s ∧ (s.node = .developing → Tally p s)
  | none => s.node = .developing → s.pool.phase = .leaving true ∧ s.pool.inFlight = []

variable {cfg}

theorem chunks_of_ofChunks {limit : Nat} {chunks : List Chunk} {n : Int} {p : PipelineConfig}
    (h : PipelineConfig.ofChunks limit chunks n = some p) : p.chunks = chunks := by
  unfold PipelineConfig.ofChunks at h
  split at h
  · cases h
    rfl
  · cases h

theorem enter_inFlight (p : PipelineConfig) (s : Run) : (p.enter s).pool.inFlight = [] := by
  obtain ⟨phase, hpool, -⟩ := enter_pool p s
  rw [hpool]
  rfl

/-- **A step inside a visit of an accepted plan** lowers what the visit has before it. -/
theorem visitMeasure_step {p : PipelineConfig} {s s' : Run} {a : Act} (ho : Orderly p s) (h : p.step s a = some s')
    (hn : s.node = .developing) (hn' : s'.node = .developing) :
    visitMeasure p.graph.order s' < visitMeasure p.graph.order s := by
  have hv := ho.visit hn
  cases effect_of_step h with
  | enter hd =>
    rw [hn] at hd
    cases hd
  | turn _ hp => exact visitMeasure_turn hv hp
  | wake _ hp hd hall =>
    refine WorkerPool.weighed_lt_of_phase (fun d => Nat.le_refl _) ?_
    rw [hp]
    show 1 < 2
    omega
  | settle _ hp hr => exact visitMeasure_settle hv hp
  | execute _ hm ht hbegins hleave hturn => exact visitMeasure_move _ hv hm
  | @leave raised _ hp hall => exact absurd hn' (leave_node_ne p s raised)

/-- **Every step of the work** is one of the loop of visits, keeps it in order and leaves less to do. -/
theorem work_step {visits returns : Nat} {s s' : Run} {a : Act} (hi : cfg.InOrder s)
    (hc : Counted cfg.chunks.length visits returns s) (h : cfg.work s a = some s') :
    cfg.InOrder s' ∧ Loops cfg.chunks.length s a s' ∧ remaining cfg.order s' < remaining cfg.order s := by
  unfold work at h
  unfold InOrder at hi ⊢
  unfold order
  cases hp : PipelineConfig.ofChunks cfg.developLimit cfg.chunks cfg.maxParallelWorkers with
  | some p =>
    rw [hp] at h hi
    dsimp only at h hi ⊢
    obtain ⟨ho, ht⟩ := hi
    obtain ⟨hl, ht'⟩ := loops_step ho ht h
    rw [chunks_of_ofChunks hp] at hl
    refine ⟨⟨orderly_step ho h, ht'⟩, hl, remaining_step hc hl (fun _ ha => ?_) (visitMeasure_step ho h)⟩
    rw [ha] at h
    cases effect_of_step h with
    | enter hn => exact enter_inFlight p s
    | execute hn hm hw hbegins hleave hturn => exact absurd rfl (ne_enter_of_step hn h)
  | none =>
    rw [hp] at h hi
    dsimp only at h hi ⊢
    cases a with
    | enter =>
      simp only [refusedStep, Option.ite_none_right_eq_some, Option.some.injEq] at h
      obtain ⟨hn, rfl⟩ := h
      have hl : Loops cfg.chunks.length s .enter (enterRefused cfg.chunks.length s) := .begins hn rfl rfl rfl
      exact ⟨fun _ => ⟨rfl, rfl⟩, hl, remaining_step hc hl (fun _ _ => rfl) (fun hd => by rw [hn] at hd; cases hd)⟩
    | leave =>
      simp only [refusedStep, Option.ite_none_right_eq_some, Option.some.injEq] at h
      obtain ⟨⟨hn, -⟩, rfl⟩ := h
      have hl : Loops cfg.chunks.length s .leave (developReturns cfg.chunks.length s true) := .returns hn (by simp)
      have hne := developReturns_node_ne cfg.chunks.length s true
      exact ⟨fun hd => absurd hd hne, hl, remaining_step hc hl (fun hd => absurd hd hne) (fun _ hd => absurd hd hne)⟩
    | _ => cases h

/-- **What a run of the graph keeps**: its work in order, its counters those of the visits taken. -/
structure Kept (cfg : SdlcConfig) (past : List SdlcAct) (s : SdlcRun) : Prop where
  inOrder : cfg.InOrder s.run
  counted : Counted cfg.chunks.length (past.count (.work .enter)) (past.count (.work .leave)) s.run

theorem kept_init (cfg : SdlcConfig) (status : Nat → ChunkStatus) (assigned : Nat → Option String)
    (workspace : WorkerWorkspace) : Kept cfg [] (init status assigned workspace) := by
  refine ⟨?_, ⟨rfl, rfl, fun _ => ⟨rfl, by decide⟩, Nat.zero_le _⟩⟩
  unfold InOrder
  cases PipelineConfig.ofChunks cfg.developLimit cfg.chunks cfg.maxParallelWorkers with
  | some p =>
    have ho : Orderly p (PipelineConfig.init status workspace) := orderly_init status workspace
    exact ⟨ho, fun hn => by cases hn⟩
  | none => exact fun hn => by cases hn

theorem count_work (b c : Act) : [SdlcAct.work b].count (.work c) = [b].count c := by
  by_cases h : b = c <;> simp [h]

/-- **Every step keeps it and leaves less to do.** -/
theorem kept_step {past : List SdlcAct} {s s' : SdlcRun} {a : SdlcAct} (h : Kept cfg past s)
    (hstep : cfg.step s a = some s') : Kept cfg (past ++ [a]) s' ∧
      stageWeight s'.stage + remaining cfg.order s'.run < stageWeight s.stage + remaining cfg.order s.run := by
  rcases sdlc_step_cases hstep with ⟨b, r, rfl, -, hr, rfl⟩ | ⟨hno, hrun, hlt⟩
  · obtain ⟨hi, hl, hlt⟩ := work_step h.inOrder h.counted hr
    refine ⟨⟨hi, ?_⟩, Nat.add_lt_add_left hlt _⟩
    rw [List.count_append, List.count_append, count_work, count_work]
    exact counted_loops h.counted hl
  · have hcount : ∀ b, (past ++ [a]).count (.work b) = past.count (.work b) := fun b => by
      rw [List.count_append, List.count_singleton, if_neg (by simpa using hno b), Nat.add_zero]
    refine ⟨⟨hrun ▸ h.inOrder, ?_⟩, hrun ▸ Nat.add_lt_add_right hlt _⟩
    rw [hcount, hcount, hrun]
    exact h.counted

theorem kept_of_run {status : Nat → ChunkStatus} {assigned : Nat → Option String} {workspace : WorkerWorkspace}
    {as : List SdlcAct} {s : SdlcRun} (hr : cfg.machine.run (init status assigned workspace) as = some s) :
    Kept cfg as s :=
  cfg.machine.inv_of_history (Kept cfg) (fun _ _ _ _ h hstep => (kept_step h hstep).1) as [] _ _
    (kept_init cfg status assigned workspace) hr

end SdlcConfig

/-! ## Every run of the graph ends -/

/-- The pool's own steps, with the return of `develop`. -/
def Act.ofPool : Act → Bool
  | .turn | .wake _ | .settle | .leave => true
  | _ => false

/-- **A visit waits for nothing but its executions.** -/
theorem pool_enabled {s : Run} (hn : s.node = .developing) (hv : Visit cfg s) (ht : Tally cfg s) (hs : Settled s) :
    ∃ a, a.ofPool = true ∧ (cfg.step s a).isSome := by
  cases hp : s.pool.phase with
  | looping => exact ⟨.turn, rfl, by simp [PipelineConfig.step, hn, hp]⟩
  | waiting =>
    obtain ⟨c, hc⟩ := List.exists_mem_of_ne_nil _ (ht.waiting hp)
    exact ⟨.wake [c], rfl, by simp [PipelineConfig.step, hn, hp, hc, hs c hc]⟩
  | settling done =>
    cases done with
    | nil => exact absurd rfl (ht.settling _ hp)
    | cons c rest =>
      obtain ⟨ok, hr⟩ := Option.isSome_iff_exists.1 (hs c (hv.head hp).1)
      exact ⟨.settle, rfl, by simp [PipelineConfig.step, hn, hp, hr]⟩
  | leaving raised =>
    refine ⟨.leave, rfl, ?_⟩
    rw [PipelineConfig.step, if_pos ⟨hn, hs⟩, hp]
    rfl

/-- **An execution that has not ended can go on.** -/
theorem execution_enabled {s : Run} (hn : s.node = .developing) (hv : Visit cfg s) (hs : ¬ Settled s) :
    ∃ a, (cfg.step s a).isSome := by
  unfold Settled at hs
  push Not at hs
  obtain ⟨c, hc, hnone⟩ := hs
  have hfits := hv.flying c hc
  cases he : s.exec c with
  | idle =>
    rw [he] at hfits
    cases hfits
  | submitted => exact ⟨.bind c true, by simp [PipelineConfig.step, hn, he]⟩
  | bound => exact ⟨.develop c true, by simp [PipelineConfig.step, hn, he]⟩
  | developed => exact ⟨.test c .passed, by simp [PipelineConfig.step, hn, he]⟩
  | tested => exact ⟨.commit c true, by simp [PipelineConfig.step, hn, he]⟩
  | returned =>
    rw [he] at hnone
    exact absurd rfl hnone
  | raised =>
    rw [he] at hnone
    exact absurd rfl hnone

namespace SdlcConfig

variable {cfg : SdlcConfig}

def Ended (s : SdlcRun) : Prop := s.stage.how.isSome

theorem work_of_pool {s : Run} (h : cfg.InOrder s) (hn : s.node = .developing) (hs : Settled s) :
    (∃ a, a.ofPool = true ∧ (cfg.work s a).isSome) ∨ cfg.caught = false := by
  unfold InOrder at h
  unfold work
  cases hp : PipelineConfig.ofChunks cfg.developLimit cfg.chunks cfg.maxParallelWorkers with
  | some p =>
    rw [hp] at h
    exact Or.inl (pool_enabled hn (h.1.visit hn) (h.2 hn) hs)
  | none =>
    cases hc : cfg.caught with
    | false => exact Or.inr rfl
    | true => exact Or.inl ⟨.leave, rfl, by simp [refusedStep, hn]⟩

theorem work_enabled {s : Run} (h : cfg.InOrder s) (hn : s.node = .developing) :
    (∃ a, (cfg.work s a).isSome) ∨ cfg.caught = false := by
  by_cases hs : Settled s
  · exact (work_of_pool h hn hs).imp_left fun ⟨a, _, ha⟩ => ⟨a, ha⟩
  · left
    unfold InOrder at h
    unfold work
    cases hp : PipelineConfig.ofChunks cfg.developLimit cfg.chunks cfg.maxParallelWorkers with
    | some p =>
      rw [hp] at h
      exact execution_enabled hn (h.1.visit hn) hs
    | none =>
      rw [hp] at h
      refine absurd (fun c hc => ?_) hs
      rw [(h hn).2] at hc
      cases hc

theorem work_enter {s : Run} (hn : s.node = .develop) : (cfg.work s .enter).isSome := by
  unfold work
  cases PipelineConfig.ofChunks cfg.developLimit cfg.chunks cfg.maxParallelWorkers with
  | some p => simp [PipelineConfig.step, hn]
  | none => simp [refusedStep, hn]

theorem step_work {s : SdlcRun} {a : Act} (hst : s.stage = .workers) (h : (cfg.work s.run a).isSome) :
    (cfg.step s (.work a)).isSome := by
  rw [step, if_pos hst, Option.isSome_map]
  exact h

theorem step_overflow {s : SdlcRun} (hst : s.stage = .workers) (hn : s.run.node = .developing)
    (hc : cfg.caught = false) : (cfg.step s .overflow).isSome := by
  simp [step, hst, hn, hc]

theorem step_enabled {past : List SdlcAct} {s : SdlcRun} (h : Kept cfg past s) :
    Ended s ∨ ∃ a s', cfg.step s a = some s' := by
  have hsome : (∃ a, (cfg.step s a).isSome) → ∃ a s', cfg.step s a = some s' := fun ⟨a, ha⟩ =>
    ⟨a, Option.isSome_iff_exists.1 ha⟩
  cases hst : s.stage with
  | groomer => exact Or.inr (hsome ⟨.groom, by simp [step, hst]⟩)
  | architect => exact Or.inr (hsome ⟨.design, by simp [step, hst]⟩)
  | critic => exact Or.inr (hsome ⟨.criticise, by simp [step, hst]⟩)
  | ended how => exact Or.inl (by rw [Ended, hst]; rfl)
  | workers =>
    right
    apply hsome
    cases hn : s.run.node with
    | develop => exact ⟨.work .enter, step_work hst (work_enter hn)⟩
    | developing =>
      rcases work_enabled h.inOrder hn with ⟨a, ha⟩ | hc
      · exact ⟨.work a, step_work hst ha⟩
      · exact ⟨.overflow, step_overflow hst hn hc⟩
    | integrate => exact ⟨.raise, by simp [step, hst, hn, Stage.how]⟩
    | hitl => exact ⟨.escalate, by simp [step, hst, hn]⟩

/-- **The graph ends**, whatever the executions answer: `develop` is visited at most as often as the ceiling allows, a
visit waits for nothing but its executions, and every run comes to the critic, to the HITL node or to an exception. -/
theorem visits_le_and_ends (cfg : SdlcConfig) (status : Nat → ChunkStatus) (assigned : Nat → Option String)
    (workspace : WorkerWorkspace) :
    cfg.machine.Terminates Ended (init status assigned workspace) ∧
    ∀ as s, cfg.machine.run (init status assigned workspace) as = some s →
      as.count (.work .enter) ≤ e2eCeiling ∧
      (s.stage = .workers → s.run.node = .developing → Settled s.run →
        (∃ a, a.ofPool = true ∧ (cfg.step s (.work a)).isSome) ∨ (cfg.step s .overflow).isSome) := by
  refine ⟨?_, fun as s hr => ?_⟩
  · refine cfg.machine.terminates_of_measure (fun s => ∃ past, Kept cfg past s)
      (fun s => stageWeight s.stage + remaining cfg.order s.run) (fun s a s' h hstep => ?_) (fun s h => ?_)
      ⟨[], kept_init cfg status assigned workspace⟩
    · obtain ⟨past, h⟩ := h
      obtain ⟨hkept, hlt⟩ := kept_step h hstep
      exact ⟨⟨past ++ [a], hkept⟩, hlt⟩
    · obtain ⟨past, h⟩ := h
      exact step_enabled h
  · have h := kept_of_run hr
    refine ⟨h.counted.bounded, fun hst hn hs => ?_⟩
    rcases work_of_pool h.inOrder hn hs with ⟨a, hpool, ha⟩ | hc
    · exact Or.inl ⟨a, hpool, step_work hst ha⟩
    · exact Or.inr (step_overflow hst hn hc)

def oneChunk : SdlcConfig := ⟨[⟨"a", []⟩], 1, 900, 900⟩

/-- Both visits end with the chunk's suite red. -/
def redTwice : List SdlcAct :=
  let red := [Act.enter, .turn, .bind 0 true, .develop 0 true, .test 0 .failed, .wake [0], .settle, .leave].map SdlcAct.work
  [.groom, .design] ++ red ++ red ++ [.escalate]

theorem visits_le_and_ends_redTwice : ∃ s,
    oneChunk.machine.run (init (fun _ => .pending) (fun _ => none) emptyWorkspace) redTwice = some s ∧
      s.stage = .ended .hitl ∧ redTwice.count (.work .enter) ≤ e2eCeiling := by
  obtain ⟨s, hs, hst⟩ := (Option.any_eq_true (p := fun s : SdlcRun => decide (s.stage = .ended .hitl)) _).1
    (show (oneChunk.machine.run (init (fun _ => .pending) (fun _ => none) emptyWorkspace) redTwice).any _ = true
      by decide +kernel)
  exact ⟨s, hs, of_decide_eq_true hst, ((visits_le_and_ends _ _ _ _).2 redTwice s hs).1⟩

/-! ## The `chunk_dag` channel -/

theorem count_repeated {n c : Nat} (hc : c < n) : ∀ k : Nat, ((List.replicate k (List.range n)).flatten).count c = k
  | 0 => rfl
  | k + 1 => by
    rw [List.replicate_succ, List.flatten_cons, List.count_append, count_repeated hc k,
      List.count_eq_one_of_mem List.nodup_range (List.mem_range.2 hc), Nat.add_comm]

/-- **The channel holds each chunk once for every visit that has returned.** -/
theorem count_chunkDag {status : Nat → ChunkStatus} {assigned : Nat → Option String} {workspace : WorkerWorkspace}
    {as : List SdlcAct} {s : SdlcRun} (hr : cfg.machine.run (init status assigned workspace) as = some s) {c : Nat}
    (hc : c < cfg.chunks.length) : s.run.chunkDag.count c = as.count (.work .leave) := by
  rw [(kept_of_run hr).counted.dag]
  exact count_repeated hc _

/-- **The channel holds each chunk of the plan exactly once** exactly when one visit has returned. -/
theorem chunkDag_once_iff (cfg : SdlcConfig) (status : Nat → ChunkStatus) (assigned : Nat → Option String)
    (workspace : WorkerWorkspace) (as : List SdlcAct) (s : SdlcRun)
    (hr : cfg.machine.run (init status assigned workspace) as = some s) :
    (∀ c < cfg.chunks.length, s.run.chunkDag.count c = 1) ↔ cfg.chunks = [] ∨ as.count (.work .leave) = 1 := by
  constructor
  · intro h
    cases hchunks : cfg.chunks with
    | nil => exact Or.inl rfl
    | cons chunk chunks =>
      have hpos : 0 < cfg.chunks.length := by rw [hchunks]; exact Nat.succ_pos _
      exact Or.inr ((count_chunkDag hr hpos).symm.trans (h 0 hpos))
  · rintro (hnil | hone) c hc
    · rw [hnil] at hc
      exact absurd hc (Nat.not_lt_zero c)
    · exact (count_chunkDag hr hc).trans hone

/-- What `cmd_run` prints of the chunks. -/
def chunkLines (cfg : SdlcConfig) (s : SdlcRun) : List String :=
  s.run.chunkDag.filterMap (fun c => cfg.chunks[c]?.map (fun chunk => chunk.chunkId ++ ": " ++ (s.run.pool.status c).value))

/-- The chunk's suite is green at once. -/
def greenOnce : List SdlcAct :=
  [.groom, .design] ++ [Act.enter, .turn, .bind 0 true, .develop 0 true, .test 0 .passed, .commit 0 true, .wake [0],
    .settle, .turn, .leave].map SdlcAct.work

theorem chunkDag_once_greenOnce : ∃ s,
    oneChunk.machine.run (init (fun _ => .pending) (fun _ => none) emptyWorkspace) greenOnce = some s ∧
      ∀ c < oneChunk.chunks.length, s.run.chunkDag.count c = 1 := by
  obtain ⟨s, hs⟩ := Option.isSome_iff_exists.1 (show (oneChunk.machine.run (init (fun _ => .pending) (fun _ => none)
    emptyWorkspace) greenOnce).isSome = true by decide +kernel)
  exact ⟨s, hs, (chunkDag_once_iff _ _ _ _ _ _ hs).2 (Or.inr (by decide))⟩

/-- **A retried run reports its chunk twice.** -/
theorem chunkDag_twice_redTwice : ∃ s,
    oneChunk.machine.run (init (fun _ => .pending) (fun _ => none) emptyWorkspace) redTwice = some s ∧
      s.run.chunkDag.count 0 = 2 ∧ chunkLines oneChunk s = ["a: FAILED", "a: FAILED"] := by
  obtain ⟨s, hs, h⟩ := (Option.any_eq_true (p := fun s : SdlcRun =>
      decide (s.run.chunkDag.count 0 = 2 ∧ chunkLines oneChunk s = ["a: FAILED", "a: FAILED"])) _).1
    (show (oneChunk.machine.run (init (fun _ => .pending) (fun _ => none) emptyWorkspace) redTwice).any _ = true
      by decide +kernel)
  exact ⟨s, hs, of_decide_eq_true h⟩

end SdlcConfig
end Engine
end DevHarness
