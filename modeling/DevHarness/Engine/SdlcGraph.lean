import DevHarness.Engine.Completion
/-!
# SdlcGraph — a whole run of the graph (`build_graph`, `engine/pipeline.py`)

Groomer, architect, the visits to `develop` with what their router leads to, and the critic, as one machine over every plan
and every state of its chunks.  A plan that `ChunkDAG` accepts is worked on as in `PipelineConfig`; one it refuses fails
each visit before a pool is made, and one too deep for its search ends the run.  `Counted` ties the visits to the channels
`develop` returns into, and `Tally` is why a visit that does not raise leaves no failed chunk behind.
-/
namespace DevHarness
namespace Engine

/-- How a run of the graph ends. -/
inductive RunEnd where
  | critic
  | hitl
  | raised
  deriving DecidableEq, Repr

inductive Stage where
  | groomer
  | architect
  -- `develop`, and what its router leads to
  | workers
  | critic
  | ended (how : RunEnd)
  deriving DecidableEq, Repr

structure SdlcRun where
  stage : Stage
  run : Run

inductive SdlcAct where
  | groom
  | design
  | work (a : Act)
  | integrate
  | escalate
  | criticise
  -- the `RecursionError` of `ChunkDAG`, which `develop` does not catch
  | overflow
  -- an exception the node under way does not catch
  | raise
  deriving DecidableEq, Repr

/-- What `PipelineConfig` gives a run of its plan: any chunks, and the pool's bound; with the calls the search of
`ChunkDAG` has room for in `develop` and in `integrate`. -/
structure SdlcConfig where
  chunks : List Chunk
  maxParallelWorkers : Int
  developLimit : Nat
  integrateLimit : Nat

/-- The end of `develop`, for a plan of `n` chunks: they are appended, a failure is counted, the router decides. -/
def developReturns (n : Nat) (s : Run) (raised : Bool) : Run :=
  let chunkDag := s.chunkDag ++ List.range n
  let e2eRetryCount := s.e2eRetryCount + (if raised = true then 1 else 0)
  { s with
    chunkDag := chunkDag
    e2eRetryCount := e2eRetryCount
    node := routeAfterDevelop s.pool.status chunkDag e2eRetryCount }

theorem leave_eq (cfg : PipelineConfig) (s : Run) (raised : Bool) :
    cfg.leave s raised = developReturns cfg.chunks.length s raised := rfl

/-- `develop` on `n` chunks that `ChunkDAG` refuses: failed chunks are pending again, and no pool is made. -/
def enterRefused (n : Nat) (s : Run) : Run :=
  { s with
    node := .developing
    pool := { s.pool with
      status := fun c => if c < n ∧ s.pool.status c = .failed then .pending else s.pool.status c
      inFlight := []
      phase := .leaving true } }

/-- `develop` returns from a refusal when it has `caught` it. -/
def refusedStep (n : Nat) (caught : Bool) (s : Run) : Act → Option Run
  | .enter => if s.node = .develop then some (enterRefused n s) else none
  | .leave => if s.node = .developing ∧ caught = true then some (developReturns n s true) else none
  | _ => none

/-- Nothing in flight is still under way. -/
def Settled (s : Run) : Prop := ∀ c ∈ s.pool.inFlight, (s.exec c).result.isSome

instance (s : Run) : Decidable (Settled s) := inferInstanceAs (Decidable (∀ c ∈ s.pool.inFlight, _))

def Stage.how : Stage → Option RunEnd
  | .ended how => some how
  | _ => none

namespace SdlcConfig

variable (cfg : SdlcConfig)

def init (status : Nat → ChunkStatus) (assigned : Nat → Option String) (workspace : WorkerWorkspace) : SdlcRun :=
  ⟨.groomer, ⟨Pool.start status assigned, fun _ => .idle, workspace, .develop, [], 0⟩⟩

/-- Whether `ChunkDAG`, where it refuses the plan, does so with an `EngineError`. -/
def caught : Bool :=
  match ChunkDAG.build cfg.developLimit cfg.chunks with
  | .ok _ => true
  | .error e => e.isEngineError

def work (s : Run) (a : Act) : Option Run :=
  match PipelineConfig.ofChunks cfg.developLimit cfg.chunks cfg.maxParallelWorkers with
  | some p => p.step s a
  | none => refusedStep cfg.chunks.length cfg.caught s a

/-- What `ChunkDAG` is given by `integrate`. -/
def dagChunks (chunks : List Chunk) (s : Run) : List Chunk := s.chunkDag.filterMap (fun c => chunks[c]?)

def step (s : SdlcRun) : SdlcAct → Option SdlcRun
  | .groom => if s.stage = .groomer then some { s with stage := .architect } else none
  | .design => if s.stage = .architect then some { s with stage := .workers } else none
  | .work a => if s.stage = .workers then (cfg.work s.run a).map (fun r => { s with run := r }) else none
  | .integrate =>
    if s.stage = .workers ∧ s.run.node = .integrate ∧
        (ChunkDAG.build cfg.integrateLimit (dagChunks cfg.chunks s.run)).isOk = true then
      some { s with stage := .critic }
    else none
  | .escalate => if s.stage = .workers ∧ s.run.node = .hitl then some { s with stage := .ended .hitl } else none
  | .criticise => if s.stage = .critic then some { s with stage := .ended .critic } else none
  | .overflow =>
    if s.stage = .workers ∧ s.run.node = .developing ∧ cfg.caught = false then some { s with stage := .ended .raised }
    else none
  | .raise =>
    if s.stage.how = none ∧ (s.run.node = .developing → Settled s.run) then some { s with stage := .ended .raised }
    else none

def machine : Lib.Machine SdlcRun SdlcAct := ⟨cfg.step⟩

end SdlcConfig

/-! ## What a step can do -/

def stageWeight : Stage → Nat
  | .groomer => 4
  | .architect => 3
  | .workers => 2
  | .critic => 1
  | .ended _ => 0

/-- **A step works on the chunks, or moves the stage on.** -/
theorem sdlc_step_cases {cfg : SdlcConfig} {s s' : SdlcRun} {a : SdlcAct} (h : cfg.step s a = some s') :
    (∃ b r, a = .work b ∧ s.stage = .workers ∧ cfg.work s.run b = some r ∧ s' = { s with run := r }) ∨
    ((∀ b, a ≠ .work b) ∧ s'.run = s.run ∧ stageWeight s'.stage < stageWeight s.stage) := by
  cases a with
  | work b =>
    simp only [SdlcConfig.step, Option.ite_none_right_eq_some] at h
    obtain ⟨hs, h⟩ := h
    obtain ⟨r, hr, rfl⟩ := Option.map_eq_some_iff.1 h
    exact Or.inl ⟨b, r, rfl, hs, hr, rfl⟩
  | raise =>
    simp only [SdlcConfig.step, Option.ite_none_right_eq_some, Option.some.injEq] at h
    obtain ⟨⟨hs, -⟩, rfl⟩ := h
    refine Or.inr ⟨by simp, rfl, ?_⟩
    cases hst : s.stage with
    | ended how =>
      rw [hst] at hs
      cases hs
    | _ => simp [stageWeight]
  | integrate =>
    simp only [SdlcConfig.step, Option.ite_none_right_eq_some, Option.some.injEq] at h
    obtain ⟨⟨hs, -⟩, rfl⟩ := h
    exact Or.inr ⟨by simp, rfl, by simp [hs, stageWeight]⟩
  | escalate =>
    simp only [SdlcConfig.step, Option.ite_none_right_eq_some, Option.some.injEq] at h
    obtain ⟨⟨hs, -⟩, rfl⟩ := h
    exact Or.inr ⟨by simp, rfl, by simp [hs, stageWeight]⟩
  | overflow =>
    simp only [SdlcConfig.step, Option.ite_none_right_eq_some, Option.some.injEq] at h
    obtain ⟨⟨hs, -⟩, rfl⟩ := h
    exact Or.inr ⟨by simp, rfl, by simp [hs, stageWeight]⟩
  | _ =>
    simp only [SdlcConfig.step, Option.ite_none_right_eq_some, Option.some.injEq] at h
    obtain ⟨hs, rfl⟩ := h
    exact Or.inr ⟨by simp, rfl, by simp [hs, stageWeight]⟩

/-- **The loop of visits**, as the counters see it: a visit begins, goes on, or returns; it returns without a failure only
when no chunk of the plan is failed. -/
inductive Loops (n : Nat) (s : Run) : Act → Run → Prop
  | begins {s' : Run} (hn : s.node = .develop) (hn' : s'.node = .developing) (hc : s'.e2eRetryCount = s.e2eRetryCount)
      (hd : s'.chunkDag = s.chunkDag) : Loops n s .enter s'
  | goes {a : Act} {s' : Run} (hn : s.node = .developing) (hn' : s'.node = .developing)
      (hc : s'.e2eRetryCount = s.e2eRetryCount) (hd : s'.chunkDag = s.chunkDag) (henter : a ≠ .enter) (hleave : a ≠ .leave) :
      Loops n s a s'
  | returns {raised : Bool} (hn : s.node = .developing)
      (hclear : raised = false → ∀ c < n, s.pool.status c ≠ .failed) : Loops n s .leave (developReturns n s raised)

/-! ## The counters -/

/-- **What the counters say** after `visits` visits were begun and `returns` of them have returned. -/
structure Counted (n visits returns : Nat) (s : Run) : Prop where
  dag : s.chunkDag = (List.replicate returns (List.range n)).flatten
  begun : visits = returns + (if s.node = .developing then 1 else 0)
  retries : s.node = .develop ∨ s.node = .developing → s.e2eRetryCount = returns ∧ returns < e2eCeiling
  bounded : visits ≤ e2eCeiling

theorem Counted.lt_of_mem {n visits returns : Nat} {s : Run} (h : Counted n visits returns s) {c : Nat}
    (hc : c ∈ s.chunkDag) : c < n := by
  rw [h.dag, List.mem_flatten] at hc
  obtain ⟨l, hl, hc⟩ := hc
  rw [List.eq_of_mem_replicate hl] at hc
  exact List.mem_range.1 hc

theorem developReturns_node_ne (n : Nat) (s : Run) (raised : Bool) : (developReturns n s raised).node ≠ .developing :=
  routeAfterDevelop_ne _ _ _

/-- **Back to `develop` only below the ceiling**, and only past a failed chunk. -/
theorem routeAfterDevelop_develop {status : Nat → ChunkStatus} {chunkDag : List Nat} {e2eRetryCount : Nat}
    (h : routeAfterDevelop status chunkDag e2eRetryCount = .develop) :
    (∃ c ∈ chunkDag, status c = .failed) ∧ e2eRetryCount < e2eCeiling := by
  unfold routeAfterDevelop at h
  split at h
  · cases h
  · rename_i hfailed
    refine ⟨not_not.1 hfailed, ?_⟩
    unfold routeE2e at h
    split at h
    · assumption
    · cases h

theorem Counted.returned {n visits returns : Nat} {s : Run} (h : Counted n visits returns s) (raised : Bool) :
    (developReturns n s raised).chunkDag = (List.replicate (returns + 1) (List.range n)).flatten := by
  rw [List.replicate_succ', List.flatten_append, List.flatten_singleton, ← h.dag]
  rfl

/-- **The loop keeps the counters**: a visit that returns to `develop` has left a failed chunk, so it has raised, so it
has been counted. -/
theorem counted_loops {n visits returns : Nat} {s s' : Run} {a : Act} (h : Counted n visits returns s)
    (hl : Loops n s a s') : Counted n (visits + [a].count .enter) (returns + [a].count .leave) s' := by
  cases hl with
  | begins hn hn' hc hd =>
    obtain ⟨he, hlt⟩ := h.retries (Or.inl hn)
    have hv := h.begun
    rw [hn] at hv
    simp only [reduceCtorEq, if_false] at hv
    refine ⟨hd.trans h.dag, ?_, fun _ => ⟨hc.trans he, hlt⟩, ?_⟩
    · rw [hn', if_pos rfl, hv]
      rfl
    · show visits + 1 ≤ e2eCeiling
      omega
  | goes hn hn' hc hd henter hleave =>
    have hcount : [a].count .enter = 0 ∧ [a].count .leave = 0 := by simp [henter, hleave]
    rw [hcount.1, hcount.2]
    refine ⟨hd.trans h.dag, ?_, fun _ => ?_, h.bounded⟩
    · have hv := h.begun
      rw [hn] at hv
      rw [hn']
      exact hv
    · rw [hc]
      exact h.retries (Or.inr hn)
  | @returns raised hn hclear =>
    obtain ⟨he, hlt⟩ := h.retries (Or.inr hn)
    have hv := h.begun
    rw [hn, if_pos rfl] at hv
    refine ⟨h.returned raised, ?_, fun hnode => ?_, h.bounded⟩
    · rw [if_neg (developReturns_node_ne n s raised), hv]
      rfl
    · obtain ⟨⟨c, hc, hfailed⟩, hceiling⟩ :=
        routeAfterDevelop_develop (hnode.resolve_right (developReturns_node_ne n s raised))
      have hlen : c < n := by
        rcases List.mem_append.1 hc with hc | hc
        · exact h.lt_of_mem hc
        · exact List.mem_range.1 hc
      cases raised with
      | false => exact absurd hfailed (hclear rfl c hlen)
      | true =>
        rw [if_pos rfl, he] at hceiling
        exact ⟨congrArg (· + 1) he, hceiling⟩

/-! ## Why a visit that does not raise leaves nothing failed -/

/-- **The pool's tally** inside a visit: until a failure is settled, a failed chunk is in flight and every chunk counts
once at most. -/
structure Tally (cfg : PipelineConfig) (s : Run) : Prop where
  failed : s.pool.phase ≠ .leaving true → ∀ c < cfg.chunks.length, s.pool.status c = .failed → c ∈ s.pool.inFlight
  count : s.pool.phase ≠ .leaving true → s.pool.completed + s.pool.inFlight.length +
    cfg.graph.order.countP (fun c => s.pool.status c = .pending) ≤ cfg.graph.order.length
  total : s.pool.phase = .leaving false → cfg.graph.order.length ≤ s.pool.completed
  waiting : s.pool.phase = .waiting → s.pool.inFlight ≠ []
  settling : ∀ done, s.pool.phase = .settling done → done ≠ []

variable {cfg : PipelineConfig}

/-- **A visit that returns without a failure** has nothing in flight, so nothing failed. -/
theorem Tally.clear {s : Run} (h : Tally cfg s) (hp : s.pool.phase = .leaving false) :
    ∀ c < cfg.chunks.length, s.pool.status c ≠ .failed := by
  intro c hc hfailed
  have hne : s.pool.phase ≠ .leaving true := by rw [hp]; simp
  have hpos := List.length_pos_of_mem (h.failed hne c hc hfailed)
  have hcount := h.count hne
  have htotal := h.total hp
  omega

theorem enter_phase (cfg : PipelineConfig) (s : Run) :
    (cfg.enter s).pool.phase = if cfg.maxParallelWorkers < 1 then .leaving true else .looping := by
  unfold PipelineConfig.enter
  dsimp only
  split <;> rfl

theorem tally_enter (cfg : PipelineConfig) (s : Run) : Tally cfg (cfg.enter s) := by
  obtain ⟨phase, hpool, hphase⟩ := enter_pool cfg s
  have hkinds := enter_phase cfg s
  refine ⟨fun _ c hc hfailed => ?_, fun _ => ?_, fun hp => ?_, fun hp => ?_, fun done hp => ?_⟩
  · rw [hpool] at hfailed
    change (if c < cfg.chunks.length ∧ s.pool.status c = .failed then ChunkStatus.pending else s.pool.status c) = .failed
      at hfailed
    split at hfailed
    · cases hfailed
    · rename_i hno
      exact absurd ⟨hc, hfailed⟩ hno
  · rw [hpool]
    simpa [Pool.start] using List.countP_le_length
  · rw [hkinds] at hp
    split at hp <;> cases hp
  · rw [hkinds] at hp
    split at hp <;> cases hp
  · rw [hpool] at hp
    exact absurd hp (hphase done)

theorem tally_turn {s : Run} (hv : Visit cfg s) (h : Tally cfg s) (hp : s.pool.phase = .looping) :
    Tally cfg (cfg.turn s) := by
  have hne : s.pool.phase ≠ .leaving true := by rw [hp]; simp
  rcases turn_spec hv hp with ⟨htotal, he⟩ | ⟨p, taken, ht, he⟩
  · rw [he]
    exact ⟨fun _ => h.failed hne, fun _ => h.count hne, fun _ => htotal, (fun hw => by cases hw),
      fun done hd => by cases hd⟩
  · rw [he]
    refine ⟨fun _ c hc hfailed => ?_, fun _ => ?_, fun hl => ?_, fun hw => ?_, fun done hd => ?_⟩
    · change p.status c = .failed at hfailed
      show c ∈ p.inFlight
      rw [ht.status c] at hfailed
      split at hfailed
      · cases hfailed
      · rw [ht.inFlight]
        exact List.mem_append_left _ (h.failed hne c hc hfailed)
    · show Counts cfg.graph.order p
      exact counts_claimed ht (h.count hne)
    · dsimp only at hl
      split at hl <;> cases hl
    · dsimp only at hw
      split at hw
      · cases hw
      · assumption
    · dsimp only at hd
      split at hd <;> cases hd

theorem tally_wake {s : Run} {done : List Nat} (h : Tally cfg s) (hp : s.pool.phase = .waiting) (hd : done ≠ []) :
    Tally cfg { s with pool := { s.pool with phase := .settling done } } := by
  have hne : s.pool.phase ≠ .leaving true := by rw [hp]; simp
  refine ⟨fun _ => h.failed hne, fun _ => h.count hne, (fun hl => by cases hl), (fun hw => by cases hw), fun done' hd' => ?_⟩
  cases hd'
  exact hd

theorem tally_settle {s : Run} {c : Nat} {rest : List Nat} {ok : Bool} (hv : Visit cfg s) (h : Tally cfg s)
    (hp : s.pool.phase = .settling (c :: rest)) (hr : (s.exec c).result = some ok) :
    Tally cfg { s with pool := s.pool.settle c rest ok } := by
  cases ok with
  | false =>
    rw [Pool.settle_false]
    exact ⟨fun hl => absurd rfl hl, fun hl => absurd rfl hl, (fun hl => by cases hl), (fun hw => by cases hw),
      fun done hd => by cases hd⟩
  | true =>
    have hne : s.pool.phase ≠ .leaving true := by rw [hp]; simp
    have hst := hv.status_settle_true hp hr
    refine ⟨fun _ d hd hfailed => ?_, fun _ => ?_, fun hl => ?_, fun hw => ?_, fun done hd => ?_⟩
    · change (s.pool.settle c rest true).status d = .failed at hfailed
      rw [hst] at hfailed
      refine (hv.mem_settle hp true d).2 ⟨?_, h.failed hne d hd hfailed⟩
      rintro rfl
      have hfits := hv.flying d (hv.head hp).1
      rw [result_eq_true hr, hfailed] at hfits
      cases hfits
    · exact counts_settle_true hv hp hr (h.count hne)
    · change (s.pool.settle c rest true).phase = _ at hl
      rw [Pool.settle_true_phase] at hl
      split at hl <;> cases hl
    · change (s.pool.settle c rest true).phase = _ at hw
      rw [Pool.settle_true_phase] at hw
      split at hw <;> cases hw
    · change (s.pool.settle c rest true).phase = _ at hd
      rw [Pool.settle_true_phase] at hd
      split at hd
      · cases hd
      · cases hd
        assumption

theorem tally_move {s : Run} {c : Nat} {e : Exec} {st : ChunkStatus} (ws : WorkerWorkspace) (hv : Visit cfg s)
    (h : Tally cfg s) (hm : Moves (s.exec c) (s.pool.status c) e st) :
    Tally cfg (PipelineConfig.move s c e st ws) := by
  have hc := hv.active c hm.active
  refine ⟨fun hne d hd hfailed => ?_, fun hne => counts_move ws (hv.flying c hc) hm (h.count hne), h.total, h.waiting,
    h.settling⟩
  by_cases hdc : d = c
  · rw [hdc]
    exact hc
  · rw [move_status_of_ne s hdc] at hfailed
    exact h.failed hne d hd hfailed

theorem ne_enter_of_step {s s' : Run} {a : Act} (hn : s.node = .developing) (h : cfg.step s a = some s') : a ≠ .enter := by
  rintro rfl
  rw [PipelineConfig.step, hn] at h
  cases h

theorem wake_ne_nil {s s' : Run} {done : List Nat} (h : cfg.step s (.wake done) = some s') : done ≠ [] := by
  simp only [PipelineConfig.step, Option.ite_none_right_eq_some] at h
  exact h.1.2.2.1

/-- **A step of an accepted plan is one of the loop of visits**, and keeps the tally. -/
theorem loops_step {s s' : Run} {a : Act} (ho : Orderly cfg s) (ht : s.node = .developing → Tally cfg s)
    (h : cfg.step s a = some s') :
    Loops cfg.chunks.length s a s' ∧ (s'.node = .developing → Tally cfg s') := by
  cases effect_of_step h with
  | enter hn => exact ⟨.begins hn rfl rfl rfl, fun _ => tally_enter cfg s⟩
  | turn hn hp => exact ⟨.goes hn hn rfl rfl (by simp) (by simp), fun _ => tally_turn (ho.visit hn) (ht hn) hp⟩
  | wake hn hp hd hall =>
    exact ⟨.goes hn hn rfl rfl (by simp) (by simp), fun _ => tally_wake (ht hn) hp (wake_ne_nil h)⟩
  | settle hn hp hr =>
    exact ⟨.goes hn hn rfl rfl (by simp) (by simp), fun _ => tally_settle (ho.visit hn) (ht hn) hp hr⟩
  | execute hn hm hw hbegins hleave hturn =>
    exact ⟨.goes hn hn rfl rfl (ne_enter_of_step hn h) hleave, fun _ => tally_move _ (ho.visit hn) (ht hn) hm⟩
  | @leave raised hn hp hall =>
    refine ⟨leave_eq cfg s raised ▸ .returns hn (fun hraised => ?_), fun hnode => absurd hnode (leave_node_ne cfg s raised)⟩
    rw [hraised] at hp
    exact (ht hn).clear hp

end Engine
end DevHarness
