import DevHarness.Engine.WorkerPool
import DevHarness.Engine.WorkerWorkspace
import DevHarness.Lib.Machine
/-!
# Pipeline — visits to the develop node (`engine/pipeline.py`, `engine/nodes/*.py`, `engine/routing.py`)

One run of the graph from its first visit to `develop` on, as a machine.  A visit makes a pool over the chunks; each
submitted chunk's `_run_chunk` goes through its four steps (bind, developer, tester, commit) on its own thread, at any
time between the pool's, and writes the chunk's status as it goes.  When the pool is left and nothing is in flight any
more, `route_after_develop` decides.  What the client, the tests and git answer are the labels.

A chunk is its place in `config.chunks`.  `effect_of_step` says once what a step can do.
-/
namespace DevHarness
namespace Engine

/-- Where the latest `_run_chunk` of a chunk stands. -/
inductive Exec where
  | idle
  | submitted
  | bound
  | developed
  | tested
  | returned
  | raised
  deriving DecidableEq, Repr

def Exec.result : Exec → Option Bool
  | .returned => some true
  | .raised => some false
  | _ => none

/-- How the tester node ends: it sets the status, or raises before it does. -/
inductive TestOutcome where
  | passed
  | failed
  | crashed
  deriving DecidableEq, Repr

inductive Node where
  -- about to enter `develop`
  | develop
  | developing
  | integrate
  | hitl
  deriving DecidableEq, Repr

/-- The plan of a run: chunks that `ChunkDAG` accepts, with the calls its search has room for, and the pool's bound. -/
structure PipelineConfig where
  chunks : List Chunk
  maxParallelWorkers : Int
  limit : Nat
  dag : ChunkDAG
  accepted : ChunkDAG.build limit chunks = .ok dag

def PipelineConfig.ofChunks (limit : Nat) (chunks : List Chunk) (maxParallelWorkers : Int) : Option PipelineConfig :=
  match h : ChunkDAG.build limit chunks with
  | .ok dag => some ⟨chunks, maxParallelWorkers, limit, dag, h⟩
  | .error _ => none

/-- A run of the graph: the develop node's pool, the chunk executions, the workspace and the channels the router reads. -/
structure Run where
  pool : Pool Nat
  exec : Nat → Exec
  workspace : WorkerWorkspace
  node : Node
  -- the `chunk_dag` channel: chunks by place
  chunkDag : List Nat
  -- the `e2e_retry_count` channel
  e2eRetryCount : Nat

inductive Act where
  -- `develop` resets failed chunks and makes its pool
  | enter
  -- the pool's loop claims what is ready
  | turn
  -- `wait` returns these futures
  | wake (done : List Nat)
  -- the pool settles the next of them
  | settle
  | bind (c : Nat) (gitOk : Bool)
  | develop (c : Nat) (ok : Bool)
  | test (c : Nat) (outcome : TestOutcome)
  | commit (c : Nat) (gitOk : Bool)
  -- `develop` returns and the router decides
  | leave
  deriving DecidableEq, Repr

def Act.begins : Act → Option Nat
  | .bind c _ => some c
  | _ => none

/-! ## Routing -/

def e2eCeiling : Nat := 2

/-- `_route_e2e`, as the node `route_after_develop` makes of it. -/
def routeE2e (e2eRetryCount : Nat) : Node := if e2eRetryCount < e2eCeiling then .develop else .hitl

/-- `route_after_develop`. -/
def routeAfterDevelop (status : Nat → ChunkStatus) (chunkDag : List Nat) (e2eRetryCount : Nat) : Node :=
  if ¬ (∃ c ∈ chunkDag, status c = .failed) then .integrate else routeE2e e2eRetryCount

namespace PipelineConfig

variable (cfg : PipelineConfig)

def graph : Graph Nat := ChunkDAG.graph cfg.accepted

def slots : Nat := cfg.maxParallelWorkers.toNat

def chunkId (c : Nat) : String := match cfg.chunks[c]? with
  | some chunk => chunk.chunkId
  | none => ""

def branch (c : Nat) : String := chunkBranch (cfg.chunkId c)

def init (status : Nat → ChunkStatus) (workspace : WorkerWorkspace) : Run :=
  ⟨Pool.start status (fun _ => none), fun _ => .idle, workspace, .develop, [], 0⟩

/-- `develop`, up to the pool's run: failed chunks are pending again; a bound below one is refused. -/
def enter (s : Run) : Run :=
  let status := fun c => if c < cfg.chunks.length ∧ s.pool.status c = .failed then .pending else s.pool.status c
  let pool := Pool.start status s.pool.assignedWorkerId
  { s with
    node := .developing
    pool := if cfg.maxParallelWorkers < 1 then { pool with phase := .leaving true } else pool }

/-- One turn of the pool's loop; what it claims is submitted. -/
def turn (s : Run) : Run :=
  let pool := s.pool.turn cfg.graph cfg.slots
  { s with
    pool := pool
    exec := fun c => if c ∈ pool.inFlight ∧ c ∉ s.pool.inFlight then .submitted else s.exec c }

def move (s : Run) (c : Nat) (e : Exec) (st : ChunkStatus) (workspace : WorkerWorkspace) : Run :=
  { s with pool := s.pool.setStatus c st, exec := Function.update s.exec c e, workspace := workspace }

def runBind (s : Run) (c : Nat) (gitOk : Bool) : Run :=
  match s.pool.assignedWorkerId c with
  | none => move s c .raised (s.pool.status c) s.workspace
  | some w =>
    match s.workspace.bind w (cfg.branch c) gitOk with
    | none => move s c .raised (s.pool.status c) s.workspace
    | some ws => move s c .bound (s.pool.status c) ws

/-- `DeveloperNode.__call__`: nothing for a completed chunk; otherwise completed when its writes are applied. -/
def runDeveloper (s : Run) (c : Nat) (ok : Bool) : Run :=
  if s.pool.status c = .completed then move s c .developed (s.pool.status c) s.workspace
  else if ok = true then move s c .developed .completed s.workspace
  else move s c .raised .inProgress s.workspace

def runTester (s : Run) (c : Nat) : TestOutcome → Run
  | .passed => move s c .tested .completed s.workspace
  | .failed => move s c .raised .failed s.workspace
  | .crashed => move s c .raised (s.pool.status c) s.workspace

def runCommit (s : Run) (c : Nat) (gitOk : Bool) : Run :=
  match s.workspace.rootFor (s.pool.assignedWorkerId c) with
  | none => move s c .raised (s.pool.status c) s.workspace
  | some w =>
    if gitOk = true then move s c .returned (s.pool.status c) (s.workspace.commit w (cfg.chunkId c))
    else move s c .raised (s.pool.status c) s.workspace

def leave (s : Run) (raised : Bool) : Run :=
  let chunkDag := s.chunkDag ++ List.range cfg.chunks.length
  let e2eRetryCount := s.e2eRetryCount + (if raised = true then 1 else 0)
  { s with
    chunkDag := chunkDag
    e2eRetryCount := e2eRetryCount
    node := routeAfterDevelop s.pool.status chunkDag e2eRetryCount }

def step (s : Run) : Act → Option Run
  | .enter => if s.node = .develop then some (cfg.enter s) else none
  | .turn => if s.node = .developing ∧ s.pool.phase = .looping then some (cfg.turn s) else none
  | .wake done =>
    if s.node = .developing ∧ s.pool.phase = .waiting ∧ done ≠ [] ∧ done.Nodup ∧
        ∀ c ∈ done, c ∈ s.pool.inFlight ∧ (s.exec c).result.isSome then
      some { s with pool := { s.pool with phase := .settling done } }
    else none
  | .settle =>
    if s.node = .developing then
      match s.pool.phase with
      | .settling (c :: rest) => (s.exec c).result.map (fun ok => { s with pool := s.pool.settle c rest ok })
      | _ => none
    else none
  | .bind c gitOk => if s.node = .developing ∧ s.exec c = .submitted then some (cfg.runBind s c gitOk) else none
  | .develop c ok => if s.node = .developing ∧ s.exec c = .bound then some (runDeveloper s c ok) else none
  | .test c outcome => if s.node = .developing ∧ s.exec c = .developed then some (runTester s c outcome) else none
  | .commit c gitOk => if s.node = .developing ∧ s.exec c = .tested then some (cfg.runCommit s c gitOk) else none
  | .leave =>
    if s.node = .developing ∧ ∀ c ∈ s.pool.inFlight, (s.exec c).result.isSome then
      match s.pool.phase with
      | .leaving raised => some (cfg.leave s raised)
      | _ => none
    else none

def machine : Lib.Machine Run Act := ⟨cfg.step⟩

end PipelineConfig

/-! ## What a step can do -/

/-- **The moves of an execution**, with the status it leaves. -/
inductive Moves : Exec → ChunkStatus → Exec → ChunkStatus → Prop
  | binds (st : ChunkStatus) : Moves .submitted st .bound st
  | bindRaises (st : ChunkStatus) : Moves .submitted st .raised st
  | develops (st : ChunkStatus) : Moves .bound st .developed .completed
  | developRaises (st : ChunkStatus) : Moves .bound st .raised .inProgress
  | testPasses (st : ChunkStatus) : Moves .developed st .tested .completed
  | testFails (st : ChunkStatus) : Moves .developed st .raised .failed
  | testCrashes (st : ChunkStatus) : Moves .developed st .raised st
  | commits (st : ChunkStatus) : Moves .tested st .returned st
  | commitRaises (st : ChunkStatus) : Moves .tested st .raised st

def Exec.Active (e : Exec) : Prop := e = .submitted ∨ e = .bound ∨ e = .developed ∨ e = .tested

instance (e : Exec) : Decidable e.Active := inferInstanceAs (Decidable (_ ∨ _))

theorem Moves.active {e e' : Exec} {st st' : ChunkStatus} (h : Moves e st e' st') : e.Active := by
  cases h <;> simp [Exec.Active]

/-- What a move does to the workspace: a binding binds, a return has committed, nothing else touches it. -/
inductive Touches (cfg : PipelineConfig) (s : Run) (c : Nat) : Exec → WorkerWorkspace → Prop
  | nothing {e : Exec} (he : e ≠ .bound ∧ e ≠ .returned) : Touches cfg s c e s.workspace
  | binds {w : String} {gitOk : Bool} {ws : WorkerWorkspace} (hw : s.pool.assignedWorkerId c = some w)
      (hb : s.workspace.bind w (cfg.branch c) gitOk = some ws) : Touches cfg s c .bound ws
  | commits {w : String} (hroot : s.workspace.rootFor (s.pool.assignedWorkerId c) = some w) :
      Touches cfg s c .returned (s.workspace.commit w (cfg.chunkId c))

/-- **What a step can do.** -/
inductive Effect (cfg : PipelineConfig) (s : Run) : Act → Run → Prop
  | enter (hn : s.node = .develop) : Effect cfg s .enter (cfg.enter s)
  | turn (hn : s.node = .developing) (hp : s.pool.phase = .looping) : Effect cfg s .turn (cfg.turn s)
  | wake {done : List Nat} (hn : s.node = .developing) (hp : s.pool.phase = .waiting) (hd : done.Nodup)
      (hall : ∀ c ∈ done, c ∈ s.pool.inFlight ∧ (s.exec c).result.isSome) :
      Effect cfg s (.wake done) { s with pool := { s.pool with phase := .settling done } }
  | settle {c : Nat} {rest : List Nat} {ok : Bool} (hn : s.node = .developing) (hp : s.pool.phase = .settling (c :: rest))
      (hr : (s.exec c).result = some ok) : Effect cfg s .settle { s with pool := s.pool.settle c rest ok }
  | execute {a : Act} {c : Nat} {e : Exec} {st : ChunkStatus} {ws : WorkerWorkspace} (hn : s.node = .developing)
      (hm : Moves (s.exec c) (s.pool.status c) e st) (ht : Touches cfg s c e ws)
      (hbegins : a.begins = if s.exec c = .submitted then some c else none) (hleave : a ≠ .leave) (hturn : a ≠ .turn) :
      Effect cfg s a (PipelineConfig.move s c e st ws)
  | leave {raised : Bool} (hn : s.node = .developing) (hp : s.pool.phase = .leaving raised)
      (hall : ∀ c ∈ s.pool.inFlight, (s.exec c).result.isSome) : Effect cfg s .leave (cfg.leave s raised)

theorem effect_of_move {cfg : PipelineConfig} {s : Run} {a : Act} {c : Nat} {e : Exec} {st : ChunkStatus}
    (hn : s.node = .developing) (hm : Moves (s.exec c) (s.pool.status c) e st) (he : e ≠ .bound ∧ e ≠ .returned)
    (hbegins : a.begins = if s.exec c = .submitted then some c else none) (hleave : a ≠ .leave) (hturn : a ≠ .turn) :
    Effect cfg s a (PipelineConfig.move s c e st s.workspace) :=
  .execute hn hm (.nothing he) hbegins hleave hturn

theorem effect_of_bind {cfg : PipelineConfig} {s : Run} {c : Nat} (hn : s.node = .developing)
    (he : s.exec c = .submitted) (gitOk : Bool) : Effect cfg s (.bind c gitOk) (cfg.runBind s c gitOk) := by
  have hbegins : (Act.bind c gitOk).begins = if s.exec c = .submitted then some c else none := by
    rw [if_pos he, Act.begins]
  have hraise : Effect cfg s (.bind c gitOk) (PipelineConfig.move s c .raised (s.pool.status c) s.workspace) :=
    effect_of_move hn (he ▸ Moves.bindRaises _) (by simp) hbegins (by simp) (by simp)
  unfold PipelineConfig.runBind
  cases hw : s.pool.assignedWorkerId c with
  | none => exact hraise
  | some w =>
    dsimp only
    cases hb : s.workspace.bind w (cfg.branch c) gitOk with
    | none => exact hraise
    | some ws => exact .execute hn (he ▸ Moves.binds _) (.binds hw hb) hbegins (by simp) (by simp)

theorem effect_of_develop {cfg : PipelineConfig} {s : Run} {c : Nat} (hn : s.node = .developing)
    (he : s.exec c = .bound) (ok : Bool) : Effect cfg s (.develop c ok) (PipelineConfig.runDeveloper s c ok) := by
  unfold PipelineConfig.runDeveloper
  split
  · rename_i hst
    exact effect_of_move hn (he ▸ hst ▸ Moves.develops _) (by simp) (by simp [Act.begins, he]) (by simp) (by simp)
  · split
    · exact effect_of_move hn (he ▸ Moves.develops _) (by simp) (by simp [Act.begins, he]) (by simp) (by simp)
    · exact effect_of_move hn (he ▸ Moves.developRaises _) (by simp) (by simp [Act.begins, he]) (by simp) (by simp)

theorem effect_of_test {cfg : PipelineConfig} {s : Run} {c : Nat} (hn : s.node = .developing)
    (he : s.exec c = .developed) (outcome : TestOutcome) :
    Effect cfg s (.test c outcome) (PipelineConfig.runTester s c outcome) := by
  cases outcome with
  | passed => exact effect_of_move hn (he ▸ Moves.testPasses _) (by simp) (by simp [Act.begins, he]) (by simp) (by simp)
  | failed => exact effect_of_move hn (he ▸ Moves.testFails _) (by simp) (by simp [Act.begins, he]) (by simp) (by simp)
  | crashed => exact effect_of_move hn (he ▸ Moves.testCrashes _) (by simp) (by simp [Act.begins, he]) (by simp) (by simp)

theorem effect_of_commit {cfg : PipelineConfig} {s : Run} {c : Nat} (hn : s.node = .developing)
    (he : s.exec c = .tested) (gitOk : Bool) : Effect cfg s (.commit c gitOk) (cfg.runCommit s c gitOk) := by
  have hraise : Effect cfg s (.commit c gitOk) (PipelineConfig.move s c .raised (s.pool.status c) s.workspace) :=
    effect_of_move hn (he ▸ Moves.commitRaises _) (by simp) (by simp [Act.begins, he]) (by simp) (by simp)
  unfold PipelineConfig.runCommit
  cases hroot : s.workspace.rootFor (s.pool.assignedWorkerId c) with
  | none => exact hraise
  | some w =>
    dsimp only
    split
    · exact .execute hn (he ▸ Moves.commits _) (.commits hroot) (by simp [Act.begins, he]) (by simp) (by simp)
    · exact hraise

theorem effect_of_step {cfg : PipelineConfig} {s s' : Run} {a : Act} (h : cfg.step s a = some s') : Effect cfg s a s' := by
  cases a with
  | enter =>
    simp only [PipelineConfig.step, Option.ite_none_right_eq_some, Option.some.injEq] at h
    obtain ⟨hn, rfl⟩ := h
    exact .enter hn
  | turn =>
    simp only [PipelineConfig.step, Option.ite_none_right_eq_some, Option.some.injEq] at h
    obtain ⟨⟨hn, hp⟩, rfl⟩ := h
    exact .turn hn hp
  | wake done =>
    simp only [PipelineConfig.step, Option.ite_none_right_eq_some, Option.some.injEq] at h
    obtain ⟨⟨hn, hp, -, hd, hall⟩, rfl⟩ := h
    exact .wake hn hp hd hall
  | settle =>
    simp only [PipelineConfig.step, Option.ite_none_right_eq_some] at h
    obtain ⟨hn, h⟩ := h
    cases hp : s.pool.phase with
    | settling done =>
      cases done with
      | nil => rw [hp] at h; cases h
      | cons c rest =>
        rw [hp] at h
        obtain ⟨ok, hr, rfl⟩ := Option.map_eq_some_iff.1 h
        exact .settle hn hp hr
    | looping => rw [hp] at h; cases h
    | waiting => rw [hp] at h; cases h
    | leaving raised => rw [hp] at h; cases h
  | bind c gitOk =>
    simp only [PipelineConfig.step, Option.ite_none_right_eq_some, Option.some.injEq] at h
    obtain ⟨⟨hn, he⟩, rfl⟩ := h
    exact effect_of_bind hn he gitOk
  | develop c ok =>
    simp only [PipelineConfig.step, Option.ite_none_right_eq_some, Option.some.injEq] at h
    obtain ⟨⟨hn, he⟩, rfl⟩ := h
    exact effect_of_develop hn he ok
  | test c outcome =>
    simp only [PipelineConfig.step, Option.ite_none_right_eq_some, Option.some.injEq] at h
    obtain ⟨⟨hn, he⟩, rfl⟩ := h
    exact effect_of_test hn he outcome
  | commit c gitOk =>
    simp only [PipelineConfig.step, Option.ite_none_right_eq_some, Option.some.injEq] at h
    obtain ⟨⟨hn, he⟩, rfl⟩ := h
    exact effect_of_commit hn he gitOk
  | leave =>
    simp only [PipelineConfig.step, Option.ite_none_right_eq_some] at h
    obtain ⟨⟨hn, hall⟩, h⟩ := h
    cases hp : s.pool.phase with
    | leaving raised =>
      rw [hp] at h
      cases h
      exact .leave hn hp hall
    | looping => rw [hp] at h; cases h
    | waiting => rw [hp] at h; cases h
    | settling done => rw [hp] at h; cases h

end Engine
end DevHarness
