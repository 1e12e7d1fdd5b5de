import DevHarness.Engine.WorkerPool
import DevHarness.Lib.Machine
import Mathlib.Algebra.Order.BigOperators.Group.List
/-!
# PoolRun — one run of the worker pool (`WorkerPool.run`)

The pool's own thread and the threads of its executors take turns: the pool claims, waits, settles and leaves as in
`Engine.WorkerPool`, and between any two of its steps an executor begins or ends.  An executor returns or raises and
writes no status.  `wait` may hand back any of the finished futures, in any order.  The pool of threads has as many
threads as there are slots, so a submitted chunk always finds one free.
-/
namespace DevHarness
namespace Engine

open Lib (Machine)

/-- Where the future of a chunk stands. -/
inductive Future where
  | unsubmitted
  | submitted
  | running
  | returned
  | raised
  deriving DecidableEq

namespace Future

def begun : Future → Bool
  | unsubmitted | submitted => false
  | running | returned | raised => true

def finished : Future → Bool
  | unsubmitted | submitted | running => false
  | returned | raised => true

/-- What leaving the `with` of the thread pool waits for. -/
def active : Future → Bool
  | submitted | running => true
  | unsubmitted | returned | raised => false

def ended (raises : Bool) : Future := if raises = true then .raised else .returned

end Future

/-- The errors of the pool, as `EngineError`. -/
inductive PoolError (κ : Type) where
  | noWorkers (maxParallel : Int)
  | noFreeSlot
  | stalled
  | failed (c : κ)
  deriving DecidableEq

variable {κ : Type}

def PoolError.message (chunkId : κ → String) (order : List κ) : PoolError κ → String
  | .noWorkers maxParallel => "max_parallel_workers must be >= 1, got " ++ toString maxParallel ++ "."
  | .noFreeSlot => "No free worker slot available."
  | .stalled => "No schedulable chunk remains but the graph is incomplete (chunks: " ++
      String.intercalate ", " (sorted (order.map chunkId)) ++ ")."
  | .failed c => "Chunk '" ++ chunkId c ++ "' failed during execution."

def PoolError.remediation : PoolError κ → String
  | .noWorkers _ => "Configure at least one worker slot (max_parallel_workers >= 1)."
  | .noFreeSlot => "Increase max_parallel_workers or report a pool bug."
  | .stalled => "Fix the chunk statuses/dependencies; a PENDING chunk depends on a non-COMPLETED dependency."
  | .failed _ => "Inspect the worker log for the chunk and retry the run."

/-- A pool: its graph, its slots, and which chunks its executor raises on. -/
structure WorkerPool (κ : Type) where
  dag : Graph κ
  maxParallel : Nat
  raises : κ → Bool
  positive : 1 ≤ maxParallel

/-- `WorkerPool(dag, max_parallel_workers, execute)`. -/
def WorkerPool.init (dag : Graph κ) (maxParallel : Int) (raises : κ → Bool) : Except (PoolError κ) (WorkerPool κ) :=
  if h : maxParallel < 1 then .error (.noWorkers maxParallel)
  else .ok ⟨dag, maxParallel.toNat, raises, by omega⟩

structure PoolRun (κ : Type) where
  pool : Pool κ
  future : κ → Future
  -- the executions, in the order they began
  executed : List κ
  failure : Option (PoolError κ)
  outcome : Option (Except (PoolError κ) (List κ))

inductive PoolAct (κ : Type) where
  | turn
  | begin (c : κ)
  | finish (c : κ)
  | wake (done : List κ)
  | settle
  | exit
  deriving DecidableEq

variable [DecidableEq κ]

namespace WorkerPool

variable (w : WorkerPool κ)

omit [DecidableEq κ] in
/-- `run`, before the first turn of its loop. -/
def start (status : κ → ChunkStatus) (assignedWorkerId : κ → Option String) : PoolRun κ :=
  ⟨Pool.start status assignedWorkerId, fun _ => .unsubmitted, [], none, none⟩

/-- What a turn raises. -/
def turnError (p : Pool κ) : Option (PoolError κ) :=
  if w.dag.order.length ≤ p.completed then none
  else
    let claimed := p.claim w.maxParallel (readyChunks w.dag p.status)
    if claimed.1 = true then some .noFreeSlot
    else if claimed.2.inFlight = [] then some .stalled
    else none

def turn (s : PoolRun κ) : PoolRun κ :=
  let pool := s.pool.turn w.dag w.maxParallel
  { s with
    pool := pool
    future := fun c => if c ∈ pool.inFlight ∧ c ∉ s.pool.inFlight then .submitted else s.future c
    failure := w.turnError s.pool }

def result : Option (PoolError κ) → Except (PoolError κ) (List κ)
  | some e => .error e
  | none => .ok w.dag.order

def step (s : PoolRun κ) (a : PoolAct κ) : Option (PoolRun κ) :=
  if s.outcome.isSome then none
  else match a with
    | .turn => if s.pool.phase = .looping then some (w.turn s) else none
    | .begin c =>
      if s.future c = .submitted then
        some { s with future := Function.update s.future c .running, executed := s.executed ++ [c] }
      else none
    | .finish c =>
      if s.future c = .running then some { s with future := Function.update s.future c (Future.ended (w.raises c)) }
      else none
    | .wake done =>
      if s.pool.phase = .waiting ∧ done ≠ [] ∧ done.Nodup ∧ ∀ c ∈ done, c ∈ s.pool.inFlight ∧ (s.future c).finished then
        some { s with pool := { s.pool with phase := .settling done } }
      else none
    | .settle => match s.pool.phase with
      | .settling (c :: rest) => match s.future c with
        | .returned => some { s with pool := s.pool.settle c rest true }
        | .raised => some { s with pool := s.pool.settle c rest false, failure := some (.failed c) }
        | _ => none
      | _ => none
    | .exit => match s.pool.phase with
      | .leaving _ =>
        if ∀ c ∈ w.dag.order, (s.future c).active = false then some { s with outcome := some (w.result s.failure) }
        else none
      | _ => none

def machine : Machine (PoolRun κ) (PoolAct κ) := ⟨w.step⟩

/-! ## What a step does -/

/-- **The steps of a run**, each with what enables it. -/
inductive Effect (w : WorkerPool κ) (s : PoolRun κ) : PoolRun κ → Prop
  | turn (hp : s.pool.phase = .looping) : Effect w s (w.turn s)
  | begin {c : κ} (hf : s.future c = .submitted) :
      Effect w s { s with future := Function.update s.future c .running, executed := s.executed ++ [c] }
  | finish {c : κ} (hf : s.future c = .running) :
      Effect w s { s with future := Function.update s.future c (Future.ended (w.raises c)) }
  | wake {done : List κ} (hp : s.pool.phase = .waiting) (hne : done ≠ []) (hn : done.Nodup)
      (hall : ∀ c ∈ done, c ∈ s.pool.inFlight ∧ (s.future c).finished) :
      Effect w s { s with pool := { s.pool with phase := .settling done } }
  | complete {c : κ} {rest : List κ} (hp : s.pool.phase = .settling (c :: rest)) (hf : s.future c = .returned) :
      Effect w s { s with pool := s.pool.settle c rest true }
  | fail {c : κ} {rest : List κ} (hp : s.pool.phase = .settling (c :: rest)) (hf : s.future c = .raised) :
      Effect w s { s with pool := s.pool.settle c rest false, failure := some (.failed c) }
  | exit {raised : Bool} (hp : s.pool.phase = .leaving raised) (hall : ∀ c ∈ w.dag.order, (s.future c).active = false) :
      Effect w s { s with outcome := some (w.result s.failure) }

variable {w} {s s' : PoolRun κ}

theorem effect_of_step {a : PoolAct κ} (h : w.step s a = some s') : s.outcome = none ∧ Effect w s s' := by
  unfold step at h
  by_cases ho : s.outcome.isSome
  · rw [if_pos ho] at h
    cases h
  · rw [if_neg ho] at h
    refine ⟨Option.not_isSome_iff_eq_none.1 ho, ?_⟩
    cases a with
    | turn =>
      obtain ⟨hp, he⟩ := Option.ite_none_right_eq_some.1 h
      cases he
      exact .turn hp
    | begin c =>
      obtain ⟨hf, he⟩ := Option.ite_none_right_eq_some.1 h
      cases he
      exact .begin hf
    | finish c =>
      obtain ⟨hf, he⟩ := Option.ite_none_right_eq_some.1 h
      cases he
      exact .finish hf
    | wake done =>
      obtain ⟨⟨hp, hne, hn, hall⟩, he⟩ := Option.ite_none_right_eq_some.1 h
      cases he
      exact .wake hp hne hn hall
    | settle =>
      dsimp only at h
      split at h
      · rename_i c rest hp
        split at h
        · rename_i hf
          cases h
          exact .complete hp hf
        · rename_i hf
          cases h
          exact .fail hp hf
        · cases h
      · cases h
    | exit =>
      dsimp only at h
      split at h
      · rename_i raised hp
        obtain ⟨hall, he⟩ := Option.ite_none_right_eq_some.1 h
        cases he
        exact .exit hp hall
      · cases h

theorem step_of_effect (ho : s.outcome = none) (h : Effect w s s') : ∃ a, w.step s a = some s' := by
  have hlive : ¬ s.outcome.isSome = true := by simp [ho]
  cases h with
  | turn hp => exact ⟨.turn, by rw [step, if_neg hlive]; exact if_pos hp⟩
  | @begin c hf => exact ⟨.begin c, by rw [step, if_neg hlive]; exact if_pos hf⟩
  | @finish c hf => exact ⟨.finish c, by rw [step, if_neg hlive]; exact if_pos hf⟩
  | @wake done hp hne hn hall => exact ⟨.wake done, by rw [step, if_neg hlive]; exact if_pos ⟨hp, hne, hn, hall⟩⟩
  | complete hp hf => exact ⟨.settle, by rw [step, if_neg hlive, hp]; dsimp only; rw [hf]⟩
  | fail hp hf => exact ⟨.settle, by rw [step, if_neg hlive, hp]; dsimp only; rw [hf]⟩
  | exit hp hall => exact ⟨.exit, by rw [step, if_neg hlive, hp]; exact if_pos hall⟩

/-! ## The pool's own state -/

/-- **What the pool keeps for itself**: its slots, whom it waits for and whom it settles. -/
structure Bookkeeping (w : WorkerPool κ) (s : PoolRun κ) : Prop where
  wf : s.pool.phase ≠ .leaving true → s.pool.Wf w.maxParallel
  inUse : s.pool.inUse ⊆ workerIds w.maxParallel
  own : s.pool.OwnSlots w.maxParallel
  nodup : s.pool.inFlight.Nodup
  bound : s.pool.inFlight.length ≤ w.maxParallel
  waiting : s.pool.phase = .waiting → s.pool.inFlight ≠ []
  settling : ∀ done, s.pool.phase = .settling done → done ≠ [] ∧ done.Nodup ∧
    ∀ c ∈ done, c ∈ s.pool.inFlight ∧ (s.future c).finished

/-- **Where a chunk stands**: how it started, its status, its future and whether it is in flight. -/
inductive Stands (raises : Bool) : ChunkStatus → ChunkStatus → Future → Bool → Prop
  | untouched (st : ChunkStatus) : Stands raises st st .unsubmitted false
  | submitted : Stands raises .pending .inProgress .submitted true
  | running : Stands raises .pending .inProgress .running true
  | ended {f : Future} (h : f = Future.ended raises) : Stands raises .pending .inProgress f true
  | completed (h : raises = false) : Stands raises .pending .completed .returned false
  | failed (h : raises = true) : Stands raises .pending .failed .raised false

/-- **What has happened to the chunks**: each stands somewhere, and none was submitted before its dependencies. -/
structure Accounts (w : WorkerPool κ) (initial : κ → ChunkStatus) (s : PoolRun κ) : Prop where
  stands : ∀ c, Stands (w.raises c) (initial c) (s.pool.status c) (s.future c) (decide (c ∈ s.pool.inFlight))
  inOrder : ∀ c, s.future c ≠ .unsubmitted → c ∈ w.dag.order
  met : ∀ c, s.future c ≠ .unsubmitted → ∀ d ∈ w.dag.deps c, s.pool.status d = .completed
  once : s.executed.Nodup
  executed : ∀ c, c ∈ s.executed ↔ (s.future c).begun = true
  counted : s.pool.completed = w.dag.order.countP (fun c => initial c = .pending ∧ s.pool.status c = .completed)

/-- **How the run ends**, and what it has come to before that. -/
structure Ending (w : WorkerPool κ) (s : PoolRun κ) : Prop where
  fine : s.failure = none → s.pool.phase ≠ .leaving true ∧ (∀ c ∈ w.dag.order, s.pool.status c ≠ .failed) ∧
    (s.pool.phase = .leaving false → w.dag.order.length ≤ s.pool.completed)
  bad : ∀ e, s.failure = some e → s.pool.phase = .leaving true ∧
    ((∃ c ∈ w.dag.order, e = .failed c ∧ s.pool.status c = .failed) ∨
      (e = .stalled ∧ (∀ c ∈ w.dag.order, s.pool.status c = .completed) ∧ s.pool.completed < w.dag.order.length))
  outcome : ∀ o, s.outcome = some o → o = w.result s.failure ∧ (∃ raised, s.pool.phase = .leaving raised) ∧
    ∀ c ∈ w.dag.order, (s.future c).active = false

/-- **What every run keeps.** -/
structure Inv (w : WorkerPool κ) (initial : κ → ChunkStatus) (s : PoolRun κ) : Prop where
  books : Bookkeeping w s
  accounts : Accounts w initial s
  ending : Ending w s

omit [DecidableEq κ] in
theorem Stands.of_flying {raises : Bool} {initial st : ChunkStatus} {f : Future} (h : Stands raises initial st f true) :
    initial = .pending ∧ st = .inProgress ∧ f ≠ .unsubmitted := by
  cases h with
  | ended h =>
    refine ⟨rfl, rfl, ?_⟩
    rw [h]
    cases raises <;> simp [Future.ended]
  | _ => exact ⟨rfl, rfl, by simp⟩

theorem Accounts.of_mem {initial : κ → ChunkStatus} (h : Accounts w initial s) {c : κ} (hc : c ∈ s.pool.inFlight) :
    initial c = .pending ∧ s.pool.status c = .inProgress ∧ s.future c ≠ .unsubmitted ∧ c ∈ w.dag.order := by
  have hs := h.stands c
  rw [decide_eq_true hc] at hs
  obtain ⟨hi, hst, hf⟩ := hs.of_flying
  exact ⟨hi, hst, hf, h.inOrder c hf⟩

/-- **A turn**: it leaves when all is counted; otherwise it claims, and waits unless nothing is in flight. -/
theorem turn_spec {initial : κ → ChunkStatus} (hb : Bookkeeping w s) (ha : Accounts w initial s)
    (hp : s.pool.phase = .looping) :
    (w.dag.order.length ≤ s.pool.completed ∧
      w.turn s = { s with pool := { s.pool with phase := .leaving false }, failure := none }) ∨
    (s.pool.completed < w.dag.order.length ∧ ∃ p taken, p.inUse ⊆ workerIds w.maxParallel ∧
      Pool.Claimed w.maxParallel (readyChunks w.dag s.pool.status) s.pool p taken ∧
      w.turn s = { s with
        pool := { p with phase := if p.inFlight = [] then .leaving true else .waiting }
        future := fun c => if c ∈ taken then .submitted else s.future c
        failure := if p.inFlight = [] then some .stalled else none }) := by
  have hfresh : ∀ c ∈ s.pool.inFlight, s.pool.status c ≠ .pending := fun c hc => by
    rw [(ha.of_mem hc).2.1]
    simp
  rcases Pool.turn_cases (g := w.dag) (hb.wf (by rw [hp]; simp)) hfresh with
    ⟨htotal, hpool⟩ | ⟨htotal, p, taken, hclaim, ht, hpool⟩
  · left
    refine ⟨htotal, ?_⟩
    unfold turn turnError
    rw [hpool, if_pos htotal]
    dsimp only
    congr 1
    funext c
    exact if_neg (fun hc => hc.2 hc.1)
  · right
    have hapart : ∀ c ∈ taken, c ∉ s.pool.inFlight := fun c hc hf =>
      hfresh c hf (mem_readyChunks.1 (ht.sub.subset hc)).2.1
    have hids := Pool.claim_inUse_subset (readyChunks w.dag s.pool.status) s.pool hb.inUse
    rw [hclaim] at hids
    refine ⟨htotal, p, taken, hids, ht, ?_⟩
    unfold turn turnError
    rw [hpool, if_neg (Nat.not_le.2 htotal), hclaim]
    dsimp only
    congr 1
    funext c
    refine if_congr ?_ rfl rfl
    rw [ht.inFlight, List.mem_append]
    exact ⟨fun ⟨hc, hno⟩ => hc.resolve_left hno, fun hc => ⟨Or.inr hc, hapart c hc⟩⟩

/-! ## Bookkeeping -/

omit [DecidableEq κ] in
theorem bookkeeping_start (w : WorkerPool κ) (status : κ → ChunkStatus) (assigned : κ → Option String) :
    Bookkeeping w (start status assigned) where
  wf _ := Pool.wf_start _ _ _
  inUse := List.nil_subset _
  own := ⟨List.nodup_nil, fun c hc => by cases hc⟩
  nodup := List.nodup_nil
  bound := Nat.zero_le _
  waiting hp := by cases hp
  settling done hd := by cases hd

omit [DecidableEq κ] in
/-- A pool that only moves on keeps its books. -/
theorem Bookkeeping.with_phase (h : Bookkeeping w s) (hp : s.pool.phase ≠ .leaving true) {phase : PoolPhase κ}
    (hwaiting : phase = .waiting → s.pool.inFlight ≠ []) (hsettling : ∀ done, phase = .settling done → done ≠ [] ∧
      done.Nodup ∧ ∀ c ∈ done, c ∈ s.pool.inFlight ∧ (s.future c).finished) {failure : Option (PoolError κ)} :
    Bookkeeping w { s with pool := { s.pool with phase := phase }, failure := failure } := by
  have hwf := h.wf hp
  exact ⟨fun _ => ⟨hwf.nodup, hwf.bound, hwf.slots, hwf.inUse⟩, h.inUse, ⟨h.own.nodup, h.own.mem⟩, h.nodup, h.bound,
    hwaiting, hsettling⟩

/-- An executor's step is none of the pool's. -/
theorem Bookkeeping.with_future (h : Bookkeeping w s) {c : κ} (hc : (s.future c).finished = false) (f : Future)
    (executed : List κ) : Bookkeeping w { s with future := Function.update s.future c f, executed := executed } := by
  refine ⟨h.wf, h.inUse, h.own, h.nodup, h.bound, h.waiting, fun done hd => ?_⟩
  obtain ⟨hne, hn, hall⟩ := h.settling done hd
  refine ⟨hne, hn, fun d hdd => ⟨(hall d hdd).1, ?_⟩⟩
  have hdc : d ≠ c := by
    rintro rfl
    rw [(hall d hdd).2] at hc
    cases hc
  show (Function.update s.future c f d).finished = true
  rw [Function.update_of_ne hdc]
  exact (hall d hdd).2

theorem bookkeeping_turn {initial : κ → ChunkStatus} (h : Bookkeeping w s) (ha : Accounts w initial s)
    (hp : s.pool.phase = .looping) : Bookkeeping w (w.turn s) := by
  rcases turn_spec h ha hp with ⟨-, he⟩ | ⟨-, p, taken, hids, ht, he⟩
  · rw [he]
    exact h.with_phase (by rw [hp]; simp) (fun hw => by cases hw) (fun done hd => by cases hd)
  · rw [he]
    have hown := ht.wf.ownSlots hids
    refine ⟨fun _ => ⟨ht.wf.nodup, ht.wf.bound, ht.wf.slots, ht.wf.inUse⟩, hids, ⟨hown.nodup, hown.mem⟩, ht.wf.nodup,
      ht.wf.bound, fun hw he => ?_, fun done hd => ?_⟩
    · change (if p.inFlight = [] then PoolPhase.leaving true else .waiting) = .waiting at hw
      rw [if_pos he] at hw
      cases hw
    · dsimp only at hd
      split at hd <;> cases hd

omit [DecidableEq κ] in
theorem Bookkeeping.head (h : Bookkeeping w s) {c : κ} {rest : List κ} (hp : s.pool.phase = .settling (c :: rest)) :
    c ∈ s.pool.inFlight ∧ c ∉ rest ∧ rest.Nodup ∧ ∀ d ∈ rest, d ∈ s.pool.inFlight ∧ (s.future d).finished := by
  obtain ⟨-, hn, hall⟩ := h.settling _ hp
  rw [List.nodup_cons] at hn
  exact ⟨(hall c List.mem_cons_self).1, hn.1, hn.2, fun d hd => hall d (List.mem_cons_of_mem _ hd)⟩

theorem Bookkeeping.own_settle (h : Bookkeeping w s) (c : κ) (rest : List κ) (ok : Bool) :
    (s.pool.settle c rest ok).OwnSlots w.maxParallel := by
  refine ⟨?_, fun d hd => ?_⟩
  · rw [Pool.settle_inFlight, Pool.settle_assignedWorkerId]
    exact h.own.nodup.sublist (List.erase_sublist.map _)
  · rw [Pool.settle_inFlight] at hd
    rw [Pool.settle_assignedWorkerId]
    exact h.own.mem d (List.mem_of_mem_erase hd)

theorem bookkeeping_complete (h : Bookkeeping w s) {c : κ} {rest : List κ} (hp : s.pool.phase = .settling (c :: rest)) :
    Bookkeeping w { s with pool := s.pool.settle c rest true } := by
  obtain ⟨hc, hcr, hrest, hall⟩ := h.head hp
  have hwf := (h.wf (by rw [hp]; simp)).settle hc rest
  refine ⟨fun _ => hwf, ?_, h.own_settle c rest true, hwf.nodup, hwf.bound, fun hw => ?_, fun done hd => ?_⟩
  · show (s.pool.settle c rest true).inUse ⊆ workerIds w.maxParallel
    rw [Pool.settle, if_pos rfl]
    dsimp only
    cases s.pool.assignedWorkerId c with
    | none => exact h.inUse
    | some id => exact fun x hx => h.inUse (List.mem_of_mem_erase hx)
  · change (s.pool.settle c rest true).phase = .waiting at hw
    rw [Pool.settle_true_phase] at hw
    split at hw <;> cases hw
  · change (s.pool.settle c rest true).phase = .settling done at hd
    rw [Pool.settle_true_phase] at hd
    split at hd
    · cases hd
    · rename_i hne
      cases hd
      refine ⟨hne, hrest, fun d hd => ⟨?_, (hall d hd).2⟩⟩
      rw [Pool.settle_inFlight, h.nodup.mem_erase_iff]
      refine ⟨?_, (hall d hd).1⟩
      rintro rfl
      exact hcr hd

theorem bookkeeping_fail (h : Bookkeeping w s) (c : κ) (rest : List κ) (failure : Option (PoolError κ)) :
    Bookkeeping w { s with pool := s.pool.settle c rest false, failure := failure } := by
  have hown := h.own_settle c rest false
  rw [Pool.settle_false] at hown ⊢
  exact ⟨fun hne => absurd rfl hne, h.inUse, hown, h.nodup.erase c, Nat.le_trans List.length_erase_le h.bound,
    fun hw => (by cases hw), fun done hd => (by cases hd)⟩

theorem bookkeeping_effect {initial : κ → ChunkStatus} (h : Bookkeeping w s) (ha : Accounts w initial s)
    (he : Effect w s s') : Bookkeeping w s' := by
  cases he with
  | turn hp => exact bookkeeping_turn h ha hp
  | begin hf => exact h.with_future (by rw [hf]; rfl) _ _
  | finish hf => exact h.with_future (by rw [hf]; rfl) _ _
  | wake hp hne hn hall =>
    refine h.with_phase (by rw [hp]; simp) (fun hw => by cases hw) (fun done hd => ?_)
    cases hd
    exact ⟨hne, hn, hall⟩
  | complete hp hf => exact bookkeeping_complete h hp
  | fail hp hf => exact bookkeeping_fail h _ _ _
  | exit hp hall => exact ⟨h.wf, h.inUse, h.own, h.nodup, h.bound, h.waiting, h.settling⟩

end WorkerPool
end Engine
end DevHarness
