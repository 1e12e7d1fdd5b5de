import DevHarness.Engine.Dag
import DevHarness.Lib.Text
import Mathlib.Data.List.Perm.Subperm
/-!
# WorkerPool — ready chunks onto worker slots (`engine/worker_pool.py`)

The pool as its own thread sees it: the two fields of the chunk objects it writes, the futures in flight, the slots in
use and where it stands in `run` (`PoolPhase`).  What the executors write into the same status map is not the pool's;
they are the caller's steps.  Chunks are nodes of any graph.  A pool that is `Wf` has as many slots in use as futures in
flight, so a claim below the bound always finds a slot (`claim_spec`).
-/
namespace DevHarness
namespace Engine

def workerId (slot : Nat) : String := "worker-" ++ Nat.repr slot

theorem workerId_injective : Function.Injective workerId := Lib.numbered_injective "worker-"

def workerIds (maxParallel : Nat) : List String := (List.range maxParallel).map (fun i => workerId (i + 1))

theorem nodup_workerIds (maxParallel : Nat) : (workerIds maxParallel).Nodup :=
  List.nodup_range.map (fun _ _ h => Nat.succ.inj (workerId_injective h))

/-- `_acquire_worker_id`: the lowest free slot. -/
def acquireWorkerId (maxParallel : Nat) (inUse : List String) : Option String :=
  (workerIds maxParallel).find? (fun w => w ∉ inUse)

/-- **While fewer slots are in use than there are, one is free.** -/
theorem acquireWorkerId_isSome {maxParallel : Nat} {inUse : List String} (h : inUse.length < maxParallel) :
    ∃ w, acquireWorkerId maxParallel inUse = some w ∧ w ∉ inUse := by
  cases hw : acquireWorkerId maxParallel inUse with
  | some w => exact ⟨w, rfl, by simpa using List.find?_some hw⟩
  | none =>
    have hall : workerIds maxParallel ⊆ inUse := by
      intro w hm
      simpa using List.find?_eq_none.1 hw w hm
    have hle := (List.subperm_of_subset (nodup_workerIds maxParallel) hall).length_le
    simp only [workerIds, List.length_map, List.length_range] at hle
    omega

variable {κ : Type} [DecidableEq κ]

inductive PoolPhase (κ : Type) where
  -- at the head of `while completed < total`
  | looping
  -- in `wait(in_flight, return_when=FIRST_COMPLETED)`
  | waiting
  -- in `for future in done`
  | settling (done : List κ)
  -- out of the loop, by a return or a raise: the executor still waits for what is in flight
  | leaving (raised : Bool)
  deriving DecidableEq

/-- The pool and the chunk fields it shares with its executors. -/
structure Pool (κ : Type) where
  status : κ → ChunkStatus
  assignedWorkerId : κ → Option String
  inFlight : List κ
  inUse : List String
  completed : Nat
  phase : PoolPhase κ

def dependenciesCompleted (g : Graph κ) (status : κ → ChunkStatus) (c : κ) : Bool :=
  (g.deps c).all (fun d => status d = .completed)

def readyChunks (g : Graph κ) (status : κ → ChunkStatus) : List κ :=
  g.order.filter (fun c => decide (status c = .pending) && dependenciesCompleted g status c)

omit [DecidableEq κ] in
theorem mem_readyChunks {g : Graph κ} {status : κ → ChunkStatus} {c : κ} :
    c ∈ readyChunks g status ↔ c ∈ g.order ∧ status c = .pending ∧ ∀ d ∈ g.deps c, status d = .completed := by
  simp [readyChunks, dependenciesCompleted]

omit [DecidableEq κ] in
/-- **Nothing pending is ready only when nothing is pending**: of the pending chunks a least one would be. -/
theorem all_completed_of_none_ready {g : Graph κ} {status : κ → ChunkStatus}
    (hidle : ∀ c ∈ g.order, status c = .pending ∨ status c = .completed) (hready : readyChunks g status = []) :
    ∀ c ∈ g.order, status c = .completed := by
  intro c hc
  by_contra hst
  obtain ⟨x, hx, hxp, hleast⟩ := g.layered.exists_least (fun c => status c = .pending) ⟨c, hc, (hidle c hc).resolve_right hst⟩
  have hmem : x ∈ readyChunks g status :=
    mem_readyChunks.2 ⟨hx, hxp, fun d hd => (hidle d (g.mem_of_dep hx hd)).resolve_left (hleast d hd)⟩
  rw [hready] at hmem
  cases hmem

namespace Pool

def start (status : κ → ChunkStatus) (assignedWorkerId : κ → Option String) : Pool κ :=
  ⟨status, assignedWorkerId, [], [], 0, .looping⟩

def setStatus (p : Pool κ) (c : κ) (st : ChunkStatus) : Pool κ := { p with status := Function.update p.status c st }

def submit (p : Pool κ) (c : κ) (w : String) : Pool κ :=
  { p with
    status := Function.update p.status c .inProgress
    assignedWorkerId := Function.update p.assignedWorkerId c (some w)
    inFlight := p.inFlight ++ [c]
    inUse := p.inUse ++ [w] }

/-- The loop over the ready chunks; `true` when a slot could not be had. -/
def claim (maxParallel : Nat) : List κ → Pool κ → Bool × Pool κ
  | [], p => (false, p)
  | c :: cs, p =>
    if maxParallel ≤ p.inFlight.length then (false, p)
    else match acquireWorkerId maxParallel p.inUse with
      | none => (true, p)
      | some w => claim maxParallel cs (p.submit c w)

/-- One turn at the head of the loop: claim what is ready, then wait, or give up when nothing is in flight. -/
def turn (g : Graph κ) (maxParallel : Nat) (p : Pool κ) : Pool κ :=
  if g.order.length ≤ p.completed then { p with phase := .leaving false }
  else
    let claimed := p.claim maxParallel (readyChunks g p.status)
    if claimed.1 = true ∨ claimed.2.inFlight = [] then { claimed.2 with phase := .leaving true }
    else { claimed.2 with phase := .waiting }

def releaseWorkerId (inUse : List String) : Option String → List String
  | none => inUse
  | some w => inUse.erase w

/-- `_settle` of the first of the done futures, and back to the loop after the last. -/
def settle (p : Pool κ) (c : κ) (rest : List κ) (ok : Bool) : Pool κ :=
  if ok = true then
    { p with
      status := Function.update p.status c .completed
      inFlight := p.inFlight.erase c
      inUse := releaseWorkerId p.inUse (p.assignedWorkerId c)
      completed := p.completed + 1
      phase := if rest = [] then .looping else .settling rest }
  else
    { p with
      status := Function.update p.status c .failed
      inFlight := p.inFlight.erase c
      phase := .leaving true }

@[simp] theorem settle_inFlight (p : Pool κ) (c : κ) (rest : List κ) (ok : Bool) :
    (p.settle c rest ok).inFlight = p.inFlight.erase c := by
  unfold settle
  split <;> rfl

@[simp] theorem settle_assignedWorkerId (p : Pool κ) (c : κ) (rest : List κ) (ok : Bool) :
    (p.settle c rest ok).assignedWorkerId = p.assignedWorkerId := by
  unfold settle
  split <;> rfl

theorem settle_status (p : Pool κ) (c : κ) (rest : List κ) (ok : Bool) :
    (p.settle c rest ok).status = Function.update p.status c (if ok = true then .completed else .failed) := by
  unfold settle
  split <;> rfl

theorem settle_true_phase (p : Pool κ) (c : κ) (rest : List κ) :
    (p.settle c rest true).phase = if rest = [] then .looping else .settling rest := by
  rw [settle, if_pos rfl]

/-- **Settling a raise** fails the chunk and leaves the loop. -/
theorem settle_false (p : Pool κ) (c : κ) (rest : List κ) : p.settle c rest false = { p with
    status := Function.update p.status c .failed
    inFlight := p.inFlight.erase c
    phase := .leaving true } := if_neg (by simp)

/-! ## Slots -/

/-- **A well-formed pool**: no chunk twice in flight, at most the bound, each with a slot of its own. -/
structure Wf (maxParallel : Nat) (p : Pool κ) : Prop where
  nodup : p.inFlight.Nodup
  bound : p.inFlight.length ≤ maxParallel
  slots : (p.inUse.map some).Perm (p.inFlight.map p.assignedWorkerId)
  inUse : p.inUse.Nodup

omit [DecidableEq κ] in
theorem Wf.length_inUse {maxParallel : Nat} {p : Pool κ} (h : p.Wf maxParallel) : p.inUse.length = p.inFlight.length := by
  simpa using h.slots.length_eq

omit [DecidableEq κ] in
theorem wf_start (maxParallel : Nat) (status : κ → ChunkStatus) (assigned : κ → Option String) :
    (start status assigned).Wf maxParallel :=
  ⟨List.nodup_nil, Nat.zero_le _, List.Perm.refl _, List.nodup_nil⟩

theorem Wf.submit {maxParallel : Nat} {p : Pool κ} (h : p.Wf maxParallel) {c : κ} {w : String} (hc : c ∉ p.inFlight)
    (hw : w ∉ p.inUse) (hlt : p.inFlight.length < maxParallel) : (p.submit c w).Wf maxParallel := by
  have hmap : p.inFlight.map (Function.update p.assignedWorkerId c (some w)) = p.inFlight.map p.assignedWorkerId := by
    refine List.map_congr_left (fun d hd => Function.update_of_ne ?_ _ _)
    rintro rfl
    exact hc hd
  refine ⟨?_, ?_, ?_, ?_⟩
  · exact List.nodup_append.2 ⟨h.nodup, List.nodup_singleton c, fun x hx y hy he =>
      hc (List.mem_singleton.1 hy ▸ he ▸ hx)⟩
  · show (p.inFlight ++ [c]).length ≤ maxParallel
    rw [List.length_append, List.length_singleton]
    omega
  · show ((p.inUse ++ [w]).map some).Perm ((p.inFlight ++ [c]).map (Function.update p.assignedWorkerId c (some w)))
    rw [List.map_append, List.map_append, hmap, List.map_singleton, List.map_singleton, Function.update_self]
    exact h.slots.append_right _
  · exact List.nodup_append.2 ⟨h.inUse, List.nodup_singleton w, fun x hx y hy he =>
      hw (List.mem_singleton.1 hy ▸ he ▸ hx)⟩

/-- **What a round of claims does**: it submits a first part of the ready chunks, all of them while there is room. -/
structure Claimed (maxParallel : Nat) (cs : List κ) (p p' : Pool κ) (taken : List κ) : Prop where
  wf : p'.Wf maxParallel
  sub : taken <+: cs
  inFlight : p'.inFlight = p.inFlight ++ taken
  status : ∀ d, p'.status d = if d ∈ taken then .inProgress else p.status d
  assigned : ∀ d, d ∉ taken → p'.assignedWorkerId d = p.assignedWorkerId d
  completed : p'.completed = p.completed
  phase : p'.phase = p.phase
  full : taken = cs ∨ p'.inFlight.length = maxParallel

theorem Claimed.mem_take {maxParallel : Nat} {cs taken : List κ} {p p' : Pool κ} (h : Claimed maxParallel cs p p' taken)
    {c : κ} (hc : c ∈ taken) : c ∈ cs.take (maxParallel - p.inFlight.length) := by
  have hbound := h.wf.bound
  rw [h.inFlight, List.length_append] at hbound
  rw [List.prefix_iff_eq_take.1 h.sub] at hc
  exact List.take_subset_take_left cs (by omega) hc

/-- A round that leaves nothing in flight, with slots to give, had nothing to claim. -/
theorem Claimed.eq_nil {maxParallel : Nat} {cs taken : List κ} {p p' : Pool κ} (h : Claimed maxParallel cs p p' taken)
    (hslots : 0 < maxParallel) (hempty : p'.inFlight = []) : p.inFlight = [] ∧ taken = [] ∧ cs = [] := by
  obtain ⟨hflight, htaken⟩ := List.append_eq_nil_iff.1 (h.inFlight.symm.trans hempty)
  refine ⟨hflight, htaken, ?_⟩
  rcases h.full with hall | hfull
  · rw [← hall, htaken]
  · rw [hempty, List.length_nil] at hfull
    omega

theorem claim_spec {maxParallel : Nat} : ∀ (cs : List κ) (p : Pool κ), p.Wf maxParallel → cs.Nodup →
    (∀ c ∈ cs, c ∉ p.inFlight) →
    (p.claim maxParallel cs).1 = false ∧ ∃ taken, Claimed maxParallel cs p (p.claim maxParallel cs).2 taken
  | [], p, h, _, _ => ⟨rfl, [], h, List.prefix_refl _, (List.append_nil _).symm, fun d => by simp [claim],
      fun _ _ => rfl, rfl, rfl, Or.inl rfl⟩
  | c :: cs, p, h, hn, hd => by
    rw [List.nodup_cons] at hn
    rw [claim]
    by_cases hfull : maxParallel ≤ p.inFlight.length
    · rw [if_pos hfull]
      exact ⟨rfl, [], h, List.nil_prefix, (List.append_nil _).symm, fun d => by simp, fun _ _ => rfl, rfl, rfl,
        Or.inr (Nat.le_antisymm h.bound hfull)⟩
    · rw [if_neg hfull]
      have hlt : p.inUse.length < maxParallel := by rw [h.length_inUse]; omega
      obtain ⟨w, hw, hfree⟩ := acquireWorkerId_isSome hlt
      have hc := hd c List.mem_cons_self
      have hwf := h.submit hc hfree (by omega)
      have hapart : ∀ d ∈ cs, d ∉ (p.submit c w).inFlight := by
        intro d hdc hm
        rcases List.mem_append.1 hm with hm | hm
        · exact hd d (List.mem_cons_of_mem _ hdc) hm
        · exact hn.1 (List.mem_singleton.1 hm ▸ hdc)
      obtain ⟨hok, taken, ht⟩ := claim_spec cs (p.submit c w) hwf hn.2 hapart
      rw [hw]
      dsimp only
      refine ⟨hok, c :: taken, ht.wf, List.cons_prefix_cons.2 ⟨rfl, ht.sub⟩, ?_, fun d => ?_, fun d hdt => ?_,
        ht.completed, ht.phase, ht.full.imp (fun he => by rw [he]) id⟩
      · rw [ht.inFlight, submit, List.append_assoc]
        rfl
      · rw [ht.status d, submit]
        by_cases hdt : d ∈ taken
        · simp [hdt]
        · by_cases hdc : d = c
          · simp [hdc]
          · simp [hdt, hdc]
      · rw [List.mem_cons, not_or] at hdt
        rw [ht.assigned d hdt.2, submit]
        exact Function.update_of_ne hdt.1 _ _

theorem claim_inUse_subset {maxParallel : Nat} : ∀ (cs : List κ) (p : Pool κ), p.inUse ⊆ workerIds maxParallel →
    (p.claim maxParallel cs).2.inUse ⊆ workerIds maxParallel
  | [], _, h => h
  | c :: cs, p, h => by
    rw [claim]
    by_cases hfull : maxParallel ≤ p.inFlight.length
    · rw [if_pos hfull]
      exact h
    · rw [if_neg hfull]
      cases hw : acquireWorkerId maxParallel p.inUse with
      | none => exact h
      | some w =>
        have hmem : w ∈ workerIds maxParallel := List.mem_of_find?_eq_some hw
        exact claim_inUse_subset cs (p.submit c w) (List.append_subset.2 ⟨h, List.cons_subset.2 ⟨hmem, List.nil_subset _⟩⟩)

/-- **The ids in flight** are slots of the pool, each chunk's its own. -/
structure OwnSlots (maxParallel : Nat) (p : Pool κ) : Prop where
  nodup : (p.inFlight.map p.assignedWorkerId).Nodup
  mem : ∀ c ∈ p.inFlight, ∃ w ∈ workerIds maxParallel, p.assignedWorkerId c = some w

omit [DecidableEq κ] in
theorem Wf.ownSlots {maxParallel : Nat} {p : Pool κ} (h : p.Wf maxParallel) (hids : p.inUse ⊆ workerIds maxParallel) :
    p.OwnSlots maxParallel := by
  refine ⟨h.slots.nodup_iff.1 (h.inUse.map (Option.some_injective _)), fun c hc => ?_⟩
  obtain ⟨w, hw, he⟩ := List.mem_map.1 (h.slots.mem_iff.2 (List.mem_map_of_mem hc))
  exact ⟨w, hids hw, he.symm⟩

/-- **A turn of the pool**: it returns when all is settled; otherwise it claims, and gives up only with nothing in flight. -/
theorem turn_cases {g : Graph κ} {maxParallel : Nat} {p : Pool κ} (h : p.Wf maxParallel)
    (hfresh : ∀ c ∈ p.inFlight, p.status c ≠ .pending) :
    (g.order.length ≤ p.completed ∧ p.turn g maxParallel = { p with phase := .leaving false }) ∨
    (p.completed < g.order.length ∧ ∃ p' taken, p.claim maxParallel (readyChunks g p.status) = (false, p') ∧
      Claimed maxParallel (readyChunks g p.status) p p' taken ∧
        p.turn g maxParallel = { p' with phase := if p'.inFlight = [] then .leaving true else .waiting }) := by
  by_cases htotal : g.order.length ≤ p.completed
  · exact Or.inl ⟨htotal, if_pos htotal⟩
  · have hready : (readyChunks g p.status).Nodup := g.nodup.filter _
    obtain ⟨hok, taken, ht⟩ := claim_spec _ p h hready
      (fun c hc hf => hfresh c hf (mem_readyChunks.1 hc).2.1)
    refine Or.inr ⟨Nat.lt_of_not_le htotal, (p.claim maxParallel (readyChunks g p.status)).2, taken,
      Prod.ext hok rfl, ht, ?_⟩
    rw [turn, if_neg htotal]
    dsimp only
    by_cases hempty : (p.claim maxParallel (readyChunks g p.status)).2.inFlight = []
    · rw [if_pos (Or.inr hempty), if_pos hempty]
    · rw [if_neg (by simp [hok, hempty]), if_neg hempty]

theorem Wf.settle {maxParallel : Nat} {p : Pool κ} (h : p.Wf maxParallel) {c : κ} (hc : c ∈ p.inFlight) (rest : List κ) :
    (p.settle c rest true).Wf maxParallel := by
  have hw : p.assignedWorkerId c ∈ p.inUse.map some := h.slots.mem_iff.2 (List.mem_map_of_mem hc)
  obtain ⟨w, hw, he⟩ := List.mem_map.1 hw
  have hinUse : (p.settle c rest true).inUse = p.inUse.erase w := by
    rw [Pool.settle, if_pos rfl, ← he]
    rfl
  refine ⟨h.nodup.erase c, ?_, ?_, ?_⟩
  · exact Nat.le_trans List.length_erase_le h.bound
  · rw [hinUse]
    show ((p.inUse.erase w).map some).Perm ((p.inFlight.erase c).map p.assignedWorkerId)
    have hp := ((List.perm_cons_erase hw).map some).symm.trans
      (h.slots.trans ((List.perm_cons_erase hc).map p.assignedWorkerId))
    rw [List.map_cons, List.map_cons, he] at hp
    exact hp.cons_inv
  · rw [hinUse]
    exact h.inUse.erase w

end Pool
end Engine
end DevHarness
