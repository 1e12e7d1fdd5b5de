import DevHarness.Engine.Pipeline
/-!
# Visit — what every run keeps while chunks are in flight

Whatever the executions do, a chunk in flight has the status its execution's stage left (`Fits`), nothing runs that is not
in flight, and the pool's slots are in order until a failure leaves them behind (`Visit`).  No law of the run is needed
(`orderly_step`); the laws of the other modules stand on this one.
-/
namespace DevHarness
namespace Engine

/-- **The status of a chunk in flight** fits where its execution stands. -/
def Fits : Exec → ChunkStatus → Prop
  | .idle, _ => False
  | .submitted, st | .bound, st => st = .inProgress
  | .developed, st | .tested, st | .returned, st => st = .completed
  | .raised, st => st ≠ .pending

theorem Moves.fits {e e' : Exec} {st st' : ChunkStatus} (h : Moves e st e' st') (hf : Fits e st) : Fits e' st' := by
  cases h <;> simp_all [Fits]

theorem Fits.ne_pending {e : Exec} {st : ChunkStatus} (h : Fits e st) : st ≠ .pending := by
  cases e <;> simp_all [Fits]

theorem Fits.ne_failed {e : Exec} {st : ChunkStatus} (h : Fits e st) (ha : e.Active) : st ≠ .failed := by
  rcases ha with rfl | rfl | rfl | rfl <;> simp_all [Fits]

theorem Exec.Active.result {e : Exec} (h : e.Active) : e.result = none := by
  rcases h with rfl | rfl | rfl | rfl <;> rfl

theorem Exec.not_active_of_result {e : Exec} (h : e.result.isSome) : ¬ e.Active := by
  intro ha
  rw [ha.result] at h
  cases h

theorem result_eq_true {e : Exec} (h : e.result = some true) : e = .returned := by
  cases e <;> simp_all [Exec.result]

theorem result_eq_false {e : Exec} (h : e.result = some false) : e = .raised := by
  cases e <;> simp_all [Exec.result]

/-- **Inside a visit.** -/
structure Visit (cfg : PipelineConfig) (s : Run) : Prop where
  wf : s.pool.phase ≠ .leaving true → s.pool.Wf cfg.slots
  sub : ∀ c ∈ s.pool.inFlight, c ∈ cfg.graph.order
  active : ∀ c, (s.exec c).Active → c ∈ s.pool.inFlight
  flying : ∀ c ∈ s.pool.inFlight, Fits (s.exec c) (s.pool.status c)
  settling : ∀ done, s.pool.phase = .settling done → done.Nodup ∧
    ∀ c ∈ done, c ∈ s.pool.inFlight ∧ (s.exec c).result.isSome

/-- **Between visits nothing runs**; inside one, what runs is in order. -/
def Orderly (cfg : PipelineConfig) (s : Run) : Prop :=
  if s.node = .developing then Visit cfg s else ∀ c, ¬ (s.exec c).Active

variable {cfg : PipelineConfig}

theorem orderly_of_visit {s : Run} (hn : s.node = .developing) (h : Visit cfg s) : Orderly cfg s := by
  rw [Orderly, if_pos hn]
  exact h

theorem Orderly.visit {s : Run} (h : Orderly cfg s) (hn : s.node = .developing) : Visit cfg s := by
  rw [Orderly, if_pos hn] at h
  exact h

theorem Orderly.quiet {s : Run} (h : Orderly cfg s) (hn : s.node ≠ .developing) : ∀ c, ¬ (s.exec c).Active := by
  rw [Orderly, if_neg hn] at h
  exact h

theorem orderly_init (status : Nat → ChunkStatus) (ws : WorkerWorkspace) : Orderly cfg (PipelineConfig.init status ws) := by
  rw [Orderly, if_neg (by simp [PipelineConfig.init])]
  intro c ha
  rcases ha with ha | ha | ha | ha <;> cases ha

theorem lt_of_mem_order {c : Nat} (h : c ∈ cfg.graph.order) : c < cfg.chunks.length :=
  ChunkDAG.lt_of_mem_graph_order cfg.accepted h

theorem enter_pool (cfg : PipelineConfig) (s : Run) : ∃ phase, (cfg.enter s).pool = { Pool.start
    (fun c => if c < cfg.chunks.length ∧ s.pool.status c = .failed then .pending else s.pool.status c)
    s.pool.assignedWorkerId with phase := phase } ∧ ∀ done, phase ≠ .settling done := by
  unfold PipelineConfig.enter
  dsimp only
  split
  · exact ⟨.leaving true, rfl, fun done => by simp⟩
  · exact ⟨.looping, rfl, fun done => by simp⟩

theorem visit_enter {s : Run} (hquiet : ∀ c, ¬ (s.exec c).Active) : Visit cfg (cfg.enter s) := by
  obtain ⟨phase, hpool, hphase⟩ := enter_pool cfg s
  refine ⟨fun _ => ?_, fun c hc => ?_, fun c ha => absurd ha (hquiet c), fun c hc => ?_, fun done hd => ?_⟩
  · rw [hpool]
    have hwf := Pool.wf_start cfg.slots
      (fun c => if c < cfg.chunks.length ∧ s.pool.status c = .failed then .pending else s.pool.status c)
      s.pool.assignedWorkerId
    exact ⟨hwf.nodup, hwf.bound, hwf.slots, hwf.inUse⟩
  · rw [hpool] at hc
    cases hc
  · rw [hpool] at hc
    cases hc
  · rw [hpool] at hd
    exact absurd hd (hphase done)

/-- **A turn of the pool**: it returns when all is settled; otherwise it claims, and gives up only with nothing in flight. -/
theorem turn_spec {s : Run} (h : Visit cfg s) (hp : s.pool.phase = .looping) :
    (cfg.graph.order.length ≤ s.pool.completed ∧
      cfg.turn s = { s with pool := { s.pool with phase := .leaving false } }) ∨
    (∃ p taken, Pool.Claimed cfg.slots (readyChunks cfg.graph s.pool.status) s.pool p taken ∧
      cfg.turn s = { s with
        pool := { p with phase := if p.inFlight = [] then .leaving true else .waiting }
        exec := fun c => if c ∈ taken then .submitted else s.exec c }) := by
  rcases Pool.turn_cases (g := cfg.graph) (h.wf (by rw [hp]; simp)) (fun c hc => (h.flying c hc).ne_pending) with
    ⟨htotal, hpool⟩ | ⟨-, p, taken, -, ht, hpool⟩
  · left
    refine ⟨htotal, ?_⟩
    unfold PipelineConfig.turn
    rw [hpool]
    dsimp only
    congr 1
    funext c
    exact if_neg (fun hc => hc.2 hc.1)
  · right
    have hapart : ∀ c ∈ readyChunks cfg.graph s.pool.status, c ∉ s.pool.inFlight := fun c hc hf =>
      (h.flying c hf).ne_pending (mem_readyChunks.1 hc).2.1
    refine ⟨p, taken, ht, ?_⟩
    unfold PipelineConfig.turn
    rw [hpool]
    dsimp only
    congr 1
    funext c
    refine if_congr ?_ rfl rfl
    rw [ht.inFlight, List.mem_append]
    constructor
    · rintro ⟨hc, hno⟩
      exact hc.resolve_left hno
    · exact fun hc => ⟨Or.inr hc, hapart c (ht.sub.subset hc)⟩

theorem claimed_ready {s : Run} {p : Pool Nat} {taken : List Nat}
    (ht : Pool.Claimed cfg.slots (readyChunks cfg.graph s.pool.status) s.pool p taken) {c : Nat} (hc : c ∈ taken) :
    c ∈ cfg.graph.order ∧ s.pool.status c = .pending ∧ ∀ d ∈ cfg.graph.deps c, s.pool.status d = .completed :=
  mem_readyChunks.1 (ht.sub.subset hc)

theorem visit_turn {s : Run} (h : Visit cfg s) (hp : s.pool.phase = .looping) : Visit cfg (cfg.turn s) := by
  rcases turn_spec h hp with ⟨-, he⟩ | ⟨p, taken, ht, he⟩
  · rw [he]
    have hwf := h.wf (by rw [hp]; simp)
    exact ⟨fun _ => ⟨hwf.nodup, hwf.bound, hwf.slots, hwf.inUse⟩, h.sub, h.active, h.flying, fun done hd => by cases hd⟩
  · rw [he]
    refine ⟨fun _ => ⟨ht.wf.nodup, ht.wf.bound, ht.wf.slots, ht.wf.inUse⟩, fun c hc => ?_, fun c ha => ?_, fun c hc => ?_,
      fun done hd => ?_⟩
    · change c ∈ p.inFlight at hc
      rw [ht.inFlight, List.mem_append] at hc
      exact hc.elim (h.sub c) (fun hc => (claimed_ready ht hc).1)
    · show c ∈ p.inFlight
      rw [ht.inFlight, List.mem_append]
      dsimp only at ha
      by_cases hc : c ∈ taken
      · exact Or.inr hc
      · rw [if_neg hc] at ha
        exact Or.inl (h.active c ha)
    · change c ∈ p.inFlight at hc
      show Fits (if c ∈ taken then .submitted else s.exec c) (p.status c)
      rw [ht.inFlight, List.mem_append] at hc
      rw [ht.status c]
      by_cases hct : c ∈ taken
      · rw [if_pos hct, if_pos hct]
        rfl
      · rw [if_neg hct, if_neg hct]
        exact h.flying c (hc.resolve_right hct)
    · dsimp only at hd
      split at hd <;> cases hd

theorem visit_wake {s : Run} {done : List Nat} (h : Visit cfg s) (hp : s.pool.phase = .waiting) (hd : done.Nodup)
    (hall : ∀ c ∈ done, c ∈ s.pool.inFlight ∧ (s.exec c).result.isSome) :
    Visit cfg { s with pool := { s.pool with phase := .settling done } } := by
  have hwf := h.wf (by rw [hp]; simp)
  refine ⟨fun _ => ⟨hwf.nodup, hwf.bound, hwf.slots, hwf.inUse⟩, h.sub, h.active, h.flying, fun done' hd' => ?_⟩
  cases hd'
  exact ⟨hd, hall⟩

theorem Visit.head {s : Run} {c : Nat} {rest : List Nat} (h : Visit cfg s) (hp : s.pool.phase = .settling (c :: rest)) :
    c ∈ s.pool.inFlight ∧ c ∉ rest ∧ rest.Nodup ∧ ∀ d ∈ rest, d ∈ s.pool.inFlight ∧ (s.exec d).result.isSome := by
  obtain ⟨hn, hall⟩ := h.settling _ hp
  rw [List.nodup_cons] at hn
  exact ⟨(hall c List.mem_cons_self).1, hn.1, hn.2, fun d hd => hall d (List.mem_cons_of_mem _ hd)⟩

theorem Visit.mem_settle {s : Run} {c : Nat} {rest : List Nat} (h : Visit cfg s)
    (hp : s.pool.phase = .settling (c :: rest)) (ok : Bool) (d : Nat) :
    d ∈ (s.pool.settle c rest ok).inFlight ↔ d ≠ c ∧ d ∈ s.pool.inFlight := by
  have hwf := h.wf (by rw [hp]; simp)
  rw [Pool.settle_inFlight]
  exact hwf.nodup.mem_erase_iff

/-- **Settling a return** changes no status: the tester had completed the chunk. -/
theorem Visit.status_settle_true {s : Run} {c : Nat} {rest : List Nat} (h : Visit cfg s)
    (hp : s.pool.phase = .settling (c :: rest)) (hr : (s.exec c).result = some true) :
    (s.pool.settle c rest true).status = s.pool.status := by
  have hst : s.pool.status c = .completed := by
    have := h.flying c (h.head hp).1
    rw [result_eq_true hr] at this
    exact this
  rw [Pool.settle, if_pos rfl]
  exact Function.update_eq_self_iff.2 hst.symm

theorem visit_settle {s : Run} {c : Nat} {rest : List Nat} {ok : Bool} (h : Visit cfg s)
    (hp : s.pool.phase = .settling (c :: rest)) (hr : (s.exec c).result = some ok) :
    Visit cfg { s with pool := s.pool.settle c rest ok } := by
  obtain ⟨hc, hcr, hrest, hall⟩ := h.head hp
  have hwf := h.wf (by rw [hp]; simp)
  have hmem := h.mem_settle hp ok
  refine ⟨fun hne => ?_, fun d hd => h.sub d ((hmem d).1 hd).2, fun d hd => ?_, fun d hd => ?_, fun done hd => ?_⟩
  · cases ok with
    | true => exact hwf.settle hc rest
    | false =>
      dsimp only at hne
      rw [Pool.settle_false] at hne
      exact absurd rfl hne
  · refine (hmem d).2 ⟨?_, h.active d hd⟩
    rintro rfl
    exact Exec.not_active_of_result (by rw [hr]; rfl) hd
  · obtain ⟨hdc, hdf⟩ := (hmem d).1 hd
    have hst : (s.pool.settle c rest ok).status d = s.pool.status d := by
      rw [Pool.settle_status]
      exact Function.update_of_ne hdc _ _
    show Fits (s.exec d) ((s.pool.settle c rest ok).status d)
    rw [hst]
    exact h.flying d hdf
  · change (s.pool.settle c rest ok).phase = .settling done at hd
    cases ok with
    | true =>
      rw [Pool.settle_true_phase] at hd
      split at hd
      · cases hd
      · cases hd
        refine ⟨hrest, fun d hd => ⟨(hmem d).2 ⟨?_, (hall d hd).1⟩, (hall d hd).2⟩⟩
        rintro rfl
        exact hcr hd
    | false =>
      rw [Pool.settle_false] at hd
      cases hd

@[simp] theorem move_exec_self (s : Run) (c : Nat) (e : Exec) (st : ChunkStatus) (ws : WorkerWorkspace) :
    (PipelineConfig.move s c e st ws).exec c = e := Function.update_self _ _ _

@[simp] theorem move_status_self (s : Run) (c : Nat) (e : Exec) (st : ChunkStatus) (ws : WorkerWorkspace) :
    (PipelineConfig.move s c e st ws).pool.status c = st := Function.update_self _ _ _

theorem move_exec_of_ne (s : Run) {c d : Nat} (h : d ≠ c) (e : Exec) (st : ChunkStatus) (ws : WorkerWorkspace) :
    (PipelineConfig.move s c e st ws).exec d = s.exec d := Function.update_of_ne h _ _

theorem move_status_of_ne (s : Run) {c d : Nat} (h : d ≠ c) (e : Exec) (st : ChunkStatus) (ws : WorkerWorkspace) :
    (PipelineConfig.move s c e st ws).pool.status d = s.pool.status d := Function.update_of_ne h _ _

theorem visit_move {s : Run} {c : Nat} {e : Exec} {st : ChunkStatus} (ws : WorkerWorkspace) (h : Visit cfg s)
    (hm : Moves (s.exec c) (s.pool.status c) e st) : Visit cfg (PipelineConfig.move s c e st ws) := by
  have hc := h.active c hm.active
  refine ⟨fun hne => ?_, h.sub, fun d hd => ?_, fun d hd => ?_, fun done hd => ?_⟩
  · have hwf := h.wf hne
    exact ⟨hwf.nodup, hwf.bound, hwf.slots, hwf.inUse⟩
  · by_cases hdc : d = c
    · rw [hdc]
      exact hc
    · rw [move_exec_of_ne s hdc] at hd
      exact h.active d hd
  · by_cases hdc : d = c
    · rw [hdc, move_exec_self, move_status_self]
      exact hm.fits (h.flying c hc)
    · rw [move_exec_of_ne s hdc, move_status_of_ne s hdc]
      exact h.flying d hd
  · obtain ⟨hn, hall⟩ := h.settling done hd
    refine ⟨hn, fun d hdd => ⟨(hall d hdd).1, ?_⟩⟩
    have hdc : d ≠ c := by
      rintro rfl
      exact Exec.not_active_of_result (hall d hdd).2 hm.active
    rw [move_exec_of_ne s hdc]
    exact (hall d hdd).2

theorem routeAfterDevelop_ne (status : Nat → ChunkStatus) (chunkDag : List Nat) (e2eRetryCount : Nat) :
    routeAfterDevelop status chunkDag e2eRetryCount ≠ .developing := by
  unfold routeAfterDevelop routeE2e
  split
  · simp
  · split <;> simp

theorem leave_node_ne (cfg : PipelineConfig) (s : Run) (raised : Bool) : (cfg.leave s raised).node ≠ .developing :=
  routeAfterDevelop_ne _ _ _

/-- **Every step keeps the run orderly.** -/
theorem orderly_step {s s' : Run} {a : Act} (h : Orderly cfg s) (hstep : cfg.step s a = some s') : Orderly cfg s' := by
  cases effect_of_step hstep with
  | enter hn => exact orderly_of_visit rfl (visit_enter (h.quiet (by rw [hn]; simp)))
  | turn hn hp => exact orderly_of_visit hn (visit_turn (h.visit hn) hp)
  | wake hn hp hd hall => exact orderly_of_visit hn (visit_wake (h.visit hn) hp hd hall)
  | settle hn hp hr => exact orderly_of_visit hn (visit_settle (h.visit hn) hp hr)
  | execute hn hm ht hbegins hleave hturn => exact orderly_of_visit hn (visit_move _ (h.visit hn) hm)
  | leave hn hp hall =>
    rw [Orderly, if_neg (leave_node_ne cfg s _)]
    exact fun c ha => Exec.not_active_of_result (hall c ((h.visit hn).active c ha)) ha

end Engine
end DevHarness
