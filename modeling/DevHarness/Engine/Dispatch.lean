import DevHarness.Engine.Completion
/-!
# Dispatch — what has returned when a chunk starts

The gate of `ready_chunks` reads `COMPLETED`, and the developer node writes it before the suite runs and before the
commit.  A turn of the pool that another chunk's settling brings on may then claim a chunk whose dependency is still being
tested.  While no turn does (`NothingHalfDone`), and always with one slot, a chunk starts only after every dependency has
returned (`startsAfterDependencies`).
-/
namespace DevHarness
namespace Engine

/-- **A chunk starts after its dependencies**: when `_run_chunk` begins, theirs have returned without raising. -/
def StartsAfterDependencies (cfg : PipelineConfig) (s : Run) (a : Act) (_ : Run) : Prop :=
  ∀ c ∈ a.begins, ∀ d ∈ cfg.graph.deps c, s.exec d = .returned

instance (cfg : PipelineConfig) (s : Run) (a : Act) (s' : Run) : Decidable (StartsAfterDependencies cfg s a s') :=
  inferInstanceAs (Decidable (∀ c ∈ a.begins, ∀ d ∈ cfg.graph.deps c, _))

def Exec.HalfDone (e : Exec) : Prop := e = .developed ∨ e = .tested ∨ e = .raised

instance (e : Exec) : Decidable e.HalfDone := inferInstanceAs (Decidable (_ ∨ _))

/-- **A turn claims nothing on half-done work**: the ready chunks there is room for depend on no chunk whose execution is
past the developer node and has not returned. -/
def NothingHalfDone (cfg : PipelineConfig) (s : Run) (a : Act) (_ : Run) : Prop :=
  a = .turn → ∀ c ∈ (readyChunks cfg.graph s.pool.status).take (cfg.slots - s.pool.inFlight.length),
    ∀ d ∈ cfg.graph.deps c, ¬ (s.exec d).HalfDone

instance (cfg : PipelineConfig) (s : Run) (a : Act) (s' : Run) : Decidable (NothingHalfDone cfg s a s') :=
  inferInstanceAs (Decidable (_ → ∀ c ∈ (readyChunks cfg.graph s.pool.status).take _, ∀ d ∈ cfg.graph.deps c, _))

variable {cfg : PipelineConfig}

/-- **The gate**: `COMPLETED` means past the developer node and back, and what is submitted waits for nothing. -/
structure Gate (cfg : PipelineConfig) (s : Run) : Prop where
  completed : ∀ c ∈ cfg.graph.order, s.pool.status c = .completed →
    s.exec c = .developed ∨ s.exec c = .tested ∨ s.exec c = .returned ∨ s.exec c = .raised
  returned : ∀ c, s.exec c = .developed ∨ s.exec c = .tested ∨ s.exec c = .returned → s.pool.status c = .completed
  submitted : ∀ c ∈ cfg.graph.order, s.exec c = .submitted → ∀ d ∈ cfg.graph.deps c, s.exec d = .returned

theorem gate_init {status : Nat → ChunkStatus} (hstart : Unstarted cfg status) (ws : WorkerWorkspace) :
    Gate cfg (PipelineConfig.init status ws) := by
  refine ⟨fun c hc hst => ?_, fun c he => ?_, fun c _ he => by cases he⟩
  · have hst' : status c = .completed := hst
    rcases hstart c (lt_of_mem_order hc) with h | h <;> rw [h] at hst' <;> cases hst'
  · rcases he with he | he | he <;> cases he

theorem Gate.congr {s s' : Run} (h : Gate cfg s) (hexec : s'.exec = s.exec)
    (hst : ∀ c, s'.pool.status c = .completed ↔ s.pool.status c = .completed) : Gate cfg s' := by
  refine ⟨fun c hc hcomp => ?_, fun c he => ?_, fun c hc he d hd => ?_⟩
  · rw [hexec]
    exact h.completed c hc ((hst c).1 hcomp)
  · rw [hexec] at he
    exact (hst c).2 (h.returned c he)
  · rw [hexec] at he ⊢
    exact h.submitted c hc he d hd

theorem gate_enter {s : Run} (h : Gate cfg s) : Gate cfg (cfg.enter s) := by
  refine h.congr rfl (fun c => ?_)
  obtain ⟨phase, hpool, -⟩ := enter_pool cfg s
  rw [hpool]
  show (if c < cfg.chunks.length ∧ s.pool.status c = .failed then ChunkStatus.pending else s.pool.status c) = _ ↔ _
  split
  · rename_i hc
    rw [hc.2]
    simp
  · exact Iff.rfl

theorem gate_turn {s : Run} (hv : Visit cfg s) (h : Gate cfg s) (hp : s.pool.phase = .looping)
    (hlaw : ∀ c ∈ (readyChunks cfg.graph s.pool.status).take (cfg.slots - s.pool.inFlight.length),
      ∀ d ∈ cfg.graph.deps c, ¬ (s.exec d).HalfDone) : Gate cfg (cfg.turn s) := by
  rcases turn_spec hv hp with ⟨-, he⟩ | ⟨p, taken, ht, he⟩
  · rw [he]
    exact h.congr rfl (fun c => Iff.rfl)
  · rw [he]
    -- a completed chunk is not claimed
    have hkeep : ∀ d, s.pool.status d = .completed → d ∉ taken := by
      intro d hst hd
      rw [(claimed_ready ht hd).2.1] at hst
      cases hst
    refine ⟨fun c hc hst => ?_, fun c hex => ?_, fun c hc hex d hd => ?_⟩
    · change p.status c = .completed at hst
      dsimp only
      rw [ht.status c] at hst
      by_cases hct : c ∈ taken
      · rw [if_pos hct] at hst
        cases hst
      · rw [if_neg hct] at hst ⊢
        exact h.completed c hc hst
    · show p.status c = .completed
      dsimp only at hex
      by_cases hct : c ∈ taken
      · rw [if_pos hct] at hex
        rcases hex with hex | hex | hex <;> cases hex
      · rw [if_neg hct] at hex
        rw [ht.status c, if_neg hct]
        exact h.returned c hex
    · dsimp only at hex ⊢
      by_cases hct : c ∈ taken
      · -- a dependency is completed, not half done
        have hst := (claimed_ready ht hct).2.2 d hd
        rw [if_neg (hkeep d hst)]
        have hno := hlaw c (ht.mem_take hct) d hd
        rcases h.completed d (cfg.graph.mem_of_dep hc hd) hst with hx | hx | hx | hx
        · exact absurd (Or.inl hx) hno
        · exact absurd (Or.inr (Or.inl hx)) hno
        · exact hx
        · exact absurd (Or.inr (Or.inr hx)) hno
      · rw [if_neg hct] at hex
        have hret := h.submitted c hc hex d hd
        rw [if_neg (hkeep d (h.returned d (Or.inr (Or.inr hret))))]
        exact hret

theorem gate_settle {s : Run} {c : Nat} {rest : List Nat} {ok : Bool} (hv : Visit cfg s) (h : Gate cfg s)
    (hp : s.pool.phase = .settling (c :: rest)) (hr : (s.exec c).result = some ok) :
    Gate cfg { s with pool := s.pool.settle c rest ok } := by
  cases ok with
  | true => exact h.congr rfl (fun d => by rw [hv.status_settle_true hp hr])
  | false =>
    have he := result_eq_false hr
    rw [Pool.settle_false]
    refine ⟨fun d hd hst => ?_, fun d hex => ?_, h.submitted⟩
    · change Function.update s.pool.status c .failed d = .completed at hst
      by_cases hdc : d = c
      · rw [hdc, Function.update_self] at hst
        cases hst
      · rw [Function.update_of_ne hdc] at hst
        exact h.completed d hd hst
    · show Function.update s.pool.status c .failed d = .completed
      have hdc : d ≠ c := by
        rintro rfl
        change s.exec d = .developed ∨ s.exec d = .tested ∨ s.exec d = .returned at hex
        rw [he] at hex
        rcases hex with hex | hex | hex <;> cases hex
      rw [Function.update_of_ne hdc]
      exact h.returned d hex

theorem Moves.ne_submitted {e e' : Exec} {st st' : ChunkStatus} (h : Moves e st e' st') : e' ≠ .submitted := by
  cases h <;> simp

theorem Moves.completed {e e' : Exec} {st st' : ChunkStatus} (h : Moves e st e' st') (hst : st' = .completed)
    (he : e ≠ .submitted ∨ st ≠ .completed) : e' = .developed ∨ e' = .tested ∨ e' = .returned ∨ e' = .raised := by
  cases h <;> simp_all

theorem Moves.status_of_passed {e e' : Exec} {st st' : ChunkStatus} (h : Moves e st e' st')
    (he : e' = .developed ∨ e' = .tested ∨ e' = .returned) (hst : e = .tested → st = .completed) : st' = .completed := by
  cases h <;> simp_all

theorem gate_move {s : Run} {c : Nat} {e : Exec} {st : ChunkStatus} (ws : WorkerWorkspace) (h : Gate cfg s)
    (hm : Moves (s.exec c) (s.pool.status c) e st) : Gate cfg (PipelineConfig.move s c e st ws) := by
  refine ⟨fun d hd hst => ?_, fun d hex => ?_, fun d hd hex f hf => ?_⟩
  · by_cases hdc : d = c
    · subst hdc
      rw [move_status_self] at hst
      rw [move_exec_self]
      refine hm.completed hst ?_
      by_cases hsub : s.exec d = .submitted
      · refine Or.inr (fun hcomp => ?_)
        rcases h.completed d hd hcomp with hx | hx | hx | hx <;> rw [hsub] at hx <;> cases hx
      · exact Or.inl hsub
    · rw [move_status_of_ne s hdc] at hst
      rw [move_exec_of_ne s hdc]
      exact h.completed d hd hst
  · by_cases hdc : d = c
    · subst hdc
      rw [move_exec_self] at hex
      rw [move_status_self]
      exact hm.status_of_passed hex (fun ht => h.returned d (Or.inr (Or.inl ht)))
    · rw [move_exec_of_ne s hdc] at hex
      rw [move_status_of_ne s hdc]
      exact h.returned d hex
  · have hdc : d ≠ c := by
      rintro rfl
      rw [move_exec_self] at hex
      exact hm.ne_submitted hex
    rw [move_exec_of_ne s hdc] at hex
    have hret := h.submitted d hd hex f hf
    have hfc : f ≠ c := by
      rintro rfl
      have := hm.active
      rw [hret] at this
      rcases this with hx | hx | hx | hx <;> cases hx
    rw [move_exec_of_ne s hfc]
    exact hret

/-- **The gate is kept** by every step that claims nothing on half-done work, and a binding is then in order. -/
theorem gate_step {s s' : Run} {a : Act} (ho : Orderly cfg s) (h : Gate cfg s) (hlaw : NothingHalfDone cfg s a s')
    (hstep : cfg.step s a = some s') : StartsAfterDependencies cfg s a s' ∧ Gate cfg s' := by
  cases effect_of_step hstep with
  | enter hn => exact ⟨fun c hb => (by cases hb), gate_enter h⟩
  | turn hn hp => exact ⟨fun c hb => (by cases hb), gate_turn (ho.visit hn) h hp (hlaw rfl)⟩
  | wake hn hp hd hall => exact ⟨fun c hb => (by cases hb), h.congr rfl (fun c => Iff.rfl)⟩
  | settle hn hp hr => exact ⟨fun c hb => (by cases hb), gate_settle (ho.visit hn) h hp hr⟩
  | execute hn hm ht hbegins hleave hturn =>
    rename_i c e st ws
    refine ⟨fun c' hb d hd => ?_, gate_move _ h hm⟩
    have hsub := hbegins.symm.trans hb
    rw [Option.ite_none_right_eq_some, Option.some.injEq] at hsub
    obtain ⟨hsub, rfl⟩ := hsub
    have hc := (ho.visit hn).sub c ((ho.visit hn).active c (Or.inl hsub))
    exact h.submitted c hc hsub d hd
  | leave hn hp hall => exact ⟨fun c hb => (by cases hb), h.congr rfl (fun c => Iff.rfl)⟩

/-! ## One slot -/

/-- **With one slot**, nothing is in flight when the pool is at the head of its loop or out of it. -/
def Alone (s : Run) : Prop :=
  s.node = .developing → (s.pool.phase = .looping ∨ ∃ raised, s.pool.phase = .leaving raised) → s.pool.inFlight = []

theorem alone_step (hone : cfg.maxParallelWorkers = 1) {s s' : Run} {a : Act} (ho : Orderly cfg s) (h : Alone s)
    (hstep : cfg.step s a = some s') : Alone s' := by
  cases effect_of_step hstep with
  | enter hn =>
    obtain ⟨phase, hpool, -⟩ := enter_pool cfg s
    intro _ _
    rw [hpool]
    rfl
  | turn hn hp =>
    have hempty := h hn (Or.inl hp)
    rcases turn_spec (ho.visit hn) hp with ⟨-, he⟩ | ⟨p, taken, ht, he⟩
    · rw [he]
      exact fun _ _ => hempty
    · rw [he]
      intro _ hphase
      show p.inFlight = []
      by_contra hne
      dsimp only at hphase
      rw [if_neg hne] at hphase
      rcases hphase with hphase | ⟨raised, hphase⟩ <;> cases hphase
  | wake hn hp hd hall =>
    rintro _ (hphase | ⟨raised, hphase⟩) <;> cases hphase
  | settle hn hp hr =>
    rename_i c rest ok
    intro _ _
    have hv := ho.visit hn
    have hbound := (hv.wf (by rw [hp]; simp)).bound
    have hslots : cfg.slots = 1 := by rw [PipelineConfig.slots, hone]; rfl
    rw [hslots] at hbound
    -- the one in flight is the one settled
    refine List.eq_nil_iff_forall_not_mem.2 (fun d hd => ?_)
    obtain ⟨hdc, hdf⟩ := (hv.mem_settle hp ok d).1 hd
    obtain ⟨x, hx⟩ := List.length_eq_one_iff.1 (Nat.le_antisymm hbound (List.length_pos_of_mem hdf))
    have hc := (hv.head hp).1
    rw [hx, List.mem_singleton] at hc hdf
    exact hdc (hdf.trans hc.symm)
  | execute hn hm ht hbegins hleave hturn => exact h
  | leave hn hp hall => exact fun hn' => absurd hn' (leave_node_ne cfg s _)

theorem nothingHalfDone_of_one (hone : cfg.maxParallelWorkers = 1) {status : Nat → ChunkStatus}
    (hstart : Unstarted cfg status) (ws : WorkerWorkspace) (acts : List Act) :
    cfg.machine.Along (NothingHalfDone cfg) (PipelineConfig.init status ws) acts := by
  refine cfg.machine.along_of_inv (fun s => Orderly cfg s ∧ Board cfg s ∧ Alone s) (fun s a s' hi hstep => ?_) acts _
    ⟨orderly_init status ws, board_init hstart ws, fun hn => by cases hn⟩
  obtain ⟨ho, hb, halone⟩ := hi
  refine ⟨?_, orderly_step ho hstep, board_step (by omega) ho hb ?_ hstep, alone_step hone ho halone hstep⟩
  · rintro rfl c hc d hd hhalf
    have heff : Effect cfg s .turn s' := effect_of_step hstep
    cases heff with
    | execute hn hm ht hbegins hleave hturn => exact hturn rfl
    | turn hn hp =>
      have hempty := halone hn (Or.inl hp)
      have hready := mem_readyChunks.1 (List.mem_of_mem_take hc)
      have hcomp := hready.2.2 d hd
      rcases (hb.busy hn).pending_or_done (by rw [hp]; simp) (cfg.graph.mem_of_dep hready.1 hd) (by rw [hempty]; simp)
        with hst | hdone
      · rw [hcomp] at hst
        cases hst
      · rw [hdone.2] at hhalf
        rcases hhalf with hx | hx | hx <;> cases hx
  · rintro rfl c hc
    have heff : Effect cfg s .leave s' := effect_of_step hstep
    cases heff with
    | execute hn hm ht hbegins hleave hturn => exact absurd rfl hleave
    | leave hn hp hall =>
      rw [halone hn (Or.inr ⟨_, hp⟩)] at hc
      cases hc

/-- **A chunk starts only after every dependency has returned**: always with one slot, and with more in every run whose turns
claim nothing on half-done work. -/
theorem startsAfterDependencies {status : Nat → ChunkStatus} (hstart : Unstarted cfg status) (ws : WorkerWorkspace)
    (acts : List Act)
    (hlaw : cfg.maxParallelWorkers = 1 ∨ cfg.machine.Along (NothingHalfDone cfg) (PipelineConfig.init status ws) acts) :
    cfg.machine.Along (StartsAfterDependencies cfg) (PipelineConfig.init status ws) acts := by
  have halong : cfg.machine.Along (NothingHalfDone cfg) (PipelineConfig.init status ws) acts :=
    hlaw.elim (fun hone => nothingHalfDone_of_one hone hstart ws acts) id
  refine cfg.machine.along_of_along (fun s => Orderly cfg s ∧ Gate cfg s) (fun s a s' hi hl hstep => ?_) acts _
    ⟨orderly_init status ws, gate_init hstart ws⟩ halong
  obtain ⟨hs, hg⟩ := gate_step hi.1 hi.2 hl hstep
  exact ⟨hs, orderly_step hi.1 hstep, hg⟩

def chainRun : List Act :=
  [.enter, .turn, .bind 0 true, .develop 0 true, .test 0 .passed, .commit 0 true, .wake [0], .settle, .turn, .bind 1 true]

theorem startsAfterDependencies_chainRun : ∃ cfg, PipelineConfig.ofChunks 900 [⟨"a", []⟩, ⟨"b", ["a"]⟩] 2 = some cfg ∧
    cfg.machine.Along (StartsAfterDependencies cfg) (PipelineConfig.init (fun _ => .pending) emptyWorkspace) chainRun := by
  obtain ⟨cfg, hcfg, h⟩ := (Option.any_eq_true (p := fun cfg : PipelineConfig => decide (Unstarted cfg (fun _ => .pending) ∧
      cfg.machine.Along (NothingHalfDone cfg) (PipelineConfig.init (fun _ => .pending) emptyWorkspace) chainRun)) _).1
    (show (PipelineConfig.ofChunks 900 [⟨"a", []⟩, ⟨"b", ["a"]⟩] 2).any _ = true by decide +kernel)
  obtain ⟨hstart, hlaw⟩ := of_decide_eq_true h
  exact ⟨cfg, hcfg, startsAfterDependencies hstart emptyWorkspace chainRun (Or.inr hlaw)⟩

def unrelatedSettles : List Act :=
  [.enter, .turn, .bind 0 true, .develop 0 true, .bind 2 true, .develop 2 true, .test 2 .passed, .commit 2 true, .wake [2],
    .settle, .turn, .bind 1 true]

/-- **A chunk starts before its dependency is tested**: the developer node has completed it, and another chunk's settling
turns the pool. -/
theorem started_before_tested : ∃ cfg, PipelineConfig.ofChunks 900 [⟨"a", []⟩, ⟨"b", ["a"]⟩, ⟨"c", []⟩] 2 = some cfg ∧
    ¬ cfg.machine.Along (StartsAfterDependencies cfg) (PipelineConfig.init (fun _ => .pending) emptyWorkspace)
      unrelatedSettles := by
  obtain ⟨cfg, hcfg, h⟩ := (Option.any_eq_true (p := fun cfg : PipelineConfig =>
      decide (¬ cfg.machine.Along (StartsAfterDependencies cfg) (PipelineConfig.init (fun _ => .pending) emptyWorkspace)
        unrelatedSettles)) _).1
    (show (PipelineConfig.ofChunks 900 [⟨"a", []⟩, ⟨"b", ["a"]⟩, ⟨"c", []⟩] 2).any _ = true by decide +kernel)
  exact ⟨cfg, hcfg, of_decide_eq_true h⟩

end Engine
end DevHarness
