import DevHarness.Engine.Visit
/-!
# Completion — what the integrator is entered with

A visit that fails leaves the executions it has not settled where they end: one that raised stays `IN_PROGRESS` or
`COMPLETED` on the board, no later visit runs it again, and the router takes a board without `FAILED` for success.  While
no visit abandons an execution like that (`NothingAbandoned`), the board is in order between visits and inside them
(`Board`), and the integrator is entered with every chunk returned (`finished_of_nothingAbandoned`).
-/
namespace DevHarness
namespace Engine

/-- The chunk's work is tested and committed. -/
def Done (s : Run) (c : Nat) : Prop := s.pool.status c = .completed ∧ s.exec c = .returned

instance (s : Run) (c : Nat) : Decidable (Done s c) := inferInstanceAs (Decidable (_ ∧ _))

/-- **The board inside a visit**: a chunk out of flight is pending, done, or the one whose failure ends the visit. -/
structure Busy (cfg : PipelineConfig) (s : Run) : Prop where
  resting : ∀ c ∈ cfg.graph.order, c ∉ s.pool.inFlight →
    s.pool.status c = .pending ∨ Done s c ∨ (s.pool.status c = .failed ∧ s.pool.phase = .leaving true)
  -- chunks settled, in flight and pending are different chunks
  count : s.pool.completed + s.pool.inFlight.length + cfg.graph.order.countP (fun c => s.pool.status c = .pending) ≤
    cfg.graph.order.length
  returning : s.pool.phase = .leaving false → cfg.graph.order.length ≤ s.pool.completed
  raising : s.pool.phase = .leaving true → (∃ c ∈ cfg.graph.order, s.pool.status c = .failed) ∨
    (s.pool.inFlight = [] ∧ ∀ c ∈ cfg.graph.order, s.pool.status c = .completed)

/-- **The board**, by where the graph stands. -/
def Board (cfg : PipelineConfig) (s : Run) : Prop :=
  match s.node with
  | .develop => ∀ c ∈ cfg.graph.order, s.pool.status c = .pending ∨ s.pool.status c = .failed ∨ Done s c
  | .developing => Busy cfg s
  | .integrate => ∀ c ∈ cfg.graph.order, Done s c
  | .hitl => True

/-- **A visit abandons nothing**: when it is left, what raised without being settled was failed by its tester. -/
def NothingAbandoned (s : Run) (a : Act) (_ : Run) : Prop :=
  a = .leave → ∀ c ∈ s.pool.inFlight, s.exec c = .raised → s.pool.status c = .failed

instance (s : Run) (a : Act) (s' : Run) : Decidable (NothingAbandoned s a s') :=
  inferInstanceAs (Decidable (_ → ∀ c ∈ s.pool.inFlight, _ → _))

variable {cfg : PipelineConfig}

theorem board_of_busy {s : Run} (hn : s.node = .developing) (h : Busy cfg s) : Board cfg s := by
  unfold Board
  rw [hn]
  exact h

theorem Board.busy {s : Run} (h : Board cfg s) (hn : s.node = .developing) : Busy cfg s := by
  unfold Board at h
  rw [hn] at h
  exact h

theorem Busy.pending_or_done {s : Run} (h : Busy cfg s) (hp : s.pool.phase ≠ .leaving true) {c : Nat}
    (hc : c ∈ cfg.graph.order) (hno : c ∉ s.pool.inFlight) : s.pool.status c = .pending ∨ Done s c := by
  rcases h.resting c hc hno with hst | hdone | ⟨-, hl⟩
  · exact Or.inl hst
  · exact Or.inr hdone
  · exact absurd hl hp

theorem busy_enter {s : Run} (hslots : 1 ≤ cfg.maxParallelWorkers)
    (h : ∀ c ∈ cfg.graph.order, s.pool.status c = .pending ∨ s.pool.status c = .failed ∨ Done s c) :
    Busy cfg (cfg.enter s) := by
  have hpool : (cfg.enter s).pool = Pool.start
      (fun c => if c < cfg.chunks.length ∧ s.pool.status c = .failed then .pending else s.pool.status c)
      s.pool.assignedWorkerId := if_neg (by omega)
  have hexec : (cfg.enter s).exec = s.exec := rfl
  refine ⟨fun c hc _ => ?_, ?_, fun hp => ?_, fun hp => ?_⟩
  · rw [Done, hpool, hexec]
    rcases h c hc with hst | hst | ⟨hst, he⟩
    · simp [Pool.start, hst]
    · simp [Pool.start, hst, lt_of_mem_order hc]
    · simp [Pool.start, hst, he]
  · rw [hpool]
    simpa [Pool.start] using List.countP_le_length
  · rw [hpool] at hp
    cases hp
  · rw [hpool] at hp
    cases hp

theorem countP_pending_claimed {order taken : List Nat} {status status' : Nat → ChunkStatus} (hn : order.Nodup)
    (ht : taken.Nodup) (hsub : ∀ c ∈ taken, c ∈ order ∧ status c = .pending)
    (hst : ∀ d, status' d = if d ∈ taken then .inProgress else status d) :
    order.countP (fun c => status c = .pending) = taken.length + order.countP (fun c => status' c = .pending) := by
  have hperm : (order.filter (fun c => c ∈ taken)).Perm taken := by
    refine (List.perm_ext_iff_of_nodup (hn.filter _) ht).2 (fun c => ?_)
    rw [List.mem_filter, decide_eq_true_eq]
    exact ⟨fun h => h.2, fun h => ⟨(hsub c h).1, h⟩⟩
  have hpending : ∀ c ∈ taken, status c = .pending := fun c hc => (hsub c hc).2
  rw [← hperm.length_eq]
  clear hperm hn ht hsub
  induction order with
  | nil => rfl
  | cons a order ih =>
    rw [List.countP_cons, List.countP_cons, List.filter_cons, ih, hst a]
    by_cases ha : a ∈ taken
    · simp [ha, hpending a ha]
      omega
    · simp [ha]
      omega

/-! ## The count of the chunks -/

/-- The chunks settled, in flight and pending are no more than there are. -/
def Counts (order : List Nat) (p : Pool Nat) : Prop :=
  p.completed + p.inFlight.length + order.countP (fun c => p.status c = .pending) ≤ order.length

theorem counts_claimed {s : Run} {p : Pool Nat} {taken : List Nat}
    (ht : Pool.Claimed cfg.slots (readyChunks cfg.graph s.pool.status) s.pool p taken)
    (h : Counts cfg.graph.order s.pool) : Counts cfg.graph.order p := by
  have hcount := countP_pending_claimed cfg.graph.nodup (ht.sub.sublist.nodup (cfg.graph.nodup.filter _))
    (fun c hc => ⟨(claimed_ready ht hc).1, (claimed_ready ht hc).2.1⟩) ht.status
  unfold Counts at h ⊢
  rw [ht.completed, ht.inFlight, List.length_append]
  omega

theorem counts_settle_true {s : Run} {c : Nat} {rest : List Nat} (hv : Visit cfg s)
    (hp : s.pool.phase = .settling (c :: rest)) (hr : (s.exec c).result = some true)
    (h : Counts cfg.graph.order s.pool) : Counts cfg.graph.order (s.pool.settle c rest true) := by
  have hc := (hv.head hp).1
  have hpos := List.length_pos_of_mem hc
  unfold Counts at h ⊢
  rw [hv.status_settle_true hp hr, Pool.settle_inFlight, List.length_erase_of_mem hc, Pool.settle, if_pos rfl]
  show s.pool.completed + 1 + (s.pool.inFlight.length - 1) + _ ≤ _
  omega

/-- A chunk that moves was not pending and is not. -/
theorem counts_move {s : Run} {c : Nat} {e : Exec} {st : ChunkStatus} (ws : WorkerWorkspace)
    (hbefore : Fits (s.exec c) (s.pool.status c)) (hm : Moves (s.exec c) (s.pool.status c) e st)
    (h : Counts cfg.graph.order s.pool) : Counts cfg.graph.order (PipelineConfig.move s c e st ws).pool := by
  have hsame : ∀ d, (PipelineConfig.move s c e st ws).pool.status d = .pending ↔ s.pool.status d = .pending := by
    intro d
    by_cases hdc : d = c
    · rw [hdc, move_status_self]
      exact iff_of_false (hm.fits hbefore).ne_pending hbefore.ne_pending
    · rw [move_status_of_ne s hdc]
  unfold Counts
  simp only [hsame]
  exact h

/-! ## The steps of a visit -/

/-- **A turn after which nothing is in flight** has claimed nothing, so all is completed. -/
theorem completed_of_idle {s : Run} {p : Pool Nat} {taken : List Nat} (hslots : 1 ≤ cfg.maxParallelWorkers)
    (ht : Pool.Claimed cfg.slots (readyChunks cfg.graph s.pool.status) s.pool p taken) (hempty : p.inFlight = [])
    (hresting : ∀ c ∈ cfg.graph.order, p.status c = .pending ∨ p.status c = .completed) :
    ∀ c ∈ cfg.graph.order, p.status c = .completed := by
  have hpos : 0 < cfg.slots := by
    unfold PipelineConfig.slots
    omega
  obtain ⟨-, htaken, hready⟩ := ht.eq_nil hpos hempty
  have hst : p.status = s.pool.status := by
    funext e
    rw [ht.status e, htaken]
    exact if_neg List.not_mem_nil
  rw [hst] at hresting ⊢
  exact all_completed_of_none_ready hresting hready

theorem busy_turn {s : Run} (hslots : 1 ≤ cfg.maxParallelWorkers) (hv : Visit cfg s) (h : Busy cfg s)
    (hp : s.pool.phase = .looping) : Busy cfg (cfg.turn s) := by
  have hnoleave : s.pool.phase ≠ .leaving true := by rw [hp]; simp
  rcases turn_spec hv hp with ⟨htotal, he⟩ | ⟨p, taken, ht, he⟩
  · rw [he]
    exact ⟨fun c hc hno => (h.pending_or_done hnoleave hc hno).imp id Or.inl, h.count, fun _ => htotal, fun hr => by cases hr⟩
  · have hresting : ∀ c ∈ cfg.graph.order, c ∉ p.inFlight → p.status c = .pending ∨ Done (cfg.turn s) c := by
      intro c hc hno
      rw [ht.inFlight, List.mem_append, not_or] at hno
      rw [Done, he]
      dsimp only
      rw [if_neg hno.2, ht.status c, if_neg hno.2]
      exact h.pending_or_done hnoleave hc hno.1
    rw [he] at hresting ⊢
    refine ⟨fun c hc hno => (hresting c hc hno).imp id Or.inl, ?_, fun hf => ?_, fun hr => ?_⟩
    · show Counts cfg.graph.order p
      exact counts_claimed ht h.count
    · dsimp only at hf
      split at hf <;> cases hf
    · dsimp only at hr
      have hempty : p.inFlight = [] := by
        by_contra hne
        rw [if_neg hne] at hr
        cases hr
      have hdone := completed_of_idle hslots ht hempty (fun c hc =>
        (hresting c hc (by rw [hempty]; exact List.not_mem_nil)).imp id And.left)
      exact Or.inr ⟨hempty, hdone⟩

theorem busy_wake {s : Run} {done : List Nat} (h : Busy cfg s) (hp : s.pool.phase = .waiting) :
    Busy cfg { s with pool := { s.pool with phase := .settling done } } :=
  ⟨fun _ hc hno => (h.pending_or_done (by rw [hp]; simp) hc hno).imp id Or.inl, h.count, fun hr => (by cases hr),
    fun hr => (by cases hr)⟩

theorem busy_settle_true {s : Run} {c : Nat} {rest : List Nat} (hv : Visit cfg s) (h : Busy cfg s)
    (hp : s.pool.phase = .settling (c :: rest)) (hr : (s.exec c).result = some true) :
    Busy cfg { s with pool := s.pool.settle c rest true } := by
  have hc := (hv.head hp).1
  have hstatus := hv.status_settle_true hp hr
  have hmem := hv.mem_settle hp true
  have hnoleave : ∀ r, (s.pool.settle c rest true).phase ≠ .leaving r := by
    intro r
    rw [Pool.settle_true_phase]
    split <;> simp
  refine ⟨fun d hd hno => ?_, ?_, fun hf => absurd hf (hnoleave _), fun hf => absurd hf (hnoleave _)⟩
  · show (s.pool.settle c rest true).status d = _ ∨ ((s.pool.settle c rest true).status d = _ ∧ s.exec d = _) ∨ _
    rw [hstatus]
    by_cases hdc : d = c
    · subst hdc
      have hfits := hv.flying d hc
      rw [result_eq_true hr] at hfits
      exact Or.inr (Or.inl ⟨hfits, result_eq_true hr⟩)
    · exact (h.pending_or_done (by rw [hp]; simp) hd (fun hf => hno ((hmem d).2 ⟨hdc, hf⟩))).imp id Or.inl
  · exact counts_settle_true hv hp hr h.count

theorem busy_settle_false {s : Run} {c : Nat} {rest : List Nat} (hv : Visit cfg s) (h : Busy cfg s)
    (hp : s.pool.phase = .settling (c :: rest)) : Busy cfg { s with pool := s.pool.settle c rest false } := by
  have hc := (hv.head hp).1
  have hmem := hv.mem_settle hp false
  rw [Pool.settle_false] at hmem ⊢
  refine ⟨fun d hd hno => ?_, ?_, fun hf => (by cases hf), fun _ => Or.inl ⟨c, hv.sub c hc, Function.update_self _ _ _⟩⟩
  · show Function.update s.pool.status c .failed d = _ ∨ (Function.update s.pool.status c .failed d = _ ∧ _) ∨
      (Function.update s.pool.status c .failed d = _ ∧ _)
    by_cases hdc : d = c
    · subst hdc
      exact Or.inr (Or.inr ⟨Function.update_self _ _ _, rfl⟩)
    · rw [Function.update_of_ne hdc]
      exact (h.pending_or_done (by rw [hp]; simp) hd (fun hf => hno ((hmem d).2 ⟨hdc, hf⟩))).imp id Or.inl
  · show s.pool.completed + (s.pool.inFlight.erase c).length +
      cfg.graph.order.countP (fun d => Function.update s.pool.status c .failed d = .pending) ≤ _
    have hcount := h.count
    have hlen := List.length_erase_of_mem hc
    have hle : cfg.graph.order.countP (fun d => Function.update s.pool.status c .failed d = .pending) ≤
        cfg.graph.order.countP (fun d => s.pool.status d = .pending) := by
      refine List.countP_mono_left (fun d _ hd => ?_)
      simp only [decide_eq_true_eq] at hd ⊢
      by_cases hdc : d = c
      · rw [hdc, Function.update_self] at hd
        cases hd
      · rwa [Function.update_of_ne hdc] at hd
    omega

theorem busy_move {s : Run} {c : Nat} {e : Exec} {st : ChunkStatus} (ws : WorkerWorkspace) (hv : Visit cfg s)
    (h : Busy cfg s) (hm : Moves (s.exec c) (s.pool.status c) e st) : Busy cfg (PipelineConfig.move s c e st ws) := by
  have hc := hv.active c hm.active
  have hbefore := hv.flying c hc
  refine ⟨fun d hd hno => ?_, counts_move ws hbefore hm h.count, h.returning, fun hr => ?_⟩
  · have hdc : d ≠ c := by
      rintro rfl
      exact hno hc
    rw [Done, move_exec_of_ne s hdc, move_status_of_ne s hdc]
    exact h.resting d hd hno
  · rcases h.raising hr with ⟨d, hd, hf⟩ | ⟨hempty, -⟩
    · have hdc : d ≠ c := by
        rintro rfl
        exact hbefore.ne_failed hm.active hf
      exact Or.inl ⟨d, hd, (move_status_of_ne s hdc _ _ _).trans hf⟩
    · rw [hempty] at hc
      cases hc

/-- **Leaving a visit that abandons nothing**: each chunk is pending, failed or done. -/
theorem rested_of_leaving {s : Run} (hv : Visit cfg s) (h : Busy cfg s)
    (hall : ∀ c ∈ s.pool.inFlight, (s.exec c).result.isSome)
    (hlaw : ∀ c ∈ s.pool.inFlight, s.exec c = .raised → s.pool.status c = .failed) {c : Nat} (hc : c ∈ cfg.graph.order) :
    s.pool.status c = .pending ∨ s.pool.status c = .failed ∨ Done s c := by
  by_cases hf : c ∈ s.pool.inFlight
  · have hfits := hv.flying c hf
    obtain ⟨ok, hok⟩ := Option.isSome_iff_exists.1 (hall c hf)
    cases ok with
    | true =>
      have he := result_eq_true hok
      rw [he] at hfits
      exact Or.inr (Or.inr ⟨hfits, he⟩)
    | false => exact Or.inr (Or.inl (hlaw c hf (result_eq_false hok)))
  · rcases h.resting c hc hf with hst | hdone | ⟨hst, -⟩
    · exact Or.inl hst
    · exact Or.inr (Or.inr hdone)
    · exact Or.inr (Or.inl hst)

theorem ne_pending_of_leaving {s : Run} {raised : Bool} (h : Busy cfg s) (hp : s.pool.phase = .leaving raised)
    (hno : ∀ c ∈ cfg.graph.order, s.pool.status c ≠ .failed) {c : Nat} (hc : c ∈ cfg.graph.order) :
    s.pool.status c ≠ .pending := by
  intro hst
  cases raised with
  | false =>
    have hret := h.returning hp
    have hcount := h.count
    have hpos : 0 < cfg.graph.order.countP (fun c => s.pool.status c = .pending) :=
      List.countP_pos_iff.2 ⟨c, hc, decide_eq_true hst⟩
    omega
  | true =>
    rcases h.raising hp with ⟨d, hd, hf⟩ | ⟨-, hcompleted⟩
    · exact hno d hd hf
    · rw [hcompleted c hc] at hst
      cases hst

theorem board_leave {s : Run} {raised : Bool} (hv : Visit cfg s) (h : Busy cfg s) (hp : s.pool.phase = .leaving raised)
    (hall : ∀ c ∈ s.pool.inFlight, (s.exec c).result.isSome)
    (hlaw : ∀ c ∈ s.pool.inFlight, s.exec c = .raised → s.pool.status c = .failed) : Board cfg (cfg.leave s raised) := by
  have hrest := fun c (hc : c ∈ cfg.graph.order) => rested_of_leaving hv h hall hlaw hc
  have hnode : (cfg.leave s raised).node = routeAfterDevelop s.pool.status (s.chunkDag ++ List.range cfg.chunks.length)
      (s.e2eRetryCount + (if raised = true then 1 else 0)) := rfl
  unfold Board
  rw [hnode, routeAfterDevelop, routeE2e]
  by_cases hfailed : ∃ c ∈ s.chunkDag ++ List.range cfg.chunks.length, s.pool.status c = .failed
  · rw [if_neg (not_not.2 hfailed)]
    by_cases hretry : s.e2eRetryCount + (if raised = true then 1 else 0) < e2eCeiling
    · rw [if_pos hretry]
      exact hrest
    · rw [if_neg hretry]
      trivial
  · rw [if_pos hfailed]
    have hno : ∀ c ∈ cfg.graph.order, s.pool.status c ≠ .failed := fun c hc hst =>
      hfailed ⟨c, List.mem_append_right _ (List.mem_range.2 (lt_of_mem_order hc)), hst⟩
    intro c hc
    rcases hrest c hc with hst | hst | hdone
    · exact absurd hst (ne_pending_of_leaving h hp hno hc)
    · exact absurd hst (hno c hc)
    · exact hdone

/-- **The board is kept** by every step that abandons nothing. -/
theorem board_step (hslots : 1 ≤ cfg.maxParallelWorkers) {s s' : Run} {a : Act} (ho : Orderly cfg s) (hb : Board cfg s)
    (hlaw : NothingAbandoned s a s') (hstep : cfg.step s a = some s') : Board cfg s' := by
  cases effect_of_step hstep with
  | enter hn =>
    unfold Board at hb
    rw [hn] at hb
    exact board_of_busy rfl (busy_enter hslots hb)
  | turn hn hp => exact board_of_busy hn (busy_turn hslots (ho.visit hn) (hb.busy hn) hp)
  | wake hn hp hd hall => exact board_of_busy hn (busy_wake (hb.busy hn) hp)
  | settle hn hp hr =>
    rename_i c rest ok
    cases ok with
    | true => exact board_of_busy hn (busy_settle_true (ho.visit hn) (hb.busy hn) hp hr)
    | false => exact board_of_busy hn (busy_settle_false (ho.visit hn) (hb.busy hn) hp)
  | execute hn hm ht hbegins hleave hturn => exact board_of_busy hn (busy_move _ (ho.visit hn) (hb.busy hn) hm)
  | leave hn hp hall => exact board_leave (ho.visit hn) (hb.busy hn) hp hall (hlaw rfl)

/-- A plan none of whose chunks starts in progress or completed. -/
def Unstarted (cfg : PipelineConfig) (status : Nat → ChunkStatus) : Prop :=
  ∀ c < cfg.chunks.length, status c = .pending ∨ status c = .failed

instance (cfg : PipelineConfig) (status : Nat → ChunkStatus) : Decidable (Unstarted cfg status) :=
  inferInstanceAs (Decidable (∀ c < cfg.chunks.length, _))

theorem board_init {status : Nat → ChunkStatus} (hstart : Unstarted cfg status) (ws : WorkerWorkspace) :
    Board cfg (PipelineConfig.init status ws) :=
  fun c hc => (hstart c (lt_of_mem_order hc)).imp id Or.inl

theorem board_of_run (hslots : 1 ≤ cfg.maxParallelWorkers) {status : Nat → ChunkStatus} (hstart : Unstarted cfg status)
    {ws : WorkerWorkspace} {acts : List Act} {s : Run}
    (hlaw : cfg.machine.Along NothingAbandoned (PipelineConfig.init status ws) acts)
    (hrun : cfg.machine.run (PipelineConfig.init status ws) acts = some s) : Board cfg s :=
  (cfg.machine.inv_of_along (fun s => Orderly cfg s ∧ Board cfg s)
    (fun _ _ _ hi hl h => ⟨orderly_step hi.1 h, board_step hslots hi.1 hi.2 hl h⟩) acts _ s
    ⟨orderly_init status ws, board_init hstart ws⟩ hlaw hrun).2

/-- **The integrator is entered with every chunk done**, in every run of a plan of distinct ids on at least one slot, as long
as no visit abandons an execution. -/
theorem finished_of_nothingAbandoned (hslots : 1 ≤ cfg.maxParallelWorkers)
    (hids : (cfg.chunks.map Chunk.chunkId).Nodup) {status : Nat → ChunkStatus} (hstart : Unstarted cfg status)
    (ws : WorkerWorkspace) (acts : List Act) (s : Run)
    (hlaw : cfg.machine.Along NothingAbandoned (PipelineConfig.init status ws) acts)
    (hrun : cfg.machine.run (PipelineConfig.init status ws) acts = some s) :
    s.node = .integrate → ∀ c < cfg.chunks.length, s.pool.status c = .completed ∧ s.exec c = .returned := by
  intro hnode c hc
  have hboard := board_of_run hslots hstart hlaw hrun
  unfold Board at hboard
  rw [hnode] at hboard
  exact hboard c (ChunkDAG.mem_graph_order cfg.accepted hids hc)

def emptyWorkspace : WorkerWorkspace := .new (fun _ => none) (fun _ => none)

def redThenGreen : List Act :=
  [.enter, .turn, .bind 0 true, .develop 0 true, .test 0 .failed, .wake [0], .settle, .leave,
    .enter, .turn, .bind 0 true, .develop 0 true, .test 0 .passed, .commit 0 true, .wake [0], .settle, .turn, .leave]

theorem finished_of_redThenGreen : ∃ cfg, PipelineConfig.ofChunks 900 [⟨"a", []⟩] 1 = some cfg ∧ ∃ s,
    cfg.machine.run (PipelineConfig.init (fun _ => .pending) emptyWorkspace) redThenGreen = some s ∧
      s.node = .integrate ∧ ∀ c < cfg.chunks.length, s.pool.status c = .completed ∧ s.exec c = .returned := by
  obtain ⟨cfg, hcfg, h⟩ := (Option.any_eq_true (p := fun cfg : PipelineConfig => decide (1 ≤ cfg.maxParallelWorkers ∧
      (cfg.chunks.map Chunk.chunkId).Nodup ∧ Unstarted cfg (fun _ => .pending) ∧
      cfg.machine.Along NothingAbandoned (PipelineConfig.init (fun _ => .pending) emptyWorkspace) redThenGreen) &&
      (cfg.machine.run (PipelineConfig.init (fun _ => .pending) emptyWorkspace) redThenGreen).any
        (fun s : Run => decide (s.node = .integrate))) _).1
    (show (PipelineConfig.ofChunks 900 [⟨"a", []⟩] 1).any _ = true by decide +kernel)
  rw [Bool.and_eq_true, decide_eq_true_eq] at h
  obtain ⟨⟨hslots, hids, hstart, hlaw⟩, hany⟩ := h
  obtain ⟨s, hrun, hnode⟩ := (Option.any_eq_true _ _).1 hany
  have hint := of_decide_eq_true hnode
  exact ⟨cfg, hcfg, s, hrun, hint, finished_of_nothingAbandoned hslots hids hstart emptyWorkspace redThenGreen s hlaw hrun hint⟩

/-- Two chunks in flight: the second's developer fails while the first's failure ends the visit; the retry runs the first. -/
def siblingFails : List Act :=
  [.enter, .turn, .bind 0 true, .bind 1 true, .develop 0 false, .wake [0], .settle, .develop 1 false, .leave,
    .enter, .turn, .bind 0 true, .develop 0 true, .test 0 .passed, .commit 0 true, .wake [0], .settle, .turn, .leave]

/-- **A chunk that raised beside the first failure is never run again**: after the retry nothing can be scheduled, the
router sees no failed chunk, and the integrator is entered with it in progress. -/
theorem sibling_abandoned : ∃ cfg, PipelineConfig.ofChunks 900 [⟨"a", []⟩, ⟨"b", []⟩] 2 = some cfg ∧ ∃ s,
    cfg.machine.run (PipelineConfig.init (fun _ => .pending) emptyWorkspace) siblingFails = some s ∧
      s.node = .integrate ∧ s.pool.status 1 = .inProgress := by
  obtain ⟨cfg, hcfg, h⟩ := (Option.any_eq_true (p := fun cfg : PipelineConfig =>
      (cfg.machine.run (PipelineConfig.init (fun _ => .pending) emptyWorkspace) siblingFails).any
        (fun s : Run => decide (s.node = .integrate ∧ s.pool.status 1 = .inProgress))) _).1
    (show (PipelineConfig.ofChunks 900 [⟨"a", []⟩, ⟨"b", []⟩] 2).any _ = true by decide +kernel)
  obtain ⟨s, hs, hd⟩ := (Option.any_eq_true _ _).1 h
  exact ⟨cfg, hcfg, s, hs, of_decide_eq_true hd⟩

end Engine
end DevHarness
