import DevHarness.Engine.DagOrder
import DevHarness.Engine.WorkerPool
/-!
# ReadyOrder — the two lists of ready chunks (`engine/dag.py`, `engine/worker_pool.py`)

`ChunkDAG.ready_chunks` and the pool's `ready_chunks` filter the same order by the same rule.  The order is the
topological one: two ready chunks come by their ids when everything the lesser depends on goes before the greater, and the
other way round otherwise.
-/
namespace DevHarness
namespace Engine
namespace ChunkDAG

open Lib (LinearExtension Before Precedes before_iff_precedes pairwise_filter_iff)

/-- The rule of `ready_chunks`: pending, and every dependency completed. -/
def claimable (dag : ChunkDAG) (status : Nat → ChunkStatus) (c : ChunkObject) : Bool :=
  decide (status c.ref = .pending) && c.chunk.dependencies.all (fun dep => decide (status (dag.ref dep) = .completed))

/-- `ready_chunks`, the statuses of the chunk objects passed in. -/
def readyChunks (dag : ChunkDAG) (status : Nat → ChunkStatus) : List ChunkObject :=
  (dag.order.filterMap dag.chunks.get?).filter (dag.claimable status)

/-- **A ready chunk**: a pending chunk of the graph whose dependencies are chunks of the graph, all completed. -/
structure Ready (dag : ChunkDAG) (status : Nat → ChunkStatus) (c : ChunkObject) : Prop where
  listed : dag.chunks.get? c.chunk.chunkId = some c
  pending : status c.ref = .pending
  completed : ∀ dep ∈ c.chunk.dependencies, ∃ d, dag.chunks.get? dep = some d ∧ status d.ref = .completed

variable {limit : Nat} {chunks : List Chunk} {dag : ChunkDAG} {status : Nat → ChunkStatus}

theorem chunkId_of_get? (h : build limit chunks = .ok dag) {cid : String} {c : ChunkObject}
    (hc : dag.chunks.get? cid = some c) : c.chunk.chunkId = cid ∧ chunks[c.ref]? = some c.chunk := by
  rw [(build_spec h).1] at hc
  exact ⟨(get?_chunksById hc).2, (get?_chunksById hc).1⟩

theorem ref_of_get? {cid : String} {c : ChunkObject} (hc : dag.chunks.get? cid = some c) : dag.ref cid = c.ref := by
  rw [ref, hc]

/-- The dependencies of a chunk of the graph are chunks of the graph. -/
theorem exists_dependency (h : build limit chunks = .ok dag) {cid dep : String} {c : ChunkObject}
    (hc : dag.chunks.get? cid = some c) (hdep : dep ∈ c.chunk.dependencies) : ∃ d, dag.chunks.get? dep = some d := by
  obtain ⟨pre, post, he⟩ := List.append_of_mem ((mem_order_iff h).2 ⟨c, hc⟩)
  have hpre := (build_spec h).2.2 pre cid post he dep (mem_adjacency.2 ⟨c, hc, hdep⟩)
  exact (mem_order_iff h).1 (by rw [he]; exact List.mem_append_left _ hpre)

theorem claimable_iff (h : build limit chunks = .ok dag) {c : ChunkObject} (hc : dag.chunks.get? c.chunk.chunkId = some c) :
    dag.claimable status c = true ↔ Ready dag status c := by
  rw [claimable, Bool.and_eq_true, decide_eq_true_eq, List.all_eq_true]
  constructor
  · rintro ⟨hpending, hall⟩
    refine ⟨hc, hpending, fun dep hdep => ?_⟩
    obtain ⟨d, hd⟩ := exists_dependency h hc hdep
    have hcompleted := of_decide_eq_true (hall dep hdep)
    rw [ref_of_get? hd] at hcompleted
    exact ⟨d, hd, hcompleted⟩
  · intro hr
    refine ⟨hr.pending, fun dep hdep => decide_eq_true ?_⟩
    obtain ⟨d, hd, hcompleted⟩ := hr.completed dep hdep
    rw [ref_of_get? hd]
    exact hcompleted

theorem mem_objects_iff (h : build limit chunks = .ok dag) {c : ChunkObject} :
    c ∈ dag.order.filterMap dag.chunks.get? ↔ dag.chunks.get? c.chunk.chunkId = some c := by
  rw [List.mem_filterMap]
  constructor
  · rintro ⟨cid, -, hc⟩
    rw [(chunkId_of_get? h hc).1]
    exact hc
  · intro hc
    exact ⟨_, (mem_order_iff h).2 ⟨c, hc⟩, hc⟩

/-- **Exactly the ready chunks.** -/
theorem mem_readyChunks_iff (h : build limit chunks = .ok dag) {c : ChunkObject} :
    c ∈ dag.readyChunks status ↔ Ready dag status c := by
  rw [readyChunks, List.mem_filter, mem_objects_iff h]
  constructor
  · rintro ⟨hc, hclaimable⟩
    exact (claimable_iff h hc).1 hclaimable
  · intro hr
    exact ⟨hr.listed, (claimable_iff h hr.listed).2 hr⟩

/-- Whether the chunk of an id is ready, as the order is filtered by it. -/
def readyId (dag : ChunkDAG) (status : Nat → ChunkStatus) (cid : String) : Bool :=
  (dag.chunks.get? cid).any (dag.claimable status)

/-- The ready objects of some ids, read through `g`, are the ready ids read through `f`. -/
theorem map_filter_claimable {β : Type} (h : build limit chunks = .ok dag) {g : ChunkObject → β} {f : String → β}
    (hread : ∀ cid c, dag.chunks.get? cid = some c → f cid = g c) :
    ∀ (ids : List String), (∀ cid ∈ ids, cid ∈ dag.order) →
      ((ids.filterMap dag.chunks.get?).filter (dag.claimable status)).map g =
        (ids.filter (dag.readyId status)).map f
  | [], _ => rfl
  | cid :: ids, hids => by
    obtain ⟨c, hc⟩ := (mem_order_iff h).1 (hids cid List.mem_cons_self)
    have ih := map_filter_claimable h hread ids (fun a ha => hids a (List.mem_cons_of_mem _ ha))
    have hready : dag.readyId status cid = dag.claimable status c := by rw [readyId, hc, Option.any_some]
    rw [List.filterMap_cons_some hc, List.filter_cons, List.filter_cons, hready]
    by_cases hclaimable : dag.claimable status c = true
    · rw [if_pos hclaimable, if_pos hclaimable, List.map_cons, List.map_cons, ih, hread cid c hc]
    · rw [if_neg hclaimable, if_neg hclaimable, ih]

theorem map_chunkId_readyChunks (h : build limit chunks = .ok dag) :
    (dag.readyChunks status).map (fun c => c.chunk.chunkId) = dag.order.filter (dag.readyId status) := by
  have hread : ∀ cid c, dag.chunks.get? cid = some c → id cid = c.chunk.chunkId :=
    fun _ _ hc => (chunkId_of_get? h hc).1.symm
  rw [readyChunks, map_filter_claimable h hread dag.order (fun _ hcid => hcid), List.map_id]

theorem nodup_order (h : build limit chunks = .ok dag) : dag.order.Nodup := (build_spec h).2.1.nodup_iff.2 dag.chunks.nodup

theorem nodup_readyChunks (h : build limit chunks = .ok dag) : (dag.readyChunks status).Nodup := by
  have hids := (nodup_order h).filter (dag.readyId status)
  rw [← map_chunkId_readyChunks h] at hids
  exact hids.of_map

theorem readyId_iff (h : build limit chunks = .ok dag) {cid : String} :
    dag.readyId status cid = true ↔ ∃ c, Ready dag status c ∧ c.chunk.chunkId = cid := by
  rw [readyId, Option.any_eq_true]
  constructor
  · rintro ⟨c, hc, hclaimable⟩
    have hid := (chunkId_of_get? h hc).1
    refine ⟨c, (claimable_iff h ?_).1 hclaimable, hid⟩
    rw [hid]
    exact hc
  · rintro ⟨c, hr, rfl⟩
    exact ⟨c, hr.listed, (claimable_iff h hr.listed).2 hr⟩

/-! ## The pool's list -/

/-- The pool reads a chunk's status and dependencies off the graph; they are those of the object. -/
theorem pool_ready_eq (h : build limit chunks = .ok dag) {cid : String} (hcid : cid ∈ dag.order) :
    (decide (status (dag.ref cid) = .pending) && dependenciesCompleted (graph h) status (dag.ref cid)) =
      dag.readyId status cid := by
  obtain ⟨c, hc⟩ := (mem_order_iff h).1 hcid
  have hdeps : (graph h).deps (dag.ref cid) = c.chunk.dependencies.map dag.ref := by
    show dependencies chunks dag (dag.ref cid) = _
    rw [ref_of_get? hc, dependencies, (chunkId_of_get? h hc).2]
  rw [dependenciesCompleted, hdeps, List.all_map, ref_of_get? hc, readyId, hc]
  rfl

/-- **The two lists are one**: the pool's, on the places of the chunks. -/
theorem map_ref_readyChunks (h : build limit chunks = .ok dag) (status : Nat → ChunkStatus) :
    (dag.readyChunks status).map ChunkObject.ref = Engine.readyChunks (graph h) status :=
  calc (dag.readyChunks status).map ChunkObject.ref = (dag.order.filter (dag.readyId status)).map dag.ref :=
        map_filter_claimable h (fun _ _ hc => ref_of_get? hc) dag.order (fun _ hcid => hcid)
    _ = Engine.readyChunks (graph h) status := by
        rw [Engine.readyChunks]
        show _ = (dag.order.map dag.ref).filter _
        rw [List.filter_map]
        congr 1
        exact List.filter_congr (fun cid hcid => (pool_ready_eq h hcid).symm)

/-! ## The order of the list -/

/-- **The ready chunks come by their ids** exactly when, of any two, all the lesser depends on goes before the other. -/
theorem pairwise_readyChunks_iff (h : build limit chunks = .ok dag) :
    ((dag.readyChunks status).map (fun c => c.chunk.chunkId)).Pairwise (· ≤ ·) ↔
      ∀ x y, Ready dag status x → Ready dag status y → x.chunk.chunkId < y.chunk.chunkId →
        Precedes (Lists (adjacency dag.chunks)) x.chunk.chunkId y.chunk.chunkId := by
  have hext : LinearExtension (Lists (adjacency dag.chunks)) dag.order := (build_spec h).2.2
  have hbefore : ∀ {v w : String}, v ∈ dag.order → w ∈ dag.order →
      (Before dag.order v w ↔ Precedes (Lists (adjacency dag.chunks)) v w) :=
    fun hv hw => before_iff_precedes hext (order_greedy h) (nodup_order h) hv hw
  have hmem : ∀ {c : ChunkObject}, Ready dag status c → c.chunk.chunkId ∈ dag.order :=
    fun hr => (mem_order_iff h).2 ⟨_, hr.listed⟩
  rw [map_chunkId_readyChunks h, pairwise_filter_iff (nodup_order h)]
  constructor
  · intro hsorted x y hx hy hlt
    exact (hbefore (hmem hx) (hmem hy)).1 (hsorted _ (hmem hx) _ (hmem hy) ((readyId_iff h).2 ⟨x, hx, rfl⟩)
      ((readyId_iff h).2 ⟨y, hy, rfl⟩) hlt)
  · intro hprec v hv w hw hrv hrw hlt
    obtain ⟨x, hx, rfl⟩ := (readyId_iff h).1 hrv
    obtain ⟨y, hy, rfl⟩ := (readyId_iff h).1 hrw
    exact (hbefore hv hw).2 (hprec x y hx hy hlt)

/-- **What `ready_chunks` is documented to return**: the ready chunks, each once, in the order of their ids, and as a set
what the pool finds ready. -/
structure AsDocumented (h : build limit chunks = .ok dag) (status : Nat → ChunkStatus) : Prop where
  once : (dag.readyChunks status).Nodup
  exactly : ∀ c, c ∈ dag.readyChunks status ↔ Ready dag status c
  inOrder : ((dag.readyChunks status).map (fun c => c.chunk.chunkId)).Pairwise (· ≤ ·)
  agrees : ∀ i, i ∈ (dag.readyChunks status).map ChunkObject.ref ↔ i ∈ Engine.readyChunks (graph h) status

/-- **When the list is as documented.**  The chunks and the agreement with the pool never fail; the order holds exactly
when no ready chunk depends on something that Kahn's order puts behind a ready chunk of a greater id. -/
theorem asDocumented_iff (chunks : List Chunk) (dag : ChunkDAG) (h : build limit chunks = .ok dag)
    (status : Nat → ChunkStatus) : AsDocumented h status ↔
      ∀ x y, Ready dag status x → Ready dag status y → x.chunk.chunkId < y.chunk.chunkId →
        Precedes (Lists (adjacency dag.chunks)) x.chunk.chunkId y.chunk.chunkId := by
  rw [← pairwise_readyChunks_iff h]
  constructor
  · intro hdoc
    exact hdoc.inOrder
  · intro hsorted
    refine ⟨nodup_readyChunks h, fun c => mem_readyChunks_iff h, hsorted, fun i => ?_⟩
    rw [map_ref_readyChunks h status]

/-- The ids `ready_chunks` gives on a plan, when the plan is accepted. -/
def readyIds (status : Nat → ChunkStatus) (plan : List Chunk) : Option (List String) :=
  (build 900 plan).toOption.map (fun dag => (dag.readyChunks status).map (fun c => c.chunk.chunkId))

theorem exists_of_readyIds {plan : List Chunk} {ids : List String} (h : readyIds status plan = some ids) :
    ∃ dag, build 900 plan = .ok dag ∧ (dag.readyChunks status).map (fun c => c.chunk.chunkId) = ids := by
  unfold readyIds at h
  cases hb : build 900 plan with
  | error e =>
    rw [hb] at h
    cases h
  | ok dag =>
    rw [hb] at h
    exact ⟨dag, rfl, Option.some.inj h⟩

/-- Two chunks behind one that is done. -/
def fork : List Chunk := [⟨"a", []⟩, ⟨"c", ["a"]⟩, ⟨"b", ["a"]⟩]

/-- The first chunk of a plan completed, the others pending. -/
def firstDone (i : Nat) : ChunkStatus := if i = 0 then .completed else .pending

theorem asDocumented_fork : ∃ dag, ∃ h : build 900 fork = .ok dag,
    (dag.readyChunks firstDone).map (fun c => c.chunk.chunkId) = ["b", "c"] ∧ AsDocumented h firstDone := by
  have hrun : readyIds firstDone fork = some ["b", "c"] := by decide +kernel
  obtain ⟨dag, h, hids⟩ := exists_of_readyIds hrun
  refine ⟨dag, h, hids, (asDocumented_iff fork dag h firstDone).2 (fun x y hx hy hlt => ?_)⟩
  have hmem : ∀ {c : ChunkObject}, Ready dag firstDone c → c.chunk.chunkId = "b" ∨ c.chunk.chunkId = "c" := by
    intro c hc
    have hid := List.mem_map_of_mem (f := fun c => c.chunk.chunkId) ((mem_readyChunks_iff h).2 hc)
    rw [hids] at hid
    simpa using hid
  -- of the two ids only `b`, `c` stand in this order, and both wait for `a`
  have hb : adjacency dag.chunks "b" = ["a"] := by
    rw [(build_spec h).1]
    decide +kernel
  have hc : adjacency dag.chunks "c" = ["a"] := by
    rw [(build_spec h).1]
    decide +kernel
  have hac : Precedes (Lists (adjacency dag.chunks)) "a" "c" :=
    Precedes.dependency (Relation.TransGen.single (by rw [Lists, hc]; exact List.mem_singleton.2 rfl))
  have hbc : Precedes (Lists (adjacency dag.chunks)) "b" "c" :=
    Precedes.smaller (by decide) (fun d hd => by
      rw [Lists, hb, List.mem_singleton] at hd
      rw [hd]
      exact hac)
  rcases hmem hx with hxi | hxi <;> rcases hmem hy with hyi | hyi <;> rw [hxi, hyi] at hlt ⊢
  · exact absurd hlt (lt_irrefl _)
  · exact hbc
  · exact absurd hlt (by decide)
  · exact absurd hlt (lt_irrefl _)

/-- `a` waits for `z`, which is done; `m` waits for nothing. -/
def lateLetter : List Chunk := [⟨"z", []⟩, ⟨"a", ["z"]⟩, ⟨"m", []⟩]

/-- **A small id behind a great one**: `a` and `m` are ready and come as `m`, `a`. -/
theorem readyChunks_lateLetter : ∃ dag, ∃ h : build 900 lateLetter = .ok dag,
    (dag.readyChunks firstDone).map (fun c => c.chunk.chunkId) = ["m", "a"] ∧ ¬ AsDocumented h firstDone := by
  have hrun : readyIds firstDone lateLetter = some ["m", "a"] := by decide +kernel
  obtain ⟨dag, h, hids⟩ := exists_of_readyIds hrun
  refine ⟨dag, h, hids, fun hdoc => ?_⟩
  have hsorted := hdoc.inOrder
  rw [hids] at hsorted
  exact absurd hsorted (by decide)

end ChunkDAG
end Engine
end DevHarness
