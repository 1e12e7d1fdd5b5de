import DevHarness.Engine.DagDepth
import Mathlib.Data.List.Range
/-!
# DagOrder — what a chunk graph accepts, what it reports and how it orders (`engine/dag.py`)

The path of the search is a chain of dependencies, so what a back edge closes is a cycle; Kahn's loop keeps its ready
nodes sorted, so each node it emits is the least it could.  With the laws of linear extensions this settles the
constructor and the order on every list of chunks with distinct ids whose chains the search has the calls to follow.
-/
namespace DevHarness
namespace Engine

open Lib (Dict Layered LinearExtension Greedy LeastExtension Acyclic IsCycle)

/-! ## The reported cycle -/

/-- What a visit reports is a cycle, as long as the path it is called on is a chain of dependencies. -/
def ReportsCycles (adj : String → List String) (limit : Nat) : Prop :=
  ∀ (node : String) (s s' : Search) (post cycle : List String), Finished adj s post → s.color node = .white →
    List.IsChain (Lists adj) (s.path ++ [node]) → cycle ≠ [] → visit adj limit node s = some (cycle, s') →
    IsCycle (Lists adj) cycle

theorem visitDeps_cycle {adj : String → List String} {limit : Nat} (hvisit : ReportsCycles adj limit) :
    ∀ (deps : List String) (s s' : Search) (post cycle : List String), Finished adj s post →
      (∀ d ∈ deps, List.IsChain (Lists adj) (s.path ++ [d])) → cycle ≠ [] →
      visitDeps (visit adj limit) deps s = some (cycle, s') → IsCycle (Lists adj) cycle
  | [], _, _, _, _, _, _, hne, h => absurd (congrArg Prod.fst (Option.some.inj h)).symm hne
  | dep :: deps, s, s', post, cycle, hf, hch, hne, h => by
    have hchain := hch dep List.mem_cons_self
    rcases visitDeps_cons (visit adj limit) dep deps s with ⟨hc, he⟩ | ⟨hc, -, he⟩ | ⟨s₁, hpass, he⟩
    · -- the tail of the path from the grey dependency on, and the edge that leads back to it
      rw [he] at h
      obtain ⟨rfl, -⟩ := Prod.mk.inj (Option.some.inj h)
      have hlt := List.idxOf_lt_length_iff.2 (hf.grey dep hc)
      have hdrop := List.drop_eq_getElem_cons hlt
      rw [List.getElem_idxOf hlt] at hdrop
      have htail := hchain.drop (s.path.idxOf dep)
      rw [List.drop_append_of_le_length (Nat.le_of_lt hlt), hdrop] at htail
      rw [hdrop]
      exact htail
    · rw [he] at h
      exact hvisit dep s s' post cycle hf hc hchain hne h
    · rw [he] at h
      obtain ⟨post₁, h₁⟩ := (visit_extends adj limit).passes hf hpass
      refine visitDeps_cycle hvisit deps s₁ s' post₁ cycle h₁.finished (fun d hd => ?_) hne h
      rw [h₁.path]
      exact hch d (List.mem_cons_of_mem _ hd)

theorem reportsCycles (adj : String → List String) : ∀ limit, ReportsCycles adj limit
  | 0, _, _, _, _, _, _, _, _, _, h => by cases h
  | limit + 1, node, s, s', post, cycle, hf, hc, hch, hne, h => by
    refine visitDeps_cycle (reportsCycles adj limit) (adj node) (s.enter node) s' post cycle (hf.enter hc)
      (fun d hd => ?_) hne (visit_eq_cycle hne h)
    rw [Search.path_enter, List.append_assoc]
    exact List.isChain_append_cons_cons.2 ⟨hch, hd, List.isChain_singleton d⟩

/-- **A reported cycle is one**: each member lists the next, and the last the first. -/
theorem findCycle_isCycle {limit : Nat} {nodes cycle : List String} {adj : String → List String} (hne : cycle ≠ [])
    (h : findCycle limit nodes adj = some cycle) : IsCycle (Lists adj) cycle := by
  rw [findCycle_eq] at h
  obtain ⟨⟨found, s'⟩, hs, rfl⟩ := Option.map_eq_some_iff.1 h
  exact visitDeps_cycle (reportsCycles adj limit) _ _ s' [] found (Finished.start adj)
    (fun d _ => List.isChain_singleton d) hne hs

/-! ## Kahn's order -/

/-- At each place of the order stands the least node, of all there are, that could stand there. -/
def TakesLeast (nodes : List String) (adj : String → List String) (order : List String) : Prop :=
  ∀ pre x post, order = pre ++ x :: post → ∀ y ∈ nodes, y ∉ pre → (∀ d ∈ adj y, d ∈ pre) → x ≤ y

theorem TakesLeast.snoc {nodes order : List String} {adj : String → List String} {node : String}
    (h : TakesLeast nodes adj order)
    (hleast : ∀ y ∈ nodes, y ∉ order → (∀ d ∈ adj y, d ∈ order) → node ≤ y) :
    TakesLeast nodes adj (order ++ [node]) := by
  intro pre x post he y hy hnot hdeps
  rcases List.append_eq_append_iff.1 he with ⟨a, rfl, ha⟩ | ⟨a, rfl, ha⟩
  · cases a with
    | nil =>
      obtain ⟨rfl, -⟩ := List.cons.inj ha
      rw [List.append_nil] at hnot hdeps
      exact hleast y hy hnot hdeps
    | cons b a =>
      have hnil := (List.cons.inj ha).2
      cases a <;> cases hnil
  · cases a with
    | nil =>
      obtain ⟨rfl, -⟩ := List.cons.inj ha
      exact hleast y hy (by simpa using hnot) (by simpa using hdeps)
    | cons b a =>
      obtain ⟨rfl, -⟩ := List.cons.inj ha
      exact h pre x a rfl y hy hnot hdeps

/-- **The ready nodes are kept sorted**, so each node emitted is the least that was ready. -/
theorem kahn_takesLeast {nodes : List String} {adj : String → List String} (hn : nodes.Nodup) :
    ∀ (fuel : Nat) (ready : List String) (indegree : String → Nat) (order : List String),
      Emitting nodes adj ready indegree order → ready.Pairwise (· ≤ ·) → TakesLeast nodes adj order →
      TakesLeast nodes adj (kahn (dependentsOf nodes adj) fuel ready indegree order)
  | 0, _, _, _, _, _, ht => ht
  | _ + 1, [], _, _, _, _, ht => ht
  | fuel + 1, node :: ready, indegree, order, h, hsort, ht => by
    rw [kahn]
    refine kahn_takesLeast hn fuel _ _ _ (h.step hn) (pairwise_sorted _) (ht.snoc (fun y hy hnot hdeps => ?_))
    have hzero : indegree y = 0 := by
      rw [h.unmet y hy, List.countP_eq_zero]
      intro d hd
      simpa using hdeps d hd
    rcases List.mem_cons.1 ((h.isReady y hy hnot).2 hzero) with rfl | hready
    · exact le_refl _
    · exact (List.pairwise_cons.1 hsort).1 y hready

theorem TakesLeast.greedy {nodes order : List String} {adj : String → List String} (h : TakesLeast nodes adj order)
    (hp : order.Perm nodes) (hn : nodes.Nodup) : Greedy (Lists adj) order := by
  intro pre x post he y hy hdeps
  have hnodup := hp.nodup_iff.2 hn
  rw [he] at hnodup
  refine h pre x post he y (hp.mem_iff.1 (by rw [he]; simp [hy])) (fun hm => ?_) hdeps
  exact (List.nodup_append.1 hnodup).2.2 y hm y (List.mem_cons_of_mem _ hy) rfl

/-! ## The plan as a relation -/

/-- The chunk of id `a` depends on `b`. -/
def DependsOn (chunks : List Chunk) (a b : String) : Prop := ∃ c ∈ chunks, c.chunkId = a ∧ b ∈ c.dependencies

/-- Every dependency names a listed chunk. -/
def Listed (chunks : List Chunk) : Prop := ∀ a b, DependsOn chunks a b → b ∈ chunks.map Chunk.chunkId

theorem lists_adjacency {chunks : List Chunk} (hn : (chunks.map Chunk.chunkId).Nodup) (a b : String) :
    Lists (adjacency (chunksById chunks)) a b ↔ DependsOn chunks a b := by
  unfold Lists
  rw [mem_adjacency]
  constructor
  · rintro ⟨c, hc, hb⟩
    obtain ⟨hget, hid⟩ := get?_chunksById hc
    exact ⟨c.chunk, List.mem_of_getElem? hget, hid, hb⟩
  · rintro ⟨c, hc, rfl, hb⟩
    obtain ⟨i, hi⟩ := List.mem_iff_getElem?.1 hc
    exact ⟨⟨i, c⟩, get?_chunksById_of_nodup hn hi, hb⟩

theorem keys_chunksById {chunks : List Chunk} (hn : (chunks.map Chunk.chunkId).Nodup) :
    (chunksById chunks).keys.Perm (chunks.map Chunk.chunkId) := by
  refine (List.perm_ext_iff_of_nodup (chunksById chunks).nodup hn).2 (fun cid => ?_)
  show cid ∈ (chunksById chunks).keys ↔ _
  rw [Dict.mem_keys_iff, List.mem_map]
  constructor
  · rintro ⟨c, hc⟩
    obtain ⟨hget, hid⟩ := get?_chunksById hc
    exact ⟨c.chunk, List.mem_of_getElem? hget, hid⟩
  · rintro ⟨c, hc, rfl⟩
    obtain ⟨i, hi⟩ := List.mem_iff_getElem?.1 hc
    exact ⟨⟨i, c⟩, get?_chunksById_of_nodup hn hi⟩

theorem lists_iff_dependsOn {chunks : List Chunk} (hn : (chunks.map Chunk.chunkId).Nodup) :
    Lists (adjacency (chunksById chunks)) = DependsOn chunks :=
  funext fun a => funext fun b => propext (lists_adjacency hn a b)

theorem findOrphan_eq_some {chunks : Dict String ChunkObject} {p : String × String} (h : findOrphan chunks = some p) :
    p.2 ∈ adjacency chunks p.1 ∧ p.2 ∉ chunks.keys := by
  obtain ⟨c, -, hc⟩ := List.exists_of_findSome?_eq_some h
  obtain ⟨d, hd, rfl⟩ := Option.map_eq_some_iff.1 hc
  exact ⟨List.mem_of_find?_eq_some hd, by simpa using List.find?_some hd⟩

theorem findOrphan_eq_none_iff {chunks : List Chunk} (hn : (chunks.map Chunk.chunkId).Nodup) :
    findOrphan (chunksById chunks) = none ↔ Listed chunks := by
  constructor
  · intro h a b hab
    have hlist := (lists_adjacency hn a b).2 hab
    have hkey : a ∈ (chunksById chunks).keys := by
      obtain ⟨c, hc, rfl, -⟩ := hab
      exact (keys_chunksById hn).mem_iff.2 (List.mem_map_of_mem hc)
    exact (keys_chunksById hn).mem_iff.1 (findOrphan_eq_none h a hkey b hlist)
  · intro h
    cases ho : findOrphan (chunksById chunks) with
    | none => rfl
    | some p =>
      obtain ⟨hdep, hnot⟩ := findOrphan_eq_some ho
      have hlisted := h p.1 p.2 ((lists_adjacency hn p.1 p.2).1 hdep)
      exact absurd ((keys_chunksById hn).mem_iff.2 hlisted) hnot

theorem sorted_adjacency (chunks : Dict String ChunkObject) (cid : String) :
    (adjacency chunks cid).Pairwise (· ≤ ·) := by
  unfold adjacency
  split
  · exact pairwise_sorted _
  · exact List.Pairwise.nil

/-- The search follows a chain of the plan further than it has calls for. -/
def Overflows (limit : Nat) (chunks : List Chunk) : Prop :=
  Nests limit (chunks.map Chunk.chunkId) (DependsOn chunks)

theorem findCycle_eq_none_iff_overflows {chunks : List Chunk} (hn : (chunks.map Chunk.chunkId).Nodup) (limit : Nat) :
    findCycle limit (chunksById chunks).keys (adjacency (chunksById chunks)) = none ↔ Overflows limit chunks := by
  rw [findCycle_eq_none_iff (sorted_adjacency _), lists_iff_dependsOn hn]
  have hmem : ∀ x, x ∈ (chunksById chunks).keys ↔ x ∈ chunks.map Chunk.chunkId := fun x => (keys_chunksById hn).mem_iff
  exact ⟨Nests.congr hmem, Nests.congr fun x => (hmem x).symm⟩

/-- No plan of as many chunks as there are calls overflows. -/
theorem not_overflows_of_length_le {limit : Nat} {chunks : List Chunk} (hl : Listed chunks)
    (hlen : chunks.length ≤ limit) : ¬ Overflows limit chunks :=
  not_nests_of_length_le hl (by rwa [List.length_map])

/-- **Nothing is reported only when there is no cycle.** -/
theorem acyclic_of_findCycle {limit : Nat} {chunks : List Chunk} (hn : (chunks.map Chunk.chunkId).Nodup)
    (h : findCycle limit (chunksById chunks).keys (adjacency (chunksById chunks)) = some []) :
    Acyclic (DependsOn chunks) := by
  intro x hx
  obtain ⟨post, hlayered, hall⟩ := findCycle_eq_nil h
  rw [← lists_iff_dependsOn hn] at hx
  -- what has a dependency is a key, and all keys are in the layered list
  have hkey : x ∈ (chunksById chunks).keys := by
    obtain ⟨y, hxy, -⟩ := Relation.TransGen.head'_iff.1 hx
    obtain ⟨c, hc, -⟩ := mem_adjacency.1 hxy
    exact (Dict.mem_keys_iff _ _).2 ⟨c, hc⟩
  have hext : LinearExtension (Lists (adjacency (chunksById chunks))) post := hlayered
  exact hext.not_transGen (hall x hkey) hx

theorem isCycle_of_findCycle {limit : Nat} {chunks : List Chunk} (hn : (chunks.map Chunk.chunkId).Nodup)
    {cycle : List String} (hne : cycle ≠ [])
    (h : findCycle limit (chunksById chunks).keys (adjacency (chunksById chunks)) = some cycle) :
    IsCycle (DependsOn chunks) cycle := by
  have hcycle := findCycle_isCycle hne h
  rwa [lists_iff_dependsOn hn] at hcycle

/-! ## The constructor and the order -/

/-- `topological_order`: the chunks themselves. -/
def ChunkDAG.topologicalChunks (dag : ChunkDAG) : List Chunk :=
  dag.order.filterMap (fun cid => (dag.chunks.get? cid).map ChunkObject.chunk)

namespace ChunkDAG

theorem build_of_orphan {chunks : List Chunk} (hn : (chunks.map Chunk.chunkId).Nodup) (limit : Nat)
    (h : ¬ Listed chunks) : ∃ cid dep, build limit chunks = .error (.orphanDependency cid dep) ∧
      DependsOn chunks cid dep ∧ dep ∉ chunks.map Chunk.chunkId := by
  rw [← findOrphan_eq_none_iff hn] at h
  obtain ⟨p, hp⟩ := Option.ne_none_iff_exists'.1 h
  obtain ⟨hdep, hnot⟩ := findOrphan_eq_some hp
  refine ⟨p.1, p.2, ?_, (lists_adjacency hn p.1 p.2).1 hdep, fun hm => hnot ((keys_chunksById hn).mem_iff.2 hm)⟩
  unfold build
  dsimp only
  rw [hp]

/-- Past the check of the dependencies, the search decides. -/
theorem build_of_listed {chunks : List Chunk} (hn : (chunks.map Chunk.chunkId).Nodup) (limit : Nat)
    (hl : Listed chunks) :
    build limit chunks = match findCycle limit (chunksById chunks).keys (adjacency (chunksById chunks)) with
      | none => .error .recursionError
      | some [] => .ok ⟨chunksById chunks, computeOrder (chunksById chunks).keys (adjacency (chunksById chunks))⟩
      | some cycle => .error (.cyclicDependency cycle) := by
  have horphan := (findOrphan_eq_none_iff hn).2 hl
  cases hf : findCycle limit (chunksById chunks).keys (adjacency (chunksById chunks)) with
  | none => simp only [build, horphan, hf]
  | some cycle => cases cycle <;> simp only [build, horphan, hf]

/-- **Out of calls**, whether or not there is a cycle. -/
theorem build_of_overflows {chunks : List Chunk} (hn : (chunks.map Chunk.chunkId).Nodup) {limit : Nat}
    (hl : Listed chunks) (h : Overflows limit chunks) : build limit chunks = .error .recursionError := by
  rw [build_of_listed hn limit hl, (findCycle_eq_none_iff_overflows hn limit).2 h]

theorem build_of_cyclic {chunks : List Chunk} (hn : (chunks.map Chunk.chunkId).Nodup) {limit : Nat} (hl : Listed chunks)
    (h : ¬ Overflows limit chunks) (hc : ¬ Acyclic (DependsOn chunks)) :
    ∃ cycle, build limit chunks = .error (.cyclicDependency cycle) ∧ IsCycle (DependsOn chunks) cycle := by
  rw [← findCycle_eq_none_iff_overflows hn] at h
  obtain ⟨cycle, hcycle⟩ := Option.ne_none_iff_exists'.1 h
  cases cycle with
  | nil => exact absurd (acyclic_of_findCycle hn hcycle) hc
  | cons a cycle =>
    refine ⟨a :: cycle, ?_, isCycle_of_findCycle hn (List.cons_ne_nil _ _) hcycle⟩
    rw [build_of_listed hn limit hl, hcycle]

theorem build_of_acyclic {chunks : List Chunk} (hn : (chunks.map Chunk.chunkId).Nodup) {limit : Nat} (hl : Listed chunks)
    (h : ¬ Overflows limit chunks) (hc : Acyclic (DependsOn chunks)) : ∃ dag, build limit chunks = .ok dag := by
  rw [← findCycle_eq_none_iff_overflows hn] at h
  obtain ⟨cycle, hcycle⟩ := Option.ne_none_iff_exists'.1 h
  cases cycle with
  | nil => exact ⟨_, by rw [build_of_listed hn limit hl, hcycle]⟩
  | cons a cycle => exact absurd hc (isCycle_of_findCycle hn (List.cons_ne_nil _ _) hcycle).not_acyclic

/-- **Accepted exactly when every dependency is listed, none is circular and no chain is too long.** -/
theorem build_ok_iff {chunks : List Chunk} (hn : (chunks.map Chunk.chunkId).Nodup) (limit : Nat) :
    (∃ dag, build limit chunks = .ok dag) ↔
      Listed chunks ∧ Acyclic (DependsOn chunks) ∧ ¬ Overflows limit chunks := by
  constructor
  · rintro ⟨dag, hdag⟩
    obtain ⟨ho, hc, -⟩ := build_eq_ok hdag
    refine ⟨(findOrphan_eq_none_iff hn).1 ho, acyclic_of_findCycle hn hc, fun h => ?_⟩
    rw [(findCycle_eq_none_iff_overflows hn limit).2 h] at hc
    cases hc
  · rintro ⟨hl, hc, h⟩
    exact build_of_acyclic hn hl h hc

/-- The order of an accepted graph takes the least chunk it can, each time. -/
theorem order_greedy {limit : Nat} {chunks : List Chunk} {dag : ChunkDAG} (h : build limit chunks = .ok dag) :
    Greedy (Lists (adjacency dag.chunks)) dag.order := by
  have hperm := (build_spec h).2.1
  obtain ⟨-, -, rfl⟩ := build_eq_ok h
  have hnodup := (chunksById chunks).nodup
  have hleast : TakesLeast (chunksById chunks).keys (adjacency (chunksById chunks))
      (computeOrder (chunksById chunks).keys (adjacency (chunksById chunks))) := by
    refine kahn_takesLeast hnodup _ _ _ [] (Emitting.init _ _ hnodup) (pairwise_sorted _) ?_
    intro pre x post he
    cases pre <;> cases he
  exact hleast.greedy hperm hnodup

/-- The order of an accepted graph is the least there is. -/
theorem order_leastExtension {limit : Nat} {chunks : List Chunk} {dag : ChunkDAG}
    (hn : (chunks.map Chunk.chunkId).Nodup) (h : build limit chunks = .ok dag) :
    LeastExtension (DependsOn chunks) (chunks.map Chunk.chunkId) dag.order := by
  obtain ⟨hobj, hperm, hlayered⟩ := build_spec h
  have hgreedy := order_greedy h
  have hext : LinearExtension (Lists (adjacency dag.chunks)) dag.order := hlayered
  rw [hobj, lists_iff_dependsOn hn] at hgreedy hext
  rw [hobj] at hperm
  exact hgreedy.leastExtension (hperm.trans (keys_chunksById hn)) hext

theorem map_chunkId_topologicalChunks {limit : Nat} {chunks : List Chunk} {dag : ChunkDAG} (h : build limit chunks = .ok dag) :
    dag.topologicalChunks.map Chunk.chunkId = dag.order := by
  obtain ⟨hobj, hperm, -⟩ := build_spec h
  have hsome : ∀ cid ∈ dag.order, ((dag.chunks.get? cid).map ChunkObject.chunk).map Chunk.chunkId = some cid := by
    intro cid hcid
    obtain ⟨c, hc⟩ := (Dict.mem_keys_iff _ _).1 (hperm.mem_iff.1 hcid)
    rw [hc]
    rw [hobj] at hc
    exact congrArg some (get?_chunksById hc).2
  calc dag.topologicalChunks.map Chunk.chunkId = dag.order.filterMap some := by
        rw [topologicalChunks, List.map_filterMap]
        exact List.filterMap_congr hsome
    _ = dag.order := List.filterMap_some

/-- **Each chunk once**, whatever their order in the list. -/
theorem topologicalChunks_perm {limit : Nat} {chunks : List Chunk} {dag : ChunkDAG}
    (hn : (chunks.map Chunk.chunkId).Nodup) (h : build limit chunks = .ok dag) : dag.topologicalChunks.Perm chunks := by
  have hleast := order_leastExtension hn h
  obtain ⟨hobj, -, -⟩ := build_spec h
  have hids : (dag.topologicalChunks.map Chunk.chunkId).Nodup := by
    rw [map_chunkId_topologicalChunks h]
    exact hleast.perm.nodup_iff.2 hn
  refine (List.perm_ext_iff_of_nodup hids.of_map hn.of_map).2 (fun c => ?_)
  unfold topologicalChunks
  rw [List.mem_filterMap]
  constructor
  · rintro ⟨cid, -, hc⟩
    obtain ⟨o, ho, rfl⟩ := Option.map_eq_some_iff.1 hc
    rw [hobj] at ho
    exact List.mem_of_getElem? (get?_chunksById ho).1
  · intro hc
    obtain ⟨i, hi⟩ := List.mem_iff_getElem?.1 hc
    refine ⟨c.chunkId, hleast.perm.mem_iff.2 (List.mem_map_of_mem hc), ?_⟩
    rw [hobj, get?_chunksById_of_nodup hn hi]
    rfl

/-- **What the constructor is for**, on chunks with distinct ids.  It accepts exactly the plans whose dependencies are all
listed and not circular, names an unknown dependency or else a cycle of the relation, and orders the chunks, each once, by
the least linear extension, which depends on nothing but the relation. -/
structure Decides (limit : Nat) (chunks : List Chunk) : Prop where
  accepts : (∃ dag, build limit chunks = .ok dag) ↔ Listed chunks ∧ Acyclic (DependsOn chunks)
  orphan : ¬ Listed chunks → ∃ cid dep, build limit chunks = .error (.orphanDependency cid dep) ∧
    DependsOn chunks cid dep ∧ dep ∉ chunks.map Chunk.chunkId
  cyclic : Listed chunks → ¬ Acyclic (DependsOn chunks) →
    ∃ cycle, build limit chunks = .error (.cyclicDependency cycle) ∧ IsCycle (DependsOn chunks) cycle
  orders : ∀ dag, build limit chunks = .ok dag →
    dag.topologicalChunks.Perm chunks ∧
    LeastExtension (DependsOn chunks) (chunks.map Chunk.chunkId) (dag.topologicalChunks.map Chunk.chunkId) ∧
    ∀ chunks', (chunks'.map Chunk.chunkId).Perm (chunks.map Chunk.chunkId) →
      (∀ a b, DependsOn chunks' a b ↔ DependsOn chunks a b) →
      ∃ dag', build limit chunks' = .ok dag' ∧
        dag'.topologicalChunks.map Chunk.chunkId = dag.topologicalChunks.map Chunk.chunkId

/-- **The order** of an accepted plan, whatever the order of its list and of the lists of dependencies. -/
theorem orders_of_build {limit : Nat} {chunks : List Chunk} {dag : ChunkDAG} (hn : (chunks.map Chunk.chunkId).Nodup)
    (h : build limit chunks = .ok dag) : dag.topologicalChunks.Perm chunks ∧
      LeastExtension (DependsOn chunks) (chunks.map Chunk.chunkId) (dag.topologicalChunks.map Chunk.chunkId) ∧
      ∀ chunks', (chunks'.map Chunk.chunkId).Perm (chunks.map Chunk.chunkId) →
        (∀ a b, DependsOn chunks' a b ↔ DependsOn chunks a b) →
        ∃ dag', build limit chunks' = .ok dag' ∧
          dag'.topologicalChunks.map Chunk.chunkId = dag.topologicalChunks.map Chunk.chunkId := by
  have hleast := order_leastExtension hn h
  rw [map_chunkId_topologicalChunks h]
  refine ⟨topologicalChunks_perm hn h, hleast, fun chunks' hperm hdep => ?_⟩
  have hn' := hperm.nodup_iff.2 hn
  have hrel : DependsOn chunks' = DependsOn chunks := by
    funext a b
    exact propext (hdep a b)
  obtain ⟨hl, hc, hnot⟩ := (build_ok_iff hn limit).1 ⟨dag, h⟩
  have hnot' : ¬ Overflows limit chunks' := by
    intro hoverflows
    rw [Overflows, hrel] at hoverflows
    exact hnot (hoverflows.congr fun x => hperm.mem_iff)
  obtain ⟨dag', h'⟩ := (build_ok_iff hn' limit).2
    ⟨fun a b hab => hperm.mem_iff.2 (hl a b ((hdep a b).1 hab)), by rw [hrel]; exact hc, hnot'⟩
  refine ⟨dag', h', ?_⟩
  rw [map_chunkId_topologicalChunks h']
  exact (order_leastExtension hn' h').unique hleast hdep hperm

/-- **The constructor decides a plan exactly when its search has the calls for it**: some dependency is unlisted, so that
nothing is searched, or the search follows no chain of more chunks than the nested calls there is room for. -/
theorem build_decides_iff (limit : Nat) (chunks : List Chunk) (hn : (chunks.map Chunk.chunkId).Nodup) :
    Decides limit chunks ↔ (Listed chunks → ¬ Overflows limit chunks) := by
  constructor
  · intro h hl hoverflows
    have hraised := build_of_overflows hn hl hoverflows
    by_cases hc : Acyclic (DependsOn chunks)
    · obtain ⟨dag, hdag⟩ := h.accepts.2 ⟨hl, hc⟩
      rw [hraised] at hdag
      cases hdag
    · obtain ⟨cycle, hcycle, -⟩ := h.cyclic hl hc
      rw [hraised] at hcycle
      cases hcycle
  · intro h
    refine ⟨⟨fun hok => ?_, fun hgood => ?_⟩, build_of_orphan hn limit, fun hl => build_of_cyclic hn hl (h hl),
      fun dag hdag => orders_of_build hn hdag⟩
    · obtain ⟨hl, hc, -⟩ := (build_ok_iff hn limit).1 hok
      exact ⟨hl, hc⟩
    · exact build_of_acyclic hn hgood.1 (h hgood.1) hgood.2

/-- A diamond, listed backwards and with a dependency twice. -/
def diamond : List Chunk := [⟨"d", ["c", "b", "c"]⟩, ⟨"c", ["a"]⟩, ⟨"b", ["a"]⟩, ⟨"a", []⟩]

theorem listed_diamond : Listed diamond := by
  rintro a b ⟨c, hc, -, hb⟩
  simp only [diamond, List.mem_cons, List.not_mem_nil, or_false] at hc
  rcases hc with rfl | rfl | rfl | rfl <;> simp at hb <;> simp [diamond] <;> tauto

theorem build_decides_diamond : ∃ dag, build 900 diamond = .ok dag ∧
    dag.topologicalChunks.map Chunk.chunkId = ["a", "b", "c", "d"] ∧
    LeastExtension (DependsOn diamond) (diamond.map Chunk.chunkId) (dag.topologicalChunks.map Chunk.chunkId) := by
  have hrun : (build 900 diamond).toOption.any
      (fun dag => decide (dag.topologicalChunks.map Chunk.chunkId = ["a", "b", "c", "d"])) = true := by
    decide +kernel
  have hdecides := (build_decides_iff 900 diamond (by decide)).2 fun _ =>
    not_overflows_of_length_le listed_diamond (by decide)
  cases hb : build 900 diamond with
  | error e =>
    rw [hb] at hrun
    cases hrun
  | ok dag =>
    rw [hb] at hrun
    exact ⟨dag, rfl, of_decide_eq_true hrun, (hdecides.orders dag hb).2.1⟩

/-! ## A plan too long for the search -/

/-- Ids in their order, each one letter longer. -/
def chainId (i : Nat) : String := String.ofList (List.replicate (i + 1) 'a')

/-- Each chunk depends on the next. -/
def chain (n : Nat) : List Chunk :=
  (List.range n).map (fun i => ⟨chainId i, if i + 1 < n then [chainId (i + 1)] else []⟩)

theorem length_chainId (i : Nat) : (chainId i).length = i + 1 := by
  simp [chainId]

theorem chainId_injective : Function.Injective chainId := by
  intro i j h
  have hlen := congrArg String.length h
  rw [length_chainId, length_chainId] at hlen
  omega

theorem not_chainId_lt_zero (i : Nat) : ¬ chainId i < chainId 0 := by
  rw [String.lt_iff_toList_lt]
  simp [chainId, List.replicate_succ]

theorem map_chunkId_chain (n : Nat) : (chain n).map Chunk.chunkId = (List.range n).map chainId := by
  rw [chain, List.map_map]
  rfl

theorem nodup_chain (n : Nat) : ((chain n).map Chunk.chunkId).Nodup := by
  rw [map_chunkId_chain]
  exact List.nodup_range.map chainId_injective

theorem dependsOn_chain {n : Nat} {a b : String} :
    DependsOn (chain n) a b ↔ ∃ i, i + 1 < n ∧ a = chainId i ∧ b = chainId (i + 1) := by
  constructor
  · rintro ⟨c, hc, rfl, hb⟩
    obtain ⟨i, -, rfl⟩ := List.mem_map.1 hc
    by_cases hi : i + 1 < n
    · refine ⟨i, hi, rfl, ?_⟩
      simpa [hi] using hb
    · simp [hi] at hb
  · rintro ⟨i, hi, rfl, rfl⟩
    refine ⟨_, List.mem_map.2 ⟨i, List.mem_range.2 (by omega), rfl⟩, rfl, ?_⟩
    simp [hi]

theorem listed_chain (n : Nat) : Listed (chain n) := by
  intro a b hab
  obtain ⟨i, hi, -, rfl⟩ := dependsOn_chain.1 hab
  rw [map_chunkId_chain]
  exact List.mem_map_of_mem (List.mem_range.2 hi)

/-- A dependency has the longer id. -/
theorem acyclic_chain (n : Nat) : Acyclic (DependsOn (chain n)) := by
  have hlt : ∀ a b, Relation.TransGen (DependsOn (chain n)) a b → a.length < b.length := by
    intro a b hab
    induction hab with
    | single hab =>
      obtain ⟨i, -, rfl, rfl⟩ := dependsOn_chain.1 hab
      simp [length_chainId]
    | tail _ hbc ih =>
      obtain ⟨i, -, rfl, rfl⟩ := dependsOn_chain.1 hbc
      simp only [length_chainId] at ih ⊢
      omega
  intro x hx
  exact Nat.lt_irrefl _ (hlt x x hx)

/-- Nothing is looked at before the chain goes on. -/
theorem follows_chain (n : Nat) :
    Follows ((chain n).map Chunk.chunkId) (DependsOn (chain n)) ((List.range n).map chainId) := by
  refine ⟨fun v hv => ?_, ?_, List.nodup_range.map chainId_injective, fun x hx => ?_⟩
  · rw [map_chunkId_chain]
    exact List.mem_of_mem_head? hv
  · rw [List.isChain_iff_getElem]
    intro i hi
    simp only [List.getElem_map, List.getElem_range]
    exact dependsOn_chain.2 ⟨i, by simpa using hi, rfl, rfl⟩
  · exfalso
    rcases hx with ⟨hx, v, hv, hlt⟩ | ⟨pre, u, v, post, he, hu, hlt⟩
    · rw [map_chunkId_chain] at hx
      obtain ⟨i, -, rfl⟩ := List.mem_map.1 hx
      cases n with
      | zero => cases hv
      | succ n =>
        rw [List.range_succ_eq_map, List.map_cons] at hv
        cases hv
        exact not_chainId_lt_zero i hlt
    · -- the one dependency of a member is the next member
      obtain ⟨i, hi, rfl, rfl⟩ := dependsOn_chain.1 hu
      have hlen : pre.length + 1 < n := by
        have h := congrArg List.length he
        simp at h
        omega
      have hthis : chainId pre.length = chainId i := by
        have h := congrArg (fun l : List String => l[pre.length]?) he
        simpa [List.getElem?_range (Nat.lt_of_succ_lt hlen)] using h
      have hnext : chainId (pre.length + 1) = v := by
        have h := congrArg (fun l : List String => l[pre.length + 1]?) he
        simpa [List.getElem?_range hlen] using h
      rw [← hnext, chainId_injective hthis] at hlt
      exact lt_irrefl _ hlt

/-- **A plan of one chunk more than there are calls**, each depending on the next: the dependencies are listed and there is
no cycle, and the constructor raises the interpreter's own error. -/
theorem build_chain (limit : Nat) : build limit (chain (limit + 1)) = .error .recursionError :=
  build_of_overflows (nodup_chain _) (listed_chain _) ⟨_, by simp, follows_chain _⟩

/-- CPython stops at a thousand frames, the caller's among them. -/
theorem thousand_chunks_recursionError : Listed (chain 1000) ∧ Acyclic (DependsOn (chain 1000)) ∧
    build 999 (chain 1000) = .error .recursionError ∧ ¬ Decides 999 (chain 1000) := by
  have hraised := build_chain 999
  refine ⟨listed_chain _, acyclic_chain _, hraised, fun h => ?_⟩
  obtain ⟨dag, hdag⟩ := h.accepts.2 ⟨listed_chain _, acyclic_chain _⟩
  rw [hraised] at hdag
  cases hdag

end ChunkDAG

end Engine
end DevHarness
