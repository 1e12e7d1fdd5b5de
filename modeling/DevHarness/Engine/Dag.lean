import DevHarness.Contracts
import DevHarness.Lib.Count
import DevHarness.Lib.Dict
import DevHarness.Lib.Layered
import Mathlib.Data.List.Sort
import Mathlib.Data.String.Basic
import Mathlib.Logic.Function.Basic
import Mathlib.Logic.Relation
/-!
# Dag — the chunk graph and its order (`engine/dag.py`)

`ChunkDAG.build` keeps the last chunk of each id, refuses unknown dependencies and cycles, and orders the rest by Kahn's
algorithm.  The depth-first search finishes a chunk only after its dependencies (`findCycle_eq_nil`), so a graph that is
accepted has a layered list of its ids; on such a graph Kahn's order names every id once (`kahn_spec`).  The search is
recursive, and `limit` is how many nested calls of it the interpreter has room for.
-/
namespace DevHarness
namespace Engine

open Lib (Dict Layered)

def sorted (l : List String) : List String := l.insertionSort (· ≤ ·)

theorem sorted_perm (l : List String) : (sorted l).Perm l := List.perm_insertionSort _ l

theorem pairwise_sorted (l : List String) : (sorted l).Pairwise (· ≤ ·) := List.pairwise_insertionSort _ l

theorem mem_sorted {l : List String} {x : String} : x ∈ sorted l ↔ x ∈ l := (sorted_perm l).mem_iff

/-! ## `_find_cycle` -/

inductive Color where
  | white
  | grey
  | black
  deriving DecidableEq, Repr

structure Search where
  color : String → Color
  path : List String

def Search.enter (s : Search) (node : String) : Search := ⟨Function.update s.color node .grey, s.path ++ [node]⟩

def Search.leave (s : Search) (node : String) : Search := ⟨Function.update s.color node .black, s.path.dropLast⟩

@[simp] theorem Search.path_enter (s : Search) (node : String) : (s.enter node).path = s.path ++ [node] := rfl

@[simp] theorem Search.color_enter_self (s : Search) (node : String) : (s.enter node).color node = .grey :=
  Function.update_self _ _ _

@[simp] theorem Search.color_enter_of_ne (s : Search) {node v : String} (h : v ≠ node) :
    (s.enter node).color v = s.color v := Function.update_of_ne h _ _

@[simp] theorem Search.path_leave (s : Search) (node : String) : (s.leave node).path = s.path.dropLast := rfl

@[simp] theorem Search.color_leave_self (s : Search) (node : String) : (s.leave node).color node = .black :=
  Function.update_self _ _ _

@[simp] theorem Search.color_leave_of_ne (s : Search) {node v : String} (h : v ≠ node) :
    (s.leave node).color v = s.color v := Function.update_of_ne h _ _

def visitDeps (visit : String → Search → Option (List String × Search)) :
    List String → Search → Option (List String × Search)
  | [], s => some ([], s)
  | dep :: deps, s =>
    match s.color dep with
    | .grey => some (s.path.drop (s.path.idxOf dep), s)
    | .white => (visit dep s).bind fun found => if found.1 = [] then visitDeps visit deps found.2 else some found
    | .black => visitDeps visit deps s

/-- `visit`: a cycle, or `[]` with the node turned black.  `none` is the `RecursionError` of a call nested deeper than the
interpreter lets it: `limit` is how many calls it still has room for. -/
def visit (adj : String → List String) : Nat → String → Search → Option (List String × Search)
  | 0, _, _ => none
  | limit + 1, node, s =>
    (visitDeps (visit adj limit) (adj node) (s.enter node)).map
      fun found => if found.1 = [] then ([], found.2.leave node) else found

def visitAll (visit : String → Search → Option (List String × Search)) : List String → Search → Option (List String)
  | [], _ => some []
  | node :: nodes, s =>
    if s.color node = .white then
      (visit node s).bind fun found => if found.1 = [] then visitAll visit nodes found.2 else some found.1
    else visitAll visit nodes s

/-- `_find_cycle`. -/
def findCycle (limit : Nat) (nodes : List String) (adj : String → List String) : Option (List String) :=
  visitAll (visit adj limit) (sorted nodes) ⟨fun _ => .white, []⟩

/-- `a` lists `b` in an adjacency. -/
def Lists (adj : String → List String) (a b : String) : Prop := b ∈ adj a

/-- The search is done with a dependency and goes on: it was black, or a visit found no cycle from it. -/
def Passes (visit : String → Search → Option (List String × Search)) (dep : String) (s s' : Search) : Prop :=
  s.color dep = .black ∧ s' = s ∨ s.color dep = .white ∧ visit dep s = some ([], s')

/-- **A dependency looked at**: a grey one closes a cycle, the visit of a white one ends the search, or it is passed. -/
theorem visitDeps_cons (visit : String → Search → Option (List String × Search)) (dep : String) (deps : List String)
    (s : Search) :
    (s.color dep = .grey ∧ visitDeps visit (dep :: deps) s = some (s.path.drop (s.path.idxOf dep), s)) ∨
    (s.color dep = .white ∧ (∀ s', visit dep s ≠ some ([], s')) ∧ visitDeps visit (dep :: deps) s = visit dep s) ∨
    ∃ s', Passes visit dep s s' ∧ visitDeps visit (dep :: deps) s = visitDeps visit deps s' := by
  rw [visitDeps]
  cases hc : s.color dep with
  | grey => exact Or.inl ⟨rfl, rfl⟩
  | black => exact Or.inr (Or.inr ⟨s, Or.inl ⟨hc, rfl⟩, rfl⟩)
  | white =>
    dsimp only
    cases hv : visit dep s with
    | none => exact Or.inr (Or.inl ⟨rfl, fun s' h => (by cases h), rfl⟩)
    | some found =>
      obtain ⟨cycle, s'⟩ := found
      by_cases hnil : cycle = []
      · subst hnil
        exact Or.inr (Or.inr ⟨s', Or.inr ⟨hc, hv⟩, rfl⟩)
      · refine Or.inr (Or.inl ⟨rfl, fun t h => hnil ?_, ?_⟩)
        · exact congrArg Prod.fst (Option.some.inj h)
        · exact if_neg hnil

/-- **The search so far**: the black nodes in the order they were finished, dependencies first, and the grey ones on the
path. -/
structure Finished (adj : String → List String) (s : Search) (post : List String) : Prop where
  black : ∀ v, s.color v = .black ↔ v ∈ post
  layered : Layered adj post
  grey : ∀ v, s.color v = .grey → v ∈ s.path

theorem Finished.start (adj : String → List String) : Finished adj ⟨fun _ => .white, []⟩ [] :=
  ⟨fun v => by simp, Lib.layered_nil adj, fun v hv => by cases hv⟩

/-- A white node is not finished. -/
theorem Finished.notMem {adj : String → List String} {s : Search} {post : List String} {node : String}
    (hf : Finished adj s post) (hc : s.color node = .white) : node ∉ post := by
  intro hm
  rw [(hf.black node).2 hm] at hc
  cases hc

/-- A white node turned grey joins the path. -/
theorem Finished.enter {adj : String → List String} {s : Search} {post : List String} {node : String}
    (hf : Finished adj s post) (hc : s.color node = .white) : Finished adj (s.enter node) post := by
  refine ⟨fun v => ?_, hf.layered, fun v hv => ?_⟩
  · by_cases hvn : v = node
    · subst hvn
      simp [hf.notMem hc]
    · simp [hvn, hf.black v]
  · by_cases hvn : v = node
    · simp [hvn]
    · rw [Search.color_enter_of_ne s hvn] at hv
      simp [hf.grey v hv]

/-- **A search that found no cycle** has finished some nodes and what they reach, and left the path and the grey nodes
alone. -/
structure Extends (adj : String → List String) (s s' : Search) (post post' done : List String) : Prop where
  finished : Finished adj s' post'
  kept : ∀ v ∈ post, v ∈ post'
  all : ∀ v ∈ done, v ∈ post'
  reached : ∀ v ∈ post', v ∈ post ∨ ∃ d ∈ done, Relation.ReflTransGen (Lists adj) d v
  path : s'.path = s.path
  grey : ∀ v, s'.color v = .grey ↔ s.color v = .grey

theorem Extends.refl {adj : String → List String} {s : Search} {post : List String} (hf : Finished adj s post) :
    Extends adj s s post post [] :=
  ⟨hf, fun _ hv => hv, by simp, fun _ hv => Or.inl hv, rfl, fun _ => Iff.rfl⟩

/-- What is white afterwards was white before. -/
theorem Extends.white {adj : String → List String} {s s' : Search} {post post' done : List String}
    (hf : Finished adj s post) (h : Extends adj s s' post post' done) {v : String} (hv : s'.color v = .white) :
    s.color v = .white := by
  cases hc : s.color v with
  | white => rfl
  | grey =>
    rw [(h.grey v).2 hc] at hv
    cases hv
  | black => exact absurd (h.kept v ((hf.black v).1 hc)) (h.finished.notMem hv)

theorem Extends.cons {adj : String → List String} {s s₁ s₂ : Search} {post post₁ post₂ deps : List String} {dep : String}
    (h₁ : Extends adj s s₁ post post₁ [dep]) (h₂ : Extends adj s₁ s₂ post₁ post₂ deps) :
    Extends adj s s₂ post post₂ (dep :: deps) where
  finished := h₂.finished
  kept := fun v hv => h₂.kept v (h₁.kept v hv)
  all := List.forall_mem_cons.2 ⟨h₂.kept dep (h₁.all dep List.mem_cons_self), h₂.all⟩
  reached := fun v hv => by
    rcases h₂.reached v hv with hv | ⟨d, hd, hreach⟩
    · rcases h₁.reached v hv with hv | ⟨d, hd, hreach⟩
      · exact Or.inl hv
      · exact Or.inr ⟨d, by simp [List.mem_singleton.1 hd], hreach⟩
    · exact Or.inr ⟨d, List.mem_cons_of_mem _ hd, hreach⟩
  path := h₂.path.trans h₁.path
  grey := fun v => (h₂.grey v).trans (h₁.grey v)

/-- A node whose dependencies are finished is finished when it is left. -/
theorem Extends.leave {adj : String → List String} {s t : Search} {post post' : List String} {node : String}
    (hc : s.color node = .white) (h : Extends adj (s.enter node) t post post' (adj node)) :
    Extends adj s (t.leave node) post (post' ++ [node]) [node] := by
  refine ⟨⟨fun v => ?_, h.finished.layered.snoc h.all, fun v hv => ?_⟩, fun v hv => List.mem_append_left _ (h.kept v hv),
    by simp, fun v hv => ?_, by simp [h.path], fun v => ?_⟩
  · by_cases hvn : v = node
    · simp [hvn]
    · simp [hvn, h.finished.black v]
  · have hvn : v ≠ node := by
      rintro rfl
      simp at hv
    rw [Search.color_leave_of_ne t hvn] at hv
    have hm := h.finished.grey v hv
    rw [h.path] at hm
    simpa [h.path, hvn] using hm
  · rcases List.mem_append.1 hv with hv | hv
    · rcases h.reached v hv with hv | ⟨d, hd, hreach⟩
      · exact Or.inl hv
      · exact Or.inr ⟨node, List.mem_cons_self, hreach.head hd⟩
    · rw [List.mem_singleton.1 hv]
      exact Or.inr ⟨node, List.mem_cons_self, Relation.ReflTransGen.refl⟩
  · by_cases hvn : v = node
    · simp [hvn, hc]
    · rw [Search.color_leave_of_ne t hvn, h.grey v, Search.color_enter_of_ne s hvn]

/-- What a visit that finds no cycle does: its node is finished. -/
def Visits (adj : String → List String) (visit : String → Search → Option (List String × Search)) : Prop :=
  ∀ (node : String) (s s' : Search) (post : List String), Finished adj s post → s.color node = .white →
    visit node s = some ([], s') → ∃ post', Extends adj s s' post post' [node]

theorem Visits.passes {adj : String → List String} {visit : String → Search → Option (List String × Search)}
    (hvisit : Visits adj visit) {dep : String} {s s' : Search} {post : List String} (hf : Finished adj s post)
    (h : Passes visit dep s s') : ∃ post', Extends adj s s' post post' [dep] := by
  rcases h with ⟨hc, rfl⟩ | ⟨hc, hv⟩
  · exact ⟨post, hf, fun _ hv => hv, by simpa using (hf.black dep).1 hc, fun _ hv => Or.inl hv, rfl, fun _ => Iff.rfl⟩
  · exact hvisit dep s s' post hf hc hv

/-- A grey dependency is on the path, so the cycle reported is not empty. -/
theorem Finished.drop_ne_nil {adj : String → List String} {s : Search} {post : List String} (hf : Finished adj s post)
    {dep : String} (hc : s.color dep = .grey) : s.path.drop (s.path.idxOf dep) ≠ [] := by
  have hlt := List.idxOf_lt_length_iff.2 (hf.grey dep hc)
  rw [Ne, List.drop_eq_nil_iff]
  omega

theorem visitDeps_extends {adj : String → List String} {visit : String → Search → Option (List String × Search)}
    (hvisit : Visits adj visit) : ∀ (deps : List String) (s s' : Search) (post : List String), Finished adj s post →
      visitDeps visit deps s = some ([], s') → ∃ post', Extends adj s s' post post' deps
  | [], s, s', post, hf, h => by
    cases h
    exact ⟨post, Extends.refl hf⟩
  | dep :: deps, s, s', post, hf, h => by
    rcases visitDeps_cons visit dep deps s with ⟨hc, he⟩ | ⟨-, hne, he⟩ | ⟨s₁, hpass, he⟩
    · rw [he] at h
      exact absurd (congrArg Prod.fst (Option.some.inj h)) (hf.drop_ne_nil hc)
    · rw [he] at h
      exact absurd h (hne s')
    · rw [he] at h
      obtain ⟨post₁, h₁⟩ := hvisit.passes hf hpass
      obtain ⟨post₂, h₂⟩ := visitDeps_extends hvisit deps s₁ s' post₁ h₁.finished h
      exact ⟨post₂, h₁.cons h₂⟩

theorem visit_eq_nil {adj : String → List String} {limit : Nat} {node : String} {s s' : Search}
    (h : visit adj (limit + 1) node s = some ([], s')) :
    ∃ t, visitDeps (visit adj limit) (adj node) (s.enter node) = some ([], t) ∧ s' = t.leave node := by
  rw [visit] at h
  obtain ⟨⟨cycle, t⟩, ht, he⟩ := Option.map_eq_some_iff.1 h
  by_cases hnil : cycle = []
  · subst hnil
    exact ⟨t, ht, (congrArg Prod.snd he).symm⟩
  · rw [if_neg hnil] at he
    exact absurd (congrArg Prod.fst he) hnil

theorem visit_eq_cycle {adj : String → List String} {limit : Nat} {node : String} {s s' : Search} {cycle : List String}
    (hne : cycle ≠ []) (h : visit adj (limit + 1) node s = some (cycle, s')) :
    visitDeps (visit adj limit) (adj node) (s.enter node) = some (cycle, s') := by
  rw [visit] at h
  obtain ⟨⟨found, t⟩, ht, he⟩ := Option.map_eq_some_iff.1 h
  by_cases hnil : found = []
  · rw [if_pos hnil] at he
    exact absurd (congrArg Prod.fst he).symm hne
  · rw [if_neg hnil] at he
    rw [ht, he]

/-- **A visit that returns no cycle** has finished its node, dependencies first. -/
theorem visit_extends (adj : String → List String) : ∀ limit, Visits adj (visit adj limit)
  | 0, _, _, _, _, _, _, h => by cases h
  | limit + 1, node, s, s', post, hf, hc, h => by
    obtain ⟨t, ht, rfl⟩ := visit_eq_nil h
    obtain ⟨post', hext⟩ := visitDeps_extends (visit_extends adj limit) (adj node) _ t post (hf.enter hc) ht
    exact ⟨post' ++ [node], hext.leave hc⟩

/-- With no node grey, the roots are looked at as dependencies are. -/
theorem visitAll_eq (adj : String → List String) (limit : Nat) : ∀ (nodes : List String) (s : Search) (post : List String),
    Finished adj s post → (∀ v, s.color v ≠ .grey) →
      visitAll (visit adj limit) nodes s = (visitDeps (visit adj limit) nodes s).map Prod.fst
  | [], _, _, _, _ => rfl
  | node :: nodes, s, post, hf, hg => by
    rw [visitAll, visitDeps]
    cases hc : s.color node with
    | grey => exact absurd hc (hg node)
    | black => exact visitAll_eq adj limit nodes s post hf hg
    | white =>
      rw [if_pos rfl]
      dsimp only
      cases hv : visit adj limit node s with
      | none => rfl
      | some found =>
        obtain ⟨cycle, s'⟩ := found
        rw [Option.bind_some, Option.bind_some]
        by_cases hnil : cycle = []
        · subst hnil
          obtain ⟨post', hext⟩ := visit_extends adj limit node s s' post hf hc hv
          exact visitAll_eq adj limit nodes s' post' hext.finished (fun v hv => hg v ((hext.grey v).1 hv))
        · rw [if_neg hnil, if_neg hnil]
          rfl

theorem findCycle_eq (limit : Nat) (nodes : List String) (adj : String → List String) : findCycle limit nodes adj =
    (visitDeps (visit adj limit) (sorted nodes) ⟨fun _ => .white, []⟩).map Prod.fst :=
  visitAll_eq adj limit _ _ [] (Finished.start adj) (fun v hv => by cases hv)

/-- **No cycle found, no cycle there**: some list names every node after its dependencies. -/
theorem findCycle_eq_nil {limit : Nat} {nodes : List String} {adj : String → List String}
    (h : findCycle limit nodes adj = some []) : ∃ post, Layered adj post ∧ ∀ v ∈ nodes, v ∈ post := by
  rw [findCycle_eq] at h
  obtain ⟨⟨cycle, s'⟩, hs, rfl⟩ := Option.map_eq_some_iff.1 h
  obtain ⟨post, hext⟩ := visitDeps_extends (visit_extends adj limit) _ _ s' [] (Finished.start adj) hs
  exact ⟨post, hext.finished.layered, fun v hv => hext.all v (mem_sorted.2 hv)⟩

/-! ## `_compute_order` -/

def dependentsOf (nodes : List String) (adj : String → List String) (node : String) : List String :=
  nodes.flatMap (fun cid => List.replicate ((adj cid).count node) cid)

/-- Emitting a node: each dependent loses one unmet dependency, and is ready when none is left. -/
def emit : List String → (String → Nat) → List String → (String → Nat) × List String
  | [], indegree, ready => (indegree, ready)
  | dependent :: dependents, indegree, ready =>
    let left := indegree dependent - 1
    emit dependents (Function.update indegree dependent left) (if left = 0 then ready ++ [dependent] else ready)

/-- The `while ready` loop; the fuel is the number of nodes not yet emitted. -/
def kahn (dependents : String → List String) : Nat → List String → (String → Nat) → List String → List String
  | 0, _, _, order => order
  | _ + 1, [], _, order => order
  | fuel + 1, node :: ready, indegree, order =>
    let emitted := emit (dependents node) indegree ready
    kahn dependents fuel (sorted emitted.2) emitted.1 (order ++ [node])

/-- `_compute_order`. -/
def computeOrder (nodes : List String) (adj : String → List String) : List String :=
  kahn (dependentsOf nodes adj) nodes.length (sorted (nodes.filter (fun cid => (adj cid).length = 0)))
    (fun cid => (adj cid).length) []

theorem count_dependentsOf (adj : String → List String) (node v : String) : ∀ {nodes : List String}, nodes.Nodup →
    (dependentsOf nodes adj node).count v = if v ∈ nodes then (adj v).count node else 0
  | [], _ => by simp [dependentsOf]
  | a :: nodes, hn => by
    rw [List.nodup_cons] at hn
    have ih := count_dependentsOf adj node v hn.2
    rw [dependentsOf, List.flatMap_cons, List.count_append, ← dependentsOf, ih, List.count_replicate]
    by_cases hv : a = v
    · subst hv
      simp [hn.1]
    · simp [hv, Ne.symm hv]

theorem mem_dependentsOf {nodes : List String} {adj : String → List String} {node v : String} (hn : nodes.Nodup) :
    v ∈ dependentsOf nodes adj node ↔ v ∈ nodes ∧ node ∈ adj v := by
  rw [← List.count_pos_iff, count_dependentsOf adj node v hn]
  split <;> simp [*]

/-- One dependent emitted, the others are still counted and not yet ready. -/
theorem emit_pre {a : String} {dependents ready : List String} {indegree : String → Nat}
    (h : ∀ v ∈ a :: dependents, (a :: dependents).count v ≤ indegree v ∧ v ∉ ready) :
    ∀ v ∈ dependents, dependents.count v ≤ Function.update indegree a (indegree a - 1) v ∧
      v ∉ (if indegree a - 1 = 0 then ready ++ [a] else ready) := by
  intro v hv
  obtain ⟨hvc, hvr⟩ := h v (List.mem_cons_of_mem _ hv)
  have hpos := List.count_pos_iff.2 hv
  by_cases hva : v = a
  · subst hva
    rw [List.count_cons_self] at hvc
    rw [Function.update_self, if_neg (by omega)]
    exact ⟨by omega, hvr⟩
  · rw [List.count_cons_of_ne (Ne.symm hva)] at hvc
    rw [Function.update_of_ne hva]
    refine ⟨hvc, ?_⟩
    split
    · simp [hvr, hva]
    · exact hvr

/-- **Emitting** lowers each count by its occurrences, and makes ready just what it brings to zero. -/
theorem emit_spec : ∀ (dependents : List String) (indegree : String → Nat) (ready : List String),
    (∀ v ∈ dependents, dependents.count v ≤ indegree v ∧ v ∉ ready) → ready.Nodup →
    (∀ v, (emit dependents indegree ready).1 v = indegree v - dependents.count v) ∧
    (emit dependents indegree ready).2.Nodup ∧
    ∀ v, v ∈ (emit dependents indegree ready).2 ↔ v ∈ ready ∨ (v ∈ dependents ∧ indegree v = dependents.count v)
  | [], indegree, ready, _, hn => ⟨fun v => rfl, hn, fun v => by simp [emit]⟩
  | a :: dependents, indegree, ready, h, hn => by
    have ha := h a List.mem_cons_self
    rw [List.count_cons_self] at ha
    have hn' : (if indegree a - 1 = 0 then ready ++ [a] else ready).Nodup := by
      split
      · exact List.nodup_append.2 ⟨hn, by simp, fun x hx y hy he => by
          rw [List.mem_singleton] at hy
          exact ha.2 (hy ▸ he ▸ hx)⟩
      · exact hn
    obtain ⟨hdeg, hnodup, hmem⟩ := emit_spec dependents _ _ (emit_pre h) hn'
    rw [emit]
    refine ⟨fun v => ?_, hnodup, fun v => ?_⟩
    · rw [hdeg v]
      by_cases hva : v = a
      · subst hva
        rw [Function.update_self, List.count_cons_self]
        omega
      · rw [Function.update_of_ne hva, List.count_cons_of_ne (Ne.symm hva)]
    · rw [hmem v]
      by_cases hva : v = a
      · subst hva
        rw [Function.update_self, List.count_cons_self]
        by_cases hlast : indegree v - 1 = 0
        · rw [if_pos hlast]
          simp only [List.mem_append, List.mem_cons, true_or, true_and, or_true, true_iff]
          right
          omega
        · rw [if_neg hlast]
          by_cases hvd : v ∈ dependents
          · have hcount : indegree v - 1 = dependents.count v ↔ indegree v = dependents.count v + 1 := by omega
            simp only [hvd, hcount, true_and, List.mem_cons, true_or]
          · have := List.count_eq_zero_of_not_mem hvd
            simp only [hvd, false_and, or_false, List.mem_cons, true_and]
            constructor
            · exact Or.inl
            · rintro (hr | he)
              · exact hr
              · omega
      · rw [Function.update_of_ne hva, List.count_cons_of_ne (Ne.symm hva)]
        have hready : v ∈ (if indegree a - 1 = 0 then ready ++ [a] else ready) ↔ v ∈ ready := by
          split
          · simp [hva]
          · exact Iff.rfl
        rw [hready]
        simp [hva]

/-- **Kahn's loop**: emitted and ready nodes are apart, each emitted after its dependencies, and the counts are of the
dependencies not yet emitted. -/
structure Emitting (nodes : List String) (adj : String → List String) (ready : List String) (indegree : String → Nat)
    (order : List String) : Prop where
  nodup : (order ++ ready).Nodup
  mem : ∀ v ∈ order ++ ready, v ∈ nodes
  layered : Layered adj order
  unmet : ∀ v ∈ nodes, indegree v = (adj v).countP (fun d => d ∉ order)
  isReady : ∀ v ∈ nodes, v ∉ order → (v ∈ ready ↔ indegree v = 0)

theorem Emitting.init (nodes : List String) (adj : String → List String) (hn : nodes.Nodup) :
    Emitting nodes adj (sorted (nodes.filter (fun cid => (adj cid).length = 0))) (fun cid => (adj cid).length) [] := by
  refine ⟨?_, fun v hv => ?_, Lib.layered_nil adj, fun v _ => ?_, fun v hv _ => ?_⟩
  · rw [List.nil_append, (sorted_perm _).nodup_iff]
    exact hn.filter _
  · rw [List.nil_append, mem_sorted] at hv
    exact (List.mem_filter.1 hv).1
  · simp
  · rw [mem_sorted, List.mem_filter]
    simp [hv]

theorem Emitting.met {nodes ready order : List String} {adj : String → List String} {indegree : String → Nat}
    (h : Emitting nodes adj ready indegree order) {v : String} (hv : v ∈ nodes) (hz : indegree v = 0) :
    ∀ d ∈ adj v, d ∈ order := by
  rw [h.unmet v hv, List.countP_eq_zero] at hz
  intro d hd
  simpa using hz d hd

theorem Emitting.notMem_order {nodes ready order : List String} {adj : String → List String} {indegree : String → Nat}
    (h : Emitting nodes adj ready indegree order) {v : String} (hv : v ∈ ready) : v ∉ order :=
  fun hm => (List.nodup_append.1 h.nodup).2.2 v hm v hv rfl

/-- The node to emit next, all of whose dependencies are emitted. -/
theorem Emitting.head {nodes ready order : List String} {node : String} {adj : String → List String}
    {indegree : String → Nat} (h : Emitting nodes adj (node :: ready) indegree order) :
    node ∈ nodes ∧ ∀ d ∈ adj node, d ∈ order := by
  have hnode : node ∈ nodes := h.mem node (by simp)
  exact ⟨hnode, h.met hnode ((h.isReady node hnode (h.notMem_order List.mem_cons_self)).1 List.mem_cons_self)⟩

/-- A dependent of the next node is neither emitted, since its dependencies would have come first, nor the node. -/
theorem Emitting.dependent {nodes ready order : List String} {node : String} {adj : String → List String}
    {indegree : String → Nat} (h : Emitting nodes adj (node :: ready) indegree order) {v : String} (hv : node ∈ adj v) :
    v ∉ order ∧ v ≠ node := by
  have hnode := h.notMem_order (List.mem_cons_self (a := node))
  refine ⟨fun hm => ?_, fun he => ?_⟩
  · obtain ⟨pre, post, hsp⟩ := List.append_of_mem hm
    have hpre := h.layered pre v post hsp node hv
    exact hnode (hsp ▸ List.mem_append_left _ hpre)
  · subst he
    exact hnode (h.head.2 v hv)

/-- **What emitting the next node does to the counts and the ready nodes.** -/
theorem Emitting.emitted {nodes ready order : List String} {node : String} {adj : String → List String}
    {indegree : String → Nat} (hn : nodes.Nodup) (h : Emitting nodes adj (node :: ready) indegree order) :
    (∀ v ∈ nodes, (emit (dependentsOf nodes adj node) indegree ready).1 v =
      (adj v).countP (fun d => d ∉ order ++ [node])) ∧
    (emit (dependentsOf nodes adj node) indegree ready).2.Nodup ∧
    ∀ v, v ∈ (emit (dependentsOf nodes adj node) indegree ready).2 ↔
      v ∈ ready ∨ v ∈ nodes ∧ node ∈ adj v ∧ (adj v).countP (fun d => d ∉ order ++ [node]) = 0 := by
  have hsplit : ∀ v ∈ nodes, indegree v = (adj v).count node + (adj v).countP (fun d => d ∉ order ++ [node]) := by
    intro v hv
    rw [h.unmet v hv, Lib.countP_notMem_snoc (h.notMem_order List.mem_cons_self)]
  have hcount : ∀ v ∈ nodes, (dependentsOf nodes adj node).count v = (adj v).count node := by
    intro v hv
    rw [count_dependentsOf adj node v hn, if_pos hv]
  have hpre : ∀ v ∈ dependentsOf nodes adj node, (dependentsOf nodes adj node).count v ≤ indegree v ∧ v ∉ ready := by
    intro v hv
    obtain ⟨hvn, hnv⟩ := (mem_dependentsOf hn).1 hv
    have hs := hsplit v hvn
    rw [hcount v hvn]
    refine ⟨by omega, fun hr => ?_⟩
    have hz := (h.isReady v hvn (h.dependent hnv).1).1 (List.mem_cons_of_mem _ hr)
    have hpos := List.count_pos_iff.2 hnv
    omega
  obtain ⟨hdeg, hnodup, hmem⟩ := emit_spec _ indegree ready hpre
    (List.nodup_cons.1 (List.nodup_append.1 h.nodup).2.1).2
  refine ⟨fun v hv => ?_, hnodup, fun v => ?_⟩
  · rw [hdeg v, hcount v hv, hsplit v hv]
    omega
  · rw [hmem, mem_dependentsOf hn, and_assoc]
    refine or_congr_right (and_congr_right fun hv => and_congr_right fun _ => ?_)
    rw [hcount v hv, hsplit v hv]
    omega

theorem Emitting.step {nodes ready order : List String} {node : String} {adj : String → List String}
    {indegree : String → Nat} (hn : nodes.Nodup) (h : Emitting nodes adj (node :: ready) indegree order) :
    Emitting nodes adj (sorted (emit (dependentsOf nodes adj node) indegree ready).2)
      (emit (dependentsOf nodes adj node) indegree ready).1 (order ++ [node]) := by
  obtain ⟨hnode, hmet⟩ := h.head
  obtain ⟨hdeg, hnodup, hmem⟩ := h.emitted hn
  have hparts := List.nodup_append.1 h.nodup
  refine ⟨?_, fun v hv => ?_, h.layered.snoc hmet, hdeg, fun v hv hvo => ?_⟩
  · rw [((sorted_perm _).append_left _).nodup_iff, List.append_assoc]
    refine List.nodup_append.2 ⟨hparts.1, List.nodup_cons.2 ⟨fun hm => ?_, hnodup⟩, fun x hx y hy he => ?_⟩
    · rcases (hmem node).1 hm with hr | ⟨-, hd, -⟩
      · exact (List.nodup_cons.1 hparts.2.1).1 hr
      · exact (h.dependent hd).2 rfl
    · subst he
      rcases List.mem_cons.1 hy with rfl | hy
      · exact h.notMem_order List.mem_cons_self hx
      · rcases (hmem x).1 hy with hr | ⟨-, hd, -⟩
        · exact h.notMem_order (List.mem_cons_of_mem _ hr) hx
        · exact (h.dependent hd).1 hx
  · rw [List.mem_append, List.mem_append, mem_sorted, hmem, List.mem_singleton] at hv
    rcases hv with (hv | rfl) | hv | ⟨hv, -⟩
    · exact h.mem v (List.mem_append_left _ hv)
    · exact hnode
    · exact h.mem v (by simp [hv])
    · exact hv
  · rw [List.mem_append, List.mem_singleton, not_or] at hvo
    have hready := h.isReady v hv hvo.1
    rw [List.mem_cons, or_iff_right hvo.2, h.unmet v hv,
      Lib.countP_notMem_snoc (h.notMem_order List.mem_cons_self)] at hready
    rw [mem_sorted, hmem, hdeg v hv, hready]
    constructor
    · rintro (hz | ⟨-, -, hz⟩)
      · omega
      · exact hz
    · intro hz
      by_cases hin : node ∈ adj v
      · exact Or.inr ⟨hv, hin, hz⟩
      · have hnone := List.count_eq_zero_of_not_mem hin
        exact Or.inl (by omega)

/-- **Kahn's loop emits everything** on a graph some list layers. -/
theorem kahn_spec {nodes : List String} {adj : String → List String} (hn : nodes.Nodup)
    (hclosed : ∀ v ∈ nodes, ∀ d ∈ adj v, d ∈ nodes)
    (hacyclic : ∃ post, Layered adj post ∧ ∀ v ∈ nodes, v ∈ post) : ∀ (fuel : Nat) (ready : List String)
      (indegree : String → Nat) (order : List String), Emitting nodes adj ready indegree order →
      order.length + fuel = nodes.length →
      (kahn (dependentsOf nodes adj) fuel ready indegree order).Perm nodes ∧
        Layered adj (kahn (dependentsOf nodes adj) fuel ready indegree order)
  | fuel, [], indegree, order, h, hlen => by
    have hkahn : kahn (dependentsOf nodes adj) fuel [] indegree order = order := by cases fuel <;> rfl
    have hon : order.Nodup := by simpa using h.nodup
    rw [hkahn]
    refine ⟨(List.perm_ext_iff_of_nodup hon hn).2 (fun v => ⟨fun hv => h.mem v (by simp [hv]), fun hv => ?_⟩), h.layered⟩
    -- a least node left over would have been ready
    by_contra hvo
    obtain ⟨post, hl, hall⟩ := hacyclic
    obtain ⟨w, -, ⟨hwn, hwo⟩, hleast⟩ := hl.exists_least (fun w => w ∈ nodes ∧ w ∉ order) ⟨v, hall v hv, hv, hvo⟩
    have hpos : indegree w ≠ 0 := fun hz => by cases (h.isReady w hwn hwo).2 hz
    rw [h.unmet w hwn, ← Nat.pos_iff_ne_zero, List.countP_pos_iff] at hpos
    obtain ⟨d, hd, hdo⟩ := hpos
    exact hleast d hd ⟨hclosed w hwn d hd, by simpa using hdo⟩
  | 0, node :: ready, indegree, order, h, hlen => by
    have hle := (List.subperm_of_subset h.nodup h.mem).length_le
    rw [List.length_append, List.length_cons] at hle
    omega
  | fuel + 1, node :: ready, indegree, order, h, hlen => by
    rw [kahn]
    exact kahn_spec hn hclosed hacyclic fuel _ _ _ (h.step hn) (by simp; omega)

/-! ## `ChunkDAG` -/

/-- A chunk object: its place in the list the graph was built from, and its fields. -/
structure ChunkObject where
  ref : Nat
  chunk : Chunk
  deriving DecidableEq

inductive DagError where
  | orphanDependency (chunkId dep : String)
  | cyclicDependency (cycle : List String)
  -- the interpreter's own, out of `_find_cycle`
  | recursionError
  deriving DecidableEq, Repr

/-- Both errors of `ChunkDAG`'s own are; the interpreter's is not. -/
def DagError.isEngineError : DagError → Bool
  | .recursionError => false
  | _ => true

def DagError.message : DagError → String
  | .orphanDependency chunkId dep => "Chunk '" ++ chunkId ++ "' depends on unknown chunk '" ++ dep ++ "'."
  | .cyclicDependency cycle =>
    let first := cycle.headD ""
    let second := (cycle.tail).headD first
    "Cycle detected between chunks '" ++ first ++ "' and '" ++ second ++ "' (" ++
      String.intercalate " -> " (cycle ++ [first]) ++ ")."
  | .recursionError => "maximum recursion depth exceeded"

/-- A validated graph: the last chunk of each id, and the order of the ids. -/
structure ChunkDAG where
  chunks : Dict String ChunkObject
  order : List String

def chunksById (chunks : List Chunk) : Dict String ChunkObject :=
  Dict.ofList (chunks.zipIdx.map (fun p => (p.1.chunkId, ⟨p.2, p.1⟩)))

def adjacency (chunks : Dict String ChunkObject) (chunkId : String) : List String :=
  match chunks.get? chunkId with
  | some c => sorted c.chunk.dependencies
  | none => []

/-- `_validate_orphans`: the first unknown dependency, ids and dependencies in sorted order. -/
def findOrphan (chunks : Dict String ChunkObject) : Option (String × String) :=
  (sorted chunks.keys).findSome? (fun cid =>
    ((adjacency chunks cid).find? (fun dep => dep ∉ chunks.keys)).map (fun dep => (cid, dep)))

/-- `ChunkDAG(chunks)`. -/
def ChunkDAG.build (limit : Nat) (chunks : List Chunk) : Except DagError ChunkDAG :=
  let byId := chunksById chunks
  match findOrphan byId with
  | some (cid, dep) => .error (.orphanDependency cid dep)
  | none =>
    match findCycle limit byId.keys (adjacency byId) with
    | none => .error .recursionError
    | some [] => .ok ⟨byId, computeOrder byId.keys (adjacency byId)⟩
    | some cycle => .error (.cyclicDependency cycle)

theorem mem_adjacency {chunks : Dict String ChunkObject} {cid dep : String} :
    dep ∈ adjacency chunks cid ↔ ∃ c, chunks.get? cid = some c ∧ dep ∈ c.chunk.dependencies := by
  unfold adjacency
  cases chunks.get? cid with
  | none => simp
  | some c => simp [mem_sorted]

theorem get?_chunksById {chunks : List Chunk} {cid : String} {c : ChunkObject}
    (h : (chunksById chunks).get? cid = some c) : chunks[c.ref]? = some c.chunk ∧ c.chunk.chunkId = cid := by
  have hm := Dict.mem_of_get?_ofList h
  obtain ⟨⟨chunk, i⟩, hp, he⟩ := List.mem_map.1 hm
  obtain ⟨rfl, rfl⟩ := Prod.mk.inj he
  exact ⟨List.mem_zipIdx_iff_getElem?.1 hp, rfl⟩

theorem get?_chunksById_of_nodup {chunks : List Chunk} (hn : (chunks.map Chunk.chunkId).Nodup) {i : Nat} {c : Chunk}
    (h : chunks[i]? = some c) : (chunksById chunks).get? c.chunkId = some ⟨i, c⟩ := by
  refine Dict.get?_ofList_of_nodup ?_ (List.mem_map.2 ⟨(c, i), List.mem_zipIdx_iff_getElem?.2 h, rfl⟩)
  have hfst : (chunks.zipIdx.map (fun p => ((p.1.chunkId, ⟨p.2, p.1⟩) : String × ChunkObject))).map Prod.fst =
      chunks.map Chunk.chunkId := by
    rw [List.map_map]
    conv_rhs => rw [← List.zipIdx_map_fst 0 chunks, List.map_map]
    rfl
  rw [hfst]
  exact hn

theorem exists_get?_chunksById {chunks : List Chunk} {chunk : Chunk} (h : chunk ∈ chunks) :
    ∃ c, (chunksById chunks).get? chunk.chunkId = some c := by
  obtain ⟨i, hi⟩ := List.mem_iff_getElem?.1 h
  have hm : (chunk.chunkId, (⟨i, chunk⟩ : ChunkObject)) ∈
      chunks.zipIdx.map (fun p => ((p.1.chunkId, ⟨p.2, p.1⟩) : String × ChunkObject)) :=
    List.mem_map.2 ⟨(chunk, i), List.mem_zipIdx_iff_getElem?.2 hi, rfl⟩
  cases hget : (chunksById chunks).get? chunk.chunkId with
  | some c => exact ⟨c, rfl⟩
  | none =>
    rw [chunksById, Dict.get?_ofList, Option.map_eq_none_iff, List.find?_eq_none] at hget
    exact absurd (decide_eq_true rfl) (hget _ (List.mem_reverse.2 hm))

theorem findOrphan_eq_none {chunks : Dict String ChunkObject} (h : findOrphan chunks = none) :
    ∀ cid ∈ chunks.keys, ∀ dep ∈ adjacency chunks cid, dep ∈ chunks.keys := by
  intro cid hc dep hd
  have hn := List.findSome?_eq_none_iff.1 h cid (mem_sorted.2 hc)
  rw [Option.map_eq_none_iff, List.find?_eq_none] at hn
  simpa using hn dep hd

/-- **An accepted plan** passed both checks, and what is built of it is nothing else. -/
theorem ChunkDAG.build_eq_ok {limit : Nat} {chunks : List Chunk} {dag : ChunkDAG}
    (h : ChunkDAG.build limit chunks = .ok dag) : findOrphan (chunksById chunks) = none ∧
      findCycle limit (chunksById chunks).keys (adjacency (chunksById chunks)) = some [] ∧
      dag = ⟨chunksById chunks, computeOrder (chunksById chunks).keys (adjacency (chunksById chunks))⟩ := by
  unfold build at h
  dsimp only at h
  cases ho : findOrphan (chunksById chunks) with
  | some p => rw [ho] at h; cases h
  | none =>
    rw [ho] at h
    dsimp only at h
    cases hc : findCycle limit (chunksById chunks).keys (adjacency (chunksById chunks)) with
    | none => rw [hc] at h; cases h
    | some cycle =>
      rw [hc] at h
      cases cycle with
      | cons a cycle => cases h
      | nil =>
        cases h
        exact ⟨rfl, rfl, rfl⟩

/-- **An accepted graph**: the objects are those of the list, and the order names each id once, dependencies first. -/
theorem ChunkDAG.build_spec {limit : Nat} {chunks : List Chunk} {dag : ChunkDAG}
    (h : ChunkDAG.build limit chunks = .ok dag) :
    dag.chunks = chunksById chunks ∧ dag.order.Perm dag.chunks.keys ∧
      Layered (adjacency dag.chunks) dag.order := by
  obtain ⟨ho, hc, rfl⟩ := build_eq_ok h
  have hclosed := findOrphan_eq_none ho
  obtain ⟨hperm, hlayered⟩ := kahn_spec (chunksById chunks).nodup hclosed (findCycle_eq_nil hc)
    (chunksById chunks).keys.length _ _ [] (Emitting.init _ _ (chunksById chunks).nodup) (Nat.zero_add _)
  exact ⟨rfl, hperm, hlayered⟩

/-! ## The graph of chunk objects -/

/-- What a scheduler reads of a graph: an order of its nodes and the dependencies of each, dependencies first. -/
structure Graph (κ : Type) where
  order : List κ
  deps : κ → List κ
  nodup : order.Nodup
  layered : Layered deps order

theorem Graph.mem_of_dep {κ : Type} (g : Graph κ) {c d : κ} (hc : c ∈ g.order) (hd : d ∈ g.deps c) : d ∈ g.order := by
  obtain ⟨pre, post, he⟩ := List.append_of_mem hc
  rw [he]
  exact List.mem_append_left _ (g.layered pre c post he d hd)

namespace ChunkDAG

def ref (dag : ChunkDAG) (cid : String) : Nat :=
  match dag.chunks.get? cid with
  | some c => c.ref
  | none => 0

def topologicalOrder (dag : ChunkDAG) : List Nat := dag.order.map dag.ref

def dependencies (chunks : List Chunk) (dag : ChunkDAG) (i : Nat) : List Nat :=
  match chunks[i]? with
  | some c => c.dependencies.map dag.ref
  | none => []

theorem mem_order_iff {limit : Nat} {chunks : List Chunk} {dag : ChunkDAG} (h : build limit chunks = .ok dag) {cid : String} :
    cid ∈ dag.order ↔ ∃ c, dag.chunks.get? cid = some c := by
  rw [(build_spec h).2.1.mem_iff, Dict.mem_keys_iff]

theorem nodup_topologicalOrder {limit : Nat} {chunks : List Chunk} {dag : ChunkDAG} (h : build limit chunks = .ok dag) :
    dag.topologicalOrder.Nodup := by
  have hobj := (build_spec h).1
  refine List.Nodup.map_on (fun a ha b hb hab => ?_) ((build_spec h).2.1.nodup_iff.2 dag.chunks.nodup)
  obtain ⟨c, hc⟩ := (mem_order_iff h).1 ha
  obtain ⟨d, hd⟩ := (mem_order_iff h).1 hb
  rw [ref, ref, hc, hd] at hab
  rw [hobj] at hc hd
  obtain ⟨hci, hca⟩ := get?_chunksById hc
  obtain ⟨hdi, hdb⟩ := get?_chunksById hd
  dsimp only at hab
  rw [hab, hdi] at hci
  rw [← hca, ← hdb, Option.some.inj hci]

theorem layered_topologicalOrder {limit : Nat} {chunks : List Chunk} {dag : ChunkDAG} (h : build limit chunks = .ok dag) :
    Layered (dependencies chunks dag) dag.topologicalOrder := by
  intro pre x post he d hd
  obtain ⟨pre', rest, hsplit, rfl, hrest⟩ := List.map_eq_append_iff.1 he
  obtain ⟨cid, post', rfl, rfl, -⟩ := List.map_eq_cons_iff.1 hrest
  have hcid : cid ∈ dag.order := by rw [hsplit]; simp
  obtain ⟨c, hc⟩ := (mem_order_iff h).1 hcid
  have hc' := hc
  rw [(build_spec h).1] at hc'
  rw [dependencies, ref, hc] at hd
  dsimp only at hd
  rw [(get?_chunksById hc').1] at hd
  obtain ⟨dep, hdep, rfl⟩ := List.mem_map.1 hd
  exact List.mem_map_of_mem ((build_spec h).2.2 pre' cid post' hsplit dep (mem_adjacency.2 ⟨c, hc, hdep⟩))

/-- **The graph of an accepted plan**, on the places of its chunks. -/
def graph {limit : Nat} {chunks : List Chunk} {dag : ChunkDAG} (h : build limit chunks = .ok dag) : Graph Nat where
  order := dag.topologicalOrder
  deps := dependencies chunks dag
  nodup := nodup_topologicalOrder h
  layered := layered_topologicalOrder h

theorem mem_graph_order {limit : Nat} {chunks : List Chunk} {dag : ChunkDAG} (h : build limit chunks = .ok dag)
    (hn : (chunks.map Chunk.chunkId).Nodup) {i : Nat} (hi : i < chunks.length) : i ∈ (graph h).order := by
  have hget := get?_chunksById_of_nodup hn (List.getElem?_eq_getElem hi)
  rw [← (build_spec h).1] at hget
  refine List.mem_map.2 ⟨chunks[i].chunkId, (mem_order_iff h).2 ⟨_, hget⟩, ?_⟩
  rw [ref, hget]

theorem lt_of_mem_graph_order {limit : Nat} {chunks : List Chunk} {dag : ChunkDAG} (h : build limit chunks = .ok dag) {i : Nat}
    (hi : i ∈ (graph h).order) : i < chunks.length := by
  obtain ⟨cid, hcid, rfl⟩ := List.mem_map.1 hi
  obtain ⟨c, hc⟩ := (mem_order_iff h).1 hcid
  rw [ref, hc]
  rw [(build_spec h).1] at hc
  exact (List.getElem?_eq_some_iff.1 (get?_chunksById hc).1).1

end ChunkDAG

end Engine
end DevHarness
