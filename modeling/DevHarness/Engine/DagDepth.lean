import DevHarness.Engine.Dag
import DevHarness.Lib.LinearExtension
/-!
# DagDepth — how deep the search for a cycle nests (`engine/dag.py`)

`visit` calls itself once for each member of its path, so a plan whose search follows a chain longer than the calls the
interpreter has room for ends it with a `RecursionError`.  Which chains the search follows to their end is decided by the
ids and the dependencies alone: those of which nothing looked at before leads to a member or to a cycle
(`findCycle_eq_none_iff`).
-/
namespace DevHarness
namespace Engine

open Lib (Layered LinearExtension)

/-- Looked at before the chain goes on: a lesser dependency of a member than the member that follows. -/
def Aside (r : String → String → Prop) (p : List String) (x : String) : Prop :=
  ∃ pre u v post, p = pre ++ u :: v :: post ∧ r u x ∧ x < v

/-- **A chain the search follows**: it starts at an id, each member depends on the next, and nothing that is looked at
before it, a lesser id than its head or a dependency aside, leads to a member of it or to a cycle. -/
structure Follows (ids : List String) (r : String → String → Prop) (p : List String) : Prop where
  head : ∀ v ∈ p.head?, v ∈ ids
  chain : p.IsChain r
  nodup : p.Nodup
  before : ∀ x, (x ∈ ids ∧ ∃ v ∈ p.head?, x < v) ∨ Aside r p x →
    ∀ y, Relation.ReflTransGen r x y → y ∉ p ∧ ¬ Relation.TransGen r y y

/-- The search follows a chain of more members than the nested calls there is room for. -/
def Nests (limit : Nat) (ids : List String) (r : String → String → Prop) : Prop :=
  ∃ p, limit < p.length ∧ Follows ids r p

theorem Nests.congr {limit : Nat} {ids ids' : List String} {r : String → String → Prop} (hids : ∀ x, x ∈ ids ↔ x ∈ ids')
    (h : Nests limit ids r) : Nests limit ids' r := by
  obtain ⟨p, hlong, hp⟩ := h
  refine ⟨p, hlong, fun v hv => (hids v).1 (hp.head v hv), hp.chain, hp.nodup, fun x hx => hp.before x ?_⟩
  rwa [hids x]

/-- A chain over the ids has no more members than there are ids. -/
theorem not_nests_of_length_le {limit : Nat} {ids : List String} {r : String → String → Prop}
    (hr : ∀ a b, r a b → b ∈ ids) (hlen : ids.length ≤ limit) : ¬ Nests limit ids r := by
  rintro ⟨p, hlong, hp⟩
  have hmem : ∀ v ∈ p, v ∈ ids := by
    intro v hv
    obtain ⟨pre, post, rfl⟩ := List.append_of_mem hv
    cases pre using List.reverseRecOn with
    | nil => exact hp.head v rfl
    | append_singleton pre u =>
      have hchain := hp.chain
      rw [List.append_assoc, List.singleton_append, List.isChain_append_cons_cons] at hchain
      exact hr u v hchain.2.1
  have hle := (hp.nodup.subperm hmem).length_le
  omega

theorem aside_cons_cons {r : String → String → Prop} {u v x : String} {q : List String} :
    Aside r (u :: v :: q) x ↔ (r u x ∧ x < v) ∨ Aside r (v :: q) x := by
  constructor
  · rintro ⟨pre, a, b, post, he, hr, hlt⟩
    cases pre with
    | nil =>
      rw [List.nil_append, List.cons.injEq, List.cons.injEq] at he
      obtain ⟨rfl, rfl, -⟩ := he
      exact Or.inl ⟨hr, hlt⟩
    | cons c pre =>
      obtain ⟨-, he⟩ := List.cons.inj he
      exact Or.inr ⟨pre, a, b, post, he, hr, hlt⟩
  · rintro (⟨hr, hlt⟩ | ⟨pre, a, b, post, he, hr, hlt⟩)
    · exact ⟨[], u, v, q, rfl, hr, hlt⟩
    · exact ⟨u :: pre, a, b, post, by rw [he]; rfl, hr, hlt⟩

theorem not_aside_singleton {r : String → String → Prop} {u x : String} : ¬ Aside r [u] x := by
  rintro ⟨pre, a, b, post, he, -⟩
  have hlen := congrArg List.length he
  simp at hlen
  omega

/-! ## A search that runs out of calls -/

/-- **Out of calls**: down a chain of white nodes, with everything aside finished. -/
structure Stacked (adj : String → List String) (limit : Nat) (s : Search) (post p post' : List String) : Prop where
  long : limit < p.length
  chain : p.IsChain (Lists adj)
  nodup : p.Nodup
  layered : Layered adj post'
  kept : ∀ v ∈ post, v ∈ post'
  white : ∀ v ∈ p, s.color v = .white ∧ v ∉ post'
  grey : ∀ v, s.color v = .grey → v ∉ post'
  aside : ∀ x, Aside (Lists adj) p x → x ∈ post'

theorem Stacked.of_extends {adj : String → List String} {limit : Nat} {s s' : Search} {post post₁ p post' done : List String}
    (hf : Finished adj s post) (hext : Extends adj s s' post post₁ done) (h : Stacked adj limit s' post₁ p post') :
    Stacked adj limit s post p post' where
  long := h.long
  chain := h.chain
  nodup := h.nodup
  layered := h.layered
  kept := fun v hv => h.kept v (hext.kept v hv)
  white := fun v hv => ⟨hext.white hf (h.white v hv).1, (h.white v hv).2⟩
  grey := fun v hv => h.grey v ((hext.grey v).2 hv)
  aside := h.aside

/-- One call further up, the chain is longer by the node that made the call. -/
theorem Stacked.cons {adj : String → List String} {limit : Nat} {s : Search} {post q post' : List String}
    {node dep : String} (hc : s.color node = .white) (hdep : dep ∈ adj node)
    (h : Stacked adj limit (s.enter node) post (dep :: q) post') (hbefore : ∀ x ∈ adj node, x < dep → x ∈ post') :
    Stacked adj (limit + 1) s post (node :: dep :: q) post' := by
  have hgrey : (s.enter node).color node = .grey := s.color_enter_self node
  have hother : ∀ v ∈ dep :: q, v ≠ node := by
    rintro v hv rfl
    have hwhite := (h.white v hv).1
    rw [hgrey] at hwhite
    cases hwhite
  have hcolor : ∀ v, v ≠ node → (s.enter node).color v = s.color v := fun v hv => s.color_enter_of_ne hv
  refine ⟨Nat.succ_lt_succ h.long, List.isChain_cons_cons.2 ⟨hdep, h.chain⟩,
    List.nodup_cons.2 ⟨fun hm => hother node hm rfl, h.nodup⟩, h.layered, h.kept, fun v hv => ?_, fun v hv => ?_,
    fun x hx => ?_⟩
  · rcases List.mem_cons.1 hv with rfl | hv
    · exact ⟨hc, h.grey v hgrey⟩
    · rw [← hcolor v (hother v hv)]
      exact h.white v hv
  · refine h.grey v ?_
    rw [hcolor v (by rintro rfl; rw [hc] at hv; cases hv)]
    exact hv
  · rcases aside_cons_cons.1 hx with ⟨hr, hlt⟩ | hx
    · exact hbefore x hr hlt
    · exact h.aside x hx

/-- A visit runs out of calls down a chain from its node. -/
def RunsOut (adj : String → List String) (limit : Nat) : Prop :=
  ∀ (node : String) (s : Search) (post : List String), Finished adj s post → s.color node = .white →
    visit adj limit node s = none → ∃ q post', Stacked adj limit s post (node :: q) post'

theorem visitDeps_stacked {adj : String → List String} {limit : Nat} (hvisit : RunsOut adj limit) :
    ∀ (deps : List String) (s : Search) (post : List String), Finished adj s post → deps.Pairwise (· ≤ ·) →
      visitDeps (visit adj limit) deps s = none → ∃ dep q post', dep ∈ deps ∧
        Stacked adj limit s post (dep :: q) post' ∧ ∀ x ∈ deps, x < dep → x ∈ post'
  | [], _, _, _, _, h => by cases h
  | dep :: deps, s, post, hf, hsort, h => by
    obtain ⟨hle, hsort⟩ := List.pairwise_cons.1 hsort
    rcases visitDeps_cons (visit adj limit) dep deps s with ⟨-, he⟩ | ⟨hc, -, he⟩ | ⟨s₁, hpass, he⟩
    · rw [he] at h
      cases h
    · rw [he] at h
      obtain ⟨q, post', hst⟩ := hvisit dep s post hf hc h
      refine ⟨dep, q, post', List.mem_cons_self, hst, fun x hx hlt => ?_⟩
      rcases List.mem_cons.1 hx with rfl | hx
      · exact absurd hlt (lt_irrefl x)
      · exact absurd hlt (not_lt_of_ge (hle x hx))
    · rw [he] at h
      obtain ⟨post₁, h₁⟩ := (visit_extends adj limit).passes hf hpass
      obtain ⟨d, q, post', hd, hst, hbefore⟩ := visitDeps_stacked hvisit deps s₁ post₁ h₁.finished hsort h
      refine ⟨d, q, post', List.mem_cons_of_mem _ hd, hst.of_extends hf h₁, fun x hx hlt => ?_⟩
      rcases List.mem_cons.1 hx with rfl | hx
      · exact hst.kept x (h₁.all x List.mem_cons_self)
      · exact hbefore x hx hlt

theorem Stacked.singleton {adj : String → List String} {s : Search} {post : List String} {node : String}
    (hf : Finished adj s post) (hc : s.color node = .white) : Stacked adj 0 s post [node] post where
  long := Nat.one_pos
  chain := List.isChain_singleton node
  nodup := List.nodup_singleton node
  layered := hf.layered
  kept := fun _ hv => hv
  white := fun v hv => by
    rw [List.mem_singleton.1 hv]
    exact ⟨hc, hf.notMem hc⟩
  grey := fun v hv hm => by
    rw [(hf.black v).2 hm] at hv
    cases hv
  aside := fun _ hx => absurd hx not_aside_singleton

theorem runsOut {adj : String → List String} (hsort : ∀ v, (adj v).Pairwise (· ≤ ·)) : ∀ limit, RunsOut adj limit
  | 0, _, _, post, hf, hc, _ => ⟨[], post, Stacked.singleton hf hc⟩
  | limit + 1, node, s, post, hf, hc, h => by
    rw [visit, Option.map_eq_none_iff] at h
    obtain ⟨dep, q, post', hdep, hst, hbefore⟩ :=
      visitDeps_stacked (runsOut hsort limit) (adj node) _ post (hf.enter hc) (hsort node) h
    exact ⟨dep :: q, post', hst.cons hc hdep hbefore⟩

/-! ## A chain that is followed -/

/-- Nothing `x` leads to is grey, on the chain or on a cycle. -/
def Clear (adj : String → List String) (s : Search) (p : List String) (x : String) : Prop :=
  ∀ y, Relation.ReflTransGen (Lists adj) x y →
    s.color y ≠ .grey ∧ y ∉ p ∧ ¬ Relation.TransGen (Lists adj) y y

/-- **A chain ahead of the search**, with more members than there is room for. -/
structure Ahead (adj : String → List String) (limit : Nat) (s : Search) (p : List String) : Prop where
  long : limit < p.length
  chain : p.IsChain (Lists adj)
  nodup : p.Nodup
  white : ∀ v ∈ p, s.color v = .white
  aside : ∀ x, Aside (Lists adj) p x → Clear adj s p x

theorem Clear.enter {adj : String → List String} {s : Search} {q : List String} {node x : String}
    (h : Clear adj s (node :: q) x) : Clear adj (s.enter node) q x := by
  intro y hy
  obtain ⟨hg, hp, hcycle⟩ := h y hy
  rw [List.mem_cons, not_or] at hp
  refine ⟨?_, hp.2, hcycle⟩
  rw [Search.color_enter_of_ne s hp.1]
  exact hg

theorem Clear.of_extends {adj : String → List String} {s s' : Search} {post post' done p : List String} {x : String}
    (hext : Extends adj s s' post post' done) (h : Clear adj s p x) : Clear adj s' p x :=
  fun y hy => ⟨fun hg => (h y hy).1 ((hext.grey y).1 hg), (h y hy).2⟩

theorem Ahead.enter {adj : String → List String} {limit : Nat} {s : Search} {q : List String} {node dep : String}
    (h : Ahead adj (limit + 1) s (node :: dep :: q)) : Ahead adj limit (s.enter node) (dep :: q) := by
  obtain ⟨hnot, hnodup⟩ := List.nodup_cons.1 h.nodup
  refine ⟨Nat.lt_of_succ_lt_succ h.long, (List.isChain_cons_cons.1 h.chain).2, hnodup, fun v hv => ?_, fun x hx =>
    (h.aside x (aside_cons_cons.2 (Or.inr hx))).enter⟩
  have hvn : v ≠ node := by
    rintro rfl
    exact hnot hv
  rw [Search.color_enter_of_ne s hvn]
  exact h.white v (List.mem_cons_of_mem _ hv)

/-- What is passed on the way leaves the chain white. -/
theorem Ahead.of_passed {adj : String → List String} {limit : Nat} {s s' : Search} {post post' p : List String} {x : String}
    (hf : Finished adj s post) (hext : Extends adj s s' post post' [x]) (hx : Clear adj s p x) (h : Ahead adj limit s p) :
    Ahead adj limit s' p := by
  refine ⟨h.long, h.chain, h.nodup, fun v hv => ?_, fun y hy => (h.aside y hy).of_extends hext⟩
  have hwhite := h.white v hv
  cases hc : s'.color v with
  | white => rfl
  | grey =>
    rw [(hext.grey v).1 hc] at hwhite
    cases hwhite
  | black =>
    rcases hext.reached v ((hext.finished.black v).1 hc) with hm | ⟨d, hd, hreach⟩
    · exact absurd hm (hf.notMem hwhite)
    · rw [List.mem_singleton.1 hd] at hreach
      exact absurd hv (hx v hreach).2.1

/-- What a visit that reports a cycle has met: a grey node, or one on a cycle. -/
def Meets (adj : String → List String) (s : Search) (x : String) : Prop :=
  ∃ y, Relation.ReflTransGen (Lists adj) x y ∧ (s.color y = .grey ∨ Relation.TransGen (Lists adj) y y)

def Reports (adj : String → List String) (limit : Nat) : Prop :=
  ∀ (node : String) (s s' : Search) (post cycle : List String), Finished adj s post → s.color node = .white →
    cycle ≠ [] → visit adj limit node s = some (cycle, s') → Meets adj s node

theorem visitDeps_meets {adj : String → List String} {limit : Nat} (hvisit : Reports adj limit) :
    ∀ (deps : List String) (s s' : Search) (post cycle : List String), Finished adj s post → cycle ≠ [] →
      visitDeps (visit adj limit) deps s = some (cycle, s') → ∃ dep ∈ deps, Meets adj s dep
  | [], _, _, _, _, _, hne, h => absurd (congrArg Prod.fst (Option.some.inj h)).symm hne
  | dep :: deps, s, s', post, cycle, hf, hne, h => by
    rcases visitDeps_cons (visit adj limit) dep deps s with ⟨hc, -⟩ | ⟨hc, -, he⟩ | ⟨s₁, hpass, he⟩
    · exact ⟨dep, List.mem_cons_self, dep, Relation.ReflTransGen.refl, Or.inl hc⟩
    · rw [he] at h
      exact ⟨dep, List.mem_cons_self, hvisit dep s s' post cycle hf hc hne h⟩
    · rw [he] at h
      obtain ⟨post₁, h₁⟩ := (visit_extends adj limit).passes hf hpass
      obtain ⟨d, hd, y, hy, hmeets⟩ := visitDeps_meets hvisit deps s₁ s' post₁ cycle h₁.finished hne h
      exact ⟨d, List.mem_cons_of_mem _ hd, y, hy, hmeets.imp_left (h₁.grey y).1⟩

theorem reports (adj : String → List String) : ∀ limit, Reports adj limit
  | 0, _, _, _, _, _, _, _, _, h => by cases h
  | limit + 1, node, s, s', post, cycle, hf, hc, hne, h => by
    obtain ⟨d, hd, y, hy, hmeets⟩ :=
      visitDeps_meets (reports adj limit) (adj node) _ s' post cycle (hf.enter hc) hne (visit_eq_cycle hne h)
    refine ⟨y, hy.head hd, ?_⟩
    rcases hmeets with hg | hcycle
    · by_cases hyn : y = node
      · subst hyn
        exact Or.inr (Relation.TransGen.head' hd hy)
      · rw [Search.color_enter_of_ne s hyn] at hg
        exact Or.inl hg
    · exact Or.inr hcycle

theorem Clear.not_meets {adj : String → List String} {s : Search} {p : List String} {x : String} (h : Clear adj s p x) :
    ¬ Meets adj s x := by
  rintro ⟨y, hy, hg | hcycle⟩
  · exact (h y hy).1 hg
  · exact (h y hy).2.2 hcycle

/-- A chain ahead of a visit is followed until the calls run out. -/
def Descends (adj : String → List String) (limit : Nat) : Prop :=
  ∀ (node : String) (q : List String) (s : Search) (post : List String), Finished adj s post →
    Ahead adj limit s (node :: q) → visit adj limit node s = none

theorem visitDeps_eq_none {adj : String → List String} {limit : Nat} (hvisit : Descends adj limit) {dep : String}
    {q : List String} : ∀ (deps : List String) (s : Search) (post : List String), Finished adj s post →
      deps.Pairwise (· ≤ ·) → dep ∈ deps → Ahead adj limit s (dep :: q) →
      (∀ x ∈ deps, x < dep → Clear adj s (dep :: q) x) → visitDeps (visit adj limit) deps s = none
  | [], _, _, _, _, hm, _, _ => by cases hm
  | a :: deps, s, post, hf, hsort, hm, ha, hclear => by
    obtain ⟨hle, hsort⟩ := List.pairwise_cons.1 hsort
    by_cases had : a = dep
    · subst had
      have hc := ha.white a List.mem_cons_self
      rw [visitDeps, hc]
      dsimp only
      rw [hvisit a q s post hf ha]
      rfl
    · -- a lesser one: what it leads to neither ends the search nor touches the chain
      have hdep : dep ∈ deps := (List.mem_cons.1 hm).resolve_left (Ne.symm had)
      have hx := hclear a List.mem_cons_self (lt_of_le_of_ne (hle dep hdep) had)
      rcases visitDeps_cons (visit adj limit) a deps s with ⟨hc, -⟩ | ⟨hc, hne, he⟩ | ⟨s₁, hpass, he⟩
      · exact absurd hc (hx a Relation.ReflTransGen.refl).1
      · rw [he]
        cases hv : visit adj limit a s with
        | none => rfl
        | some found =>
          obtain ⟨cycle, s'⟩ := found
          refine absurd (reports adj limit a s s' post cycle hf hc ?_ hv) hx.not_meets
          rintro rfl
          exact hne s' hv
      · rw [he]
        obtain ⟨post₁, h₁⟩ := (visit_extends adj limit).passes hf hpass
        exact visitDeps_eq_none hvisit deps s₁ post₁ h₁.finished hsort hdep (ha.of_passed hf h₁ hx)
          (fun x hxm hlt => (hclear x (List.mem_cons_of_mem _ hxm) hlt).of_extends h₁)

theorem descends {adj : String → List String} (hsort : ∀ v, (adj v).Pairwise (· ≤ ·)) : ∀ limit, Descends adj limit
  | 0, _, _, _, _, _, _ => rfl
  | limit + 1, node, q, s, post, hf, ha => by
    rw [visit, Option.map_eq_none_iff]
    cases q with
    | nil =>
      have hlong := ha.long
      rw [List.length_singleton] at hlong
      omega
    | cons dep q =>
      have hc := ha.white node List.mem_cons_self
      refine visitDeps_eq_none (descends hsort limit) (adj node) _ post (hf.enter hc) (hsort node)
        (List.isChain_cons_cons.1 ha.chain).1 ha.enter (fun x hx hlt => ?_)
      exact (ha.aside x (aside_cons_cons.2 (Or.inl ⟨hx, hlt⟩))).enter

/-! ## The search as a whole -/

/-- **When the search runs out of calls**: exactly when it follows a chain of more members than it has calls for. -/
theorem findCycle_eq_none_iff {adj : String → List String} (hsort : ∀ v, (adj v).Pairwise (· ≤ ·)) (limit : Nat)
    (nodes : List String) : findCycle limit nodes adj = none ↔ Nests limit nodes (Lists adj) := by
  rw [findCycle_eq, Option.map_eq_none_iff]
  constructor
  · intro h
    obtain ⟨dep, q, post, hdep, hst, hbefore⟩ :=
      visitDeps_stacked (runsOut hsort limit) _ _ [] (Finished.start adj) (pairwise_sorted nodes) h
    refine ⟨dep :: q, hst.long, fun v hv => ?_, hst.chain, hst.nodup, fun x hx y hxy => ?_⟩
    · cases hv
      exact mem_sorted.1 hdep
    · have hext : LinearExtension (Lists adj) post := hst.layered
      have hxm : x ∈ post := by
        rcases hx with ⟨hx, v, hv, hlt⟩ | hx
        · cases hv
          exact hbefore x (mem_sorted.2 hx) hlt
        · exact hst.aside x hx
      have hym := hext.mem_of_reflTransGen hxm hxy
      exact ⟨fun hy => (hst.white y hy).2 hym, hext.not_transGen hym⟩
  · rintro ⟨p, hlong, hp⟩
    have hclear : ∀ x, (x ∈ nodes ∧ ∃ v ∈ p.head?, x < v) ∨ Aside (Lists adj) p x → Clear adj ⟨fun _ => .white, []⟩ p x :=
      fun x hx y hxy => ⟨by simp, hp.before x hx y hxy⟩
    cases p with
    | nil => cases hlong
    | cons dep q =>
      refine visitDeps_eq_none (descends hsort limit) _ _ [] (Finished.start adj) (pairwise_sorted nodes)
        (mem_sorted.2 (hp.head dep rfl)) ⟨hlong, hp.chain, hp.nodup, fun _ _ => rfl, fun x hx => hclear x (Or.inr hx)⟩
        (fun x hx hlt => hclear x (Or.inl ⟨mem_sorted.1 hx, dep, rfl, hlt⟩))

end Engine
end DevHarness
