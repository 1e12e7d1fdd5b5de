import Mathlib.Data.List.Chain
import Mathlib.Data.List.Lex
import Mathlib.Logic.Relation
import Mathlib.Order.Lattice
/-!
# LinearExtension — dependency relations, their cycles and the least of their linear extensions

`r x y` reads "`x` depends on `y`".  A relation that some list extends has no cycle; a list that always takes the least
node whose dependencies are placed is the lexicographically least extension, and there is only one.
-/
namespace Lib

universe u

variable {α : Type u} {r : α → α → Prop}

/-- Nothing depends on itself, directly or through others. -/
def Acyclic (r : α → α → Prop) : Prop := ∀ x, ¬ Relation.TransGen r x x

/-- **A cycle**, as the path that leads from its first member back to it. -/
def IsCycle (r : α → α → Prop) : List α → Prop
  | [] => False
  | x :: xs => List.IsChain r (x :: xs ++ [x])

theorem transGen_of_isChain {x z : α} : ∀ (xs : List α), List.IsChain r (x :: xs ++ [z]) → Relation.TransGen r x z := by
  intro xs
  induction xs generalizing x with
  | nil =>
    intro h
    exact Relation.TransGen.single (List.isChain_pair.1 h)
  | cons y ys ih =>
    intro h
    rw [List.cons_append, List.cons_append, List.isChain_cons_cons] at h
    exact Relation.TransGen.head h.1 (ih h.2)

theorem IsCycle.not_acyclic {l : List α} (h : IsCycle r l) : ¬ Acyclic r := by
  intro ha
  cases l with
  | nil => exact h
  | cons x xs => exact ha x (transGen_of_isChain xs h)

/-- **A linear extension**: everything comes after all it depends on. -/
def LinearExtension (r : α → α → Prop) (l : List α) : Prop :=
  ∀ pre x post, l = pre ++ x :: post → ∀ y, r x y → y ∈ pre

theorem LinearExtension.mem_of_transGen {l : List α} (h : LinearExtension r l) {pre post : List α} {x y : α}
    (hl : l = pre ++ x :: post) (hxy : Relation.TransGen r x y) : y ∈ pre := by
  induction hxy with
  | single hxy => exact h pre x post hl _ hxy
  | @tail y z _ hyz ih =>
    obtain ⟨p, q, rfl⟩ := List.append_of_mem ih
    have hz := h p y (q ++ x :: post) (by rw [hl, List.append_assoc, List.cons_append]) z hyz
    exact List.mem_append_left _ hz

/-- What a member leads to is a member. -/
theorem LinearExtension.mem_of_reflTransGen {l : List α} (h : LinearExtension r l) {x y : α} (hx : x ∈ l)
    (hxy : Relation.ReflTransGen r x y) : y ∈ l := by
  rcases Relation.reflTransGen_iff_eq_or_transGen.1 hxy with rfl | hxy
  · exact hx
  · obtain ⟨pre, post, hl⟩ := List.append_of_mem hx
    rw [hl]
    exact List.mem_append_left _ (h.mem_of_transGen hl hxy)

/-- Among the members of a linear extension there is no cycle. -/
theorem LinearExtension.not_transGen {l : List α} (h : LinearExtension r l) {x : α} (hx : x ∈ l) :
    ¬ Relation.TransGen r x x := by
  intro hxx
  obtain ⟨pre, post, hl, hnot⟩ := List.eq_append_cons_of_mem hx
  exact hnot (h.mem_of_transGen hl hxx)

variable [LinearOrder α]

/-- At each place stands the least of the nodes left whose dependencies are placed. -/
def Greedy (r : α → α → Prop) (l : List α) : Prop :=
  ∀ pre x post, l = pre ++ x :: post → ∀ y ∈ post, (∀ z, r y z → z ∈ pre) → x ≤ y

/-- **The lexicographically least linear extension** of a relation on some nodes. -/
structure LeastExtension (r : α → α → Prop) (nodes l : List α) : Prop where
  perm : l.Perm nodes
  extension : LinearExtension r l
  least : ∀ l', l'.Perm nodes → LinearExtension r l' → l = l' ∨ List.Lex (· < ·) l l'

theorem Greedy.eq_or_lex : ∀ (rest rest' pre : List α), Greedy r (pre ++ rest) → LinearExtension r (pre ++ rest') →
    rest'.Perm rest → rest = rest' ∨ List.Lex (· < ·) rest rest'
  | [], rest', pre, _, _, hp => Or.inl (List.perm_nil.1 hp).symm
  | x :: post, [], pre, _, _, hp => by
    cases List.nil_perm.1 hp
  | x :: post, y :: post', pre, hg, hl, hp => by
    by_cases hxy : x = y
    · subst hxy
      rcases eq_or_lex post post' (pre ++ [x]) (by simpa using hg) (by simpa using hl) hp.cons_inv with he | hlex
      · exact Or.inl (by rw [he])
      · exact Or.inr (List.Lex.cons hlex)
    · -- the other list takes a node that was there to be taken here
      have hy : y ∈ post := (List.mem_cons.1 (hp.mem_iff.1 List.mem_cons_self)).resolve_left (Ne.symm hxy)
      have hle := hg pre x post rfl y hy (hl pre y post' rfl)
      exact Or.inr (List.Lex.rel (lt_of_le_of_ne hle hxy))

/-- **Taking the least each time** gives the least list. -/
theorem Greedy.leastExtension {nodes l : List α} (hg : Greedy r l) (hp : l.Perm nodes) (hl : LinearExtension r l) :
    LeastExtension r nodes l :=
  ⟨hp, hl, fun l' hp' hl' => eq_or_lex l l' [] hg hl' (hp'.trans hp.symm)⟩

/-- **There is one least extension**, however nodes and relation are given. -/
theorem LeastExtension.unique {r' : α → α → Prop} {nodes nodes' l l' : List α} (h : LeastExtension r nodes l)
    (h' : LeastExtension r' nodes' l') (hr : ∀ a b, r a b ↔ r' a b) (hn : nodes.Perm nodes') : l = l' := by
  have hre : r = r' := funext fun a => funext fun b => propext (hr a b)
  subst hre
  rcases h.least l' (h'.perm.trans hn.symm) h'.extension with he | hlt
  · exact he
  · rcases h'.least l (h.perm.trans hn) h.extension with he | hgt
    · exact he.symm
    · exact absurd hgt (asymm hlt)

/-! ## Where the least extension puts a node -/

omit [LinearOrder α] in
/-- `v` stands before `w`. -/
def Before (l : List α) (v w : α) : Prop := ∃ pre post, l = pre ++ w :: post ∧ v ∈ pre

/-- **What must come first when the least node is taken each time.**  A node waits for all it depends on; it comes before
a greater one that all it depends on comes before; and it comes before whatever waits for that one. -/
inductive Precedes (r : α → α → Prop) : α → α → Prop where
  | dependency {v w : α} : Relation.TransGen r w v → Precedes r v w
  | smaller {v w : α} : v < w → (∀ d, r v d → Precedes r d w) → Precedes r v w
  | through {v u w : α} : Precedes r v u → Relation.TransGen r w u → Precedes r v w

omit [LinearOrder α] in
theorem before_iff_mem {l pre post : List α} {v w : α} (hn : l.Nodup) (hl : l = pre ++ w :: post) :
    Before l v w ↔ v ∈ pre := by
  subst hl
  constructor
  · rintro ⟨pre', post', he, hv⟩
    have hnodup := List.nodup_append.1 hn
    have hpre : w ∉ pre := fun hw => hnodup.2.2 w hw w List.mem_cons_self rfl
    have hpost : w ∉ post := (List.nodup_cons.1 hnodup.2.1).1
    rw [((List.append_cons_inj_of_notMem hpre hpost).1 he).1]
    exact hv
  · intro hv
    exact ⟨pre, post, rfl, hv⟩

theorem Precedes.before {l : List α} (hext : LinearExtension r l) (hg : Greedy r l) (hn : l.Nodup) {v w : α}
    (h : Precedes r v w) : v ∈ l → w ∈ l → Before l v w := by
  induction h with
  | dependency hdep =>
    intro _ hw
    obtain ⟨pre, post, rfl⟩ := List.append_of_mem hw
    exact ⟨pre, post, rfl, hext.mem_of_transGen rfl hdep⟩
  | @smaller v w hlt hdeps ih =>
    intro hv hw
    obtain ⟨a, b, hab⟩ := List.append_of_mem hv
    obtain ⟨pre, post, hl⟩ := List.append_of_mem hw
    rw [before_iff_mem hn hl]
    by_contra hnot
    have hpost : v ∈ post := by
      rw [hl, List.mem_append, List.mem_cons] at hv
      exact (hv.resolve_left hnot).resolve_left hlt.ne
    -- `v` was there to be taken, and is less
    have hle := hg pre w post hl v hpost (fun d hd => by
      have hdl : d ∈ l := by
        rw [hab]
        exact List.mem_append_left _ (hext a v b hab d hd)
      exact (before_iff_mem hn hl).1 (ih d hd hdl hw))
    exact absurd hlt (not_lt.2 hle)
  | @through v u w _ hdep ih =>
    intro hv hw
    obtain ⟨pre, post, hl⟩ := List.append_of_mem hw
    have hu : u ∈ pre := hext.mem_of_transGen hl hdep
    obtain ⟨p, q, rfl⟩ := List.append_of_mem hu
    have hlu : l = p ++ u :: (q ++ w :: post) := by rw [hl, List.append_assoc, List.cons_append]
    have hvp := (before_iff_mem hn hlu).1 (ih hv (by rw [hlu]; simp))
    exact ⟨p ++ u :: q, post, hl, List.mem_append_left _ hvp⟩

/-- The converse, by induction on how far the two nodes are into the list. -/
theorem precedes_of_split {l : List α} (hext : LinearExtension r l) (hg : Greedy r l) (hn : l.Nodup) : ∀ (n : ℕ)
    (a b post : List α) (v w : α), l = a ++ v :: (b ++ w :: post) → 2 * a.length + b.length = n → Precedes r v w := by
  intro n
  induction n using Nat.strong_induction_on with
  | _ n ih =>
    intro a b post v w hl hlen
    have hlw : l = (a ++ v :: b) ++ w :: post := by rw [hl, List.append_assoc, List.cons_append]
    have hdeps : ∀ d, r v d → Precedes r d w := by
      intro d hd
      obtain ⟨a₁, a₂, rfl⟩ := List.append_of_mem (hext a v _ hl d hd)
      refine ih _ ?_ a₁ (a₂ ++ v :: b) post d w (by simp [hl]) rfl
      rw [← hlen]
      simp only [List.length_append, List.length_cons]
      omega
    by_cases hlt : v < w
    · exact Precedes.smaller hlt hdeps
    · -- taken before a lesser node, so that one was still waiting
      have hwait : ∃ z, r w z ∧ z ∉ a := by
        by_contra hnone
        push Not at hnone
        have hle := hg a v (b ++ w :: post) hl w (by simp) hnone
        have heq : v = w := le_antisymm hle (not_lt.1 hlt)
        rw [hlw, ← heq] at hn
        exact (List.nodup_append.1 hn).2.2 v (by simp) v List.mem_cons_self rfl
      obtain ⟨z, hwz, hza⟩ := hwait
      have hz : z ∈ v :: b := (List.mem_append.1 (hext _ w post hlw z hwz)).resolve_left hza
      rcases List.mem_cons.1 hz with rfl | hzb
      · exact Precedes.dependency (Relation.TransGen.single hwz)
      · obtain ⟨b₁, b₂, rfl⟩ := List.append_of_mem hzb
        refine Precedes.through (ih _ ?_ a b₁ (b₂ ++ w :: post) v z (by simp [hl]) rfl) (Relation.TransGen.single hwz)
        rw [← hlen]
        simp only [List.length_append, List.length_cons]
        omega

/-- **Which of two nodes the least extension puts first** can be read off the relation. -/
theorem before_iff_precedes {l : List α} (hext : LinearExtension r l) (hg : Greedy r l) (hn : l.Nodup) {v w : α}
    (hv : v ∈ l) (hw : w ∈ l) : Before l v w ↔ Precedes r v w := by
  constructor
  · rintro ⟨pre, post, hl, hvp⟩
    obtain ⟨a, b, rfl⟩ := List.append_of_mem hvp
    exact precedes_of_split hext hg hn _ a b post v w (by simp [hl]) rfl
  · intro h
    exact h.before hext hg hn hv hw

/-- A part of a list is sorted when the lesser of any two of its members stands before the greater. -/
theorem pairwise_filter_iff {l : List α} (hn : l.Nodup) (p : α → Bool) : (l.filter p).Pairwise (· ≤ ·) ↔
    ∀ v ∈ l, ∀ w ∈ l, p v = true → p w = true → v < w → Before l v w := by
  rw [List.pairwise_filter]
  constructor
  · intro h v hv w hw hpv hpw hlt
    obtain ⟨pre, post, rfl⟩ := List.append_of_mem hw
    refine ⟨pre, post, rfl, ?_⟩
    by_contra hnot
    have hpost : v ∈ post := by
      rw [List.mem_append, List.mem_cons] at hv
      exact (hv.resolve_left hnot).resolve_left hlt.ne
    have hle := (List.pairwise_cons.1 (List.pairwise_append.1 h).2.1).1 v hpost hpw hpv
    exact absurd hlt (not_lt.2 hle)
  · intro h
    rw [List.pairwise_iff_forall_sublist]
    intro v w hsub hpv hpw
    obtain ⟨l₁, l₂, rfl, hv, hw⟩ := List.cons_sublist_iff.1 hsub
    rw [List.singleton_sublist] at hw
    by_contra hle
    have hbefore := h w (List.mem_append_right _ hw) v (List.mem_append_left _ hv) hpw hpv (not_le.1 hle)
    obtain ⟨a, b, rfl⟩ := List.append_of_mem hv
    rw [before_iff_mem hn (by rw [List.append_assoc, List.cons_append])] at hbefore
    exact (List.nodup_append.1 hn).2.2 w (List.mem_append_left _ hbefore) w hw rfl

end Lib
