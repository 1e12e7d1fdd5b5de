import Mathlib.Data.Finset.Basic
/-!
# Tree — finite maps from paths to contents, equal when they agree

A tree carries the finite set of its paths, so trees can be compared and laid over one another.
-/
namespace Lib

universe u v

/-- A content for finitely many paths. -/
structure Tree (P : Type u) (B : Type v) where
  get : P → Option B
  paths : Finset P
  mem_paths : ∀ p, p ∈ paths ↔ (get p).isSome = true

namespace Tree

variable {P : Type u} {B : Type v}

@[ext] theorem ext {s t : Tree P B} (h : ∀ p, s.get p = t.get p) : s = t := by
  obtain ⟨f, ps, hf⟩ := s
  obtain ⟨g, qs, hg⟩ := t
  have hfg : f = g := funext h
  subst hfg
  have hps : ps = qs := by
    ext p
    rw [hf, hg]
  subst hps
  rfl

theorem get_eq_none_iff (t : Tree P B) (p : P) : t.get p = none ↔ p ∉ t.paths := by
  rw [t.mem_paths, Bool.not_eq_true, Option.isSome_eq_false_iff, Option.isNone_iff_eq_none]

def empty : Tree P B := ⟨fun _ => none, ∅, fun p => by simp⟩

/-- The contents, each mapped. -/
def map {C : Type*} (f : B → C) (t : Tree P B) : Tree P C where
  get p := (t.get p).map f
  paths := t.paths
  mem_paths p := by rw [t.mem_paths, Option.isSome_map]

theorem map_get {C : Type*} (f : B → C) (t : Tree P B) (p : P) : (t.map f).get p = (t.get p).map f := rfl

variable [DecidableEq P]

def single (p : P) (b : B) : Tree P B :=
  ⟨fun q => if q = p then some b else none, {p}, fun q => by
    by_cases h : q = p
    · simp [h]
    · simp [h]⟩

/-- **`t` over `s` on a set of paths**: there the contents are those of `t`, missing ones included. -/
def overlay (on : Finset P) (t s : Tree P B) : Tree P B where
  get p := if p ∈ on then t.get p else s.get p
  paths := (t.paths ∪ s.paths).filter (fun p => (if p ∈ on then t.get p else s.get p).isSome = true)
  mem_paths p := by
    rw [Finset.mem_filter, Finset.mem_union, and_iff_right_iff_imp]
    intro h
    by_cases hp : p ∈ on
    · rw [if_pos hp] at h
      exact Or.inl ((t.mem_paths p).2 h)
    · rw [if_neg hp] at h
      exact Or.inr ((s.mem_paths p).2 h)

theorem overlay_get (on : Finset P) (t s : Tree P B) (p : P) :
    (overlay on t s).get p = if p ∈ on then t.get p else s.get p := rfl

theorem overlay_get_of_mem {on : Finset P} {p : P} (h : p ∈ on) (t s : Tree P B) :
    (overlay on t s).get p = t.get p := if_pos h

theorem overlay_get_of_notMem {on : Finset P} {p : P} (h : p ∉ on) (t s : Tree P B) :
    (overlay on t s).get p = s.get p := if_neg h

/-- The tree of a function on a finite set of paths. -/
def build (ps : Finset P) (f : P → Option B) : Tree P B where
  get p := if p ∈ ps then f p else none
  paths := ps.filter (fun p => (f p).isSome = true)
  mem_paths p := by
    rw [Finset.mem_filter]
    by_cases hp : p ∈ ps
    · simp [hp]
    · simp [hp]

theorem build_get {ps : Finset P} {f : P → Option B} {p : P} (h : p ∉ ps → f p = none) : (build ps f).get p = f p := by
  show (if p ∈ ps then f p else none) = f p
  by_cases hp : p ∈ ps
  · rw [if_pos hp]
  · rw [if_neg hp, h hp]

variable [DecidableEq B]

instance : DecidableEq (Tree P B) := fun s t =>
  decidable_of_iff (s.paths = t.paths ∧ ∀ p ∈ s.paths, s.get p = t.get p) (by
    constructor
    · rintro ⟨hp, hg⟩
      ext1 p
      by_cases h : p ∈ s.paths
      · exact hg p h
      · rw [(s.get_eq_none_iff p).2 h, (t.get_eq_none_iff p).2 (hp ▸ h)]
    · rintro rfl
      exact ⟨rfl, fun _ _ => rfl⟩)

def diff (s t : Tree P B) : Finset P := (s.paths ∪ t.paths).filter (fun p => s.get p ≠ t.get p)

@[simp] theorem mem_diff {s t : Tree P B} {p : P} : p ∈ diff s t ↔ s.get p ≠ t.get p := by
  rw [diff, Finset.mem_filter, and_iff_right_iff_imp, Finset.mem_union]
  intro h
  by_contra hn
  rw [not_or, ← s.get_eq_none_iff, ← t.get_eq_none_iff] at hn
  exact h (hn.1.trans hn.2.symm)

theorem mem_of_mem_diff_overlay {on : Finset P} {a b : Tree P B} {p : P} (h : p ∈ diff a (overlay on b a)) : p ∈ on := by
  by_contra hp
  rw [mem_diff, overlay_get_of_notMem hp] at h
  exact h rfl

/-- **Taking an overlay back**: where the overlay of `b` over `a` differs from `a`, and on some more of its paths, files
that were `a`'s below the overlay become `a`'s again, and all others are as they were. -/
theorem overlay_back {on marked : Finset P} {a b files : Tree P B} (hmarked : marked ⊆ on)
    (hfiles : ∀ p ∈ on, files.get p = a.get p) :
    overlay (diff a (overlay on b a) ∪ marked) a (overlay on b files) = files := by
  ext1 p
  by_cases hp : p ∈ diff a (overlay on b a) ∪ marked
  · have hpo : p ∈ on := by
      rcases Finset.mem_union.1 hp with hp | hp
      · exact mem_of_mem_diff_overlay hp
      · exact hmarked hp
    rw [overlay_get_of_mem hp]
    exact (hfiles p hpo).symm
  · rw [overlay_get_of_notMem hp, overlay_get]
    by_cases hpo : p ∈ on
    · rw [Finset.mem_union, not_or, mem_diff, not_not, overlay_get_of_mem hpo] at hp
      rw [if_pos hpo, ← hp.1]
      exact (hfiles p hpo).symm
    · rw [if_neg hpo]

end Tree
end Lib
