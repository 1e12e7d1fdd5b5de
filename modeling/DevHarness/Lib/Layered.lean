import Mathlib.Data.List.Basic
/-!
# Layered — lists in which dependencies come first

A list that names every dependency of an element before it proves the dependencies well founded: among its elements any
property has a least holder.
-/
namespace Lib

universe u

variable {α : Type u}

/-- **Dependencies come first.** -/
def Layered (deps : α → List α) (l : List α) : Prop := ∀ pre x post, l = pre ++ x :: post → ∀ d ∈ deps x, d ∈ pre

theorem layered_nil (deps : α → List α) : Layered deps [] := by
  intro pre x post h
  cases pre <;> cases h

theorem Layered.snoc {deps : α → List α} {l : List α} {x : α} (h : Layered deps l) (hx : ∀ d ∈ deps x, d ∈ l) :
    Layered deps (l ++ [x]) := by
  intro pre y post he d hd
  rcases List.append_eq_append_iff.1 he with ⟨a, rfl, ha⟩ | ⟨a, rfl, ha⟩
  · cases a with
    | nil =>
      obtain ⟨rfl, -⟩ := List.cons.inj ha
      simpa using hx d hd
    | cons b a =>
      have hnil := (List.cons.inj ha).2
      cases a <;> cases hnil
  · cases a with
    | nil =>
      obtain ⟨rfl, -⟩ := List.cons.inj ha
      simpa using hx d hd
    | cons b a =>
      obtain ⟨rfl, -⟩ := List.cons.inj ha
      exact h pre y a rfl d hd

/-- **A least holder**: of any property some element has, one holder depends on no holder. -/
theorem Layered.exists_least {deps : α → List α} {l : List α} (h : Layered deps l) (P : α → Prop) (hP : ∃ x ∈ l, P x) :
    ∃ x ∈ l, P x ∧ ∀ d ∈ deps x, ¬ P d := by
  -- the first holder: all its dependencies are before it
  obtain ⟨pre, x, post, he, hx, hpre⟩ : ∃ pre x post, l = pre ++ x :: post ∧ P x ∧ ∀ y ∈ pre, ¬ P y := by
    clear h
    induction l with
    | nil =>
      obtain ⟨x, hx, -⟩ := hP
      cases hx
    | cons a l ih =>
      by_cases ha : P a
      · exact ⟨[], a, l, rfl, ha, fun y hy => by cases hy⟩
      · obtain ⟨x, hx, hPx⟩ := hP
        have hxl : x ∈ l := by
          rcases List.mem_cons.1 hx with rfl | hx
          · exact absurd hPx ha
          · exact hx
        obtain ⟨pre, y, post, he, hy, hpre⟩ := ih ⟨x, hxl, hPx⟩
        refine ⟨a :: pre, y, post, by rw [he]; rfl, hy, fun z hz => ?_⟩
        rcases List.mem_cons.1 hz with rfl | hz
        · exact ha
        · exact hpre z hz
  exact ⟨x, by rw [he]; simp, hx, fun d hd => hpre d (h pre x post he d hd)⟩

end Lib
