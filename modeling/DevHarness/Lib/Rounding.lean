import Mathlib.Algebra.Order.Floor.Ring
import Mathlib.Data.Rat.Floor
import Mathlib.Tactic.Linarith
/-!
# Rounding — the integer part of a rounded quotient

A rounding to the nearest double keeps order, fixes the integers and moves a value by a little of itself.  Where the value
is clear of the integer below, or above, by more than that, its ceiling, or floor, is what it was before rounding.
-/
namespace Lib

/-- What is used of rounding to the nearest double. -/
structure Rounding (fl : ℚ → ℚ) : Prop where
  mono : ∀ {x y : ℚ}, x ≤ y → fl x ≤ fl y
  natCast : ∀ n : ℕ, n ≤ 2 ^ 53 → fl n = n
  error : ∀ x : ℚ, 1 / 2 ≤ x → |fl x - x| ≤ x / 2 ^ 53

theorem Rounding.ceil_eq {fl : ℚ → ℚ} (h : Rounding fl) {x : ℚ} {n : ℕ} (hn : n ≤ 2 ^ 53) (hpos : 1 / 2 ≤ x) (hle : x ≤ n)
    (hgap : (n : ℚ) - 1 + x / 2 ^ 53 < x) : ⌈fl x⌉ = n := by
  have herr := (abs_le.1 (h.error x hpos)).1
  refine Int.ceil_eq_iff.2 ⟨?_, ?_⟩
  · push_cast
    linarith
  · have hfix := h.mono hle
    rw [h.natCast n hn] at hfix
    exact_mod_cast hfix

theorem Rounding.floor_eq {fl : ℚ → ℚ} (h : Rounding fl) {x : ℚ} {n : ℕ} (hn : n ≤ 2 ^ 53) (hpos : 1 / 2 ≤ x) (hle : (n : ℚ) ≤ x)
    (hgap : x + x / 2 ^ 53 < n + 1) : ⌊fl x⌋ = n := by
  have herr := (abs_le.1 (h.error x hpos)).2
  refine Int.floor_eq_iff.2 ⟨?_, ?_⟩
  · have hfix := h.mono hle
    rw [h.natCast n hn] at hfix
    exact_mod_cast hfix
  · push_cast
    linarith

end Lib
