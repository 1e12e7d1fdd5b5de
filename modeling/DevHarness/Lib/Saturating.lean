import Mathlib.Algebra.Order.Monoid.Unbundled.MinMax
import Mathlib.Algebra.Order.Monoid.Defs
/-!
# Saturating — a level that grows and stops at a cap

Topping up by amounts that are not negative: two top-ups are one by their sum, in either order, so how finely a growth is
cut into pieces, and when the cap is applied, cannot be seen.
-/
namespace Lib

universe u

variable {α : Type u} [AddCommMonoid α] [LinearOrder α]

/-- A level after a growth, cut off at the cap. -/
def topUp (cap level amount : α) : α := min cap (level + amount)

theorem topUp_le_add (cap level amount : α) : topUp cap level amount ≤ level + amount := min_le_right _ _

theorem topUp_zero {cap level : α} (hl : level ≤ cap) : topUp cap level 0 = level := by
  rw [topUp, add_zero, min_eq_right hl]

variable [IsOrderedAddMonoid α]

/-- **Two top-ups are one**: the cap after the first of them is never felt after the second. -/
theorem topUp_topUp (cap level a : α) {b : α} (hb : 0 ≤ b) : topUp cap (topUp cap level a) b = topUp cap level (a + b) := by
  have hcap : cap ≤ cap + b := le_add_of_nonneg_right hb
  unfold topUp
  rw [min_add, ← min_assoc, min_eq_left hcap, add_assoc]

theorem topUp_comm (cap level : α) {a b : α} (ha : 0 ≤ a) (hb : 0 ≤ b) :
    topUp cap (topUp cap level a) b = topUp cap (topUp cap level b) a := by
  rw [topUp_topUp cap level a hb, topUp_topUp cap level b ha, add_comm a b]

end Lib
