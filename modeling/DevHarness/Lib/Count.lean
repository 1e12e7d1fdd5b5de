import Mathlib.Data.List.Basic
import Mathlib.Order.Lattice
/-!
# Count — counting a list, one whose entries carry distinct keys, and one sorted by a key
-/
namespace Lib

universe u v

variable {α : Type u}

theorem countP_lt_of_imp {P Q : α → Bool} {a : α} (hQ : Q a = true) (hP : P a ≠ true) : ∀ (l : List α), a ∈ l →
    (∀ x ∈ l, P x = true → Q x = true) → l.countP P < l.countP Q
  | [], ha, _ => by cases ha
  | x :: xs, ha, h => by
    have hxs : xs.countP P ≤ xs.countP Q := List.countP_mono_left (fun y hy => h y (List.mem_cons_of_mem _ hy))
    rw [List.countP_cons, List.countP_cons]
    rcases List.mem_cons.1 ha with rfl | ha
    · rw [if_neg hP, if_pos hQ]
      omega
    · have ih := countP_lt_of_imp hQ hP xs ha (fun y hy => h y (List.mem_cons_of_mem _ hy))
      have hx := h x List.mem_cons_self
      by_cases hPx : P x = true
      · rw [if_pos hPx, if_pos (hx hPx)]
        omega
      · rw [if_neg hPx]
        omega

variable {K : Type v} [DecidableEq K]

theorem countP_eq_of_key_notMem (key : α → K) (P : α → Bool) (k : K) : ∀ (l : List α), k ∉ l.map key →
    l.countP (fun x => P x && decide (key x ≠ k)) = l.countP P := by
  intro l hk
  refine List.countP_congr (fun x hx => ?_)
  have hne : key x ≠ k := fun he => hk (List.mem_map.2 ⟨x, hx, he⟩)
  simp [hne]

/-- **Leaving out one key of distinct keys** lowers a count by one exactly when its entry was counted. -/
theorem countP_ne_key (key : α → K) (P : α → Bool) {a : α} : ∀ (l : List α), (l.map key).Nodup → a ∈ l →
    l.countP (fun x => P x && decide (key x ≠ key a)) + (if P a = true then 1 else 0) = l.countP P
  | [], _, ha => by cases ha
  | x :: xs, hn, ha => by
    rw [List.map_cons, List.nodup_cons] at hn
    rw [List.countP_cons, List.countP_cons]
    rcases List.mem_cons.1 ha with rfl | ha
    · rw [countP_eq_of_key_notMem key P (key a) xs hn.1]
      simp
    · have hne : key x ≠ key a := fun he => hn.1 (he ▸ List.mem_map_of_mem ha)
      have ih := countP_ne_key key P xs hn.2 ha
      have hx : (P x && decide (key x ≠ key a)) = P x := by simp [hne]
      rw [hx]
      omega

/-- What is not in a list is one more element of it, or not in the list it makes longer. -/
theorem countP_notMem_snoc {a : K} {seen : List K} (ha : a ∉ seen) : ∀ (l : List K),
    l.countP (fun x => x ∉ seen) = l.count a + l.countP (fun x => x ∉ seen ++ [a])
  | [] => by simp
  | x :: l => by
    rw [List.countP_cons, List.countP_cons, List.count_cons, countP_notMem_snoc ha l]
    by_cases hx : x = a
    · subst hx
      simp [ha]
      omega
    · simp [hx]
      omega

/-! ## Ranks -/

/-- **The first `k` of a list sorted downwards** are those with fewer than `k` above them. -/
theorem mem_take_iff_countP_lt {β : Type v} [LinearOrder β] (f : α → β) {a : α} : ∀ (l : List α) (k : ℕ),
    l.Pairwise (fun x y => f y < f x) → (a ∈ l.take k ↔ a ∈ l ∧ l.countP (fun x => decide (f a < f x)) < k)
  | [], k, _ => by simp
  | x :: xs, 0, _ => by simp
  | x :: xs, k + 1, h => by
    rw [List.pairwise_cons] at h
    obtain ⟨hx, hxs⟩ := h
    rw [List.take_succ_cons, List.mem_cons, List.mem_cons, List.countP_cons]
    have ih := mem_take_iff_countP_lt f (a := a) xs k hxs
    constructor
    · rintro (rfl | ha)
      · have hnone : xs.countP (fun y => decide (f a < f y)) = 0 := by
          rw [List.countP_eq_zero]
          intro y hy
          rw [decide_eq_true_eq]
          exact lt_asymm (hx y hy)
        refine ⟨Or.inl rfl, ?_⟩
        rw [hnone, if_neg (by simp)]
        omega
      · obtain ⟨hmem, hlt⟩ := ih.1 ha
        refine ⟨Or.inr hmem, ?_⟩
        split <;> omega
    · rintro ⟨rfl | hmem, hlt⟩
      · exact Or.inl rfl
      · refine Or.inr (ih.2 ⟨hmem, ?_⟩)
        rw [if_pos (by simpa using hx a hmem)] at hlt
        omega

end Lib
