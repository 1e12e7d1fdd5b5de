import Mathlib.Data.List.Sort
import Mathlib.Order.Lattice
/-!
# OrderStatistic — the members of a list by rank, told by counting

The member of rank `i`, from zero, of a sorted list is the value with at most `i` members below it and more than `i` at
most it.  Nothing of the sorting is left in that, so statements about ranks can be made on the unsorted list.
-/
namespace Lib

universe u

variable {α : Type u} [LinearOrder α]

/-- **In a sorted list a property that goes down with the order holds on an initial part**, as long as its count. -/
theorem lt_countP_iff {p : α → Bool} (hp : ∀ a b, a ≤ b → p b = true → p a = true) : ∀ {l : List α},
    l.Pairwise (· ≤ ·) → ∀ {i : ℕ} (hi : i < l.length), i < l.countP p ↔ p l[i] = true
  | [], _, i, hi => absurd hi (Nat.not_lt_zero i)
  | a :: l, hs, i, hi => by
    rw [List.pairwise_cons] at hs
    by_cases ha : p a = true
    · rw [List.countP_cons_of_pos ha]
      cases i with
      | zero => exact iff_of_true (Nat.succ_pos _) ha
      | succ i =>
        rw [Nat.succ_lt_succ_iff, List.getElem_cons_succ]
        exact lt_countP_iff hp hs.2 (Nat.lt_of_succ_lt_succ hi)
    · -- the head is the least, so nobody has the property
      have hnone : ∀ b ∈ a :: l, ¬ p b = true := by
        intro b hb hpb
        rcases List.mem_cons.1 hb with rfl | hb
        · exact ha hpb
        · exact ha (hp a b (hs.1 b hb) hpb)
      rw [List.countP_eq_zero.2 hnone]
      exact iff_of_false (Nat.not_lt_zero i) (hnone _ (List.getElem_mem hi))

/-- `v` is the member of rank `i`. -/
def HasRank (l : List α) (i : ℕ) (v : α) : Prop := l.countP (· < v) ≤ i ∧ i < l.countP (· ≤ v)

/-- **The member of a rank, by counting.** -/
theorem getElem_insertionSort_eq_iff {l : List α} {i : ℕ} (hi : i < (l.insertionSort (· ≤ ·)).length) {v : α} :
    (l.insertionSort (· ≤ ·))[i] = v ↔ HasRank l i v := by
  have hs := List.pairwise_insertionSort (· ≤ ·) l
  have hperm := List.perm_insertionSort (· ≤ ·) l
  have hbelow := lt_countP_iff (p := fun a => decide (a < v))
    (fun a b hab hb => by simpa using lt_of_le_of_lt hab (of_decide_eq_true hb)) hs hi
  have hatMost := lt_countP_iff (p := fun a => decide (a ≤ v))
    (fun a b hab hb => by simpa using le_trans hab (of_decide_eq_true hb)) hs hi
  rw [hperm.countP_eq, decide_eq_true_eq] at hbelow hatMost
  rw [HasRank, ← Nat.not_lt, hbelow, hatMost, not_lt]
  constructor
  · intro h
    exact ⟨h.ge, h.le⟩
  · intro h
    exact le_antisymm h.2 h.1

/-- **Two neighbouring ranks meet** at some member: it takes up both the last place before rank `k` and rank `k`. -/
def Tied (l : List α) (k : ℕ) : Prop := ∃ v ∈ l, l.countP (· < v) < k ∧ k < l.countP (· ≤ v)

instance (l : List α) (k : ℕ) : Decidable (Tied l k) := inferInstanceAs (Decidable (∃ v ∈ l, _))

theorem getElem_insertionSort_eq_getElem_iff {l : List α} {i : ℕ} (hi : i + 1 < (l.insertionSort (· ≤ ·)).length) :
    (l.insertionSort (· ≤ ·))[i + 1] = (l.insertionSort (· ≤ ·))[i] ↔ Tied l (i + 1) := by
  constructor
  · intro h
    obtain ⟨hbelow, -⟩ := (getElem_insertionSort_eq_iff (Nat.lt_of_succ_lt hi)).1 h.symm
    obtain ⟨-, hatMost⟩ := (getElem_insertionSort_eq_iff hi).1 rfl
    exact ⟨_, (List.mem_insertionSort (· ≤ ·)).1 (List.getElem_mem hi), Nat.lt_succ_of_le hbelow, hatMost⟩
  · rintro ⟨v, -, hbelow, hatMost⟩
    have hi' : (l.insertionSort (· ≤ ·))[i + 1] = v :=
      (getElem_insertionSort_eq_iff hi).2 ⟨Nat.le_of_lt hbelow, hatMost⟩
    have hi'' : (l.insertionSort (· ≤ ·))[i] = v :=
      (getElem_insertionSort_eq_iff (Nat.lt_of_succ_lt hi)).2 ⟨Nat.le_of_lt_succ hbelow, Nat.lt_of_succ_lt hatMost⟩
    rw [hi', hi'']

end Lib
