import Mathlib.Data.List.TakeWhile
import Mathlib.Data.List.Infix
/-!
# PathText — names written one after another, each behind a separator

A path as text begins with another path as text when it goes on below it, and also when only the last name goes on: the
text does not show where a name ends (`written_prefix_iff`).
-/
namespace Lib

universe u

variable {α : Type u} [DecidableEq α] (sep : α)

def written (names : List (List α)) : List α := names.flatMap (fun n => sep :: n)

variable {sep}

omit [DecidableEq α] in
theorem written_cons (n : List α) (names : List (List α)) : written sep (n :: names) = sep :: (n ++ written sep names) :=
  rfl

/-- A name ends where the next separator stands. -/
theorem takeWhile_name {n : List α} (hn : sep ∉ n) (names : List (List α)) :
    (n ++ written sep names).takeWhile (fun c => c ≠ sep) = n := by
  have hall : ∀ c ∈ n, decide (c ≠ sep) = true := fun c hc => decide_eq_true (fun he => hn (he ▸ hc))
  rw [List.takeWhile_append_of_pos hall]
  cases names with
  | nil => simp [written]
  | cons m names => simp [written_cons]

theorem takeWhile_name_append {n : List α} (hn : sep ∉ n) (names : List (List α)) (hne : names ≠ []) (rest : List α) :
    (n ++ written sep names ++ rest).takeWhile (fun c => c ≠ sep) = n := by
  have hall : ∀ c ∈ n, decide (c ≠ sep) = true := fun c hc => decide_eq_true (fun he => hn (he ▸ hc))
  rw [List.append_assoc, List.takeWhile_append_of_pos hall]
  cases names with
  | nil => exact absurd rfl hne
  | cons m names => simp [written_cons]

/-- The last name goes on, or is the same. -/
theorem name_prefix_iff {n m : List α} (hn : sep ∉ n) (hm : sep ∉ m) (names : List (List α)) :
    n <+: m ++ written sep names ↔ n <+: m := by
  constructor
  · rintro ⟨rest, h⟩
    have hall : ∀ c ∈ n, decide (c ≠ sep) = true := fun c hc => decide_eq_true (fun he => hn (he ▸ hc))
    have hcut := takeWhile_name hm names
    rw [← h, List.takeWhile_append_of_pos hall] at hcut
    exact ⟨_, hcut⟩
  · exact fun h => h.trans (List.prefix_append m _)

/-- A name with more behind it is the same name. -/
theorem names_prefix_iff {n m : List α} (hn : sep ∉ n) (hm : sep ∉ m) {below : List (List α)} (hne : below ≠ [])
    (names : List (List α)) :
    n ++ written sep below <+: m ++ written sep names ↔ n = m ∧ written sep below <+: written sep names := by
  constructor
  · rintro ⟨rest, h⟩
    have hcut := takeWhile_name hm names
    rw [← h, takeWhile_name_append hn below hne] at hcut
    subst hcut
    refine ⟨rfl, rest, ?_⟩
    rw [List.append_assoc] at h
    exact List.append_cancel_left h
  · rintro ⟨rfl, h⟩
    exact (List.prefix_append_right_inj n).2 h

/-- **One text begins with the other**: it lies below, or beside at a name that goes on. -/
theorem written_prefix_iff : ∀ {r s : List (List α)}, (∀ n ∈ r, sep ∉ n) → (∀ n ∈ s, sep ∉ n) →
    (written sep r <+: written sep s ↔
      r <+: s ∨ ∃ up n x below, r = up ++ [n] ∧ s = up ++ (n ++ x) :: below ∧ x ≠ [])
  | [], s, _, _ => by
    refine iff_of_true List.nil_prefix (Or.inl List.nil_prefix)
  | n :: r, [], _, _ => by
    refine iff_of_false (fun h => ?_) ?_
    · rw [written_cons] at h
      exact List.cons_ne_nil _ _ (List.prefix_nil.1 h)
    · rintro (h | ⟨up, n', x, below, -, h, -⟩)
      · exact List.cons_ne_nil _ _ (List.prefix_nil.1 h)
      · exact List.cons_ne_nil _ _ (List.append_eq_nil_iff.1 h.symm).2
  | n :: r, m :: s, hr, hs => by
    have hn := hr n List.mem_cons_self
    have hm := hs m List.mem_cons_self
    rw [written_cons, written_cons, List.prefix_cons_inj]
    cases r with
    | nil =>
      rw [written, List.flatMap_nil, List.append_nil, name_prefix_iff hn hm]
      constructor
      · rintro ⟨x, rfl⟩
        cases x with
        | nil => exact Or.inl (by simp)
        | cons c x => exact Or.inr ⟨[], n, c :: x, s, rfl, rfl, List.cons_ne_nil _ _⟩
      · rintro (h | ⟨up, n', x, below, h1, h2, -⟩)
        · obtain ⟨rfl, -⟩ := List.cons_prefix_cons.1 h
          exact List.prefix_rfl
        · cases up with
          | nil =>
            obtain ⟨rfl, -⟩ := List.cons.inj h1
            obtain ⟨rfl, -⟩ := List.cons.inj h2
            exact List.prefix_append n x
          | cons a up => simp at h1
    | cons k r =>
      rw [names_prefix_iff hn hm (List.cons_ne_nil k r) s,
        written_prefix_iff (fun a ha => hr a (List.mem_cons_of_mem n ha)) (fun a ha => hs a (List.mem_cons_of_mem m ha))]
      constructor
      · rintro ⟨rfl, h | ⟨up, n', x, below, h1, h2, hx⟩⟩
        · exact Or.inl ((List.prefix_cons_inj n).2 h)
        · exact Or.inr ⟨n :: up, n', x, below, by rw [h1]; rfl, by rw [h2]; rfl, hx⟩
      · rintro (h | ⟨up, n', x, below, h1, h2, hx⟩)
        · obtain ⟨he, hrest⟩ := List.cons_prefix_cons.1 h
          exact ⟨he, Or.inl hrest⟩
        · cases up with
          | nil => simp at h1
          | cons a up =>
            obtain ⟨hna, hr'⟩ := List.cons.inj h1
            obtain ⟨hma, hs'⟩ := List.cons.inj h2
            exact ⟨hna.trans hma.symm, Or.inr ⟨up, n', x, below, hr', hs', hx⟩⟩

end Lib
