import Mathlib.Logic.Relation
import Mathlib.Data.List.Perm.Basic
import Mathlib.Order.WellFounded
/-!
# Worklist — closing a set under a relation by a list of what is still to visit

An element is taken from the list, wherever it stands; if it was not seen it is now, and its successors are put on the
list, wherever.  When only finitely many elements have successors every such traversal ends (`wellFounded_step`), and
whatever its order it has then seen exactly what can be reached (`mem_seen_iff_reach`).
-/
namespace Lib

universe u

structure Worklist (α : Type u) where
  seen : List α
  stack : List α

namespace Worklist

variable {α : Type u} (succ : α → List α)

/-- Taking up one element. -/
inductive Step : Worklist α → Worklist α → Prop where
  | skip {seen stack rest : List α} {m : α} : stack.Perm (m :: rest) → m ∈ seen → Step ⟨seen, stack⟩ ⟨seen, rest⟩
  | visit {seen stack rest stack' : List α} {m : α} : stack.Perm (m :: rest) → m ∉ seen →
      stack'.Perm (rest ++ succ m) → Step ⟨seen, stack⟩ ⟨m :: seen, stack'⟩

/-- What can be reached from the elements of a list. -/
def Reach (start : List α) (m : α) : Prop :=
  ∃ s ∈ start, Relation.ReflTransGen (fun a b => b ∈ succ a) s m

variable {succ}

theorem Reach.mono {succ' : α → List α} {start start' : List α} (hstart : ∀ s ∈ start, s ∈ start')
    (hsucc : ∀ a b, b ∈ succ a → b ∈ succ' a) {m : α} (h : Reach succ start m) : Reach succ' start' m := by
  obtain ⟨s, hs, hm⟩ := h
  exact ⟨s, hstart s hs, Relation.ReflTransGen.mono (fun a b hab => hsucc a b hab) _ _ hm⟩

/-- A set that holds the start and its own successors holds what is reached. -/
theorem Reach.mem_of_closed {start : List α} {P : α → Prop} (hstart : ∀ s ∈ start, P s)
    (hclosed : ∀ a, P a → ∀ b ∈ succ a, P b) {m : α} (h : Reach succ start m) : P m := by
  obtain ⟨s, hs, hm⟩ := h
  induction hm with
  | refl => exact hstart s hs
  | tail _ hbc ih => exact hclosed _ ih _ hbc

/-! ## What a traversal keeps -/

/-- Everything at hand is reached, and nothing of it is lost. -/
structure Sound (succ : α → List α) (start : List α) (w : Worklist α) : Prop where
  seen_reach : ∀ m ∈ w.seen, Reach succ start m
  stack_reach : ∀ m ∈ w.stack, Reach succ start m
  started : ∀ m ∈ start, m ∈ w.seen ∨ m ∈ w.stack
  followed : ∀ m ∈ w.seen, ∀ k ∈ succ m, k ∈ w.seen ∨ k ∈ w.stack

theorem sound_start (start : List α) : Sound succ start ⟨[], start⟩ where
  seen_reach _ hm := by cases hm
  stack_reach m hm := ⟨m, hm, Relation.ReflTransGen.refl⟩
  started _ hm := Or.inr hm
  followed _ hm := by cases hm

theorem Sound.step {start : List α} {w w' : Worklist α} (h : Sound succ start w) (hstep : Step succ w w') :
    Sound succ start w' := by
  cases hstep with
  | skip hperm hseen =>
    rename_i seen stack rest m
    -- what leaves the list was seen already
    have hkept : ∀ k, k ∈ seen ∨ k ∈ stack → k ∈ seen ∨ k ∈ rest := by
      rintro k (hk | hk)
      · exact Or.inl hk
      · rcases List.mem_cons.1 (hperm.mem_iff.1 hk) with rfl | hk
        · exact Or.inl hseen
        · exact Or.inr hk
    exact {
      seen_reach := h.seen_reach
      stack_reach := fun k hk => h.stack_reach k (hperm.mem_iff.2 (List.mem_cons_of_mem _ hk))
      started := fun k hk => hkept k (h.started k hk)
      followed := fun a ha k hk => hkept k (h.followed a ha k hk) }
  | visit hperm hnew hperm' =>
    rename_i seen stack rest stack' m
    have hm : Reach succ start m := h.stack_reach m (hperm.mem_iff.2 List.mem_cons_self)
    have hkept : ∀ k, k ∈ seen ∨ k ∈ stack → k ∈ m :: seen ∨ k ∈ stack' := by
      rintro k (hk | hk)
      · exact Or.inl (List.mem_cons_of_mem m hk)
      · rcases List.mem_cons.1 (hperm.mem_iff.1 hk) with rfl | hk
        · exact Or.inl List.mem_cons_self
        · exact Or.inr (hperm'.mem_iff.2 (List.mem_append_left _ hk))
    refine ⟨fun k hk => ?_, fun k hk => ?_, fun k hk => hkept k (h.started k hk), fun a ha k hk => ?_⟩
    · rcases List.mem_cons.1 hk with rfl | hk
      · exact hm
      · exact h.seen_reach k hk
    · rcases List.mem_append.1 (hperm'.mem_iff.1 hk) with hk | hk
      · exact h.stack_reach k (hperm.mem_iff.2 (List.mem_cons_of_mem m hk))
      · obtain ⟨s, hs, hsm⟩ := hm
        exact ⟨s, hs, hsm.tail hk⟩
    · rcases List.mem_cons.1 ha with rfl | ha
      · exact Or.inr (hperm'.mem_iff.2 (List.mem_append_right _ hk))
      · exact hkept k (h.followed a ha k hk)

theorem sound_run {start : List α} {w : Worklist α} (h : Relation.ReflTransGen (Step succ) ⟨[], start⟩ w) :
    Sound succ start w := by
  induction h with
  | refl => exact sound_start start
  | tail _ hstep ih => exact ih.step hstep

/-- **A traversal that has ended saw exactly what can be reached**, whatever its order. -/
theorem mem_seen_iff_reach {start : List α} {w : Worklist α} (h : Relation.ReflTransGen (Step succ) ⟨[], start⟩ w)
    (hend : w.stack = []) (m : α) : m ∈ w.seen ↔ Reach succ start m := by
  have hsound := sound_run h
  have hseen : ∀ {k}, k ∈ w.seen ∨ k ∈ w.stack → k ∈ w.seen := by
    rintro k (hk | hk)
    · exact hk
    · rw [hend] at hk
      cases hk
  refine ⟨hsound.seen_reach m, fun hm => ?_⟩
  exact hm.mem_of_closed (fun s hs => hseen (hsound.started s hs)) (fun a ha k hk => hseen (hsound.followed a ha k hk))

/-! ## A traversal ends -/

variable [DecidableEq α]

/-- The places the keys not yet seen, and their successors, will take. -/
def pending (succ : α → List α) (seen : List α) : List α → ℕ
  | [] => 0
  | k :: keys => (if k ∈ seen then 0 else (succ k).length + 1) + pending succ seen keys

def size (succ : α → List α) (keys : List α) (w : Worklist α) : ℕ := pending succ w.seen keys + w.stack.length

theorem pending_cons_le (seen : List α) (m : α) : ∀ keys, pending succ (m :: seen) keys ≤ pending succ seen keys
  | [] => le_refl _
  | k :: keys => by
    have ih := pending_cons_le seen m keys
    by_cases hk : k ∈ seen
    · simp only [pending, if_pos hk, if_pos (List.mem_cons_of_mem m hk)]
      omega
    · simp only [pending, if_neg hk]
      split <;> omega

/-- A key that is seen for the first time gives up its places. -/
theorem pending_cons_lt {seen : List α} {m : α} (hnew : m ∉ seen) : ∀ {keys}, m ∈ keys →
    pending succ (m :: seen) keys + (succ m).length + 1 ≤ pending succ seen keys
  | k :: keys, hm => by
    rcases List.mem_cons.1 hm with rfl | hm
    · have hrest := @pending_cons_le _ succ _ seen m keys
      simp only [pending, if_neg hnew, if_pos List.mem_cons_self]
      omega
    · have ih := pending_cons_lt hnew hm
      by_cases hk : k ∈ seen
      · simp only [pending, if_pos hk, if_pos (List.mem_cons_of_mem m hk)]
        omega
      · simp only [pending, if_neg hk]
        split <;> omega

theorem size_visit {keys seen : List α} {m : α} (hkeys : ∀ a, a ∉ keys → succ a = []) (hnew : m ∉ seen) :
    pending succ (m :: seen) keys + (succ m).length ≤ pending succ seen keys := by
  by_cases hm : m ∈ keys
  · have hlt := @pending_cons_lt _ succ _ seen m hnew keys hm
    omega
  · have hle := @pending_cons_le _ succ _ seen m keys
    rw [hkeys m hm, List.length_nil]
    exact hle

theorem size_step {keys : List α} (hkeys : ∀ a, a ∉ keys → succ a = []) {w w' : Worklist α} (h : Step succ w w') :
    size succ keys w' < size succ keys w := by
  cases h with
  | skip hperm hseen =>
    have hlength := hperm.length_eq
    rw [List.length_cons] at hlength
    simp only [size]
    omega
  | visit hperm hnew hperm' =>
    have hvisit := size_visit hkeys hnew
    have hlength := hperm.length_eq
    have hlength' := hperm'.length_eq
    rw [List.length_cons] at hlength
    rw [List.length_append] at hlength'
    simp only [size]
    omega

/-- **Every traversal ends**, cycles or not. -/
theorem wellFounded_step {keys : List α} (hkeys : ∀ a, a ∉ keys → succ a = []) :
    WellFounded (fun w' w => Step succ w w') :=
  Subrelation.wf (fun h => size_step hkeys h) (InvImage.wf (size succ keys) Nat.lt_wfRel.wf)

end Worklist
end Lib
