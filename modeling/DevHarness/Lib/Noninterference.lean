import Mathlib.Data.List.Basic
/-!
# Noninterference — what one user of a shared service can see

A service answers an action and moves on.  A relation between the service in company and the service alone separates a
user from the others when the others' actions in company keep it (`Separates.frame`) and the user's own are answered
alike on both sides and keep it (`Separates.alike`).  The user is then answered in any company exactly as alone.
-/
namespace Lib

universe u v w

structure Service (S : Type u) (A : Type v) (O : Type w) where
  serve : S → A → O × S

namespace Service

variable {S : Type u} {A : Type v} {O : Type w} (M : Service S A O)

def after : S → List A → S
  | s, [] => s
  | s, a :: as => after (M.serve s a).2 as

/-- The actions with what each was answered. -/
def answers : S → List A → List (A × O)
  | _, [] => []
  | s, a :: as => (a, (M.serve s a).1) :: answers (M.serve s a).2 as

/-- **A law of steps holds along a history.** -/
def Throughout (P : S → A → Prop) : S → List A → Prop
  | _, [] => True
  | s, a :: as => P s a ∧ Throughout P (M.serve s a).2 as

instance Throughout.decidable (P : S → A → Prop) [∀ s a, Decidable (P s a)] :
    ∀ (s : S) (as : List A), Decidable (M.Throughout P s as)
  | _, [] => isTrue trivial
  | s, a :: as => @instDecidableAnd _ _ _ (Throughout.decidable P (M.serve s a).2 as)

variable {M}

theorem throughout_of_forall {P : S → A → Prop} (h : ∀ s a, P s a) : ∀ (as : List A) (s : S), M.Throughout P s as
  | [], _ => trivial
  | a :: as, s => ⟨h s a, throughout_of_forall h as _⟩

/-- **The user is separated from the others** by a relation of the service in company to the service alone, along steps
that are lawful on either side. -/
structure Separates (M : Service S A O) (mine : A → Bool) (P Q : S → A → Prop) (R : S → S → Prop) : Prop where
  frame : ∀ s t a, R s t → P s a → mine a = false → R (M.serve s a).2 t
  alike : ∀ s t a, R s t → P s a → Q t a → mine a = true →
    (M.serve s a).1 = (M.serve t a).1 ∧ R (M.serve s a).2 (M.serve t a).2

/-- **Noninterference**: served among others, the user is answered as alone. -/
theorem Separates.answers_filter {mine : A → Bool} {P Q : S → A → Prop} {R : S → S → Prop} (h : M.Separates mine P Q R) :
    ∀ {as : List A} {s t : S}, R s t → M.Throughout P s as → M.Throughout Q t (as.filter mine) →
      (M.answers s as).filter (fun q => mine q.1) = M.answers t (as.filter mine) ∧
        R (M.after s as) (M.after t (as.filter mine))
  | [], _, _, hR, _, _ => ⟨rfl, hR⟩
  | a :: as, s, t, hR, hs, ht => by
    rw [answers, after]
    cases ha : mine a with
    | false =>
      rw [List.filter_cons_of_neg (by simp [ha])] at ht
      rw [List.filter_cons_of_neg (by simp [ha]), List.filter_cons_of_neg (by simp [ha])]
      exact h.answers_filter (h.frame s t a hR hs.1 ha) hs.2 ht
    | true =>
      rw [List.filter_cons_of_pos ha] at ht
      rw [List.filter_cons_of_pos (by simp [ha]), List.filter_cons_of_pos ha, answers, after]
      obtain ⟨hout, hnext⟩ := h.alike s t a hR hs.1 ht.1 ha
      obtain ⟨hrest, hlast⟩ := h.answers_filter hnext hs.2 ht.2
      exact ⟨by rw [hout, hrest], hlast⟩

end Service
end Lib
