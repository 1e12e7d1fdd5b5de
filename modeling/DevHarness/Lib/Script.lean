import Mathlib.Data.List.Basic
/-!
# Script — statements run one by one

A statement is refused or takes a state to a state.  In autocommit a script leaves the effect of every statement before
the first one refused; repeating a statement is harmless where it leaves the state alone.
-/
namespace Lib
namespace Script

universe u v

variable {A : Type u} {S : Type v} (exec : A → S → Option S)

/-- Every statement, in order; `none` when one is refused. -/
def all : List A → S → Option S
  | [], s => some s
  | a :: as, s => match exec a s with
    | none => none
    | some s' => all as s'

/-- In autocommit: whether every statement went through, and the state left. -/
def run : List A → S → Bool × S
  | [], s => (true, s)
  | a :: as, s => match exec a s with
    | none => (false, s)
    | some s' => run as s'

/-- The statement leaves the state alone. -/
def Idle (s : S) (a : A) : Prop := exec a s = some s

@[simp] theorem all_nil (s : S) : all exec [] s = some s := rfl

theorem all_cons_of_some {a : A} {s s' : S} (h : exec a s = some s') (as : List A) :
    all exec (a :: as) s = all exec as s' := by
  rw [all, h]

theorem all_cons_of_none {a : A} {s : S} (h : exec a s = none) (as : List A) : all exec (a :: as) s = none := by
  rw [all, h]

theorem all_cons_eq_some {exec : A → S → Option S} {a : A} {as : List A} {s t : S} :
    all exec (a :: as) s = some t ↔ ∃ s', exec a s = some s' ∧ all exec as s' = some t := by
  rw [all]
  cases exec a s <;> simp

theorem all_append (as bs : List A) (s : S) : all exec (as ++ bs) s = (all exec as s).bind (all exec bs) := by
  induction as generalizing s with
  | nil => rfl
  | cons a as ih =>
    rw [List.cons_append]
    cases h : exec a s with
    | none => rw [all_cons_of_none exec h, all_cons_of_none exec h]; rfl
    | some s' => rw [all_cons_of_some exec h, all_cons_of_some exec h, ih]

theorem all_append_of_some {as : List A} {s t : S} (h : all exec as s = some t) (bs : List A) :
    all exec (as ++ bs) s = all exec bs t := by
  rw [all_append, h]
  rfl

theorem run_of_all : ∀ {as : List A} {s t : S}, all exec as s = some t → run exec as s = (true, t)
  | [], s, t, h => by cases h; rfl
  | a :: as, s, t, h => by
    cases he : exec a s with
    | none => rw [all_cons_of_none exec he] at h; cases h
    | some s' =>
      rw [all_cons_of_some exec he] at h
      rw [run, he]
      exact run_of_all h

theorem run_of_not_all : ∀ {as : List A} {s : S}, all exec as s = none → (run exec as s).1 = false
  | [], s, h => by cases h
  | a :: as, s, h => by
    cases he : exec a s with
    | none => rw [run, he]
    | some s' =>
      rw [all_cons_of_some exec he] at h
      rw [run, he]
      exact run_of_not_all h

/-! ## Repeated statements -/

/-- **Idle statements in front change nothing.** -/
theorem all_append_of_idle {s : S} (bs : List A) : ∀ {as : List A}, (∀ a ∈ as, Idle exec s a) →
    all exec (as ++ bs) s = all exec bs s
  | [], _ => rfl
  | a :: as, h => by
    rw [List.cons_append, all_cons_of_some exec (h a List.mem_cons_self)]
    exact all_append_of_idle bs (fun b hb => h b (List.mem_cons_of_mem a hb))

/-- **Where each statement is idle or refused, a script that goes through has none refused.** -/
theorem idle_of_all_append {s t : S} {bs : List A} : ∀ {as : List A},
    (∀ a ∈ as, exec a s = none ∨ Idle exec s a) → all exec (as ++ bs) s = some t → ∀ a ∈ as, Idle exec s a
  | [], _, _, _, ha => by cases ha
  | a :: as, h, hall, b, hb => by
    rw [List.cons_append] at hall
    rcases h a List.mem_cons_self with hnone | hidle
    · rw [all_cons_of_none exec hnone] at hall
      cases hall
    · rw [all_cons_of_some exec hidle] at hall
      rcases List.mem_cons.1 hb with rfl | hb
      · exact hidle
      · exact idle_of_all_append (fun c hc => h c (List.mem_cons_of_mem a hc)) hall b hb

end Script
end Lib
