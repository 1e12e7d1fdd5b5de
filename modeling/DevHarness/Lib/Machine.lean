import Mathlib.Data.List.Basic
/-!
# Machine — labelled machines, their runs, and what holds along a run

A machine is a partial step function on states and labels: `none` is a label the state does not enable.  A law about a
whole run is a law of its steps (`Along`), and the rules below carry an invariant from the start of a run to its end
and exchange one step law for another under an invariant.
-/
namespace Lib

universe u v

/-- A labelled machine: `step s l = none` when `l` is not enabled at `s`. -/
structure Machine (S : Type u) (L : Type v) where
  step : S → L → Option S

namespace Machine

variable {S : Type u} {L : Type v} (M : Machine S L)

def run : S → List L → Option S
  | s, [] => some s
  | s, l :: ls => match M.step s l with
    | none => none
    | some s' => run s' ls

/-- **A law of steps holds along a run**: at each enabled step, before, label and after. -/
def Along (P : S → L → S → Prop) : S → List L → Prop
  | _, [] => True
  | s, l :: ls => match M.step s l with
    | none => True
    | some s' => P s l s' ∧ Along P s' ls

instance Along.decidable (P : S → L → S → Prop) [∀ s l s', Decidable (P s l s')] :
    ∀ (s : S) (ls : List L), Decidable (M.Along P s ls)
  | _, [] => isTrue trivial
  | s, l :: ls => by
    unfold Along
    exact match M.step s l with
      | none => isTrue trivial
      | some s' => @instDecidableAnd _ _ _ (Along.decidable P s' ls)

theorem run_cons_eq_some {s t : S} {l : L} {ls : List L} :
    M.run s (l :: ls) = some t ↔ ∃ s', M.step s l = some s' ∧ M.run s' ls = some t := by
  rw [run]
  cases M.step s l <;> simp

theorem along_cons_of_step {P : S → L → S → Prop} {s s' : S} {l : L} (h : M.step s l = some s') (ls : List L) :
    M.Along P s (l :: ls) ↔ P s l s' ∧ M.Along P s' ls := by
  rw [Along, h]

/-- **The invariant rule**: an invariant that every lawful step keeps holds at the end of a lawful run. -/
theorem inv_of_along (Inv : S → Prop) {P : S → L → S → Prop}
    (hstep : ∀ s l s', Inv s → P s l s' → M.step s l = some s' → Inv s') :
    ∀ (ls : List L) (s t : S), Inv s → M.Along P s ls → M.run s ls = some t → Inv t
  | [], s, t, hs, _, hr => by cases hr; exact hs
  | l :: ls, s, t, hs, ha, hr => by
    obtain ⟨s', h1, h2⟩ := M.run_cons_eq_some.1 hr
    rw [M.along_cons_of_step h1] at ha
    exact inv_of_along Inv hstep ls s' t (hstep s l s' hs ha.1 h1) ha.2 h2

theorem inv_of_run (Inv : S → Prop) (hstep : ∀ s l s', Inv s → M.step s l = some s' → Inv s') :
    ∀ (ls : List L) (s t : S), Inv s → M.run s ls = some t → Inv t
  | [], s, t, hs, hr => by cases hr; exact hs
  | l :: ls, s, t, hs, hr => by
    obtain ⟨s', h1, h2⟩ := M.run_cons_eq_some.1 hr
    exact inv_of_run Inv hstep ls s' t (hstep s l s' hs h1) h2

/-- **The invariant rule with a history**: the invariant may speak of the labels taken so far. -/
theorem inv_of_history (Inv : List L → S → Prop)
    (hstep : ∀ past s l s', Inv past s → M.step s l = some s' → Inv (past ++ [l]) s') :
    ∀ (ls past : List L) (s t : S), Inv past s → M.run s ls = some t → Inv (past ++ ls) t
  | [], past, s, t, hs, hr => by
    cases hr
    rw [List.append_nil]
    exact hs
  | l :: ls, past, s, t, hs, hr => by
    obtain ⟨s', h1, h2⟩ := M.run_cons_eq_some.1 hr
    have h := inv_of_history Inv hstep ls (past ++ [l]) s' t (hstep past s l s' hs h1) h2
    rw [List.append_assoc] at h
    exact h

/-- **A law of steps from another**, under an invariant the first law keeps. -/
theorem along_of_along (Inv : S → Prop) {P Q : S → L → S → Prop}
    (hstep : ∀ s l s', Inv s → P s l s' → M.step s l = some s' → Q s l s' ∧ Inv s') :
    ∀ (ls : List L) (s : S), Inv s → M.Along P s ls → M.Along Q s ls
  | [], _, _, _ => trivial
  | l :: ls, s, hs, ha => by
    cases h : M.step s l with
    | none => rw [Along, h]; trivial
    | some s' =>
      rw [M.along_cons_of_step h] at ha ⊢
      obtain ⟨hq, hi⟩ := hstep s l s' hs ha.1 h
      exact ⟨hq, along_of_along Inv hstep ls s' hi ha.2⟩

/-- **Two laws that agree on the steps of an invariant hold along the same runs**, when either of them keeps the
invariant. -/
theorem along_iff_along (Inv : S → Prop) {P Q : S → L → S → Prop}
    (hiff : ∀ s l s', Inv s → M.step s l = some s' → (P s l s' ↔ Q s l s'))
    (hinv : ∀ s l s', Inv s → P s l s' → M.step s l = some s' → Inv s') (ls : List L) (s : S) (hs : Inv s) :
    M.Along P s ls ↔ M.Along Q s ls := by
  constructor
  · exact M.along_of_along Inv (fun s l s' hi hp h => ⟨(hiff s l s' hi h).1 hp, hinv s l s' hi hp h⟩) ls s hs
  · refine M.along_of_along Inv (fun s l s' hi hq h => ?_) ls s hs
    have hp := (hiff s l s' hi h).2 hq
    exact ⟨hp, hinv s l s' hi hp h⟩

theorem along_of_inv (Inv : S → Prop) {Q : S → L → S → Prop}
    (hstep : ∀ s l s', Inv s → M.step s l = some s' → Q s l s' ∧ Inv s') (ls : List L) (s : S) (hs : Inv s) :
    M.Along Q s ls := by
  have htriv : ∀ (ls : List L) (s : S), M.Along (fun _ _ _ => True) s ls := by
    intro ls
    induction ls with
    | nil => intro s; trivial
    | cons l ls ih =>
      intro s
      cases h : M.step s l with
      | none => rw [Along, h]; trivial
      | some s' => rw [M.along_cons_of_step h]; exact ⟨trivial, ih s'⟩
  exact M.along_of_along Inv (fun s l s' hi _ h => hstep s l s' hi h) ls s hs (htriv ls s)

/-! ## Termination -/

/-- **Every run ends**: runs are bounded in length, and a state that is not final enables a step. -/
def Terminates (Final : S → Prop) (s : S) : Prop :=
  (∃ bound, ∀ ls t, M.run s ls = some t → ls.length ≤ bound) ∧
    ∀ ls t, M.run s ls = some t → Final t ∨ ∃ l t', M.step t l = some t'

theorem run_snoc {l : L} {t t' : S} (hstep : M.step t l = some t') : ∀ (ls : List L) (s : S), M.run s ls = some t →
    M.run s (ls ++ [l]) = some t'
  | [], s, hr => by
    cases hr
    exact M.run_cons_eq_some.2 ⟨t', hstep, rfl⟩
  | m :: ls, s, hr => by
    obtain ⟨s', h1, h2⟩ := M.run_cons_eq_some.1 hr
    exact M.run_cons_eq_some.2 ⟨s', h1, run_snoc hstep ls s' h2⟩

theorem run_append : ∀ {ls : List L} {s t : S}, M.run s ls = some t → ∀ ms, M.run s (ls ++ ms) = M.run t ms
  | [], s, t, hr, ms => by cases hr; rfl
  | l :: ls, s, t, hr, ms => by
    obtain ⟨s', h1, h2⟩ := M.run_cons_eq_some.1 hr
    rw [List.cons_append, run, h1]
    exact run_append h2 ms

/-- A measure that every step lowers bounds the steps of a run. -/
theorem length_add_le_of_run (Inv : S → Prop) (μ : S → ℕ)
    (hstep : ∀ s l s', Inv s → M.step s l = some s' → Inv s' ∧ μ s' < μ s) :
    ∀ (ls : List L) (s t : S), Inv s → M.run s ls = some t → ls.length + μ t ≤ μ s
  | [], s, t, _, hr => by
    cases hr
    exact Nat.le_of_eq (Nat.zero_add (μ s))
  | l :: ls, s, t, hs, hr => by
    obtain ⟨s', h1, h2⟩ := M.run_cons_eq_some.1 hr
    obtain ⟨hs', hlt⟩ := hstep s l s' hs h1
    have ih := length_add_le_of_run Inv μ hstep ls s' t hs' h2
    rw [List.length_cons]
    omega

/-- **The measure rule**: an invariant, a measure every step lowers, and a step from every state that is not final. -/
theorem terminates_of_measure {Final : S → Prop} (Inv : S → Prop) (μ : S → ℕ)
    (hstep : ∀ s l s', Inv s → M.step s l = some s' → Inv s' ∧ μ s' < μ s)
    (hprogress : ∀ s, Inv s → Final s ∨ ∃ l s', M.step s l = some s') {s : S} (hs : Inv s) : M.Terminates Final s := by
  refine ⟨⟨μ s, fun ls t hr => ?_⟩, fun ls t hr => ?_⟩
  · have hle := M.length_add_le_of_run Inv μ hstep ls s t hs hr
    omega
  · exact hprogress t (M.inv_of_run Inv (fun s l s' hi h => (hstep s l s' hi h).1) ls s t hs hr)

theorem Terminates.exists_final {Final : S → Prop} {s : S} (h : M.Terminates Final s) :
    ∃ ls t, M.run s ls = some t ∧ Final t := by
  obtain ⟨⟨bound, hbound⟩, hprogress⟩ := h
  -- otherwise runs of every length go on
  by_contra hnone
  have hlong : ∀ n, ∃ ls t, ls.length = n ∧ M.run s ls = some t := by
    intro n
    induction n with
    | zero => exact ⟨[], s, rfl, rfl⟩
    | succ n ih =>
      obtain ⟨ls, t, hlen, hr⟩ := ih
      rcases hprogress ls t hr with hfinal | ⟨l, t', hstep⟩
      · exact absurd ⟨ls, t, hr, hfinal⟩ hnone
      · exact ⟨ls ++ [l], t', by rw [List.length_append, hlen]; rfl, M.run_snoc hstep ls s hr⟩
  obtain ⟨ls, t, hlen, hr⟩ := hlong (bound + 1)
  have hle := hbound ls t hr
  omega

/-! ## Projection and relabelling -/

variable {K : Type v} {T : Type u} {M} {N : Machine T K} {g : S → T} {f : L → K}

/-- **A machine whose steps, seen in part, are another's, runs as that one does.** -/
theorem run_of_project (hstep : ∀ s l s', M.step s l = some s' → N.step (g s) (f l) = some (g s')) :
    ∀ (ls : List L) (s t : S), M.run s ls = some t → N.run (g s) (ls.map f) = some (g t)
  | [], s, t, hr => by cases hr; rfl
  | l :: ls, s, t, hr => by
    obtain ⟨s', h1, h2⟩ := M.run_cons_eq_some.1 hr
    exact N.run_cons_eq_some.2 ⟨g s', hstep s l s' h1, run_of_project hstep ls s' t h2⟩

theorem along_of_project {P : T → K → T → Prop}
    (hstep : ∀ s l s', M.step s l = some s' → N.step (g s) (f l) = some (g s')) :
    ∀ (ls : List L) (s : S), N.Along P (g s) (ls.map f) → M.Along (fun s l s' => P (g s) (f l) (g s')) s ls
  | [], _, _ => trivial
  | l :: ls, s, ha => by
    cases h : M.step s l with
    | none => rw [Along, h]; trivial
    | some s' =>
      rw [List.map_cons, N.along_cons_of_step (hstep s l s' h)] at ha
      rw [M.along_cons_of_step h]
      exact ⟨ha.1, along_of_project hstep ls s' ha.2⟩

/-- **A machine whose steps are another's, under other labels, runs as that one does.** -/
theorem run_of_relabel {N : Machine S K} (hstep : ∀ s l s', M.step s l = some s' → N.step s (f l) = some s')
    (ls : List L) (s t : S) (hr : M.run s ls = some t) : N.run s (ls.map f) = some t :=
  run_of_project (g := id) hstep ls s t hr

theorem along_of_relabel {N : Machine S K} {P : S → K → S → Prop}
    (hstep : ∀ s l s', M.step s l = some s' → N.step s (f l) = some s') :
    ∀ (ls : List L) (s t : S), M.run s ls = some t → M.Along (fun s l s' => P s (f l) s') s ls →
      N.Along P s (ls.map f)
  | [], _, _, _, _ => trivial
  | l :: ls, s, t, hr, ha => by
    obtain ⟨s', h1, h2⟩ := M.run_cons_eq_some.1 hr
    rw [M.along_cons_of_step h1] at ha
    rw [List.map_cons, N.along_cons_of_step (hstep s l s' h1)]
    exact ⟨ha.1, along_of_relabel hstep ls s' t h2 ha.2⟩

end Machine
end Lib
