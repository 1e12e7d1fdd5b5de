import DevHarness.Lib.Machine
import Mathlib.Logic.Function.Basic
/-!
# SharedStream — several writers on one stream, each message in parts

A writer starts a message and then hands it over a part at a time; between two parts any other writer may hand over one
of its own.  What was received is whole messages, with at most the start of one more behind them (`Whole`), in every run
in which no part is handed over while another writer's message is partly out (`whole_of_oneAtATime`).
-/
namespace Lib

universe u v

/-- A writer: the messages it is through with, and of the one it is at what is out and what is not. -/
structure Writing (B : Type v) where
  done : List (List B) := []
  sent : List B := []
  rest : List B := []
  deriving DecidableEq

structure SharedStream (W : Type u) (B : Type v) where
  received : List B
  writing : W → Writing B

namespace SharedStream

variable {W : Type u} {B : Type v} [DecidableEq W]

def empty : SharedStream W B := ⟨[], fun _ => {}⟩

inductive Act (W : Type u) (B : Type v) where
  | start (w : W) (message : List B)
  -- the next `n + 1` elements of the message go out together
  | write (w : W) (n : Nat)

def start (s : SharedStream W B) (w : W) (message : List B) : Option (SharedStream W B) :=
  if (s.writing w).rest = [] ∧ message ≠ [] then
    some { s with writing := Function.update s.writing w { (s.writing w) with sent := [], rest := message } }
  else none

/-- The writer after the next `n + 1` elements. -/
def Writing.advance (x : Writing B) (n : Nat) : Writing B :=
  if x.rest.drop (n + 1) = [] then ⟨x.done ++ [x.sent ++ x.rest.take (n + 1)], [], []⟩
  else ⟨x.done, x.sent ++ x.rest.take (n + 1), x.rest.drop (n + 1)⟩

def write (s : SharedStream W B) (w : W) (n : Nat) : Option (SharedStream W B) :=
  if n < (s.writing w).rest.length then
    some ⟨s.received ++ (s.writing w).rest.take (n + 1),
      Function.update s.writing w (Writing.advance (s.writing w) n)⟩
  else none

def machine (W : Type u) (B : Type v) [DecidableEq W] : Machine (SharedStream W B) (Act W B) where
  step s
    | .start w message => s.start w message
    | .write w n => s.write w n

/-- Only one writer has a message partly out, and this is the part. -/
def PartOfOne (s : SharedStream W B) (part : List B) : Prop :=
  (part = [] ∧ ∀ v, (s.writing v).sent = []) ∨ ∃ w, part = (s.writing w).sent ∧ ∀ v, v ≠ w → (s.writing v).sent = []

/-- **Whole messages**: what was received is every writer's messages, each in one piece and each writer's in its order,
and then at most the start of one more. -/
def Whole (s : SharedStream W B) : Prop :=
  ∃ order : List (W × List B), (∀ w, (order.filter (fun m => m.1 = w)).map Prod.snd = (s.writing w).done) ∧
    ∃ part, s.received = (order.map Prod.snd).flatten ++ part ∧ s.PartOfOne part

/-- **No part goes out while another writer's message is partly out.** -/
def OneAtATime (s : SharedStream W B) : Act W B → SharedStream W B → Prop
  | .start _ _, _ => True
  | .write w _, _ => ∀ v, v ≠ w → (s.writing v).sent = []

/-- A writer between two messages has none partly out. -/
def Settled (s : SharedStream W B) : Prop := ∀ w, (s.writing w).rest = [] → (s.writing w).sent = []

theorem whole_empty : (empty : SharedStream W B).Whole := ⟨[], fun _ => rfl, [], rfl, Or.inl ⟨rfl, fun _ => rfl⟩⟩

theorem start_eq_some {s s' : SharedStream W B} {w : W} {message : List B} (h : s.start w message = some s') :
    (s.writing w).rest = [] ∧ message ≠ [] ∧ s'.received = s.received ∧
      s'.writing = Function.update s.writing w { (s.writing w) with sent := [], rest := message } := by
  unfold start at h
  split at h
  · rename_i hidle
    cases h
    exact ⟨hidle.1, hidle.2, rfl, rfl⟩
  · cases h

theorem write_eq_some {s s' : SharedStream W B} {w : W} {n : Nat} (h : s.write w n = some s') :
    n < (s.writing w).rest.length ∧ s'.received = s.received ++ (s.writing w).rest.take (n + 1) ∧
      s'.writing = Function.update s.writing w (Writing.advance (s.writing w) n) := by
  unfold write at h
  split at h
  · rename_i hlt
    cases h
    exact ⟨hlt, rfl, rfl⟩
  · cases h

/-- Starting a message puts nothing out. -/
theorem sent_start {s s' : SharedStream W B} {w : W} {message : List B} (hsettled : s.Settled)
    (h : s.start w message = some s') (v : W) :
    (s'.writing v).sent = (s.writing v).sent ∧ (s'.writing v).done = (s.writing v).done := by
  obtain ⟨hidle, -, -, hwriting⟩ := start_eq_some h
  rw [hwriting]
  by_cases hv : v = w
  · rw [hv, Function.update_self]
    exact ⟨(hsettled w hidle).symm, rfl⟩
  · rw [Function.update_of_ne hv]
    exact ⟨rfl, rfl⟩

theorem settled_step {s s' : SharedStream W B} {a : Act W B} (hsettled : s.Settled)
    (h : (machine W B).step s a = some s') : s'.Settled := by
  intro v hrest
  cases a with
  | start w message =>
    obtain ⟨hidle, hne, -, hwriting⟩ := start_eq_some h
    rw [(sent_start hsettled h v).1]
    by_cases hv : v = w
    · exact hsettled v (hv ▸ hidle)
    · rw [hwriting, Function.update_of_ne hv] at hrest
      exact hsettled v hrest
  | write w n =>
    obtain ⟨-, -, hwriting⟩ := write_eq_some h
    rw [hwriting] at hrest ⊢
    by_cases hv : v = w
    · rw [hv, Function.update_self] at hrest ⊢
      unfold Writing.advance at hrest ⊢
      by_cases hlast : (s.writing w).rest.drop (n + 1) = []
      · rw [if_pos hlast]
      · rw [if_neg hlast] at hrest
        exact absurd hrest hlast
    · rw [Function.update_of_ne hv] at hrest ⊢
      exact hsettled v hrest

theorem whole_start {s s' : SharedStream W B} {w : W} {message : List B} (hsettled : s.Settled) (hwhole : s.Whole)
    (h : s.start w message = some s') : s'.Whole := by
  obtain ⟨order, horder, part, hreceived, hpart⟩ := hwhole
  have hsame := sent_start hsettled h
  refine ⟨order, fun v => (horder v).trans (hsame v).2.symm, part, (start_eq_some h).2.2.1.trans hreceived, ?_⟩
  rcases hpart with ⟨hnil, hall⟩ | ⟨x, hx, hothers⟩
  · exact Or.inl ⟨hnil, fun v => (hsame v).1.trans (hall v)⟩
  · exact Or.inr ⟨x, hx.trans (hsame x).1.symm, fun v hv => (hsame v).1.trans (hothers v hv)⟩

/-- The part that is out is the writer's own, where no other has one. -/
theorem PartOfOne.eq_sent {s : SharedStream W B} {part : List B} (h : s.PartOfOne part) {w : W}
    (hothers : ∀ v, v ≠ w → (s.writing v).sent = []) : part = (s.writing w).sent := by
  rcases h with ⟨hnil, hall⟩ | ⟨x, hx, hrest⟩
  · rw [hnil, hall w]
  · by_cases hw : x = w
    · rw [← hw]
      exact hx
    · rw [hx, hothers x hw, hrest w (Ne.symm hw)]

theorem whole_write {s s' : SharedStream W B} {w : W} {n : Nat} (hwhole : s.Whole)
    (hone : ∀ v, v ≠ w → (s.writing v).sent = []) (h : s.write w n = some s') : s'.Whole := by
  obtain ⟨order, horder, part, hreceived, hpart⟩ := hwhole
  obtain ⟨-, hreceived', hwriting⟩ := write_eq_some h
  rw [hreceived, hpart.eq_sent hone] at hreceived'
  have hothers : ∀ v, v ≠ w → s'.writing v = s.writing v := fun v hv => by rw [hwriting, Function.update_of_ne hv]
  have hself : s'.writing w = Writing.advance (s.writing w) n := by rw [hwriting, Function.update_self]
  by_cases hlast : (s.writing w).rest.drop (n + 1) = []
  · -- the last part: the message is whole, and nothing is partly out
    rw [Writing.advance, if_pos hlast] at hself
    refine ⟨order ++ [(w, (s.writing w).sent ++ (s.writing w).rest.take (n + 1))], fun v => ?_, [], ?_,
      Or.inl ⟨rfl, fun v => ?_⟩⟩
    · rw [List.filter_append, List.map_append, horder v]
      by_cases hv : v = w
      · rw [hv, hself]
        simp
      · rw [hothers v hv]
        simp [Ne.symm hv]
    · rw [hreceived']
      simp
    · by_cases hv : v = w
      · rw [hv, hself]
      · rw [hothers v hv]
        exact hone v hv
  · rw [Writing.advance, if_neg hlast] at hself
    refine ⟨order, fun v => ?_, (s'.writing w).sent, ?_, Or.inr ⟨w, rfl, fun v hv => ?_⟩⟩
    · by_cases hv : v = w
      · rw [hv, hself]
        exact horder w
      · rw [hothers v hv]
        exact horder v
    · rw [hreceived', hself, List.append_assoc]
    · rw [hothers v hv]
      exact hone v hv

/-- **One message at a time leaves every message whole.** -/
theorem whole_of_oneAtATime (acts : List (Act W B)) (s : SharedStream W B)
    (hone : (machine W B).Along OneAtATime empty acts) (hrun : (machine W B).run empty acts = some s) : s.Whole := by
  have hinv := (machine W B).inv_of_along (fun s => s.Settled ∧ s.Whole) (P := OneAtATime) (fun s a s' hs hp h => by
    refine ⟨settled_step hs.1 h, ?_⟩
    cases a with
    | start w message => exact whole_start hs.1 hs.2 h
    | write w n => exact whole_write hs.2 hp h) acts empty s ⟨fun _ _ => rfl, whole_empty⟩ hone hrun
  exact hinv.2

end SharedStream
end Lib
