import DevHarness.Ipc.Queue
import DevHarness.Lib.Dict
/-!
# Fanout — one queue for each attached client (`engine/fanout.py`)
-/
namespace DevHarness
namespace Engine

open Lib Ipc

variable {π : Type}

/-- A queue with room for an envelope, as every client is given: no put on it raises. -/
def ClientQueue (π : Type) : Type := {q : BackpressureQueue π // 1 ≤ q.capacity}

namespace ClientQueue

def new : ClientQueue π := ⟨{}, show 1 ≤ 2048 by decide⟩

def items (q : ClientQueue π) : List (Envelope π) := q.val.items

def put (q : ClientQueue π) (e : Envelope π) : ClientQueue π :=
  ⟨((q.val.put e).get (q.val.put_isSome q.property e)).2, by
    rw [q.val.put_capacity e (Option.some_get _).symm]
    exact q.property⟩

def drain (q : ClientQueue π) : List (Envelope π) × ClientQueue π :=
  ((q.val.getAll (q.val.items.length + 1)).1, ⟨(q.val.getAll (q.val.items.length + 1)).2, by
    rw [q.val.getAll_eq _ (Nat.lt_succ_self _)]
    exact q.property⟩)

@[simp] theorem drain_fst (q : ClientQueue π) : q.drain.1 = q.items :=
  congrArg Prod.fst (q.val.getAll_eq _ (Nat.lt_succ_self _))

@[simp] theorem drain_snd_items (q : ClientQueue π) : q.drain.2.items = [] :=
  congrArg (fun r => r.2.items) (q.val.getAll_eq _ (Nat.lt_succ_self _))

theorem put_items (q : ClientQueue π) (e : Envelope π) :
    ((q.put e).items = q.items ∧ q.val.isFull = true) ∨ ∃ left, left.Sublist q.items ∧ (q.put e).items = left ++ [e] ∧
      ((droppable e = true → q.val.isFull = false) → q.items.head?.all (fun x => !droppable x) = true →
        left.head? = q.items.head?) :=
  q.val.put_items e (Option.some_get _).symm

theorem items_ne_nil_of_isFull {q : ClientQueue π} (h : q.val.isFull = true) : q.items ≠ [] := by
  intro hnil
  have hlen : q.val.capacity ≤ q.val.items.length := by simpa [BackpressureQueue.isFull] using h
  have hpos := q.property
  unfold items at hnil
  rw [hnil, List.length_nil] at hlen
  omega

end ClientQueue

structure Fanout (π : Type) where
  queues : Dict String (ClientQueue π) := Dict.empty

namespace Fanout

/-- An attached client keeps the queue it has. -/
def attach (f : Fanout π) (clientId : String) : Fanout π :=
  match f.queues.get? clientId with
  | some _ => f
  | none => ⟨f.queues.set clientId ClientQueue.new⟩

def detach (f : Fanout π) (clientId : String) : Fanout π := ⟨f.queues.pop clientId⟩

def publish (f : Fanout π) (envelope : Envelope π) : Fanout π := ⟨f.queues.mapValues (fun q => q.put envelope)⟩

def publishTo (f : Fanout π) (clientId : String) (envelope : Envelope π) : Fanout π :=
  match f.queues.get? clientId with
  | none => f
  | some q => ⟨f.queues.set clientId (q.put envelope)⟩

def drain (f : Fanout π) (clientId : String) : List (Envelope π) × Fanout π :=
  match f.queues.get? clientId with
  | none => ([], f)
  | some q => (q.drain.1, ⟨f.queues.set clientId q.drain.2⟩)

/-- What is queued for a client: nothing when it is not attached. -/
def queued (f : Fanout π) (clientId : String) : List (Envelope π) :=
  match f.queues.get? clientId with
  | none => []
  | some q => q.items

theorem queued_of_some {f : Fanout π} {clientId : String} {q : ClientQueue π} (h : f.queues.get? clientId = some q) :
    f.queued clientId = q.items := by
  rw [queued, h]

theorem queued_of_none {f : Fanout π} {clientId : String} (h : f.queues.get? clientId = none) :
    f.queued clientId = [] := by
  rw [queued, h]

theorem attach_get? (f : Fanout π) (clientId c : String) :
    (f.attach clientId).queues.get? c =
      if c = clientId then some ((f.queues.get? c).getD ClientQueue.new) else f.queues.get? c := by
  unfold attach
  split
  · rename_i q hq
    by_cases hc : c = clientId
    · rw [if_pos hc, hc, hq]; rfl
    · rw [if_neg hc]
  · rename_i hq
    rw [Dict.get?_set]
    by_cases hc : c = clientId
    · rw [if_pos hc, if_pos hc, hc, hq]; rfl
    · rw [if_neg hc, if_neg hc]

theorem publish_get? (f : Fanout π) (e : Envelope π) (c : String) :
    (f.publish e).queues.get? c = (f.queues.get? c).map (fun q => q.put e) :=
  f.queues.get?_mapValues _ c

theorem publishTo_get? (f : Fanout π) (clientId : String) (e : Envelope π) (c : String) :
    (f.publishTo clientId e).queues.get? c =
      if c = clientId then (f.queues.get? c).map (fun q => q.put e) else f.queues.get? c := by
  unfold publishTo
  by_cases hc : c = clientId
  · subst hc
    rw [if_pos rfl]
    split
    · rename_i hq; rw [hq]; rfl
    · rename_i q hq; rw [hq, Dict.get?_set_self]; rfl
  · rw [if_neg hc]
    split
    · rfl
    · rw [Dict.get?_set_ne _ _ hc]

theorem drain_fst (f : Fanout π) (clientId : String) : (f.drain clientId).1 = f.queued clientId := by
  unfold drain queued
  split
  · rfl
  · rename_i q _
    exact q.drain_fst

theorem drain_get? (f : Fanout π) (clientId c : String) :
    (f.drain clientId).2.queues.get? c =
      if c = clientId then (f.queues.get? c).map (fun q => q.drain.2) else f.queues.get? c := by
  unfold drain
  by_cases hc : c = clientId
  · subst hc
    rw [if_pos rfl]
    split
    · rename_i hq; rw [hq]; rfl
    · rename_i q hq; rw [hq, Dict.get?_set_self]; rfl
  · rw [if_neg hc]
    split
    · rfl
    · rw [Dict.get?_set_ne _ _ hc]

theorem detach_get? (f : Fanout π) (clientId c : String) :
    (f.detach clientId).queues.get? c = if c = clientId then none else f.queues.get? c :=
  f.queues.get?_pop clientId c

theorem queued_attach (f : Fanout π) (clientId c : String) : (f.attach clientId).queued c = f.queued c := by
  have hget := f.attach_get? clientId c
  by_cases hc : c = clientId
  · rw [if_pos hc] at hget
    rw [queued_of_some hget]
    cases hq : f.queues.get? c with
    | none => rw [queued_of_none hq]; rfl
    | some q => rw [queued_of_some hq]; rfl
  · rw [if_neg hc] at hget
    rw [queued, queued, hget]

theorem queued_detach (f : Fanout π) (clientId c : String) :
    (f.detach clientId).queued c = if c = clientId then [] else f.queued c := by
  have hget := f.detach_get? clientId c
  by_cases hc : c = clientId
  · rw [if_pos hc] at hget
    rw [if_pos hc, queued_of_none hget]
  · rw [if_neg hc] at hget
    rw [if_neg hc, queued, queued, hget]

theorem queued_drain (f : Fanout π) (clientId c : String) :
    (f.drain clientId).2.queued c = if c = clientId then [] else f.queued c := by
  have hget := f.drain_get? clientId c
  by_cases hc : c = clientId
  · rw [if_pos hc] at hget
    rw [if_pos hc]
    cases hq : f.queues.get? c with
    | none =>
      rw [hq] at hget
      exact queued_of_none hget
    | some q =>
      rw [hq] at hget
      rw [queued_of_some hget, ClientQueue.drain_snd_items]
  · rw [if_neg hc] at hget
    rw [if_neg hc, queued, queued, hget]

end Fanout
end Engine
end DevHarness
