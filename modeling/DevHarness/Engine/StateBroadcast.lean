import DevHarness.Engine.Fanout
import DevHarness.Lib.Machine
import Mathlib.Data.List.Pairwise
/-!
# StateBroadcast — the SNAPSHOT an attaching client drains first (`engine/state_broadcast.py`)

Clients attach, detach and drain while envelopes are published and `on_attach` calls are under way: each call builds
its SNAPSHOT and enqueues it, two steps between which others run.  Every envelope in a queue is stamped with the moment
it was put there, which no step reads.  What a client has drained since it attached starts with its SNAPSHOT
(`SnapshotFirst`) along every run that gives no client anything before it (`SnapshotHeld`).
-/
namespace DevHarness
namespace Engine

open Lib Ipc

variable {σ τ : Type}

/-- A payload is the state of a SNAPSHOT or that of another event. -/
inductive Payload (σ τ : Type) where
  | snapshot (state : σ)
  | other (p : τ)
  deriving DecidableEq

/-- The attach a SNAPSHOT was built for and the moment it was. -/
structure Made where
  client : String
  attachedAt : Option ℕ
  builtAt : ℕ
  deriving DecidableEq

/-- A payload with the moment its envelope was published, and where it is a SNAPSHOT of `on_attach`, how it was made. -/
structure Stamped (σ τ : Type) where
  publishedAt : ℕ
  made : Option Made
  payload : Payload σ τ
  deriving DecidableEq

def stamp (moment : ℕ) (made : Option Made) (e : Envelope (Payload σ τ)) : Envelope (Stamped σ τ) :=
  ⟨e.type, e.seq, ⟨moment, made, e.payload⟩⟩

/-- A client since it last attached. -/
structure Session (σ τ : Type) where
  attachedAt : ℕ
  drained : List (Envelope (Stamped σ τ)) := []
  deriving DecidableEq

def recordDrained (sessions : Dict String (Session σ τ)) (clientId : String) (l : List (Envelope (Stamped σ τ))) :
    Dict String (Session σ τ) :=
  match sessions.get? clientId with
  | none => sessions
  | some s => sessions.set clientId { s with drained := s.drained ++ l }

theorem get?_recordDrained (sessions : Dict String (Session σ τ)) (clientId : String)
    (l : List (Envelope (Stamped σ τ))) (c : String) :
    (recordDrained sessions clientId l).get? c = if c = clientId then
      (sessions.get? c).map (fun s => { s with drained := s.drained ++ l }) else sessions.get? c := by
  unfold recordDrained
  by_cases hc : c = clientId
  · subst hc
    rw [if_pos rfl]
    split
    · rename_i hs; rw [hs]; rfl
    · rename_i s hs; rw [hs, Dict.get?_set_self]; rfl
  · rw [if_neg hc]
    split
    · rfl
    · rw [Dict.get?_set_ne _ _ hc]

/-- The broadcast and its fanout, the `on_attach` calls that have built their SNAPSHOT, and what the clients drained. -/
structure StateBroadcast (σ τ : Type) where
  fanout : Fanout (Stamped σ τ) := {}
  stateOf : σ
  calls : List (Made × Envelope (Payload σ τ)) := []
  sessions : Dict String (Session σ τ) := Dict.empty
  moment : ℕ := 0

inductive BroadcastStep (σ τ : Type) where
  | attach (clientId : String)
  | build (clientId : String)
  | enqueue (call : ℕ)
  | publish (envelope : Envelope (Payload σ τ))
  | detach (clientId : String)
  | drain (clientId : String)
  | change (state : σ)

namespace StateBroadcast

def snapshotFor (b : StateBroadcast σ τ) (_clientId : String) : Envelope (Payload σ τ) :=
  { type := .snapshot, payload := .snapshot b.stateOf }

def made (b : StateBroadcast σ τ) (clientId : String) : Made :=
  ⟨clientId, (b.sessions.get? clientId).map Session.attachedAt, b.moment⟩

/-- One step; `on_attach` is `build` (its `snapshot_for`) and the `enqueue` of that call (its `publish_to`). -/
def step (b : StateBroadcast σ τ) : BroadcastStep σ τ → Option (StateBroadcast σ τ)
  | .attach c => some { b with
      fanout := b.fanout.attach c, sessions := b.sessions.set c ⟨b.moment, []⟩, moment := b.moment + 1 }
  | .build c => some { b with calls := b.calls ++ [(b.made c, b.snapshotFor c)], moment := b.moment + 1 }
  | .enqueue i => (b.calls[i]?).map (fun call => { b with
      fanout := b.fanout.publishTo call.1.client (stamp b.moment (some call.1) call.2)
      calls := b.calls.eraseIdx i
      moment := b.moment + 1 })
  | .publish e => some { b with fanout := b.fanout.publish (stamp b.moment none e), moment := b.moment + 1 }
  | .detach c => some { b with fanout := b.fanout.detach c, moment := b.moment + 1 }
  | .drain c => some { b with
      fanout := (b.fanout.drain c).2
      sessions := recordDrained b.sessions c (b.fanout.drain c).1
      moment := b.moment + 1 }
  | .change state => some { b with stateOf := state, moment := b.moment + 1 }

end StateBroadcast

def broadcastMachine : Machine (StateBroadcast σ τ) (BroadcastStep σ τ) := ⟨StateBroadcast.step⟩

/-- **The SNAPSHOT first**: nothing, or the SNAPSHOT made for this attach of the client and then what was published
after it was built, in publish order. -/
def SnapshotLeads (c : String) (attachedAt : ℕ) (l : List (Envelope (Stamped σ τ))) : Prop :=
  l = [] ∨ ∃ first rest made, l = first :: rest ∧ first.type = .snapshot ∧ first.payload.made = some made ∧
    made.client = c ∧ made.attachedAt = some attachedAt ∧ (∀ e ∈ rest, made.builtAt < e.payload.publishedAt) ∧
    rest.Pairwise (fun e e' => e.payload.publishedAt < e'.payload.publishedAt)

def SnapshotFirst (b : StateBroadcast σ τ) : Prop :=
  ∀ c s, b.sessions.get? c = some s → SnapshotLeads c s.attachedAt s.drained

/-- What an attached client has drained since it attached, and what is queued for it. -/
def StateBroadcast.received (b : StateBroadcast σ τ) (c : String) (s : Session σ τ) : List (Envelope (Stamped σ τ)) :=
  s.drained ++ b.fanout.queued c

/-- **The step holds every client's SNAPSHOT first**: a client attaches with an empty queue, a SNAPSHOT that is the
first thing its client gets was made for its attach, and no envelope is published to a client still without one, nor a
token to a full queue its SNAPSHOT heads. -/
def SnapshotHeld (b : StateBroadcast σ τ) : BroadcastStep σ τ → Prop
  | .attach c => b.fanout.queued c = []
  | .enqueue i => ∀ call ∈ b.calls[i]?, (b.fanout.queues.get? call.1.client).isSome = true →
      ∀ s ∈ b.sessions.get? call.1.client, b.received call.1.client s = [] → call.1.attachedAt = some s.attachedAt
  | .publish e => ∀ p ∈ b.fanout.queues.items, ∀ s ∈ b.sessions.get? p.1,
      b.received p.1 s ≠ [] ∧ (droppable e = true → p.2.val.isFull = true → s.drained ≠ [])
  | .build _ | .detach _ | .drain _ | .change _ => True

instance [DecidableEq σ] [DecidableEq τ] (b : StateBroadcast σ τ) : ∀ step, Decidable (SnapshotHeld b step)
  | .attach _ => inferInstanceAs (Decidable (_ = _))
  | .enqueue i => inferInstanceAs (Decidable (∀ call ∈ b.calls[i]?, _ → ∀ s ∈ b.sessions.get? call.1.client, _))
  | .publish _ => inferInstanceAs (Decidable (∀ p ∈ b.fanout.queues.items, ∀ s ∈ b.sessions.get? p.1, _ ∧ _))
  | .build _ => inferInstanceAs (Decidable True)
  | .detach _ => inferInstanceAs (Decidable True)
  | .drain _ => inferInstanceAs (Decidable True)
  | .change _ => inferInstanceAs (Decidable True)

/-! ## What a client receives -/

/-- Every envelope was published, and every SNAPSHOT built, before this moment. -/
def Past (moment : ℕ) (l : List (Envelope (Stamped σ τ))) : Prop :=
  ∀ e ∈ l, e.payload.publishedAt < moment ∧ ∀ m ∈ e.payload.made, m.builtAt < moment

theorem SnapshotLeads.shrink {c : String} {a : ℕ} {l l' : List (Envelope (Stamped σ τ))} (h : SnapshotLeads c a l)
    (hsub : l'.Sublist l) (hhead : l' = [] ∨ l'.head? = l.head?) : SnapshotLeads c a l' := by
  cases l' with
  | nil => exact Or.inl rfl
  | cons x rest' =>
    rcases h with rfl | ⟨first, rest, made, rfl, htype, hmade, hclient, hattached, hlater, horder⟩
    · cases hsub
    · have hx : x = first := by simpa using hhead
      subst hx
      have hrest : rest'.Sublist rest := List.cons_sublist_cons.1 hsub
      exact Or.inr ⟨x, rest', made, rfl, htype, hmade, hclient, hattached, fun e he => hlater e (hrest.subset he),
        horder.sublist hrest⟩

/-- What is published now may follow whatever the client has. -/
theorem SnapshotLeads.append {c : String} {a moment : ℕ} {l : List (Envelope (Stamped σ τ))} (h : SnapshotLeads c a l)
    (hne : l ≠ []) (hpast : Past moment l) (made : Option Made) (e : Envelope (Payload σ τ)) :
    SnapshotLeads c a (l ++ [stamp moment made e]) := by
  rcases h with rfl | ⟨first, rest, m, rfl, htype, hmade, hclient, hattached, hlater, horder⟩
  · exact absurd rfl hne
  · refine Or.inr ⟨first, rest ++ [stamp moment made e], m, rfl, htype, hmade, hclient, hattached, ?_, ?_⟩
    · intro x hx
      rcases List.mem_append.1 hx with hx | hx
      · exact hlater x hx
      · rw [List.mem_singleton.1 hx]
        exact (hpast first List.mem_cons_self).2 m hmade
    · refine List.pairwise_append.2 ⟨horder, List.pairwise_singleton _ _, fun x hx y hy => ?_⟩
      rw [List.mem_singleton.1 hy]
      exact (hpast x (List.mem_cons_of_mem _ hx)).1

theorem SnapshotLeads.head_control {c : String} {a : ℕ} {l : List (Envelope (Stamped σ τ))} (h : SnapshotLeads c a l) :
    l.head?.all (fun x => !droppable x) = true := by
  rcases h with rfl | ⟨first, rest, made, rfl, htype, -⟩
  · rfl
  · simp [droppable, htype]

/-- **A put keeps the SNAPSHOT first** in what a client that has one receives, unless it is a token that finds the
queue full with the SNAPSHOT still in it. -/
theorem SnapshotLeads.put {c : String} {a moment : ℕ} {drained : List (Envelope (Stamped σ τ))}
    {q : ClientQueue (Stamped σ τ)} (h : SnapshotLeads c a (drained ++ q.items)) (hpast : Past moment (drained ++ q.items))
    (hne : drained ++ q.items ≠ []) (made : Option Made) (e : Envelope (Payload σ τ))
    (hshed : droppable e = true → q.val.isFull = true → drained ≠ []) :
    SnapshotLeads c a (drained ++ (q.put (stamp moment made e)).items) := by
  rcases q.put_items (stamp moment made e) with ⟨hsame, -⟩ | ⟨left, hsub, hput, hleft⟩
  · rw [hsame]
    exact h
  · have hdropped : (drained ++ left).Sublist (drained ++ q.items) := (List.Sublist.refl _).append hsub
    have hhead : (drained ++ left).head? = (drained ++ q.items).head? := by
      cases drained with
      | cons x d => rfl
      | nil =>
        refine hleft (fun hd => ?_) h.head_control
        cases hfull : q.val.isFull with
        | false => rfl
        | true => exact absurd rfl (hshed hd hfull)
    have hleads := h.shrink hdropped (Or.inr hhead)
    rw [hput, ← List.append_assoc]
    refine hleads.append (fun hnil => ?_) (fun x hx => hpast x (hdropped.subset hx)) made e
    rw [hnil] at hhead
    exact hne (List.head?_eq_none_iff.1 hhead.symm)

theorem ClientQueue.mem_put {π : Type} {q : ClientQueue π} {e x : Envelope π} (h : x ∈ (q.put e).items) :
    x = e ∨ x ∈ q.items := by
  rcases q.put_items e with ⟨hsame, -⟩ | ⟨left, hsub, hput, -⟩
  · exact Or.inr (hsame ▸ h)
  · rw [hput, List.mem_append, List.mem_singleton] at h
    exact h.elim (fun hx => Or.inr (hsub.subset hx)) Or.inl

/-- The first thing put in an empty queue is there. -/
theorem ClientQueue.put_of_nil {π : Type} {q : ClientQueue π} (h : q.items = []) (e : Envelope π) :
    (q.put e).items = [e] := by
  rcases q.put_items e with ⟨-, hfull⟩ | ⟨left, hsub, hput, -⟩
  · exact absurd h (ClientQueue.items_ne_nil_of_isFull hfull)
  · rw [h, List.sublist_nil] at hsub
    rw [hput, hsub, List.nil_append]

theorem Past.mono {moment : ℕ} {l : List (Envelope (Stamped σ τ))} (h : Past moment l) : Past (moment + 1) l := by
  intro e he
  exact ⟨Nat.lt_succ_of_lt (h e he).1, fun m hm => Nat.lt_succ_of_lt ((h e he).2 m hm)⟩

/-- Every client's SNAPSHOT leads what it receives. -/
structure Held (b : StateBroadcast σ τ) : Prop where
  session : ∀ c q, b.fanout.queues.get? c = some q → ∃ s, b.sessions.get? c = some s
  leads : ∀ c s, b.sessions.get? c = some s → SnapshotLeads c s.attachedAt (b.received c s)
  past : ∀ c s, b.sessions.get? c = some s → Past b.moment (b.received c s)
  built : ∀ call ∈ b.calls, call.2.type = .snapshot ∧ call.1.builtAt < b.moment

theorem Held.first {b : StateBroadcast σ τ} (h : Held b) : SnapshotFirst b := by
  intro c s hs
  refine (h.leads c s hs).shrink (List.sublist_append_left _ _) ?_
  cases hd : s.drained with
  | nil => exact Or.inl rfl
  | cons x rest =>
    unfold StateBroadcast.received
    rw [hd]
    exact Or.inr rfl

/-- **A put that keeps each SNAPSHOT first keeps the invariant**: of one envelope, in some of the clients' queues. -/
theorem Held.put {b b' : StateBroadcast σ τ} (h : Held b) (made : Option Made) (e : Envelope (Payload σ τ))
    (hmade : ∀ m ∈ made, m.builtAt < b.moment) (hmoment : b'.moment = b.moment + 1) (hsessions : b'.sessions = b.sessions)
    (hcalls : ∀ call ∈ b'.calls, call ∈ b.calls)
    (hqueues : ∀ c, b'.fanout.queues.get? c = b.fanout.queues.get? c ∨
      (b'.fanout.queues.get? c = (b.fanout.queues.get? c).map (fun q => q.put (stamp b.moment made e)) ∧
        ∀ q, b.fanout.queues.get? c = some q → ∀ s, b.sessions.get? c = some s →
          SnapshotLeads c s.attachedAt (s.drained ++ (q.put (stamp b.moment made e)).items))) : Held b' := by
  have hreceived : ∀ c s, b.sessions.get? c = some s →
      SnapshotLeads c s.attachedAt (b'.received c s) ∧ Past b'.moment (b'.received c s) := by
    intro c s hs
    have hleads := h.leads c s hs
    have hpast := h.past c s hs
    rw [hmoment]
    rcases hqueues c with hsame | ⟨hput, hkeeps⟩
    · have heq : b'.received c s = b.received c s := by
        unfold StateBroadcast.received Fanout.queued
        rw [hsame]
      rw [heq]
      exact ⟨hleads, hpast.mono⟩
    · cases hq : b.fanout.queues.get? c with
      | none =>
        rw [hq] at hput
        unfold StateBroadcast.received at hleads hpast ⊢
        rw [Fanout.queued_of_none hq] at hleads hpast
        rw [Fanout.queued_of_none hput]
        exact ⟨hleads, hpast.mono⟩
      | some q =>
        rw [hq] at hput
        unfold StateBroadcast.received at hpast ⊢
        rw [Fanout.queued_of_some hq] at hpast
        rw [Fanout.queued_of_some hput]
        refine ⟨hkeeps q hq s hs, fun x hx => ?_⟩
        rcases List.mem_append.1 hx with hx | hx
        · exact hpast.mono x (List.mem_append_left _ hx)
        · rcases q.mem_put hx with rfl | hx
          · exact ⟨Nat.lt_succ_self _, fun m hm => Nat.lt_succ_of_lt (hmade m hm)⟩
          · exact hpast.mono x (List.mem_append_right _ hx)
  refine ⟨fun c q' hq' => ?_, fun c s hs => ?_, fun c s hs => ?_, fun call hcall => ?_⟩
  · rw [hsessions]
    rcases hqueues c with hsame | ⟨hput, -⟩
    · exact h.session c q' (hsame ▸ hq')
    · rw [hput] at hq'
      obtain ⟨q, hq, -⟩ := Option.map_eq_some_iff.1 hq'
      exact h.session c q hq
  · exact (hreceived c s (hsessions ▸ hs)).1
  · exact (hreceived c s (hsessions ▸ hs)).2
  · have hold := h.built call (hcalls call hcall)
    exact ⟨hold.1, by omega⟩

/-- An envelope published where every client has its SNAPSHOT. -/
theorem held_publish {b : StateBroadcast σ τ} (h : Held b) (e : Envelope (Payload σ τ))
    (hok : SnapshotHeld b (.publish e)) :
    Held { b with fanout := b.fanout.publish (stamp b.moment none e), moment := b.moment + 1 } := by
  refine h.put none e (fun m hm => by cases hm) rfl rfl (fun call hcall => hcall) (fun c => Or.inr ?_)
  refine ⟨b.fanout.publish_get? _ c, fun q hq s hs => ?_⟩
  obtain ⟨hne, hshed⟩ := hok (c, q) ((Dict.get?_eq_some_iff _ _ _).1 hq) s hs
  have hleads := h.leads c s hs
  have hpast := h.past c s hs
  unfold StateBroadcast.received at hleads hpast hne
  rw [Fanout.queued_of_some hq] at hleads hpast hne
  exact hleads.put hpast hne none e hshed

/-- A SNAPSHOT enqueued to its client, as its first envelope or a later one. -/
theorem held_enqueue {b : StateBroadcast σ τ} (h : Held b) {i : ℕ} {call : Made × Envelope (Payload σ τ)}
    (hcall : b.calls[i]? = some call) (hok : SnapshotHeld b (.enqueue i)) :
    Held { b with
      fanout := b.fanout.publishTo call.1.client (stamp b.moment (some call.1) call.2)
      calls := b.calls.eraseIdx i
      moment := b.moment + 1 } := by
  obtain ⟨htype, hbuilt⟩ := h.built call (List.mem_of_getElem? hcall)
  refine h.put (some call.1) call.2 (fun m hm => by cases hm; exact hbuilt) rfl rfl
    (fun c hc => (List.eraseIdx_sublist _ _).subset hc) (fun c => ?_)
  have hget := b.fanout.publishTo_get? call.1.client (stamp b.moment (some call.1) call.2) c
  by_cases hc : c = call.1.client
  · rw [if_pos hc] at hget
    refine Or.inr ⟨hget, fun q hq s hs => ?_⟩
    have hleads := h.leads c s hs
    have hpast := h.past c s hs
    have hfirst := hok call hcall (by rw [← hc, hq]; rfl) s (hc ▸ hs)
    rw [← hc] at hfirst
    unfold StateBroadcast.received at hleads hpast hfirst
    rw [Fanout.queued_of_some hq] at hleads hpast hfirst
    by_cases hnil : s.drained ++ q.items = []
    · have hitems := (List.append_eq_nil_iff.1 hnil).2
      rw [ClientQueue.put_of_nil hitems, (List.append_eq_nil_iff.1 hnil).1, List.nil_append]
      exact Or.inr ⟨_, [], call.1, rfl, htype, rfl, hc.symm, hfirst hnil, (fun x hx => by cases hx),
        List.Pairwise.nil⟩
    · refine hleads.put hpast hnil (some call.1) call.2 (fun hd => ?_)
      simp [droppable, htype] at hd
  · rw [if_neg hc] at hget
    exact Or.inl hget

/-- **A step that puts nothing keeps the invariant**: each client starts anew, or has what it had, queued or not. -/
theorem Held.quiet {b b' : StateBroadcast σ τ} (h : Held b) (hmoment : b'.moment = b.moment + 1)
    (hsession : ∀ c q, b'.fanout.queues.get? c = some q → ∃ s, b'.sessions.get? c = some s)
    (hreceived : ∀ c s', b'.sessions.get? c = some s' → b'.received c s' = [] ∨ ∃ s, b.sessions.get? c = some s ∧
      s'.attachedAt = s.attachedAt ∧ (b'.received c s' = b.received c s ∨ b'.received c s' = s.drained))
    (hbuilt : ∀ call ∈ b'.calls, call ∈ b.calls ∨ call.2.type = .snapshot ∧ call.1.builtAt = b.moment) : Held b' := by
  have hboth : ∀ c s', b'.sessions.get? c = some s' →
      SnapshotLeads c s'.attachedAt (b'.received c s') ∧ Past b'.moment (b'.received c s') := by
    intro c s' hs'
    rw [hmoment]
    rcases hreceived c s' hs' with hnil | ⟨s, hs, hattached, hsame | hdrained⟩
    · rw [hnil]
      exact ⟨Or.inl rfl, fun e he => by cases he⟩
    · rw [hattached, hsame]
      exact ⟨h.leads c s hs, (h.past c s hs).mono⟩
    · rw [hattached, hdrained]
      exact ⟨h.first c s hs, fun e he => (h.past c s hs).mono e (List.mem_append_left _ he)⟩
  refine ⟨hsession, fun c s hs => (hboth c s hs).1, fun c s hs => (hboth c s hs).2, fun call hcall => ?_⟩
  rw [hmoment]
  rcases hbuilt call hcall with hcall | ⟨htype, hnow⟩
  · exact ⟨(h.built call hcall).1, Nat.lt_succ_of_lt (h.built call hcall).2⟩
  · exact ⟨htype, by omega⟩

theorem held_attach {b : StateBroadcast σ τ} (h : Held b) {clientId : String} (hok : b.fanout.queued clientId = []) :
    Held { b with
      fanout := b.fanout.attach clientId
      sessions := b.sessions.set clientId ⟨b.moment, []⟩
      moment := b.moment + 1 } := by
  refine h.quiet rfl (fun c q hq => ?_) (fun c s' hs' => ?_) (fun call hcall => Or.inl hcall)
  · show ∃ s, (b.sessions.set clientId ⟨b.moment, []⟩).get? c = some s
    rw [Dict.get?_set]
    by_cases hc : c = clientId
    · exact ⟨_, if_pos hc⟩
    · rw [if_neg hc]
      have hget := b.fanout.attach_get? clientId c
      rw [if_neg hc] at hget
      exact h.session c q (hget ▸ hq)
  · have hs : (b.sessions.set clientId ⟨b.moment, []⟩).get? c = some s' := hs'
    unfold StateBroadcast.received
    rw [Fanout.queued_attach]
    rw [Dict.get?_set] at hs
    by_cases hc : c = clientId
    · rw [if_pos hc] at hs
      cases hs
      rw [hc, hok]
      exact Or.inl rfl
    · rw [if_neg hc] at hs
      exact Or.inr ⟨s', hs, rfl, Or.inl rfl⟩

theorem held_detach {b : StateBroadcast σ τ} (h : Held b) (clientId : String) :
    Held { b with fanout := b.fanout.detach clientId, moment := b.moment + 1 } := by
  refine h.quiet rfl (fun c q hq => ?_) (fun c s hs => ?_) (fun call hcall => Or.inl hcall)
  · have hget := b.fanout.detach_get? clientId c
    by_cases hc : c = clientId
    · rw [if_pos hc] at hget
      rw [hget] at hq
      cases hq
    · rw [if_neg hc] at hget
      exact h.session c q (hget ▸ hq)
  · refine Or.inr ⟨s, hs, rfl, ?_⟩
    unfold StateBroadcast.received
    rw [Fanout.queued_detach]
    by_cases hc : c = clientId
    · rw [if_pos hc, List.append_nil]
      exact Or.inr rfl
    · rw [if_neg hc]
      exact Or.inl rfl

theorem held_drain {b : StateBroadcast σ τ} (h : Held b) (clientId : String) :
    Held { b with
      fanout := (b.fanout.drain clientId).2
      sessions := recordDrained b.sessions clientId (b.fanout.drain clientId).1
      moment := b.moment + 1 } := by
  have hsessions := get?_recordDrained b.sessions clientId (b.fanout.drain clientId).1
  refine h.quiet rfl (fun c q' hq' => ?_) (fun c s' hs' => ?_) (fun call hcall => Or.inl hcall)
  · have hq : ∃ q, b.fanout.queues.get? c = some q := by
      have hget := b.fanout.drain_get? clientId c
      by_cases hc : c = clientId
      · rw [if_pos hc] at hget
        rw [hget] at hq'
        obtain ⟨q, hq, -⟩ := Option.map_eq_some_iff.1 hq'
        exact ⟨q, hq⟩
      · rw [if_neg hc] at hget
        exact ⟨q', hget ▸ hq'⟩
    obtain ⟨q, hq⟩ := hq
    obtain ⟨s, hs⟩ := h.session c q hq
    show ∃ s, (recordDrained _ _ _).get? c = some s
    rw [hsessions, hs]
    by_cases hc : c = clientId
    · exact ⟨_, if_pos hc⟩
    · exact ⟨_, if_neg hc⟩
  · -- what leaves the queue joins what was drained
    have hs : (recordDrained b.sessions clientId (b.fanout.drain clientId).1).get? c = some s' := hs'
    rw [hsessions] at hs
    unfold StateBroadcast.received
    rw [Fanout.queued_drain]
    by_cases hc : c = clientId
    · rw [if_pos hc] at hs
      obtain ⟨s, hold, rfl⟩ := Option.map_eq_some_iff.1 hs
      refine Or.inr ⟨s, hold, rfl, Or.inl ?_⟩
      rw [if_pos hc, List.append_nil, Fanout.drain_fst, hc]
    · rw [if_neg hc] at hs
      refine Or.inr ⟨s', hs, rfl, Or.inl ?_⟩
      rw [if_neg hc]

theorem held_step {b b' : StateBroadcast σ τ} {step : BroadcastStep σ τ} (h : Held b) (hok : SnapshotHeld b step)
    (hstep : broadcastMachine.step b step = some b') : Held b' := by
  cases step with
  | attach c => cases hstep; exact held_attach h hok
  | build c =>
    cases hstep
    refine h.quiet rfl h.session (fun c s hs => Or.inr ⟨s, hs, rfl, Or.inl rfl⟩) (fun call hcall => ?_)
    rcases List.mem_append.1 hcall with hcall | hcall
    · exact Or.inl hcall
    · rw [List.mem_singleton.1 hcall]
      exact Or.inr ⟨rfl, rfl⟩
  | enqueue i =>
    obtain ⟨call, hcall, rfl⟩ := Option.map_eq_some_iff.1 hstep
    exact held_enqueue h hcall hok
  | publish e => cases hstep; exact held_publish h e hok
  | detach c => cases hstep; exact held_detach h c
  | drain c => cases hstep; exact held_drain h c
  | change state =>
    cases hstep
    exact h.quiet rfl h.session (fun c s hs => Or.inr ⟨s, hs, rfl, Or.inl rfl⟩) (fun call hcall => Or.inl hcall)

/-- **A client drains its SNAPSHOT first**: in every run that holds it first, whatever state the broadcast is about,
each client has drained, since it last attached, nothing or the SNAPSHOT made for that attach and then what was
published after it was built, in publish order. -/
theorem snapshotFirst_of_held (state : σ) (steps : List (BroadcastStep σ τ)) (b : StateBroadcast σ τ)
    (hheld : broadcastMachine.Along (fun b step _ => SnapshotHeld b step) { stateOf := state } steps)
    (hrun : broadcastMachine.run { stateOf := state } steps = some b) : SnapshotFirst b := by
  have hinit : Held ({ stateOf := state } : StateBroadcast σ τ) := by
    refine ⟨fun c q hq => ?_, fun c s hs => ?_, fun c s hs => ?_, fun call hcall => ?_⟩
    · cases hq
    · cases hs
    · cases hs
    · cases hcall
  have hend := broadcastMachine.inv_of_along Held (fun b step b' h hok hstep => held_step h hok hstep) steps _ _ hinit
    hheld hrun
  exact hend.first

/-! ## A client attaching again -/

def token (n : ℤ) : Envelope (Payload ℕ String) := ⟨.agentTokenStream, n, .other "t"⟩

/-- A client attaches and drains, and attaches again when all it was sent is drained. -/
def attachTwice : List (BroadcastStep ℕ String) :=
  [.attach "tui", .build "tui", .enqueue 0, .publish (token 1), .drain "tui", .change 7, .attach "tui", .build "tui",
    .enqueue 0, .publish (token 2), .drain "tui"]

theorem snapshotFirst_attachTwice : ∃ b, broadcastMachine.run { stateOf := 0 } attachTwice = some b ∧
    SnapshotFirst b := by
  have hrun : (broadcastMachine.run { stateOf := 0 } attachTwice).isSome = true := by decide +kernel
  obtain ⟨b, hb⟩ := Option.isSome_iff_exists.1 hrun
  have hheld : broadcastMachine.Along (fun b step _ => SnapshotHeld b step) { stateOf := 0 } attachTwice := by
    decide +kernel
  exact ⟨b, hb, snapshotFirst_of_held 0 attachTwice b hheld hb⟩

/-- The same without the drain in between. -/
def attachUndrained : List (BroadcastStep ℕ String) :=
  [.attach "tui", .build "tui", .enqueue 0, .publish (token 1), .attach "tui", .build "tui", .enqueue 0, .drain "tui"]

/-- **The old SNAPSHOT comes first**: attached again, the client keeps its queue, and drains the SNAPSHOT of the attach
before and the token after it, before its own. -/
theorem stale_snapshot_first : ∃ b s, broadcastMachine.run { stateOf := 0 } attachUndrained = some b ∧
    b.sessions.get? "tui" = some s ∧ s.attachedAt = 4 ∧
    s.drained.map (fun e => e.payload.made.map Made.attachedAt) = [some (some 0), none, some (some 4)] ∧
    ¬ SnapshotFirst b := by
  have hrun : (broadcastMachine.run { stateOf := 0 } attachUndrained).any (fun b => (b.sessions.get? "tui").any (fun s =>
      decide (s.attachedAt = 4 ∧ s.drained.map (fun e => e.payload.made.map Made.attachedAt) =
        [some (some 0), none, some (some 4)]))) = true := by decide +kernel
  obtain ⟨b, hb, h⟩ := (Option.any_eq_true _ _).1 hrun
  obtain ⟨s, hs, h⟩ := (Option.any_eq_true _ _).1 h
  rw [decide_eq_true_eq] at h
  refine ⟨b, s, hb, hs, h.1, h.2, fun hfirst => ?_⟩
  rcases hfirst "tui" s hs with hnil | ⟨first, rest, made, hdrained, -, hmade, -, hattached, -⟩
  · rw [hnil] at h
    cases h.2
  · have hdr := h.2
    rw [hdrained, List.map_cons, hmade, Option.map_some, hattached, h.1] at hdr
    cases hdr

end Engine
end DevHarness
