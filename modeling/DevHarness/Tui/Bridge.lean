import DevHarness.Ipc.Queue
import DevHarness.Tui.ExecutionCanvas
import DevHarness.Tui.RepoManager
/-!
# Bridge — envelopes applied on the UI thread (`tui/bridge.py`)

The bridge applies what it is handed in order: a SNAPSHOT becomes its state, and the handlers of an envelope's type run.
Fed by its own reader thread from a queue, it loses the one envelope it holds when the app is gone, and ends; whatever
the puts and the rounds of the reader, every envelope the queue accepted was applied, is queued or is counted by
`dropped` (`accounts`).
-/
namespace DevHarness
namespace Tui

open Lib (Machine)
open Ipc (BackpressureQueue Traffic Conserves droppable queueMachine)
open Engine (ChangeType)

/-- The payloads the bridge and the panels look into, and those of the other events. -/
inductive EventPayload (σ τ : Type) where
  | fileChange (path : String) (changeType : ChangeType)
  | gitStatusUpdate (branch : String) (dirtyCount : ℤ)
  | agentTokenStream (payload : AgentTokenStreamPayload)
  | testProgress (passed total : ℤ)
  | snapshot (state : σ)
  | other (payload : τ)

/-- The bridge on a user interface `U`, with the handlers `on` registered, each list in its order. -/
structure Bridge (σ τ U : Type) where
  ui : U
  handlers : EventType → List (Envelope (EventPayload σ τ) → U → U) := fun _ => []
  state : Option σ := none
  snapshotSeen : Bool := false
  applied : ℕ := 0
  controlApplied : ℕ := 0
  dropped : ℕ := 0

variable {σ τ U : Type}

namespace Bridge

/-- `on`. -/
def on (b : Bridge σ τ U) (eventType : EventType) (callback : Envelope (EventPayload σ τ) → U → U) : Bridge σ τ U :=
  { b with handlers := fun t => if t = eventType then b.handlers t ++ [callback] else b.handlers t }

/-- The state a SNAPSHOT envelope brings. -/
def snapshotOf (env : Envelope (EventPayload σ τ)) : Option σ :=
  match env.type, env.payload with
  | .snapshot, .snapshot state => some state
  | _, _ => none

/-- `_apply`. -/
def apply (b : Bridge σ τ U) (env : Envelope (EventPayload σ τ)) : Bridge σ τ U :=
  { b with
    state := (snapshotOf env).or b.state
    snapshotSeen := b.snapshotSeen || (snapshotOf env).isSome
    applied := b.applied + 1
    controlApplied := if env.type = .agentTokenStream then b.controlApplied else b.controlApplied + 1
    ui := (b.handlers env.type).foldl (fun ui callback => callback env ui) b.ui }

/-- `push`, with the app there or gone. -/
def push (b : Bridge σ τ U) (env : Envelope (EventPayload σ τ)) (active : Bool) : Bridge σ τ U :=
  if active = true then b.apply env else { b with dropped := b.dropped + 1 }

def applyAll (b : Bridge σ τ U) (envs : List (Envelope (EventPayload σ τ))) : Bridge σ τ U := envs.foldl apply b

theorem applyAll_snoc (b : Bridge σ τ U) (envs : List (Envelope (EventPayload σ τ))) (env : Envelope (EventPayload σ τ)) :
    b.applyAll (envs ++ [env]) = (b.applyAll envs).apply env := by
  rw [applyAll, List.foldl_append]
  rfl

/-- What the bridge knows after applying some envelopes. -/
theorem applied_applyAll (envs : List (Envelope (EventPayload σ τ))) (b : Bridge σ τ U) :
    (b.applyAll envs).handlers = b.handlers ∧ (b.applyAll envs).applied = b.applied + envs.length ∧
    (b.applyAll envs).controlApplied = b.controlApplied + envs.countP (fun env => !droppable env) ∧
    (b.applyAll envs).state = (envs.filterMap snapshotOf).getLast?.or b.state ∧
    (b.applyAll envs).dropped = b.dropped := by
  induction envs using List.reverseRecOn with
  | nil => exact ⟨rfl, rfl, rfl, rfl, rfl⟩
  | append_singleton envs env ih =>
    obtain ⟨hhandlers, happlied, hcontrol, hstate, hdropped⟩ := ih
    rw [applyAll_snoc]
    refine ⟨hhandlers, ?_, ?_, ?_, hdropped⟩
    · rw [apply, happlied, List.length_append, List.length_singleton, Nat.add_assoc]
    · rw [apply, hcontrol, List.countP_append, List.countP_singleton, droppable]
      by_cases htoken : env.type = .agentTokenStream
      · simp [htoken]
      · simp [htoken, Nat.add_assoc]
    · rw [apply, hstate, List.filterMap_append, List.getLast?_append]
      cases hs : snapshotOf env with
      | none => simp [hs]
      | some state => simp [hs]

end Bridge

/-! ## The reader thread on a queue -/

/-- The bridge with its queue and its reader thread. -/
structure BridgeReader (σ τ U : Type) where
  traffic : Traffic (EventPayload σ τ)
  bridge : Bridge σ τ U
  running : Bool := true

inductive ReaderAct (σ τ : Type) where
  | put (env : Envelope (EventPayload σ τ))
  -- one pass of the loop of `_run`, with the app there or gone
  | round (active : Bool)
  | stop

namespace BridgeReader

def round (r : BridgeReader σ τ U) (active : Bool) : BridgeReader σ τ U :=
  let got := r.traffic.queue.get
  let traffic := { r.traffic with queue := got.2, returned := r.traffic.returned ++ got.1.toList }
  match got.1 with
  | none => { r with traffic }
  | some env => { traffic, bridge := r.bridge.push env active, running := active }

def step (r : BridgeReader σ τ U) : ReaderAct σ τ → Option (BridgeReader σ τ U)
  | .put env => (queueMachine.step r.traffic (.put env)).map (fun traffic => { r with traffic })
  | .round active => if r.running = true then some (r.round active) else none
  | .stop => some { r with running := false }

def machine : Machine (BridgeReader σ τ U) (ReaderAct σ τ) := ⟨step⟩

/-- `dropped`: what the queue shed, and what could not be marshalled. -/
def dropped (r : BridgeReader σ τ U) : ℕ := r.bridge.dropped + r.traffic.queue.droppedFrames

/-- The traffic after the `get` of a round. -/
def pulled (r : BridgeReader σ τ U) : Traffic (EventPayload σ τ) :=
  { r.traffic with queue := r.traffic.queue.get.2, returned := r.traffic.returned ++ r.traffic.queue.get.1.toList }

theorem round_of_none {r : BridgeReader σ τ U} (h : r.traffic.queue.get.1 = none) (active : Bool) :
    r.round active = { r with traffic := r.pulled } := by
  simp only [round, pulled, h]

theorem round_of_some {r : BridgeReader σ τ U} {env : Envelope (EventPayload σ τ)}
    (h : r.traffic.queue.get.1 = some env) (active : Bool) :
    r.round active = { traffic := r.pulled, bridge := r.bridge.push env active, running := active } := by
  simp only [round, pulled, h]

/-- **What the reader has done**: the envelopes the queue returned were applied in order, but for at most one that it
lost when the app was gone, and then it has ended. -/
structure Reading (b : Bridge σ τ U) (r : BridgeReader σ τ U) : Prop where
  conserves : Conserves r.traffic
  shown : ∃ shown lost, r.traffic.returned = shown ++ lost ∧ lost.length ≤ 1 ∧ (lost ≠ [] → r.running = false) ∧
    r.bridge = { b.applyAll shown with dropped := b.dropped + lost.length }

theorem Reading.put {b : Bridge σ τ U} {r r' : BridgeReader σ τ U} (h : Reading b r)
    {env : Envelope (EventPayload σ τ)} (hstep : step r (.put env) = some r') : Reading b r' := by
  obtain ⟨traffic, htraffic, rfl⟩ := Option.map_eq_some_iff.1 hstep
  refine ⟨Ipc.conserves_step h.conserves htraffic, ?_⟩
  obtain ⟨out, -, rfl⟩ := Option.map_eq_some_iff.1 htraffic
  exact h.shown

theorem Reading.round {b : Bridge σ τ U} {r : BridgeReader σ τ U} (h : Reading b r) (hrunning : r.running = true)
    (active : Bool) : Reading b (r.round active) := by
  obtain ⟨hconserves, shown, lost, hreturned, -, hended, hbridge⟩ := h
  have hlost : lost = [] := by
    by_contra hne
    rw [hended hne] at hrunning
    cases hrunning
  rw [hlost, List.append_nil] at hreturned
  have hget : Conserves r.pulled := Ipc.conserves_get hconserves
  have hdropped := (Bridge.applied_applyAll shown b).2.2.2.2
  have hsame : r.bridge = b.applyAll shown := by
    rw [hbridge, hlost, List.length_nil, Nat.add_zero, ← hdropped]
  cases hgot : r.traffic.queue.get.1 with
  | none =>
    rw [round_of_none hgot]
    refine ⟨hget, shown, [], ?_, Nat.zero_le 1, fun hne => absurd rfl hne, ?_⟩
    · rw [pulled, hgot, hreturned]
      rfl
    · rw [hlost] at hbridge
      exact hbridge
  | some env =>
    rw [round_of_some hgot]
    have hpulled : r.pulled.returned = shown ++ [env] := by
      rw [pulled, hgot, hreturned]
      rfl
    cases active with
    | true =>
      refine ⟨hget, shown ++ [env], [], by rw [hpulled, List.append_nil], Nat.zero_le 1, fun hne => absurd rfl hne, ?_⟩
      have hafter := (Bridge.applied_applyAll (shown ++ [env]) b).2.2.2.2
      show r.bridge.apply env = _
      rw [hsame, ← Bridge.applyAll_snoc, List.length_nil, Nat.add_zero, ← hafter]
    | false =>
      refine ⟨hget, shown, [env], hpulled, le_refl 1, fun _ => rfl, ?_⟩
      show ({ r.bridge with dropped := r.bridge.dropped + 1 } : Bridge σ τ U) = _
      rw [hsame, hdropped]
      rfl

theorem reading_step {b : Bridge σ τ U} {r r' : BridgeReader σ τ U} {a : ReaderAct σ τ} (h : Reading b r)
    (hstep : machine.step r a = some r') : Reading b r' := by
  cases a with
  | put env => exact h.put hstep
  | round active =>
    change (if r.running = true then _ else none) = some r' at hstep
    by_cases hrunning : r.running = true
    · rw [if_pos hrunning] at hstep
      cases hstep
      exact h.round hrunning active
    · rw [if_neg hrunning] at hstep
      cases hstep
  | stop =>
    cases hstep
    obtain ⟨hconserves, shown, lost, hreturned, hone, -, hbridge⟩ := h
    exact ⟨hconserves, shown, lost, hreturned, hone, fun _ => rfl, hbridge⟩

/-- **Every envelope is accounted for**, in every interleaving of the puts with the rounds of the reader: those
accepted were applied, are queued or are counted by `dropped`; the envelopes applied, and behind them the queue, are in
the order they were accepted; and the bridge is what applying them makes it. -/
theorem accounts (b : Bridge σ τ U) (hb : b.applied = 0 ∧ b.dropped = 0) (capacity : ℕ) (hcap : 1 ≤ capacity)
    (acts : List (ReaderAct σ τ)) (r : BridgeReader σ τ U)
    (hrun : machine.run { traffic := ⟨{ capacity }, [], [], []⟩, bridge := b } acts = some r) :
    r.bridge.applied + r.traffic.queue.items.length + r.dropped = r.traffic.accepted.length ∧
    ∃ shown, (shown ++ r.traffic.queue.items).Sublist r.traffic.accepted ∧ shown.length = r.bridge.applied ∧
      r.bridge.ui = (b.applyAll shown).ui ∧ r.bridge.state = (b.applyAll shown).state := by
  have hstart : Reading b ({ traffic := ⟨{ capacity }, [], [], []⟩, bridge := b } : BridgeReader σ τ U) :=
    ⟨⟨hcap, Nat.zero_le _, List.Sublist.refl _, List.Sublist.refl _, rfl⟩, [], [], rfl, Nat.zero_le 1,
      fun hne => absurd rfl hne, rfl⟩
  obtain ⟨hconserves, shown, lost, hreturned, -, -, hbridge⟩ :=
    machine.inv_of_run (Reading b) (fun _ _ _ => reading_step) acts _ r hstart hrun
  have happlied : r.bridge.applied = shown.length := by
    have hall := (Bridge.applied_applyAll shown b).2.1
    rw [hb.1, Nat.zero_add] at hall
    rw [hbridge]
    exact hall
  have hdropped : r.bridge.dropped = lost.length := by
    rw [hbridge]
    show b.dropped + lost.length = lost.length
    rw [hb.2, Nat.zero_add]
  refine ⟨?_, shown, ?_, happlied.symm, by rw [hbridge], by rw [hbridge]⟩
  · have hcount := hconserves.dropped
    rw [Traffic.kept, hreturned, List.length_append, List.length_append] at hcount
    rw [dropped, happlied, hdropped]
    omega
  · have hordered := hconserves.ordered
    rw [Traffic.kept, hreturned] at hordered
    refine List.Sublist.trans ?_ hordered
    exact (List.sublist_append_left shown lost).append (List.Sublist.refl _)

/-- Two tokens wait behind a SNAPSHOT when the app is gone: the reader takes the SNAPSHOT, loses it and ends. -/
def appGone : List (ReaderAct ℕ Unit) :=
  [.put ⟨.snapshot, 0, .snapshot 7⟩, .put ⟨.agentTokenStream, 1, .other ()⟩, .put ⟨.agentTokenStream, 2, .other ()⟩,
    .round false]

theorem accounts_appGone : ∃ r : BridgeReader ℕ Unit ℕ,
    machine.run { traffic := ⟨{ capacity := 2048 }, [], [], []⟩, bridge := { ui := 0 } } appGone = some r ∧
    r.running = false ∧
    r.bridge.applied + r.traffic.queue.items.length + r.dropped = r.traffic.accepted.length ∧
    ∃ shown, (shown ++ r.traffic.queue.items).Sublist r.traffic.accepted ∧ shown.length = r.bridge.applied ∧
      r.bridge.ui = (Bridge.applyAll { ui := 0 } shown).ui ∧ r.bridge.state = (Bridge.applyAll { ui := 0 } shown).state := by
  refine ⟨_, rfl, rfl, ?_⟩
  exact accounts { ui := 0 } ⟨rfl, rfl⟩ 2048 (by decide) appGone _ rfl

end BridgeReader
end Tui
end DevHarness
