import DevHarness.Contracts
import DevHarness.Lib.Machine
import Mathlib.Data.Rat.Defs
/-!
# Gatekeeper — the execution state and who writes it (`contracts/transitions.py`, `core/critic.py`)

The table says what a command does in each state, and `CriticGatekeeper` enforces it.  The session's stored state has
other writers: `apply_command` (`engine/nodes/critic.py`), which never asks the table, the critic's verdict, the
pipeline's escalation and the two seals, each of which writes the status, the flag or both on its own.  Where each of
them agrees with the table is `Agrees`; over a run this is exact (`followsTable_iff`).
-/
namespace DevHarness
namespace Engine
namespace Gatekeeper

open Lib (Machine)

instance : Fintype ExecutionState := ⟨{.ready, .running, .paused, .stopped}, fun s => by cases s <;> simp⟩

instance : Fintype CriticCommand := ⟨{.start, .pause, .resume, .stop}, fun c => by cases c <;> simp⟩

structure TransitionResult where
  result : ExecutionState
  already : Bool := false
  deriving DecidableEq, Repr

/-- The cells that are not `ILLEGAL`. -/
def transitions : ExecutionState → CriticCommand → Option TransitionResult
  | .ready, .start => some ⟨.running, false⟩
  | .ready, .pause => some ⟨.ready, false⟩
  | .ready, .resume => none
  | .ready, .stop => some ⟨.stopped, false⟩
  | .running, .start => none
  | .running, .pause => some ⟨.paused, false⟩
  | .running, .resume => none
  | .running, .stop => some ⟨.stopped, false⟩
  | .paused, .start => none
  | .paused, .pause => some ⟨.paused, true⟩
  | .paused, .resume => some ⟨.running, false⟩
  | .paused, .stop => some ⟨.stopped, false⟩
  | .stopped, .start => none
  | .stopped, .pause => none
  | .stopped, .resume => none
  | .stopped, .stop => some ⟨.stopped, true⟩

/-- What an illegal pair raises. -/
structure IllegalTransitionError where
  message : String
  state : ExecutionState
  command : CriticCommand
  remediation : String
  deriving DecidableEq, Repr

def applyTransition (state : ExecutionState) (command : CriticCommand) :
    Except IllegalTransitionError TransitionResult :=
  match transitions state command with
  | none => .error ⟨s!"illegal transition {state.value} + {command.value}", state, command,
      "Send a legal command for the current state per the 0.22 table."⟩
  | some result => .ok result

structure CriticGatekeeper where
  state : ExecutionState := .ready
  deriving DecidableEq, Repr

def CriticGatekeeper.transition (g : CriticGatekeeper) (command : CriticCommand) :
    Except IllegalTransitionError TransitionResult × CriticGatekeeper :=
  match applyTransition g.state command with
  | .error e => (.error e, g)
  | .ok result => (.ok result, ⟨result.result⟩)

/-- **The status stays or moves as some command of the table moves it.** -/
def Moves (state state' : ExecutionState) : Prop :=
  state' = state ∨ ∃ c, (transitions state c).map TransitionResult.result = some state'

instance (state state' : ExecutionState) : Decidable (Moves state state') := inferInstanceAs (Decidable (_ ∨ _))

theorem moves_iff : ∀ state state', Moves state state' ↔ state' = state ∨ state' = .stopped ∨
    (state = .ready ∧ state' = .running) ∨ (state = .running ∧ state' = .paused) ∨
    (state = .paused ∧ state' = .running) := by
  decide

/-! ## The stored state and its writers -/

structure TuiState where
  isPaused : Bool := false
  lastInterruptTimestamp : Option ℤ := none
  criticGatekeeperStatus : ExecutionState := .ready
  deriving DecidableEq, Repr

/-- What the writers touch of the session's state. -/
structure HarnessState where
  tuiState : TuiState := {}
  lastCheckpointCommit : Option String := none
  deriving DecidableEq, Repr

/-- `apply_command`. -/
def applyCommand (state : HarnessState) (command : CriticCommand) (timestamp : Option ℤ) : HarnessState :=
  { state with tuiState := match command with
    | .pause => ⟨true, timestamp, .paused⟩
    | .stop => ⟨false, state.tuiState.lastInterruptTimestamp, .stopped⟩
    | .start | .resume => ⟨false, state.tuiState.lastInterruptTimestamp, .running⟩ }

inductive Verdict where
  | approved
  | rejected
  deriving DecidableEq, Repr

def statusFor : Verdict → ExecutionState
  | .approved => .running
  | .rejected => .paused

/-- The update of `CriticNode`. -/
def criticNode (state : HarnessState) (verdict : Verdict) : HarnessState :=
  { state with tuiState := { state.tuiState with criticGatekeeperStatus := statusFor verdict } }

/-- `_Pipeline.hitl`. -/
def hitl (state : HarnessState) : HarnessState :=
  { state with tuiState := { state.tuiState with criticGatekeeperStatus := .stopped } }

structure PauseSeal where
  isPaused : Bool
  timestamp : ℚ
  checkpointHash : String

/-- `PauseSealer.seal`, at what the clock and the hash provider give. -/
def PauseSeal.make (now : ℚ) (hash : String) : PauseSeal := ⟨true, now, hash⟩

def applySeal (state : HarnessState) (pause : PauseSeal) : HarnessState :=
  { state with
    tuiState := { state.tuiState with isPaused := pause.isPaused }
    lastCheckpointCommit := some pause.checkpointHash }

/-- The state `GracefulShutdown._seal_checkpoint` puts into the checkpoint. -/
def sealCheckpoint (state : HarnessState) : HarnessState :=
  { state with tuiState := { state.tuiState with isPaused := true, criticGatekeeperStatus := .paused } }

inductive Operation where
  | command (c : CriticCommand) (timestamp : Option ℤ)
  | verdict (v : Verdict)
  | escalate
  | pauseSeal (now : ℚ) (hash : String)
  | shutdownSeal

namespace HarnessState

def status (s : HarnessState) : ExecutionState := s.tuiState.criticGatekeeperStatus

def apply (s : HarnessState) : Operation → HarnessState
  | .command c timestamp => applyCommand s c timestamp
  | .verdict v => criticNode s v
  | .escalate => hitl s
  | .pauseSeal now hash => applySeal s (.make now hash)
  | .shutdownSeal => sealCheckpoint s

def machine : Machine HarnessState Operation where
  step s op := some (s.apply op)

/-- **The stored state is as the gatekeeper's**: a command has the gatekeeper's effect, and none when it is illegal; the
status changes only as some command of the table changes it, and never from `STOPPED`; the flag says `PAUSED`. -/
structure FollowsTable (s : HarnessState) (op : Operation) (s' : HarnessState) : Prop where
  command : ∀ c timestamp, op = .command c timestamp → s'.status = ((CriticGatekeeper.mk s.status).transition c).2.state ∧
    (transitions s.status c = none → s' = s)
  moves : Moves s.status s'.status
  stopped : s.status = .stopped → s'.status = .stopped
  flag : s'.tuiState.isPaused = true ↔ s'.status = .paused

/-- **In which states each writer agrees with the table.** -/
def Agrees (s : HarnessState) : Operation → HarnessState → Prop
  | .command .start _, _ | .verdict .approved, _ => s.status = .ready ∨ s.status = .running
  | .command .pause _, _ | .command .resume _, _ | .shutdownSeal, _ => s.status = .running ∨ s.status = .paused
  | .command .stop _, _ => True
  | .verdict .rejected, _ | .pauseSeal _ _, _ => s.status = .paused
  | .escalate, _ => s.status ≠ .paused

/-- The flag says `PAUSED`. -/
def FlagExact (s : HarnessState) : Prop := s.tuiState.isPaused = true ↔ s.status = .paused

theorem followsTable_command_iff {s : HarnessState} (hflag : s.FlagExact) (c : CriticCommand) (timestamp : Option ℤ)
    (s' : HarnessState) : s.FollowsTable (.command c timestamp) (s.apply (.command c timestamp)) ↔
      s.Agrees (.command c timestamp) s' := by
  obtain ⟨⟨paused, stamp, status⟩, commit⟩ := s
  unfold FlagExact at hflag
  constructor
  · intro h
    have hc := h.command c timestamp rfl
    cases status <;> cases c <;>
      simp_all [Agrees, apply, applyCommand, HarnessState.status, CriticGatekeeper.transition, applyTransition, transitions]
  · intro hagrees
    refine ⟨fun c' timestamp' he => ?_, ?_, ?_, ?_⟩
    · cases he
      cases status <;> cases c <;>
        simp_all [Agrees, apply, applyCommand, HarnessState.status, CriticGatekeeper.transition, applyTransition,
          transitions]
    all_goals cases status <;> cases c <;> simp_all [Agrees, apply, applyCommand, HarnessState.status, moves_iff]

/-- An operation that is no command follows the table when its status moves by it and the flag says the status. -/
theorem followsTable_of_notCommand {s s' : HarnessState} {op : Operation} (hop : ∀ c timestamp, op ≠ .command c timestamp) :
    s.FollowsTable op s' ↔ Moves s.status s'.status ∧ (s.status = .stopped → s'.status = .stopped) ∧ s'.FlagExact :=
  ⟨fun h => ⟨h.moves, h.stopped, h.flag⟩, fun h => ⟨fun c timestamp he => absurd he (hop c timestamp), h.1, h.2.1, h.2.2⟩⟩

/-- **Each operation follows the table exactly where it agrees with it.** -/
theorem followsTable_apply_iff {s : HarnessState} (hflag : s.FlagExact) (op : Operation) (s' : HarnessState) :
    s.FollowsTable op (s.apply op) ↔ s.Agrees op s' := by
  cases op with
  | command c timestamp => exact followsTable_command_iff hflag c timestamp s'
  | verdict v =>
    rw [followsTable_of_notCommand (by simp)]
    obtain ⟨⟨paused, stamp, status⟩, commit⟩ := s
    unfold FlagExact at hflag ⊢
    cases v <;> cases status <;>
      simp_all [Agrees, apply, criticNode, statusFor, HarnessState.status, moves_iff]
  | escalate =>
    rw [followsTable_of_notCommand (by simp)]
    obtain ⟨⟨paused, stamp, status⟩, commit⟩ := s
    unfold FlagExact at hflag ⊢
    cases status <;> simp_all [Agrees, apply, hitl, HarnessState.status, moves_iff]
  | pauseSeal now hash =>
    rw [followsTable_of_notCommand (by simp)]
    obtain ⟨⟨paused, stamp, status⟩, commit⟩ := s
    unfold FlagExact at hflag ⊢
    cases status <;> simp_all [Agrees, apply, applySeal, PauseSeal.make, HarnessState.status, moves_iff]
  | shutdownSeal =>
    rw [followsTable_of_notCommand (by simp)]
    obtain ⟨⟨paused, stamp, status⟩, commit⟩ := s
    unfold FlagExact at hflag ⊢
    cases status <;> simp_all [Agrees, apply, sealCheckpoint, HarnessState.status, moves_iff]

/-- **The stored state follows the table in a run exactly when each writer writes only where it agrees with it.** -/
theorem followsTable_iff (ops : List Operation) :
    machine.Along FollowsTable {} ops ↔ machine.Along Agrees {} ops := by
  refine machine.along_iff_along FlagExact (fun s op s' hflag hstep => ?_) (fun s op s' _ hf _ => hf.flag) ops {}
    (by unfold FlagExact; decide)
  cases hstep
  exact followsTable_apply_iff hflag op _

/-! ## A resume of a stopped session -/

/-- **A stopped session is resumed**: it runs again, by a transition that the table does not have. -/
theorem stopped_session_resumes :
    (machine.run {} [.command .stop none, .command .resume none]).map HarnessState.status = some .running ∧
      transitions .stopped .resume = none ∧
      ¬ machine.Along FollowsTable {} [.command .stop none, .command .resume none] := by
  refine ⟨rfl, rfl, fun h => ?_⟩
  have hlast := h.2.1.stopped rfl
  cases hlast

end HarnessState
end Gatekeeper
end Engine
end DevHarness
