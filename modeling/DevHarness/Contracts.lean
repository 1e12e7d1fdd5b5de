import Mathlib.Data.Fintype.Basic
/-!
# Contracts — the state vocabularies (`contracts/enums.py`, `contracts/state.py`, `contracts/events.py`)
-/
namespace DevHarness

inductive ChunkStatus where
  | pending
  | inProgress
  | completed
  | failed
  deriving DecidableEq, Repr

def ChunkStatus.value : ChunkStatus → String
  | .pending => "PENDING"
  | .inProgress => "IN_PROGRESS"
  | .completed => "COMPLETED"
  | .failed => "FAILED"

/-- A chunk in the DAG: the fields that no one writes.  `status` and `assigned_worker_id` are the run's. -/
structure Chunk where
  chunkId : String
  dependencies : List String := []
  deriving DecidableEq, Repr

inductive ProviderId where
  | anthropic
  | openrouter
  | ollama
  deriving DecidableEq, Repr

instance : Fintype ProviderId := ⟨{.anthropic, .openrouter, .ollama}, fun p => by cases p <;> simp⟩

def ProviderId.value : ProviderId → String
  | .anthropic => "anthropic"
  | .openrouter => "openrouter"
  | .ollama => "ollama"

/-- The members in declaration order, as iterating the enum yields them. -/
def ProviderId.members : List ProviderId := [.anthropic, .openrouter, .ollama]

/-- Lifecycle state of a session. -/
inductive ExecutionState where
  | ready
  | running
  | paused
  | stopped
  deriving DecidableEq, Repr

def ExecutionState.value : ExecutionState → String
  | .ready => "READY"
  | .running => "RUNNING"
  | .paused => "PAUSED"
  | .stopped => "STOPPED"

inductive CriticCommand where
  | start
  | pause
  | resume
  | stop
  deriving DecidableEq, Repr

def CriticCommand.value : CriticCommand → String
  | .start => "START"
  | .pause => "PAUSE"
  | .resume => "RESUME"
  | .stop => "STOP"

inductive EventType where
  | fileChange
  | gitStatusUpdate
  | agentTokenStream
  | testProgress
  | modelConfigChange
  | interruptRequest
  | interruptAck
  | metricsUpdate
  | snapshot
  deriving DecidableEq, Repr

def EventType.value : EventType → String
  | .fileChange => "FILE_CHANGE"
  | .gitStatusUpdate => "GIT_STATUS_UPDATE"
  | .agentTokenStream => "AGENT_TOKEN_STREAM"
  | .testProgress => "TEST_PROGRESS"
  | .modelConfigChange => "MODEL_CONFIG_CHANGE"
  | .interruptRequest => "INTERRUPT_REQUEST"
  | .interruptAck => "INTERRUPT_ACK"
  | .metricsUpdate => "METRICS_UPDATE"
  | .snapshot => "SNAPSHOT"

/-- The framed envelope; its payload is of the type it carries. -/
structure Envelope (π : Type) where
  type : EventType
  seq : ℤ := 0
  payload : π
  deriving DecidableEq

end DevHarness
