import DevHarness.Contracts
import DevHarness.Ipc.FrameFormat
import DevHarness.Lib.Dict
/-!
# Commands — the command vocabulary, its codec and its handler (`engine/commands.py`, `engine/session.py`)

A body is loaded as JSON and then validated against the union of the commands, or of the responses.  The handler keeps
one session for each workspace, under the path it resolves to; resolving is the platform's and may raise.
-/
namespace DevHarness
namespace Engine
namespace Commands

open Ipc (BodyError CodecRaised FrameFormat Socket plainFormat)
open Lib (Dict)

inductive Command where
  | startSession (workspace : String)
  | attach (workspace : String)
  | detach (workspace : String)
  | status (workspace : String)
  | shutdown (workspace : String)
  deriving DecidableEq, Repr

inductive CommandResponse where
  | startSession (threadId : String) (state : ExecutionState)
  | attach (threadId : String) (state : ExecutionState)
  | detach (threadId : String)
  | status (threadId : Option String) (state : ExecutionState) (version : String)
  | shutdown
  | error (error : String) (remediation : String)
  deriving DecidableEq, Repr

/-! ## The codec -/

/-- What the codec depends on of `json` and pydantic: the JSON of a value, if it has one, loading a body, and validating
what was loaded. -/
structure JsonLayer (J α : Type) where
  modelDumpJson : α → Option (List UInt8)
  loads : List UInt8 → Except BodyError J
  validatePython : J → Option α

/-- `json.loads`, then `TypeAdapter(…).validate_python`. -/
def JsonLayer.fromJson {J α : Type} (json : JsonLayer J α) (body : List UInt8) : Except CodecRaised α :=
  match json.loads body with
  | .error e => .error (.body e)
  | .ok data => match json.validatePython data with
    | none => .error (.body .validationError)
    | some a => .ok a

/-- What was dumped is loaded and validates to the value again. -/
def JsonLayer.RoundTrips {J α : Type} (json : JsonLayer J α) (a : α) : Prop :=
  ∀ body, json.modelDumpJson a = some body → ∃ data, json.loads body = .ok data ∧ json.validatePython data = some a

theorem JsonLayer.RoundTrips.fromJson {J α : Type} {json : JsonLayer J α} {a : α} (h : json.RoundTrips a)
    {body : List UInt8} (hdump : json.modelDumpJson a = some body) : json.fromJson body = .ok a := by
  obtain ⟨data, hloads, hvalid⟩ := h body hdump
  simp only [JsonLayer.fromJson, hloads, hvalid]

def maxCommandFrame : ℕ := 1 * 1024 * 1024

theorem maxCommandFrame_lt : maxCommandFrame < 4294967296 := by decide

section Codec

variable {J : Type}

def commandFormat (json : JsonLayer J Command) : FrameFormat Command CodecRaised :=
  plainFormat "command" maxCommandFrame maxCommandFrame_lt json.modelDumpJson json.fromJson

def responseFormat (json : JsonLayer J CommandResponse) : FrameFormat CommandResponse CodecRaised :=
  plainFormat "response" maxCommandFrame maxCommandFrame_lt json.modelDumpJson json.fromJson

def encodeCommand (json : JsonLayer J Command) : Command → Except CodecRaised (List UInt8) := (commandFormat json).encode

def encodeResponse (json : JsonLayer J CommandResponse) : CommandResponse → Except CodecRaised (List UInt8) :=
  (responseFormat json).encode

def decodeCommandFrame (json : JsonLayer J Command) : List UInt8 → Except CodecRaised Command :=
  (commandFormat json).decodeFrame

def decodeResponseFrame (json : JsonLayer J CommandResponse) : List UInt8 → Except CodecRaised CommandResponse :=
  (responseFormat json).decodeFrame

def readCommandFrame (json : JsonLayer J Command) : Socket → Except CodecRaised Command × Socket :=
  (commandFormat json).readFrame

def readResponseFrame (json : JsonLayer J CommandResponse) : Socket → Except CodecRaised CommandResponse × Socket :=
  (responseFormat json).readFrame

/-- **The codec's own loading undoes the dump** wherever JSON and pydantic do. -/
theorem plainFormat_roundTrips {α : Type} {json : JsonLayer J α} {noun : String} {maxFrame : ℕ}
    {hmax : maxFrame < 4294967296} {a : α} (h : json.RoundTrips a) :
    (plainFormat noun maxFrame hmax json.modelDumpJson json.fromJson).RoundTrips a := by
  intro body hbody
  exact h.fromJson (Ipc.elim_error_eq_ok_iff.1 hbody)

/-- **A response is encoded exactly when its JSON fits a frame**, and then as that frame. -/
theorem encodeResponse_eq_ok_iff {json : JsonLayer J CommandResponse} {r : CommandResponse} {frame : List UInt8} :
    encodeResponse json r = .ok frame ↔ ∃ body, json.modelDumpJson r = some body ∧
      Ipc.prefixLen + body.length ≤ maxCommandFrame ∧ frame = Ipc.pack body.length ++ body := by
  have hiff : encodeResponse json r = .ok frame ↔ _ := (responseFormat json).encode_eq_ok_iff
  rw [hiff]
  exact exists_congr (fun body => and_congr_left' Ipc.elim_error_eq_ok_iff)

end Codec

/-! ## Sessions -/

/-- An exception, as `type(exc).__name__` and `str(exc)`. -/
structure PyError where
  typeName : String
  text : String
  deriving DecidableEq, Repr

structure Session where
  threadId : String
  workspacePath : String
  criticGatekeeperStatus : ExecutionState := .ready
  deriving DecidableEq, Repr

/-- What the sessions depend on of the platform: resolving a path, and the id that is made `n`-th. -/
structure SessionPlatform where
  resolve : String → Except PyError String
  newThreadId : ℕ → String

structure SessionManager where
  sessions : Dict String Session := Dict.empty
  minted : ℕ := 0

/-- `str` of the `SessionExistsError` of a workspace. -/
def sessionExistsText (workspace : String) (existing : Session) : String :=
  s!"Session already exists for workspace {workspace} (thread_id={existing.threadId})" ++
    " (remediation: Attach to the existing session or stop it first.)"

namespace SessionManager

/-- The session made, or the one there already. -/
def newSession (platform : SessionPlatform) (m : SessionManager) (workspace : String) :
    Except PyError (String × Except Session Session) × SessionManager :=
  match platform.resolve workspace with
  | .error e => (.error e, m)
  | .ok resolved => match m.sessions.get? resolved with
    | some existing => (.ok (resolved, .error existing), m)
    | none =>
      let session : Session := ⟨platform.newThreadId m.minted, resolved, .ready⟩
      (.ok (resolved, .ok session), ⟨m.sessions.set resolved session, m.minted + 1⟩)

def get (platform : SessionPlatform) (m : SessionManager) (workspace : String) : Except PyError (Option Session) :=
  match platform.resolve workspace with
  | .error e => .error e
  | .ok resolved => .ok (m.sessions.get? resolved)

end SessionManager

/-! ## The handler -/

def version : String := "0.1.0"

def noSession (workspace : String) : CommandResponse :=
  .error s!"no session for workspace {workspace}" "Start a session first."

/-- The handler, with whether it was given an `on_shutdown` and whether that was called. -/
structure CommandHandler where
  sessions : SessionManager := {}
  onShutdown : Bool := false
  shutdownRequested : Bool := false

namespace CommandHandler

variable (platform : SessionPlatform)

def startSession (h : CommandHandler) (workspace : String) : Except PyError CommandResponse × CommandHandler :=
  match h.sessions.newSession platform workspace with
  | (.error e, m) => (.error e, { h with sessions := m })
  | (.ok (resolved, .error existing), m) => (.ok (.error (sessionExistsText resolved existing)
      "Attach to the existing session or stop it first."), { h with sessions := m })
  | (.ok (_, .ok session), m) =>
    (.ok (.startSession session.threadId session.criticGatekeeperStatus), { h with sessions := m })

def attach (h : CommandHandler) (workspace : String) : Except PyError CommandResponse :=
  match h.sessions.get platform workspace with
  | .error e => .error e
  | .ok none => .ok (noSession workspace)
  | .ok (some session) => .ok (.attach session.threadId session.criticGatekeeperStatus)

def detach (h : CommandHandler) (workspace : String) : Except PyError CommandResponse :=
  match h.sessions.get platform workspace with
  | .error e => .error e
  | .ok none => .ok (noSession workspace)
  | .ok (some session) => .ok (.detach session.threadId)

def status (h : CommandHandler) (workspace : String) : Except PyError CommandResponse :=
  match h.sessions.get platform workspace with
  | .error e => .error e
  | .ok none => .ok (.status none .ready version)
  | .ok (some session) => .ok (.status (some session.threadId) session.criticGatekeeperStatus version)

def shutdown (h : CommandHandler) : CommandResponse × CommandHandler :=
  (.shutdown, { h with shutdownRequested := h.shutdownRequested || h.onShutdown })

/-- `handle`, of the commands the union has; any other raises `UnknownCommandError`. -/
def handle (h : CommandHandler) : Command → Except PyError CommandResponse × CommandHandler
  | .startSession workspace => h.startSession platform workspace
  | .attach workspace => (h.attach platform workspace, h)
  | .detach workspace => (h.detach platform workspace, h)
  | .status workspace => (h.status platform workspace, h)
  | .shutdown _ => (.ok h.shutdown.1, h.shutdown.2)

end CommandHandler
end Commands
end Engine
end DevHarness
