import DevHarness.Broker.Daemon
import DevHarness.Ipc.FrameFormat
/-!
# Protocol — the broker's frames (`broker/protocol.py`)
-/
namespace DevHarness
namespace Broker

open Ipc (BodyError CodecRaised FrameFormat Socket plainFormat)

def maxBrokerFrame : ℕ := 1 * 1024 * 1024

theorem maxBrokerFrame_lt : maxBrokerFrame < 4294967296 := by decide

/-- What the codec depends on of pydantic: the JSON of a message, if it has one, and its validation. -/
structure MessageJson where
  modelDumpJson : BrokerMessage → Option (List UInt8)
  modelValidateJson : List UInt8 → Option BrokerMessage

def MessageJson.RoundTrips (json : MessageJson) (msg : BrokerMessage) : Prop :=
  ∀ body, json.modelDumpJson msg = some body → json.modelValidateJson body = some msg

def messageFormat (json : MessageJson) : FrameFormat BrokerMessage CodecRaised :=
  plainFormat "broker" maxBrokerFrame maxBrokerFrame_lt json.modelDumpJson (fun body =>
    match json.modelValidateJson body with
    | none => .error (.body .validationError)
    | some msg => .ok msg)

theorem messageFormat_roundTrips {json : MessageJson} {msg : BrokerMessage} (h : json.RoundTrips msg) :
    (messageFormat json).RoundTrips msg := by
  intro body hbody
  have hvalid := h body (Ipc.elim_error_eq_ok_iff.1 hbody)
  simp only [messageFormat, plainFormat, hvalid]

def encode (json : MessageJson) : BrokerMessage → Except CodecRaised (List UInt8) := (messageFormat json).encode

def decodeFrame (json : MessageJson) : List UInt8 → Except CodecRaised BrokerMessage := (messageFormat json).decodeFrame

def readFrame (json : MessageJson) : Socket → Except CodecRaised BrokerMessage × Socket := (messageFormat json).readFrame

end Broker
end DevHarness
