import DevHarness.Ipc.ControlServer
import DevHarness.Ipc.Envelopes
import DevHarness.Broker.Protocol
/-!
# Wire — the three codecs are lawful (`ipc/framing.py`, `engine/commands.py`, `broker/protocol.py`)

Each codec is a frame format under the names of its own functions, so what holds of every format holds of it.  Of JSON it
is assumed that a value dumped is loaded and validated to itself; what the codecs make of that is their own.
-/
namespace DevHarness
namespace Ipc

open Engine.Commands (Command CommandResponse JsonLayer commandFormat responseFormat plainFormat_roundTrips)
open Broker (MessageJson messageFormat messageFormat_roundTrips)

/-- **A codec is lawful**: its three functions are those of a frame format, lawful for the values whose JSON inverts. -/
def LawfulCodec {α ρ : Type} (f : FrameFormat α ρ) (json : α → Prop) (encode : α → Except ρ (List UInt8))
    (decodeFrame : List UInt8 → Except ρ α) (readFrame : Socket → Except ρ α × Socket) : Prop :=
  f.encode = encode ∧ f.decodeFrame = decodeFrame ∧ f.readFrame = readFrame ∧ f.Lawful json

/-- **The codecs of the envelopes, the commands, the responses and the broker's messages are lawful.** -/
theorem codecs_lawful {π J : Type} (envelopes : EnvelopeCodec π) (commands : JsonLayer J Command)
    (responses : JsonLayer J CommandResponse) (messages : MessageJson) :
    LawfulCodec (envelopeFormat envelopes) envelopes.RoundTrips (encode envelopes) (decodeFrame envelopes)
      (readFrame envelopes) ∧
    LawfulCodec (commandFormat commands) commands.RoundTrips (Engine.Commands.encodeCommand commands)
      (Engine.Commands.decodeCommandFrame commands) (Engine.Commands.readCommandFrame commands) ∧
    LawfulCodec (responseFormat responses) responses.RoundTrips (Engine.Commands.encodeResponse responses)
      (Engine.Commands.decodeResponseFrame responses) (Engine.Commands.readResponseFrame responses) ∧
    LawfulCodec (messageFormat messages) messages.RoundTrips (Broker.encode messages) (Broker.decodeFrame messages)
      (Broker.readFrame messages) := by
  refine ⟨⟨encode_eq _, decodeFrame_eq _, readFrame_eq _, ?_⟩, ⟨rfl, rfl, rfl, ?_⟩, ⟨rfl, rfl, rfl, ?_⟩,
    ⟨rfl, rfl, rfl, ?_⟩⟩
  · exact FrameFormat.lawful _ (fun _ => envelopeFormat_roundTrips envelopes)
  · exact FrameFormat.lawful _ (fun _ => plainFormat_roundTrips)
  · exact FrameFormat.lawful _ (fun _ => plainFormat_roundTrips)
  · exact FrameFormat.lawful _ (fun _ => messageFormat_roundTrips)

/-! ## Frames that arrive a byte at a time -/

def byteByByte (bytes : List UInt8) : List (UInt8 × List UInt8) := bytes.map (fun b => (b, []))

theorem bytesOf_byteByByte (bytes : List UInt8) : bytesOf (arrivals (byteByByte bytes)) = bytes := by
  induction bytes with
  | nil => rfl
  | cons b bytes ih =>
    show b :: ([] ++ bytesOf (arrivals (byteByByte bytes))) = b :: bytes
    rw [ih, List.nil_append]

def health : Broker.BrokerMessage := ⟨"HEALTH", true, Lib.Dict.empty⟩

def healthJson : List UInt8 := ControlServer.utf8 "\x7b\"op\":\"HEALTH\",\"ok\":true,\"data\":\x7b\x7d\x7d"

/-- Pydantic on the JSON of one message. -/
def healthOnly : MessageJson where
  modelDumpJson _ := some healthJson
  modelValidateJson body := if body = healthJson then some health else none

open ControlServer (frameOf statusJson nobody nobodyJson twoBodies oneResponse)

theorem codecs_lawful_byteByByte :
    (envelopeFormat tokenCodec).Reads [token, token]
      (arrivals (byteByByte [frameOf tokenJson, frameOf tokenJson].flatten) ++ [.timeout]) [.timeout] ∧
    (commandFormat twoBodies).Reads [.status "/w"]
      (arrivals (byteByByte [frameOf statusJson].flatten) ++ [.closed]) [.closed] ∧
    (responseFormat oneResponse).Reads [nobody]
      (arrivals (byteByByte [frameOf nobodyJson].flatten) ++ [.reset]) [.reset] ∧
    (messageFormat healthOnly).Reads [health] (arrivals (byteByByte [frameOf healthJson].flatten) ++ []) [] := by
  obtain ⟨⟨-, -, -, henvelopes⟩, ⟨-, -, -, hcommands⟩, ⟨-, -, -, hresponses⟩, -, -, -, hmessages⟩ :=
    codecs_lawful tokenCodec twoBodies oneResponse healthOnly
  have htoken : tokenCodec.RoundTrips token := fun body hbody => by
    cases hbody
    exact validates_blanks 0
  have hstatus : twoBodies.RoundTrips (.status "/w") := fun body hbody => by
    cases hbody
    exact ⟨statusJson, rfl, rfl⟩
  have hnobody : oneResponse.RoundTrips nobody := fun body hbody => by
    cases hbody
    exact ⟨nobodyJson, rfl, rfl⟩
  have hhealth : healthOnly.RoundTrips health := fun body hbody => by
    cases hbody
    rfl
  have hencode : (envelopeFormat tokenCodec).encode token = .ok (frameOf tokenJson) :=
    FrameFormat.encode_eq_ok_iff.2 ⟨tokenJson, rfl, by decide, rfl⟩
  refine ⟨henvelopes.reads _ _ _ _ ?_ (.cons hencode (.cons hencode .nil)) (bytesOf_byteByByte _),
    hcommands.reads _ _ _ _ ?_ (.cons ?_ .nil) (bytesOf_byteByByte _),
    hresponses.reads _ _ _ _ ?_ (.cons ?_ .nil) (bytesOf_byteByByte _),
    hmessages.reads _ _ _ _ ?_ (.cons ?_ .nil) (bytesOf_byteByByte _)⟩
  · simpa using htoken
  · simpa using hstatus
  · exact FrameFormat.encode_eq_ok_iff.2 ⟨statusJson, rfl, by decide, rfl⟩
  · simpa using hnobody
  · exact FrameFormat.encode_eq_ok_iff.2 ⟨nobodyJson, rfl, by decide, rfl⟩
  · simpa using hhealth
  · exact FrameFormat.encode_eq_ok_iff.2 ⟨healthJson, rfl, by decide, rfl⟩

end Ipc
end DevHarness
