import DevHarness.Engine.Commands
import Mathlib.Data.List.Forall2
/-!
# ControlServer — a conversation on the control socket (`ipc/control_server.py`)

The loop of a connection reads a command frame, asks the handler and sends the response.  Loading and validating the
body happen inside the read, and what they raise is a `ValueError` like a malformed frame; encoding the response stands
outside the guard of the handler.  A body of JSON so ends the connection without an answer when it is no valid command
(`converses_iff`), and so does a response without a JSON or with one too long for its frame.
-/
namespace DevHarness
namespace Ipc

open Engine.Commands

/-- How a connection ended: the loop left, or the thread died of what it raised. -/
inductive ConnEnd where
  | left
  | died (r : CodecRaised)
  deriving DecidableEq, Repr

/-- What a server is built of: a handler with a state, and the JSON of its vocabulary. -/
structure ControlServer (H J : Type) where
  handler : H → Command → Except PyError CommandResponse × H
  commands : JsonLayer J Command
  responses : JsonLayer J CommandResponse

/-- A connection in its loop: what is still to arrive, and the frames sent. -/
structure ControlConn (H : Type) where
  socket : Socket
  handler : H
  sent : List (List UInt8) := []
  ended : Option ConnEnd := none

/-- `except (OSError, ValueError)`. -/
def caught : CodecRaised → Bool
  | .body .recursionError => false
  | _ => true

namespace ControlServer

variable {H J : Type} (server : ControlServer H J)

/-- The response to a command, and the handler after it; an exception is a response too. -/
def respond (h : H) (command : Command) : CommandResponse × H :=
  match server.handler h command with
  | (.ok response, h') => (response, h')
  | (.error exc, h') => (.error s!"{exc.typeName}: {exc.text}" "Check the command payload and retry.", h')

/-- One pass of the loop of `_handle_conn`, while the server runs and the peer reads. -/
def handleConn (conn : ControlConn H) : ControlConn H :=
  match conn.ended with
  | some _ => conn
  | none => match readCommandFrame server.commands conn.socket with
    | (.error r, socket) => { conn with socket, ended := some (if caught r = true then .left else .died r) }
    | (.ok command, socket) =>
      let responded := server.respond conn.handler command
      match encodeResponse server.responses responded.1 with
      | .error r => { conn with socket, handler := responded.2, ended := some (.died r) }
      | .ok frame => { conn with socket, handler := responded.2, sent := conn.sent ++ [frame] }

def passes : ℕ → ControlConn H → ControlConn H
  | 0, conn => conn
  | n + 1, conn => passes n (server.handleConn conn)

/-! ## Conversations -/

/-- The frame of a body. -/
def frameOf (body : List UInt8) : List UInt8 := pack body.length ++ body

/-- Each body has one response: the handler's, or an `ErrorResponse` where it is no valid command. -/
def Answers : H → List (List UInt8) → List CommandResponse → Prop
  | _, [], [] => True
  | h, body :: bodies, response :: responses =>
    match server.commands.fromJson body with
    | .ok command => response = (server.respond h command).1 ∧ Answers (server.respond h command).2 bodies responses
    | .error _ => (∃ error remediation, response = .error error remediation) ∧ Answers h bodies responses
  | _, _, _ => False

/-- **The conversation goes on**: after as many passes as there were bodies, each has been sent its one response, in
order, and the connection is open with nothing of the bodies left. -/
def Converses (conn : ControlConn H) (bodies : List (List UInt8)) (tail : Socket) : Prop :=
  ∃ responses frames, server.Answers conn.handler bodies responses ∧
    List.Forall₂ (fun response frame => encodeResponse server.responses response = .ok frame) responses frames ∧
    (server.passes bodies.length conn).sent = conn.sent ++ frames ∧
    (server.passes bodies.length conn).ended = none ∧ (server.passes bodies.length conn).socket = tail

/-- **Every body is a valid command whose response has a JSON, and with it a frame of at most 1 MiB.** -/
def Answerable : H → List (List UInt8) → Prop
  | _, [] => True
  | h, body :: bodies => ∃ command, server.commands.fromJson body = .ok command ∧
      (∃ json, server.responses.modelDumpJson (server.respond h command).1 = some json ∧
        prefixLen + json.length ≤ 1024 * 1024) ∧ Answerable (server.respond h command).2 bodies

variable {server}

theorem passes_of_ended {conn : ControlConn H} {e : ConnEnd} (h : conn.ended = some e) : ∀ n,
    server.passes n conn = conn
  | 0 => rfl
  | n + 1 => by
    have hstay : server.handleConn conn = conn := by
      unfold handleConn
      rw [h]
    rw [passes, hstay, passes_of_ended h n]

theorem readCommandFrame_frame {body rest : List UInt8} {pieces : List (UInt8 × List UInt8)}
    (hle : body.length ≤ 1024 * 1024) (hbytes : bytesOf (arrivals pieces) = frameOf body ++ rest) (tail : Socket) :
    ∃ pieces', readCommandFrame server.commands (arrivals pieces ++ tail) =
      (server.commands.fromJson body, arrivals pieces' ++ tail) ∧ bytesOf (arrivals pieces') = rest :=
  FrameFormat.readFrame_frame (f := commandFormat server.commands) rest hle hbytes tail

/-- An ended connection does not converse. -/
theorem not_converses_of_ended {conn : ControlConn H} {body : List UInt8} {bodies : List (List UInt8)} {tail : Socket}
    {e : ConnEnd} (h : (server.handleConn conn).ended = some e) : ¬ server.Converses conn (body :: bodies) tail := by
  rintro ⟨responses, frames, -, -, -, hopen, -⟩
  rw [List.length_cons, passes, passes_of_ended h, h] at hopen
  cases hopen

/-- **A valid command whose response fits is answered**, and the conversation goes on behind it. -/
theorem converses_cons_iff {conn : ControlConn H} {body frame : List UInt8} {bodies : List (List UInt8)}
    {socket tail : Socket} {command : Command} (hbody : server.commands.fromJson body = .ok command)
    (hframe : encodeResponse server.responses (server.respond conn.handler command).1 = .ok frame)
    (hpass : server.handleConn conn = { conn with
      socket := socket, handler := (server.respond conn.handler command).2, sent := conn.sent ++ [frame] }) :
    server.Converses conn (body :: bodies) tail ↔ server.Converses { conn with
      socket := socket, handler := (server.respond conn.handler command).2, sent := conn.sent ++ [frame] }
      bodies tail := by
  unfold Converses
  rw [List.length_cons, passes, hpass]
  constructor
  · rintro ⟨responses, frames, hanswers, hframes, hsent, hopen, hsocket⟩
    cases responses with
    | nil => exact hanswers.elim
    | cons response responses =>
      rw [Answers, hbody] at hanswers
      cases hframes with
      | @cons _ first _ frames hfirst hframes =>
        rw [hanswers.1, hframe] at hfirst
        cases hfirst
        refine ⟨responses, frames, hanswers.2, hframes, ?_, hopen, hsocket⟩
        rw [hsent, List.append_assoc]
        rfl
  · rintro ⟨responses, frames, hanswers, hframes, hsent, hopen, hsocket⟩
    refine ⟨(server.respond conn.handler command).1 :: responses, frame :: frames, ?_, .cons hframe hframes, ?_, hopen,
      hsocket⟩
    · rw [Answers, hbody]
      exact ⟨rfl, hanswers⟩
    · rw [hsent, List.append_assoc]
      rfl

/-- **Every body gets its one response over an open connection exactly when every body is a valid command whose response
fits its frame.** -/
theorem converses_iff : ∀ (bodies : List (List UInt8)) (conn : ControlConn H) (pieces : List (UInt8 × List UInt8))
    (tail : Socket), (∀ body ∈ bodies, body.length ≤ 1024 * 1024) → conn.ended = none →
    conn.socket = arrivals pieces ++ tail → bytesOf (arrivals pieces) = (bodies.map frameOf).flatten →
    (server.Converses conn bodies tail ↔ server.Answerable conn.handler bodies)
  | [], conn, pieces, tail, _, hopen, hsocket, hbytes => by
    rw [eq_nil_of_bytesOf_arrivals hbytes] at hsocket
    refine iff_of_true ⟨[], [], trivial, .nil, ?_, hopen, hsocket⟩ trivial
    rw [List.append_nil]
    rfl
  | body :: bodies, conn, pieces, tail, hle, hopen, hsocket, hbytes => by
    rw [List.map_cons, List.flatten_cons] at hbytes
    obtain ⟨pieces', hread, hrest⟩ := readCommandFrame_frame (hle body List.mem_cons_self) hbytes tail
    rw [← hsocket] at hread
    cases hbody : server.commands.fromJson body with
    | error r =>
      refine iff_of_false (not_converses_of_ended (e := if caught r = true then .left else .died r) ?_) ?_
      · unfold handleConn
        rw [hopen, hread, hbody]
      · rintro ⟨command, hcommand, -⟩
        rw [hbody] at hcommand
        cases hcommand
    | ok command =>
      cases hframe : encodeResponse server.responses (server.respond conn.handler command).1 with
      | error r =>
        refine iff_of_false (not_converses_of_ended (e := .died r) ?_) ?_
        · unfold handleConn
          rw [hopen, hread, hbody]
          dsimp only
          rw [hframe]
        · rintro ⟨command', hcommand, ⟨json, hdump, hfits⟩, -⟩
          rw [hbody] at hcommand
          cases hcommand
          have hok := encodeResponse_eq_ok_iff.2 ⟨json, hdump, hfits, rfl⟩
          rw [hframe] at hok
          cases hok
      | ok frame =>
        have hpass : server.handleConn conn = { conn with
            socket := arrivals pieces' ++ tail, handler := (server.respond conn.handler command).2
            sent := conn.sent ++ [frame] } := by
          unfold handleConn
          rw [hopen, hread, hbody]
          dsimp only
          rw [hframe]
        have ih := converses_iff bodies { conn with
            socket := arrivals pieces' ++ tail, handler := (server.respond conn.handler command).2
            sent := conn.sent ++ [frame] } pieces' tail (fun b hb => hle b (List.mem_cons_of_mem _ hb)) hopen rfl hrest
        rw [converses_cons_iff hbody hframe hpass, ih]
        constructor
        · obtain ⟨json, hdump, hfits, -⟩ := encodeResponse_eq_ok_iff.1 hframe
          exact fun h => ⟨command, hbody, ⟨json, hdump, hfits⟩, h⟩
        · rintro ⟨command', hcommand, -, h⟩
          rw [hbody] at hcommand
          cases hcommand
          exact h

/-! ## A status and an unknown command -/

def utf8 (text : String) : List UInt8 := text.toList.map (fun c => UInt8.ofNat c.toNat)

def statusJson : List UInt8 := utf8 "\x7b\"command\":\"STATUS\",\"workspace\":\"/w\"\x7d"

def bogusJson : List UInt8 := utf8 "\x7b\"command\":\"BOGUS\",\"workspace\":\"/w\"\x7d"

/-- JSON and pydantic on these two bodies; a value loaded is its text. -/
def twoBodies : JsonLayer (List UInt8) Command where
  modelDumpJson _ := some statusJson
  loads body := if body = statusJson ∨ body = bogusJson then .ok body else .error .jsonDecodeError
  validatePython data := if data = statusJson then some (.status "/w") else none

def nobody : CommandResponse := .status none .ready version

def nobodyJson : List UInt8 := utf8
  "\x7b\"command\":\"STATUS\",\"ok\":true,\"thread_id\":null,\"state\":\"READY\",\"version\":\"0.1.0\"\x7d"

/-- JSON and pydantic on the status where no session is. -/
def oneResponse : JsonLayer (List UInt8) CommandResponse where
  modelDumpJson _ := some nobodyJson
  loads body := if body = nobodyJson then .ok body else .error .jsonDecodeError
  validatePython data := if data = nobodyJson then some nobody else none

def daemonServer : ControlServer CommandHandler (List UInt8) where
  handler := CommandHandler.handle ⟨fun path => .ok path, fun n => Nat.repr n⟩
  commands := twoBodies
  responses := oneResponse

/-- The bodies sent together on a connection that stays open. -/
def talking (bodies : List (List UInt8)) : ControlConn CommandHandler where
  socket := pushBack (bodies.map frameOf).flatten []
  handler := {}

theorem converses_status : daemonServer.Converses (talking [statusJson, statusJson]) [statusJson, statusJson] [] := by
  obtain ⟨pieces, hpush, hbytes⟩ := pushBack_arrivals ([statusJson, statusJson].map frameOf).flatten [] []
  rw [show bytesOf (arrivals []) = [] from rfl, List.append_nil] at hbytes
  refine (converses_iff [statusJson, statusJson] (talking [statusJson, statusJson]) pieces [] ?_ rfl hpush hbytes).2 ?_
  · decide +kernel
  · exact ⟨.status "/w", rfl, ⟨nobodyJson, rfl, by decide⟩, .status "/w", rfl, ⟨nobodyJson, rfl, by decide⟩, trivial⟩

/-- **An unknown command is hung up on**: the connection ends without an answer, and the status behind it gets none. -/
theorem unknown_command_hangs_up :
    (∃ data, daemonServer.commands.loads bogusJson = .ok data) ∧
      (daemonServer.passes 2 (talking [bogusJson, statusJson])).ended = some .left ∧
      (daemonServer.passes 2 (talking [bogusJson, statusJson])).sent = [] ∧
      ¬ daemonServer.Converses (talking [bogusJson, statusJson]) [bogusJson, statusJson] [] := by
  have hended : (daemonServer.handleConn (talking [bogusJson, statusJson])).ended = some .left := by decide +kernel
  refine ⟨⟨bogusJson, rfl⟩, ?_, by decide +kernel, not_converses_of_ended hended⟩
  rw [passes, passes_of_ended hended, hended]

end ControlServer
end Ipc
end DevHarness
