import DevHarness.Ipc.ControlServer
import DevHarness.Lib.Machine
import DevHarness.Lib.Rpc
import DevHarness.Lib.Text
import Mathlib.Data.String.Basic
/-!
# ControlClients — the clients of a control socket (`engine/bootstrap.py`, `ipc/control_server.py`, `engine/session.py`)

A `CommandClient` has one request out at a time; where it raises, its connection is dropped, and the server may come to
the request later, between those of the others.  A session is made once for a workspace and never altered: whatever the
clients are told of it agrees (`sessions_agree`), and who asks after it has been told of is told of it (`session_stays`).
-/
namespace DevHarness
namespace Engine
namespace Commands

open Ipc (ControlServer)
open Lib

/-! ## Thread ids -/

/-- `_last_ns` after `n` ids, with what `time.time_ns()` gives for each. -/
def lastNs (timeNs : ℕ → ℕ) : ℕ → ℕ
  | 0 => 0
  | n + 1 => if timeNs n ≤ lastNs timeNs n then lastNs timeNs n + 1 else timeNs n

/-- `new_thread_id`, for the `n`-th time; `hex` is the part of a `uuid4`. -/
def newThreadId (timeNs : ℕ → ℕ) (hex : ℕ → String) (n : ℕ) : String :=
  Nat.repr (lastNs timeNs (n + 1)) ++ "-" ++ hex n

/-- **The nanoseconds of the ids go up**, whatever the clock does. -/
theorem strictMono_lastNs (timeNs : ℕ → ℕ) : StrictMono (lastNs timeNs) := by
  refine strictMono_nat_of_lt_succ (fun n => ?_)
  rw [lastNs]
  split <;> omega

theorem toList_newThreadId (timeNs : ℕ → ℕ) (hex : ℕ → String) (n : ℕ) :
    (newThreadId timeNs hex n).toList = Nat.toDigits 10 (lastNs timeNs (n + 1)) ++ '-' :: (hex n).toList := by
  simp [newThreadId, Nat.toList_repr]

theorem newThreadId_injective (timeNs : ℕ → ℕ) (hex : ℕ → String) : Function.Injective (newThreadId timeNs hex) := by
  intro m n h
  have hdigits : ∀ k, ((newThreadId timeNs hex k).toList).takeWhile (· ≠ '-') =
      Nat.toDigits 10 (lastNs timeNs (k + 1)) := by
    intro k
    rw [toList_newThreadId, List.takeWhile_append_of_pos]
    · simp
    · intro c hc
      have hdigit := Nat.isDigit_of_mem_toDigits (by decide) (by decide) hc
      refine decide_eq_true (fun he => ?_)
      rw [he] at hdigit
      exact absurd hdigit (by decide)
  have hsame : Nat.toDigits 10 (lastNs timeNs (m + 1)) = Nat.toDigits 10 (lastNs timeNs (n + 1)) := by
    rw [← hdigits, ← hdigits, h]
  have hns : lastNs timeNs (m + 1) = lastNs timeNs (n + 1) := by
    rw [← Nat.ofDigitChars_ten_toDigits (n := lastNs timeNs (m + 1)), hsame, Nat.ofDigitChars_ten_toDigits]
  exact Nat.succ_injective ((strictMono_lastNs timeNs).injective hns)

/-- **Ids are in order as texts**: of two whose nanoseconds have as many digits, the one made first is the lesser,
whatever the clock does between. -/
theorem newThreadId_lt (timeNs : ℕ → ℕ) (hex : ℕ → String) (m n : ℕ) (h : m < n)
    (hdigits : (Nat.repr (lastNs timeNs (m + 1))).length = (Nat.repr (lastNs timeNs (n + 1))).length) :
    newThreadId timeNs hex m < newThreadId timeNs hex n := by
  have hns : lastNs timeNs (m + 1) < lastNs timeNs (n + 1) := strictMono_lastNs timeNs (Nat.succ_lt_succ h)
  rw [← String.length_toList, ← String.length_toList, Nat.toList_repr, Nat.toList_repr] at hdigits
  obtain ⟨common, c, d, ms, ns, hms, hns, hcd⟩ := exists_digit_lt _ _ hns hdigits
  rw [String.lt_iff_toList_lt, toList_newThreadId, toList_newThreadId, hms, hns, List.append_assoc, List.append_assoc]
  exact List.Lex.append_left _ (List.Lex.rel hcd) common

/-- A clock that is put back an hour between two ids. -/
theorem newThreadId_lt_putBack :
    newThreadId (fun n => 1700003600000000000 - 3600000000000 * n) (fun _ => "9f86d081884c7d65") 0 <
      newThreadId (fun n => 1700003600000000000 - 3600000000000 * n) (fun _ => "9f86d081884c7d65") 1 :=
  newThreadId_lt _ _ 0 1 Nat.zero_lt_one (by decide +kernel)

/-! ## What a response tells of a session -/

def Command.workspace : Command → String
  | .startSession workspace => workspace
  | .attach workspace => workspace
  | .detach workspace => workspace
  | .status workspace => workspace
  | .shutdown workspace => workspace

def CommandResponse.threadId : CommandResponse → Option String
  | .startSession threadId _ => some threadId
  | .attach threadId _ => some threadId
  | .detach threadId => some threadId
  | .status threadId _ _ => threadId
  | _ => none

def CommandResponse.starts : CommandResponse → Bool
  | .startSession _ _ => true
  | _ => false

/-- What is told of a session that is there. -/
def told (workspacePath : String) (session : Session) : Command → CommandResponse
  | .startSession _ =>
    .error (sessionExistsText workspacePath session) "Attach to the existing session or stop it first."
  | .attach _ => .attach session.threadId session.criticGatekeeperStatus
  | .detach _ => .detach session.threadId
  | .status _ => .status (some session.threadId) session.criticGatekeeperStatus version
  | .shutdown _ => .shutdown

/-! ## Clients and server -/

structure ControlRequest where
  serial : ℕ
  command : Command

structure ControlSystem where
  net : Rpc.Net CommandHandler ControlRequest CommandResponse
  -- the responses read
  heard : List (ControlRequest × CommandResponse) := []

inductive ControlAct where
  -- `sent` when the frame is written whole
  | request (client : ℕ) (command : Command) (sent : Bool)
  -- the thread of a connection handles its next command
  | serve (conn : ℕ)
  | read (client : ℕ)
  -- `close`, or `_conn = None` after what the request raised
  | drop (client : ℕ)

section

variable {J : Type}

/-- The daemon's control server. -/
def commandServer (platform : SessionPlatform) (commands : JsonLayer J Command)
    (responses : JsonLayer J CommandResponse) : ControlServer CommandHandler J :=
  ⟨CommandHandler.handle platform, commands, responses⟩

namespace ControlSystem

variable (server : ControlServer CommandHandler J)

/-- A command handled; a response too long for a frame ends the connection. -/
def answer (h : CommandHandler) (q : ControlRequest) (_ : Unit) : Option CommandResponse × CommandHandler :=
  let responded := server.respond h q.command
  (match encodeResponse server.responses responded.1 with
    | .error _ => none
    | .ok _ => some responded.1, responded.2)

def step (s : ControlSystem) : ControlAct → Option ControlSystem
  | .request k command sent =>
    if (s.net.clients k).asking.isSome = true then none
    else match encodeCommand server.commands command, sent with
      | .ok _, true => (s.net.ask k ⟨s.net.asked.length, command⟩).map (fun net => { s with net })
      | _, _ => some { s with net := s.net.leave k }
  | .serve c => (s.net.serve (answer server) c ()).map (fun net => { s with net })
  | .read k => match (s.net.clients k).asking, s.net.read k with
    | some q, some (response, net) => some ⟨net, s.heard ++ [(q, response)]⟩
    | _, _ => none
  | .drop k => some { s with net := s.net.leave k }

def machine : Machine ControlSystem ControlAct := ⟨step server⟩

def start : ControlSystem := ⟨{ server := {} }, []⟩

end ControlSystem

/-! ## What a command does -/

variable {platform : SessionPlatform} {commands : JsonLayer J Command} {responses : JsonLayer J CommandResponse}

/-- **What a command does**: it makes the session of a workspace that has none, or tells of the one that is there, or
tells of none; the other sessions stay. -/
inductive Responds (platform : SessionPlatform) (h : CommandHandler) (command : Command) :
    CommandResponse × CommandHandler → Prop
  | made (path : String) (hpath : platform.resolve command.workspace = .ok path)
    (hnone : h.sessions.sessions.get? path = none) :
    Responds platform h command (.startSession (platform.newThreadId h.sessions.minted) .ready, { h with
      sessions := ⟨h.sessions.sessions.set path ⟨platform.newThreadId h.sessions.minted, path, .ready⟩,
        h.sessions.minted + 1⟩ })
  | known (path : String) (session : Session) (h' : CommandHandler)
    (hpath : platform.resolve command.workspace = .ok path) (hget : h.sessions.sessions.get? path = some session)
    (hsame : h'.sessions = h.sessions) : Responds platform h command (told path session command, h')
  | other (response : CommandResponse) (h' : CommandHandler)
    (hnone : ∀ path, platform.resolve command.workspace = .ok path → h.sessions.sessions.get? path = none)
    (hthread : response.threadId = none) (hstarts : response.starts = false) (hsame : h'.sessions = h.sessions) :
    Responds platform h command (response, h')

/-- **A command that looks its session up**, and is answered by what it finds. -/
theorem responds_lookup (h : CommandHandler) (command : Command) (answers : Option Session → CommandResponse)
    (hrespond : (commandServer platform commands responses).respond h command =
      (match h.sessions.get platform command.workspace with
        | .error exc => .error s!"{exc.typeName}: {exc.text}" "Check the command payload and retry."
        | .ok found => answers found, h))
    (hnone : (answers none).threadId = none ∧ (answers none).starts = false)
    (hsome : ∀ path session, answers (some session) = told path session command) :
    Responds platform h command ((commandServer platform commands responses).respond h command) := by
  rw [hrespond]
  unfold SessionManager.get
  cases hpath : platform.resolve command.workspace with
  | error exc =>
    refine .other _ _ (fun path hp => ?_) rfl rfl rfl
    rw [hpath] at hp
    cases hp
  | ok path =>
    dsimp only
    cases hget : h.sessions.sessions.get? path with
    | none =>
      refine .other _ _ (fun path' hp => ?_) hnone.1 hnone.2 rfl
      rw [hpath] at hp
      cases hp
      exact hget
    | some session =>
      rw [hsome path session]
      exact .known path session h hpath hget rfl

theorem responds_startSession (h : CommandHandler) (workspace : String) : Responds platform h (.startSession workspace)
    ((commandServer platform commands responses).respond h (.startSession workspace)) := by
  unfold ControlServer.respond commandServer CommandHandler.handle CommandHandler.startSession SessionManager.newSession
  dsimp only
  cases hpath : platform.resolve workspace with
  | error exc =>
    refine .other _ _ (fun path hp => ?_) rfl rfl rfl
    change platform.resolve workspace = .ok path at hp
    rw [hpath] at hp
    cases hp
  | ok path =>
    dsimp only
    cases hget : h.sessions.sessions.get? path with
    | none => exact .made path hpath hget
    | some session => exact .known path session _ hpath hget rfl

theorem responds (h : CommandHandler) (command : Command) :
    Responds platform h command ((commandServer platform commands responses).respond h command) := by
  cases command with
  | startSession workspace => exact responds_startSession h workspace
  | attach workspace =>
    refine responds_lookup h _ (fun found => match found with
      | none => noSession workspace
      | some session => .attach session.threadId session.criticGatekeeperStatus) ?_ ⟨rfl, rfl⟩ (fun _ _ => rfl)
    unfold ControlServer.respond commandServer CommandHandler.handle CommandHandler.attach Command.workspace
    dsimp only
    rcases h.sessions.get platform workspace with exc | _ | session <;> rfl
  | detach workspace =>
    refine responds_lookup h _ (fun found => match found with
      | none => noSession workspace
      | some session => .detach session.threadId) ?_ ⟨rfl, rfl⟩ (fun _ _ => rfl)
    unfold ControlServer.respond commandServer CommandHandler.handle CommandHandler.detach Command.workspace
    dsimp only
    rcases h.sessions.get platform workspace with exc | _ | session <;> rfl
  | status workspace =>
    refine responds_lookup h _ (fun found => match found with
      | none => .status none .ready version
      | some session => .status (some session.threadId) session.criticGatekeeperStatus version) ?_ ⟨rfl, rfl⟩
      (fun _ _ => rfl)
    unfold ControlServer.respond commandServer CommandHandler.handle CommandHandler.status Command.workspace
    dsimp only
    rcases h.sessions.get platform workspace with exc | _ | session <;> rfl
  | shutdown workspace =>
    by_cases hknown : ∃ path session, platform.resolve workspace = .ok path ∧ h.sessions.sessions.get? path = some session
    · obtain ⟨path, session, hpath, hget⟩ := hknown
      exact .known path session _ hpath hget rfl
    · refine .other _ _ (fun path hpath => ?_) rfl rfl rfl
      exact Option.eq_none_iff_forall_ne_some.2 (fun session hget => hknown ⟨path, session, hpath, hget⟩)

theorem threadId_told (path : String) (session : Session) (command : Command) :
    ∀ t ∈ (told path session command).threadId, session.threadId = t := by
  cases command <;> simp [told, CommandResponse.threadId]

theorem starts_told (path : String) (session : Session) (command : Command) :
    (told path session command).starts = false := by
  cases command <;> rfl

/-- **A session that is there is told of, and stays.** -/
theorem Responds.told_of_get? {h : CommandHandler} {command : Command} {x : CommandResponse × CommandHandler}
    (hr : Responds platform h command x) {path : String} {session : Session}
    (hget : h.sessions.sessions.get? path = some session) : x.2.sessions.sessions.get? path = some session ∧
      (platform.resolve command.workspace = .ok path → x.1 = told path session command) := by
  cases hr with
  | made path' hpath' hnone =>
    have hne : path ≠ path' := fun he => by
      rw [← he, hget] at hnone
      cases hnone
    refine ⟨by rw [Dict.get?_set_ne _ _ hne, hget], fun hpath => ?_⟩
    rw [hpath'] at hpath
    cases hpath
    exact absurd rfl hne
  | known path' session' h' hpath' hget' hsame =>
    refine ⟨by rw [hsame, hget], fun hpath => ?_⟩
    rw [hpath'] at hpath
    cases hpath
    rw [hget'] at hget
    cases hget
    rfl
  | other response h' hnone hthread hstarts hsame =>
    refine ⟨by rw [hsame, hget], fun hpath => ?_⟩
    rw [hnone path hpath] at hget
    cases hget

/-! ## What holds of the sessions and of what was told -/

/-- The times a workspace was given a session. -/
def startsOf (resolve : String → Except PyError String) (log : List (ControlRequest × Option CommandResponse))
    (path : String) : ℕ :=
  log.countP (fun x => x.2.any CommandResponse.starts && decide (resolve x.1.command.workspace = .ok path))

/-- **The sessions by what was told of them**: each is a workspace's own, as it was made, and the only one told of. -/
structure Kept (platform : SessionPlatform) (log : List (ControlRequest × Option CommandResponse)) (h : CommandHandler) :
    Prop where
  minted : ∀ path session, h.sessions.sessions.get? path = some session →
    ∃ n < h.sessions.minted, session = ⟨platform.newThreadId n, path, .ready⟩
  apart : ∀ path path' session session', h.sessions.sessions.get? path = some session →
    h.sessions.sessions.get? path' = some session' → session.threadId = session'.threadId → path = path'
  named : ∀ x ∈ log, ∀ response ∈ x.2, ∀ t ∈ response.threadId, ∃ path session,
    platform.resolve x.1.command.workspace = .ok path ∧ h.sessions.sessions.get? path = some session ∧
      session.threadId = t
  once : ∀ path, startsOf platform.resolve log path ≤ if (h.sessions.sessions.get? path).isSome then 1 else 0

theorem kept_init : Kept platform [] {} where
  minted := fun _ _ h => by cases h
  apart := fun _ _ _ _ h => by cases h
  named := fun _ hx => by cases hx
  once := fun _ => Nat.zero_le _

theorem startsOf_snoc (resolve : String → Except PyError String) (log : List (ControlRequest × Option CommandResponse))
    (x : ControlRequest × Option CommandResponse) (path : String) : startsOf resolve (log ++ [x]) path =
      startsOf resolve log path +
        if x.2.any CommandResponse.starts = true ∧ resolve x.1.command.workspace = .ok path then 1 else 0 := by
  unfold startsOf
  rw [List.countP_append, List.countP_singleton]
  simp only [Bool.and_eq_true, decide_eq_true_eq]

/-- **One command more**, whether its response was sent or not. -/
theorem Kept.snoc (hids : Function.Injective platform.newThreadId)
    {log : List (ControlRequest × Option CommandResponse)} {h h' : CommandHandler} (hk : Kept platform log h)
    {q : ControlRequest} {response : CommandResponse} (hr : Responds platform h q.command (response, h'))
    {sent : Option CommandResponse} (hsent : ∀ r ∈ sent, r = response) : Kept platform (log ++ [(q, sent)]) h' := by
  have hold : ∀ x ∈ log, ∀ r ∈ x.2, ∀ t ∈ r.threadId, ∃ path session, platform.resolve x.1.command.workspace = .ok path ∧
      h'.sessions.sessions.get? path = some session ∧ session.threadId = t := by
    intro x hx r hxr t ht
    obtain ⟨path, session, hpath, hget, hid⟩ := hk.named x hx r hxr t ht
    exact ⟨path, session, hpath, (hr.told_of_get? hget).1, hid⟩
  cases hr with
  | made path hpath hnone =>
    have hget : ∀ path' session, (h.sessions.sessions.set path ⟨platform.newThreadId h.sessions.minted, path, .ready⟩).get?
        path' = some session → (path' = path ∧ session = ⟨platform.newThreadId h.sessions.minted, path, .ready⟩) ∨
          (path' ≠ path ∧ ∃ n < h.sessions.minted, h.sessions.sessions.get? path' = some session ∧
            session = ⟨platform.newThreadId n, path', .ready⟩) := by
      intro path' session hg
      rw [Dict.get?_set] at hg
      split at hg
      · rename_i he
        exact Or.inl ⟨he, (Option.some.inj hg).symm⟩
      · rename_i he
        obtain ⟨n, hn, hsession⟩ := hk.minted path' session hg
        exact Or.inr ⟨he, n, hn, hg, hsession⟩
    refine ⟨fun path' session hg => ?_, fun path₁ path₂ session₁ session₂ h₁ h₂ hid => ?_, fun x hx r hxr t ht => ?_,
      fun path' => ?_⟩
    · rcases hget path' session hg with ⟨rfl, rfl⟩ | ⟨-, n, hn, -, hsession⟩
      · exact ⟨_, Nat.lt_succ_self _, rfl⟩
      · exact ⟨n, Nat.lt_succ_of_lt hn, hsession⟩
    · rcases hget path₁ session₁ h₁ with ⟨rfl, rfl⟩ | ⟨-, n, hn, hg₁, rfl⟩ <;>
        rcases hget path₂ session₂ h₂ with ⟨rfl, rfl⟩ | ⟨-, n', hn', hg₂, rfl⟩
      · rfl
      · exact absurd (hids hid) (Nat.ne_of_gt hn')
      · exact absurd (hids hid) (Nat.ne_of_lt hn)
      · exact hk.apart path₁ path₂ _ _ hg₁ hg₂ hid
    · rcases List.mem_append.1 hx with hx | hx
      · exact hold x hx r hxr t ht
      · rw [List.mem_singleton.1 hx] at hxr ⊢
        rw [hsent r hxr] at ht
        exact ⟨path, _, hpath, Dict.get?_set_self _ _ _, Option.some.inj ht⟩
    · rw [startsOf_snoc]
      have honce := hk.once path'
      by_cases he : path' = path
      · rw [he] at honce ⊢
        rw [hnone] at honce
        rw [Dict.get?_set_self]
        simp only [Option.isSome_none, Option.isSome_some, Bool.false_eq_true, if_false, if_true] at honce ⊢
        split <;> omega
      · rw [Dict.get?_set_ne _ _ he, if_neg]
        · exact honce
        · rintro ⟨-, hp⟩
          rw [hpath] at hp
          cases hp
          exact he rfl
  | known path session h' hpath hget hsame =>
    refine ⟨by rw [hsame]; exact hk.minted, by rw [hsame]; exact hk.apart, fun x hx r hxr t ht => ?_, fun path' => ?_⟩
    · rcases List.mem_append.1 hx with hx | hx
      · exact hold x hx r hxr t ht
      · rw [List.mem_singleton.1 hx] at hxr ⊢
        rw [hsent r hxr] at ht
        exact ⟨path, session, hpath, by rw [hsame, hget], threadId_told _ _ _ t ht⟩
    · rw [startsOf_snoc, if_neg, hsame]
      · exact hk.once path'
      · rintro ⟨hany, -⟩
        obtain ⟨r, hr, hstarts⟩ := (Option.any_eq_true _ _).1 hany
        rw [hsent r hr, starts_told] at hstarts
        cases hstarts
  | other _ _ hnone hthread hstarts hsame =>
    refine ⟨by rw [hsame]; exact hk.minted, by rw [hsame]; exact hk.apart, fun x hx r hxr t ht => ?_, fun path' => ?_⟩
    · rcases List.mem_append.1 hx with hx | hx
      · exact hold x hx r hxr t ht
      · rw [List.mem_singleton.1 hx] at hxr
        rw [hsent r hxr, hthread] at ht
        cases ht
    · rw [startsOf_snoc, if_neg, hsame]
      · exact hk.once path'
      · rintro ⟨hany, -⟩
        obtain ⟨r, hr, hyes⟩ := (Option.any_eq_true _ _).1 hany
        rw [hsent r hr, hstarts] at hyes
        cases hyes

/-! ## Runs -/

namespace ControlSystem

theorem answer_cases (server : ControlServer CommandHandler J) (h : CommandHandler) (q : ControlRequest) (i : Unit) :
    (∀ r ∈ (answer server h q i).1, r = (server.respond h q.command).1) ∧
      (answer server h q i).2 = (server.respond h q.command).2 := by
  refine ⟨fun r hr => ?_, rfl⟩
  unfold answer at hr
  dsimp only at hr
  split at hr
  · cases hr
  · exact (Option.some.inj hr).symm

/-- **One pass of the connection's loop over a command's frame** handles it as here, and sends the response or ends. -/
theorem handleConn_answer (server : ControlServer CommandHandler J) {conn : Ipc.ControlConn CommandHandler}
    {command : Command} {body rest : List UInt8} {pieces : List (UInt8 × List UInt8)} {tail : Ipc.Socket} (serial : ℕ)
    (hended : conn.ended = none) (hsocket : conn.socket = Ipc.arrivals pieces ++ tail)
    (hbytes : Ipc.bytesOf (Ipc.arrivals pieces) = Ipc.ControlServer.frameOf body ++ rest)
    (hle : body.length ≤ 1024 * 1024) (hdump : server.commands.modelDumpJson command = some body)
    (hjson : server.commands.RoundTrips command) :
    (server.handleConn conn).handler = (answer server conn.handler ⟨serial, command⟩ ()).2 ∧
      match (answer server conn.handler ⟨serial, command⟩ ()).1 with
      | none => (server.handleConn conn).sent = conn.sent ∧ (server.handleConn conn).ended.isSome = true
      | some response => ∃ frame, encodeResponse server.responses response = .ok frame ∧
        (server.handleConn conn).sent = conn.sent ++ [frame] ∧ (server.handleConn conn).ended = none := by
  obtain ⟨pieces', hread, -⟩ : ∃ pieces', readCommandFrame server.commands (Ipc.arrivals pieces ++ tail) =
      (server.commands.fromJson body, Ipc.arrivals pieces' ++ tail) ∧ Ipc.bytesOf (Ipc.arrivals pieces') = rest :=
    Ipc.ControlServer.readCommandFrame_frame hle hbytes tail
  rw [← hsocket, hjson.fromJson hdump] at hread
  unfold ControlServer.handleConn answer
  rw [hended, hread]
  dsimp only
  cases hencode : encodeResponse server.responses (server.respond conn.handler command).1 with
  | error r => exact ⟨rfl, rfl, rfl⟩
  | ok frame => exact ⟨rfl, frame, hencode, rfl, rfl⟩

/-- What holds in every state: requests are told apart by their numbers, and what was read was answered. -/
structure Heard (platform : SessionPlatform) (s : ControlSystem) : Prop where
  sound : s.net.Sound
  serial : ∀ q ∈ s.net.asked, q.serial < s.net.asked.length
  logged : ∀ x ∈ s.heard, (x.1, some x.2) ∈ s.net.log
  kept : Kept platform s.net.log s.net.server

theorem heard_start : Heard platform start where
  sound := Rpc.Net.sound_init _
  serial := fun _ h => by cases h
  logged := fun _ h => by cases h
  kept := kept_init

/-- **What a step does to the net**: a client asks, reads or drops its connection, or the server handles a command. -/
theorem net_of_step {server : ControlServer CommandHandler J} {s t : ControlSystem} {a : ControlAct}
    (hstep : step server s a = some t) :
    (∃ k command, s.net.ask k ⟨s.net.asked.length, command⟩ = some t.net ∧ t.heard = s.heard) ∨
      (∃ c, s.net.serve (answer server) c () = some t.net ∧ t.heard = s.heard) ∨
      (∃ k q response, (s.net.clients k).asking = some q ∧ s.net.read k = some (response, t.net) ∧
        t.heard = s.heard ++ [(q, response)]) ∨
      (∃ k, t.net = s.net.leave k ∧ t.heard = s.heard) := by
  cases a with
  | request k command sent =>
    simp only [step] at hstep
    split at hstep
    · cases hstep
    · split at hstep
      · obtain ⟨net, hask, rfl⟩ := Option.map_eq_some_iff.1 hstep
        exact Or.inl ⟨k, command, hask, rfl⟩
      · cases hstep
        exact Or.inr (Or.inr (Or.inr ⟨k, rfl, rfl⟩))
  | serve c =>
    obtain ⟨net, hserve, rfl⟩ := Option.map_eq_some_iff.1 hstep
    exact Or.inr (Or.inl ⟨c, hserve, rfl⟩)
  | read k =>
    simp only [step] at hstep
    split at hstep
    · rename_i q response net hq hread
      cases hstep
      exact Or.inr (Or.inr (Or.inl ⟨k, q, response, hq, hread, rfl⟩))
    · cases hstep
  | drop k =>
    cases hstep
    exact Or.inr (Or.inr (Or.inr ⟨k, rfl, rfl⟩))

theorem heard_step (hids : Function.Injective platform.newThreadId) {s t : ControlSystem} {a : ControlAct}
    (h : Heard platform s) (hstep : step (commandServer platform commands responses) s a = some t) :
    Heard platform t := by
  rcases net_of_step hstep with ⟨k, command, hask, hheard⟩ | ⟨c, hserve, hheard⟩ | ⟨k, q, response, hq, hread, hheard⟩ |
    ⟨k, hnet, hheard⟩
  · obtain ⟨-, hserver, hlog, hasked, -, -⟩ := Rpc.Net.ask_spec hask
    refine ⟨h.sound.ask hask, fun q hq => ?_, by rw [hlog, hheard]; exact h.logged, by rw [hlog, hserver]; exact h.kept⟩
    rw [hasked] at hq
    rw [hasked, List.length_append]
    rcases List.mem_append.1 hq with hq | hq
    · exact Nat.lt_add_right _ (h.serial q hq)
    · rw [List.mem_singleton.1 hq]
      exact Nat.lt_succ_self _
  · obtain ⟨q, hlog, hserver, hasked, -⟩ := Rpc.Net.serve_spec hserve
    obtain ⟨hsent, hhandler⟩ := answer_cases (commandServer platform commands responses) s.net.server q ()
    refine ⟨h.sound.serve hserve, by rw [hasked]; exact h.serial, fun x hx => ?_, ?_⟩
    · rw [hheard] at hx
      rw [hlog]
      exact List.mem_append_left _ (h.logged x hx)
    · rw [hlog, hserver, hhandler]
      exact h.kept.snoc hids (responds s.net.server q.command) hsent
  · obtain ⟨hserver, hlog, hasked, -, -⟩ := Rpc.Net.read_spec hread
    obtain ⟨q', hq', hmem⟩ := h.sound.read_answers hread
    rw [hq] at hq'
    cases hq'
    refine ⟨h.sound.read hread, by rw [hasked]; exact h.serial, fun x hx => ?_, by rw [hlog, hserver]; exact h.kept⟩
    rw [hheard] at hx
    rw [hlog]
    rcases List.mem_append.1 hx with hx | hx
    · exact h.logged x hx
    · rw [List.mem_singleton.1 hx]
      exact hmem
  · refine ⟨by rw [hnet]; exact h.sound.leave k, ?_, ?_, ?_⟩
    · rw [hnet]
      exact h.serial
    · rw [hnet, hheard]
      exact h.logged
    · rw [hnet]
      exact h.kept

theorem heard_of_run (hids : Function.Injective platform.newThreadId) {acts : List ControlAct} {s : ControlSystem}
    (h : (machine (commandServer platform commands responses)).run start acts = some s) : Heard platform s :=
  (machine (commandServer platform commands responses)).inv_of_run (Heard platform)
    (fun _ _ _ hs hstep => heard_step hids hs hstep) acts _ s heard_start h

theorem later_of_run {server : ControlServer CommandHandler J} {s t : ControlSystem} {acts : List ControlAct}
    (h : (machine server).run s acts = some t) : ∃ new, Rpc.Net.Later (answer server) s.net t.net new := by
  refine (machine server).inv_of_run (fun t => ∃ new, Rpc.Net.Later (answer server) s.net t.net new)
    (fun t _ t' ⟨new, hlater⟩ hstep => ?_) acts s t ⟨[], Rpc.Net.Later.refl _⟩ h
  rcases net_of_step hstep with ⟨k, command, hask, -⟩ | ⟨c, hserve, -⟩ | ⟨k, q, response, -, hread, -⟩ | ⟨k, hnet, -⟩
  · obtain ⟨-, hserver, hlog, -⟩ := Rpc.Net.ask_spec hask
    exact ⟨new, hlater.quiet hserver hlog⟩
  · obtain ⟨x, hx⟩ := hlater.serve hserve
    exact ⟨new ++ [x], hx⟩
  · obtain ⟨hserver, hlog, -⟩ := Rpc.Net.read_spec hread
    exact ⟨new, hlater.quiet hserver hlog⟩
  · exact ⟨new, hlater.quiet (by rw [hnet]; rfl) (by rw [hnet]; rfl)⟩

variable (resolve : String → Except PyError String) (timeNs : ℕ → ℕ) (hex : ℕ → String)

/-- **All clients are told of the same sessions**: two responses, read by whichever clients, name one thread exactly when
their workspaces resolve alike, and no workspace is given a session twice by responses that could be encoded. -/
theorem sessions_agree (commands : JsonLayer J Command) (responses : JsonLayer J CommandResponse)
    (acts : List ControlAct) (s : ControlSystem)
    (h : (machine (commandServer ⟨resolve, newThreadId timeNs hex⟩ commands responses)).run start acts = some s) :
    (∀ x ∈ s.heard, ∀ y ∈ s.heard, ∀ t ∈ x.2.threadId, ∀ u ∈ y.2.threadId,
      t = u ↔ resolve x.1.command.workspace = resolve y.1.command.workspace) ∧
    ∀ path, startsOf resolve s.net.log path ≤ 1 := by
  have hheard := heard_of_run (newThreadId_injective timeNs hex) h
  refine ⟨fun x hx y hy t ht u hu => ?_, fun path => (hheard.kept.once path).trans (by split <;> omega)⟩
  obtain ⟨path, session, hpath, hget, hid⟩ := hheard.kept.named _ (hheard.logged x hx) x.2 rfl t ht
  obtain ⟨path', session', hpath', hget', hid'⟩ := hheard.kept.named _ (hheard.logged y hy) y.2 rfl u hu
  have hx : resolve x.1.command.workspace = .ok path := hpath
  have hy : resolve y.1.command.workspace = .ok path' := hpath'
  rw [hx, hy, Except.ok.injEq]
  constructor
  · intro htu
    exact hheard.kept.apart path path' session session' hget hget' (by rw [hid, hid', htu])
  · intro hpp
    rw [hpp, hget'] at hget
    cases hget
    rw [← hid, ← hid']

/-- **A session once told of is told of**: after some client has read a response that names a thread, every command sent
then for a workspace that resolves alike is answered with that thread, as the session was made; a shutdown names none. -/
theorem session_stays (commands : JsonLayer J Command) (responses : JsonLayer J CommandResponse)
    (acts later : List ControlAct) (s t : ControlSystem)
    (h : (machine (commandServer ⟨resolve, newThreadId timeNs hex⟩ commands responses)).run start acts = some s)
    (hlater : (machine (commandServer ⟨resolve, newThreadId timeNs hex⟩ commands responses)).run s later = some t)
    (x y : ControlRequest × CommandResponse) (hx : x ∈ s.heard) (hy : y ∈ t.heard)
    (hasked : s.net.asked.length ≤ y.1.serial) (threadId : String) (hthread : x.2.threadId = some threadId)
    (halike : resolve y.1.command.workspace = resolve x.1.command.workspace) :
    ∃ path, resolve y.1.command.workspace = .ok path ∧ y.2 = told path ⟨threadId, path, .ready⟩ y.1.command := by
  have hids := newThreadId_injective timeNs hex
  have hs := heard_of_run hids h
  have ht := (machine (commandServer ⟨resolve, newThreadId timeNs hex⟩ commands responses)).inv_of_run
    (Heard ⟨resolve, newThreadId timeNs hex⟩) (fun _ _ _ hs hstep => heard_step hids hs hstep) later s t hs hlater
  obtain ⟨path, session, hpath, hget, hid⟩ := hs.kept.named _ (hs.logged x hx) x.2 rfl threadId hthread
  obtain ⟨n, -, hsession⟩ := hs.kept.minted path session hget
  have hpath : resolve x.1.command.workspace = .ok path := hpath
  obtain ⟨new, hnew⟩ := later_of_run hlater
  -- the command was sent after `s`, so it is handled after it, and the session is there
  have hmem : (y.1, some y.2) ∈ new := hnew.answered_since hs.sound (ht.logged y hy)
    (fun hold => absurd (hs.serial _ hold) (Nat.not_lt_of_le hasked))
  obtain ⟨before, d, i, hbefore, hanswer⟩ := hnew.handled.answered _ hmem
  have hthere : d.sessions.sessions.get? path = some session :=
    hbefore.inv (fun _ d => d.sessions.sessions.get? path = some session) hget (fun _ d q i hd => by
      rw [(answer_cases _ d q i).2]
      exact ((responds d q.command).told_of_get? hd).1)
  refine ⟨path, halike.trans hpath, ?_⟩
  rw [← hid]
  have hresponds : Responds ⟨resolve, newThreadId timeNs hex⟩ d y.1.command
    ((commandServer _ commands responses).respond d y.1.command) := responds d y.1.command
  have htold := (hresponds.told_of_get? hthere).2 (halike.trans hpath)
  rw [(answer_cases _ d y.1 i).1 y.2 hanswer.symm, htold, hsession]

end ControlSystem

end

/-! ## A session started and attached to -/

/-- A JSON object whose names and texts have nothing to escape. -/
def jsonObject (fields : List (String × String)) : List UInt8 :=
  Ipc.ControlServer.utf8
    ("\x7b" ++ ",".intercalate (fields.map (fun f => "\"" ++ f.1 ++ "\":" ++ f.2)) ++ "\x7d")

def jsonText (text : String) : String := "\"" ++ text ++ "\""

def commandJson : Command → List UInt8
  | .startSession workspace => jsonObject [("command", jsonText "START_SESSION"), ("workspace", jsonText workspace)]
  | .attach workspace => jsonObject [("command", jsonText "ATTACH"), ("workspace", jsonText workspace)]
  | .detach workspace => jsonObject [("command", jsonText "DETACH"), ("workspace", jsonText workspace)]
  | .status workspace => jsonObject [("command", jsonText "STATUS"), ("workspace", jsonText workspace)]
  | .shutdown workspace => jsonObject [("command", jsonText "SHUTDOWN"), ("workspace", jsonText workspace)]

def responseJson : CommandResponse → List UInt8
  | .startSession threadId state => jsonObject [("command", jsonText "START_SESSION"), ("ok", "true"),
    ("thread_id", jsonText threadId), ("state", jsonText state.value)]
  | .attach threadId state => jsonObject [("command", jsonText "ATTACH"), ("ok", "true"),
    ("thread_id", jsonText threadId), ("state", jsonText state.value)]
  | .detach threadId => jsonObject [("command", jsonText "DETACH"), ("ok", "true"), ("thread_id", jsonText threadId)]
  | .status threadId state version => jsonObject [("command", jsonText "STATUS"), ("ok", "true"),
    ("thread_id", (threadId.map jsonText).getD "null"), ("state", jsonText state.value), ("version", jsonText version)]
  | .shutdown => jsonObject [("command", jsonText "SHUTDOWN"), ("ok", "true")]
  | .error error remediation => jsonObject [("command", jsonText "ERROR"), ("ok", "false"),
    ("error", jsonText error), ("remediation", jsonText remediation)]

/-- The JSON of these values; a value loaded is its text. -/
def jsonOf {α : Type} (json : α → List UInt8) (values : List α) : JsonLayer (List UInt8) α where
  modelDumpJson a := some (json a)
  loads body := .ok body
  validatePython body := values.find? (fun a => decide (json a = body))

namespace ControlSystem

/-- `str(Path(workspace).resolve())`, of these paths. -/
def resolveSlash (workspace : String) : Except PyError String := .ok (if workspace = "/w/" then "/w" else workspace)

def startedOnce : List ControlAct := [.request 0 (.startSession "/w") true, .serve 0, .read 0]

/-- The second client gives a START up, and attaches over a new connection; the START is come to last. -/
def attachedAfter : List ControlAct :=
  [.request 1 (.startSession "/w/") true, .drop 1, .request 1 (.attach "/w/") true, .serve 2, .serve 1, .read 1]

def smallCommands : JsonLayer (List UInt8) Command :=
  jsonOf commandJson [.startSession "/w", .startSession "/w/", .attach "/w/"]

def firstThread : String := "1700000000000000000-9f86d081884c7d65"

def smallResponses : JsonLayer (List UInt8) CommandResponse :=
  jsonOf responseJson [.startSession firstThread .ready, .attach firstThread .ready,
    told "/w" ⟨firstThread, "/w", .ready⟩ (.startSession "/w/")]

def smallServer : ControlServer CommandHandler (List UInt8) :=
  commandServer ⟨resolveSlash, newThreadId (fun _ => 1700000000000000000) (fun _ => "9f86d081884c7d65")⟩ smallCommands
    smallResponses

theorem sessions_agree_attachedAfter : ∃ s, (machine smallServer).run start (startedOnce ++ attachedAfter) = some s ∧
    s.heard.length = 2 ∧ (∀ x ∈ s.heard, ∀ y ∈ s.heard, ∀ t ∈ x.2.threadId, ∀ u ∈ y.2.threadId,
      t = u ↔ resolveSlash x.1.command.workspace = resolveSlash y.1.command.workspace) ∧
    ∀ path, startsOf resolveSlash s.net.log path ≤ 1 := by
  have hrun : ((machine smallServer).run start (startedOnce ++ attachedAfter)).any
      (fun s => decide (s.heard.length = 2)) = true := by decide +kernel
  obtain ⟨s, hs, hlength⟩ := (Option.any_eq_true _ _).1 hrun
  obtain ⟨hagree, honce⟩ := sessions_agree resolveSlash _ _ smallCommands smallResponses _ s hs
  exact ⟨s, hs, of_decide_eq_true hlength, hagree, honce⟩

theorem session_stays_attachedAfter : ∃ s t x y, (machine smallServer).run start startedOnce = some s ∧
    (machine smallServer).run s attachedAfter = some t ∧ x ∈ s.heard ∧ x.2 = .startSession firstThread .ready ∧
    y ∈ t.heard ∧ y.1.command = .attach "/w/" ∧
    ∃ path, resolveSlash y.1.command.workspace = .ok path ∧ y.2 = told path ⟨firstThread, path, .ready⟩ y.1.command := by
  have hrun : ((machine smallServer).run start startedOnce).any (fun s => s.heard.any (fun x =>
      decide (x.2 = .startSession firstThread .ready ∧ x.1.command = .startSession "/w") &&
        ((machine smallServer).run s attachedAfter).any (fun t => t.heard.any (fun y =>
          decide (y.1.command = .attach "/w/" ∧ s.net.asked.length ≤ y.1.serial))))) = true := by decide +kernel
  obtain ⟨s, hs, h⟩ := (Option.any_eq_true _ _).1 hrun
  obtain ⟨x, hx, h⟩ := List.any_eq_true.1 h
  rw [Bool.and_eq_true, decide_eq_true_eq] at h
  obtain ⟨⟨hthread, hstart⟩, h⟩ := h
  obtain ⟨t, ht, h⟩ := (Option.any_eq_true _ _).1 h
  obtain ⟨y, hy, h⟩ := List.any_eq_true.1 h
  obtain ⟨hattach, hasked⟩ := of_decide_eq_true h
  refine ⟨s, t, x, y, hs, ht, hx, hthread, hy, hattach, ?_⟩
  refine session_stays resolveSlash _ _ smallCommands smallResponses startedOnce attachedAfter s t hs ht x y hx hy hasked
    firstThread (by rw [hthread]; rfl) ?_
  rw [hattach, hstart]
  rfl

end ControlSystem
end Commands
end Engine
end DevHarness
