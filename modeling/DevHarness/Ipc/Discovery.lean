import DevHarness.Lib.Python
import DevHarness.Lib.Text
import Mathlib.Tactic.NormNum
/-!
# Discovery — the endpoint a daemon publishes and its clients read (`ipc/discovery.py`, `ipc/transport.py`)

The file is bytes another process wrote.  Reading it decodes them, strips the text, tests the port by `isdigit` and, to
probe, converts it by `int`: each step has its own exceptions, and only `OSError` and `TransportError` are caught.
`Digits` is what Unicode says of digits; `System` is the sockets and the paths of the host.
-/
namespace DevHarness
namespace Ipc
namespace Discovery

open Lib (Text)

/-- The characters `str.isdigit` accepts, and the value of those `int` reads. -/
structure Digits where
  isDigit : Char → Bool
  decimal : Char → Option ℕ
  decimal_ascii : ∀ c, c.isDigit = true → decimal c = some (c.toNat - '0'.toNat)
  isDigit_decimal : ∀ c, (decimal c).isSome = true → isDigit c = true
  isDigit_space : ∀ c, Text.isSpace c = true → isDigit c = false
  isDigit_colon : isDigit ':' = false

def maxStrDigits : ℕ := 4300

def Digits.value (digits : Digits) (text : Text) : ℕ :=
  text.foldl (fun n c => 10 * n + (digits.decimal c).getD 0) 0

/-- `int` of a text that `isdigit` accepts. -/
def Digits.int (digits : Digits) (text : Text) : Option ℕ :=
  if text.all (fun c => (digits.decimal c).isSome) ∧ text.length ≤ maxStrDigits then some (digits.value text) else none

def Digits.isdigit (digits : Digits) (text : Text) : Bool := !text.isEmpty && text.all digits.isDigit

theorem isDigit_bounds {c : Char} (h : c.isDigit = true) : 48 ≤ c.toNat ∧ c.toNat ≤ 57 := by
  have hd : (decide (48 ≤ c.val) && decide (c.val ≤ 57)) = true := h
  rw [Bool.and_eq_true, decide_eq_true_eq, decide_eq_true_eq, UInt32.le_iff_toNat_le, UInt32.le_iff_toNat_le] at hd
  exact hd

def ascii : Digits where
  isDigit := Char.isDigit
  decimal c := if c.isDigit then some (c.toNat - '0'.toNat) else none
  decimal_ascii c h := if_pos h
  isDigit_decimal c h := by
    by_contra hd
    rw [if_neg hd] at h
    cases h
  isDigit_space c h := by
    by_contra hd
    have hbounds := isDigit_bounds (Bool.eq_true_of_not_eq_false hd)
    simp only [Text.isSpace, Bool.or_eq_true, Bool.and_eq_true, decide_eq_true_eq] at h
    omega
  isDigit_colon := by decide

/-! ## Endpoints -/

inductive Kind where
  | unix
  | tcp
  deriving DecidableEq, Repr

def Kind.name : Kind → Text
  | .unix => "unix".toList
  | .tcp => "tcp".toList

structure Endpoint where
  kind : Kind
  /-- The path of a `unix` endpoint, `host:port` of a `tcp` one. -/
  address : Text
  deriving DecidableEq, Repr

def Endpoint.str (e : Endpoint) : Text := e.kind.name ++ ':' :: e.address

inductive Raised where
  | transportError (message : Text)
  | osError
  | unicodeDecodeError
  | valueError
  | overflowError
  deriving DecidableEq

inductive Attempt where
  | connected
  | osError
  | overflowError
  deriving DecidableEq

def loopback : Text := "127.0.0.1".toList

def hosts : List Text := [loopback, "localhost".toList]

def ephemeralPort : ℕ := 0

/-- What the host answers.  Connecting to a port of loopback succeeds or raises `OSError`, and a socket bound there says
it is `127.0.0.1`. -/
structure System where
  digits : Digits
  repr : Text → Text
  afUnixAvailable : Bool
  pathExists : Text → Bool
  connect : Text → ℕ → Attempt
  /-- `bind`, then `getsockname`. -/
  bind : Text → ℕ → Except Raised (Text × ℕ)
  connect_valid : ∀ host ∈ hosts, ∀ port ≤ 65535, connect host port ≠ .overflowError
  bind_loopback : ∀ host ∈ hosts, ∀ port name, bind host port = .ok name → name.1 = loopback

variable (sys : System)

def parseEndpoint (spec : Text) : Except Raised Endpoint :=
  let raw := Text.strip spec
  if raw = [] then .error (.transportError "empty endpoint".toList)
  else if "unix:".toList.isPrefixOf raw then
    let path := raw.drop "unix:".length
    if path = [] then .error (.transportError "unix endpoint has no path".toList)
    else .ok ⟨.unix, path⟩
  else if "tcp:".toList.isPrefixOf raw then
    match Text.rpartition ':' (raw.drop "tcp:".length) with
    | none => .error (.transportError ("malformed tcp endpoint: ".toList ++ raw))
    | some (host, port) =>
      if host = [] ∨ sys.digits.isdigit port = false then
        .error (.transportError ("malformed tcp endpoint: ".toList ++ raw))
      else if host ∉ hosts then
        .error (.transportError ("tcp endpoint must bind loopback, got ".toList ++ sys.repr host))
      else .ok ⟨.tcp, host ++ ':' :: port⟩
  else .error (.transportError ("unknown endpoint scheme: ".toList ++ raw))

/-- `_split_tcp`, with the port as `int` reads it; without a colon the address is the port. -/
def splitTcp (address : Text) : Except Raised (Text × ℕ) :=
  let parts := (Text.rpartition ':' address).getD ([], address)
  match sys.digits.int parts.2 with
  | some port => .ok (parts.1, port)
  | none => .error .valueError

/-! ## The file -/

inductive File where
  | absent
  | unreadable
  | content (bytes : ByteArray)

def File.readText : File → Except Raised Text
  | .absent => .error .osError
  | .unreadable => .error .osError
  | .content bytes => match String.fromUTF8? bytes with
    | none => .error .unicodeDecodeError
    | some s => .ok (Lib.translateNewlines s.toList)

def publishEndpoint (endpoint : Option Endpoint) (file : File) : File :=
  match endpoint with
  | none => file
  | some e => if e.kind = .unix then file else .content (String.ofList e.str).toUTF8

def readEndpoint : File → Except Raised (Option Endpoint)
  | .absent => .ok none
  | file => match file.readText.bind (parseEndpoint sys) with
    | .ok e => .ok (some e)
    | .error .osError => .ok none
    | .error (.transportError _) => .ok none
    | .error raised => .error raised

def endpointIsAlive (e : Endpoint) : Except Raised Bool :=
  match e.kind with
  | .unix => .ok (sys.pathExists e.address)
  | .tcp => match splitTcp sys e.address with
    | .error raised => .error raised
    | .ok (host, port) => match sys.connect host port with
      | .connected => .ok true
      | .osError => .ok false
      | .overflowError => .error .overflowError

def defaultEndpoint (unixPath : Text) (tcpPort : ℕ) : Endpoint :=
  if sys.afUnixAvailable then ⟨.unix, unixPath⟩ else ⟨.tcp, loopback ++ ':' :: (Nat.repr tcpPort).toList⟩

def resolveLiveEndpoint (published : File) (unixPath : Text) (tcpPort : ℕ) : Except Raised Endpoint :=
  match readEndpoint sys published with
  | .error raised => .error raised
  | .ok none => .ok (defaultEndpoint sys unixPath tcpPort)
  | .ok (some discovered) => match endpointIsAlive sys discovered with
    | .error raised => .error raised
    | .ok true => .ok discovered
    | .ok false => .ok (defaultEndpoint sys unixPath tcpPort)

/-! ## Servers -/

/-- `bound_endpoint`, with the name the socket says it has. -/
def boundEndpoint (name : Text × ℕ) (requested : Endpoint) : Endpoint :=
  if requested.kind ≠ .tcp then requested else ⟨.tcp, name.1 ++ ':' :: (Nat.repr name.2).toList⟩

/-- What a daemon is given to bind: a text, or an endpoint that a text was parsed to. -/
inductive Given where
  | spec (text : Text)
  | parsed (e : Endpoint) (h : ∃ text, parseEndpoint sys text = .ok e)

def requestedEndpoint (endpoint : Option (Given sys)) (unixPath : Text) : Except Raised Endpoint :=
  match endpoint with
  | some (.parsed e _) => .ok e
  | some (.spec text) => if text = [] then .ok (defaultEndpoint sys unixPath ephemeralPort) else parseEndpoint sys text
  | none => .ok (defaultEndpoint sys unixPath ephemeralPort)

/-- A daemon's start: `bind_server`, then `bound_endpoint`. -/
def serve (endpoint : Option (Given sys)) (unixPath : Text) : Except Raised Endpoint :=
  match requestedEndpoint sys endpoint unixPath with
  | .error raised => .error raised
  | .ok requested => match requested.kind with
    | .unix => .ok requested
    | .tcp => match splitTcp sys requested.address with
      | .error raised => .error raised
      | .ok (host, port) => match sys.bind host port with
        | .error raised => .error raised
        | .ok name => .ok (boundEndpoint name requested)

/-! ## What is promised -/

/-- Nothing is raised, and a port that is accepted is one. -/
def Reads (file : File) : Prop :=
  (∃ found, readEndpoint sys file = .ok found) ∧
  (∀ unixPath tcpPort, ∃ e, resolveLiveEndpoint sys file unixPath tcpPort = .ok e) ∧
  ∀ e, readEndpoint sys file = .ok (some e) → e.kind = .tcp →
    ∃ host port, splitTcp sys e.address = .ok (host, port) ∧ port ≤ 65535

def RoundTrips : Prop :=
  ∀ endpoint unixPath e, serve sys endpoint unixPath = .ok e → e.kind = .tcp → parseEndpoint sys e.str = .ok e

/-- A port in decimal digits, few enough for `int` and small enough for a socket. -/
def IsPort (port : Text) : Prop :=
  (∀ c ∈ port, (sys.digits.decimal c).isSome = true) ∧ port.length ≤ maxStrDigits ∧ sys.digits.value port ≤ 65535

/-- **A file that can be read**: it is UTF-8, and where it names digits on loopback they are a port. -/
def Readable : File → Prop
  | .absent => True
  | .unreadable => True
  | .content bytes => ∃ s, String.fromUTF8? bytes = some s ∧
      ∀ host ∈ hosts, ∀ port, sys.digits.isdigit port = true →
        Text.strip (Lib.translateNewlines s.toList) = "tcp:".toList ++ host ++ ':' :: port → IsPort sys port

/-! ## Parsing -/

theorem not_mem_of_isdigit {port : Text} (h : sys.digits.isdigit port = true) : ':' ∉ port := by
  intro hmem
  rw [Digits.isdigit, Bool.and_eq_true, List.all_eq_true] at h
  have hcolon := h.2 ':' hmem
  rw [sys.digits.isDigit_colon] at hcolon
  cases hcolon

/-- **What a text parses to**: it is refused by a `TransportError`, it is a path, or it is a host of loopback and digits. -/
theorem parseEndpoint_cases (spec : Text) :
    (∃ message, parseEndpoint sys spec = .error (.transportError message)) ∨
    (∃ address, parseEndpoint sys spec = .ok ⟨.unix, address⟩) ∨
    ∃ host ∈ hosts, ∃ port, sys.digits.isdigit port = true ∧
      Text.strip spec = "tcp:".toList ++ host ++ ':' :: port ∧ parseEndpoint sys spec = .ok ⟨.tcp, host ++ ':' :: port⟩ := by
  simp only [parseEndpoint]
  split
  · exact .inl ⟨_, rfl⟩
  split
  · split
    · exact .inl ⟨_, rfl⟩
    · exact .inr (.inl ⟨_, rfl⟩)
  split
  case isTrue hscheme =>
    obtain ⟨rest, hrest⟩ := List.isPrefixOf_iff_prefix.1 hscheme
    have hdrop : ("tcp:".toList ++ rest).drop "tcp:".length = rest := rfl
    rw [← hrest, hdrop]
    split
    · exact .inl ⟨_, rfl⟩
    case h_2 host port hparts =>
      obtain ⟨rfl, -⟩ := Text.rpartition_eq_some_iff.1 hparts
      split
      · exact .inl ⟨_, rfl⟩
      case isFalse hdigits =>
        split
        · exact .inl ⟨_, rfl⟩
        case isFalse hhost =>
          rw [not_or, Bool.not_eq_false] at hdigits
          exact .inr (.inr ⟨host, Classical.not_not.1 hhost, port, hdigits.2, (List.append_assoc _ _ _).symm, rfl⟩)
  case isFalse => exact .inl ⟨_, rfl⟩

/-- **The tcp endpoints that are accepted**: a host of loopback and digits. -/
theorem parseEndpoint_eq_tcp_iff {spec address : Text} :
    parseEndpoint sys spec = .ok ⟨.tcp, address⟩ ↔ ∃ host ∈ hosts, ∃ port, sys.digits.isdigit port = true ∧
      Text.strip spec = "tcp:".toList ++ host ++ ':' :: port ∧ address = host ++ ':' :: port := by
  constructor
  · intro h
    rcases parseEndpoint_cases sys spec with ⟨message, hp⟩ | ⟨path, hp⟩ | ⟨host, hhost, port, hdigits, hraw, hp⟩
    · rw [hp] at h
      cases h
    · rw [hp] at h
      cases h
    · rw [hp] at h
      cases h
      exact ⟨host, hhost, port, hdigits, hraw, rfl⟩
  · rintro ⟨host, hhost, port, hport, hraw, rfl⟩
    have hparts : Text.rpartition ':' (host ++ ':' :: port) = some (host, port) :=
      Text.rpartition_eq_some_iff.2 ⟨rfl, not_mem_of_isdigit sys hport⟩
    have hne : host ≠ [] := by
      rintro rfl
      exact absurd hhost (by decide)
    rw [List.append_assoc] at hraw
    have hnil : ¬ ("tcp:".toList ++ (host ++ ':' :: port) = []) := by simp
    have hunix : ("unix:".toList.isPrefixOf ("tcp:".toList ++ (host ++ ':' :: port))) = false := rfl
    have htcp : ("tcp:".toList.isPrefixOf ("tcp:".toList ++ (host ++ ':' :: port))) = true := rfl
    have hdrop : ("tcp:".toList ++ (host ++ ':' :: port)).drop "tcp:".length = host ++ ':' :: port := rfl
    have hdigits : ¬ (host = [] ∨ sys.digits.isdigit port = false) := by simp [hne, hport]
    simp only [parseEndpoint, hraw, if_neg hnil, hunix, htcp, hdrop, hparts, if_neg hdigits, Bool.false_eq_true,
      if_false, if_true, if_neg (Classical.not_not.2 hhost)]

theorem parseEndpoint_error {spec : Text} {raised : Raised} (h : parseEndpoint sys spec = .error raised) :
    ∃ message, raised = .transportError message := by
  rcases parseEndpoint_cases sys spec with ⟨message, hp⟩ | ⟨path, hp⟩ | ⟨host, -, port, -, -, hp⟩
  · rw [hp] at h
    cases h
    exact ⟨message, rfl⟩
  · rw [hp] at h
    cases h
  · rw [hp] at h
    cases h

/-- **Reading a file**: bytes that are no UTF-8 raise, a text that does not parse counts as none. -/
theorem readEndpoint_content (bytes : ByteArray) :
    readEndpoint sys (.content bytes) = match String.fromUTF8? bytes with
      | none => .error .unicodeDecodeError
      | some s => .ok (parseEndpoint sys (Lib.translateNewlines s.toList)).toOption := by
  rw [readEndpoint, File.readText]
  · cases String.fromUTF8? bytes with
    | none => rfl
    | some s =>
      simp only [Except.bind]
      cases hp : parseEndpoint sys (Lib.translateNewlines s.toList) with
      | ok e => rfl
      | error raised =>
        obtain ⟨message, rfl⟩ := parseEndpoint_error sys hp
        rfl
  · exact fun hf => by cases hf

/-! ## Ports -/

theorem splitTcp_append {host port : Text} (h : ':' ∉ port) :
    splitTcp sys (host ++ ':' :: port) = match sys.digits.int port with
      | some n => .ok (host, n)
      | none => .error .valueError := by
  rw [splitTcp, Text.rpartition_eq_some_iff.2 ⟨rfl, h⟩]
  rfl

theorem isPort_iff {port : Text} : IsPort sys port ↔ ∃ n, sys.digits.int port = some n ∧ n ≤ 65535 := by
  rw [IsPort, Digits.int]
  split
  · rename_i h
    simp only [Option.some.injEq, exists_eq_left']
    exact ⟨fun hport => hport.2.2, fun hle => ⟨List.all_eq_true.1 h.1, h.2, hle⟩⟩
  · rename_i h
    simp only [reduceCtorEq, false_and, exists_false, iff_false]
    exact fun hport => h ⟨List.all_eq_true.2 hport.1, hport.2.1⟩

/-- What `_split_tcp` makes of digits is the number of a port exactly when they are one. -/
theorem exists_splitTcp_iff {host port : Text} (hdigits : sys.digits.isdigit port = true) :
    (∃ host' n, splitTcp sys (host ++ ':' :: port) = .ok (host', n) ∧ n ≤ 65535) ↔ IsPort sys port := by
  rw [splitTcp_append sys (not_mem_of_isdigit sys hdigits), isPort_iff]
  cases sys.digits.int port with
  | none =>
    constructor
    · rintro ⟨host', n, h, -⟩
      cases h
    · rintro ⟨n, h, -⟩
      cases h
  | some m =>
    constructor
    · rintro ⟨host', n, h, hle⟩
      cases h
      exact ⟨m, rfl, hle⟩
    · rintro ⟨n, h, hle⟩
      cases h
      exact ⟨host, m, rfl, hle⟩

theorem endpointIsAlive_ok {host port : Text} (hhost : host ∈ hosts) (hdigits : sys.digits.isdigit port = true)
    (hport : IsPort sys port) : ∃ alive, endpointIsAlive sys ⟨.tcp, host ++ ':' :: port⟩ = .ok alive := by
  obtain ⟨n, hn, hle⟩ := (isPort_iff sys).1 hport
  have hconnect := sys.connect_valid host hhost n hle
  simp only [endpointIsAlive, splitTcp_append sys (not_mem_of_isdigit sys hdigits), hn]
  cases hc : sys.connect host n with
  | connected => exact ⟨true, rfl⟩
  | osError => exact ⟨false, rfl⟩
  | overflowError => exact absurd hc hconnect

theorem resolveLiveEndpoint_ok {file : File} {found : Option Endpoint} (h : readEndpoint sys file = .ok found)
    (halive : ∀ e ∈ found, ∃ alive, endpointIsAlive sys e = .ok alive) (unixPath : Text) (tcpPort : ℕ) :
    ∃ e, resolveLiveEndpoint sys file unixPath tcpPort = .ok e := by
  rw [resolveLiveEndpoint, h]
  cases found with
  | none => exact ⟨_, rfl⟩
  | some discovered =>
    obtain ⟨alive, ha⟩ := halive discovered rfl
    simp only [ha]
    cases alive <;> exact ⟨_, rfl⟩

theorem readEndpoint_eq_some_iff {bytes : ByteArray} {text : String} (htext : String.fromUTF8? bytes = some text)
    {e : Endpoint} : readEndpoint sys (.content bytes) = .ok (some e) ↔
      parseEndpoint sys (Lib.translateNewlines text.toList) = .ok e := by
  rw [readEndpoint_content, htext]
  simp only
  cases parseEndpoint sys (Lib.translateNewlines text.toList) with
  | ok e' =>
    constructor
    · intro h
      cases h
      rfl
    · intro h
      cases h
      rfl
  | error raised =>
    constructor
    · intro h
      cases h
    · intro h
      cases h

theorem reads_of_none {file : File} (h : readEndpoint sys file = .ok none) : Reads sys file := by
  refine ⟨⟨none, h⟩, resolveLiveEndpoint_ok sys h (fun e he => by cases he), fun e he => ?_⟩
  rw [h] at he
  cases he

theorem exists_port {file : File} (h : Readable sys file) {e : Endpoint} (he : readEndpoint sys file = .ok (some e))
    (hkind : e.kind = .tcp) :
    ∃ host ∈ hosts, ∃ port, sys.digits.isdigit port = true ∧ IsPort sys port ∧ e.address = host ++ ':' :: port := by
  obtain ⟨kind, address⟩ := e
  cases hkind
  cases file with
  | absent => cases he
  | unreadable => cases he
  | content bytes =>
    obtain ⟨text, htext, hports⟩ := h
    have hparsed := (readEndpoint_eq_some_iff sys htext).1 he
    obtain ⟨host, hhost, port, hdigits, hraw, rfl⟩ := (parseEndpoint_eq_tcp_iff sys).1 hparsed
    exact ⟨host, hhost, port, hdigits, hports host hhost port hdigits hraw, rfl⟩

theorem reads_of_ports {file : File} {found : Option Endpoint} (hfound : readEndpoint sys file = .ok found)
    (h : Readable sys file) : Reads sys file := by
  refine ⟨⟨found, hfound⟩, resolveLiveEndpoint_ok sys hfound (fun e he => ?_), fun e he hkind => ?_⟩
  · obtain rfl := he
    obtain ⟨kind, address⟩ := e
    cases kind with
    | unix => exact ⟨_, rfl⟩
    | tcp =>
      obtain ⟨host, hhost, port, hdigits, hport, rfl⟩ := exists_port sys h hfound rfl
      exact endpointIsAlive_ok sys hhost hdigits hport
  · obtain ⟨host, -, port, hdigits, hport, haddress⟩ := exists_port sys h he hkind
    rw [haddress]
    exact (exists_splitTcp_iff sys hdigits).2 hport

/-- **Exactly the readable files are read.** -/
theorem reads_iff (file : File) : Reads sys file ↔ Readable sys file := by
  cases file with
  | absent => exact iff_of_true (reads_of_none sys rfl) trivial
  | unreadable => exact iff_of_true (reads_of_none sys rfl) trivial
  | content bytes =>
    have hread := readEndpoint_content sys bytes
    cases htext : String.fromUTF8? bytes with
    | none =>
      rw [htext] at hread
      constructor
      · rintro ⟨⟨found, hfound⟩, -⟩
        rw [hread] at hfound
        cases hfound
      · rintro ⟨text, htext', -⟩
        rw [htext] at htext'
        cases htext'
    | some text =>
      rw [htext] at hread
      refine ⟨fun h => ⟨text, htext, fun host hhost port hdigits hraw => ?_⟩, reads_of_ports sys hread⟩
      have hparsed := (parseEndpoint_eq_tcp_iff sys).2 ⟨host, hhost, port, hdigits, hraw, rfl⟩
      exact (exists_splitTcp_iff sys hdigits).1 (h.2.2 _ ((readEndpoint_eq_some_iff sys htext).2 hparsed) rfl)

/-! ## What a server publishes -/

theorem isDigit_ascii {c : Char} (h : c.isDigit = true) : sys.digits.isDigit c = true :=
  sys.digits.isDigit_decimal c (by rw [sys.digits.decimal_ascii c h]; rfl)

theorem isdigit_repr (n : ℕ) : sys.digits.isdigit (Nat.repr n).toList = true := by
  rw [Digits.isdigit, Bool.and_eq_true, List.all_eq_true, Nat.toList_repr]
  refine ⟨?_, fun c hc => isDigit_ascii sys (Nat.isDigit_of_mem_toDigits (by decide) (by decide) hc)⟩
  cases hd : Nat.toDigits 10 n with
  | nil => exact absurd hd Nat.toDigits_ne_nil
  | cons c cs => rfl

theorem parseEndpoint_str {host : Text} (hhost : host ∈ hosts) (n : ℕ) :
    parseEndpoint sys (Endpoint.str ⟨.tcp, host ++ ':' :: (Nat.repr n).toList⟩) =
      .ok ⟨.tcp, host ++ ':' :: (Nat.repr n).toList⟩ := by
  have hdigits := isdigit_repr sys n
  refine (parseEndpoint_eq_tcp_iff sys).2 ⟨host, hhost, _, hdigits, ?_, rfl⟩
  rw [Digits.isdigit, Bool.and_eq_true, List.all_eq_true] at hdigits
  have hne : (Nat.repr n).toList ≠ [] := by
    intro hnil
    rw [hnil] at hdigits
    cases hdigits.1
  obtain ⟨init, d, hinit⟩ : ∃ init d, (Nat.repr n).toList = init ++ [d] :=
    ⟨_, _, (List.dropLast_append_getLast hne).symm⟩
  have hd : Text.isSpace d = false := by
    by_contra hspace
    have hno := sys.digits.isDigit_space d (Bool.eq_true_of_not_eq_false hspace)
    rw [hdigits.2 d (by rw [hinit]; simp)] at hno
    cases hno
  have hstr : Endpoint.str ⟨.tcp, host ++ ':' :: (Nat.repr n).toList⟩ =
      "tcp:".toList ++ host ++ ':' :: (Nat.repr n).toList := by
    rw [Endpoint.str, List.append_assoc]
    rfl
  rw [hstr]
  refine @Text.strip_eq_self 't' d _ ("cp:".toList ++ host ++ ':' :: (Nat.repr n).toList)
    ("tcp:".toList ++ host ++ ':' :: init) rfl ?_ (by decide) hd
  rw [hinit]
  simp

theorem requestedEndpoint_tcp {endpoint : Option (Given sys)} {unixPath address : Text}
    (h : requestedEndpoint sys endpoint unixPath = .ok ⟨.tcp, address⟩) :
    ∃ host ∈ hosts, ∃ port, address = host ++ ':' :: port ∧ ':' ∉ port := by
  have hdefault : ∀ {e}, defaultEndpoint sys unixPath ephemeralPort = e → e = ⟨.tcp, address⟩ →
      ∃ host ∈ hosts, ∃ port, address = host ++ ':' :: port ∧ ':' ∉ port := by
    rintro e rfl he
    rw [defaultEndpoint] at he
    split at he
    · cases he
    · cases he
      exact ⟨loopback, List.mem_cons_self, _, rfl, not_mem_of_isdigit sys (isdigit_repr sys _)⟩
  have hparsed : ∀ {text}, parseEndpoint sys text = .ok ⟨.tcp, address⟩ →
      ∃ host ∈ hosts, ∃ port, address = host ++ ':' :: port ∧ ':' ∉ port := by
    intro text he
    obtain ⟨host, hhost, port, hdigits, -, haddress⟩ := (parseEndpoint_eq_tcp_iff sys).1 he
    exact ⟨host, hhost, port, haddress, not_mem_of_isdigit sys hdigits⟩
  cases endpoint with
  | none => exact hdefault rfl (Except.ok.inj h)
  | some given =>
    cases given with
    | spec text =>
      rw [requestedEndpoint] at h
      split at h
      · exact hdefault rfl (Except.ok.inj h)
      · exact hparsed h
    | parsed e he =>
      obtain ⟨text, he⟩ := he
      cases h
      exact hparsed he

/-- **A tcp server is on loopback**, and names itself by the number of its port. -/
theorem serve_tcp {endpoint : Option (Given sys)} {unixPath : Text} {e : Endpoint}
    (h : serve sys endpoint unixPath = .ok e) (hkind : e.kind = .tcp) :
    ∃ n, e = ⟨.tcp, loopback ++ ':' :: (Nat.repr n).toList⟩ := by
  rw [serve] at h
  cases hreq : requestedEndpoint sys endpoint unixPath with
  | error raised => rw [hreq] at h; cases h
  | ok requested =>
    rw [hreq] at h
    obtain ⟨kind, address⟩ := requested
    cases kind with
    | unix =>
      cases h
      cases hkind
    | tcp =>
      obtain ⟨host, hhost, port, rfl, hport⟩ := requestedEndpoint_tcp sys hreq
      simp only [splitTcp_append sys hport] at h
      cases hint : sys.digits.int port with
      | none => rw [hint] at h; cases h
      | some p =>
        simp only [hint] at h
        cases hbind : sys.bind host p with
        | error raised => rw [hbind] at h; cases h
        | ok name =>
          rw [hbind] at h
          cases h
          refine ⟨name.2, ?_⟩
          rw [boundEndpoint, if_neg (fun hne => hne rfl), sys.bind_loopback host hhost p name hbind]

theorem readEndpoint_written {text : Text} (h : '\r' ∉ text) {e : Endpoint} :
    readEndpoint sys (.content (String.ofList text).toUTF8) = .ok (some e) ↔ parseEndpoint sys text = .ok e := by
  have htext : String.fromUTF8? (String.ofList text).toUTF8 = some (String.ofList text) :=
    dif_pos (String.isValidUTF8 (String.ofList text))
  rw [readEndpoint_eq_some_iff sys htext, String.toList_ofList, Lib.translateNewlines_of_notMem h]

theorem notMem_str {host port : Text} (hhost : host ∈ hosts) (hport : sys.digits.isdigit port = true) :
    '\r' ∉ Endpoint.str ⟨.tcp, host ++ ':' :: port⟩ := by
  have hdigits : '\r' ∉ port := by
    intro hmem
    rw [Digits.isdigit, Bool.and_eq_true, List.all_eq_true] at hport
    have hspace := sys.digits.isDigit_space '\r' rfl
    rw [hport.2 _ hmem] at hspace
    cases hspace
  have hhost' : '\r' ∉ host := by
    revert host
    decide
  simp [Endpoint.str, Kind.name, hdigits, hhost']

/-- **Who reads what a tcp server publishes finds the server**, whatever was in the file. -/
theorem readEndpoint_publishEndpoint {endpoint : Option (Given sys)} {unixPath : Text} {e : Endpoint}
    (h : serve sys endpoint unixPath = .ok e) (hkind : e.kind = .tcp) (file : File) :
    readEndpoint sys (publishEndpoint (some e) file) = .ok (some e) := by
  obtain ⟨n, rfl⟩ := serve_tcp sys h hkind
  refine (readEndpoint_written sys (notMem_str sys List.mem_cons_self (isdigit_repr sys n))).2 ?_
  exact parseEndpoint_str sys List.mem_cons_self n

theorem roundTrips : RoundTrips sys := by
  intro endpoint unixPath e h hkind
  obtain ⟨n, rfl⟩ := serve_tcp sys h hkind
  exact parseEndpoint_str sys List.mem_cons_self n

/-- **Discovery keeps its promise on exactly the readable files.** -/
theorem discovery_iff (file : File) : (Reads sys file ∧ RoundTrips sys) ↔ Readable sys file :=
  ⟨fun h => (reads_iff sys file).1 h.1, fun h => ⟨(reads_iff sys file).2 h, roundTrips sys⟩⟩

/-- A host where one port is free, and answers. -/
def onePort : System where
  digits := ascii
  repr := id
  afUnixAvailable := false
  pathExists _ := false
  connect _ port := if port = 40001 then .connected else .osError
  bind _ port := if port = 0 ∨ port = 40001 then .ok (loopback, 40001) else .error .osError
  connect_valid _ _ port _ := by
    split <;> simp
  bind_loopback _ _ port name h := by
    split at h
    · cases h
      rfl
    · cases h

/-- A server with no endpoint of its own binds the free port, and a file it has not written yet is read as it should. -/
theorem discovery_onePort : serve onePort none [] = .ok ⟨.tcp, "127.0.0.1:40001".toList⟩ ∧
    Reads onePort .absent ∧ RoundTrips onePort :=
  ⟨by decide, (discovery_iff onePort .absent).2 trivial⟩

def quiet : System where
  digits := ascii
  repr := id
  afUnixAvailable := true
  pathExists _ := false
  connect _ _ := .osError
  bind _ _ := .error .osError
  connect_valid _ _ _ _ := fun h => by cases h
  bind_loopback _ _ _ _ h := by cases h

/-- One byte that starts no character. -/
theorem undecodable_raises : readEndpoint quiet (.content (ByteArray.mk #[0xff])) = .error .unicodeDecodeError ∧
    ¬ (Reads quiet (.content (ByteArray.mk #[0xff])) ∧ RoundTrips quiet) := by
  have hraise : readEndpoint quiet (.content (ByteArray.mk #[0xff])) = .error .unicodeDecodeError := by
    rw [readEndpoint_content, show String.fromUTF8? (ByteArray.mk #[0xff]) = none by decide]
  refine ⟨hraise, fun h => ?_⟩
  obtain ⟨found, hfound⟩ := h.1.1
  rw [hraise] at hfound
  cases hfound

end Discovery
end Ipc
end DevHarness
