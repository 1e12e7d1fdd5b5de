import DevHarness.Contracts
import Mathlib.Tactic.Ring
/-!
# Framing — length-prefixed frames over a socket (`ipc/framing.py`)

A socket is what arrives on it: data, which `recv` hands out a piece at a time, timeouts, and its end.  Reading a frame
that has arrived takes exactly its bytes (`readFrame_spec`); a timeout on the way loses the bytes already taken
(`readExactly_spec`).
-/
namespace DevHarness
namespace Ipc

/-- What the frames depend on of pydantic: the JSON of an envelope, and its validation. -/
structure EnvelopeCodec (π : Type) where
  -- `none` where it raises, which is a `ValueError`
  modelDumpJson : Envelope π → Option (List UInt8)
  modelValidateJson : List UInt8 → Option (Envelope π)

/-- Validating the JSON of an envelope, if it has one, gives it back. -/
def EnvelopeCodec.RoundTrips {π : Type} (codec : EnvelopeCodec π) (e : Envelope π) : Prop :=
  ∀ body, codec.modelDumpJson e = some body → codec.modelValidateJson body = some e

/-- What a read raises. -/
inductive Raised where
  | timeoutError
  | osError
  | valueError
  | structError
  | frameTooLargeError (message remediation : String)
  | incompleteFrameError (message remediation : String)
  deriving DecidableEq, Repr

variable {π : Type}

def prefixLen : ℕ := 4

def maxStreamFrame : ℕ := 1 * 1024 * 1024

def maxSnapshotFrame : ℕ := 16 * 1024 * 1024

def globalMaxFrame : ℕ := maxSnapshotFrame

def maxFrameFor (eventType : EventType) : ℕ := if eventType = .snapshot then maxSnapshotFrame else maxStreamFrame

/-! ## The length prefix -/

/-- `struct.Struct(">I").pack`, of a length below 2³². -/
def pack (n : ℕ) : List UInt8 :=
  [UInt8.ofNat (n / 16777216), UInt8.ofNat (n / 65536), UInt8.ofNat (n / 256), UInt8.ofNat n]

def unpack (bytes : List UInt8) : ℕ := bytes.foldl (fun acc b => acc * 256 + b.toNat) 0

theorem unpack_pack {n : ℕ} (h : n < 4294967296) : unpack (pack n) = n := by
  simp only [unpack, pack, List.foldl_cons, List.foldl_nil, UInt8.toNat_ofNat']
  omega

@[simp] theorem length_pack (n : ℕ) : (pack n).length = prefixLen := rfl

/-! ## Whole frames -/

variable (codec : EnvelopeCodec π)

def encode (e : Envelope π) : Except Raised (List UInt8) :=
  match codec.modelDumpJson e with
  | none => .error .valueError
  | some body =>
    if 4294967296 ≤ body.length then .error .structError
    else
      let frame := pack body.length ++ body
      if maxFrameFor e.type < frame.length then
        .error (.frameTooLargeError s!"frame of {frame.length} bytes exceeds {maxFrameFor e.type} for {e.type.value}"
          "Reduce the payload size or use a SNAPSHOT frame for large state.")
      else .ok frame

/-- `decode_frame`, of a frame that has been read whole. -/
def decodeFrame (data : List UInt8) : Except Raised (Envelope π) :=
  if data.length < prefixLen then
    .error (.incompleteFrameError s!"frame shorter than {prefixLen}-byte prefix" "Read a full frame before decoding.")
  else
    let length := unpack (data.take prefixLen)
    if globalMaxFrame < length then
      .error (.frameTooLargeError s!"frame body of {length} bytes exceeds global ceiling {globalMaxFrame}"
        "Reject the frame; the peer sent an oversized body.")
    else if data.length < prefixLen + length then
      .error (.incompleteFrameError s!"declared {length} body bytes but only {data.length - prefixLen} available"
        "Read the full frame before decoding.")
    else match codec.modelValidateJson ((data.drop prefixLen).take length) with
      | none => .error .valueError
      | some e => .ok e

/-- What was encoded: a length that fits its prefix and the ceiling, and the body. -/
theorem encode_ok {e : Envelope π} {frame : List UInt8} (h : encode codec e = .ok frame) :
    ∃ body, codec.modelDumpJson e = some body ∧ frame = pack body.length ++ body ∧
      unpack (pack body.length) = body.length ∧ body.length ≤ globalMaxFrame := by
  unfold encode at h
  split at h
  · cases h
  · rename_i body hdump
    split at h
    · cases h
    · rename_i hpack
      dsimp only at h
      split at h
      · cases h
      · rename_i hlimit
        cases h
        refine ⟨body, hdump, rfl, unpack_pack (by omega), ?_⟩
        have hmax : maxFrameFor e.type ≤ globalMaxFrame := by
          unfold maxFrameFor globalMaxFrame maxStreamFrame maxSnapshotFrame
          split <;> omega
        rw [List.length_append] at hlimit
        omega

/-! ## The socket -/

/-- What arrives next on a socket. -/
inductive Arrival where
  | data (first : UInt8) (rest : List UInt8)
  | timeout
  | closed
  | reset
  deriving DecidableEq, Repr

abbrev Socket := List Arrival

/-- The bytes of an arrival that were not taken stay. -/
def pushBack : List UInt8 → Socket → Socket
  | [], s => s
  | b :: bs, s => .data b bs :: s

/-- `recv(n)`, which takes at most what arrived together; once nothing more arrives it times out. -/
def recv (n : ℕ) : Socket → Except Raised (List UInt8) × Socket
  | .data b bs :: s => (.ok ((b :: bs).take n), pushBack ((b :: bs).drop n) s)
  | .timeout :: s => (.error .timeoutError, s)
  | .closed :: s => (.ok [], .closed :: s)
  | .reset :: s => (.error .osError, .reset :: s)
  | [] => (.error .timeoutError, [])

/-- The loop of `read_exactly`; a chunk is at least a byte, so `n` rounds read `n` bytes. -/
def readLoop : ℕ → ℕ → List UInt8 → Socket → Except Raised (List UInt8) × Socket
  | 0, _, chunks, s => (.ok chunks, s)
  | _ + 1, 0, chunks, s => (.ok chunks, s)
  | rounds + 1, remaining + 1, chunks, s => match recv (remaining + 1) s with
    | (.error r, s') => (.error r, s')
    | (.ok [], s') => (.ok chunks, s')
    | (.ok (b :: bs), s') => readLoop rounds (remaining + 1 - (b :: bs).length) (chunks ++ b :: bs) s'

def readExactly (s : Socket) (n : ℕ) : Except Raised (List UInt8) × Socket := readLoop n n [] s

def readFrame (s : Socket) : Except Raised (Envelope π) × Socket :=
  match readExactly s prefixLen with
  | (.error r, s') => (.error r, s')
  | (.ok header, s') =>
    if header.length = 0 then
      (.error (.incompleteFrameError "EOF before any frame" "The peer closed the connection."), s')
    else if header.length < prefixLen then
      (.error (.incompleteFrameError "EOF inside the length prefix" "The peer closed mid-prefix."), s')
    else
      let length := unpack header
      if globalMaxFrame < length then
        (.error (.frameTooLargeError s!"declared body of {length} bytes exceeds global ceiling {globalMaxFrame}"
          "Reject the frame; the peer sent an oversized body."), s')
      else match readExactly s' length with
        | (.error r, s'') => (.error r, s'')
        | (.ok body, s'') =>
          if body.length < length then
            (.error (.incompleteFrameError s!"EOF inside frame body: {body.length} of {length} bytes"
              "The peer closed mid-frame."), s'')
          else match codec.modelValidateJson body with
            | none => (.error .valueError, s'')
            | some e => (.ok e, s'')

/-- The bytes still to come. -/
def bytesOf : Socket → List UInt8
  | [] => []
  | .data b bs :: s => b :: bs ++ bytesOf s
  | _ :: s => bytesOf s

/-- How many bytes come before each timeout, counted from `n`. -/
def timeoutsFrom (n : ℕ) : Socket → List ℕ
  | [] => []
  | .data _ bs :: s => timeoutsFrom (n + (bs.length + 1)) s
  | .timeout :: s => n :: timeoutsFrom n s
  | _ :: s => timeoutsFrom n s

/-- A connection that stays open: what arrives is data and timeouts. -/
def IsOpen (s : Socket) : Prop := .closed ∉ s ∧ .reset ∉ s

instance (s : Socket) : Decidable (IsOpen s) := inferInstanceAs (Decidable (_ ∧ _))

/-! ## What a read takes -/

theorem bytesOf_pushBack : ∀ (l : List UInt8) (s : Socket), bytesOf (pushBack l s) = l ++ bytesOf s
  | [], _ => rfl
  | _ :: _, _ => rfl

theorem timeoutsFrom_pushBack (n : ℕ) : ∀ (l : List UInt8) (s : Socket),
    timeoutsFrom n (pushBack l s) = timeoutsFrom (n + l.length) s
  | [], _ => rfl
  | _ :: _, _ => rfl

theorem length_pushBack_le : ∀ (l : List UInt8) (s : Socket), (pushBack l s).length ≤ s.length + 1
  | [], _ => Nat.le_succ _
  | _ :: _, _ => le_refl _

theorem isOpen_pushBack {l : List UInt8} {s : Socket} (h : IsOpen s) : IsOpen (pushBack l s) := by
  cases l with
  | nil => exact h
  | cons b bs => exact ⟨by simp [pushBack, h.1], by simp [pushBack, h.2]⟩

theorem IsOpen.tail {a : Arrival} {s : Socket} (h : IsOpen (a :: s)) : IsOpen s :=
  ⟨fun hc => h.1 (List.mem_cons_of_mem _ hc), fun hr => h.2 (List.mem_cons_of_mem _ hr)⟩

/-- **The bytes are taken off the socket**, up to the next timeout. -/
structure Took (bs : List UInt8) (s s' : Socket) : Prop where
  bytes : bytesOf s = bs ++ bytesOf s'
  timeouts : ∀ m, timeoutsFrom m s = timeoutsFrom (m + bs.length) s'
  length : s'.length ≤ s.length
  isOpen : IsOpen s'

theorem Took.refl {s : Socket} (h : IsOpen s) : Took [] s s := ⟨rfl, fun _ => rfl, le_refl _, h⟩

theorem Took.trans {bs bs' : List UInt8} {s s' s'' : Socket} (h : Took bs s s') (h' : Took bs' s' s'') :
    Took (bs ++ bs') s s'' := by
  refine ⟨?_, fun m => ?_, h'.length.trans h.length, h'.isOpen⟩
  · rw [h.bytes, h'.bytes, List.append_assoc]
  · rw [h.timeouts, h'.timeouts, List.length_append, Nat.add_assoc]

/-- The read timed out here: on a timeout, or because nothing more arrives. -/
def TimedOut (s s' : Socket) : Prop := s = .timeout :: s' ∨ s = [] ∧ s' = []

theorem recv_spec {s : Socket} (hopen : IsOpen s) (n : ℕ) :
    (∃ b bs s', recv (n + 1) s = (.ok (b :: bs), s') ∧ (b :: bs).length ≤ n + 1 ∧ Took (b :: bs) s s') ∨
      ∃ s', recv (n + 1) s = (.error .timeoutError, s') ∧ TimedOut s s' := by
  cases s with
  | nil => exact Or.inr ⟨[], rfl, Or.inr ⟨rfl, rfl⟩⟩
  | cons a s =>
    cases a with
    | timeout => exact Or.inr ⟨s, rfl, Or.inl rfl⟩
    | closed => exact absurd List.mem_cons_self hopen.1
    | reset => exact absurd List.mem_cons_self hopen.2
    | data b bs =>
      refine Or.inl ⟨b, bs.take n, pushBack (bs.drop n) s, rfl, ?_, ?_, fun m => ?_, ?_, isOpen_pushBack hopen.tail⟩
      · rw [List.length_cons, List.length_take]
        omega
      · rw [bytesOf_pushBack, List.cons_append, ← List.append_assoc, List.take_append_drop]
        rfl
      · rw [timeoutsFrom_pushBack, timeoutsFrom, List.length_cons, List.length_take, List.length_drop]
        congr 1
        omega
      · exact length_pushBack_le _ _

/-- **The loop reads what it is asked for or loses what it has**: a timeout drops the bytes taken so far. -/
theorem readLoop_spec : ∀ (rounds remaining : ℕ) (chunks : List UInt8) {s : Socket}, IsOpen s → remaining ≤ rounds →
    (∃ bs s', readLoop rounds remaining chunks s = (.ok (chunks ++ bs), s') ∧ bs.length = remaining ∧ Took bs s s') ∨
      ∃ lost s₁ s', readLoop rounds remaining chunks s = (.error .timeoutError, s') ∧ lost.length < remaining ∧
        Took lost s s₁ ∧ TimedOut s₁ s'
  | 0, remaining, chunks, s, hopen, hle => by
    refine Or.inl ⟨[], s, ?_, ?_, Took.refl hopen⟩
    · rw [readLoop, List.append_nil]
    · exact (Nat.le_zero.1 hle).symm
  | rounds + 1, 0, chunks, s, hopen, _ => by
    refine Or.inl ⟨[], s, ?_, rfl, Took.refl hopen⟩
    rw [readLoop, List.append_nil]
  | rounds + 1, remaining + 1, chunks, s, hopen, hle => by
    rcases recv_spec hopen remaining with ⟨b, bs, s', hrecv, hlen, htook⟩ | ⟨s', hrecv, htimed⟩
    · have hrest : remaining + 1 - (b :: bs).length ≤ rounds := by
        rw [List.length_cons]
        omega
      have hloop : readLoop (rounds + 1) (remaining + 1) chunks s =
          readLoop rounds (remaining + 1 - (b :: bs).length) (chunks ++ b :: bs) s' := by
        rw [readLoop, hrecv]
      rcases readLoop_spec rounds _ (chunks ++ b :: bs) htook.isOpen hrest with
        ⟨cs, s'', hread, hcs, htook'⟩ | ⟨lost, s₁, s'', hread, hlost, htook', htimed⟩
      · refine Or.inl ⟨b :: bs ++ cs, s'', ?_, ?_, htook.trans htook'⟩
        · rw [hloop, hread, List.append_assoc]
        · rw [List.length_append, hcs]
          omega
      · refine Or.inr ⟨b :: bs ++ lost, s₁, s'', hloop.trans hread, ?_, htook.trans htook', htimed⟩
        rw [List.length_append]
        omega
    · refine Or.inr ⟨[], s, s', ?_, Nat.succ_pos _, Took.refl hopen, htimed⟩
      rw [readLoop, hrecv]

theorem readExactly_spec {s : Socket} (hopen : IsOpen s) (n : ℕ) :
    (∃ bs s', readExactly s n = (.ok bs, s') ∧ bs.length = n ∧ Took bs s s') ∨
      ∃ lost s₁ s', readExactly s n = (.error .timeoutError, s') ∧ lost.length < n ∧ Took lost s s₁ ∧ TimedOut s₁ s' := by
  simpa [readExactly] using readLoop_spec n n [] hopen (le_refl n)

/-- **Reading a frame**: where the bytes to come start with an encoded envelope, the envelope is read and exactly its
frame taken, or the read times out part of the way through the frame and has lost that part. -/
theorem readFrame_spec {s : Socket} (hopen : IsOpen s) {e : Envelope π} {frame rest : List UInt8}
    (hjson : codec.RoundTrips e) (henc : encode codec e = .ok frame) (hbytes : bytesOf s = frame ++ rest) :
    (∃ s', readFrame codec s = (.ok e, s') ∧ Took frame s s') ∨
      ∃ lost s', readFrame codec s = (.error .timeoutError, s') ∧ lost.length < frame.length ∧
        Took lost s (.timeout :: s') := by
  obtain ⟨json, hdump, rfl, hunpack, hmax⟩ := encode_ok codec henc
  have hvalid := hjson json hdump
  have hlen : (pack json.length).length = prefixLen := rfl
  -- nothing more arriving would be the frame not having been sent whole
  have harrived : ∀ {lost : List UInt8} {s₁ s₂ : Socket}, Took lost s s₁ →
      lost.length < (pack json.length ++ json).length → TimedOut s₁ s₂ →
      s₁ = .timeout :: s₂ := by
    intro lost s₁ s₂ htook hlt htimed
    rcases htimed with h | ⟨rfl, -⟩
    · exact h
    · have hb := congrArg List.length (htook.bytes.symm.trans hbytes)
      simp only [bytesOf, List.append_nil, List.length_append] at hb hlt
      omega
  rw [List.append_assoc] at hbytes
  rcases readExactly_spec hopen prefixLen with
    ⟨header, s₁, hread, hheader, htook⟩ | ⟨lost, s₁, s', hread, hlost, htook, htimed⟩
  · have hsplit : header = pack json.length ∧
        bytesOf s₁ = json ++ rest :=
      List.append_inj (htook.bytes.symm.trans hbytes) (hheader.trans hlen.symm)
    obtain ⟨rfl, hbody⟩ := hsplit
    rcases readExactly_spec htook.isOpen json.length with
      ⟨body, s₂, hread', hlen', htook'⟩ | ⟨lost, s₂, s', hread', hlost, htook', htimed⟩
    · have hsplit' : body = json ∧ bytesOf s₂ = rest :=
        List.append_inj (htook'.bytes.symm.trans hbody) hlen'
      obtain ⟨rfl, -⟩ := hsplit'
      refine Or.inl ⟨s₂, ?_, htook.trans htook'⟩
      unfold readFrame
      simp only [hread, hheader, hunpack, hread', hvalid]
      rw [if_neg (by decide), if_neg (lt_irrefl _), if_neg (by omega), if_neg (lt_irrefl _)]
    · have hall := htook.trans htook'
      have hpart : (pack json.length ++ lost).length <
          (pack json.length ++ json).length := by
        simp only [List.length_append]
        omega
      refine Or.inr ⟨_, s', ?_, hpart, harrived hall hpart htimed ▸ hall⟩
      unfold readFrame
      simp only [hread, hheader, hunpack, hread']
      rw [if_neg (by decide), if_neg (lt_irrefl _), if_neg (by omega)]
  · have hpart : lost.length < (pack json.length ++ json).length := by
      rw [List.length_append]
      omega
    refine Or.inr ⟨lost, s', ?_, hpart, harrived htook hpart htimed ▸ htook⟩
    unfold readFrame
    rw [hread]

end Ipc
end DevHarness
