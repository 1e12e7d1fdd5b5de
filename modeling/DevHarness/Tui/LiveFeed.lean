import DevHarness.Ipc.Framing
import Mathlib.Data.List.Forall2
/-!
# LiveFeed — the reader loop over a socket that times out (`tui/live_feed.py`)

The feed reads one envelope a round and hands it on; a timeout is a round without one.  The reader keeps nothing
between two reads, so what a read took when the timeout came is lost: every envelope sent is delivered, and no byte
lost, exactly when no timeout falls inside a frame (`delivers_iff_timeoutsBetween`).
-/
namespace DevHarness
namespace Tui

open Ipc

variable {π : Type} (codec : EnvelopeCodec π)

/-- `_BlockingReader.read`: no envelope without a connection, or on a timeout. -/
def read : Option Socket → Except Raised (Option (Envelope π)) × Option Socket
  | none => (.ok none, none)
  | some conn => match readFrame codec conn with
    | (.ok e, conn') => (.ok (some e), some conn')
    | (.error .timeoutError, conn') => (.ok none, some conn')
    | (.error r, conn') => (.error r, some conn')

/-- The feed after some rounds of its loop: what the bridge was given, and what ended it. -/
structure LiveFeed (π : Type) where
  conn : Option Socket
  received : ℕ := 0
  pushed : List (Envelope π) := []
  ended : Option Raised := none
  deriving DecidableEq

namespace LiveFeed

def round (f : LiveFeed π) : LiveFeed π :=
  match f.ended with
  | some _ => f
  | none => match read codec f.conn with
    | (.error r, conn) => { f with conn, ended := some r }
    | (.ok none, conn) => { f with conn }
    | (.ok (some e), conn) => { f with conn, received := f.received + 1, pushed := f.pushed ++ [e] }

def rounds : ℕ → LiveFeed π → LiveFeed π
  | 0, f => f
  | n + 1, f => rounds n (round codec f)

end LiveFeed

/-- The envelopes, each with the frame it was sent as. -/
def Sent (es : List (Envelope π)) (frames : List (List UInt8)) : Prop :=
  List.Forall₂ (fun e frame => encode codec e = .ok frame) es frames

/-- **Nothing is lost or shifted**: the feed has handed on the first of the envelopes, and the bytes to come are exactly
the frames of the others. -/
def InStep (es : List (Envelope π)) (frames : List (List UInt8)) (f : LiveFeed π) : Prop :=
  f.ended = none ∧ f.pushed = es.take f.pushed.length ∧
    ∃ s, f.conn = some s ∧ bytesOf s = (frames.drop f.pushed.length).flatten

/-- **The feed delivers what was sent**: all of it in the end, and at every round nothing lost. -/
def Delivers (es : List (Envelope π)) (frames : List (List UInt8)) (f : LiveFeed π) : Prop :=
  (∃ n, (LiveFeed.rounds codec n f).pushed = es) ∧ ∀ n, InStep es frames (LiveFeed.rounds codec n f)

/-- Where the frames start and end, counted from `n`. -/
def boundariesFrom (n : ℕ) : List (List UInt8) → List ℕ
  | [] => [n]
  | frame :: frames => n :: boundariesFrom (n + frame.length) frames

/-- **Every timeout falls between two frames.** -/
def TimeoutsBetween (n : ℕ) (frames : List (List UInt8)) (s : Socket) : Prop :=
  ∀ t ∈ timeoutsFrom n s, t ∈ boundariesFrom n frames

instance (n : ℕ) (frames : List (List UInt8)) (s : Socket) : Decidable (TimeoutsBetween n frames s) :=
  inferInstanceAs (Decidable (∀ t ∈ timeoutsFrom n s, _))

/-! ## Between two frames -/

theorem le_of_mem_timeoutsFrom {t : ℕ} : ∀ {n : ℕ} (s : Socket), t ∈ timeoutsFrom n s → n ≤ t
  | _, [], h => by cases h
  | _, .data _ _ :: s, h => (Nat.le_add_right _ _).trans (le_of_mem_timeoutsFrom s h)
  | _, .timeout :: s, h => (List.mem_cons.1 h).elim (fun he => he ▸ le_refl _) (le_of_mem_timeoutsFrom s)
  | _, .closed :: s, h => le_of_mem_timeoutsFrom s h
  | _, .reset :: s, h => le_of_mem_timeoutsFrom s h

theorem le_of_mem_boundariesFrom {t : ℕ} : ∀ {n : ℕ} (frames : List (List UInt8)), t ∈ boundariesFrom n frames → n ≤ t
  | _, [], h => (List.mem_singleton.1 h).ge
  | _, _ :: frames, h => (List.mem_cons.1 h).elim (fun he => he ▸ le_refl _)
    (fun ht => (Nat.le_add_right _ _).trans (le_of_mem_boundariesFrom frames ht))

theorem mem_boundariesFrom_self (n : ℕ) (frames : List (List UInt8)) : n ∈ boundariesFrom n frames := by
  cases frames with
  | nil => exact List.mem_singleton_self n
  | cons frame frames => exact List.mem_cons_self

theorem timeoutsBetween_timeout (n : ℕ) (frames : List (List UInt8)) (s : Socket) :
    TimeoutsBetween n frames (.timeout :: s) ↔ TimeoutsBetween n frames s := by
  show (∀ t ∈ n :: timeoutsFrom n s, t ∈ boundariesFrom n frames) ↔ _
  rw [List.forall_mem_cons]
  exact and_iff_right (mem_boundariesFrom_self n frames)

/-- A frame taken leaves the timeouts where they are among the others. -/
theorem timeoutsBetween_took {n : ℕ} {frame : List UInt8} {frames : List (List UInt8)} {s s' : Socket}
    (hpos : 0 < frame.length) (htook : Took frame s s') :
    TimeoutsBetween n (frame :: frames) s ↔ TimeoutsBetween (n + frame.length) frames s' := by
  unfold TimeoutsBetween
  rw [htook.timeouts n]
  refine forall₂_congr (fun t ht => ?_)
  have hne : t ≠ n := by
    have hle := le_of_mem_timeoutsFrom s' ht
    omega
  rw [boundariesFrom, List.mem_cons]
  exact or_iff_right hne

/-- Part of a frame taken before a timeout puts it inside the frame. -/
theorem not_timeoutsBetween_part {n : ℕ} {frame lost : List UInt8} {frames : List (List UInt8)} {s s' : Socket}
    (hlost : 0 < lost.length) (hpart : lost.length < frame.length) (htook : Took lost s (.timeout :: s')) :
    ¬ TimeoutsBetween n (frame :: frames) s := by
  intro hbetween
  have hmem : n + lost.length ∈ timeoutsFrom n s := by
    rw [htook.timeouts n]
    exact List.mem_cons_self
  rcases List.mem_cons.1 (hbetween _ hmem) with heq | hin
  · omega
  · have hle := le_of_mem_boundariesFrom frames hin
    omega

/-! ## A round -/

namespace LiveFeed

theorem round_of_ok {f : LiveFeed π} {s s' : Socket} {e : Envelope π} (hended : f.ended = none) (hconn : f.conn = some s)
    (hread : readFrame codec s = (.ok e, s')) :
    f.round codec = { f with conn := some s', received := f.received + 1, pushed := f.pushed ++ [e] } := by
  simp only [round, hended, hconn, read, hread]

theorem round_of_timeout {f : LiveFeed π} {s s' : Socket} (hended : f.ended = none) (hconn : f.conn = some s)
    (hread : readFrame codec s = (.error .timeoutError, s')) : f.round codec = { f with conn := some s' } := by
  simp only [round, hended, hconn, read, hread]

theorem length_pushed_round (f : LiveFeed π) : f.pushed.length ≤ (f.round codec).pushed.length := by
  unfold round
  split
  · exact le_refl _
  · split
    · exact le_refl _
    · exact le_refl _
    · rw [List.length_append]
      exact Nat.le_add_right _ _

end LiveFeed

/-- What is delivered from here on is what is delivered from the next round on. -/
theorem delivers_round_iff {es : List (Envelope π)} {frames : List (List UInt8)} {f : LiveFeed π}
    (h : InStep es frames f) : Delivers codec es frames f ↔ Delivers codec es frames (f.round codec) := by
  constructor
  · rintro ⟨⟨n, hall⟩, heach⟩
    refine ⟨?_, fun k => heach (k + 1)⟩
    cases n with
    | succ n => exact ⟨n, hall⟩
    | zero =>
      -- everything was delivered, and stays so
      refine ⟨0, ?_⟩
      have hlen := f.length_pushed_round codec
      have hfull : f.pushed = es := hall
      rw [hfull] at hlen
      have hnext : (f.round codec).pushed = es.take (f.round codec).pushed.length := (heach 1).2.1
      rw [List.take_of_length_le hlen] at hnext
      exact hnext
  · rintro ⟨⟨n, hall⟩, heach⟩
    refine ⟨⟨n + 1, hall⟩, fun k => ?_⟩
    cases k with
    | zero => exact h
    | succ k => exact heach k

theorem Sent.frame_pos {e : Envelope π} {frame : List UInt8} (h : encode codec e = .ok frame) : 0 < frame.length := by
  obtain ⟨body, -, rfl, -⟩ := encode_ok codec h
  rw [List.length_append, length_pack]
  exact Nat.lt_of_lt_of_le (by decide) (Nat.le_add_right _ _)

/-- The feed between two frames: what it has pushed, and what is still to come and as which frames. -/
structure InSync (es : List (Envelope π)) (frames : List (List UInt8)) (f : LiveFeed π) (s : Socket)
    (later : List (Envelope π)) (laterFrames : List (List UInt8)) : Prop where
  ended : f.ended = none
  conn : f.conn = some s
  isOpen : IsOpen s
  json : ∀ e ∈ later, codec.RoundTrips e
  sent : Sent codec later laterFrames
  pushed : es = f.pushed ++ later
  frames : frames.drop f.pushed.length = laterFrames
  bytes : bytesOf s = laterFrames.flatten

theorem InSync.inStep {es later : List (Envelope π)} {frames laterFrames : List (List UInt8)} {f : LiveFeed π}
    {s : Socket} (h : InSync codec es frames f s later laterFrames) : InStep es frames f := by
  refine ⟨h.ended, ?_, s, h.conn, ?_⟩
  · rw [h.pushed, List.take_left]
  · rw [h.frames, h.bytes]

theorem InSync.received {es later : List (Envelope π)} {frames laterFrames : List (List UInt8)} {f : LiveFeed π}
    {s s' : Socket} {e : Envelope π} {frame : List UInt8} (h : InSync codec es frames f s (e :: later) (frame :: laterFrames))
    (hread : readFrame codec s = (.ok e, s')) (htook : Took frame s s') :
    InSync codec es frames (f.round codec) s' later laterFrames := by
  rw [LiveFeed.round_of_ok codec h.ended h.conn hread]
  refine ⟨h.ended, rfl, htook.isOpen, fun x hx => h.json x (List.mem_cons_of_mem _ hx),
    (List.forall₂_cons.1 h.sent).2, ?_, ?_, ?_⟩
  · rw [h.pushed, List.append_assoc, List.singleton_append]
  · rw [List.length_append, List.length_singleton, ← List.drop_drop, h.frames, List.drop_one, List.tail_cons]
  · have hbytes := htook.bytes.symm.trans h.bytes
    rw [List.flatten_cons] at hbytes
    exact List.append_cancel_left hbytes

theorem InSync.waited {es later : List (Envelope π)} {frames laterFrames : List (List UInt8)} {f : LiveFeed π}
    {s : Socket} (h : InSync codec es frames f (.timeout :: s) later laterFrames)
    (hread : readFrame codec (.timeout :: s) = (.error .timeoutError, s)) :
    InSync codec es frames (f.round codec) s later laterFrames := by
  rw [LiveFeed.round_of_timeout codec h.ended h.conn hread]
  exact ⟨h.ended, rfl, h.isOpen.tail, h.json, h.sent, h.pushed, h.frames, h.bytes⟩

/-- A read that times out at once takes nothing. -/
theorem readFrame_timeout (s : Socket) : readFrame codec (.timeout :: s) = (.error .timeoutError, s) := rfl

/-- Nothing more arrives: nothing is to come, and every round leaves the feed as it is. -/
theorem InSync.idle {es later : List (Envelope π)} {frames laterFrames : List (List UInt8)} {f : LiveFeed π}
    (h : InSync codec es frames f [] later laterFrames) : Delivers codec es frames f := by
  have hlater : later = [] := by
    cases hsent : h.sent with
    | nil => rfl
    | cons henc _ =>
      have hbytes := congrArg List.length h.bytes
      have hpos := Sent.frame_pos codec henc
      simp only [bytesOf, List.length_nil, List.flatten_cons, List.length_append] at hbytes
      omega
  have hround : f.round codec = f := by
    rw [LiveFeed.round_of_timeout codec h.ended h.conn rfl, ← h.conn]
  have hrounds : ∀ n, LiveFeed.rounds codec n f = f := by
    intro n
    induction n with
    | zero => rfl
    | succ n ih => rw [LiveFeed.rounds, hround, ih]
  refine ⟨⟨0, ?_⟩, fun n => ?_⟩
  · rw [h.pushed, hlater, List.append_nil]
    rfl
  · rw [hrounds n]
    exact h.inStep

/-- **A timeout inside a frame loses what was read of it**: the feed is out of step from that round on. -/
theorem InSync.not_delivers {es later : List (Envelope π)} {frames laterFrames : List (List UInt8)} {f : LiveFeed π}
    {s s' : Socket} {lost : List UInt8} (h : InSync codec es frames f s later laterFrames)
    (hread : readFrame codec s = (.error .timeoutError, s')) (htook : Took lost s (.timeout :: s'))
    (hlost : 0 < lost.length) : ¬ Delivers codec es frames f := by
  rintro ⟨-, heach⟩
  obtain ⟨-, -, s₁, hconn, hbytes⟩ : InStep es frames (f.round codec) := heach 1
  rw [LiveFeed.round_of_timeout codec h.ended h.conn hread] at hconn hbytes
  cases hconn
  rw [h.frames, ← h.bytes, htook.bytes] at hbytes
  have hlen := congrArg List.length hbytes
  rw [List.length_append] at hlen
  have hsame : bytesOf (.timeout :: s') = bytesOf s' := rfl
  rw [hsame] at hlen
  omega

/-- What was taken before the timeout is something, where data comes first. -/
theorem Took.pos_of_data {b : UInt8} {bs lost : List UInt8} {s s' : Socket}
    (h : Took lost (.data b bs :: s) (.timeout :: s')) : 0 < lost.length := by
  have hmem : 0 + lost.length ∈ timeoutsFrom (0 + (bs.length + 1)) s :=
    (h.timeouts 0).symm ▸ (List.mem_cons_self : 0 + lost.length ∈ timeoutsFrom (0 + lost.length) (.timeout :: s'))
  have hle := le_of_mem_timeoutsFrom s hmem
  omega

theorem delivers_iff_of_inSync : ∀ (k : ℕ) {es later : List (Envelope π)} {frames laterFrames : List (List UInt8)}
    {f : LiveFeed π} {s : Socket} (n : ℕ), s.length + later.length ≤ k → InSync codec es frames f s later laterFrames →
    (Delivers codec es frames f ↔ TimeoutsBetween n laterFrames s)
  | k, es, later, frames, laterFrames, f, [], n, _, h => by
    exact iff_of_true h.idle (fun t ht => by cases ht)
  | 0, es, later, frames, laterFrames, f, a :: s, n, hk, h => by
    rw [List.length_cons] at hk
    omega
  | k + 1, es, later, frames, laterFrames, f, .timeout :: s, n, hk, h => by
    rw [List.length_cons] at hk
    rw [delivers_round_iff codec h.inStep, timeoutsBetween_timeout]
    exact delivers_iff_of_inSync k n (by omega) (h.waited codec (readFrame_timeout codec s))
  | k + 1, es, [], frames, laterFrames, f, .data b bs :: s, n, hk, h => by
    have hnil : laterFrames = [] := List.forall₂_nil_left_iff.1 h.sent
    have hbytes := h.bytes
    rw [hnil] at hbytes
    cases hbytes
  | k + 1, es, e :: later, frames, laterFrames, f, .data b bs :: s, n, hk, h => by
    obtain ⟨frame, tail, henc, hsent, rfl⟩ := List.forall₂_cons_left_iff.1 h.sent
    rcases readFrame_spec codec h.isOpen (h.json e List.mem_cons_self) henc h.bytes with
      ⟨s', hread, htook⟩ | ⟨lost, s', hread, hpart, htook⟩
    · have hlen := htook.length
      rw [List.length_cons] at hk hlen
      rw [List.length_cons] at hk
      rw [delivers_round_iff codec h.inStep, timeoutsBetween_took (Sent.frame_pos codec henc) htook]
      exact delivers_iff_of_inSync k (n + frame.length) (by omega) (h.received codec hread htook)
    · have hpos := Took.pos_of_data htook
      exact iff_of_false (h.not_delivers codec hread htook hpos) (not_timeoutsBetween_part hpos hpart htook)
  | k + 1, es, later, frames, laterFrames, f, .closed :: s, n, _, h => absurd List.mem_cons_self h.isOpen.1
  | k + 1, es, later, frames, laterFrames, f, .reset :: s, n, _, h => absurd List.mem_cons_self h.isOpen.2

/-- **Delivery over a socket that times out**: on a connection that stays open, however the bytes of the frames arrive,
every envelope sent is delivered in order and no byte lost if and only if every timeout falls between two frames. -/
theorem delivers_iff_timeoutsBetween (es : List (Envelope π)) (hjson : ∀ e ∈ es, codec.RoundTrips e)
    (frames : List (List UInt8)) (hsent : Sent codec es frames) (s : Socket) (hopen : IsOpen s)
    (hbytes : bytesOf s = frames.flatten) :
    Delivers codec es frames { conn := some s } ↔ TimeoutsBetween 0 frames s :=
  delivers_iff_of_inSync codec _ 0 (le_refl _) ⟨rfl, rfl, hopen, hjson, hsent, rfl, rfl, hbytes⟩

/-! ## A file change on the wire -/

def fileChange : Envelope String := ⟨.fileChange, 1, "a.py"⟩

def fileChangeJson : List UInt8 :=
  ("\x7b\"type\":\"FILE_CHANGE\",\"seq\":1,\"payload\":\x7b\"type\":\"FILE_CHANGE\",\"path\":\"a.py\"," ++
    "\"change_type\":\"modified\"\x7d\x7d").toList.map (fun c => UInt8.ofNat c.toNat)

/-- Pydantic on the JSON of one event. -/
def fileChangeCodec : EnvelopeCodec String where
  modelDumpJson _ := some fileChangeJson
  modelValidateJson bytes := if bytes = fileChangeJson then some fileChange else none

def fileChangeFrame : List UInt8 := pack fileChangeJson.length ++ fileChangeJson

/-- Sent twice, over a connection idle before, between and after the two, the first frame in two pieces. -/
def idleBetween : Socket :=
  .timeout :: pushBack (fileChangeFrame.take 10) (pushBack (fileChangeFrame.drop 10)
    (.timeout :: pushBack fileChangeFrame [.timeout]))

theorem delivers_idleBetween : Delivers fileChangeCodec [fileChange, fileChange] [fileChangeFrame, fileChangeFrame]
    { conn := some idleBetween } := by
  have hjson : ∀ e ∈ [fileChange, fileChange], fileChangeCodec.RoundTrips e := by
    intro e he
    have hsame : e = fileChange := by simpa using he
    rw [hsame]
    rintro body ⟨⟩
    simp only [fileChangeCodec, if_true]
  exact (delivers_iff_timeoutsBetween fileChangeCodec [fileChange, fileChange] hjson [fileChangeFrame, fileChangeFrame]
    (.cons rfl (.cons rfl .nil)) idleBetween (by decide +kernel) (by decide +kernel)).2 (by decide +kernel)

/-- The same event, with a timeout after its first ten bytes. -/
def idleInside : Socket :=
  pushBack (fileChangeFrame.take 10) (.timeout :: pushBack (fileChangeFrame.drop 10) [])

theorem LiveFeed.rounds_of_ended {f : LiveFeed π} {r : Raised} (h : f.ended = some r) (n : ℕ) :
    LiveFeed.rounds codec n f = f := by
  induction n with
  | zero => rfl
  | succ n ih =>
    rw [rounds, show f.round codec = f by simp only [round, h]]
    exact ih

/-- **A timeout inside a frame ends the feed**: the ten bytes read are lost, the next four are taken for a length, and
the envelope is never delivered. -/
theorem timeout_inside_frame :
    (∀ n, (LiveFeed.rounds fileChangeCodec n { conn := some idleInside }).pushed = []) ∧
    (LiveFeed.rounds fileChangeCodec 2 { conn := some idleInside }).ended = some (.frameTooLargeError
      "declared body of 574235206 bytes exceeds global ceiling 16777216" "Reject the frame; the peer sent an oversized body.") ∧
    ¬ Delivers fileChangeCodec [fileChange] [fileChangeFrame] { conn := some idleInside } := by
  have hended : (LiveFeed.rounds fileChangeCodec 2 { conn := some idleInside }).ended = some (.frameTooLargeError
      "declared body of 574235206 bytes exceeds global ceiling 16777216"
      "Reject the frame; the peer sent an oversized body.") := by decide +kernel
  refine ⟨fun n => ?_, hended, fun h => ?_⟩
  · cases n with
    | zero => rfl
    | succ n =>
      cases n with
      | zero => decide +kernel
      | succ n =>
        have hstop := LiveFeed.rounds_of_ended fileChangeCodec hended n
        have hrounds : LiveFeed.rounds fileChangeCodec (n + 1 + 1) { conn := some idleInside } =
            LiveFeed.rounds fileChangeCodec n (LiveFeed.rounds fileChangeCodec 2 { conn := some idleInside }) := rfl
        rw [hrounds, hstop]
        decide +kernel
  · have hnone := (h.2 2).1
    rw [hended] at hnone
    cases hnone

end Tui
end DevHarness
