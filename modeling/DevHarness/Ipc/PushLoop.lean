import DevHarness.Ipc.Envelopes
import DevHarness.Lib.Machine
import Mathlib.Data.List.Nodup
import Mathlib.Logic.Function.Basic
/-!
# PushLoop — the broadcast to the attached clients (`ipc/server.py`, `engine/daemon.py`)

The loop drains what was published, copies the list of connections, and sends every envelope of the batch to every one
of them.  A send that raises `OSError` drops its connection and the loop goes on; the encoder's errors are no `OSError`s
and end the thread, and with it the broadcast (`isolates_iff`).
-/
namespace DevHarness
namespace Ipc

open Lib (Machine)

inductive PushPhase (ι π : Type) where
  | polling
  -- a batch is drained, and the connections not yet copied
  | drained (envelopes : List (Envelope π))
  -- inside the two loops, with what is still to be sent
  | sending (todo : List (ι × Envelope π))
  -- the thread ended with what the encoder raised
  | died (r : Raised)

/-- The streaming server and the queue it drains, with the record of what it did. -/
structure PushServer (ι π : Type) where
  broadcast : List (Envelope π) := []
  conns : List ι := []
  phase : PushPhase ι π := .polling
  published : List (Envelope π) := []
  /-- Each batch with the connections it is for. -/
  batches : List (List ι × List (Envelope π)) := []
  sent : ι → List (Envelope π) := fun _ => []
  failed : ι → Bool := fun _ => false

inductive PushAct (ι π : Type) where
  | publish (e : Envelope π)
  | accept (c : ι)
  -- the thread of the connection ends
  | drop (c : ι)
  | poll
  | copy
  -- the next `conn.sendall(encode(env))`, which returns or raises `OSError`
  | send (ok : Bool)

variable {ι π : Type} [DecidableEq ι] (codec : EnvelopeCodec π)

def encodable (e : Envelope π) : Bool :=
  match encode codec e with
  | .ok _ => true
  | .error _ => false

namespace PushServer

/-- The loops over the connections and over the envelopes, as the sends they make. -/
def sends (conns : List ι) (envelopes : List (Envelope π)) : List (ι × Envelope π) :=
  conns.flatMap (fun c => envelopes.map (fun e => (c, e)))

def next : List (ι × Envelope π) → PushPhase ι π
  | [] => .polling
  | todo => .sending todo

/-- One pass of the inner loop. -/
def send (s : PushServer ι π) (c : ι) (e : Envelope π) (todo : List (ι × Envelope π)) (ok : Bool) : PushServer ι π :=
  match encode codec e with
  | .error r => { s with phase := .died r }
  | .ok _ =>
    if ok = true then { s with sent := Function.update s.sent c (s.sent c ++ [e]), phase := next todo }
    else { s with conns := s.conns.erase c, failed := Function.update s.failed c true, phase := next todo }

def step (s : PushServer ι π) : PushAct ι π → Option (PushServer ι π)
  | .publish e => some { s with broadcast := s.broadcast ++ [e], published := s.published ++ [e] }
  | .accept c => if c ∈ s.conns then none else some { s with conns := s.conns ++ [c] }
  | .drop c => if c ∈ s.conns then some { s with conns := s.conns.erase c } else none
  | .poll => match s.phase with
    | .polling => if s.broadcast = [] then some s else some { s with broadcast := [], phase := .drained s.broadcast }
    | _ => none
  | .copy => match s.phase with
    | .drained envelopes => some { s with
        phase := next (sends s.conns envelopes), batches := s.batches ++ [(s.conns, envelopes)] }
    | _ => none
  | .send ok => match s.phase with
    | .sending ((c, e) :: todo) => some (s.send codec c e todo ok)
    | _ => none

def machine : Machine (PushServer ι π) (PushAct ι π) where
  step := step codec

def remaining : PushPhase ι π → List (ι × Envelope π)
  | .sending todo => todo
  | _ => []

/-- What is still to be sent to a connection. -/
def pending (s : PushServer ι π) (c : ι) : List (Envelope π) :=
  ((remaining s.phase).filter (fun p => p.1 = c)).map Prod.snd

/-- The envelopes of the batches that were for a connection. -/
def owed (s : PushServer ι π) (c : ι) : List (Envelope π) :=
  s.batches.flatMap (fun b => if c ∈ b.1 then b.2 else [])

def undispatched (s : PushServer ι π) : List (Envelope π) :=
  match s.phase with
  | .drained envelopes => envelopes
  | _ => []

/-- **A failure affects only itself**: the loop runs, what was published is in the batches and the queue, in order, and
a connection no send has failed on gets every envelope of its batches that can be encoded, in that order. -/
structure Isolates (s : PushServer ι π) : Prop where
  running : ∀ r, s.phase ≠ .died r
  published : s.batches.flatMap Prod.snd ++ s.undispatched ++ s.broadcast = s.published
  delivered : ∀ c, s.failed c = false →
    s.sent c ++ (s.pending c).filter (encodable codec) = (s.owed c).filter (encodable codec)

/-- **The envelope being sent can be encoded.** -/
def SendsEncodable (s : PushServer ι π) : PushAct ι π → PushServer ι π → Prop
  | .send _, _ => ∀ c e todo, s.phase = .sending ((c, e) :: todo) → encodable codec e = true
  | _, _ => True

/-! ## What a pass keeps -/

omit [DecidableEq ι] in
theorem remaining_next : ∀ (todo : List (ι × Envelope π)), remaining (next todo) = todo
  | [] => rfl
  | _ :: _ => rfl

omit [DecidableEq ι] in
theorem next_ne_died (todo : List (ι × Envelope π)) (r : Raised) : next todo ≠ .died r := by
  cases todo <;> simp [next]

omit [DecidableEq ι] in
theorem undispatched_next {s : PushServer ι π} {todo : List (ι × Envelope π)} (h : s.phase = next todo) :
    s.undispatched = [] := by
  unfold undispatched
  rw [h]
  cases todo <;> rfl

/-- **A batch makes each connection one send an envelope**, in order. -/
theorem pending_sends (envelopes : List (Envelope π)) (c : ι) : ∀ (conns : List ι), conns.Nodup →
    ((sends conns envelopes).filter (fun p => p.1 = c)).map Prod.snd = if c ∈ conns then envelopes else []
  | [], _ => rfl
  | a :: conns, hn => by
    rw [List.nodup_cons] at hn
    have ih := pending_sends envelopes c conns hn.2
    rw [sends, List.flatMap_cons, List.filter_append, List.map_append, ← sends, ih]
    by_cases hc : c = a
    · have hfirst : (envelopes.map (fun e => (a, e))).filter (fun p => p.1 = c) = envelopes.map (fun e => (a, e)) := by
        refine List.filter_eq_self.2 (fun p hp => ?_)
        obtain ⟨e, -, rfl⟩ := List.mem_map.1 hp
        simp [hc]
      rw [hfirst, hc, if_neg hn.1, if_pos List.mem_cons_self, List.map_map]
      simp
    · have hfirst : (envelopes.map (fun e => (a, e))).filter (fun p => p.1 = c) = [] := by
        refine List.filter_eq_nil_iff.2 (fun p hp => ?_)
        obtain ⟨e, -, rfl⟩ := List.mem_map.1 hp
        simpa using Ne.symm hc
      rw [hfirst]
      simp [hc]

/-- What the steps keep: the law itself, and no connection twice. -/
def Kept (s : PushServer ι π) : Prop := s.Isolates codec ∧ s.conns.Nodup

theorem kept_init : ({} : PushServer ι π).Kept codec := ⟨⟨fun r => by simp, rfl, fun _ _ => rfl⟩, List.nodup_nil⟩

variable {codec}

theorem kept_copy {s : PushServer ι π} (h : s.Kept codec) {envelopes : List (Envelope π)}
    (hphase : s.phase = .drained envelopes) : ({ s with
      phase := next (sends s.conns envelopes), batches := s.batches ++ [(s.conns, envelopes)] } : PushServer ι π).Kept
        codec := by
  obtain ⟨⟨hrun, hpub, hdel⟩, hn⟩ := h
  refine ⟨⟨next_ne_died _, ?_, fun c hc => ?_⟩, hn⟩
  · rw [undispatched_next rfl]
    rw [undispatched, hphase] at hpub
    simpa using hpub
  · have hbefore := hdel c hc
    rw [pending, hphase] at hbefore
    have hpending : ({ s with
        phase := next (sends s.conns envelopes), batches := s.batches ++ [(s.conns, envelopes)] } : PushServer ι π).pending
          c = if c ∈ s.conns then envelopes else [] := by
      rw [pending, remaining_next]
      exact pending_sends envelopes c s.conns hn
    rw [hpending, owed, List.flatMap_append, List.filter_append, ← owed, ← hbefore]
    simp [remaining]

theorem kept_send {s : PushServer ι π} (h : s.Kept codec) {c : ι} {e : Envelope π} {todo : List (ι × Envelope π)}
    (hphase : s.phase = .sending ((c, e) :: todo)) (henc : encodable codec e = true) (ok : Bool) :
    (s.send codec c e todo ok).Kept codec := by
  obtain ⟨⟨hrun, hpub, hdel⟩, hn⟩ := h
  obtain ⟨frame, hframe⟩ : ∃ frame, encode codec e = .ok frame := by
    unfold encodable at henc
    split at henc
    · exact ⟨_, ‹_›⟩
    · cases henc
  rw [undispatched, hphase] at hpub
  have hbefore : ∀ d, s.failed d = false → s.sent d ++ ((if c = d then [e] else []) ++
      (todo.filter (fun p => p.1 = d)).map Prod.snd).filter (encodable codec) = (s.owed d).filter (encodable codec) := by
    intro d hd
    rw [← hdel d hd, pending, hphase, remaining, List.filter_cons]
    by_cases hcd : c = d <;> simp [hcd]
  cases ok with
  | true =>
    have he : s.send codec c e todo true =
        { s with sent := Function.update s.sent c (s.sent c ++ [e]), phase := next todo } := by
      simp only [send, hframe, if_true]
    rw [he]
    refine ⟨⟨next_ne_died _, ?_, fun d hd => ?_⟩, hn⟩
    · rw [undispatched_next rfl]
      exact hpub
    · have hdone := hbefore d hd
      rw [pending, remaining_next]
      show Function.update s.sent c (s.sent c ++ [e]) d ++ _ = (s.owed d).filter (encodable codec)
      rw [← hdone]
      by_cases hcd : c = d
      · rw [← hcd, Function.update_self, if_pos rfl, List.filter_append]
        simp [henc]
      · rw [Function.update_of_ne (Ne.symm hcd), if_neg hcd, List.nil_append]
  | false =>
    have he : s.send codec c e todo false =
        { s with conns := s.conns.erase c, failed := Function.update s.failed c true, phase := next todo } := by
      simp [send, hframe]
    rw [he]
    refine ⟨⟨next_ne_died _, ?_, fun d hd => ?_⟩, hn.erase c⟩
    · rw [undispatched_next rfl]
      exact hpub
    · change Function.update s.failed c true d = false at hd
      have hcd : c ≠ d := by
        rintro rfl
        rw [Function.update_self] at hd
        cases hd
      rw [Function.update_of_ne (Ne.symm hcd)] at hd
      have hdone := hbefore d hd
      rw [if_neg hcd, List.nil_append] at hdone
      rw [pending, remaining_next]
      exact hdone

/-- **A step keeps the law** unless it sends what cannot be encoded. -/
theorem kept_step {s s' : PushServer ι π} {a : PushAct ι π} (h : s.Kept codec) (henc : s.SendsEncodable codec a s')
    (hstep : step codec s a = some s') : s'.Kept codec := by
  cases a with
  | publish e =>
    cases hstep
    obtain ⟨⟨hrun, hpub, hdel⟩, hn⟩ := h
    refine ⟨⟨hrun, ?_, hdel⟩, hn⟩
    show s.batches.flatMap Prod.snd ++ s.undispatched ++ (s.broadcast ++ [e]) = s.published ++ [e]
    rw [← List.append_assoc, hpub]
  | accept c =>
    simp only [step] at hstep
    split at hstep
    · cases hstep
    · rename_i hc
      cases hstep
      exact ⟨⟨h.1.running, h.1.published, h.1.delivered⟩, List.nodup_append.2 ⟨h.2, List.nodup_singleton c,
        fun x hx y hy he => hc (List.mem_singleton.1 hy ▸ he ▸ hx)⟩⟩
  | drop c =>
    simp only [step] at hstep
    split at hstep
    · cases hstep
      exact ⟨⟨h.1.running, h.1.published, h.1.delivered⟩, h.2.erase c⟩
    · cases hstep
  | poll =>
    simp only [step] at hstep
    split at hstep
    · rename_i hphase
      split at hstep
      · cases hstep
        exact h
      · cases hstep
        obtain ⟨⟨hrun, hpub, hdel⟩, hn⟩ := h
        refine ⟨⟨fun r => by simp, ?_, fun c hc => ?_⟩, hn⟩
        · rw [undispatched, hphase] at hpub
          show s.batches.flatMap Prod.snd ++ s.broadcast ++ [] = s.published
          rw [List.append_nil, ← hpub, List.append_nil]
        · have hbefore := hdel c hc
          rw [pending, hphase] at hbefore
          exact hbefore
    · cases hstep
  | copy =>
    simp only [step] at hstep
    split at hstep
    · cases hstep
      exact kept_copy h ‹_›
    · cases hstep
  | send ok =>
    simp only [step] at hstep
    split at hstep
    · rename_i c e todo hphase
      cases hstep
      exact kept_send h hphase (henc c e todo hphase) ok
    · cases hstep

/-- **Sending what cannot be encoded ends the loop.** -/
theorem sendsEncodable_of_running {s s' : PushServer ι π} {a : PushAct ι π} (hstep : step codec s a = some s')
    (hrun : ∀ r, s'.phase ≠ .died r) : s.SendsEncodable codec a s' := by
  cases a with
  | send ok =>
    intro c e todo hphase
    simp only [step, hphase, Option.some.injEq] at hstep
    unfold encodable
    cases hencode : encode codec e with
    | ok frame => rfl
    | error r =>
      simp only [send, hencode] at hstep
      rw [← hstep] at hrun
      exact absurd rfl (hrun r)
  | _ => trivial

variable (codec)

/-- **Failures stay their own exactly where every envelope that comes to be sent can be encoded**, in every run. -/
theorem isolates_iff (acts : List (PushAct ι π)) :
    (machine codec).Along (fun _ _ s' => s'.Isolates codec) {} acts ↔
      (machine codec).Along (SendsEncodable codec) {} acts :=
  (machine codec).along_iff_along (Kept codec)
    (fun _ _ _ hk hstep => ⟨fun hi => sendsEncodable_of_running hstep hi.running, fun he => (kept_step hk he hstep).1⟩)
    (fun _ _ _ hk hi hstep => kept_step hk (sendsEncodable_of_running hstep hi.running) hstep) acts {} (kept_init codec)

/-! ## A token of two mebibytes in a batch -/

/-- A token of `n` times the letter x, and the bytes around it. -/
def textBefore : List UInt8 :=
  ("\x7b\"type\":\"AGENT_TOKEN_STREAM\",\"seq\":1,\"payload\":\x7b\"type\":\"AGENT_TOKEN_STREAM\",\"seq\":1," ++
    "\"token\":\"").toList.map (fun c => UInt8.ofNat c.toNat)

def textAfter : List UInt8 := "\",\"agent\":\"\"\x7d\x7d".toList.map (fun c => UInt8.ofNat c.toNat)

def text (n : ℕ) : Envelope ℕ := ⟨.agentTokenStream, 1, n⟩

/-- Pydantic on the JSON of these tokens. -/
def textCodec : EnvelopeCodec ℕ where
  modelDumpJson e := some (textBefore ++ List.replicate e.payload 120 ++ textAfter)
  modelValidateJson bytes :=
    let n := bytes.length - textBefore.length - textAfter.length
    if bytes = textBefore ++ List.replicate n 120 ++ textAfter then some (text n) else none

theorem encode_text {n : ℕ} (h : maxStreamFrame < n) (hn : n + 107 < 4294967296) :
    ∃ r, encode textCodec (text n) = .error r := by
  have hbefore : textBefore.length + textAfter.length = 107 := by decide
  have hlen : (textBefore ++ List.replicate n 120 ++ textAfter).length = n + 107 := by
    rw [List.length_append, List.length_append, List.length_replicate]
    omega
  have hdump : textCodec.modelDumpJson (text n) = some (textBefore ++ List.replicate n 120 ++ textAfter) := rfl
  generalize textBefore ++ List.replicate n 120 ++ textAfter = body at hlen hdump
  have hlimit : maxFrameFor (text n).type = maxStreamFrame := rfl
  cases hencode : encode textCodec (text n) with
  | error r => exact ⟨r, rfl⟩
  | ok frame =>
    unfold encode at hencode
    rw [hdump] at hencode
    dsimp only at hencode
    rw [List.length_append, length_pack, hlen, if_neg (by omega), if_pos (by rw [hlimit]; omega)] at hencode
    cases hencode

/-- Two clients are attached; two envelopes are published and drained together, and sending begins. -/
def twoTogether (first second : Envelope π) : List (PushAct ℕ π) :=
  [.accept 0, .accept 1, .publish first, .publish second, .poll, .copy, .send true]

def beforeSending (first second : Envelope π) : PushServer ℕ π where
  conns := [0, 1]
  phase := .sending [(0, first), (0, second), (1, first), (1, second)]
  published := [first, second]
  batches := [([0, 1], [first, second])]

theorem run_twoTogether (first second : Envelope π) : (machine codec).run {} (twoTogether first second) =
    some ((beforeSending first second).send codec 0 first [(0, second), (1, first), (1, second)] true) := rfl

/-- **A token too long to encode ends the broadcast**: the loop is dead, and neither client got the token behind it. -/
theorem long_token_ends_broadcast :
    ∃ s, (machine textCodec).run {} (twoTogether (text (2 * 1024 * 1024)) (text 1)) = some s ∧
      (∃ r, s.phase = .died r) ∧ (∀ c, s.sent c = []) ∧ encodable textCodec (text 1) = true ∧
      ¬ (machine textCodec).Along (fun _ _ s' => s'.Isolates textCodec) {}
        (twoTogether (text (2 * 1024 * 1024)) (text 1)) := by
  obtain ⟨r, hr⟩ := encode_text (n := 2 * 1024 * 1024) (by decide) (by decide)
  have hrun := run_twoTogether textCodec (text (2 * 1024 * 1024)) (text 1)
  rw [send, hr] at hrun
  refine ⟨_, hrun, ⟨r, rfl⟩, fun _ => rfl, by decide +kernel, fun halong => ?_⟩
  have hrunning := (machine textCodec).inv_of_along (fun s => ∀ r, s.phase ≠ .died r) (fun _ _ _ _ hi _ => hi.running)
    (twoTogether (text (2 * 1024 * 1024)) (text 1)) {} _ (fun r => by simp) halong hrun
  exact hrunning r rfl

end PushServer
end Ipc
end DevHarness
