import DevHarness.Ipc.Envelopes
import DevHarness.Lib.SharedStream
/-!
# Sending — two threads on one connection (`ipc/server.py`)

The push loop and the thread of the connection both call `conn.sendall`, with no lock between them, and a `sendall` may
reach the kernel in parts.  A part of one thread's frame can so come between two parts of the other's.
-/
namespace DevHarness
namespace Ipc

open Lib (Machine SharedStream)

/-- The threads that send on a connection. -/
inductive Sender where
  | pushLoop
  | handleConn
  deriving DecidableEq, Repr

instance : Fintype Sender := ⟨{.pushLoop, .handleConn}, fun w => by cases w <;> simp⟩

inductive SendAct (π : Type) where
  -- the thread calls `conn.sendall(encode(env))`
  | sendall (w : Sender) (e : Envelope π)
  -- the kernel takes `n + 1` more bytes of the thread's frame
  | write (w : Sender) (n : ℕ)

variable {π : Type} (codec : EnvelopeCodec π)

/-- The bytes the client receives, and where the two threads are in their frames. -/
abbrev Sending := SharedStream Sender UInt8

def sendingMachine : Machine Sending (SendAct π) where
  step s
    | .sendall w e => match encode codec e with
      | .error _ => none
      | .ok frame => s.start w frame
    | .write w n => s.write w n

/-- **A thread's bytes go out only while the other has no frame partly out.** -/
def OneFrameAtATime (s : Sending) : SendAct π → Sending → Prop
  | .sendall _ _, _ => True
  | .write w _, _ => ∀ v, v ≠ w → (s.writing v).sent = []

instance (s s' : Sending) (a : SendAct π) : Decidable (OneFrameAtATime s a s') := by
  cases a <;> unfold OneFrameAtATime <;> infer_instance

def toAct : SendAct π → SharedStream.Act Sender UInt8
  | .sendall w e => .start w (match encode codec e with
    | .error _ => []
    | .ok frame => frame)
  | .write w n => .write w n

theorem step_toAct {s s' : Sending} {a : SendAct π} (h : (sendingMachine codec).step s a = some s') :
    (SharedStream.machine Sender UInt8).step s (toAct codec a) = some s' := by
  cases a with
  | sendall w e =>
    simp only [sendingMachine] at h
    cases hencode : encode codec e with
    | error r =>
      rw [hencode] at h
      cases h
    | ok frame =>
      rw [hencode] at h
      simp only [SharedStream.machine, toAct, hencode]
      exact h
  | write w n => exact h

/-- **One frame at a time keeps the frames whole**: the client receives whole frames, each thread's in its order, and at
most the start of one more. -/
theorem wholeFrames_of_oneFrameAtATime (acts : List (SendAct π)) (s : Sending)
    (hone : (sendingMachine codec).Along OneFrameAtATime SharedStream.empty acts)
    (hrun : (sendingMachine codec).run SharedStream.empty acts = some s) : s.Whole := by
  have hstep : ∀ (s : Sending) (a : SendAct π) (s' : Sending), (sendingMachine codec).step s a = some s' →
      (SharedStream.machine Sender UInt8).step s (toAct codec a) = some s' := fun _ _ _ => step_toAct codec
  refine SharedStream.whole_of_oneAtATime (acts.map (toAct codec)) s ?_ (Machine.run_of_relabel hstep acts _ s hrun)
  refine Machine.along_of_relabel hstep acts _ s hrun ?_
  refine (sendingMachine codec).along_of_along (fun _ => True) (fun s a s' _ hp _ => ⟨?_, trivial⟩) acts _ trivial hone
  cases a with
  | sendall w e => trivial
  | write w n => exact hp

/-! ## A token pushed while a reply goes out -/

def tokenFrame : List UInt8 := pack tokenJson.length ++ tokenJson

/-- The push loop's frame goes out in two parts, before and after the reply. -/
def oneAfterTheOther : List (SendAct String) :=
  [.sendall .pushLoop token, .write .pushLoop 3, .sendall .handleConn token, .write .pushLoop 107, .write .handleConn 111]

theorem whole_oneAfterTheOther : ∃ s, (sendingMachine tokenCodec).run SharedStream.empty oneAfterTheOther = some s ∧
    s.received = tokenFrame ++ tokenFrame ∧ s.Whole := by
  have hrun : ((sendingMachine tokenCodec).run SharedStream.empty oneAfterTheOther).any
      (fun s => decide (s.received = tokenFrame ++ tokenFrame)) = true := by decide +kernel
  have hone : (sendingMachine tokenCodec).Along OneFrameAtATime SharedStream.empty oneAfterTheOther := by decide +kernel
  obtain ⟨s, hs, hreceived⟩ := (Option.any_eq_true _ _).1 hrun
  rw [decide_eq_true_eq] at hreceived
  exact ⟨s, hs, hreceived, wholeFrames_of_oneFrameAtATime tokenCodec oneAfterTheOther s hone hs⟩

/-- The reply goes out between the two parts. -/
def oneInsideTheOther : List (SendAct String) :=
  [.sendall .pushLoop token, .write .pushLoop 3, .sendall .handleConn token, .write .handleConn 111, .write .pushLoop 107]

/-- **A reply splits the frame pushed**: both frames are out, and what the client received is no row of whole frames. -/
theorem reply_splits_frame : ∃ s, (sendingMachine tokenCodec).run SharedStream.empty oneInsideTheOther = some s ∧
    (∀ w, (s.writing w).done = [tokenFrame] ∧ (s.writing w).sent = []) ∧
    s.received = tokenFrame.take 4 ++ tokenFrame ++ tokenFrame.drop 4 ∧ ¬ s.Whole := by
  have hrun : ((sendingMachine tokenCodec).run SharedStream.empty oneInsideTheOther).any
      (fun s => decide (s.received = tokenFrame.take 4 ++ tokenFrame ++ tokenFrame.drop 4 ∧
        ((s.writing .pushLoop).done = [tokenFrame] ∧ (s.writing .pushLoop).sent = []) ∧
        (s.writing .handleConn).done = [tokenFrame] ∧ (s.writing .handleConn).sent = [])) = true := by decide +kernel
  obtain ⟨s, hs, h⟩ := (Option.any_eq_true _ _).1 hrun
  rw [decide_eq_true_eq] at h
  obtain ⟨hreceived, hpush, hreply⟩ := h
  have hall : ∀ w, (s.writing w).done = [tokenFrame] ∧ (s.writing w).sent = [] := by
    intro w
    cases w
    · exact hpush
    · exact hreply
  refine ⟨s, hs, hall, hreceived, ?_⟩
  -- the fifth byte is the reply's first, a 0, where a whole frame has its opening brace
  rintro ⟨order, horder, part, hwhole, -⟩
  cases order with
  | nil =>
    have hnone := horder .pushLoop
    rw [(hall .pushLoop).1] at hnone
    cases hnone
  | cons m order =>
    have hm : m.2 ∈ (s.writing m.1).done := by
      rw [← horder m.1]
      simp
    rw [(hall m.1).1, List.mem_singleton] at hm
    rw [hreceived, List.map_cons, List.flatten_cons, hm] at hwhole
    have hsplit : (tokenFrame.take 4 ++ tokenFrame ++ tokenFrame.drop 4)[4]? = some 0 := by decide +kernel
    have hbrace : tokenFrame[4]? = some 123 := by decide +kernel
    have hlen : 4 < tokenFrame.length := by decide +kernel
    rw [hwhole, List.append_assoc, List.getElem?_append_left hlen, hbrace] at hsplit
    cases hsplit

end Ipc
end DevHarness
