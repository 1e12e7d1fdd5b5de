import DevHarness.Lib.Machine
import DevHarness.Lib.Python
import Mathlib.Algebra.Order.Field.Rat
import Mathlib.Order.Monotone.Defs
/-!
# Throttle — envelopes coalesced into batches (`tui/throttle.py`)

Three things set a delivery off: a full buffer, the interval, and `flush`.  The clock is read again for the stamp, after the
reading that found the interval to be over.  Before a delivery reaches the sink it is stamped and taken out of the buffer,
so a sink that raises is never handed a batch twice.
-/
namespace DevHarness
namespace Tui

open Lib

/-- What set a delivery off. -/
inductive Trigger where
  | full
  | interval
  | forced
  deriving DecidableEq

structure Delivery (ε : Type) where
  trigger : Trigger
  time : ℚ
  batch : List ε

/-- What a throttle is built with. -/
structure Settings where
  interval : ℚ
  maxBatch : ℕ
  interval_pos : 0 < interval
  maxBatch_pos : 1 ≤ maxBatch

/-- The checks of `CoalescingThrottle.__init__`. -/
def Settings.check (interval : ℚ) (maxBatch : ℤ) : Except String Settings :=
  if h : interval ≤ 0 then .error "interval must be positive"
  else if h' : maxBatch < 1 then .error "max_batch must be at least 1"
  else .ok ⟨interval, maxBatch.toNat, not_le.1 h, one_le_toNat h'⟩

structure CoalescingThrottle (ε : Type) where
  settings : Settings
  buffer : List ε
  lastFlush : ℚ
  flushes : ℕ
  written : ℕ

/-- The readings of a clock that does not go back, and the calls of the sink that raise. -/
structure Surroundings where
  clock : ℕ → ℚ
  monotone : Monotone clock
  raises : ℕ → Bool

/-- A throttle in use: the readings made, the deliveries, and the envelopes that were put into the buffer. -/
structure Session (ε : Type) extends CoalescingThrottle ε where
  readings : ℕ
  delivered : List (Delivery ε)
  taken : List ε

inductive Call (ε : Type) where
  | push (env : ε)
  | flush
  | drain

variable {ε : Type}

namespace Session

/-- `__init__` reads the clock once. -/
def start (w : Surroundings) (settings : Settings) : Session ε where
  settings := settings
  buffer := []
  lastFlush := w.clock 0
  flushes := 0
  written := 0
  readings := 1
  delivered := []
  taken := []

/-- `flush`: the envelopes written, or `none` when the sink raises. -/
def flush (w : Surroundings) (trigger : Trigger) (s : Session ε) : Option ℕ × Session ε :=
  if s.buffer = [] then (some 0, s)
  else (if w.raises s.flushes then none else some s.buffer.length, { s with
    buffer := []
    lastFlush := w.clock s.readings
    readings := s.readings + 1
    flushes := s.flushes + 1
    written := s.written + s.buffer.length
    delivered := s.delivered ++ [⟨trigger, w.clock s.readings, s.buffer⟩] })

def append (s : Session ε) (env : ε) : Session ε := { s with buffer := s.buffer ++ [env], taken := s.taken ++ [env] }

/-- The interval check: a reading, and whether the interval is over by it. -/
def elapsed (w : Surroundings) (s : Session ε) : Bool × Session ε :=
  (decide (s.settings.interval ≤ w.clock s.readings - s.lastFlush), { s with readings := s.readings + 1 })

/-- The end of `push`, once there is room. -/
def pushInto (w : Surroundings) (flushed : Bool) (env : ε) (s : Session ε) : Option Bool × Session ε :=
  match (s.append env).elapsed w with
  | (false, s') => (some flushed, s')
  | (true, s') => match s'.flush w .interval with
    | (none, s'') => (none, s'')
    | (some _, s'') => (some true, s'')

/-- `push`: whether it delivered, or `none` when the sink raises; raised over a full buffer, the envelope is not taken. -/
def push (w : Surroundings) (env : ε) (s : Session ε) : Option Bool × Session ε :=
  if s.settings.maxBatch ≤ s.buffer.length then match s.flush w .full with
    | (none, s') => (none, s')
    | (some _, s') => s'.pushInto w true env
  else s.pushInto w false env

def drain (w : Surroundings) (s : Session ε) : Option ℕ × Session ε :=
  match s.elapsed w with
  | (false, s') => (some 0, s')
  | (true, s') => s'.flush w .interval

def step (w : Surroundings) (s : Session ε) : Call ε → Session ε
  | .push env => (s.push w env).2
  | .flush => (s.flush w .forced).2
  | .drain => (s.drain w).2

/-- The session after a sequence of calls. -/
def after (w : Surroundings) (settings : Settings) (calls : List (Call ε)) : Session ε :=
  calls.foldl (Session.step w) (start w settings)

end Session

def pushed (calls : List (Call ε)) : List ε :=
  calls.filterMap (fun c => match c with
    | .push env => some env
    | _ => none)

/-- **Each delivery the interval set off is an interval after the one before it**, whatever set that off; the first, after
the throttle was built. -/
def Spaced (interval : ℚ) : ℚ → List (Delivery ε) → Prop
  | _, [] => True
  | last, d :: ds => (d.trigger = .interval → interval ≤ d.time - last) ∧ Spaced interval d.time ds

def lastStamp : ℚ → List (Delivery ε) → ℚ
  | last, [] => last
  | _, d :: ds => lastStamp d.time ds

theorem lastStamp_snoc (d : Delivery ε) : ∀ (ds : List (Delivery ε)) (last : ℚ), lastStamp last (ds ++ [d]) = d.time
  | [], _ => rfl
  | e :: ds, _ => lastStamp_snoc d ds e.time

theorem spaced_snoc {interval : ℚ} (d : Delivery ε) : ∀ (ds : List (Delivery ε)) (last : ℚ),
    Spaced interval last (ds ++ [d]) ↔
      Spaced interval last ds ∧ (d.trigger = .interval → interval ≤ d.time - lastStamp last ds)
  | [], last => by simp [Spaced, lastStamp]
  | e :: ds, last => by
    rw [List.cons_append, Spaced, Spaced, spaced_snoc d ds e.time, lastStamp, and_assoc]

/-! ## What a call keeps -/

/-- Nothing is lost or late: what was delivered and what is buffered is what was taken, and the stamps are in order. -/
structure Kept (w : Surroundings) (settings : Settings) (s : Session ε) : Prop where
  built : s.settings = settings
  contents : (s.delivered.map Delivery.batch).flatten ++ s.buffer = s.taken
  bounded : s.buffer.length ≤ settings.maxBatch
  stamped : s.lastFlush = lastStamp (w.clock 0) s.delivered
  past : ∀ n, s.readings ≤ n → s.lastFlush ≤ w.clock n
  spaced : Spaced settings.interval (w.clock 0) s.delivered
  flushes : s.flushes = s.delivered.length
  written : s.written = (s.delivered.map Delivery.batch).flatten.length

variable {w : Surroundings} {settings : Settings} {s : Session ε}

namespace Session

theorem kept_start (w : Surroundings) (settings : Settings) : Kept w settings (start w settings : Session ε) where
  built := rfl
  contents := rfl
  bounded := Nat.zero_le _
  stamped := rfl
  past n _ := w.monotone (Nat.zero_le n)
  spaced := trivial
  flushes := rfl
  written := rfl

/-- **A delivery**: the buffer goes out whole, and on time if the interval set it off. -/
theorem kept_flush (h : Kept w settings s) (trigger : Trigger)
    (hdue : trigger = .interval → settings.interval ≤ w.clock s.readings - s.lastFlush) :
    Kept w settings (s.flush w trigger).2 ∧ (s.flush w trigger).2.buffer = [] ∧
      (s.flush w trigger).2.taken = s.taken := by
  rw [flush]
  split
  · rename_i hempty
    exact ⟨h, hempty, rfl⟩
  · refine ⟨⟨h.built, ?_, Nat.zero_le _, ?_, fun n hn => ?_, ?_, ?_, ?_⟩, rfl, rfl⟩
    · rw [List.map_append, List.flatten_append, List.append_nil, ← h.contents]
      simp
    · exact (lastStamp_snoc ⟨trigger, w.clock s.readings, s.buffer⟩ s.delivered (w.clock 0)).symm
    · exact w.monotone (Nat.le_of_succ_le hn)
    · refine (spaced_snoc _ s.delivered (w.clock 0)).2 ⟨h.spaced, fun ht => ?_⟩
      rw [← h.stamped]
      exact hdue ht
    · rw [List.length_append, h.flushes]
      rfl
    · simp [h.written]

theorem kept_append (h : Kept w settings s) (hroom : s.buffer.length < settings.maxBatch) (env : ε) :
    Kept w settings (s.append env) where
  built := h.built
  contents := by
    show (s.delivered.map Delivery.batch).flatten ++ (s.buffer ++ [env]) = s.taken ++ [env]
    rw [← List.append_assoc, h.contents]
  bounded := by
    show (s.buffer ++ [env]).length ≤ settings.maxBatch
    rw [List.length_append]
    exact hroom
  stamped := h.stamped
  past := h.past
  spaced := h.spaced
  flushes := h.flushes
  written := h.written

/-- **The check comes before the stamp**: over by the one reading, over by the next. -/
theorem kept_elapsed (h : Kept w settings s) :
    Kept w settings (s.elapsed w).2 ∧ ((s.elapsed w).1 = true →
      settings.interval ≤ w.clock (s.elapsed w).2.readings - (s.elapsed w).2.lastFlush) := by
  refine ⟨⟨h.built, h.contents, h.bounded, h.stamped, fun n hn => h.past n (Nat.le_of_succ_le hn), h.spaced, h.flushes,
    h.written⟩, fun hover => ?_⟩
  have hchecked : s.settings.interval ≤ w.clock s.readings - s.lastFlush := of_decide_eq_true hover
  rw [h.built] at hchecked
  calc settings.interval ≤ w.clock s.readings - s.lastFlush := hchecked
    _ ≤ w.clock (s.readings + 1) - s.lastFlush := sub_le_sub_right (w.monotone (Nat.le_succ _)) _

theorem kept_pushInto (h : Kept w settings s) (hroom : s.buffer.length < settings.maxBatch) (flushed : Bool) (env : ε) :
    Kept w settings (s.pushInto w flushed env).2 ∧ (s.pushInto w flushed env).2.taken = s.taken ++ [env] := by
  obtain ⟨hkept, hover⟩ := kept_elapsed (kept_append h hroom env)
  have htaken : ((s.append env).elapsed w).2.taken = s.taken ++ [env] := rfl
  rw [pushInto]
  cases he : (s.append env).elapsed w with
  | mk passed s' =>
    rw [he] at hkept hover htaken
    cases passed with
    | false => exact ⟨hkept, htaken⟩
    | true =>
      obtain ⟨hkept', -, htaken'⟩ := kept_flush hkept .interval (fun _ => hover rfl)
      dsimp only
      cases hf : s'.flush w .interval with
      | mk n s'' =>
        rw [hf] at hkept' htaken'
        cases n <;> exact ⟨hkept', htaken'.trans htaken⟩

/-- A push takes its envelope, unless the sink raises over a full buffer. -/
theorem kept_push (h : Kept w settings s) (env : ε) :
    Kept w settings (s.push w env).2 ∧
      ((∀ n, w.raises n = false) → (s.push w env).2.taken = s.taken ++ [env]) := by
  rw [push]
  split
  · rename_i hfull
    obtain ⟨hkept, hempty, htaken⟩ := kept_flush h .full (fun ht => by cases ht)
    have hbuffer : s.buffer ≠ [] := by
      intro hn
      have hpos := s.settings.maxBatch_pos
      rw [hn, List.length_nil] at hfull
      omega
    cases hf : s.flush w .full with
    | mk n s' =>
      rw [hf] at hkept hempty htaken
      cases n with
      | none =>
        refine ⟨hkept, fun hsink => ?_⟩
        rw [flush, if_neg hbuffer, hsink] at hf
        cases congrArg Prod.fst hf
      | some n =>
        have hroom : s'.buffer.length < settings.maxBatch := by
          rw [hempty]
          exact settings.maxBatch_pos
        obtain ⟨hinto, htaken'⟩ := kept_pushInto hkept hroom true env
        exact ⟨hinto, fun _ => htaken'.trans (by rw [htaken])⟩
  · rename_i hroom
    rw [h.built, not_le] at hroom
    obtain ⟨hinto, htaken⟩ := kept_pushInto h hroom false env
    exact ⟨hinto, fun _ => htaken⟩

theorem kept_drain (h : Kept w settings s) : Kept w settings (s.drain w).2 ∧ (s.drain w).2.taken = s.taken := by
  obtain ⟨hkept, hover⟩ := kept_elapsed h
  have htaken : (s.elapsed w).2.taken = s.taken := rfl
  rw [drain]
  cases he : s.elapsed w with
  | mk passed s' =>
    rw [he] at hkept hover htaken
    cases passed with
    | false => exact ⟨hkept, htaken⟩
    | true =>
      obtain ⟨hkept', -, htaken'⟩ := kept_flush hkept .interval (fun _ => hover rfl)
      exact ⟨hkept', htaken'.trans htaken⟩

/-- **One call.** -/
theorem kept_step (h : Kept w settings s) (c : Call ε) :
    Kept w settings (s.step w c) ∧
      ((∀ n, w.raises n = false) → (s.step w c).taken = s.taken ++ pushed [c]) := by
  cases c with
  | push env => exact kept_push h env
  | flush =>
    obtain ⟨hkept, -, htaken⟩ := kept_flush h .forced (fun ht => by cases ht)
    exact ⟨hkept, fun _ => htaken.trans (List.append_nil _).symm⟩
  | drain =>
    obtain ⟨hkept, htaken⟩ := kept_drain h
    exact ⟨hkept, fun _ => htaken.trans (List.append_nil _).symm⟩

/-- **A sequence of calls.** -/
theorem kept_foldl : ∀ (calls : List (Call ε)) {s : Session ε}, Kept w settings s →
    Kept w settings (calls.foldl (Session.step w) s) ∧
      ((∀ n, w.raises n = false) → (calls.foldl (Session.step w) s).taken = s.taken ++ pushed calls)
  | [], s, h => ⟨h, fun _ => (List.append_nil _).symm⟩
  | c :: calls, s, h => by
    obtain ⟨hkept, htaken⟩ := kept_step h c
    obtain ⟨hafter, htaken'⟩ := kept_foldl calls hkept
    refine ⟨hafter, fun hsink => ?_⟩
    have hsplit : pushed (c :: calls) = pushed [c] ++ pushed calls := List.filterMap_append (l := [c])
    rw [List.foldl_cons, htaken' hsink, htaken hsink, List.append_assoc, hsplit]

end Session

/-- **Nothing pushed is lost, reordered or handed over too often**: the batches and the buffer are what was taken, which is
all that was pushed unless the sink raised; the buffer stays within its bound, and the interval between deliveries. -/
theorem coalesces_in_order (w : Surroundings) (settings : Settings) (calls : List (Call ε)) :
    ((Session.after w settings calls).delivered.map Delivery.batch).flatten ++ (Session.after w settings calls).buffer =
        (Session.after w settings calls).taken ∧
      ((∀ n, w.raises n = false) → (Session.after w settings calls).taken = pushed calls) ∧
      (Session.after w settings calls).buffer.length ≤ settings.maxBatch ∧
      Spaced settings.interval (w.clock 0) (Session.after w settings calls).delivered := by
  obtain ⟨hkept, htaken⟩ := Session.kept_foldl calls (Session.kept_start w settings)
  exact ⟨hkept.contents, htaken, hkept.bounded, hkept.spaced⟩

end Tui
end DevHarness
