import DevHarness.Broker.Capacity
import DevHarness.Lib.Saturating
import Mathlib.Tactic.Ring
/-!
# Bucket — whole runs of the token bucket (`broker/bucket.py`)

The bucket refills only when an operation reads the clock, and `release` does not even do that.  Beside it stands a bucket
that is refilled at every instant; the two cannot be told apart, and what the one grants is bounded as for the other.
-/
namespace DevHarness
namespace Broker

open Lib

/-- The operations on a bucket; `acquireRound` is one turn of the loop of `acquire`, with the time left to its deadline. -/
inductive BucketOp
  | tokens
  | tryAcquire (tokens : ℚ)
  | acquireRound (tokens : ℚ) (remaining : Option ℚ)
  | release (tokens : ℚ)
deriving DecidableEq, Repr

/-- What the caller sees; `waits` is a turn of `acquire` that waits, for ever when there is no bound. -/
inductive BucketOutcome
  | count (tokens : ℚ)
  | granted (ok : Bool)
  | waits (seconds : Option ℚ)
  | released
  | valueError
deriving DecidableEq, Repr

/-- The end of a turn of `acquire` that found too few tokens. -/
def shortfall (refillRate tokens available : ℚ) (remaining : Option ℚ) : BucketOutcome :=
  let deficit := tokens - available
  let wait := if 0 < refillRate then some (deficit / refillRate) else none
  match remaining with
  | none => .waits wait
  | some r =>
    if r ≤ 0 then .granted false
    else match wait with
      | none => .waits (some r)
      | some w => .waits (some (min w r))

theorem shortfall_zero (refillRate tokens available : ℚ) :
    shortfall refillRate tokens available (some 0) = .granted false := by
  unfold shortfall
  exact if_pos (le_refl 0)

/-- Something at a clock reading. -/
structure At (α : Type) where
  clock : ℚ
  what : α

/-- **The clock never goes back**, from a first reading on. -/
def Clocked {α : Type} : ℚ → List (At α) → Prop
  | _, [] => True
  | t, e :: es => t ≤ e.clock ∧ Clocked e.clock es

namespace TokenBucket

/-- One operation at a clock reading; an operation that raises leaves the bucket alone. -/
def serve (b : TokenBucket) (now : ℚ) : BucketOp → BucketOutcome × TokenBucket
  | .tokens => (.count (b.refill now).tokens, b.refill now)
  | .tryAcquire q => match b.tryAcquire (.fin q) now with
    | none => (.valueError, b)
    | some (ok, b') => (.granted ok, b')
  | .acquireRound q remaining => match b.tryAcquire (.fin q) now with
    | none => (.valueError, b)
    | some (true, b') => (.granted true, b')
    | some (false, b') => (shortfall b'.refillRate q b'.tokens remaining, b')
  | .release q => match b.release (.fin q) with
    | none => (.valueError, b)
    | some b' => (.released, b')

/-- The bucket after a run. -/
def after (b : TokenBucket) : List (At BucketOp) → TokenBucket
  | [] => b
  | e :: es => (b.serve e.clock e.what).2.after es

def outcomes (b : TokenBucket) : List (At BucketOp) → List BucketOutcome
  | [] => []
  | e :: es => (b.serve e.clock e.what).1 :: (b.serve e.clock e.what).2.outcomes es

end TokenBucket

/-! ## The bucket refilled at every instant -/

/-- A bucket that holds, at each instant, its level at that instant. -/
@[ext] structure FlowBucket where
  capacity : ℚ
  refillRate : ℚ
  level : ℚ
  now : ℚ

namespace FlowBucket

/-- Time goes on to `t`: the level rises at the rate and stops at the capacity. -/
def advance (f : FlowBucket) (t : ℚ) : FlowBucket :=
  { f with level := topUp f.capacity f.level ((t - f.now) * f.refillRate), now := t }

/-- An operation at the present instant. -/
def serve (f : FlowBucket) : BucketOp → BucketOutcome × FlowBucket
  | .tokens => (.count f.level, f)
  | .tryAcquire q =>
    if q ≤ 0 then (.valueError, f)
    else if q ≤ f.level then (.granted true, { f with level := f.level - q })
    else (.granted false, f)
  | .acquireRound q remaining =>
    if q ≤ 0 then (.valueError, f)
    else if q ≤ f.level then (.granted true, { f with level := f.level - q })
    else (shortfall f.refillRate q f.level remaining, f)
  | .release q =>
    if q ≤ 0 then (.valueError, f)
    else (.released, { f with level := topUp f.capacity f.level q })

/-- The outcomes of a run through instants, at some of which nothing but the refill happens. -/
def outcomes (f : FlowBucket) : List (At (Option BucketOp)) → List BucketOutcome
  | [] => []
  | ⟨t, none⟩ :: is => (f.advance t).outcomes is
  | ⟨t, some op⟩ :: is => ((f.advance t).serve op).1 :: ((f.advance t).serve op).2.outcomes is

theorem serve_tryAcquire (f : FlowBucket) (q : ℚ) : f.serve (.tryAcquire q) = f.serve (.acquireRound q (some 0)) := by
  simp only [serve, shortfall_zero]

end FlowBucket

/-! ## The lazy bucket seen at an instant -/

namespace TokenBucket

/-- What a lazily refilled bucket stands for at `t`. -/
def seenAt (b : TokenBucket) (t : ℚ) : FlowBucket := ⟨b.capacity, b.refillRate, (b.refill t).tokens, t⟩

@[simp] theorem refill_capacity (b : TokenBucket) (t : ℚ) : (b.refill t).capacity = b.capacity := by
  unfold refill; split <;> rfl

@[simp] theorem refill_refillRate (b : TokenBucket) (t : ℚ) : (b.refill t).refillRate = b.refillRate := by
  unfold refill; split <;> rfl

theorem refill_of_le {b : TokenBucket} {t : ℚ} (h : t ≤ b.last) : b.refill t = b :=
  dif_neg (by linarith)

theorem refill_last {b : TokenBucket} {t : ℚ} (h : b.last ≤ t) : (b.refill t).last = t := by
  unfold refill
  split
  · rfl
  · rename_i hlt
    linarith

/-- What has flowed in since the last refill, cut off once. -/
theorem refill_tokens {b : TokenBucket} {t : ℚ} (h : b.last ≤ t) :
    (b.refill t).tokens = topUp b.capacity b.tokens ((t - b.last) * b.refillRate) := by
  unfold refill
  split
  · rfl
  · rename_i hlt
    have h0 : t - b.last = 0 := by linarith
    rw [h0, zero_mul, topUp_zero b.tokens_le]

theorem advance_seenAt {b : TokenBucket} {s t : ℚ} (hs : b.last ≤ s) (hst : s ≤ t) :
    (b.seenAt s).advance t = b.seenAt t := by
  have hflow : 0 ≤ (t - s) * b.refillRate := mul_nonneg (sub_nonneg.2 hst) b.refillRate_nonneg
  have hsum : (s - b.last) * b.refillRate + (t - s) * b.refillRate = (t - b.last) * b.refillRate := by ring
  unfold seenAt FlowBucket.advance
  rw [FlowBucket.mk.injEq]
  refine ⟨rfl, rfl, ?_, rfl⟩
  show topUp b.capacity (b.refill s).tokens ((t - s) * b.refillRate) = (b.refill t).tokens
  rw [refill_tokens hs, refill_tokens (le_trans hs hst), topUp_topUp _ _ _ hflow, hsum]

/-- A refilled bucket stands for itself. -/
theorem seenAt_refill {b : TokenBucket} {t : ℚ} (h : b.last ≤ t) : (b.refill t).seenAt t = b.seenAt t := by
  have hself : (b.refill t).refill t = b.refill t := refill_of_le (le_of_eq (refill_last h).symm)
  unfold seenAt
  rw [hself, refill_capacity, refill_refillRate]

theorem seenAt_of_last {b : TokenBucket} {t : ℚ} (h : b.last = t) : b.seenAt t = ⟨b.capacity, b.refillRate, b.tokens, t⟩ := by
  unfold seenAt
  rw [refill_tokens (le_of_eq h), h, sub_self, zero_mul, topUp_zero b.tokens_le]

/-- A grant: the level at the instant, less what was asked for. -/
theorem tryAcquire_of_le {b : TokenBucket} {q t : ℚ} (h : b.last ≤ t) (hq : 0 < q) (hle : q ≤ (b.refill t).tokens) :
    ∃ b', b.tryAcquire (.fin q) t = some (true, b') ∧ b'.last = t ∧
      b'.seenAt t = { b.seenAt t with level := (b.refill t).tokens - q } := by
  obtain ⟨b', hb, hlast, hc, hr, htok⟩ : ∃ b', b.tryAcquire (.fin q) t = some (true, b') ∧ b'.last = t ∧
      b'.capacity = b.capacity ∧ b'.refillRate = b.refillRate ∧ b'.tokens = (b.refill t).tokens - q := by
    simp only [tryAcquire, dif_pos hq, dif_pos hle]
    exact ⟨_, rfl, refill_last h, refill_capacity b t, refill_refillRate b t, rfl⟩
  refine ⟨b', hb, hlast, ?_⟩
  rw [seenAt_of_last hlast, hc, hr, htok]
  rfl

theorem tryAcquire_of_lt {b : TokenBucket} {q t : ℚ} (hq : 0 < q) (hlt : ¬ q ≤ (b.refill t).tokens) :
    b.tryAcquire (.fin q) t = some (false, b.refill t) := by
  simp only [tryAcquire, dif_pos hq, dif_neg hlt]

theorem tryAcquire_of_nonpos {b : TokenBucket} {q t : ℚ} (hq : ¬ 0 < q) : b.tryAcquire (.fin q) t = none := by
  simp only [tryAcquire, dif_neg hq]

/-- A refund goes in before the refill it did not wait for: the two top-ups commute. -/
theorem release_of_pos {b : TokenBucket} {q t : ℚ} (h : b.last ≤ t) (hq : 0 < q) :
    ∃ b', b.release (.fin q) = some b' ∧ b'.last = b.last ∧
      b'.seenAt t = { b.seenAt t with level := topUp b.capacity (b.refill t).tokens q } := by
  have hflow : 0 ≤ (t - b.last) * b.refillRate := mul_nonneg (sub_nonneg.2 h) b.refillRate_nonneg
  obtain ⟨b', hb, hlast, hc, hr, htok⟩ : ∃ b', b.release (.fin q) = some b' ∧ b'.last = b.last ∧
      b'.capacity = b.capacity ∧ b'.refillRate = b.refillRate ∧ b'.tokens = topUp b.capacity b.tokens q := by
    simp only [release, dif_pos hq]
    exact ⟨_, rfl, rfl, rfl, rfl, rfl⟩
  refine ⟨b', hb, hlast, ?_⟩
  have hlevel : (b'.refill t).tokens = topUp b.capacity (b.refill t).tokens q := by
    rw [refill_tokens (by rw [hlast]; exact h), refill_tokens h, hc, hr, hlast, htok]
    exact topUp_comm _ _ (le_of_lt hq) hflow
  unfold seenAt
  rw [hlevel, hc, hr]

theorem release_of_nonpos {b : TokenBucket} {q : ℚ} (hq : ¬ 0 < q) : b.release (.fin q) = none := by
  simp only [release, dif_neg hq]

/-- A try is a turn of `acquire` that has no time left. -/
theorem serve_tryAcquire (b : TokenBucket) (t q : ℚ) : b.serve t (.tryAcquire q) = b.serve t (.acquireRound q (some 0)) := by
  simp only [serve]
  cases b.tryAcquire (.fin q) t with
  | none => rfl
  | some r =>
    obtain ⟨ok, b'⟩ := r
    cases ok
    · exact Prod.ext (shortfall_zero b'.refillRate q b'.tokens).symm rfl
    · rfl

theorem acquireRound_seenAt {b : TokenBucket} {t : ℚ} (h : b.last ≤ t) (q : ℚ) (remaining : Option ℚ) :
    (b.seenAt t).serve (.acquireRound q remaining) =
        ((b.serve t (.acquireRound q remaining)).1, (b.serve t (.acquireRound q remaining)).2.seenAt t) ∧
      (b.serve t (.acquireRound q remaining)).2.last ≤ t := by
  simp only [serve, FlowBucket.serve]
  have hlevel : (b.seenAt t).level = (b.refill t).tokens := rfl
  by_cases hq : 0 < q
  · rw [if_neg (not_le.2 hq)]
    by_cases hle : q ≤ (b.refill t).tokens
    · obtain ⟨b', hb, hlast, hseen⟩ := tryAcquire_of_le h hq hle
      rw [hb, hlevel, if_pos hle]
      exact ⟨by rw [hseen], le_of_eq hlast⟩
    · rw [tryAcquire_of_lt hq hle, hlevel, if_neg hle]
      refine ⟨?_, le_of_eq (refill_last h)⟩
      show _ = (shortfall (b.refill t).refillRate q _ remaining, (b.refill t).seenAt t)
      rw [seenAt_refill h, refill_refillRate]
      rfl
  · rw [tryAcquire_of_nonpos hq, if_pos (not_lt.1 hq)]
    exact ⟨rfl, h⟩

/-- **One operation**: both buckets answer alike, and the lazy one goes on standing for the other. -/
theorem serve_seenAt {b : TokenBucket} {t : ℚ} (h : b.last ≤ t) (op : BucketOp) :
    (b.seenAt t).serve op = ((b.serve t op).1, (b.serve t op).2.seenAt t) ∧ (b.serve t op).2.last ≤ t := by
  cases op with
  | tokens =>
    refine ⟨?_, le_of_eq (refill_last h)⟩
    show _ = (_, (b.refill t).seenAt t)
    rw [seenAt_refill h]
    rfl
  | tryAcquire q =>
    rw [serve_tryAcquire, FlowBucket.serve_tryAcquire]
    exact acquireRound_seenAt h q (some 0)
  | acquireRound q remaining => exact acquireRound_seenAt h q remaining
  | release q =>
    simp only [serve, FlowBucket.serve]
    by_cases hq : 0 < q
    · obtain ⟨b', hb, hlast, hseen⟩ := release_of_pos h hq
      rw [hb, if_neg (not_le.2 hq)]
      exact ⟨by rw [hseen]; rfl, by rw [hlast]; exact h⟩
    · rw [release_of_nonpos hq, if_pos (not_lt.1 hq)]
      exact ⟨rfl, h⟩

/-! ## Runs -/

/-- The outcomes of the operations of a trace, when the token count is read at every instant that has none. -/
def probed (b : TokenBucket) : List (At (Option BucketOp)) → List BucketOutcome
  | [] => []
  | ⟨t, none⟩ :: is => (b.serve t .tokens).2.probed is
  | ⟨t, some op⟩ :: is => (b.serve t op).1 :: (b.serve t op).2.probed is

end TokenBucket

/-- The operations of a trace. -/
def asked : List (At (Option BucketOp)) → List (At BucketOp)
  | [] => []
  | ⟨_, none⟩ :: is => asked is
  | ⟨t, some op⟩ :: is => ⟨t, op⟩ :: asked is

namespace TokenBucket

theorem outcomes_asked : ∀ (trace : List (At (Option BucketOp))) {b : TokenBucket} {s : ℚ}, b.last ≤ s → Clocked s trace →
    b.outcomes (asked trace) = (b.seenAt s).outcomes trace
  | [], _, _, _, _ => rfl
  | ⟨t, none⟩ :: is, b, s, h, hc => by
    show b.outcomes (asked is) = ((b.seenAt s).advance t).outcomes is
    rw [advance_seenAt h hc.1]
    exact outcomes_asked is (le_trans h hc.1) hc.2
  | ⟨t, some op⟩ :: is, b, s, h, hc => by
    obtain ⟨hserve, hlast⟩ := serve_seenAt (le_trans h hc.1) op
    show _ :: (b.serve t op).2.outcomes (asked is) =
      (((b.seenAt s).advance t).serve op).1 :: (((b.seenAt s).advance t).serve op).2.outcomes is
    rw [advance_seenAt h hc.1, hserve, outcomes_asked is hlast hc.2]

theorem probed_eq : ∀ (trace : List (At (Option BucketOp))) {b : TokenBucket} {s : ℚ}, b.last ≤ s → Clocked s trace →
    b.probed trace = (b.seenAt s).outcomes trace
  | [], _, _, _, _ => rfl
  | ⟨t, none⟩ :: is, b, s, h, hc => by
    have ht := le_trans h hc.1
    show (b.refill t).probed is = ((b.seenAt s).advance t).outcomes is
    rw [advance_seenAt h hc.1, ← seenAt_refill ht]
    exact probed_eq is (le_of_eq (refill_last ht)) hc.2
  | ⟨t, some op⟩ :: is, b, s, h, hc => by
    obtain ⟨hserve, hlast⟩ := serve_seenAt (le_trans h hc.1) op
    show _ :: (b.serve t op).2.probed is =
      (((b.seenAt s).advance t).serve op).1 :: (((b.seenAt s).advance t).serve op).2.outcomes is
    rw [advance_seenAt h hc.1, hserve, probed_eq is hlast hc.2]

theorem init_spec {capacity refillRate start : ℚ} {b : TokenBucket} (hb : init capacity refillRate start = some b) :
    b.capacity = capacity ∧ b.refillRate = refillRate ∧ b.tokens = capacity ∧ b.last = start := by
  unfold init at hb
  split at hb
  · cases hb
    exact ⟨rfl, rfl, rfl, rfl⟩
  · cases hb

/-- **Lazy refill is continuous refill**: over every clocked trace the bucket answers as one refilled and capped at every
instant of it, and reading its count at further instants changes no answer. -/
theorem outcomes_eq_flow {capacity refillRate start : ℚ} {b : TokenBucket} (hb : init capacity refillRate start = some b)
    (trace : List (At (Option BucketOp))) (hc : Clocked start trace) :
    b.outcomes (asked trace) = (FlowBucket.mk capacity refillRate capacity start).outcomes trace ∧
      b.probed trace = b.outcomes (asked trace) := by
  obtain ⟨hcap, hrate, htok, hlast⟩ := init_spec hb
  have hseen : b.seenAt start = ⟨capacity, refillRate, capacity, start⟩ := by
    rw [seenAt_of_last hlast, hcap, hrate, htok]
  have hflow := outcomes_asked trace (le_of_eq hlast) hc
  refine ⟨by rw [hflow, hseen], ?_⟩
  rw [hflow, probed_eq trace (le_of_eq hlast) hc]

/-- A full bucket of five tokens, one a second. -/
def fiveTokens : TokenBucket := ⟨5, 1, 5, 0, by decide +kernel, by decide +kernel, by decide +kernel, le_refl 5⟩

theorem init_fiveTokens : init 5 1 0 = some fiveTokens := dif_pos ⟨by decide +kernel, by decide +kernel⟩

/-- Everything is taken; a refund of four after three seconds overflows; between them the count may be read or not. -/
def refundTrace : List (At (Option BucketOp)) :=
  [⟨1, some (.tryAcquire 5)⟩, ⟨2, none⟩, ⟨4, some (.release 4)⟩, ⟨4, none⟩, ⟨4, some (.tryAcquire 6)⟩,
    ⟨5, some .tokens⟩]

theorem outcomes_eq_flow_refund :
    fiveTokens.outcomes (asked refundTrace) = [.granted true, .released, .granted false, .count 5] ∧
      fiveTokens.outcomes (asked refundTrace) = (FlowBucket.mk 5 1 5 0).outcomes refundTrace ∧
      fiveTokens.probed refundTrace = fiveTokens.outcomes (asked refundTrace) := by
  have hc : Clocked 0 refundTrace := by norm_num [refundTrace, Clocked]
  refine ⟨by decide +kernel, outcomes_eq_flow init_fiveTokens refundTrace hc⟩

end TokenBucket

/-! ## What a window of a run grants -/

def taken : BucketOp → BucketOutcome → ℚ
  | .tryAcquire q, .granted true => q
  | .acquireRound q _, .granted true => q
  | _, _ => 0

def givenBack : BucketOp → BucketOutcome → ℚ
  | .release q, .released => q
  | _, _ => 0

/-- A quantity of the operations and their outcomes, summed over a run. -/
def total (f : BucketOp → BucketOutcome → ℚ) (es : List (At BucketOp)) (os : List BucketOutcome) : ℚ :=
  (List.zipWith (fun e o => f e.what o) es os).sum

/-- The last clock reading, from an earlier one on. -/
def lastClock {α : Type} : ℚ → List (At α) → ℚ
  | t, [] => t
  | _, e :: es => lastClock e.clock es

/-- The time between the first and the last reading of a window. -/
def elapsed {α : Type} : List (At α) → ℚ
  | [] => 0
  | e :: es => lastClock e.clock es - e.clock

theorem FlowBucket.acquireRound_constants (f : FlowBucket) (q : ℚ) (remaining : Option ℚ) :
    (f.serve (.acquireRound q remaining)).2.capacity = f.capacity ∧
      (f.serve (.acquireRound q remaining)).2.refillRate = f.refillRate := by
  simp only [serve]
  split
  · exact ⟨rfl, rfl⟩
  · split <;> exact ⟨rfl, rfl⟩

theorem FlowBucket.serve_constants (f : FlowBucket) (op : BucketOp) :
    (f.serve op).2.capacity = f.capacity ∧ (f.serve op).2.refillRate = f.refillRate := by
  cases op with
  | tokens => exact ⟨rfl, rfl⟩
  | tryAcquire q =>
    rw [serve_tryAcquire]
    exact acquireRound_constants f q (some 0)
  | acquireRound q remaining => exact acquireRound_constants f q remaining
  | release q =>
    simp only [serve]
    split <;> exact ⟨rfl, rfl⟩

theorem taken_shortfall (q refillRate available : ℚ) (remaining : Option ℚ) :
    taken (.acquireRound q remaining) (shortfall refillRate q available remaining) = 0 := by
  unfold shortfall
  cases remaining with
  | none => rfl
  | some r =>
    simp only
    split
    · rfl
    · split <;> rfl

theorem FlowBucket.acquireRound_level (f : FlowBucket) (q : ℚ) (remaining : Option ℚ) :
    taken (.acquireRound q remaining) (f.serve (.acquireRound q remaining)).1 +
      (f.serve (.acquireRound q remaining)).2.level ≤ f.level := by
  simp only [serve]
  split
  · exact le_of_eq (zero_add _)
  · split
    · simp [taken]
    · rw [taken_shortfall, zero_add]

theorem FlowBucket.serve_level (f : FlowBucket) (op : BucketOp) :
    taken op (f.serve op).1 + (f.serve op).2.level ≤ f.level + givenBack op (f.serve op).1 := by
  cases op with
  | tokens => exact le_of_eq (add_comm _ _)
  | tryAcquire q =>
    have htaken : ∀ o, taken (.tryAcquire q) o = taken (.acquireRound q (some 0)) o := by
      rintro (c | ⟨_ | _⟩ | s | _ | _) <;> rfl
    rw [serve_tryAcquire, htaken]
    exact le_of_le_of_eq (acquireRound_level f q (some 0)) (add_zero _).symm
  | acquireRound q remaining => exact le_of_le_of_eq (acquireRound_level f q remaining) (add_zero _).symm
  | release q =>
    simp only [serve]
    split
    · exact le_of_eq (add_comm _ _)
    · simpa [taken, givenBack] using topUp_le_add f.capacity f.level q

namespace TokenBucket

theorem serve_constants {b : TokenBucket} {t : ℚ} (h : b.last ≤ t) (op : BucketOp) :
    (b.serve t op).2.capacity = b.capacity ∧ (b.serve t op).2.refillRate = b.refillRate := by
  have hflow := (b.seenAt t).serve_constants op
  rw [(serve_seenAt h op).1] at hflow
  exact hflow

theorem serve_level {b : TokenBucket} {t : ℚ} (h : b.last ≤ t) (op : BucketOp) :
    taken op (b.serve t op).1 + ((b.serve t op).2.refill t).tokens ≤
      (b.refill t).tokens + givenBack op (b.serve t op).1 := by
  have hlevel := (b.seenAt t).serve_level op
  rw [(serve_seenAt h op).1] at hlevel
  exact hlevel

theorem refill_tokens_le {b : TokenBucket} {s t : ℚ} (hs : b.last ≤ s) (hst : s ≤ t) :
    (b.refill t).tokens ≤ (b.refill s).tokens + b.refillRate * (t - s) := by
  have hlevel := congrArg FlowBucket.level (advance_seenAt hs hst)
  have hle := topUp_le_add b.capacity (b.refill s).tokens ((t - s) * b.refillRate)
  rw [mul_comm b.refillRate]
  exact le_trans (le_of_eq hlevel.symm) hle

/-- **A window from its first instant**: what was there, what flowed in and what came back. -/
theorem total_taken_le : ∀ (w : List (At BucketOp)) {b : TokenBucket} {s : ℚ}, b.last ≤ s → Clocked s w →
    total taken w (b.outcomes w) ≤
      (b.refill s).tokens + b.refillRate * (lastClock s w - s) + total givenBack w (b.outcomes w)
  | [], b, s, _, _ => by
    simpa [total, lastClock, outcomes] using (b.refill s).tokens_nonneg
  | e :: es, b, s, h, hc => by
    have ht := le_trans h hc.1
    obtain ⟨-, hrate⟩ := serve_constants ht e.what
    have hrest := total_taken_le es (serve_seenAt ht e.what).2 hc.2
    have hstep := serve_level ht e.what
    have hflow := refill_tokens_le h hc.1
    rw [hrate] at hrest
    have hsplit : b.refillRate * (lastClock s (e :: es) - s) =
        b.refillRate * (lastClock e.clock es - e.clock) + b.refillRate * (e.clock - s) := by
      rw [← mul_add, sub_add_sub_cancel]
      rfl
    rw [hsplit]
    simp only [outcomes, total, List.zipWith_cons_cons, List.sum_cons] at hrest ⊢
    linarith

theorem after_spec : ∀ (es : List (At BucketOp)) {b : TokenBucket} {s : ℚ}, b.last ≤ s → Clocked s es →
    (b.after es).last ≤ lastClock s es ∧ (b.after es).capacity = b.capacity ∧ (b.after es).refillRate = b.refillRate
  | [], _, _, h, _ => ⟨h, rfl, rfl⟩
  | e :: es, b, s, h, hc => by
    obtain ⟨hcap, hrate⟩ := serve_constants (le_trans h hc.1) e.what
    obtain ⟨hl, hc', hr'⟩ := after_spec es (serve_seenAt (le_trans h hc.1) e.what).2 hc.2
    exact ⟨hl, hc'.trans hcap, hr'.trans hrate⟩

theorem clocked_append {α : Type} : ∀ (es fs : List (At α)) {s : ℚ}, Clocked s (es ++ fs) →
    Clocked s es ∧ Clocked (lastClock s es) fs
  | [], _, _, h => ⟨trivial, h⟩
  | e :: es, fs, _, h => by
    obtain ⟨h1, h2⟩ := clocked_append es fs h.2
    exact ⟨⟨h.1, h1⟩, h2⟩

/-- **The bucket keeps its bounds and its rate**: after every operation the count is between nothing and the capacity, and
every window of a run grants at most the capacity, what flows in over the window and what is given back in it. -/
theorem tokens_bounded_and_window_le {capacity refillRate start : ℚ} {b : TokenBucket}
    (hb : init capacity refillRate start = some b) (before window : List (At BucketOp))
    (hc : Clocked start (before ++ window)) :
    (0 ≤ (b.after (before ++ window)).tokens ∧ (b.after (before ++ window)).tokens ≤ capacity) ∧
      total taken window ((b.after before).outcomes window) ≤
        capacity + refillRate * elapsed window + total givenBack window ((b.after before).outcomes window) := by
  obtain ⟨hcap, hrate, -, hlast⟩ := init_spec hb
  obtain ⟨hc1, hc2⟩ := clocked_append before window hc
  refine ⟨⟨(b.after _).tokens_nonneg, ?_⟩, ?_⟩
  · have hle := (b.after (before ++ window)).tokens_le
    rw [(after_spec _ (le_of_eq hlast) hc).2.1, hcap] at hle
    exact hle
  · obtain ⟨hl, hcap', hrate'⟩ := after_spec before (le_of_eq hlast) hc1
    cases window with
    | nil =>
      have h0 := (b.after before).capacity_pos
      rw [hcap', hcap] at h0
      simpa [total, elapsed, outcomes] using le_of_lt h0
    | cons e es =>
      -- count from the first instant of the window, where the bucket holds at most its capacity
      have hw : Clocked e.clock (e :: es) := ⟨le_refl _, hc2.2⟩
      have hle := total_taken_le (e :: es) (le_trans hl hc2.1) hw
      have hfull := ((b.after before).refill e.clock).tokens_le
      rw [refill_capacity, hcap', hcap] at hfull
      rw [hrate', hrate] at hle
      have he : lastClock e.clock (e :: es) - e.clock = elapsed (e :: es) := rfl
      rw [he] at hle
      linarith

/-- A window that grants all it may: the capacity, one second of refill and a refund of two. -/
def refundWindow : List (At BucketOp) := [⟨1, .tryAcquire 5⟩, ⟨1, .release 2⟩, ⟨2, .tryAcquire 3⟩]

theorem tokens_bounded_and_window_le_refund :
    total taken refundWindow ((fiveTokens.after [⟨1, .tokens⟩]).outcomes refundWindow) = 8 ∧
      (0 ≤ (fiveTokens.after ([⟨1, .tokens⟩] ++ refundWindow)).tokens ∧
        (fiveTokens.after ([⟨1, .tokens⟩] ++ refundWindow)).tokens ≤ 5) ∧
      total taken refundWindow ((fiveTokens.after [⟨1, .tokens⟩]).outcomes refundWindow) ≤
        5 + 1 * elapsed refundWindow +
          total givenBack refundWindow ((fiveTokens.after [⟨1, .tokens⟩]).outcomes refundWindow) :=
  ⟨by decide +kernel, tokens_bounded_and_window_le init_fiveTokens [⟨1, .tokens⟩] refundWindow
    (by norm_num [Clocked, refundWindow])⟩

end TokenBucket

end Broker
end DevHarness
