import DevHarness.Broker.Capacity
import DevHarness.Lib.Machine
import Mathlib.Tactic.Linarith
/-!
# Limiter — every history of calls on the local limiter (`broker/local_limiter.py`)

The calls are taken one after another, so a saturated semaphore stays so while an `acquire` waits.  Two paths leave the
counters wrong: `release` lowers `in_flight` before the semaphore can refuse, and an `OverflowError` of the semaphore
leaves `acquired` unbound, so that the `finally` block raises before it lowers `queue_depth`.
-/
namespace DevHarness
namespace Broker

open Lib

/-- A timeout the semaphore refuses to wait: more than `threading.TIMEOUT_MAX`. -/
def tooLong (timeoutMax : ℚ) : Option PyFloat → Bool
  | some (.fin q) => decide (0 < q ∧ timeoutMax < q)
  | some .inf => true
  | _ => false

/-- What `BoundedSemaphore.acquire(timeout=timeout)` does while nobody releases. -/
inductive SemOutcome where
  | acquired
  | timedOut
  | overflowError
  -- no timeout, or one that is neither positive nor ever past: the call does not return
  | blocked
  deriving DecidableEq

def semAcquire (timeoutMax : ℚ) (permits : ℕ) (timeout : Option PyFloat) : SemOutcome :=
  if 0 < permits then .acquired
  else if tooLong timeoutMax timeout = true then .overflowError
  else match timeout with
    | none => .blocked
    | some .nan => .blocked
    | some _ => .timedOut

inductive AcquireError where
  | unboundLocalError
  deriving DecidableEq

namespace LocalLimiter

theorem pred_permits_le (l : LocalLimiter) : l.permits - 1 ≤ l.maxConcurrency :=
  le_trans (Nat.sub_le _ _) l.permits_le

/-- `acquire(timeout)`; `none` is a call that does not return. -/
def acquireWithin (timeoutMax : ℚ) (timeout : Option PyFloat) (l : LocalLimiter) :
    Option (Except AcquireError Bool × LocalLimiter) :=
  match semAcquire timeoutMax l.permits timeout with
  | .acquired => some (.ok true, { l with
      permits := l.permits - 1
      inFlight := l.inFlight + 1
      queueDepth := l.queueDepth + 1 - 1
      permits_le := l.pred_permits_le })
  | .timedOut => some (.ok false, { l with queueDepth := l.queueDepth + 1 - 1 })
  -- `if not acquired` in the `finally` block reads a name that was never bound
  | .overflowError => some (.error .unboundLocalError, { l with queueDepth := l.queueDepth + 1 })
  | .blocked => none

end LocalLimiter

/-! ## Histories -/

inductive LimiterCall where
  | acquire (timeout : Option PyFloat)
  | release
  deriving DecidableEq

/-- **The limiter under any sequence of calls**, each one atomic. -/
def limiterCalls (timeoutMax : ℚ) : Machine LocalLimiter LimiterCall where
  step l
    | .acquire timeout => (l.acquireWithin timeoutMax timeout).map Prod.snd
    | .release => some l.release.2

structure Orderly (l : LocalLimiter) (call : LimiterCall) (l' : LocalLimiter) : Prop where
  coupled : l'.inFlight + l'.permits = l'.maxConcurrency
  inFlight_nonneg : 0 ≤ l'.inFlight
  inFlight_le : l'.inFlight ≤ l'.maxConcurrency
  queueDepth : l'.queueDepth = l.queueDepth
  refused : call = .release → l.release.1 ≠ .ok () → l' = l

/-- **A call made in turn**: a release while a slot is taken, an acquire that finds a slot or can wait its timeout. -/
def InTurn (timeoutMax : ℚ) (l : LocalLimiter) (call : LimiterCall) (_ : LocalLimiter) : Prop :=
  match call with
  | .acquire timeout => 0 < l.permits ∨ tooLong timeoutMax timeout = false
  | .release => l.permits < l.maxConcurrency

namespace LocalLimiter

def Coupled (l : LocalLimiter) : Prop := l.inFlight + l.permits = l.maxConcurrency

theorem coupled_of_init {maxConcurrency : ℤ} {l : LocalLimiter} (h : init maxConcurrency = some l) : l.Coupled := by
  unfold init at h
  split at h
  · cases h
    simp [Coupled]
  · cases h

theorem Coupled.range {l : LocalLimiter} (h : l.Coupled) : 0 ≤ l.inFlight ∧ l.inFlight ≤ l.maxConcurrency := by
  have hle := l.permits_le
  unfold Coupled at h
  omega

theorem Coupled.orderly {l l' : LocalLimiter} {call : LimiterCall} (h : l'.Coupled)
    (hq : l'.queueDepth = l.queueDepth) (href : call = .release → l.release.1 ≠ .ok () → l' = l) :
    Orderly l call l' :=
  ⟨h, h.range.1, h.range.2, hq, href⟩

/-- **An acquire that returns**: it took a free permit, or the counters are as they were, or the timeout was refused. -/
theorem acquireWithin_cases {timeoutMax : ℚ} {timeout : Option PyFloat} {l : LocalLimiter}
    {r : Except AcquireError Bool × LocalLimiter} (h : l.acquireWithin timeoutMax timeout = some r) :
    (r.1 = .ok true ∧ 0 < l.permits ∧ r.2.permits = l.permits - 1 ∧ r.2.inFlight = l.inFlight + 1 ∧
      r.2.queueDepth = l.queueDepth ∧ r.2.maxConcurrency = l.maxConcurrency) ∨
    (r.1 = .ok false ∧ l.permits = 0 ∧ tooLong timeoutMax timeout = false ∧ r.2 = l) ∨
    (r.1 = .error .unboundLocalError ∧ l.permits = 0 ∧ tooLong timeoutMax timeout = true ∧
      r.2.queueDepth = l.queueDepth + 1) := by
  unfold acquireWithin semAcquire at h
  by_cases hp : 0 < l.permits
  · rw [if_pos hp] at h
    cases h
    exact Or.inl ⟨rfl, hp, rfl, rfl, by simp, rfl⟩
  · have hzero : l.permits = 0 := Nat.eq_zero_of_not_pos hp
    rw [if_neg hp] at h
    by_cases hlong : tooLong timeoutMax timeout = true
    · rw [if_pos hlong] at h
      cases h
      exact Or.inr (Or.inr ⟨rfl, hzero, hlong, rfl⟩)
    · rw [if_neg hlong] at h
      have hsame : ({ l with queueDepth := l.queueDepth + 1 - 1 } : LocalLimiter) = l := by
        ext <;> simp
      have hshort : tooLong timeoutMax timeout = false := by simpa using hlong
      rcases timeout with - | (q | - | - | -)
      · cases h
      · cases h
        exact Or.inr (Or.inl ⟨rfl, hzero, hshort, hsame⟩)
      · exact absurd rfl hlong
      · cases h
        exact Or.inr (Or.inl ⟨rfl, hzero, hshort, hsame⟩)
      · cases h

theorem orderly_acquire_iff {timeoutMax : ℚ} {timeout : Option PyFloat} {l : LocalLimiter}
    {r : Except AcquireError Bool × LocalLimiter} (hc : l.Coupled)
    (h : l.acquireWithin timeoutMax timeout = some r) :
    Orderly l (.acquire timeout) r.2 ↔ 0 < l.permits ∨ tooLong timeoutMax timeout = false := by
  rcases acquireWithin_cases h with
    ⟨-, hp, hperm, hflight, hdepth, hmax⟩ | ⟨-, -, hshort, hsame⟩ | ⟨-, hp, hlong, hdepth⟩
  · refine iff_of_true (Coupled.orderly ?_ hdepth (fun hr => by cases hr)) (Or.inl hp)
    unfold Coupled at hc ⊢
    rw [hperm, hflight, hmax]
    omega
  · rw [hsame]
    exact iff_of_true (hc.orderly rfl (fun hr => by cases hr)) (Or.inr hshort)
  · refine iff_of_false (fun ho => ?_) ?_
    · have hq := ho.queueDepth
      omega
    · simp [hp, hlong]

/-- **A release is orderly exactly when a slot is taken**: otherwise it raises with `in_flight` lowered. -/
theorem orderly_release_iff {l : LocalLimiter} (hc : l.Coupled) :
    Orderly l .release l.release.2 ↔ l.permits < l.maxConcurrency := by
  by_cases hp : l.permits < l.maxConcurrency
  · refine iff_of_true ?_ hp
    have hok : l.release.1 = .ok () := by rw [release, dif_pos hp]
    refine Coupled.orderly ?_ ?_ (fun _ hne => absurd hok hne)
    · rw [release, dif_pos hp]
      unfold Coupled at hc ⊢
      push_cast
      linarith
    · rw [release, dif_pos hp]
  · refine iff_of_false (fun ho => ?_) hp
    have hraise : l.release.1 ≠ .ok () := by
      rw [release, dif_neg hp]
      exact nofun
    exact l.release_ne_self (ho.refused rfl hraise)

theorem orderly_iff_inTurn {timeoutMax : ℚ} {l l' : LocalLimiter} {call : LimiterCall} (hc : l.Coupled)
    (h : (limiterCalls timeoutMax).step l call = some l') : Orderly l call l' ↔ InTurn timeoutMax l call l' := by
  cases call with
  | acquire timeout =>
    obtain ⟨r, hr, rfl⟩ := Option.map_eq_some_iff.1 h
    exact orderly_acquire_iff hc hr
  | release =>
    cases h
    exact orderly_release_iff hc

/-- **Which histories keep the limiter in order.**  From a fresh limiter, every call leaves `in_flight` and the free
permits adding up to the bound, the queue depth as it was and, when it is a release that raises, everything as it was,
exactly along the histories whose releases are made while a slot is taken and whose acquires do not ask a saturated
semaphore to wait longer than it can. -/
theorem along_orderly_iff (timeoutMax : ℚ) (maxConcurrency : ℤ) (l : LocalLimiter) (hl : init maxConcurrency = some l)
    (calls : List LimiterCall) :
    (limiterCalls timeoutMax).Along Orderly l calls ↔ (limiterCalls timeoutMax).Along (InTurn timeoutMax) l calls :=
  (limiterCalls timeoutMax).along_iff_along Coupled (fun _ _ _ hc h => orderly_iff_inTurn hc h)
    (fun _ _ _ _ ho _ => ho.coupled) calls l (coupled_of_init hl)

theorem along_orderly_two : ∃ l, init 2 = some l ∧ (limiterCalls 9223372036).Along Orderly l
    [.acquire none, .acquire (some (.fin 5)), .acquire (some (.fin 0)), .release] := by
  refine ⟨_, rfl, (along_orderly_iff 9223372036 2 _ rfl _).2 ?_⟩
  simp [limiterCalls, Machine.Along, InTurn, LocalLimiter.acquireWithin, semAcquire, tooLong]

/-- **A release nobody acquired for**: the semaphore raises, and `in_flight` stays at -1. -/
theorem release_first : ∃ l, init 1 = some l ∧ l.release.1 = .error .valueError ∧ l.release.2.inFlight = -1 ∧
    l.release.2.permits = 1 ∧ ¬ (limiterCalls 9223372036).Along Orderly l [.release] := by
  refine ⟨_, rfl, rfl, rfl, rfl, fun h => ?_⟩
  have hstep := (Machine.along_cons_of_step (limiterCalls 9223372036) rfl []).1 h
  have hnonneg := hstep.1.inFlight_nonneg
  exact absurd hnonneg (by decide)

end LocalLimiter
end Broker
end DevHarness
