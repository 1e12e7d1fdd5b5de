import DevHarness.Lib.Python
/-!
# Capacity — the token bucket and the local limiter (`broker/bucket.py`, `broker/local_limiter.py`)

A bucket refills lazily, at the clock reading a reader passes in.  The limiter is a bounded semaphore with two
counters beside it; its `release` decrements `in_flight` before the semaphore can refuse.
-/
namespace DevHarness
namespace Broker

open Lib

/-! ## The token bucket -/

@[ext] structure TokenBucket where
  capacity : ℚ
  refillRate : ℚ
  tokens : ℚ
  last : ℚ
  capacity_pos : 0 < capacity
  refillRate_nonneg : 0 ≤ refillRate
  tokens_nonneg : 0 ≤ tokens
  tokens_le : tokens ≤ capacity

namespace TokenBucket

/-- `TokenBucket(capacity, refill_rate)`; `none` is the `ValueError` of the constructor. -/
def init (capacity refillRate now : ℚ) : Option TokenBucket :=
  if h : 0 < capacity ∧ 0 ≤ refillRate then
    some ⟨capacity, refillRate, capacity, now, h.1, h.2, le_of_lt h.1, le_refl capacity⟩
  else none

def refill (b : TokenBucket) (now : ℚ) : TokenBucket :=
  if h : 0 < now - b.last then
    { b with
      tokens := min b.capacity (b.tokens + (now - b.last) * b.refillRate)
      last := now
      tokens_nonneg := le_min (le_of_lt b.capacity_pos)
        (add_nonneg b.tokens_nonneg (mul_nonneg (le_of_lt h) b.refillRate_nonneg))
      tokens_le := min_le_left _ _ }
  else b

/-- `try_acquire`; `none` is the `ValueError` of a count that is not positive. -/
def tryAcquire (b : TokenBucket) (tokens : PyFloat) (now : ℚ) : Option (Bool × TokenBucket) :=
  match tokens with
  | .fin q =>
    if hq : 0 < q then
      if h : q ≤ (b.refill now).tokens then
        some (true, { b.refill now with
          tokens := (b.refill now).tokens - q
          tokens_nonneg := sub_nonneg.2 h
          tokens_le := le_trans (sub_le_self _ (le_of_lt hq)) (b.refill now).tokens_le })
      else some (false, b.refill now)
    else none
  | .negInf => none
  | .inf => some (false, b.refill now)
  | .nan => some (false, b.refill now)

def release (b : TokenBucket) (tokens : PyFloat) : Option TokenBucket :=
  match tokens with
  | .fin q =>
    if hq : 0 < q then
      some { b with
        tokens := min b.capacity (b.tokens + q)
        tokens_nonneg := le_min (le_of_lt b.capacity_pos) (add_nonneg b.tokens_nonneg (le_of_lt hq))
        tokens_le := min_le_left _ _ }
    else none
  | .negInf => none
  | .inf => some { b with tokens := b.capacity, tokens_nonneg := le_of_lt b.capacity_pos, tokens_le := le_refl _ }
  | .nan => some { b with tokens := b.capacity, tokens_nonneg := le_of_lt b.capacity_pos, tokens_le := le_refl _ }

theorem fin_pos_of_tryAcquire {b b' : TokenBucket} {t : PyFloat} {now : ℚ}
    (h : b.tryAcquire t now = some (true, b')) : ∃ q, t = .fin q ∧ 0 < q := by
  cases t with
  | fin q =>
    simp only [tryAcquire] at h
    split at h
    · rename_i hq
      exact ⟨q, rfl, hq⟩
    · cases h
  | inf => simp [tryAcquire] at h
  | negInf => simp [tryAcquire] at h
  | nan => simp [tryAcquire] at h

theorem eq_refill_of_tryAcquire_false {b b' : TokenBucket} {t : PyFloat} {now : ℚ}
    (h : b.tryAcquire t now = some (false, b')) : b' = b.refill now := by
  cases t with
  | fin q =>
    simp only [tryAcquire] at h
    split at h
    · split at h
      · simp at h
      · simpa using h.symm
    · cases h
  | inf => simpa [tryAcquire] using h.symm
  | negInf => simp [tryAcquire] at h
  | nan => simpa [tryAcquire] using h.symm

/-- **Giving back what was just taken restores the refilled bucket.** -/
theorem release_of_tryAcquire {b b' : TokenBucket} {t : PyFloat} {now : ℚ}
    (h : b.tryAcquire t now = some (true, b')) : b'.release t = some (b.refill now) := by
  obtain ⟨q, rfl, hq⟩ := fin_pos_of_tryAcquire h
  simp only [tryAcquire, dif_pos hq] at h
  split at h
  · have hb : b' = _ := (Prod.mk.inj (Option.some.inj h)).2.symm
    subst hb
    simp only [release, dif_pos hq, Option.some.injEq]
    ext
    · rfl
    · rfl
    · have := (b.refill now).tokens_le
      simp [min_eq_right this]
    · rfl
  · simp at h

theorem release_isSome_of_isPos (b : TokenBucket) {t : PyFloat} (h : t.isPos = true) : ∃ b', b.release t = some b' := by
  cases t with
  | fin q =>
    have hq : 0 < q := by simpa using h
    simp [release, hq]
  | inf => simp [release]
  | negInf => cases h
  | nan => simp [release]

/-- A credit leaves a bucket as it was exactly when the bucket was full. -/
theorem release_eq_self_iff {b b' : TokenBucket} {t : PyFloat} (h : t.isPos = true) (hr : b.release t = some b') :
    b' = b ↔ b.tokens = b.capacity := by
  have hfull : b' = b ↔ b'.tokens = b.tokens := by
    constructor
    · intro he; rw [he]
    · intro ht
      cases t with
      | fin q =>
        have hq : 0 < q := by simpa using h
        simp only [release, dif_pos hq, Option.some.injEq] at hr
        subst hr; ext <;> first | rfl | exact ht
      | inf => simp only [release, Option.some.injEq] at hr; subst hr; ext <;> first | rfl | exact ht
      | negInf => cases h
      | nan => cases h
  rw [hfull]
  have hle := b.tokens_le
  cases t with
  | fin q =>
    have hq : 0 < q := by simpa using h
    simp only [release, dif_pos hq, Option.some.injEq] at hr
    subst hr
    show min b.capacity (b.tokens + q) = b.tokens ↔ _
    constructor
    · intro hm
      rcases min_choice b.capacity (b.tokens + q) with hc | hc
      · rw [hc] at hm; exact hm.symm
      · rw [hc] at hm; linarith
    · intro ht
      rw [ht]
      exact min_eq_left (by linarith)
  | inf =>
    simp only [release, Option.some.injEq] at hr
    subst hr
    exact eq_comm
  | negInf => cases h
  | nan => cases h

theorem release_last {b b' : TokenBucket} {t : PyFloat} (hr : b.release t = some b') : b'.last = b.last := by
  unfold release at hr
  split at hr
  · split at hr
    · cases hr; rfl
    · cases hr
  · cases hr
  · cases hr; rfl
  · cases hr; rfl

theorem refill_eq_self_of_release {b : TokenBucket} {t : PyFloat} {now : ℚ}
    (hr : b.release t = some (b.refill now)) : b.refill now = b := by
  have hlast := release_last hr
  unfold refill at hlast ⊢
  split
  · rename_i h
    rw [dif_pos h] at hlast
    have : now = b.last := hlast
    linarith
  · rfl

end TokenBucket

/-! ## The local limiter -/

@[ext] structure LocalLimiter where
  maxConcurrency : ℕ
  -- The value of the bounded semaphore.
  permits : ℕ
  inFlight : ℤ
  queueDepth : ℤ
  max_pos : 1 ≤ maxConcurrency
  permits_le : permits ≤ maxConcurrency

namespace LocalLimiter

def init (maxConcurrency : ℤ) : Option LocalLimiter :=
  if h : 1 ≤ maxConcurrency then
    some ⟨maxConcurrency.toNat, maxConcurrency.toNat, 0, 0, by omega, le_refl _⟩
  else none

/-- `acquire(timeout=0)`: the queue depth goes up before the semaphore is tried and down again either way. -/
def acquire (l : LocalLimiter) : Bool × LocalLimiter :=
  if 0 < l.permits then
    (true, { l with
      permits := l.permits - 1
      inFlight := l.inFlight + 1
      queueDepth := l.queueDepth + 1 - 1
      permits_le := le_trans (Nat.sub_le _ _) l.permits_le })
  else (false, { l with queueDepth := l.queueDepth + 1 - 1 })

/-- `release`: `in_flight` is decremented first, then the semaphore may raise `ValueError`. -/
def release (l : LocalLimiter) : Except PyExc Unit × LocalLimiter :=
  if h : l.permits < l.maxConcurrency then
    (.ok (), { l with permits := l.permits + 1, inFlight := l.inFlight - 1, permits_le := h })
  else (.error .valueError, { l with inFlight := l.inFlight - 1 })

theorem acquire_false {l l' : LocalLimiter} (h : l.acquire = (false, l')) : l' = l := by
  unfold acquire at h
  split at h
  · cases h
  · cases h
    ext <;> simp

theorem acquire_true {l l' : LocalLimiter} (h : l.acquire = (true, l')) :
    0 < l.permits ∧ l'.permits = l.permits - 1 ∧ l'.inFlight = l.inFlight + 1 ∧
      l'.maxConcurrency = l.maxConcurrency := by
  unfold acquire at h
  split at h
  · rename_i hp
    cases h
    exact ⟨hp, rfl, rfl, rfl⟩
  · cases h

theorem release_inFlight (l : LocalLimiter) : l.release.2.inFlight = l.inFlight - 1 := by
  unfold release; split <;> rfl

theorem release_ne_self (l : LocalLimiter) : l.release.2 ≠ l := by
  intro h
  have := congrArg LocalLimiter.inFlight h
  rw [release_inFlight] at this
  omega

end LocalLimiter
end Broker
end DevHarness
