import DevHarness.Broker.Daemon
/-!
# Handlers — what each handler can do

One inversion lemma a handler, on typed arguments: what RESERVE charges when it grants and that it only refills when
it refuses, what COMMIT and RELEASE leave of the table, the buckets and the limiters.  Every later law about a history
of messages cites these and unfolds no handler.
-/
namespace DevHarness
namespace Broker

open Lib

namespace BrokerDaemon

/-! ## RESERVE -/

/-- **A grant's charge**: the tokens taken from the provider's bucket and a slot from its limiter, when it has them. -/
structure Charged (d d₁ : BrokerDaemon) (a : ReserveArgs) (now : ℚ) : Prop where
  rest : d₁ = { d with buckets := d₁.buckets, limiters := d₁.limiters }
  bucket : (d.buckets a.provider = none ∧ d₁.buckets = d.buckets) ∨
    ∃ b b', d.buckets a.provider = some b ∧ b.tryAcquire a.tokens now = some (true, b') ∧
      d₁.buckets = Function.update d.buckets a.provider (some b')
  limiter : (d.limiters a.provider = none ∧ d₁.limiters = d.limiters) ∨
    ∃ l l', d.limiters a.provider = some l ∧ l.acquire = (true, l') ∧
      d₁.limiters = Function.update d.limiters a.provider (some l')

/-- The daemon up to a refill of one provider's bucket. -/
def Refilled (d d' : BrokerDaemon) (p : ProviderId) (now : ℚ) : Prop :=
  d' = d ∨ ∃ b, d.buckets p = some b ∧ d' = d.setBucket p (b.refill now)

theorem setLimiter_self (d : BrokerDaemon) (p : ProviderId) (l : LocalLimiter) (h : d.limiters p = some l) :
    d.setLimiter p l = d := by
  unfold setLimiter
  rw [← h, Function.update_eq_self]

theorem takeSlot_cases (d : BrokerDaemon) (a : ReserveArgs) (uuid : String) (now : ℚ) :
    (∃ d₁ : BrokerDaemon, d₁ = { d with limiters := d₁.limiters } ∧
      ((d.limiters a.provider = none ∧ d₁.limiters = d.limiters) ∨
        ∃ l l', d.limiters a.provider = some l ∧ l.acquire = (true, l') ∧
          d₁.limiters = Function.update d.limiters a.provider (some l')) ∧
      d.takeSlot a uuid now = d₁.grant a uuid now) ∨
    (∃ l, d.limiters a.provider = some l ∧ l.permits = 0 ∧ d.takeSlot a uuid now = d.giveBack a) := by
  unfold takeSlot
  cases hl : d.limiters a.provider with
  | none => exact Or.inl ⟨d, rfl, Or.inl ⟨rfl, rfl⟩, rfl⟩
  | some l =>
    dsimp only
    cases hacq : l.acquire with
    | mk got l' =>
      cases got with
      | true => exact Or.inl ⟨d.setLimiter a.provider l', rfl, Or.inr ⟨l, l', rfl, hacq, rfl⟩, rfl⟩
      | false =>
        refine Or.inr ⟨l, rfl, ?_, ?_⟩
        · unfold LocalLimiter.acquire at hacq
          split at hacq
          · cases hacq
          · omega
        · dsimp only
          rw [LocalLimiter.acquire_false hacq, d.setLimiter_self a.provider l hl]

/-- **What a RESERVE with converted fields does**: it grants and charges, or refuses and at most refills, or raises
`ValueError` with nothing done. -/
theorem takeTokens_cases (d : BrokerDaemon) (a : ReserveArgs) (uuid : String) (now : ℚ) :
    (∃ d₁, Charged d d₁ a now ∧ d.takeTokens a uuid now = d₁.grant a uuid now) ∨
    (∃ reason d', Refilled d d' a.provider now ∧
      (reason = "saturated" → ∃ l, d.limiters a.provider = some l ∧ l.permits = 0) ∧
      d.takeTokens a uuid now = (.ok (refuse "RESERVE" reason), d')) ∨
    d.takeTokens a uuid now = (.error (.py .valueError), d) := by
  unfold takeTokens
  cases hb : d.buckets a.provider with
  | none =>
    rcases takeSlot_cases d a uuid now with ⟨d₁, hrest, hlim, heq⟩ | ⟨l, hl, hp, heq⟩
    · have hbk : d₁.buckets = d.buckets := by rw [hrest]
      refine Or.inl ⟨d₁, ⟨?_, Or.inl ⟨hb, hbk⟩, hlim⟩, heq⟩
      rw [hbk]; exact hrest
    · rw [giveBack, hb] at heq
      exact Or.inr (Or.inl ⟨"saturated", d, Or.inl rfl, fun _ => ⟨l, hl, hp⟩, heq⟩)
  | some b =>
    dsimp only
    cases hacq : b.tryAcquire a.tokens now with
    | none => exact Or.inr (Or.inr rfl)
    | some r =>
      obtain ⟨got, b'⟩ := r
      cases got with
      | false =>
        refine Or.inr (Or.inl ⟨"rate_limited", _, Or.inr ⟨b, hb, rfl⟩, fun h => ?_, ?_⟩)
        · exact absurd h (by decide)
        · dsimp only
          rw [TokenBucket.eq_refill_of_tryAcquire_false hacq]
      | true =>
        rcases takeSlot_cases (d.setBucket a.provider b') a uuid now with ⟨d₁, hrest, hlim, heq⟩ | ⟨l, hl, hp, heq⟩
        · have hbk : d₁.buckets = Function.update d.buckets a.provider (some b') := by rw [hrest]; rfl
          refine Or.inl ⟨d₁, ⟨?_, Or.inr ⟨b, b', hb, hacq, hbk⟩, hlim⟩, heq⟩
          rw [hbk]; exact hrest
        · -- the charge is taken back: the bucket is the refilled one
          have hself : (d.setBucket a.provider b').buckets a.provider = some b' := by simp [setBucket]
          rw [giveBack, hself] at heq
          simp only [TokenBucket.release_of_tryAcquire hacq] at heq
          refine Or.inr (Or.inl ⟨"saturated", d.setBucket a.provider (b.refill now), Or.inr ⟨b, hb, rfl⟩,
            fun _ => ⟨l, hl, hp⟩, ?_⟩)
          dsimp only
          rw [heq]
          simp only [setBucket, Function.update_idem]

/-- What RESERVE does: a grant on converted fields, a refusal that at most refills, or an exception it does not catch,
which is an overflow of the token count. -/
theorem reserve_cases (py : Builtins) (d : BrokerDaemon) (data : Dict String Json) (uuid : String) (now : ℚ) :
    (∃ a d₁, reserveArgs py data = .ok a ∧ d.kill.tripped = false ∧ Charged d d₁ a now ∧
      d.reserve py data uuid now = d₁.grant a uuid now) ∨
    (∃ reason d', (d' = d ∨ ∃ a, reserveArgs py data = .ok a ∧ Refilled d d' a.provider now) ∧
      (reason = "saturated" → ∃ a l, reserveArgs py data = .ok a ∧ d.limiters a.provider = some l ∧ l.permits = 0) ∧
      d.reserve py data uuid now = (.ok (refuse "RESERVE" reason), d')) ∨
    (d.kill.tripped = false ∧ reserveArgs py data = .error .overflowError ∧
      d.reserve py data uuid now = (.error (.py .overflowError), d)) := by
  unfold reserve
  have hne : ∀ r : String, r ≠ "saturated" → r = "saturated" →
      ∃ a l, reserveArgs py data = .ok a ∧ d.limiters a.provider = some l ∧ l.permits = 0 := fun _ h h' => absurd h' h
  by_cases hk : d.kill.tripped = true
  · rw [if_pos hk]
    exact Or.inr (Or.inl ⟨"budget", d, Or.inl rfl, hne _ (by decide), rfl⟩)
  · have hk' : d.kill.tripped = false := by simpa using hk
    rw [if_neg hk]
    cases hargs : reserveArgs py data with
    | error e =>
      cases e with
      | overflowError => exact Or.inr (Or.inr ⟨hk', rfl, rfl⟩)
      | keyError => exact Or.inr (Or.inl ⟨"error", d, Or.inl rfl, by rw [← hargs]; exact hne _ (by decide), rfl⟩)
      | valueError => exact Or.inr (Or.inl ⟨"error", d, Or.inl rfl, by rw [← hargs]; exact hne _ (by decide), rfl⟩)
      | typeError => exact Or.inr (Or.inl ⟨"error", d, Or.inl rfl, by rw [← hargs]; exact hne _ (by decide), rfl⟩)
    | ok a =>
      simp only
      rcases takeTokens_cases d a uuid now with ⟨d₁, hch, heq⟩ | ⟨reason, d', href, hsat, heq⟩ | heq
      · exact Or.inl ⟨a, d₁, rfl, hk', hch, by rw [heq]; rfl⟩
      · refine Or.inr (Or.inl ⟨reason, d', Or.inr ⟨a, rfl, href⟩, fun h => ?_, by rw [heq]; rfl⟩)
        obtain ⟨l, hl⟩ := hsat h
        exact ⟨a, l, rfl, hl⟩
      · exact Or.inr (Or.inl ⟨"error", d, Or.inl rfl, fun h => absurd h (by decide), by rw [heq]; rfl⟩)

/-! ## Crediting a bucket -/

/-- **A credit never raises** and changes the one bucket it names, if there is one and the amount is positive. -/
theorem creditBucket_eq (d : BrokerDaemon) (p : ProviderId) (amount : PyFloat) :
    ∃ d', d.creditBucket p amount = some d' ∧ d' = { d with buckets := d'.buckets } ∧
      (∀ q, (d'.buckets q).isSome = (d.buckets q).isSome) ∧
      ((d.buckets p = none ∨ amount.isPos = false) ∧ d' = d ∨
        ∃ b b', d.buckets p = some b ∧ amount.isPos = true ∧ b.release amount = some b' ∧ d' = d.setBucket p b') := by
  unfold creditBucket
  cases hb : d.buckets p with
  | none => exact ⟨d, rfl, rfl, fun _ => rfl, Or.inl ⟨Or.inl rfl, rfl⟩⟩
  | some b =>
    by_cases hp : amount.isPos = true
    · obtain ⟨b', hb'⟩ := b.release_isSome_of_isPos hp
      refine ⟨d.setBucket p b', by simp [hp, hb'], rfl, fun q => ?_, Or.inr ⟨b, b', rfl, hp, hb', rfl⟩⟩
      by_cases hq : q = p
      · subst hq; simp [setBucket, hb]
      · simp [setBucket, hq]
    · have hp' : amount.isPos = false := by simpa using hp
      exact ⟨d, by simp [hp'], rfl, fun _ => rfl, Or.inl ⟨Or.inr hp', rfl⟩⟩

/-! ## COMMIT and RELEASE -/

theorem settleCommit_snd (py : Builtins) (d : BrokerDaemon) (a : CommitArgs) (now : ℚ) :
    (d.settleCommit py a now).2.reservations = d.reservations.commit a.reservationId ∧
    (d.settleCommit py a now).2.limiters = d.limiters ∧
    (∀ q, ((d.settleCommit py a now).2.buckets q).isSome = (d.buckets q).isSome) := by
  obtain ⟨d₁, h1, hrest, hsome, -⟩ := creditBucket_eq ({ d with reservations := d.reservations.commit a.reservationId })
    a.provider (d.reservations.commitDelta a.reservationId a.actual)
  have hr : d₁.reservations = d.reservations.commit a.reservationId := by rw [hrest]
  have hl : d₁.limiters = d.limiters := by rw [hrest]
  have hcharge : ((d₁.charge py a now).2.reservations = d₁.reservations ∧ (d₁.charge py a now).2.limiters = d₁.limiters ∧
      (d₁.charge py a now).2.buckets = d₁.buckets) := by
    unfold charge
    split <;> exact ⟨rfl, rfl, rfl⟩
  unfold settleCommit
  simp only [h1]
  by_cases hm : a.model = ""
  · rw [if_pos hm]; exact ⟨hr, hl, hsome⟩
  · rw [if_neg hm]
    obtain ⟨c1, c2, c3⟩ := hcharge
    cases hc : d₁.charge py a now with
    | mk r d₂ =>
      rw [hc] at c1 c2 c3
      cases r <;> exact ⟨c1.trans hr, c2.trans hl, fun q => by rw [← hsome q]; exact congrArg Option.isSome (congrFun c3 q)⟩

theorem freeSlot_snd (d : BrokerDaemon) (p : ProviderId) : (d.freeSlot p).2 =
    { d with limiters := Function.update d.limiters p ((d.limiters p).map (fun l => l.release.2)) } := by
  unfold freeSlot
  cases hl : d.limiters p with
  | none =>
    have hself : Function.update d.limiters p none = d.limiters := by rw [← hl, Function.update_eq_self]
    rw [Option.map_none, hself]
  | some l => rfl

theorem settleRelease_snd (d : BrokerDaemon) (a : ReleaseArgs) :
    (d.settleRelease a).2.reservations = d.reservations.release a.reservationId ∧
    (d.settleRelease a).2.limiters =
      Function.update d.limiters a.provider ((d.limiters a.provider).map (fun l => l.release.2)) ∧
    (∀ q, ((d.settleRelease a).2.buckets q).isSome = (d.buckets q).isSome) := by
  obtain ⟨d₁, h1, hrest, hsome, -⟩ := creditBucket_eq
    ({ d with reservations := d.reservations.release a.reservationId }) a.provider
    (d.reservations.releaseTokens a.reservationId)
  have hr : d₁.reservations = d.reservations.release a.reservationId := by rw [hrest]
  have hl : d₁.limiters = d.limiters := by rw [hrest]
  have hfree := freeSlot_snd d₁ a.provider
  rw [hl] at hfree
  unfold settleRelease
  simp only [h1]
  cases hc : d₁.freeSlot a.provider with
  | mk r d₂ =>
    rw [hc] at hfree
    have hd₂ : d₂ = _ := hfree
    subst hd₂
    cases r <;> exact ⟨hr, rfl, hsome⟩

/-! ## The dispatch -/

theorem handleMessage_reserve {py : Builtins} {msg : BrokerMessage} (hop : msg.op = "RESERVE") (d : BrokerDaemon)
    (uuid : String) (now : ℚ) : d.handleMessage py msg uuid now = d.reserve py msg.data uuid now := by
  have hH : msg.op ≠ "HEALTH" := by rw [hop]; decide
  rw [handleMessage, if_neg hH, if_pos hop]

theorem handleMessage_commit {py : Builtins} {msg : BrokerMessage} (hop : msg.op = "COMMIT") (d : BrokerDaemon)
    (uuid : String) (now : ℚ) : d.handleMessage py msg uuid now = d.commit py msg.data now := by
  have hH : msg.op ≠ "HEALTH" := by rw [hop]; decide
  have hR : msg.op ≠ "RESERVE" := by rw [hop]; decide
  rw [handleMessage, if_neg hH, if_neg hR, if_pos hop]

theorem handleMessage_release {py : Builtins} {msg : BrokerMessage} (hop : msg.op = "RELEASE") (d : BrokerDaemon)
    (uuid : String) (now : ℚ) : d.handleMessage py msg uuid now = d.release py msg.data := by
  have hH : msg.op ≠ "HEALTH" := by rw [hop]; decide
  have hR : msg.op ≠ "RESERVE" := by rw [hop]; decide
  have hC : msg.op ≠ "COMMIT" := by rw [hop]; decide
  rw [handleMessage, if_neg hH, if_neg hR, if_neg hC, if_pos hop]

/-- HEALTH, METRICS and unknown operations reply and read only. -/
theorem handleMessage_read (py : Builtins) {msg : BrokerMessage} (hR : msg.op ≠ "RESERVE") (hC : msg.op ≠ "COMMIT")
    (hL : msg.op ≠ "RELEASE") (d : BrokerDaemon) (uuid : String) (now : ℚ) :
    ∃ reply, d.handleMessage py msg uuid now = (.ok reply, d) := by
  unfold handleMessage
  rw [if_neg hR, if_neg hC, if_neg hL]
  split
  · exact ⟨_, rfl⟩
  · split <;> exact ⟨_, rfl⟩

theorem commit_ok {py : Builtins} {data : Dict String Json} {a : CommitArgs} (h : commitArgs py data = .ok a)
    (d : BrokerDaemon) (now : ℚ) : d.commit py data now = d.settleCommit py a now := by
  rw [commit, h]

theorem commit_error {py : Builtins} {data : Dict String Json} {e : PyExc} (h : commitArgs py data = .error e)
    (d : BrokerDaemon) (now : ℚ) : d.commit py data now = (.error (.py e), d) := by
  rw [commit, h]

theorem release_ok {py : Builtins} {data : Dict String Json} {a : ReleaseArgs} (h : releaseArgs py data = .ok a)
    (d : BrokerDaemon) : d.release py data = d.settleRelease a := by
  rw [release, h]

theorem release_error {py : Builtins} {data : Dict String Json} {e : PyExc} (h : releaseArgs py data = .error e)
    (d : BrokerDaemon) : d.release py data = (.error (.py e), d) := by
  rw [release, h]

end BrokerDaemon
end Broker
end DevHarness
