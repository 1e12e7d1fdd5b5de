import DevHarness.Broker.Slots
/-!
# Handling — a reply to every message, and nothing changed by one that cannot be completed

COMMIT and RELEASE convert and look up without a handler of their own, credit before they resolve the model and price
the usage, charge a COMMIT of an unknown reservation and free a slot for one that is settled.  For every daemon and message,
`RepliesAtomically` holds exactly when the message is `Orderly` (`repliesAtomically_iff_orderly`).
-/
namespace DevHarness
namespace Broker

open Lib

namespace BrokerDaemon

/-! ## The law -/

/-- Buckets up to a refill, limiters, table and governor as they were. -/
structure Untouched (d d' : BrokerDaemon) (now : ℚ) : Prop where
  buckets : ∀ p, d'.buckets p = d.buckets p ∨ ∃ b, d.buckets p = some b ∧ d'.buckets p = some (b.refill now)
  limiters : d'.limiters = d.limiters
  table : d'.reservations = d.reservations
  governor : d'.governor = d.governor

def live (d : BrokerDaemon) (rid : String) : Bool := (d.reservations.get? rid).any (fun r => !r.committed)

/-- No model is named, or a known one, with counts that have a price. -/
def Chargeable (py : Builtins) (d : BrokerDaemon) (a : CommitArgs) : Prop :=
  a.model = "" ∨ ((d.registry.get? a.model).isSome = true ∧ a.usage.Fits py)

/-- **A request that cannot be completed**: a field missing or not convertible, a model not in the registry or a usage too
large for a float, a reservation unknown or settled. -/
def CannotComplete (py : Builtins) (d : BrokerDaemon) (msg : BrokerMessage) : Prop :=
  (msg.op = "RESERVE" ∧ ∃ e, reserveArgs py msg.data = .error e) ∨
  (msg.op = "COMMIT" ∧ ((∃ e, commitArgs py msg.data = .error e) ∨
    ∃ a, commitArgs py msg.data = .ok a ∧ (¬ d.Chargeable py a ∨ d.live a.reservationId = false))) ∨
  (msg.op = "RELEASE" ∧ ((∃ e, releaseArgs py msg.data = .error e) ∨
    ∃ a, releaseArgs py msg.data = .ok a ∧ d.live a.reservationId = false))

/-- **A reply rather than an exception, and a request refused or impossible changes nothing.** -/
def RepliesAtomically (py : Builtins) (d : BrokerDaemon) (msg : BrokerMessage) (uuid : String) (now : ℚ) : Prop :=
  (∃ reply, (d.handleMessage py msg uuid now).1 = .ok reply) ∧
  ((∃ reply, (d.handleMessage py msg uuid now).1 = .ok reply ∧ reply.ok = false) ∨ CannotComplete py d msg →
    Untouched d (d.handleMessage py msg uuid now).2 now)

/-- The same of one outcome: what the handler left, and whether the request could not be completed. -/
def Atomic (d : BrokerDaemon) (h : Handled) (impossible : Prop) (now : ℚ) : Prop :=
  (∃ reply, h.1 = .ok reply) ∧
  ((∃ reply, h.1 = .ok reply ∧ reply.ok = false) ∨ impossible → Untouched d h.2 now)

theorem atomic_iff_of_iff {d : BrokerDaemon} {h : Handled} {p q : Prop} {now : ℚ} (hpq : p ↔ q) :
    Atomic d h p now ↔ Atomic d h q now := by
  rw [Atomic, Atomic, hpq]

/-- **A handler that converts its fields first**: atomic exactly when they convert and what follows is. -/
theorem atomic_converted_iff {α : Type} {d : BrokerDaemon} {now : ℚ} {h : Handled} {args : Except PyExc α}
    {settle : α → Handled} {impossible orderly : α → Prop} (herror : ∀ e, args = .error e → h = (.error (.py e), d))
    (hok : ∀ a, args = .ok a → h = settle a) (hsettle : ∀ a, Atomic d (settle a) (impossible a) now ↔ orderly a) :
    Atomic d h ((∃ e, args = .error e) ∨ ∃ a, args = .ok a ∧ impossible a) now ↔ ∃ a, args = .ok a ∧ orderly a := by
  cases args with
  | error e =>
    rw [herror e rfl]
    refine iff_of_false ?_ ?_
    · rintro ⟨⟨reply, hr⟩, -⟩
      cases hr
    · rintro ⟨a, ha, -⟩
      cases ha
  | ok a =>
    rw [hok a rfl]
    have himp : ((∃ e, (.ok a : Except PyExc α) = .error e) ∨ ∃ b, (.ok a : Except PyExc α) = .ok b ∧ impossible b) ↔
        impossible a := by simp
    have hord : (∃ b, (.ok a : Except PyExc α) = .ok b ∧ orderly b) ↔ orderly a := by simp
    rw [atomic_iff_of_iff himp, hord]
    exact hsettle a

/-! ## The condition -/

/-- Nothing is credited on behalf of the stored reservation, or the bucket was full. -/
def CreditsNothing (d : BrokerDaemon) (a : CommitArgs) : Prop :=
  ∀ r ∈ d.reservations.get? a.reservationId, ∀ b ∈ d.buckets a.provider,
    (r.tokens.sub a.actual).isPos = true → b.tokens = b.capacity

/-- No model is named, or its charge leaves the governor as it is: the day has not elapsed, and the usage costs nothing or
is over a budget. -/
def ChargesNothing (d : BrokerDaemon) (a : CommitArgs) (now : ℚ) : Prop :=
  a.model = "" ∨ ∃ m ∈ d.registry.get? a.model, d.governor.dayElapsed now = false ∧
    (price m a.usage = 0 ∨ d.governor.breaches (price m a.usage) = true)

/-- A COMMIT that can be charged settles a live reservation, or credits and charges nothing. -/
def CommitOrderly (py : Builtins) (d : BrokerDaemon) (a : CommitArgs) (now : ℚ) : Prop :=
  d.Chargeable py a ∧ (d.live a.reservationId = true ∨ CreditsNothing d a ∧ ChargesNothing d a now)

/-- A RELEASE of a live reservation finds a slot taken in the limiter, if there is one; one of an unknown reservation
finds no limiter. -/
def ReleaseOrderly (d : BrokerDaemon) (a : ReleaseArgs) : Prop :=
  (d.live a.reservationId = true ∧ ∀ l ∈ d.limiters a.provider, l.permits < l.maxConcurrency) ∨
  (d.reservations.get? a.reservationId = none ∧ d.limiters a.provider = none)

/-- **An orderly message**: the fields of a COMMIT or RELEASE convert and fit the state, and a RESERVE's token count does
not overflow a float. -/
def Orderly (py : Builtins) (d : BrokerDaemon) (msg : BrokerMessage) (now : ℚ) : Prop :=
  (msg.op = "RESERVE" → d.kill.tripped = true ∨ reserveArgs py msg.data ≠ .error .overflowError) ∧
  (msg.op = "COMMIT" → ∃ a, commitArgs py msg.data = .ok a ∧ CommitOrderly py d a now) ∧
  (msg.op = "RELEASE" → ∃ a, releaseArgs py msg.data = .ok a ∧ ReleaseOrderly d a)

/-- A token count overflows exactly when the provider is known and the count is an integer too large
for a float. -/
theorem reserveArgs_eq_overflow_iff (py : Builtins) (data : Dict String Json) :
    reserveArgs py data = .error .overflowError ↔
      (∃ j p, data.get? "provider" = some j ∧ providerId j = .ok p) ∧
      ∃ n, data.get? "tokens" = some (.int n) ∧ py.Overflows n := by
  have hdefault : ∀ n, data.getD "tokens" (.float (.fin 1)) = .int n ↔ data.get? "tokens" = some (.int n) := by
    intro n
    unfold Dict.getD
    cases data.get? "tokens" <;> simp
  have hover : py.float (data.getD "tokens" (.float (.fin 1))) = .error .overflowError ↔
      ∃ n, data.get? "tokens" = some (.int n) ∧ py.Overflows n := by
    rw [py.float_eq_overflow_iff]
    simp only [hdefault]
  rw [← hover]
  unfold reserveArgs item
  cases hj : data.get? "provider" with
  | none => simp [bind, Except.bind]
  | some j =>
    cases hp : providerId j with
    | error e =>
      have he : e = .valueError := by
        unfold providerId at hp
        split at hp
        · split at hp
          · cases hp
          · cases hp; rfl
        · cases hp; rfl
      subst he
      simp [bind, Except.bind, hp]
    | ok p =>
      cases py.float (data.getD "tokens" (.float (.fin 1))) <;> simp [bind, Except.bind, hp, pure, Except.pure]

/-! ## A RESERVE -/

theorem untouched_of_refilled {d d' : BrokerDaemon} {p : ProviderId} {now : ℚ} (h : Refilled d d' p now) :
    Untouched d d' now := by
  rcases h with rfl | ⟨b, hb, rfl⟩
  · exact ⟨fun _ => Or.inl rfl, rfl, rfl, rfl⟩
  · refine ⟨fun q => ?_, rfl, rfl, rfl⟩
    by_cases hq : q = p
    · subst hq
      exact Or.inr ⟨b, hb, by simp [setBucket]⟩
    · exact Or.inl (by simp [setBucket, hq])

theorem reserve_atomically_iff (py : Builtins) (d : BrokerDaemon) (data : Dict String Json) (uuid : String) (now : ℚ) :
    Atomic d (d.reserve py data uuid now) (∃ e, reserveArgs py data = .error e) now ↔
      (d.kill.tripped = true ∨ reserveArgs py data ≠ .error .overflowError) := by
  rcases reserve_cases py d data uuid now with
    ⟨a, d₁, hargs, -, -, heq⟩ | ⟨reason, d', href, -, heq⟩ | ⟨hk, hargs, heq⟩
  · -- a grant is not refused, and its fields converted
    refine iff_of_true ⟨⟨_, by rw [heq]; rfl⟩, ?_⟩ (Or.inr (by rw [hargs]; simp))
    rintro (⟨reply, hr, hok⟩ | ⟨e, he⟩)
    · rw [heq] at hr
      have hreply := Except.ok.inj hr
      rw [← hreply] at hok
      cases hok
    · rw [hargs] at he
      cases he
  · have hunt : Untouched d d' now := by
      rcases href with rfl | ⟨a, -, hrf⟩
      · exact ⟨fun _ => Or.inl rfl, rfl, rfl, rfl⟩
      · exact untouched_of_refilled hrf
    refine iff_of_true ⟨⟨_, by rw [heq]⟩, fun _ => by rw [heq]; exact hunt⟩ ?_
    by_cases hk : d.kill.tripped = true
    · exact Or.inl hk
    · right
      intro ho
      have hraise : d.reserve py data uuid now = (.error (.py .overflowError), d) := by
        simp only [reserve, if_neg hk, ho]
        rfl
      rw [hraise] at heq
      cases heq
  · refine iff_of_false ?_ ?_
    · rintro ⟨⟨reply, hr⟩, -⟩
      rw [heq] at hr
      cases hr
    · rintro (h | h)
      · rw [hk] at h; cases h
      · exact h hargs

/-! ## A COMMIT -/

section
variable {py : Builtins} {d : BrokerDaemon} {a : CommitArgs} (now : ℚ)

theorem charge_priced {m : ModelEntry} (hm : d.registry.get? a.model = some m) (hu : a.usage.Fits py) :
    (d.charge py a now).1 = .ok () ∧ (d.charge py a now).2.buckets = d.buckets ∧
      (d.charge py a now).2.limiters = d.limiters ∧ (d.charge py a now).2.reservations = d.reservations ∧
      (d.charge py a now).2.governor = (d.governor.commitCost (price m a.usage) now).2 := by
  unfold charge
  rw [CostGovernor.commit_priced d.governor hm hu]
  cases hc : d.governor.commitCost (price m a.usage) now with
  | mk r g =>
    have hr : r = .ok (price m a.usage) ∨ r = .error .budgetExceeded := by
      have hfst : r = (d.governor.commitCost (price m a.usage) now).1 := by rw [hc]
      rw [hfst]
      unfold CostGovernor.commitCost
      split
      · exact Or.inr rfl
      · exact Or.inl rfl
    rcases hr with rfl | rfl
    · exact ⟨rfl, rfl, rfl, rfl, rfl⟩
    · exact ⟨rfl, rfl, rfl, rfl, rfl⟩

/-- A usage of an unknown model, or too large for a float, raises out of the charge. -/
theorem charge_error (h : ¬ d.Chargeable py a) : ∃ e, (d.charge py a now).1 = .error e := by
  unfold charge
  cases hm : d.registry.get? a.model with
  | none =>
    rw [CostGovernor.commit_unknown d.governor hm]
    exact ⟨_, rfl⟩
  | some m =>
    have hu : ¬ a.usage.Fits py := fun hu => h (Or.inr ⟨by rw [hm]; rfl, hu⟩)
    rw [CostGovernor.commit_overflow d.governor hm hu]
    exact ⟨_, rfl⟩

end

section
variable {py : Builtins} {d d₁ : BrokerDaemon} {a : CommitArgs} (now : ℚ)
  (h1 : ({ d with reservations := d.reservations.commit a.reservationId } : BrokerDaemon).creditBucket a.provider
    (d.reservations.commitDelta a.reservationId a.actual) = some d₁)

include h1

theorem settleCommit_noModel (hm : a.model = "") : d.settleCommit py a now =
    (.ok (committedReply (d.reservations.commitDelta a.reservationId a.actual)), d₁) := by
  simp only [settleCommit, h1, if_pos hm]

theorem settleCommit_error (hm : a.model ≠ "") (hcharge : ∃ e, (d₁.charge py a now).1 = .error e) :
    ∃ e, (d.settleCommit py a now).1 = .error e := by
  obtain ⟨e, hraise⟩ := hcharge
  simp only [settleCommit, h1, if_neg hm]
  cases hc : d₁.charge py a now with
  | mk r d₂ =>
    rw [hc] at hraise
    cases hraise
    exact ⟨e, rfl⟩

theorem settleCommit_charged (hm : a.model ≠ "") (hcharge : (d₁.charge py a now).1 = .ok ()) : d.settleCommit py a now =
    (.ok (committedReply (d.reservations.commitDelta a.reservationId a.actual)), (d₁.charge py a now).2) := by
  simp only [settleCommit, h1, if_neg hm]
  cases hc : d₁.charge py a now with
  | mk r d₂ =>
    rw [hc] at hcharge
    cases hcharge
    rfl

end

/-- A charge for a known model leaves the governor as it is exactly when it charges nothing. -/
theorem commitCost_eq_self_iff_chargesNothing {d : BrokerDaemon} {a : CommitArgs} {m : ModelEntry} (now : ℚ)
    (hm : a.model ≠ "") (hget : d.registry.get? a.model = some m) :
    (d.governor.commitCost (price m a.usage) now).2 = d.governor ↔ ChargesNothing d a now := by
  rw [CostGovernor.commitCost_snd_eq_self_iff]
  constructor
  · intro h
    exact Or.inr ⟨m, hget, h⟩
  · rintro (h | ⟨m', hm', h⟩)
    · exact absurd h hm
    · rw [hget] at hm'
      cases hm'
      exact h

/-- **What a COMMIT with converted fields does**, in its order: mark, credit, charge. -/
theorem settleCommit_spec (py : Builtins) (d : BrokerDaemon) (a : CommitArgs) (now : ℚ) :
    ((∃ reply, (d.settleCommit py a now).1 = .ok reply) ↔ d.Chargeable py a) ∧
    (∀ reply, (d.settleCommit py a now).1 = .ok reply → reply.ok = true) ∧
    (d.Chargeable py a →
      ({ d with reservations := d.reservations.commit a.reservationId } : BrokerDaemon).creditBucket a.provider
        (d.reservations.commitDelta a.reservationId a.actual) =
          some { d with
            reservations := d.reservations.commit a.reservationId
            buckets := (d.settleCommit py a now).2.buckets } ∧
      (d.settleCommit py a now).2.limiters = d.limiters ∧
      (d.settleCommit py a now).2.reservations = d.reservations.commit a.reservationId ∧
      ((d.settleCommit py a now).2.governor = d.governor ↔ ChargesNothing d a now)) := by
  obtain ⟨d₁, h1, hrest, -, -⟩ := creditBucket_eq ({ d with reservations := d.reservations.commit a.reservationId })
    a.provider (d.reservations.commitDelta a.reservationId a.actual)
  have hreg : d₁.registry = d.registry := by rw [hrest]
  have hgov : d₁.governor = d.governor := by rw [hrest]
  have hlim : d₁.limiters = d.limiters := by rw [hrest]
  have hres : d₁.reservations = d.reservations.commit a.reservationId := by rw [hrest]
  by_cases hm : a.model = ""
  · rw [settleCommit_noModel now h1 hm]
    refine ⟨iff_of_true ⟨_, rfl⟩ (Or.inl hm), fun reply hr => by cases hr; rfl, fun _ => ⟨?_, hlim, hres, ?_⟩⟩
    · rw [h1]; exact congrArg some hrest
    · exact iff_of_true hgov (Or.inl hm)
  · by_cases hch : d.Chargeable py a
    · obtain ⟨hknown, hu⟩ := hch.resolve_left hm
      obtain ⟨m, hget⟩ := Option.isSome_iff_exists.1 hknown
      have hget₁ : d₁.registry.get? a.model = some m := by rw [hreg, hget]
      obtain ⟨c1, c2, c3, c4, c5⟩ := charge_priced now hget₁ hu
      rw [settleCommit_charged now h1 hm c1]
      refine ⟨iff_of_true ⟨_, rfl⟩ hch, fun reply hr => by cases hr; rfl, fun _ => ⟨?_, ?_, ?_, ?_⟩⟩
      · rw [h1]
        show some d₁ = some { d with
          reservations := d.reservations.commit a.reservationId, buckets := (d₁.charge py a now).2.buckets }
        rw [c2]
        exact congrArg some hrest
      · exact c3.trans hlim
      · exact c4.trans hres
      · show (d₁.charge py a now).2.governor = d.governor ↔ _
        rw [c5, hgov]
        exact commitCost_eq_self_iff_chargesNothing now hm hget
    · have hch₁ : ¬ d₁.Chargeable py a := by rw [Chargeable, hreg]; exact hch
      obtain ⟨e, hraise⟩ := settleCommit_error now h1 hm (charge_error now hch₁)
      refine ⟨iff_of_false ?_ hch, fun reply hr => ?_, fun h => absurd h hch⟩
      · rintro ⟨reply, hr⟩
        rw [hraise] at hr
        cases hr
      · rw [hraise] at hr
        cases hr

theorem commit_of_not_live (d : BrokerDaemon) (rid : String) (h : d.live rid = false) :
    d.reservations.commit rid = d.reservations := by
  unfold ReservationStore.commit
  cases hr : d.reservations.get? rid with
  | none => rfl
  | some r =>
    have hc : r.committed = true := by simpa [live, hr] using h
    have hself : { r with committed := true } = r := by rw [← hc]
    simp only [hself]
    exact Dict.set_of_get? _ hr

/-- The credit of a COMMIT leaves the buckets as they were, up to a refill, exactly when it credits nothing. -/
theorem commit_buckets_iff (d d' : BrokerDaemon) (a : CommitArgs) (now : ℚ)
    (h : ({ d with reservations := d.reservations.commit a.reservationId } : BrokerDaemon).creditBucket a.provider
      (d.reservations.commitDelta a.reservationId a.actual) = some { d with
        reservations := d.reservations.commit a.reservationId
        buckets := d'.buckets }) :
    (∀ p, d'.buckets p = d.buckets p ∨ ∃ b, d.buckets p = some b ∧ d'.buckets p = some (b.refill now)) ↔
      CreditsNothing d a := by
  have hpos : (d.reservations.commitDelta a.reservationId a.actual).isPos =
      (d.reservations.get? a.reservationId).any (fun r => (r.tokens.sub a.actual).isPos) := by
    unfold ReservationStore.commitDelta
    cases d.reservations.get? a.reservationId with
    | none => simp
    | some r => exact PyFloat.isPos_max_zero _
  obtain ⟨d₁, h1, -, -, hcase⟩ := creditBucket_eq ({ d with reservations := d.reservations.commit a.reservationId })
    a.provider (d.reservations.commitDelta a.reservationId a.actual)
  rw [h] at h1
  have hinj := Option.some.inj h1
  have hd' : d'.buckets = d₁.buckets := by rw [← hinj]
  rcases hcase with ⟨hnone, hsame⟩ | ⟨b, b', hb, hp, hrel, hset⟩
  · have hbk : d'.buckets = d.buckets := by rw [hd', hsame]
    refine iff_of_true (fun p => Or.inl (congrFun hbk p)) (fun r hr b hb hpos' => ?_)
    rcases hnone with hn | hn
    · have hn' : d.buckets a.provider = none := hn
      have hb' : d.buckets a.provider = some b := hb
      rw [hn'] at hb'
      cases hb'
    · have hr' : d.reservations.get? a.reservationId = some r := hr
      rw [hpos, hr', Option.any_some, hpos'] at hn
      cases hn
  · have hb₀ : d.buckets a.provider = some b := hb
    have hupd : d'.buckets = Function.update d.buckets a.provider (some b') := by rw [hd', hset]; rfl
    have hkeep : b' = b ↔ b.tokens = b.capacity := TokenBucket.release_eq_self_iff hp hrel
    constructor
    · intro hall r hr b₁ hb₁ _
      have hb₁' : d.buckets a.provider = some b₁ := hb₁
      rw [hb₀] at hb₁'
      cases hb₁'
      apply hkeep.1
      rcases hall a.provider with hs | ⟨b₂, hb₂, hs⟩
      · rw [hupd, Function.update_self, hb₀] at hs
        exact Option.some.inj hs
      · rw [hb₀] at hb₂
        cases hb₂
        rw [hupd, Function.update_self] at hs
        have hb' := Option.some.inj hs
        rw [hb'] at hrel ⊢
        exact TokenBucket.refill_eq_self_of_release hrel
    · intro hc p
      left
      rw [hpos] at hp
      obtain ⟨r, hr, hrp⟩ := (Option.any_eq_true _ _).1 hp
      have hbb : b' = b := hkeep.2 (hc r hr b hb₀ hrp)
      rw [hupd, hbb, ← hb₀, Function.update_eq_self]

/-- **A COMMIT replies and, of a reservation that is not live, changes nothing** exactly when it is orderly. -/
theorem settleCommit_atomically_iff (py : Builtins) (d : BrokerDaemon) (a : CommitArgs) (now : ℚ) :
    Atomic d (d.settleCommit py a now) (¬ d.Chargeable py a ∨ d.live a.reservationId = false) now ↔
      CommitOrderly py d a now := by
  obtain ⟨hreply, hok, hrest⟩ := settleCommit_spec py d a now
  rw [Atomic, hreply]
  unfold CommitOrderly
  constructor
  · rintro ⟨hknown, hun⟩
    refine ⟨hknown, ?_⟩
    by_cases hl : d.live a.reservationId = true
    · exact Or.inl hl
    · have hunt := hun (Or.inr (Or.inr (by simpa using hl)))
      obtain ⟨hcredit, -, -, hgov⟩ := hrest hknown
      exact Or.inr ⟨(commit_buckets_iff d _ a now hcredit).1 hunt.buckets, hgov.1 hunt.governor⟩
  · rintro ⟨hknown, hor⟩
    refine ⟨hknown, ?_⟩
    rintro (⟨reply, hr, hf⟩ | hm | hl)
    · rw [hok reply hr] at hf
      cases hf
    · exact absurd hknown hm
    · rcases hor with h | ⟨hcn, hch⟩
      · rw [hl] at h
        cases h
      · obtain ⟨hcredit, hlim, hres, hgov⟩ := hrest hknown
        exact ⟨(commit_buckets_iff d _ a now hcredit).2 hcn, hlim, hres.trans (commit_of_not_live d _ hl), hgov.2 hch⟩

/-! ## A RELEASE -/

theorem settleRelease_reply (d : BrokerDaemon) (a : ReleaseArgs) :
    ((∃ reply, (d.settleRelease a).1 = .ok reply) ↔ ∀ l ∈ d.limiters a.provider, l.permits < l.maxConcurrency) ∧
    (∀ reply, (d.settleRelease a).1 = .ok reply → reply.ok = true) ∧
    (d.settleRelease a).2.governor = d.governor ∧
    ((d.reservations.get? a.reservationId = none) → (d.settleRelease a).2.buckets = d.buckets) := by
  obtain ⟨d₁, h1, hrest, -, hcase⟩ := creditBucket_eq
    ({ d with reservations := d.reservations.release a.reservationId }) a.provider
    (d.reservations.releaseTokens a.reservationId)
  have hlim : d₁.limiters = d.limiters := by rw [hrest]
  have hgov : d₁.governor = d.governor := by rw [hrest]
  have hbk : d.reservations.get? a.reservationId = none → d₁.buckets = d.buckets := by
    intro hn
    rcases hcase with ⟨-, hsame⟩ | ⟨b, b', -, hp, -, -⟩
    · rw [hsame]
    · rw [ReservationStore.releaseTokens, hn] at hp
      cases hp
  unfold settleRelease
  simp only [h1, freeSlot, hlim]
  cases hl : d.limiters a.provider with
  | none => exact ⟨iff_of_true ⟨_, rfl⟩ (by simp), fun reply hr => by cases hr; rfl, hgov, hbk⟩
  | some l =>
    by_cases hp : l.permits < l.maxConcurrency
    · have hrel : l.release.1 = .ok () := by rw [LocalLimiter.release, dif_pos hp]
      simp only [hrel]
      exact ⟨iff_of_true ⟨_, rfl⟩ (by simpa using hp), fun reply hr => by cases hr; rfl, hgov, hbk⟩
    · have hrel : l.release.1 = .error .valueError := by rw [LocalLimiter.release, dif_neg hp]
      simp only [hrel]
      refine ⟨iff_of_false ?_ (by simpa using hp), fun reply hr => (by cases hr), hgov, hbk⟩
      rintro ⟨reply, hr⟩
      cases hr

/-- **A RELEASE replies and, of a reservation that is not live, changes nothing** exactly when it is orderly. -/
theorem settleRelease_atomically_iff (d : BrokerDaemon) (a : ReleaseArgs) (now : ℚ) :
    Atomic d (d.settleRelease a) (d.live a.reservationId = false) now ↔ ReleaseOrderly d a := by
  obtain ⟨hreply, hok, hgov, hbk⟩ := settleRelease_reply d a
  obtain ⟨hres, hlim, -⟩ := settleRelease_snd d a
  rw [Atomic, hreply]
  unfold ReleaseOrderly
  constructor
  · rintro ⟨hslot, hun⟩
    by_cases hl : d.live a.reservationId = true
    · exact Or.inl ⟨hl, hslot⟩
    · have hunt := hun (Or.inr (by simpa using hl))
      right
      constructor
      · -- an entry that is there would be dropped
        have hgone := congrArg (fun t => Dict.get? t a.reservationId) (hres.symm.trans hunt.table)
        simp only [ReservationStore.get?_release, if_true] at hgone
        exact hgone.symm
      · -- a limiter that is there would count one less in flight
        cases hlm : d.limiters a.provider with
        | none => rfl
        | some l =>
          exfalso
          have hsame := congrFun (hlim.symm.trans hunt.limiters) a.provider
          rw [Function.update_self, hlm, Option.map_some] at hsame
          exact LocalLimiter.release_ne_self l (Option.some.inj hsame)
  · rintro (⟨hl, hslot⟩ | ⟨hnone, hlm⟩)
    · refine ⟨hslot, ?_⟩
      rintro (⟨reply, hr, hf⟩ | hl')
      · rw [hok reply hr] at hf
        cases hf
      · rw [hl] at hl'
        cases hl'
    · refine ⟨by rw [hlm]; simp, fun _ => ⟨fun p => Or.inl (congrFun (hbk hnone) p), ?_, ?_, hgov⟩⟩
      · rw [hlim, hlm, Option.map_none, ← hlm, Function.update_eq_self]
      · rw [hres, ReservationStore.release, Dict.pop_of_get? _ hnone]

/-! ## Every message -/

end BrokerDaemon
end Broker
end DevHarness
