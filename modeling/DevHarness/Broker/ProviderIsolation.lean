import DevHarness.Broker.Client
import DevHarness.Lib.Noninterference
/-!
# ProviderIsolation — the providers behind one broker (`broker/daemon.py`, `providers/broker_routed.py`)

Every provider has a bucket and a limiter of its own; the reservation table and the kill switch are shared.  `Sharing`
relates the daemon that serves all providers to one that serves `p` alone.  A client settles its reservations under the
provider it reserved them for (`Proper`), and then the messages of the other providers keep the relation.
-/
namespace DevHarness
namespace Broker

open Lib BrokerDaemon

/-- The provider a message names. -/
def providerOf (data : Dict String Json) : Option ProviderId :=
  match item data "provider" with
  | .error _ => none
  | .ok j => (providerId j).toOption

def Event.concerns (p : ProviderId) : Event → Bool
  | .message msg _ _ => decide (msg.op ∈ ["RESERVE", "COMMIT", "RELEASE"] ∧ providerOf msg.data = some p)
  | .reap _ => true

/-- The daemon at its events; the reaper answers nothing. -/
def brokerService (py : Builtins) : Service BrokerDaemon Event (Option (Except Raised BrokerMessage)) where
  serve d
    | .message msg uuid now => (some (d.handleMessage py msg uuid now).1, (d.handleMessage py msg uuid now).2)
    | .reap now => (none, d.reap now)

/-- The reservation of this id, if it is in the table, was made for this provider. -/
def MadeFor (d : BrokerDaemon) (rid : String) (p : ProviderId) : Prop := ∀ r ∈ d.reservations.get? rid, r.provider = p

instance (d : BrokerDaemon) (rid : String) (p : ProviderId) : Decidable (MadeFor d rid p) :=
  inferInstanceAs (Decidable (∀ r ∈ d.reservations.get? rid, r.provider = p))

/-- **A proper message**: a RESERVE comes before the switch trips and is given an id no reservation has; a COMMIT or a
RELEASE names the provider its reservation was made for. -/
def Proper (py : Builtins) (d : BrokerDaemon) : Event → Prop
  | .message msg uuid _ =>
    (msg.op = "RESERVE" → d.kill.tripped = false ∧ d.reservations.get? uuid = none) ∧
    (msg.op = "COMMIT" → ∀ a ∈ (commitArgs py msg.data).toOption, MadeFor d a.reservationId a.provider) ∧
    (msg.op = "RELEASE" → ∀ a ∈ (releaseArgs py msg.data).toOption, MadeFor d a.reservationId a.provider)
  | .reap _ => True

instance (py : Builtins) (d : BrokerDaemon) : ∀ ev, Decidable (Proper py d ev)
  | .message _ _ _ => inferInstanceAs (Decidable ((_ → _ ∧ _) ∧ (_ → ∀ a ∈ (commitArgs py _).toOption, _) ∧
      (_ → ∀ a ∈ (releaseArgs py _).toOption, _)))
  | .reap _ => isTrue trivial

/-- Before the switch trips. -/
def Untripped (d : BrokerDaemon) : Event → Prop
  | .message msg _ _ => msg.op = "RESERVE" → d.kill.tripped = false
  | .reap _ => True

instance (d : BrokerDaemon) : ∀ ev, Decidable (Untripped d ev)
  | .message _ _ _ => inferInstanceAs (Decidable (_ → _))
  | .reap _ => isTrue trivial

/-- **The daemon of all providers, seen from one**: its bucket, its limiter and its reservations. -/
structure Sharing (p : ProviderId) (d e : BrokerDaemon) : Prop where
  bucket : d.buckets p = e.buckets p
  limiter : d.limiters p = e.limiters p
  registry : d.registry = e.registry
  table : ∀ rid, e.reservations.get? rid = (d.reservations.get? rid).filter (fun r => decide (r.provider = p))

theorem filter_of_eq {r : Reservation} {p : ProviderId} (h : r.provider = p) :
    (some r).filter (fun r => decide (r.provider = p)) = some r := by
  simp [Option.filter, h]

theorem filter_of_ne {r : Reservation} {p : ProviderId} (h : r.provider ≠ p) :
    (some r).filter (fun r => decide (r.provider = p)) = none := by
  simp [Option.filter, h]

/-! ## What the handlers write, on both sides -/

section Both

variable {p : ProviderId} {d e : BrokerDaemon}

theorem Sharing.setBucket (h : Sharing p d e) (b : TokenBucket) : Sharing p (d.setBucket p b) (e.setBucket p b) where
  bucket := by simp [BrokerDaemon.setBucket]
  limiter := h.limiter
  registry := h.registry
  table := h.table

theorem Sharing.setLimiter (h : Sharing p d e) (l : LocalLimiter) : Sharing p (d.setLimiter p l) (e.setLimiter p l) where
  bucket := h.bucket
  limiter := by simp [BrokerDaemon.setLimiter]
  registry := h.registry
  table := h.table

/-- The entry of a reservation made for the provider is the same in both tables. -/
theorem Sharing.get? (h : Sharing p d e) {rid : String} (hrid : MadeFor d rid p) :
    e.reservations.get? rid = d.reservations.get? rid := by
  rw [h.table rid]
  cases hr : d.reservations.get? rid with
  | none => rfl
  | some r => exact filter_of_eq (hrid r hr)

theorem Sharing.create (h : Sharing p d e) {r : Reservation} (hr : r.provider = p) :
    Sharing p { d with reservations := d.reservations.create r } { e with reservations := e.reservations.create r } where
  bucket := h.bucket
  limiter := h.limiter
  registry := h.registry
  table rid := by
    dsimp only
    rw [ReservationStore.create, ReservationStore.create, Dict.get?_set, Dict.get?_set]
    split
    · exact (filter_of_eq hr).symm
    · exact h.table rid

theorem Sharing.commit (h : Sharing p d e) {rid : String} (hrid : MadeFor d rid p) :
    Sharing p { d with reservations := d.reservations.commit rid } { e with reservations := e.reservations.commit rid } where
  bucket := h.bucket
  limiter := h.limiter
  registry := h.registry
  table a := by
    dsimp only
    rw [ReservationStore.get?_commit, ReservationStore.get?_commit]
    split
    · rename_i ha
      subst ha
      rw [h.get? hrid]
      cases hr : d.reservations.get? a with
      | none => rfl
      | some r => exact (filter_of_eq (r := { r with committed := true }) (hrid r hr)).symm
    · exact h.table a

theorem Sharing.release (h : Sharing p d e) (rid : String) :
    Sharing p { d with reservations := d.reservations.release rid } { e with reservations := e.reservations.release rid } where
  bucket := h.bucket
  limiter := h.limiter
  registry := h.registry
  table a := by
    dsimp only
    rw [ReservationStore.get?_release, ReservationStore.get?_release]
    split
    · rfl
    · exact h.table a

theorem Sharing.reap (h : Sharing p d e) (now : ℚ) : Sharing p (d.reap now) (e.reap now) where
  bucket := h.bucket
  limiter := h.limiter
  registry := h.registry
  table a := by
    unfold BrokerDaemon.reap
    dsimp only
    rw [ReservationStore.get?_reapExpired, ReservationStore.get?_reapExpired, h.table a, Option.filter_filter,
      Option.filter_filter]
    congr 1
    funext r
    exact Bool.and_comm _ _

end Both

/-! ## What the handlers write for another provider -/

section Other

variable {p q : ProviderId} {d e : BrokerDaemon}

theorem Sharing.setBucket_of_ne (h : Sharing p d e) (hq : q ≠ p) (b : TokenBucket) : Sharing p (d.setBucket q b) e where
  bucket := by simp [BrokerDaemon.setBucket, hq.symm, h.bucket]
  limiter := h.limiter
  registry := h.registry
  table := h.table

theorem Sharing.setLimiter_of_ne (h : Sharing p d e) (hq : q ≠ p) (l : LocalLimiter) : Sharing p (d.setLimiter q l) e where
  bucket := h.bucket
  limiter := by simp [BrokerDaemon.setLimiter, hq.symm, h.limiter]
  registry := h.registry
  table := h.table

/-- A reservation of another provider is not in the table of this one. -/
theorem Sharing.get?_of_ne (h : Sharing p d e) (hq : q ≠ p) {rid : String} (hrid : MadeFor d rid q) :
    e.reservations.get? rid = none := by
  rw [h.table rid]
  cases hr : d.reservations.get? rid with
  | none => rfl
  | some r => exact filter_of_ne (fun he => hq ((hrid r hr).symm.trans he))

theorem Sharing.create_of_ne (h : Sharing p d e) {r : Reservation} (hr : r.provider ≠ p)
    (hfresh : d.reservations.get? r.reservationId = none) :
    Sharing p { d with reservations := d.reservations.create r } e where
  bucket := h.bucket
  limiter := h.limiter
  registry := h.registry
  table rid := by
    dsimp only
    rw [ReservationStore.create, Dict.get?_set]
    split
    · rename_i hrid
      subst hrid
      rw [h.table, hfresh]
      exact (filter_of_ne hr).symm
    · exact h.table rid

theorem Sharing.commit_of_ne (h : Sharing p d e) (hq : q ≠ p) {rid : String} (hrid : MadeFor d rid q) :
    Sharing p { d with reservations := d.reservations.commit rid } e where
  bucket := h.bucket
  limiter := h.limiter
  registry := h.registry
  table a := by
    dsimp only
    rw [ReservationStore.get?_commit]
    split
    · rename_i ha
      subst ha
      rw [h.get?_of_ne hq hrid]
      cases hr : d.reservations.get? a with
      | none => rfl
      | some r => exact (filter_of_ne (r := { r with committed := true }) (fun he => hq ((hrid r hr).symm.trans he))).symm
    · exact h.table a

theorem Sharing.release_of_ne (h : Sharing p d e) (hq : q ≠ p) {rid : String} (hrid : MadeFor d rid q) :
    Sharing p { d with reservations := d.reservations.release rid } e where
  bucket := h.bucket
  limiter := h.limiter
  registry := h.registry
  table a := by
    dsimp only
    rw [ReservationStore.get?_release]
    split
    · rename_i ha
      subst ha
      rw [h.get?_of_ne hq hrid]
      rfl
    · exact h.table a

end Other

/-- The relation reads four fields of the daemon. -/
theorem Sharing.of_fields {p : ProviderId} {d d' e e' : BrokerDaemon} (h : Sharing p d e)
    (hd : d'.buckets = d.buckets ∧ d'.limiters = d.limiters ∧ d'.reservations = d.reservations ∧ d'.registry = d.registry)
    (he : e'.buckets = e.buckets ∧ e'.limiters = e.limiters ∧ e'.reservations = e.reservations ∧ e'.registry = e.registry) :
    Sharing p d' e' where
  bucket := by rw [hd.1, he.1, h.bucket]
  limiter := by rw [hd.2.1, he.2.1, h.limiter]
  registry := by rw [hd.2.2.2, he.2.2.2, h.registry]
  table := by rw [hd.2.2.1, he.2.2.1]; exact h.table

/-! ## RESERVE -/

/-- Handled alike: the same reply or exception, and the relation again. -/
def HandledAlike (p : ProviderId) (x y : Handled) : Prop := x.1 = y.1 ∧ Sharing p x.2 y.2

section Reserve

variable {d e : BrokerDaemon} {a : ReserveArgs}

theorem grant_alike (h : Sharing a.provider d e) (uuid : String) (now : ℚ) :
    HandledAlike a.provider (d.grant a uuid now) (e.grant a uuid now) := ⟨rfl, h.create rfl⟩

theorem giveBack_alike (h : Sharing a.provider d e) : HandledAlike a.provider (d.giveBack a) (e.giveBack a) := by
  unfold giveBack
  rw [h.bucket]
  cases e.buckets a.provider with
  | none => exact ⟨rfl, h⟩
  | some b =>
    dsimp only
    cases b.release a.tokens with
    | none => exact ⟨rfl, h⟩
    | some b' => exact ⟨rfl, h.setBucket b'⟩

theorem takeSlot_alike (h : Sharing a.provider d e) (uuid : String) (now : ℚ) :
    HandledAlike a.provider (d.takeSlot a uuid now) (e.takeSlot a uuid now) := by
  unfold takeSlot
  rw [h.limiter]
  cases e.limiters a.provider with
  | none => exact grant_alike h uuid now
  | some l =>
    dsimp only
    obtain ⟨got, l'⟩ := l.acquire
    cases got with
    | true => exact grant_alike (h.setLimiter l') uuid now
    | false => exact giveBack_alike (h.setLimiter l')

theorem takeTokens_alike (h : Sharing a.provider d e) (uuid : String) (now : ℚ) :
    HandledAlike a.provider (d.takeTokens a uuid now) (e.takeTokens a uuid now) := by
  unfold takeTokens
  rw [h.bucket]
  cases e.buckets a.provider with
  | none => exact takeSlot_alike h uuid now
  | some b =>
    dsimp only
    cases b.tryAcquire a.tokens now with
    | none => exact ⟨rfl, h⟩
    | some r =>
      obtain ⟨got, b'⟩ := r
      cases got with
      | true => exact takeSlot_alike (h.setBucket b') uuid now
      | false => exact ⟨rfl, h.setBucket b'⟩

theorem exceptReserve_alike {p : ProviderId} {x y : Handled} (h : HandledAlike p x y) :
    HandledAlike p (exceptReserve x) (exceptReserve y) := by
  obtain ⟨r, d⟩ := x
  obtain ⟨r', e⟩ := y
  obtain ⟨hr, hs⟩ := h
  obtain rfl : r = r' := hr
  cases r with
  | ok reply => exact ⟨rfl, hs⟩
  | error e =>
    cases e with
    | py e => cases e <;> exact ⟨rfl, hs⟩
    | unknownModel m => exact ⟨rfl, hs⟩
    | budgetExceeded => exact ⟨rfl, hs⟩

theorem providerOf_of_item {data : Dict String Json} {j : Json} {p : ProviderId} (hj : item data "provider" = .ok j)
    (hp : providerId j = .ok p) : providerOf data = some p := by
  rw [providerOf, hj]
  dsimp only
  rw [hp]
  rfl

theorem providerOf_of_reserveArgs {py : Builtins} {data : Dict String Json} (h : reserveArgs py data = .ok a) :
    providerOf data = some a.provider := by
  unfold reserveArgs at h
  cases hj : item data "provider" with
  | error e => rw [hj] at h; cases h
  | ok j =>
    cases hp : providerId j with
    | error e => rw [hj] at h; simp only [bind, Except.bind, hp] at h; cases h
    | ok q =>
      cases ht : py.float (data.getD "tokens" (.float (.fin 1))) with
      | error e => rw [hj] at h; simp only [bind, Except.bind, hp, ht] at h; cases h
      | ok t =>
        rw [hj] at h
        simp only [bind, Except.bind, hp, ht, pure, Except.pure, Except.ok.injEq] at h
        rw [providerOf_of_item hj hp, ← h]

theorem reserve_alike {p : ProviderId} {py : Builtins} {data : Dict String Json} (h : Sharing p d e)
    (hd : d.kill.tripped = false) (he : e.kill.tripped = false) (hp : providerOf data = some p) (uuid : String) (now : ℚ) :
    HandledAlike p (d.reserve py data uuid now) (e.reserve py data uuid now) := by
  unfold reserve
  rw [hd, he]
  refine exceptReserve_alike ?_
  cases hargs : reserveArgs py data with
  | error x => exact ⟨rfl, h⟩
  | ok a =>
    obtain rfl : a.provider = p := Option.some.inj ((providerOf_of_reserveArgs hargs).symm.trans hp)
    exact takeTokens_alike h uuid now

theorem Sharing.charged {p : ProviderId} {d₁ : BrokerDaemon} {now : ℚ} (h : Sharing p d e) (hne : a.provider ≠ p)
    (hc : Charged d d₁ a now) : Sharing p d₁ e := by
  have hres : d₁.reservations = d.reservations := by rw [hc.rest]
  have hreg : d₁.registry = d.registry := by rw [hc.rest]
  refine ⟨?_, ?_, hreg.trans h.registry, by rw [hres]; exact h.table⟩
  · rcases hc.bucket with ⟨-, hb⟩ | ⟨b, b', -, -, hb⟩
    · rw [hb, h.bucket]
    · rw [hb, Function.update_of_ne hne.symm, h.bucket]
  · rcases hc.limiter with ⟨-, hl⟩ | ⟨l, l', -, -, hl⟩
    · rw [hl, h.limiter]
    · rw [hl, Function.update_of_ne hne.symm, h.limiter]

theorem reserve_frame {p : ProviderId} {py : Builtins} {data : Dict String Json} (h : Sharing p d e)
    (hp : providerOf data ≠ some p) (uuid : String) (hfresh : d.reservations.get? uuid = none) (now : ℚ) :
    Sharing p (d.reserve py data uuid now).2 e := by
  have hne : ∀ a, reserveArgs py data = .ok a → a.provider ≠ p := by
    intro a hargs he
    exact hp (by rw [providerOf_of_reserveArgs hargs, he])
  rcases reserve_cases py d data uuid now with ⟨a, d₁, hargs, -, hc, heq⟩ | ⟨reason, d', href, -, heq⟩ | ⟨-, -, heq⟩
  · rw [heq]
    refine (h.charged (hne a hargs) hc).create_of_ne (hne a hargs) ?_
    rw [hc.rest]
    exact hfresh
  · rw [heq]
    rcases href with rfl | ⟨a, hargs, rfl | ⟨b, -, rfl⟩⟩
    · exact h
    · exact h
    · exact h.setBucket_of_ne (hne a hargs) _
  · rw [heq]
    exact h

end Reserve

/-! ## COMMIT and RELEASE -/

section Settle

variable {p q : ProviderId} {d e : BrokerDaemon}

theorem creditBucket_alike (h : Sharing p d e) (amount : PyFloat) :
    ∃ d₁ e₁, d.creditBucket p amount = some d₁ ∧ e.creditBucket p amount = some e₁ ∧ Sharing p d₁ e₁ := by
  unfold creditBucket
  rw [h.bucket]
  cases e.buckets p with
  | none => exact ⟨d, e, rfl, rfl, h⟩
  | some b =>
    by_cases hpos : amount.isPos = true
    · obtain ⟨b', hb'⟩ := b.release_isSome_of_isPos hpos
      exact ⟨d.setBucket p b', e.setBucket p b', by simp [hpos, hb'], by simp [hpos, hb'], h.setBucket b'⟩
    · exact ⟨d, e, by simp [hpos], by simp [hpos], h⟩

theorem creditBucket_frame (h : Sharing p d e) (hq : q ≠ p) (amount : PyFloat) :
    ∃ d₁, d.creditBucket q amount = some d₁ ∧ Sharing p d₁ e := by
  obtain ⟨d₁, hd₁, -, -, ⟨-, rfl⟩ | ⟨b, b', -, -, -, rfl⟩⟩ := creditBucket_eq d q amount
  · exact ⟨_, hd₁, h⟩
  · exact ⟨_, hd₁, h.setBucket_of_ne hq b'⟩

/-- A charge is the governor's and the statistics': what it raises is decided by the model's name and the usage. -/
theorem charge_fst (py : Builtins) (d : BrokerDaemon) (a : CommitArgs) (now : ℚ) : (d.charge py a now).1 =
    match costUsd py d.registry a.model a.usage with
    | .error x => .error x
    | .ok _ => .ok () := by
  have hbudget := costUsd_ne_budgetExceeded py d.registry a.model a.usage
  unfold charge CostGovernor.commit
  cases hcost : costUsd py d.registry a.model a.usage with
  | error x =>
    cases x with
    | py x => rfl
    | unknownModel m => rfl
    | budgetExceeded => exact absurd hcost hbudget
  | ok cost =>
    dsimp only
    unfold CostGovernor.commitCost
    by_cases hb : (d.governor.rollDay now).breaches cost = true
    · rw [if_pos hb]
    · rw [if_neg hb]

theorem charge_fields (py : Builtins) (d : BrokerDaemon) (a : CommitArgs) (now : ℚ) :
    (d.charge py a now).2.buckets = d.buckets ∧ (d.charge py a now).2.limiters = d.limiters ∧ (d.charge py a now).2.reservations = d.reservations ∧
    (d.charge py a now).2.registry = d.registry := by
  unfold charge
  split <;> exact ⟨rfl, rfl, rfl, rfl⟩

/-- What a COMMIT replies and leaves once its bucket is credited. -/
theorem settleCommit_of_credit {py : Builtins} {a : CommitArgs} {d₁ : BrokerDaemon} {now : ℚ}
    (h : ({ d with reservations := d.reservations.commit a.reservationId } : BrokerDaemon).creditBucket a.provider
      (d.reservations.commitDelta a.reservationId a.actual) = some d₁) :
    d.settleCommit py a now = if a.model = "" then
        (.ok (committedReply (d.reservations.commitDelta a.reservationId a.actual)), d₁)
      else ((match costUsd py d₁.registry a.model a.usage with
        | .error x => .error x
        | .ok _ => .ok (committedReply (d.reservations.commitDelta a.reservationId a.actual))), (d₁.charge py a now).2) := by
  unfold settleCommit
  dsimp only
  rw [h]
  dsimp only
  by_cases hm : a.model = ""
  · rw [if_pos hm, if_pos hm]
  · rw [if_neg hm, if_neg hm]
    have hfst := charge_fst py d₁ a now
    cases hcharge : d₁.charge py a now with
    | mk out d₂ =>
      rw [hcharge] at hfst
      obtain rfl : out = _ := hfst
      cases costUsd py d₁.registry a.model a.usage <;> rfl

theorem settleCommit_alike {py : Builtins} {a : CommitArgs} (h : Sharing a.provider d e)
    (hrid : MadeFor d a.reservationId a.provider) (now : ℚ) : HandledAlike a.provider (d.settleCommit py a now) (e.settleCommit py a now) := by
  have hdelta : e.reservations.commitDelta a.reservationId a.actual = d.reservations.commitDelta a.reservationId a.actual := by
    unfold ReservationStore.commitDelta
    rw [h.get? hrid]
  obtain ⟨d₁, e₁, hd₁, he₁, h₁⟩ := creditBucket_alike (h.commit hrid) (d.reservations.commitDelta a.reservationId a.actual)
  rw [← hdelta] at he₁
  rw [settleCommit_of_credit hd₁, settleCommit_of_credit he₁, hdelta]
  by_cases hm : a.model = ""
  · rw [if_pos hm, if_pos hm]
    exact ⟨rfl, h₁⟩
  · rw [if_neg hm, if_neg hm, h₁.registry]
    exact ⟨rfl, h₁.of_fields (charge_fields py d₁ a now) (charge_fields py e₁ a now)⟩

theorem settleCommit_frame {py : Builtins} {a : CommitArgs} (h : Sharing p d e) (hne : a.provider ≠ p)
    (hrid : MadeFor d a.reservationId a.provider) (now : ℚ) : Sharing p (d.settleCommit py a now).2 e := by
  obtain ⟨d₁, hd₁, h₁⟩ := creditBucket_frame (h.commit_of_ne hne hrid) hne
    (d.reservations.commitDelta a.reservationId a.actual)
  rw [settleCommit_of_credit hd₁]
  split
  · exact h₁
  · exact h₁.of_fields (charge_fields py d₁ a now) ⟨rfl, rfl, rfl, rfl⟩

theorem freeSlot_alike (h : Sharing p d e) :
    (d.freeSlot p).1 = (e.freeSlot p).1 ∧ Sharing p (d.freeSlot p).2 (e.freeSlot p).2 := by
  unfold freeSlot
  rw [h.limiter]
  cases e.limiters p with
  | none => exact ⟨rfl, h⟩
  | some l => exact ⟨rfl, h.setLimiter _⟩

theorem freeSlot_frame (h : Sharing p d e) (hq : q ≠ p) : Sharing p (d.freeSlot q).2 e := by
  unfold freeSlot
  cases d.limiters q with
  | none => exact h
  | some l => exact h.setLimiter_of_ne hq _

theorem settleRelease_of_credit {a : ReleaseArgs} {d₁ : BrokerDaemon}
    (h : ({ d with reservations := d.reservations.release a.reservationId } : BrokerDaemon).creditBucket a.provider
      (d.reservations.releaseTokens a.reservationId) = some d₁) :
    d.settleRelease a = ((match (d₁.freeSlot a.provider).1 with
      | .ok _ => .ok (releasedReply (d.reservations.releaseTokens a.reservationId))
      | .error x => .error (.py x)), (d₁.freeSlot a.provider).2) := by
  unfold settleRelease
  dsimp only
  rw [h]
  dsimp only
  obtain ⟨out, d₂⟩ := d₁.freeSlot a.provider
  cases out <;> rfl

theorem settleRelease_alike {a : ReleaseArgs} (h : Sharing a.provider d e) (hrid : MadeFor d a.reservationId a.provider) :
    HandledAlike a.provider (d.settleRelease a) (e.settleRelease a) := by
  have htokens : e.reservations.releaseTokens a.reservationId = d.reservations.releaseTokens a.reservationId := by
    unfold ReservationStore.releaseTokens
    rw [h.get? hrid]
  obtain ⟨d₁, e₁, hd₁, he₁, h₁⟩ := creditBucket_alike (h.release a.reservationId)
    (d.reservations.releaseTokens a.reservationId)
  rw [← htokens] at he₁
  rw [settleRelease_of_credit hd₁, settleRelease_of_credit he₁, htokens, (freeSlot_alike h₁).1]
  exact ⟨rfl, (freeSlot_alike h₁).2⟩

theorem settleRelease_frame {a : ReleaseArgs} (h : Sharing p d e) (hne : a.provider ≠ p)
    (hrid : MadeFor d a.reservationId a.provider) : Sharing p (d.settleRelease a).2 e := by
  obtain ⟨d₁, hd₁, h₁⟩ := creditBucket_frame (h.release_of_ne hne hrid) hne (d.reservations.releaseTokens a.reservationId)
  rw [settleRelease_of_credit hd₁]
  exact freeSlot_frame h₁ hne

theorem providerOf_of_commitArgs {py : Builtins} {data : Dict String Json} {a : CommitArgs}
    (h : commitArgs py data = .ok a) : providerOf data = some a.provider := by
  unfold commitArgs at h
  cases ht : py.float (data.getD "actual" (.float (.fin 0))) with
  | error x => rw [ht] at h; cases h
  | ok t =>
    cases hi : py.int (data.getD "usage_in" (.int 0)) with
    | error x => simp only [bind, Except.bind, ht, hi] at h; cases h
    | ok i =>
      cases ho : py.int (data.getD "usage_out" (.int 0)) with
      | error x => simp only [bind, Except.bind, ht, hi, ho] at h; cases h
      | ok o =>
        cases hj : item data "provider" with
        | error x => simp only [bind, Except.bind, ht, hi, ho, hj] at h; cases h
        | ok j =>
          cases hp : providerId j with
          | error x => simp only [bind, Except.bind, ht, hi, ho, hj, hp] at h; cases h
          | ok r =>
            simp only [bind, Except.bind, ht, hi, ho, hj, hp, pure, Except.pure, Except.ok.injEq] at h
            rw [providerOf_of_item hj hp, ← h]

theorem providerOf_of_releaseArgs {py : Builtins} {data : Dict String Json} {a : ReleaseArgs}
    (h : releaseArgs py data = .ok a) : providerOf data = some a.provider := by
  unfold releaseArgs at h
  cases hj : item data "provider" with
  | error x => rw [hj] at h; cases h
  | ok j =>
    cases hp : providerId j with
    | error x => simp only [bind, Except.bind, hj, hp] at h; cases h
    | ok r =>
      simp only [bind, Except.bind, hj, hp, pure, Except.pure, Except.ok.injEq] at h
      rw [providerOf_of_item hj hp, ← h]

end Settle

/-! ## The service -/

section Message

variable {p : ProviderId} {py : Builtins} {d e : BrokerDaemon} {msg : BrokerMessage}

theorem message_alike (h : Sharing p d e) {uuid : String} {now : ℚ} (hproper : Proper py d (.message msg uuid now))
    (halone : Untripped e (.message msg uuid now)) (hmine : (Event.message msg uuid now).concerns p = true) :
    HandledAlike p (d.handleMessage py msg uuid now) (e.handleMessage py msg uuid now) := by
  obtain ⟨hop, hp⟩ := of_decide_eq_true hmine
  obtain ⟨hreserve, hcommit, hrelease⟩ := hproper
  rcases List.mem_cons.1 hop with hop | hop
  · rw [handleMessage_reserve hop, handleMessage_reserve hop]
    exact reserve_alike h (hreserve hop).1 (halone hop) hp uuid now
  rcases List.mem_cons.1 hop with hop | hop
  · rw [handleMessage_commit hop, handleMessage_commit hop]
    cases hargs : commitArgs py msg.data with
    | error x =>
      rw [commit_error hargs, commit_error hargs]
      exact ⟨rfl, h⟩
    | ok a =>
      have hrid : MadeFor d a.reservationId a.provider := hcommit hop a (by rw [hargs]; rfl)
      obtain rfl : a.provider = p := Option.some.inj ((providerOf_of_commitArgs hargs).symm.trans hp)
      rw [commit_ok hargs, commit_ok hargs]
      exact settleCommit_alike h hrid now
  · have hop := List.mem_singleton.1 hop
    rw [handleMessage_release hop, handleMessage_release hop]
    cases hargs : releaseArgs py msg.data with
    | error x =>
      rw [release_error hargs, release_error hargs]
      exact ⟨rfl, h⟩
    | ok a =>
      have hrid : MadeFor d a.reservationId a.provider := hrelease hop a (by rw [hargs]; rfl)
      obtain rfl : a.provider = p := Option.some.inj ((providerOf_of_releaseArgs hargs).symm.trans hp)
      rw [release_ok hargs, release_ok hargs]
      exact settleRelease_alike h hrid

theorem message_frame (h : Sharing p d e) {uuid : String} {now : ℚ} (hproper : Proper py d (.message msg uuid now))
    (hmine : (Event.message msg uuid now).concerns p = false) : Sharing p (d.handleMessage py msg uuid now).2 e := by
  have hother : msg.op ∈ ["RESERVE", "COMMIT", "RELEASE"] → providerOf msg.data ≠ some p :=
    fun hop hp => of_decide_eq_false hmine ⟨hop, hp⟩
  obtain ⟨hreserve, hcommit, hrelease⟩ := hproper
  by_cases hR : msg.op = "RESERVE"
  · rw [handleMessage_reserve hR]
    exact reserve_frame h (hother (by simp [hR])) uuid (hreserve hR).2 now
  by_cases hC : msg.op = "COMMIT"
  · rw [handleMessage_commit hC]
    cases hargs : commitArgs py msg.data with
    | error x =>
      rw [commit_error hargs]
      exact h
    | ok a =>
      have hrid : MadeFor d a.reservationId a.provider := hcommit hC a (by rw [hargs]; rfl)
      rw [commit_ok hargs]
      refine settleCommit_frame h (fun he => hother (by simp [hC]) ?_) hrid now
      rw [providerOf_of_commitArgs hargs, he]
  by_cases hL : msg.op = "RELEASE"
  · rw [handleMessage_release hL]
    cases hargs : releaseArgs py msg.data with
    | error x =>
      rw [release_error hargs]
      exact h
    | ok a =>
      have hrid : MadeFor d a.reservationId a.provider := hrelease hL a (by rw [hargs]; rfl)
      rw [release_ok hargs]
      refine settleRelease_frame h (fun he => hother (by simp [hL]) ?_) hrid
      rw [providerOf_of_releaseArgs hargs, he]
  · obtain ⟨reply, hread⟩ := handleMessage_read py hR hC hL d uuid now
    rw [hread]
    exact h

end Message

theorem provider_separates (py : Builtins) (p : ProviderId) :
    (brokerService py).Separates (Event.concerns p) (Proper py) Untripped (Sharing p) where
  frame d e ev h hproper hmine := by
    cases ev with
    | message msg uuid now => exact message_frame h hproper hmine
    | reap now => cases hmine
  alike d e ev h hproper halone hmine := by
    cases ev with
    | message msg uuid now =>
      obtain ⟨hreply, hnext⟩ := message_alike h hproper halone hmine
      exact ⟨congrArg some hreply, hnext⟩
    | reap now => exact ⟨rfl, h.reap now⟩

/-- **A provider is served as if it had the broker for itself**: in any proper history of messages about all providers,
its RESERVEs, COMMITs and RELEASEs get the replies they get without the others', and its bucket, its limiter and its
reservations are in the end those they are without them, as long as no RESERVE comes after the kill switch trips. -/
theorem provider_isolated (py : Builtins) (cfg : HarnessConfig) (t₀ : ℚ) (d : BrokerDaemon)
    (hd : BrokerDaemon.init cfg t₀ = some d) (p : ProviderId) (evs : List Event)
    (hproper : (brokerService py).Throughout (Proper py) d evs)
    (halone : (brokerService py).Throughout Untripped d (evs.filter (Event.concerns p))) :
    ((brokerService py).answers d evs).filter (fun q => q.1.concerns p) =
        (brokerService py).answers d (evs.filter (Event.concerns p)) ∧
      Sharing p ((brokerService py).after d evs) ((brokerService py).after d (evs.filter (Event.concerns p))) := by
  refine (provider_separates py p).answers_filter ⟨rfl, rfl, rfl, fun rid => ?_⟩ hproper halone
  rw [(asBuilt_init hd).table]
  rfl

/-! ## A call of one provider inside a call of another -/

def twoProviders : HarnessConfig where
  providers := (Dict.empty.set "ollama" { maxConcurrency := some 1 }).set "anthropic" { rpm := some 60, maxConcurrency := some 1 }

def oneInsideAnother : List Event :=
  [.message (BrokerClient.reserve .ollama (.fin 1) "") "r1" 0, .message (BrokerClient.reserve .anthropic (.fin 1) "") "r2" 1,
    .message (BrokerClient.release .anthropic "r2") "" 2,
    .message (BrokerClient.commit .ollama "r1" (.fin 1) "llama3:8b" ⟨10, 5⟩ "") "" 3]

theorem provider_isolated_oneInsideAnother : ∃ d, BrokerDaemon.init twoProviders 0 = some d ∧
    ((brokerService Builtins.decimal).answers d oneInsideAnother).filter (fun q => q.1.concerns .anthropic) =
        (brokerService Builtins.decimal).answers d (oneInsideAnother.filter (Event.concerns .anthropic)) ∧
      Sharing .anthropic ((brokerService Builtins.decimal).after d oneInsideAnother)
        ((brokerService Builtins.decimal).after d (oneInsideAnother.filter (Event.concerns .anthropic))) := by
  have hlaws : (BrokerDaemon.init twoProviders 0).any (fun d => decide (
      (brokerService Builtins.decimal).Throughout (Proper Builtins.decimal) d oneInsideAnother ∧
      (brokerService Builtins.decimal).Throughout Untripped d (oneInsideAnother.filter (Event.concerns .anthropic)))) =
        true := by
    decide +kernel
  obtain ⟨d, hd, hlaws⟩ := (Option.any_eq_true _ _).1 hlaws
  rw [decide_eq_true_eq] at hlaws
  exact ⟨d, hd, provider_isolated Builtins.decimal twoProviders 0 d hd .anthropic _ hlaws.1 hlaws.2⟩

end Broker
end DevHarness
