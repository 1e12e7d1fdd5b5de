import DevHarness.Broker.Client
import DevHarness.Lib.Count
/-!
# Slots — the concurrency limiters against the reservations they were taken for

RESERVE takes a slot of the provider's limiter and only RELEASE gives one back: a COMMIT, an expiry, a RELEASE of
another id or under another provider leave the limiter out of step.  `SlotClean` is a step that does none of these, and
along steps that are clean the limiter counts the outstanding reservations (`slotsExact_of_slotClean`).
-/
namespace DevHarness
namespace Broker

open Lib

namespace Ledger

def held (L : Ledger) (p : ProviderId) : ℕ :=
  L.grants.countP (fun g => decide (g.provider = p) && L.unsettled g.reservationId)

/-- The provider's granted reservations neither committed nor released nor expired. -/
def outstanding (L : Ledger) (p : ProviderId) (now : ℚ) : ℕ :=
  L.grants.countP (fun g => decide (g.provider = p) && L.unsettled g.reservationId && !g.expiredAt now)

theorem outstanding_eq_held {L : Ledger} {p : ProviderId} {now : ℚ}
    (h : ∀ g ∈ L.grants, g.provider = p → L.unsettled g.reservationId = true → g.expiredAt now = false) :
    L.outstanding p now = L.held p := by
  refine List.countP_congr (fun g hg => ?_)
  by_cases hp : g.provider = p
  · by_cases hu : L.unsettled g.reservationId = true
    · simp [hp, hu, h g hg hp hu]
    · simp [hu]
  · simp [hp]

theorem held_settle {L L' : Ledger} {g : Reservation} (hn : (L.grants.map (·.reservationId)).Nodup)
    (hg : g ∈ L.grants) (hgr : L'.grants = L.grants)
    (hu : ∀ x, L'.unsettled x = (L.unsettled x && decide (x ≠ g.reservationId))) (p : ProviderId) :
    L'.held p + (if g.provider = p ∧ L.unsettled g.reservationId = true then 1 else 0) = L.held p := by
  have hcount := countP_ne_key (·.reservationId)
    (fun g => decide (g.provider = p) && L.unsettled g.reservationId) L.grants hn hg
  unfold held
  rw [hgr, ← hcount]
  simp only [hu, Bool.and_assoc, Bool.and_eq_true, decide_eq_true_eq]

theorem unsettled_recordCommit {L : Ledger} {d : BrokerDaemon} {a : BrokerDaemon.CommitArgs} {r : Reservation}
    (h : d.reservations.get? a.reservationId = some r) (x : String) :
    (L.recordCommit d a).unsettled x = (L.unsettled x && decide (x ≠ a.reservationId)) := by
  rw [Bool.eq_iff_iff, Bool.and_eq_true, unsettled_eq_true_iff, unsettled_eq_true_iff]
  simp only [recordCommit, h, List.mem_append, List.mem_singleton, decide_eq_true_eq]
  tauto

theorem unsettled_recordRelease {L : Ledger} {d : BrokerDaemon} {a : BrokerDaemon.ReleaseArgs} {r : Reservation}
    (h : d.reservations.get? a.reservationId = some r) (x : String) :
    (L.recordRelease d a).unsettled x = (L.unsettled x && decide (x ≠ a.reservationId)) := by
  rw [Bool.eq_iff_iff, Bool.and_eq_true, unsettled_eq_true_iff, unsettled_eq_true_iff]
  simp only [recordRelease, h, List.mem_append, List.mem_singleton, decide_eq_true_eq]
  tauto

end Ledger

/-! ## Clean steps -/

def holdsSlot (d : BrokerDaemon) (r : Reservation) : Bool := !r.committed && (d.limiters r.provider).isSome

def Event.releases (py : Builtins) (rid : String) : Event → Bool
  | .message msg _ _ => decide (msg.op = "RELEASE") &&
    (BrokerDaemon.releaseArgs py msg.data).toOption.any (fun a => decide (a.reservationId = rid))
  | .reap _ => false

/-- No reservation that holds a slot has expired, the one being released apart. -/
def SlotsUnexpired (py : Builtins) (d : BrokerDaemon) (e : Event) : Prop :=
  ∀ r ∈ d.reservations.values, holdsSlot d r = true → e.releases py r.reservationId = false → r.expiredAt e.now = false

/-- A COMMIT of a reservation that holds no slot. -/
def CommitsNoSlot (d : BrokerDaemon) (a : BrokerDaemon.CommitArgs) : Prop :=
  ∀ r ∈ d.reservations.get? a.reservationId, holdsSlot d r = false

/-- A RELEASE under a provider with a limiter names an uncommitted reservation of that provider; one under a provider
without names none that holds a slot. -/
def ReleasesOwnSlot (d : BrokerDaemon) (a : BrokerDaemon.ReleaseArgs) : Prop :=
  if (d.limiters a.provider).isSome then
    ∃ r ∈ d.reservations.get? a.reservationId, r.committed = false ∧ r.provider = a.provider
  else ∀ r ∈ d.reservations.get? a.reservationId, holdsSlot d r = false

def SettlesOwnSlot (py : Builtins) (d : BrokerDaemon) : Event → Prop
  | .reap _ => True
  | .message msg _ _ =>
    (msg.op = "COMMIT" → ∀ a ∈ (BrokerDaemon.commitArgs py msg.data).toOption, CommitsNoSlot d a) ∧
    (msg.op = "RELEASE" → ∀ a ∈ (BrokerDaemon.releaseArgs py msg.data).toOption, ReleasesOwnSlot d a)

/-- **A clean step**: no slot's reservation has expired, a COMMIT settles none that holds a slot, and a RELEASE gives
back the slot its own reservation took. -/
def SlotClean (py : Builtins) (w : World) (e : Event) : Prop :=
  SlotsUnexpired py w.daemon e ∧ SettlesOwnSlot py w.daemon e

instance (py : Builtins) (d : BrokerDaemon) (e : Event) : Decidable (SlotsUnexpired py d e) :=
  inferInstanceAs (Decidable (∀ r ∈ d.reservations.values, _ → _ → _))

instance (d : BrokerDaemon) (a : BrokerDaemon.CommitArgs) : Decidable (CommitsNoSlot d a) :=
  inferInstanceAs (Decidable (∀ r ∈ d.reservations.get? a.reservationId, _))

instance (d : BrokerDaemon) (a : BrokerDaemon.ReleaseArgs) : Decidable (ReleasesOwnSlot d a) :=
  inferInstanceAs (Decidable (if (d.limiters a.provider).isSome then
    ∃ r ∈ d.reservations.get? a.reservationId, r.committed = false ∧ r.provider = a.provider
  else ∀ r ∈ d.reservations.get? a.reservationId, holdsSlot d r = false))

instance (py : Builtins) (d : BrokerDaemon) : ∀ e, Decidable (SettlesOwnSlot py d e)
  | .reap _ => isTrue trivial
  | .message msg _ _ => inferInstanceAs (Decidable ((msg.op = "COMMIT" → ∀ a ∈ _, CommitsNoSlot d a) ∧
      (msg.op = "RELEASE" → ∀ a ∈ _, ReleasesOwnSlot d a)))

instance (py : Builtins) (w : World) (e : Event) : Decidable (SlotClean py w e) :=
  inferInstanceAs (Decidable (SlotsUnexpired py w.daemon e ∧ SettlesOwnSlot py w.daemon e))

def SlotsExact (e : Event) (w' : World) : Prop :=
  ∀ p, ∀ l ∈ w'.daemon.limiters p, l.inFlight = (w'.ledger.outstanding p e.now : ℤ)

instance (e : Event) (w' : World) : Decidable (SlotsExact e w') :=
  inferInstanceAs (Decidable (∀ p, ∀ l ∈ w'.daemon.limiters p, _))

/-- A RESERVE answered `saturated` finds every slot of its provider with an outstanding reservation. -/
def SaturatedWhenFull (py : Builtins) (w : World) (e : Event) : Prop :=
  ∀ msg uuid now, e = .message msg uuid now → msg.op = "RESERVE" →
    (w.daemon.handleMessage py msg uuid now).1 = .ok (BrokerDaemon.refuse "RESERVE" "saturated") →
    ∃ a l, BrokerDaemon.reserveArgs py msg.data = .ok a ∧ w.daemon.limiters a.provider = some l ∧
      w.ledger.outstanding a.provider now = l.maxConcurrency

/-- Slots taken and slots free against the reservations held. -/
structure SlotInv (w : World) : Prop where
  linked : Linked w
  slots : ∀ p l, w.daemon.limiters p = some l →
    l.inFlight = (w.ledger.held p : ℤ) ∧ l.permits + w.ledger.held p = l.maxConcurrency

/-! ## The invariant -/

theorem slotInv_init {d : BrokerDaemon} (hf : AsBuilt d) : SlotInv ⟨d, {}⟩ where
  linked := linked_init d hf.table
  slots p l hl := by
    obtain ⟨h1, h2⟩ := hf.limiters p l hl
    exact ⟨h1, h2⟩

theorem Linked.holdsSlot_of_unsettled {w : World} (hl : Linked w) {g : Reservation} (hg : g ∈ w.ledger.grants)
    (hu : w.ledger.unsettled g.reservationId = true) (hlim : (w.daemon.limiters g.provider).isSome = true) :
    g ∈ w.daemon.reservations.values ∧ holdsSlot w.daemon g = true := by
  have hget := (hl.get?_uncommitted_iff g.reservationId g (hl.unmarked g hg)).2 ⟨hg, rfl, hu⟩
  refine ⟨?_, ?_⟩
  · rw [Dict.values, List.mem_map]
    exact ⟨_, (Dict.get?_eq_some_iff _ _ _).1 hget, rfl⟩
  · rw [holdsSlot, hl.unmarked g hg, hlim]
    rfl

theorem slotInv_grant {w : World} {a : BrokerDaemon.ReserveArgs} {d₁ : BrokerDaemon} {uuid : String} {now : ℚ}
    (hinv : SlotInv w) (hch : BrokerDaemon.Charged w.daemon d₁ a now)
    (hlinked : Linked ⟨(d₁.grant a uuid now).2,
      w.ledger.addGrant (ReservationStore.fresh uuid a.provider a.tokens a.callback now)⟩)
    (hfresh : uuid ∉ w.ledger.grants.map (·.reservationId)) :
    SlotInv ⟨(d₁.grant a uuid now).2,
      w.ledger.addGrant (ReservationStore.fresh uuid a.provider a.tokens a.callback now)⟩ := by
  refine ⟨hlinked, fun p l hp => ?_⟩
  have hpl : d₁.limiters p = some l := hp
  have huns : w.ledger.unsettled uuid = true := by
    by_contra h
    exact hfresh (hinv.linked.known _ (by simpa using h))
  have hheld : (w.ledger.addGrant (ReservationStore.fresh uuid a.provider a.tokens a.callback now)).held p =
      w.ledger.held p + (if a.provider = p then 1 else 0) := by
    have hnew : w.ledger.unsettled (ReservationStore.fresh uuid a.provider a.tokens a.callback now).reservationId
        = true := huns
    simp only [Ledger.held, Ledger.unsettled_addGrant]
    rw [Ledger.addGrant, List.countP_append, List.countP_singleton, hnew]
    by_cases hap : a.provider = p <;> simp [ReservationStore.fresh, hap]
  rw [hheld]
  rcases hch.limiter with ⟨hnone, hsame⟩ | ⟨l₀, l₁, hl₀, hacq, hupd⟩
  · rw [hsame] at hpl
    have hne : a.provider ≠ p := fun he => by rw [he, hpl] at hnone; cases hnone
    rw [if_neg hne]
    exact hinv.slots p l hpl
  · rw [hupd] at hpl
    by_cases hpa : p = a.provider
    · subst hpa
      rw [Function.update_self] at hpl
      cases hpl
      obtain ⟨hpos, hperm, hfl, hmax⟩ := LocalLimiter.acquire_true hacq
      obtain ⟨h1, h2⟩ := hinv.slots _ l₀ hl₀
      rw [if_pos rfl, hfl, hperm, hmax, h1]
      exact ⟨by omega, by omega⟩
    · rw [Function.update_of_ne hpa] at hpl
      rw [if_neg (Ne.symm hpa)]
      exact hinv.slots p l hpl

theorem slotInv_commit {w : World} {a : BrokerDaemon.CommitArgs} {now : ℚ} (hinv : SlotInv w)
    (hclean : CommitsNoSlot w.daemon a)
    (hlinked : Linked ⟨(w.daemon.settleCommit py a now).2, w.ledger.recordCommit w.daemon a⟩) :
    SlotInv ⟨(w.daemon.settleCommit py a now).2, w.ledger.recordCommit w.daemon a⟩ := by
  refine ⟨hlinked, fun p l hp => ?_⟩
  have hpl : w.daemon.limiters p = some l := by
    rw [← (BrokerDaemon.settleCommit_snd py w.daemon a now).2.1]; exact hp
  have hheld : (w.ledger.recordCommit w.daemon a).held p = w.ledger.held p := by
    cases hr : w.daemon.reservations.get? a.reservationId with
    | none => rw [Ledger.recordCommit, hr]
    | some r =>
      obtain ⟨g, hg, hid, hrg, huns⟩ := hinv.linked.grant_of_get? hr
      have hprov : g.provider = r.provider := by rw [hrg]
      have hset := Ledger.held_settle hinv.linked.nodup hg (Ledger.grants_recordCommit _ _ _)
        (fun x => by rw [hid]; exact Ledger.unsettled_recordCommit hr x) p
      rw [← hset]
      have hno : ¬ (g.provider = p ∧ w.ledger.unsettled g.reservationId = true) := by
        rintro ⟨hgp, hu⟩
        have hc := huns.1 (hid ▸ hu)
        have := hclean r hr
        rw [holdsSlot, hc, ← hprov, hgp, hpl] at this
        cases this
      rw [if_neg hno, Nat.add_zero]
  rw [hheld]
  exact hinv.slots p l hpl

/-- A release of a reservation that holds no slot of the provider leaves as many held. -/
theorem held_recordRelease_of_notHolding {w : World} {a : BrokerDaemon.ReleaseArgs} (hinv : SlotInv w) {p : ProviderId}
    (hno : ∀ r, w.daemon.reservations.get? a.reservationId = some r → r.committed = false → r.provider ≠ p) :
    (w.ledger.recordRelease w.daemon a).held p = w.ledger.held p := by
  cases hr : w.daemon.reservations.get? a.reservationId with
  | none => rw [Ledger.recordRelease, hr]
  | some r =>
    obtain ⟨g, hg, hid, hrg, huns⟩ := hinv.linked.grant_of_get? hr
    have hprov : g.provider = r.provider := by rw [hrg]
    have hset := Ledger.held_settle hinv.linked.nodup hg (Ledger.grants_recordRelease _ _ _)
      (fun x => by rw [hid]; exact Ledger.unsettled_recordRelease hr x) p
    rw [if_neg, Nat.add_zero] at hset
    · exact hset
    · rintro ⟨hgp, hu⟩
      exact hno r hr (huns.1 (hid ▸ hu)) (hprov.symm.trans hgp)

/-- A release of an uncommitted reservation leaves one less held of its provider. -/
theorem held_recordRelease_of_holding {w : World} {a : BrokerDaemon.ReleaseArgs} (hinv : SlotInv w) {r : Reservation}
    (hr : w.daemon.reservations.get? a.reservationId = some r) (hc : r.committed = false) :
    (w.ledger.recordRelease w.daemon a).held r.provider + 1 = w.ledger.held r.provider := by
  obtain ⟨g, hg, hid, hrg, huns⟩ := hinv.linked.grant_of_get? hr
  have hgp : g.provider = r.provider := by rw [hrg]
  have hset := Ledger.held_settle hinv.linked.nodup hg (Ledger.grants_recordRelease _ _ _)
    (fun x => by rw [hid]; exact Ledger.unsettled_recordRelease hr x) r.provider
  rwa [if_pos ⟨hgp, by rw [hid]; exact huns.2 hc⟩] at hset

theorem slotInv_release {w : World} {a : BrokerDaemon.ReleaseArgs} (hinv : SlotInv w)
    (hclean : ReleasesOwnSlot w.daemon a)
    (hlinked : Linked ⟨(w.daemon.settleRelease a).2, w.ledger.recordRelease w.daemon a⟩) :
    SlotInv ⟨(w.daemon.settleRelease a).2, w.ledger.recordRelease w.daemon a⟩ := by
  refine ⟨hlinked, fun p l' hp => ?_⟩
  have hlim : (w.daemon.settleRelease a).2.limiters p = some l' := hp
  rw [(BrokerDaemon.settleRelease_snd w.daemon a).2.1] at hlim
  unfold ReleasesOwnSlot at hclean
  cases hpa : w.daemon.limiters a.provider with
  | none =>
    -- no slot is given back, and none was held by the reservation
    rw [hpa] at hlim hclean
    rw [Option.map_none, ← hpa, Function.update_eq_self] at hlim
    simp only [Option.isSome_none, Bool.false_eq_true, if_false] at hclean
    rw [held_recordRelease_of_notHolding hinv (fun r hr hc hrp => ?_)]
    · exact hinv.slots p l' hlim
    · have hholds := hclean r hr
      rw [holdsSlot, hc, hrp, hlim] at hholds
      cases hholds
  | some l =>
    rw [hpa] at hlim hclean
    simp only [Option.isSome_some, if_true] at hclean
    obtain ⟨r, hr, hc, hprov⟩ := hclean
    by_cases hpp : p = a.provider
    · subst hpp
      have hheld := held_recordRelease_of_holding hinv hr hc
      rw [hprov] at hheld
      rw [Option.map_some, Function.update_self] at hlim
      cases hlim
      obtain ⟨h1, h2⟩ := hinv.slots _ l hpa
      have hlt : l.permits < l.maxConcurrency := by omega
      have hrel : l.release.2.inFlight = l.inFlight - 1 ∧ l.release.2.permits = l.permits + 1 ∧
          l.release.2.maxConcurrency = l.maxConcurrency := by
        unfold LocalLimiter.release
        rw [dif_pos hlt]
        exact ⟨rfl, rfl, rfl⟩
      obtain ⟨r1, r2, r3⟩ := hrel
      rw [r1, r2, r3, h1]
      constructor
      · show (w.ledger.held a.provider : ℤ) - 1 = ((w.ledger.recordRelease w.daemon a).held a.provider : ℤ)
        omega
      · show l.permits + 1 + (w.ledger.recordRelease w.daemon a).held a.provider = l.maxConcurrency
        omega
    · rw [Function.update_of_ne hpp] at hlim
      rw [held_recordRelease_of_notHolding hinv (fun r' hr' _ hrp => ?_)]
      · exact hinv.slots p l' hlim
      · rw [hr] at hr'
        cases hr'
        exact hpp (hrp.symm.trans hprov)

theorem slotInv_reap {py : Builtins} {w : World} {now : ℚ} (hinv : SlotInv w)
    (hclean : SlotsUnexpired py w.daemon (.reap now)) :
    SlotInv ⟨w.daemon.reap now, w.ledger.recordReap w.daemon now⟩ := by
  refine ⟨linked_reap hinv.linked now, fun p l hp => ?_⟩
  have hpl : w.daemon.limiters p = some l := hp
  have hheld : (w.ledger.recordReap w.daemon now).held p = w.ledger.held p := by
    refine List.countP_congr (fun g hg => ?_)
    have hexp : g.provider = p → w.ledger.unsettled g.reservationId = true →
        g.reservationId ∉ (ReservationStore.expired w.daemon.reservations now).map (·.reservationId) := by
      intro hgp hu hin
      obtain ⟨hval, hs⟩ := hinv.linked.holdsSlot_of_unsettled hg hu (by rw [hgp, hpl]; rfl)
      have hunexp := hclean g hval hs rfl
      obtain ⟨r, hr, he⟩ := (hinv.linked.mem_expired_ids now _).1 hin
      have hget := (hinv.linked.get?_uncommitted_iff g.reservationId g (hinv.linked.unmarked g hg)).2 ⟨hg, rfl, hu⟩
      have hgr : r = g := Option.some.inj (hr.symm.trans hget)
      have hunexp' : g.expiredAt now = false := hunexp
      rw [hgr, hunexp'] at he
      cases he
    simp only [Bool.and_eq_true, decide_eq_true_eq, Ledger.unsettled_eq_true_iff, Ledger.recordReap, List.mem_append,
      not_or] at hexp ⊢
    tauto
  rw [hheld]
  exact hinv.slots p l hpl

/-- **A clean step keeps the slots in step with the reservations held.** -/
theorem slotInv_of_step {py : Builtins} {w w' : World} {e : Event} (hinv : SlotInv w) (hclean : SlotClean py w e)
    (h : (brokerMachine py).step w e = some w') : SlotInv w' := by
  have hlinked := linked_of_step hinv.linked h
  rcases effect_of_step h with ⟨msg, uuid, now, a, d₁, -, -, hfresh, hch⟩ | ⟨msg, uuid, now, a, hop, hargs⟩ |
    ⟨msg, uuid, now, a, hop, hargs⟩ | ⟨now⟩ | ⟨msg, uuid, now, d', hsame, -, -, -⟩
  · exact slotInv_grant hinv hch hlinked hfresh
  · exact slotInv_commit hinv (hclean.2.1 hop a (by rw [hargs]; rfl)) hlinked
  · exact slotInv_release hinv (hclean.2.2 hop a (by rw [hargs]; rfl)) hlinked
  · exact slotInv_reap hinv hclean.1
  · refine ⟨hlinked, fun p l hp => ?_⟩
    have hpl : d'.limiters p = some l := hp
    rw [hsame] at hpl
    exact hinv.slots p l hpl

/-! ## What the limiters count -/

/-- A reservation unsettled after a step was unsettled before it and not released by it, or is the step's own grant. -/
theorem unsettled_of_step {py : Builtins} {w w' : World} {e : Event} (hl : Linked w)
    (h : (brokerMachine py).step w e = some w') {g : Reservation} (hg : g ∈ w'.ledger.grants)
    (hu : w'.ledger.unsettled g.reservationId = true) :
    (g ∈ w.ledger.grants ∧ w.ledger.unsettled g.reservationId = true ∧ e.releases py g.reservationId = false) ∨
      g.expiredAt e.now = false := by
  rcases effect_of_step h with ⟨msg, uuid, now, a, d₁, hop, -, -, -⟩ | ⟨msg, uuid, now, a, hop, -⟩ |
    ⟨msg, uuid, now, a, hop, hargs⟩ | ⟨now⟩ | ⟨msg, uuid, now, d', -, -, -, hrel⟩
  · have hno : (Event.message msg uuid now).releases py g.reservationId = false := by
      simp [Event.releases, hop]
    rcases List.mem_append.1 hg with hg | hg
    · exact Or.inl ⟨hg, hu, hno⟩
    · right
      rw [List.mem_singleton.1 hg]
      show decide (now + ttlSeconds < now) = false
      rw [decide_eq_false_iff_not, not_lt, ttlSeconds]
      linarith
  · left
    have hno : (Event.message msg uuid now).releases py g.reservationId = false := by
      simp [Event.releases, hop]
    rw [Ledger.grants_recordCommit] at hg
    refine ⟨hg, ?_, hno⟩
    cases hr : w.daemon.reservations.get? a.reservationId with
    | none => rw [Ledger.recordCommit, hr] at hu; exact hu
    | some r =>
      rw [Ledger.unsettled_recordCommit hr, Bool.and_eq_true] at hu
      exact hu.1
  · left
    rw [Ledger.grants_recordRelease] at hg
    have hrel : (Event.message msg uuid now).releases py g.reservationId = decide (a.reservationId = g.reservationId) := by
      simp only [Event.releases, hop, hargs, Except.toOption, Option.any_some, decide_true, Bool.true_and]
    rw [hrel, decide_eq_false_iff_not]
    cases hr : w.daemon.reservations.get? a.reservationId with
    | none =>
      rw [Ledger.recordRelease, hr] at hu
      refine ⟨hg, hu, fun he => ?_⟩
      have := (hl.get?_uncommitted_iff g.reservationId g (hl.unmarked g hg)).2 ⟨hg, rfl, hu⟩
      rw [← he, hr] at this
      cases this
    | some r =>
      rw [Ledger.unsettled_recordRelease hr, Bool.and_eq_true, decide_eq_true_eq] at hu
      exact ⟨hg, hu.1, fun he => hu.2 he.symm⟩
  · left
    refine ⟨hg, ?_, rfl⟩
    have hu' := (Ledger.unsettled_eq_true_iff _ _).1 hu
    refine (Ledger.unsettled_eq_true_iff _ _).2 ⟨hu'.1, hu'.2.1, fun hm => hu'.2.2 ?_⟩
    exact List.mem_append_left _ hm
  · left
    refine ⟨hg, hu, ?_⟩
    by_cases hop : msg.op = "RELEASE"
    · obtain ⟨er, her⟩ := hrel hop
      simp [Event.releases, her, Except.toOption]
    · simp [Event.releases, hop]

theorem slotsExact_of_step {py : Builtins} {w w' : World} {e : Event} (hinv : SlotInv w) (hclean : SlotClean py w e)
    (h : (brokerMachine py).step w e = some w') : SlotsExact e w' := by
  have hinv' := slotInv_of_step hinv hclean h
  intro p l hl
  have hpl : w'.daemon.limiters p = some l := hl
  rw [(hinv'.slots p l hpl).1, Ledger.outstanding_eq_held]
  intro g hg hgp hu
  rcases unsettled_of_step hinv.linked h hg hu with ⟨hg₀, hu₀, hno⟩ | hnew
  · have hlim : (w.daemon.limiters g.provider).isSome = true := by
      rw [← limiters_isSome_of_step h, hgp, hpl]; rfl
    obtain ⟨hval, hs⟩ := hinv.linked.holdsSlot_of_unsettled hg₀ hu₀ hlim
    exact hclean.1 g hval hs hno
  · exact hnew

theorem saturatedWhenFull_of_slotClean {py : Builtins} {w : World} {e : Event} (hinv : SlotInv w)
    (hclean : SlotClean py w e) : SaturatedWhenFull py w e := by
  rintro msg uuid now rfl hop hsat
  have hH : msg.op ≠ "HEALTH" := by rw [hop]; decide
  rw [BrokerDaemon.handleMessage, if_neg hH, if_pos hop] at hsat
  rcases BrokerDaemon.reserve_cases py w.daemon msg.data uuid now with
    ⟨a, d₁, -, -, -, heq⟩ | ⟨reason, d', -, hfull, heq⟩ | ⟨-, -, heq⟩
  · rw [heq] at hsat
    have hok := congrArg BrokerMessage.ok (Except.ok.inj hsat)
    cases hok
  · rw [heq] at hsat
    have hreason : reason = "saturated" := by
      simpa [BrokerDaemon.refuse, Dict.set, Dict.empty, Dict.setItems] using Except.ok.inj hsat
    obtain ⟨a, l, hargs, hl, hzero⟩ := hfull hreason
    refine ⟨a, l, hargs, hl, ?_⟩
    have hslots := (hinv.slots a.provider l hl).2
    rw [Ledger.outstanding_eq_held]
    · omega
    · intro g hg hgp hu
      obtain ⟨hval, hs⟩ := hinv.linked.holdsSlot_of_unsettled hg hu (by rw [hgp, hl]; rfl)
      refine hclean.1 g hval hs ?_
      simp [Event.releases, hop]
  · rw [heq] at hsat
    cases hsat

/-- **Along clean steps the limiters count the outstanding reservations**, and a RESERVE is answered `saturated` only
when as many reservations are outstanding as the provider has slots. -/
theorem slotsExact_of_slotClean (py : Builtins) (cfg : HarnessConfig) (now : ℚ) (d : BrokerDaemon)
    (hd : BrokerDaemon.init cfg now = some d) (es : List Event)
    (hclean : (brokerMachine py).Along (fun w e _ => SlotClean py w e) ⟨d, {}⟩ es) :
    (brokerMachine py).Along (fun w e w' => SlotsExact e w' ∧ SaturatedWhenFull py w e) ⟨d, {}⟩ es := by
  refine (brokerMachine py).along_of_along SlotInv ?_ es ⟨d, {}⟩ (slotInv_init (asBuilt_init hd)) hclean
  intro w e w' hinv hc h
  exact ⟨⟨slotsExact_of_step hinv hc h, saturatedWhenFull_of_slotClean hinv hc⟩, slotInv_of_step hinv hc h⟩

/-! ## A provider with one slot -/

def oneSlot : HarnessConfig := { providers := Dict.empty.set "ollama" { maxConcurrency := some 1 } }

theorem slotsExact_of_slotClean_release : ∃ d, BrokerDaemon.init oneSlot 0 = some d ∧
    (brokerMachine Builtins.decimal).Along (fun w e w' => SlotsExact e w' ∧ SaturatedWhenFull Builtins.decimal w e)
      ⟨d, {}⟩ (completeEvents .ollama "llama3:8b" "r1" .raises 0 1) := by
  obtain ⟨d, hd⟩ := Option.isSome_iff_exists.1 (show (BrokerDaemon.init oneSlot 0).isSome = true by decide +kernel)
  have hclean : (BrokerDaemon.init oneSlot 0).all (fun d => decide ((brokerMachine Builtins.decimal).Along
      (fun w e _ => SlotClean Builtins.decimal w e) ⟨d, {}⟩ (completeEvents .ollama "llama3:8b" "r1" .raises 0 1)))
      = true := by decide +kernel
  rw [hd, Option.all_some, decide_eq_true_eq] at hclean
  exact ⟨d, hd, slotsExact_of_slotClean Builtins.decimal oneSlot 0 d hd _ hclean⟩

/-- **A call that returns keeps its slot for good**: after one complete call nothing is outstanding, the limiter still
counts one in flight, and the next RESERVE is answered `saturated`. -/
theorem commit_keeps_slot : ∃ d w, BrokerDaemon.init oneSlot 0 = some d ∧
    (brokerMachine Builtins.decimal).run ⟨d, {}⟩ (completeEvents .ollama "llama3:8b" "r1" (.returns ⟨10, 5⟩) 0 1) = some w ∧
    w.ledger.outstanding .ollama 1 = 0 ∧ (w.daemon.limiters .ollama).map (·.inFlight) = some 1 ∧
    (w.daemon.handleMessage Builtins.decimal (BrokerClient.reserve .ollama (.fin 1) "") "r2" 2).1 =
      .ok (BrokerDaemon.refuse "RESERVE" "saturated") := by
  obtain ⟨d, hd⟩ := Option.isSome_iff_exists.1 (show (BrokerDaemon.init oneSlot 0).isSome = true by decide +kernel)
  let after (d : BrokerDaemon) := (brokerMachine Builtins.decimal).run ⟨d, {}⟩
    (completeEvents .ollama "llama3:8b" "r1" (.returns ⟨10, 5⟩) 0 1)
  have hrun : (BrokerDaemon.init oneSlot 0).all (fun d => (after d).isSome) = true := by decide +kernel
  have hafter : (BrokerDaemon.init oneSlot 0).all (fun d => (after d).all (fun w => decide (
      w.ledger.outstanding .ollama 1 = 0 ∧ (w.daemon.limiters .ollama).map (·.inFlight) = some 1 ∧
      (w.daemon.handleMessage Builtins.decimal (BrokerClient.reserve .ollama (.fin 1) "") "r2" 2).1 =
        .ok (BrokerDaemon.refuse "RESERVE" "saturated")))) = true := by decide +kernel
  rw [hd, Option.all_some] at hrun hafter
  obtain ⟨w, hw⟩ := Option.isSome_iff_exists.1 hrun
  rw [hw, Option.all_some, decide_eq_true_eq] at hafter
  exact ⟨d, w, hd, hw, hafter⟩

end Broker
end DevHarness
