import DevHarness.Broker.Refunds
import DevHarness.Broker.Slots
/-!
# Expiry — what becomes of a reservation whose client died

No handler reaps, and the reaper that `drain` runs only drops entries: tokens and slots of an expired reservation are
not given back, and a committed entry is dropped like any other.  `ExpiryClean` is a step that finds nothing expired to
give back and refunds nothing committed; the expiry promise holds along a run exactly when every step is
(`expiryKept_iff_expiryClean`).
-/
namespace DevHarness
namespace Broker

open Lib

/-! ## The promise and the clean steps -/

/-- The reservation still keeps its tokens from the bucket, or a slot from the limiter. -/
def Withholds (w : World) (g : Reservation) : Prop :=
  ((w.daemon.buckets g.provider).isSome = true ∧ g.reservationId ∉ w.ledger.credits.map (·.reservationId)) ∨
    ((w.daemon.limiters g.provider).isSome = true ∧ g.reservationId ∉ w.ledger.released)

/-- **The expiry promise at a step**: at a RESERVE no expired reservation, neither committed nor released, withholds
anything; no message refunds a committed reservation; and what the reaper drops is uncommitted and withholds nothing
afterwards. -/
def ExpiryKept (w : World) (e : Event) (w' : World) : Prop :=
  match e with
  | .message msg _ now =>
    (msg.op = "RESERVE" → ∀ g ∈ w.ledger.grants, g.expiredAt now = true → g.reservationId ∉ w.ledger.committed →
      g.reservationId ∉ w.ledger.released → ¬ Withholds w g) ∧
    (∀ c ∈ w'.ledger.credits.drop w.ledger.credits.length, c.reservationId ∉ w.ledger.committed)
  | .reap now => ∀ r ∈ ReservationStore.expired w.daemon.reservations now,
      r.reservationId ∉ w.ledger.committed ∧ ¬ Withholds w' r

/-- A reservation of a provider with neither bucket nor limiter. -/
def tookNothing (d : BrokerDaemon) (r : Reservation) : Bool :=
  !(d.buckets r.provider).isSome && !(d.limiters r.provider).isSome

def CommitRefundsNone (d : BrokerDaemon) (a : BrokerDaemon.CommitArgs) : Prop :=
  ∀ r ∈ d.reservations.get? a.reservationId, r.committed = true →
    creditable d a.provider (r.tokens.sub a.actual) = false

def ReleaseRefundsNone (d : BrokerDaemon) (a : BrokerDaemon.ReleaseArgs) : Prop :=
  ∀ r ∈ d.reservations.get? a.reservationId, r.committed = true → creditable d a.provider r.tokens = false

/-- **A clean step** for expiry. -/
def ExpiryClean (py : Builtins) (d : BrokerDaemon) : Event → Prop
  | .message msg _ now =>
    (msg.op = "RESERVE" → ∀ r ∈ d.reservations.values, r.expiredAt now = true → r.committed = false →
      tookNothing d r = true) ∧
    (msg.op = "COMMIT" → ∀ a ∈ (BrokerDaemon.commitArgs py msg.data).toOption, CommitRefundsNone d a) ∧
    (msg.op = "RELEASE" → ∀ a ∈ (BrokerDaemon.releaseArgs py msg.data).toOption, ReleaseRefundsNone d a)
  | .reap now => ∀ r ∈ d.reservations.values, r.expiredAt now = true → r.committed = false ∧ tookNothing d r = true

instance (d : BrokerDaemon) (a : BrokerDaemon.CommitArgs) : Decidable (CommitRefundsNone d a) :=
  inferInstanceAs (Decidable (∀ r ∈ d.reservations.get? a.reservationId, _ → _))

instance (d : BrokerDaemon) (a : BrokerDaemon.ReleaseArgs) : Decidable (ReleaseRefundsNone d a) :=
  inferInstanceAs (Decidable (∀ r ∈ d.reservations.get? a.reservationId, _ → _))

instance (py : Builtins) (d : BrokerDaemon) : ∀ e, Decidable (ExpiryClean py d e)
  | .reap _ => inferInstanceAs (Decidable (∀ r ∈ d.reservations.values, _ → _))
  | .message msg _ _ => inferInstanceAs (Decidable ((msg.op = "RESERVE" → ∀ r ∈ d.reservations.values, _ → _ → _) ∧
      (msg.op = "COMMIT" → ∀ a ∈ _, CommitRefundsNone d a) ∧
      (msg.op = "RELEASE" → ∀ a ∈ _, ReleaseRefundsNone d a)))

/-! ## The invariant -/

/-- Only settled reservations were credited, and what the reaper dropped uncommitted had taken nothing. -/
structure ExpiryInv (w : World) : Prop where
  linked : Linked w
  settled : ∀ c ∈ w.ledger.credits, c.reservationId ∈ w.ledger.committed ∨ c.reservationId ∈ w.ledger.released
  reaped : ∀ g ∈ w.ledger.grants, g.reservationId ∈ w.ledger.reaped → g.reservationId ∉ w.ledger.committed →
    tookNothing w.daemon g = true

theorem tookNothing_eq_true_iff (d : BrokerDaemon) (r : Reservation) :
    tookNothing d r = true ↔ (d.buckets r.provider).isSome = false ∧ (d.limiters r.provider).isSome = false := by
  simp [tookNothing]

theorem ExpiryInv.not_withholds_iff {w : World} (hinv : ExpiryInv w) {g : Reservation}
    (hc : g.reservationId ∉ w.ledger.committed) (hr : g.reservationId ∉ w.ledger.released) :
    ¬ Withholds w g ↔ tookNothing w.daemon g = true := by
  have hno : g.reservationId ∉ w.ledger.credits.map (·.reservationId) := by
    intro hm
    obtain ⟨c, hcm, hid⟩ := List.mem_map.1 hm
    rcases hinv.settled c hcm with h | h
    · exact hc (hid ▸ h)
    · exact hr (hid ▸ h)
  rw [tookNothing_eq_true_iff, Withholds, not_or]
  simp only [hno, hr, not_false_eq_true, and_true, Bool.not_eq_true]

theorem tookNothing_of_step {py : Builtins} {w w' : World} {e : Event} (h : (brokerMachine py).step w e = some w')
    (g : Reservation) : tookNothing w'.daemon g = tookNothing w.daemon g := by
  rw [tookNothing, tookNothing, buckets_isSome_of_step h, limiters_isSome_of_step h]

/-! ## A RESERVE -/

/-- **At a RESERVE nothing expired withholds anything** exactly when every expired uncommitted entry took nothing. -/
theorem ExpiryInv.reserve_iff {w : World} (hinv : ExpiryInv w) (now : ℚ) :
    (∀ g ∈ w.ledger.grants, g.expiredAt now = true → g.reservationId ∉ w.ledger.committed →
      g.reservationId ∉ w.ledger.released → ¬ Withholds w g) ↔
    ∀ r ∈ w.daemon.reservations.values, r.expiredAt now = true → r.committed = false → tookNothing w.daemon r = true := by
  constructor
  · intro h r hr he hc
    obtain ⟨⟨rid, r'⟩, hitem, rfl⟩ := List.mem_map.1 hr
    have hget := (Dict.get?_eq_some_iff _ _ _).2 hitem
    obtain ⟨hg, -, hu⟩ := (hinv.linked.get?_uncommitted_iff rid r' hc).1 hget
    have hid : r'.reservationId = rid := ((hinv.linked.get?_uncommitted_iff rid r' hc).1 hget).2.1
    obtain ⟨h1, h2, -⟩ := (Ledger.unsettled_eq_true_iff _ _).1 (hid ▸ hu)
    exact (hinv.not_withholds_iff h1 h2).1 (h r' hg he h1 h2)
  · intro h g hg he h1 h2
    rw [hinv.not_withholds_iff h1 h2]
    by_cases h3 : g.reservationId ∈ w.ledger.reaped
    · exact hinv.reaped g hg h3 h1
    · have hu := (Ledger.unsettled_eq_true_iff _ _).2 ⟨h1, h2, h3⟩
      have hget := (hinv.linked.get?_uncommitted_iff _ g (hinv.linked.unmarked g hg)).2 ⟨hg, rfl, hu⟩
      have hval : g ∈ w.daemon.reservations.values :=
        List.mem_map.2 ⟨_, (Dict.get?_eq_some_iff _ _ _).1 hget, rfl⟩
      exact h g hval he (hinv.linked.unmarked g hg)

/-! ## A COMMIT and a RELEASE -/

theorem creditOf_eq_nil_iff (d : BrokerDaemon) (p : ProviderId) (rid : String) (amount : PyFloat) (s : Settling) :
    Ledger.creditOf d p rid amount s = [] ↔ creditable d p amount = false := by
  unfold Ledger.creditOf creditable
  split
  · rename_i h; simp [h]
  · rename_i h; simpa using h

theorem creditOf_clean_iff (d : BrokerDaemon) (p : ProviderId) (rid : String) (amount : PyFloat) (s : Settling)
    (forbidden : List String) :
    (∀ c ∈ Ledger.creditOf d p rid amount s, c.reservationId ∉ forbidden) ↔
      (rid ∈ forbidden → creditable d p amount = false) := by
  rw [← creditOf_eq_nil_iff d p rid amount s]
  unfold Ledger.creditOf
  split
  · simp
  · simp

/-- The mark of a live entry says whether it was committed. -/
theorem ExpiryInv.mem_committed_iff {w : World} (hinv : ExpiryInv w) {rid : String} {r : Reservation}
    (hr : w.daemon.reservations.get? rid = some r) : rid ∈ w.ledger.committed ↔ r.committed = true := by
  obtain ⟨g, -, -, -, hu⟩ := hinv.linked.grant_of_get? hr
  obtain ⟨h1, h2, -⟩ := (w.ledger.entry_eq_some_iff rid r).1 ((hinv.linked.table rid).symm.trans hr)
  rw [Ledger.unsettled_eq_true_iff] at hu
  rw [← Bool.not_eq_false, ← hu]
  tauto

theorem ExpiryInv.commit_iff {w : World} (hinv : ExpiryInv w) (a : BrokerDaemon.CommitArgs) :
    (∀ c ∈ (w.ledger.recordCommit w.daemon a).credits.drop w.ledger.credits.length,
      c.reservationId ∉ w.ledger.committed) ↔ CommitRefundsNone w.daemon a := by
  unfold CommitRefundsNone
  cases hr : w.daemon.reservations.get? a.reservationId with
  | none =>
    rw [Ledger.recordCommit, hr]
    simp
  | some r =>
    have hdelta : creditable w.daemon a.provider (w.daemon.reservations.commitDelta a.reservationId a.actual) =
        creditable w.daemon a.provider (r.tokens.sub a.actual) := by
      rw [ReservationStore.commitDelta, hr, creditable, PyFloat.isPos_max_zero]
      rfl
    have hdrop : (w.ledger.recordCommit w.daemon a).credits.drop w.ledger.credits.length =
        Ledger.creditOf w.daemon a.provider a.reservationId
          (w.daemon.reservations.commitDelta a.reservationId a.actual) (.commit a.actual) := by
      rw [Ledger.recordCommit, hr]
      exact List.drop_left
    rw [hdrop, creditOf_clean_iff, hdelta, hinv.mem_committed_iff hr]
    constructor
    · intro h x hx
      cases hx
      exact h
    · intro h
      exact h r rfl

theorem ExpiryInv.release_iff {w : World} (hinv : ExpiryInv w) (a : BrokerDaemon.ReleaseArgs) :
    (∀ c ∈ (w.ledger.recordRelease w.daemon a).credits.drop w.ledger.credits.length,
      c.reservationId ∉ w.ledger.committed) ↔ ReleaseRefundsNone w.daemon a := by
  unfold ReleaseRefundsNone
  cases hr : w.daemon.reservations.get? a.reservationId with
  | none =>
    rw [Ledger.recordRelease, hr]
    simp
  | some r =>
    have hdrop : (w.ledger.recordRelease w.daemon a).credits.drop w.ledger.credits.length =
        Ledger.creditOf w.daemon a.provider a.reservationId
          (w.daemon.reservations.releaseTokens a.reservationId) .release := by
      rw [Ledger.recordRelease, hr]
      exact List.drop_left
    rw [hdrop, creditOf_clean_iff, ReservationStore.releaseTokens, hr, hinv.mem_committed_iff hr]
    constructor
    · intro h x hx
      cases hx
      exact h
    · intro h
      exact h r rfl

/-! ## The reaper -/

theorem ExpiryInv.reap_iff {w : World} (hinv : ExpiryInv w) (now : ℚ) :
    (∀ r ∈ ReservationStore.expired w.daemon.reservations now, r.reservationId ∉ w.ledger.committed ∧
      ¬ Withholds ⟨w.daemon.reap now, w.ledger.recordReap w.daemon now⟩ r) ↔
    ∀ r ∈ w.daemon.reservations.values, r.expiredAt now = true → r.committed = false ∧ tookNothing w.daemon r = true := by
  have hsame : ∀ r, Withholds ⟨w.daemon.reap now, w.ledger.recordReap w.daemon now⟩ r ↔ Withholds w r :=
    fun r => Iff.rfl
  have hentry : ∀ r ∈ w.daemon.reservations.values, r.reservationId ∉ w.ledger.released ∧
      (r.reservationId ∉ w.ledger.committed ↔ r.committed = false) := by
    intro r hr
    obtain ⟨⟨rid, r'⟩, hitem, rfl⟩ := List.mem_map.1 hr
    have hget := (Dict.get?_eq_some_iff _ _ _).2 hitem
    obtain ⟨g, hg, hid, hrg⟩ := Ledger.mem_of_entry ((hinv.linked.table rid).symm.trans hget)
    obtain ⟨h1, -, -⟩ := (w.ledger.entry_eq_some_iff rid r').1 ((hinv.linked.table rid).symm.trans hget)
    have hid' : r'.reservationId = rid := by rw [hrg]; exact hid
    have hc : r'.committed = w.ledger.committed.contains rid := by rw [hrg]
    show r'.reservationId ∉ _ ∧ (r'.reservationId ∉ _ ↔ r'.committed = false)
    rw [hid', hc]
    exact ⟨h1, by simp⟩
  constructor
  · intro h r hr he
    obtain ⟨h2, hcm⟩ := hentry r hr
    have hex : r ∈ ReservationStore.expired w.daemon.reservations now := List.mem_filter.2 ⟨hr, he⟩
    obtain ⟨hc, hw⟩ := h r hex
    rw [hsame, hinv.not_withholds_iff hc h2] at hw
    exact ⟨hcm.1 hc, hw⟩
  · intro h r hr
    obtain ⟨hval, he⟩ := List.mem_filter.1 hr
    obtain ⟨h2, hcm⟩ := hentry r hval
    obtain ⟨hc, ht⟩ := h r hval he
    rw [hsame, hinv.not_withholds_iff (hcm.2 hc) h2]
    exact ⟨hcm.2 hc, ht⟩

/-! ## Runs -/

/-- **A step keeps the promise exactly when it is clean.** -/
theorem expiryKept_iff_of_step {py : Builtins} {w w' : World} {e : Event} (hinv : ExpiryInv w)
    (h : (brokerMachine py).step w e = some w') : ExpiryKept w e w' ↔ ExpiryClean py w.daemon e := by
  have hne : ∀ {s t : String}, s ≠ t → ∀ {x : String}, x = s → x ≠ t := fun hst _ hx => hx ▸ hst
  rcases effect_of_step h with ⟨msg, uuid, now, a, d₁, hop, -, -, -⟩ | ⟨msg, uuid, now, a, hop, hargs⟩ |
    ⟨msg, uuid, now, a, hop, hargs⟩ | ⟨now⟩ | ⟨msg, uuid, now, d', -, -, hco, hre⟩
  · have hdrop : (w.ledger.addGrant (ReservationStore.fresh uuid a.provider a.tokens a.callback now)).credits.drop
        w.ledger.credits.length = [] := List.drop_length
    have hC : msg.op ≠ "COMMIT" := hne (by decide) hop
    have hL : msg.op ≠ "RELEASE" := hne (by decide) hop
    simp only [ExpiryKept, ExpiryClean, hdrop, hop, forall_const, List.not_mem_nil, false_imp_iff, implies_true,
      and_true, hinv.reserve_iff now]
    exact ⟨fun hk => ⟨hk, fun hc => absurd hc (by decide), fun hl => absurd hl (by decide)⟩, fun hk => hk.1⟩
  · have hR : msg.op ≠ "RESERVE" := hne (by decide) hop
    have hL : msg.op ≠ "RELEASE" := hne (by decide) hop
    simp only [ExpiryKept, ExpiryClean, hinv.commit_iff a]
    constructor
    · rintro ⟨-, hk⟩
      refine ⟨fun hr => absurd hr hR, fun _ x hx => ?_, fun hl => absurd hl hL⟩
      rw [hargs] at hx
      cases hx
      exact hk
    · rintro ⟨-, hk, -⟩
      exact ⟨fun hr => absurd hr hR, hk hop a (by rw [hargs]; rfl)⟩
  · have hR : msg.op ≠ "RESERVE" := hne (by decide) hop
    have hC : msg.op ≠ "COMMIT" := hne (by decide) hop
    simp only [ExpiryKept, ExpiryClean, hinv.release_iff a]
    constructor
    · rintro ⟨-, hk⟩
      refine ⟨fun hr => absurd hr hR, fun hc => absurd hc hC, fun _ x hx => ?_⟩
      rw [hargs] at hx
      cases hx
      exact hk
    · rintro ⟨-, -, hk⟩
      exact ⟨fun hr => absurd hr hR, hk hop a (by rw [hargs]; rfl)⟩
  · exact hinv.reap_iff now
  · have hdrop : w.ledger.credits.drop w.ledger.credits.length = [] := List.drop_length
    simp only [ExpiryKept, ExpiryClean, hdrop, List.not_mem_nil, false_imp_iff, implies_true, and_true,
      hinv.reserve_iff now]
    constructor
    · intro hk
      refine ⟨hk, fun hc x hx => ?_, fun hl x hx => ?_⟩
      · obtain ⟨er, her⟩ := hco hc
        rw [her] at hx
        cases hx
      · obtain ⟨er, her⟩ := hre hl
        rw [her] at hx
        cases hx
    · exact fun hk => hk.1

theorem Ledger.reservationId_of_mem_creditOf {d : BrokerDaemon} {p : ProviderId} {rid : String} {amount : PyFloat}
    {settling : Settling} {c : Credit} (hc : c ∈ Ledger.creditOf d p rid amount settling) : c.reservationId = rid := by
  unfold Ledger.creditOf at hc
  split at hc
  · rw [List.mem_singleton.1 hc]
  · cases hc

theorem ExpiryInv.settled_commit {w : World} (hinv : ExpiryInv w) (a : BrokerDaemon.CommitArgs) :
    ∀ c ∈ (w.ledger.recordCommit w.daemon a).credits, c.reservationId ∈ (w.ledger.recordCommit w.daemon a).committed ∨
      c.reservationId ∈ (w.ledger.recordCommit w.daemon a).released := by
  intro c hc
  cases hr : w.daemon.reservations.get? a.reservationId with
  | none =>
    simp only [Ledger.recordCommit, hr] at hc ⊢
    exact hinv.settled c hc
  | some r =>
    simp only [Ledger.recordCommit, hr, List.mem_append] at hc ⊢
    rcases hc with hc | hc
    · exact (hinv.settled c hc).imp_left Or.inl
    · rw [Ledger.reservationId_of_mem_creditOf hc]
      simp

theorem ExpiryInv.settled_release {w : World} (hinv : ExpiryInv w) (a : BrokerDaemon.ReleaseArgs) :
    ∀ c ∈ (w.ledger.recordRelease w.daemon a).credits, c.reservationId ∈ (w.ledger.recordRelease w.daemon a).committed ∨
      c.reservationId ∈ (w.ledger.recordRelease w.daemon a).released := by
  intro c hc
  cases hr : w.daemon.reservations.get? a.reservationId with
  | none =>
    simp only [Ledger.recordRelease, hr] at hc ⊢
    exact hinv.settled c hc
  | some r =>
    simp only [Ledger.recordRelease, hr, List.mem_append] at hc ⊢
    rcases hc with hc | hc
    · exact (hinv.settled c hc).imp_right Or.inl
    · rw [Ledger.reservationId_of_mem_creditOf hc]
      simp

/-- What the reaper drops had taken nothing, by the promise. -/
theorem ExpiryInv.tookNothing_of_expired {w : World} (hinv : ExpiryInv w) {now : ℚ}
    (hk : ∀ r ∈ ReservationStore.expired w.daemon.reservations now, r.reservationId ∉ w.ledger.committed ∧
      ¬ Withholds ⟨w.daemon.reap now, w.ledger.recordReap w.daemon now⟩ r)
    {g : Reservation} (hg : g ∈ w.ledger.grants)
    (hm : g.reservationId ∈ (ReservationStore.expired w.daemon.reservations now).map Reservation.reservationId) :
    tookNothing w.daemon g = true := by
  obtain ⟨r, hr, he⟩ := (hinv.linked.mem_expired_ids now _).1 hm
  have hval : r ∈ w.daemon.reservations.values :=
    List.mem_map.2 ⟨_, (Dict.get?_eq_some_iff _ _ _).1 hr, rfl⟩
  obtain ⟨g', hg', hid, hrg, -⟩ := hinv.linked.grant_of_get? hr
  have hgg : g' = g := List.inj_on_of_nodup_map hinv.linked.nodup hg' hg hid
  have hprov : r.provider = g.provider := by rw [hrg, hgg]
  have htook := ((hinv.reap_iff now).1 hk r hval he).2
  rw [tookNothing, hprov] at htook
  exact htook

theorem expiryInv_of_step {py : Builtins} {w w' : World} {e : Event} (hinv : ExpiryInv w)
    (hk : ExpiryKept w e w') (h : (brokerMachine py).step w e = some w') : ExpiryInv w' := by
  have hlinked := linked_of_step hinv.linked h
  have htook := tookNothing_of_step h
  rcases effect_of_step h with ⟨msg, uuid, now, a, d₁, -, -, hfresh, -⟩ | ⟨msg, uuid, now, a, -, -⟩ |
    ⟨msg, uuid, now, a, -, -⟩ | ⟨now⟩ | ⟨msg, uuid, now, d', -, -, -, -⟩
  · refine ⟨hlinked, hinv.settled, fun g hg hm hc => ?_⟩
    rw [htook]
    rcases List.mem_append.1 hg with hg | hg
    · exact hinv.reaped g hg hm hc
    · -- a fresh id was never reaped
      exfalso
      rw [List.mem_singleton.1 hg] at hm
      apply hfresh
      apply hinv.linked.known
      have hmem : uuid ∈ w.ledger.reaped := hm
      simp [Ledger.unsettled, hmem]
  · refine ⟨hlinked, hinv.settled_commit a, fun g hg hm hcm => ?_⟩
    rw [htook]
    cases hr : w.daemon.reservations.get? a.reservationId with
    | none =>
      simp only [Ledger.recordCommit, hr] at hg hm hcm
      exact hinv.reaped g hg hm hcm
    | some r =>
      simp only [Ledger.recordCommit, hr, List.mem_append, not_or] at hg hm hcm
      exact hinv.reaped g hg hm hcm.1
  · refine ⟨hlinked, hinv.settled_release a, fun g hg hm hcm => ?_⟩
    rw [htook]
    cases hr : w.daemon.reservations.get? a.reservationId with
    | none =>
      simp only [Ledger.recordRelease, hr] at hg hm hcm
      exact hinv.reaped g hg hm hcm
    | some r =>
      simp only [Ledger.recordRelease, hr] at hg hm hcm
      exact hinv.reaped g hg hm hcm
  · refine ⟨hlinked, hinv.settled, fun g hg hm hc => ?_⟩
    rw [htook]
    rcases List.mem_append.1 hm with hm | hm
    · exact hinv.reaped g hg hm hc
    · exact hinv.tookNothing_of_expired hk hg hm
  · refine ⟨hlinked, hinv.settled, fun g hg hm hc => ?_⟩
    rw [htook]
    exact hinv.reaped g hg hm hc

/-- **The expiry promise is kept along a run exactly when every step is clean.** -/
theorem expiryKept_iff_expiryClean (py : Builtins) (cfg : HarnessConfig) (now : ℚ) (d : BrokerDaemon)
    (hd : BrokerDaemon.init cfg now = some d) (es : List Event) :
    (brokerMachine py).Along ExpiryKept ⟨d, {}⟩ es ↔
      (brokerMachine py).Along (fun w e _ => ExpiryClean py w.daemon e) ⟨d, {}⟩ es := by
  refine (brokerMachine py).along_iff_along ExpiryInv ?_ ?_ es ⟨d, {}⟩ ?_
  · intro w e w' hinv h
    exact expiryKept_iff_of_step hinv h
  · intro w e w' hinv hk h
    exact expiryInv_of_step hinv hk h
  · exact ⟨linked_init d (asBuilt_init hd).table, fun c hc => (by cases hc), fun g hg => (by cases hg)⟩

theorem expiryKept_releasedInTime : ∃ d, BrokerDaemon.init oneSlot 0 = some d ∧
    (brokerMachine Builtins.decimal).Along ExpiryKept ⟨d, {}⟩ (completeEvents .ollama "llama3:8b" "r1" .raises 0 1 ++
      [.message (BrokerClient.reserve .ollama (.fin 1) "") "r2" 200]) := by
  obtain ⟨d, hd⟩ := Option.isSome_iff_exists.1 (show (BrokerDaemon.init oneSlot 0).isSome = true by decide +kernel)
  have hclean : (BrokerDaemon.init oneSlot 0).all (fun d => decide ((brokerMachine Builtins.decimal).Along
      (fun w e _ => ExpiryClean Builtins.decimal w.daemon e) ⟨d, {}⟩
      (completeEvents .ollama "llama3:8b" "r1" .raises 0 1 ++
        [.message (BrokerClient.reserve .ollama (.fin 1) "") "r2" 200]))) = true := by decide +kernel
  rw [hd, Option.all_some, decide_eq_true_eq] at hclean
  exact ⟨d, hd, (expiryKept_iff_expiryClean Builtins.decimal oneSlot 0 d hd _).2 hclean⟩

/-- **A client dies after its RESERVE**: long after the expiry its slot is still taken, and the next RESERVE is answered
`saturated`. -/
theorem expired_withholds : ∃ d w, BrokerDaemon.init oneSlot 0 = some d ∧
    (brokerMachine Builtins.decimal).run ⟨d, {}⟩ [.message (BrokerClient.reserve .ollama (.fin 1) "") "r1" 0] = some w ∧
    (w.daemon.handleMessage Builtins.decimal (BrokerClient.reserve .ollama (.fin 1) "") "r2" 200).1 =
      .ok (BrokerDaemon.refuse "RESERVE" "saturated") ∧
    ∀ w', ¬ ExpiryKept w (.message (BrokerClient.reserve .ollama (.fin 1) "") "r2" 200) w' := by
  obtain ⟨d, hd⟩ := Option.isSome_iff_exists.1 (show (BrokerDaemon.init oneSlot 0).isSome = true by decide +kernel)
  let after (d : BrokerDaemon) := (brokerMachine Builtins.decimal).run ⟨d, {}⟩
    [.message (BrokerClient.reserve .ollama (.fin 1) "") "r1" 0]
  have hrun : (BrokerDaemon.init oneSlot 0).all (fun d => (after d).isSome) = true := by decide +kernel
  have hafter : (BrokerDaemon.init oneSlot 0).all (fun d => (after d).all (fun w => decide (
      w.ledger.grants = [ReservationStore.fresh "r1" .ollama (.fin 1) "" 0] ∧ w.ledger.committed = [] ∧
      w.ledger.released = [] ∧ (w.daemon.limiters .ollama).isSome = true ∧
      (w.daemon.handleMessage Builtins.decimal (BrokerClient.reserve .ollama (.fin 1) "") "r2" 200).1 =
        .ok (BrokerDaemon.refuse "RESERVE" "saturated")))) = true := by decide +kernel
  rw [hd, Option.all_some] at hrun hafter
  obtain ⟨w, hw⟩ := Option.isSome_iff_exists.1 hrun
  rw [hw, Option.all_some, decide_eq_true_eq] at hafter
  obtain ⟨hg, hc, hr, hl, hsat⟩ := hafter
  refine ⟨d, w, hd, hw, hsat, fun w' hk => ?_⟩
  have hexp : (ReservationStore.fresh "r1" .ollama (.fin 1) "" 0).expiredAt 200 = true := by decide +kernel
  refine hk.1 rfl _ (by rw [hg]; exact List.mem_singleton.2 rfl) hexp (by rw [hc]; simp) (by rw [hr]; simp) ?_
  exact Or.inr ⟨hl, by rw [hr]; simp⟩

end Broker
end DevHarness
