import DevHarness.Broker.Handlers
import DevHarness.Lib.Machine
/-!
# History — the daemon over a history of messages, with a ledger of what happened to each reservation

The ledger is kept beside the daemon, from the reservations granted, the messages that settled them and the tokens
credited on their behalf; the daemon never reads it.  `Linked` says the reservation table is what the ledger says it
should be: an entry per grant neither released nor reaped, marked committed when a COMMIT found it.
-/
namespace DevHarness
namespace Broker

open Lib

inductive Settling where
  | commit (actual : PyFloat)
  | release
  deriving DecidableEq

/-- One call of `bucket.release` on behalf of a reservation: the bucket credited and the amount passed. -/
structure Credit where
  reservationId : String
  provider : ProviderId
  amount : PyFloat
  settling : Settling
  deriving DecidableEq

structure Ledger where
  grants : List Reservation := []
  credits : List Credit := []
  -- The ids a COMMIT, a RELEASE and the reaper found in the table, in order.
  committed : List String := []
  released : List String := []
  reaped : List String := []
  deriving DecidableEq

namespace Ledger

/-- The credit `creditBucket` makes, if it makes one. -/
def creditOf (d : BrokerDaemon) (p : ProviderId) (rid : String) (amount : PyFloat) (s : Settling) : List Credit :=
  if (d.buckets p).isSome && amount.isPos then [⟨rid, p, amount, s⟩] else []

def addGrant (L : Ledger) (r : Reservation) : Ledger := { L with grants := L.grants ++ [r] }

def recordReserve (L : Ledger) (uuid : String) : Handled → Ledger
  | (.ok reply, d') => if reply.ok then ((d'.reservations.get? uuid).map L.addGrant).getD L else L
  | (.error _, _) => L

def recordCommit (L : Ledger) (d : BrokerDaemon) (a : BrokerDaemon.CommitArgs) : Ledger :=
  match d.reservations.get? a.reservationId with
  | none => L
  | some _ => { L with
      committed := L.committed ++ [a.reservationId]
      credits := L.credits ++ creditOf d a.provider a.reservationId
        (d.reservations.commitDelta a.reservationId a.actual) (.commit a.actual) }

def recordRelease (L : Ledger) (d : BrokerDaemon) (a : BrokerDaemon.ReleaseArgs) : Ledger :=
  match d.reservations.get? a.reservationId with
  | none => L
  | some _ => { L with
      released := L.released ++ [a.reservationId]
      credits := L.credits ++ creditOf d a.provider a.reservationId
        (d.reservations.releaseTokens a.reservationId) .release }

def record (py : Builtins) (L : Ledger) (d : BrokerDaemon) (msg : BrokerMessage) (uuid : String) (now : ℚ) : Ledger :=
  if msg.op = "RESERVE" then L.recordReserve uuid (d.reserve py msg.data uuid now)
  else if msg.op = "COMMIT" then match BrokerDaemon.commitArgs py msg.data with
    | .error _ => L
    | .ok a => L.recordCommit d a
  else if msg.op = "RELEASE" then match BrokerDaemon.releaseArgs py msg.data with
    | .error _ => L
    | .ok a => L.recordRelease d a
  else L

def recordReap (L : Ledger) (d : BrokerDaemon) (now : ℚ) : Ledger :=
  { L with reaped := L.reaped ++ (ReservationStore.expired d.reservations now).map (·.reservationId) }

/-- A reservation no message has settled and the reaper has not removed. -/
def unsettled (L : Ledger) (rid : String) : Bool :=
  !(L.committed.contains rid) && !(L.released.contains rid) && !(L.reaped.contains rid)

def entry (L : Ledger) (rid : String) : Option Reservation :=
  if L.released.contains rid || L.reaped.contains rid then none
  else (L.grants.find? (fun g => g.reservationId = rid)).map (fun g => { g with committed := L.committed.contains rid })

end Ledger

inductive Event where
  | message (msg : BrokerMessage) (uuid : String) (now : ℚ)
  | reap (now : ℚ)

def Event.now : Event → ℚ
  | .message _ _ now => now
  | .reap now => now

structure World where
  daemon : BrokerDaemon
  ledger : Ledger := {}

/-- The daemon handling one event.  `uuid4` never returns the id of an earlier grant: such an event is not enabled. -/
def World.step (py : Builtins) (w : World) : Event → Option World
  | .message msg uuid now =>
    if (w.ledger.grants.map (·.reservationId)).contains uuid then none
    else some ⟨(w.daemon.handleMessage py msg uuid now).2, w.ledger.record py w.daemon msg uuid now⟩
  | .reap now => some ⟨w.daemon.reap now, w.ledger.recordReap w.daemon now⟩

def brokerMachine (py : Builtins) : Machine World Event := ⟨World.step py⟩

/-! ## The daemon as built -/

/-- A daemon as built: an empty table and fresh limiters. -/
structure AsBuilt (d : BrokerDaemon) : Prop where
  table : d.reservations = Dict.empty
  limiters : ∀ p l, d.limiters p = some l → l.inFlight = 0 ∧ l.permits = l.maxConcurrency

theorem asBuilt_addBucket {now : ℚ} {p : ProviderPolicy} {d d' : BrokerDaemon} (hf : AsBuilt d)
    (h : BrokerDaemon.addBucket now p d = some d') : AsBuilt d' := by
  unfold BrokerDaemon.addBucket at h
  cases hr : p.rpm with
  | none => rw [hr] at h; cases h; exact hf
  | some rpm =>
    rw [hr] at h
    obtain ⟨b, -, rfl⟩ := Option.map_eq_some_iff.1 h
    exact ⟨hf.table, hf.limiters⟩

theorem asBuilt_addLimiter {p : ProviderPolicy} {d d' : BrokerDaemon} (hf : AsBuilt d)
    (h : BrokerDaemon.addLimiter p d = some d') : AsBuilt d' := by
  unfold BrokerDaemon.addLimiter at h
  cases hr : p.maxConcurrency with
  | none => rw [hr] at h; cases h; exact hf
  | some n =>
    rw [hr] at h
    obtain ⟨l, hl, rfl⟩ := Option.map_eq_some_iff.1 h
    refine ⟨hf.table, fun q l' hq => ?_⟩
    by_cases hqp : q = p.provider
    · subst hqp
      simp only [Function.update_self, Option.some.injEq] at hq
      subst hq
      unfold LocalLimiter.init at hl
      split at hl
      · cases hl; exact ⟨rfl, rfl⟩
      · cases hl
    · dsimp only at hq
      rw [Function.update_of_ne hqp] at hq
      exact hf.limiters q l' hq

theorem asBuilt_buildBuckets {now : ℚ} : ∀ (ps : List ProviderPolicy) (d d' : BrokerDaemon), AsBuilt d →
    BrokerDaemon.buildBuckets now ps d = some d' → AsBuilt d'
  | [], d, d', hf, h => by cases h; exact hf
  | p :: ps, d, d', hf, h => by
    obtain ⟨d₂, h₂, h₃⟩ := Option.bind_eq_some_iff.1 h
    obtain ⟨d₁, h₀, h₁⟩ := Option.bind_eq_some_iff.1 h₂
    exact asBuilt_buildBuckets ps d₂ d' (asBuilt_addLimiter (asBuilt_addBucket hf h₀) h₁) h₃

theorem asBuilt_init {cfg : HarnessConfig} {now : ℚ} {d : BrokerDaemon} (h : BrokerDaemon.init cfg now = some d) :
    AsBuilt d :=
  asBuilt_buildBuckets _ _ _ ⟨rfl, fun p l hl => by cases hl⟩ h

/-! ## The step, by what it does to the table and the ledger -/

/-- **What one event does**: a grant, a COMMIT or a RELEASE with converted fields, the reaper, or nothing the table and
the ledger see. -/
inductive Effect (py : Builtins) (w : World) : Event → World → Prop where
  | grant (msg : BrokerMessage) (uuid : String) (now : ℚ) (a : BrokerDaemon.ReserveArgs) (d₁ : BrokerDaemon)
      (hop : msg.op = "RESERVE") (hargs : BrokerDaemon.reserveArgs py msg.data = .ok a)
      (hfresh : uuid ∉ w.ledger.grants.map (·.reservationId)) (hch : BrokerDaemon.Charged w.daemon d₁ a now) :
      Effect py w (.message msg uuid now)
        ⟨(d₁.grant a uuid now).2,
          w.ledger.addGrant (ReservationStore.fresh uuid a.provider a.tokens a.callback now)⟩
  | commit (msg : BrokerMessage) (uuid : String) (now : ℚ) (a : BrokerDaemon.CommitArgs)
      (hop : msg.op = "COMMIT") (hargs : BrokerDaemon.commitArgs py msg.data = .ok a) :
      Effect py w (.message msg uuid now) ⟨(w.daemon.settleCommit py a now).2, w.ledger.recordCommit w.daemon a⟩
  | release (msg : BrokerMessage) (uuid : String) (now : ℚ) (a : BrokerDaemon.ReleaseArgs)
      (hop : msg.op = "RELEASE") (hargs : BrokerDaemon.releaseArgs py msg.data = .ok a) :
      Effect py w (.message msg uuid now) ⟨(w.daemon.settleRelease a).2, w.ledger.recordRelease w.daemon a⟩
  | reap (now : ℚ) : Effect py w (.reap now) ⟨w.daemon.reap now, w.ledger.recordReap w.daemon now⟩
  | quiet (msg : BrokerMessage) (uuid : String) (now : ℚ) (d' : BrokerDaemon)
      (hsame : d' = { w.daemon with buckets := d'.buckets })
      (hbk : ∀ q, (d'.buckets q).isSome = (w.daemon.buckets q).isSome)
      (hargs : msg.op = "COMMIT" → ∃ e, BrokerDaemon.commitArgs py msg.data = .error e)
      (hargs' : msg.op = "RELEASE" → ∃ e, BrokerDaemon.releaseArgs py msg.data = .error e) :
      Effect py w (.message msg uuid now) ⟨d', w.ledger⟩

theorem Refilled_isSome {d d' : BrokerDaemon} {p : ProviderId} {now : ℚ} (h : BrokerDaemon.Refilled d d' p now) :
    d' = { d with buckets := d'.buckets } ∧ ∀ q, (d'.buckets q).isSome = (d.buckets q).isSome := by
  rcases h with rfl | ⟨b, hb, rfl⟩
  · exact ⟨rfl, fun _ => rfl⟩
  · refine ⟨rfl, fun q => ?_⟩
    by_cases hq : q = p
    · subst hq; simp [BrokerDaemon.setBucket, hb]
    · simp [BrokerDaemon.setBucket, hq]

theorem effect_of_reserve {py : Builtins} {w : World} {msg : BrokerMessage} {uuid : String} (now : ℚ)
    (hR : msg.op = "RESERVE") (hfresh : uuid ∉ w.ledger.grants.map (·.reservationId)) :
    Effect py w (.message msg uuid now)
      ⟨(w.daemon.handleMessage py msg uuid now).2, w.ledger.record py w.daemon msg uuid now⟩ := by
  have hC : msg.op ≠ "COMMIT" := by rw [hR]; decide
  have hL : msg.op ≠ "RELEASE" := by rw [hR]; decide
  have hrec : w.ledger.record py w.daemon msg uuid now =
      w.ledger.recordReserve uuid (w.daemon.reserve py msg.data uuid now) := by rw [Ledger.record, if_pos hR]
  rw [hrec, BrokerDaemon.handleMessage_reserve hR]
  rcases BrokerDaemon.reserve_cases py w.daemon msg.data uuid now with
    ⟨a, d₁, hargs, -, hch, heq⟩ | ⟨reason, d', href, -, heq⟩ | ⟨-, -, heq⟩
  · have hstored : (d₁.grant a uuid now).2.reservations.get? uuid =
        some (ReservationStore.fresh uuid a.provider a.tokens a.callback now) := Dict.get?_set_self _ _ _
    have hled : w.ledger.recordReserve uuid (d₁.grant a uuid now) =
        w.ledger.addGrant (ReservationStore.fresh uuid a.provider a.tokens a.callback now) := by
      have hreply : ∀ r : Handled, r = d₁.grant a uuid now → w.ledger.recordReserve uuid r =
          ((r.2.reservations.get? uuid).map w.ledger.addGrant).getD w.ledger := by
        intro r hr
        subst hr
        rfl
      rw [hreply _ rfl, hstored]
      rfl
    rw [heq, hled]
    exact .grant msg uuid now a d₁ hR hargs hfresh hch
  · have hsame : d' = { w.daemon with buckets := d'.buckets } ∧
        ∀ q, (d'.buckets q).isSome = (w.daemon.buckets q).isSome := by
      rcases href with rfl | ⟨a, -, href⟩
      · exact ⟨rfl, fun _ => rfl⟩
      · exact Refilled_isSome href
    rw [heq]
    exact .quiet msg uuid now d' hsame.1 hsame.2 (fun hc => absurd hc hC) (fun hl => absurd hl hL)
  · rw [heq]
    exact .quiet msg uuid now w.daemon rfl (fun _ => rfl) (fun hc => absurd hc hC) (fun hl => absurd hl hL)

theorem effect_of_commit {py : Builtins} {w : World} {msg : BrokerMessage} (uuid : String) (now : ℚ)
    (hC : msg.op = "COMMIT") :
    Effect py w (.message msg uuid now)
      ⟨(w.daemon.handleMessage py msg uuid now).2, w.ledger.record py w.daemon msg uuid now⟩ := by
  have hR : msg.op ≠ "RESERVE" := by rw [hC]; decide
  have hL : msg.op ≠ "RELEASE" := by rw [hC]; decide
  rw [Ledger.record, if_neg hR, if_pos hC, BrokerDaemon.handleMessage_commit hC]
  cases hargs : BrokerDaemon.commitArgs py msg.data with
  | error e =>
    rw [BrokerDaemon.commit_error hargs]
    exact .quiet msg uuid now w.daemon rfl (fun _ => rfl) (fun _ => ⟨e, hargs⟩) (fun hl => absurd hl hL)
  | ok a =>
    rw [BrokerDaemon.commit_ok hargs]
    exact .commit msg uuid now a hC hargs

theorem effect_of_release {py : Builtins} {w : World} {msg : BrokerMessage} (uuid : String) (now : ℚ)
    (hL : msg.op = "RELEASE") :
    Effect py w (.message msg uuid now)
      ⟨(w.daemon.handleMessage py msg uuid now).2, w.ledger.record py w.daemon msg uuid now⟩ := by
  have hR : msg.op ≠ "RESERVE" := by rw [hL]; decide
  have hC : msg.op ≠ "COMMIT" := by rw [hL]; decide
  rw [Ledger.record, if_neg hR, if_neg hC, if_pos hL, BrokerDaemon.handleMessage_release hL]
  cases hargs : BrokerDaemon.releaseArgs py msg.data with
  | error e =>
    rw [BrokerDaemon.release_error hargs]
    exact .quiet msg uuid now w.daemon rfl (fun _ => rfl) (fun hc => absurd hc hC) (fun _ => ⟨e, hargs⟩)
  | ok a =>
    rw [BrokerDaemon.release_ok hargs]
    exact .release msg uuid now a hL hargs

/-- **Every enabled step is one of these effects.** -/
theorem effect_of_step {py : Builtins} {w w' : World} {e : Event} (h : (brokerMachine py).step w e = some w') :
    Effect py w e w' := by
  cases e with
  | reap now =>
    simp only [brokerMachine, World.step, Option.some.injEq] at h
    subst h
    exact .reap now
  | message msg uuid now =>
    simp only [brokerMachine, World.step] at h
    split at h
    · cases h
    rename_i hfr
    have hfresh : uuid ∉ w.ledger.grants.map (·.reservationId) := by simpa using hfr
    simp only [Option.some.injEq] at h
    subst h
    by_cases hR : msg.op = "RESERVE"
    · exact effect_of_reserve now hR hfresh
    · by_cases hC : msg.op = "COMMIT"
      · exact effect_of_commit uuid now hC
      · by_cases hL : msg.op = "RELEASE"
        · exact effect_of_release uuid now hL
        · obtain ⟨reply, hhm⟩ := BrokerDaemon.handleMessage_read py hR hC hL w.daemon uuid now
          rw [Ledger.record, if_neg hR, if_neg hC, if_neg hL, hhm]
          exact .quiet msg uuid now w.daemon rfl (fun _ => rfl) (fun hc => absurd hc hC) (fun hl => absurd hl hL)

/-! ## The ledger and the table -/

/-- **The table is what the ledger says**, the grants carry distinct ids and no mark, and only grants are settled. -/
structure Linked (w : World) : Prop where
  nodup : (w.ledger.grants.map (·.reservationId)).Nodup
  unmarked : ∀ g ∈ w.ledger.grants, g.committed = false
  table : ∀ rid, w.daemon.reservations.get? rid = w.ledger.entry rid
  known : ∀ rid, w.ledger.unsettled rid = false → rid ∈ w.ledger.grants.map (·.reservationId)

namespace Ledger

theorem grants_recordCommit (L : Ledger) (d : BrokerDaemon) (a : BrokerDaemon.CommitArgs) :
    (L.recordCommit d a).grants = L.grants := by
  unfold recordCommit; split <;> rfl

theorem grants_recordRelease (L : Ledger) (d : BrokerDaemon) (a : BrokerDaemon.ReleaseArgs) :
    (L.recordRelease d a).grants = L.grants := by
  unfold recordRelease; split <;> rfl

@[simp] theorem unsettled_addGrant (L : Ledger) (r : Reservation) (rid : String) :
    (L.addGrant r).unsettled rid = L.unsettled rid := rfl

theorem unsettled_eq_true_iff (L : Ledger) (rid : String) :
    L.unsettled rid = true ↔ rid ∉ L.committed ∧ rid ∉ L.released ∧ rid ∉ L.reaped := by
  simp [unsettled, and_assoc]

theorem entry_eq_some_iff (L : Ledger) (rid : String) (r : Reservation) :
    L.entry rid = some r ↔ rid ∉ L.released ∧ rid ∉ L.reaped ∧
      ∃ g, L.grants.find? (fun g => g.reservationId = rid) = some g ∧ r = { g with committed := L.committed.contains rid } := by
  unfold entry
  by_cases h : (L.released.contains rid || L.reaped.contains rid) = true
  · rw [if_pos h]
    simp only [Bool.or_eq_true, List.contains_iff_mem] at h
    constructor
    · intro hn; cases hn
    · rintro ⟨h1, h2, -⟩
      exact absurd h (not_or.2 ⟨h1, h2⟩)
  · rw [if_neg h]
    simp only [Bool.or_eq_true, List.contains_iff_mem, not_or] at h
    rw [Option.map_eq_some_iff]
    constructor
    · rintro ⟨g, hg, rfl⟩
      exact ⟨h.1, h.2, g, hg, rfl⟩
    · rintro ⟨-, -, g, hg, rfl⟩
      exact ⟨g, hg, rfl⟩

theorem mem_of_entry {L : Ledger} {rid : String} {r : Reservation} (h : L.entry rid = some r) :
    ∃ g ∈ L.grants, g.reservationId = rid ∧ r = { g with committed := L.committed.contains rid } := by
  obtain ⟨-, -, g, hg, hr⟩ := (L.entry_eq_some_iff rid r).1 h
  refine ⟨g, List.mem_of_find?_eq_some hg, ?_, hr⟩
  have := List.find?_some hg
  simpa using this

theorem find?_of_mem {l : List Reservation} (hn : (l.map (·.reservationId)).Nodup) {g : Reservation} (hg : g ∈ l) :
    l.find? (fun x => x.reservationId = g.reservationId) = some g := by
  cases h : l.find? (fun x => x.reservationId = g.reservationId) with
  | none =>
    have := List.find?_eq_none.1 h g hg
    simp at this
  | some x =>
    have hx := List.find?_some h
    simp only [decide_eq_true_eq] at hx
    rw [List.inj_on_of_nodup_map hn (List.mem_of_find?_eq_some h) hg hx]

theorem entry_of_mem {L : Ledger} (hn : (L.grants.map (·.reservationId)).Nodup) {g : Reservation} (hg : g ∈ L.grants)
    (h1 : g.reservationId ∉ L.released) (h2 : g.reservationId ∉ L.reaped) :
    L.entry g.reservationId = some { g with committed := L.committed.contains g.reservationId } :=
  (L.entry_eq_some_iff _ _).2 ⟨h1, h2, g, find?_of_mem hn hg, rfl⟩

end Ledger

theorem Linked.mem_grants {w : World} (hl : Linked w) {rid : String} {r : Reservation}
    (h : w.daemon.reservations.get? rid = some r) :
    rid ∈ w.ledger.grants.map (·.reservationId) := by
  obtain ⟨g, hg, hid, -⟩ := Ledger.mem_of_entry ((hl.table rid).symm.trans h)
  exact List.mem_map.2 ⟨g, hg, hid⟩

/-- An uncommitted entry is an unsettled grant, and an unsettled grant is an uncommitted entry. -/
theorem Linked.get?_uncommitted_iff {w : World} (hl : Linked w) (rid : String) (r : Reservation)
    (hr : r.committed = false) :
    w.daemon.reservations.get? rid = some r ↔ r ∈ w.ledger.grants ∧ r.reservationId = rid ∧
      w.ledger.unsettled rid = true := by
  rw [hl.table rid, Ledger.unsettled_eq_true_iff]
  constructor
  · intro h
    obtain ⟨h1, h2, -⟩ := (w.ledger.entry_eq_some_iff rid r).1 h
    obtain ⟨g, hgm, hid, rfl⟩ := Ledger.mem_of_entry h
    have hc : w.ledger.committed.contains rid = false := hr
    have hgc := hl.unmarked g hgm
    have hself : { g with committed := w.ledger.committed.contains rid } = g := by
      rw [hc, ← hgc]
    rw [hself]
    exact ⟨hgm, hid, by simpa using hc, h1, h2⟩
  · rintro ⟨hm, rfl, hc, h1, h2⟩
    rw [Ledger.entry_of_mem hl.nodup hm h1 h2]
    have : w.ledger.committed.contains r.reservationId = false := by simpa using hc
    rw [this, ← hr]

theorem Linked.grant_of_get? {w : World} (hl : Linked w) {rid : String} {r : Reservation}
    (h : w.daemon.reservations.get? rid = some r) :
    ∃ g ∈ w.ledger.grants, g.reservationId = rid ∧ r = { g with committed := r.committed } ∧
      (w.ledger.unsettled rid = true ↔ r.committed = false) := by
  have hent := (hl.table rid).symm.trans h
  obtain ⟨h1, h2, -⟩ := (w.ledger.entry_eq_some_iff rid r).1 hent
  obtain ⟨g, hg, hid, rfl⟩ := Ledger.mem_of_entry hent
  refine ⟨g, hg, hid, rfl, ?_⟩
  rw [Ledger.unsettled_eq_true_iff]
  show _ ↔ w.ledger.committed.contains rid = false
  simp [h1, h2]

theorem linked_init (d : BrokerDaemon) (h : d.reservations = Dict.empty) : Linked ⟨d, {}⟩ where
  nodup := List.nodup_nil
  unmarked := by simp
  table rid := by rw [h]; rfl
  known rid h := by simp [Ledger.unsettled] at h

theorem contains_snoc_of_ne (ids : List String) {rid x : String} (h : rid ≠ x) :
    (ids ++ [x]).contains rid = ids.contains rid := by
  simp [h]

theorem linked_commit {w : World} (hl : Linked w) (a : BrokerDaemon.CommitArgs) (d' : BrokerDaemon)
    (hd : d'.reservations = w.daemon.reservations.commit a.reservationId) :
    Linked ⟨d', w.ledger.recordCommit w.daemon a⟩ := by
  unfold Ledger.recordCommit
  cases hg : w.daemon.reservations.get? a.reservationId with
  | none =>
    refine ⟨hl.nodup, hl.unmarked, fun rid => ?_, hl.known⟩
    rw [hd, ReservationStore.commit, hg]
    exact hl.table rid
  | some r =>
    refine ⟨hl.nodup, hl.unmarked, fun rid => ?_, fun rid hrid => ?_⟩
    · rw [hd, ReservationStore.get?_commit, hl.table rid]
      by_cases hx : rid = a.reservationId
      · subst hx
        simp only [if_true, Ledger.entry]
        split
        · rfl
        · cases w.ledger.grants.find? (fun g => g.reservationId = a.reservationId) <;> simp
      · rw [if_neg hx]
        rw [Ledger.entry, Ledger.entry, contains_snoc_of_ne _ hx]
    · by_cases hx : rid = a.reservationId
      · subst hx
        exact hl.mem_grants hg
      · apply hl.known
        simpa [Ledger.unsettled, hx] using hrid

theorem linked_release {w : World} (hl : Linked w) (a : BrokerDaemon.ReleaseArgs) (d' : BrokerDaemon)
    (hd : d'.reservations = w.daemon.reservations.release a.reservationId) :
    Linked ⟨d', w.ledger.recordRelease w.daemon a⟩ := by
  unfold Ledger.recordRelease
  cases hg : w.daemon.reservations.get? a.reservationId with
  | none =>
    refine ⟨hl.nodup, hl.unmarked, fun rid => ?_, hl.known⟩
    rw [hd, ReservationStore.get?_release]
    by_cases hx : rid = a.reservationId
    · rw [if_pos hx, ← hl.table rid, hx, hg]
    · rw [if_neg hx]
      exact hl.table rid
  | some r =>
    refine ⟨hl.nodup, hl.unmarked, fun rid => ?_, fun rid hrid => ?_⟩
    · rw [hd, ReservationStore.get?_release, hl.table rid]
      by_cases hx : rid = a.reservationId
      · subst hx
        simp [Ledger.entry]
      · rw [if_neg hx]
        rw [Ledger.entry, Ledger.entry, contains_snoc_of_ne _ hx]
    · by_cases hx : rid = a.reservationId
      · subst hx
        exact hl.mem_grants hg
      · apply hl.known
        simpa [Ledger.unsettled, hx] using hrid

/-- An id is among the ids of the expired entries exactly when the table holds an expired entry under it. -/
theorem Linked.mem_expired_ids {w : World} (hl : Linked w) (now : ℚ) (rid : String) :
    rid ∈ (ReservationStore.expired w.daemon.reservations now).map (·.reservationId) ↔
      ∃ r, w.daemon.reservations.get? rid = some r ∧ r.expiredAt now = true := by
  rw [List.mem_map]
  constructor
  · rintro ⟨r, hr, rfl⟩
    obtain ⟨⟨k, hk⟩, he⟩ := (ReservationStore.mem_expired_iff _ now r).1 hr
    obtain ⟨g, -, hid, hg⟩ := Ledger.mem_of_entry ((hl.table k).symm.trans hk)
    have : r.reservationId = k := by rw [hg]; exact hid
    exact ⟨r, by rw [this]; exact hk, he⟩
  · rintro ⟨r, hr, he⟩
    obtain ⟨g, -, hid, hg⟩ := Ledger.mem_of_entry ((hl.table rid).symm.trans hr)
    exact ⟨r, (ReservationStore.mem_expired_iff _ now r).2 ⟨⟨rid, hr⟩, he⟩, by rw [hg]; exact hid⟩

theorem linked_reap {w : World} (hl : Linked w) (now : ℚ) :
    Linked ⟨w.daemon.reap now, w.ledger.recordReap w.daemon now⟩ := by
  refine ⟨hl.nodup, hl.unmarked, fun rid => ?_, fun rid hrid => ?_⟩
  · show (ReservationStore.reapExpired w.daemon.reservations now).get? rid = _
    rw [ReservationStore.get?_reapExpired]
    have hmem := hl.mem_expired_ids now rid
    cases hg : w.daemon.reservations.get? rid with
    | none =>
      have hno : rid ∉ (ReservationStore.expired w.daemon.reservations now).map (·.reservationId) := by
        rw [hmem, hg]
        rintro ⟨r, hr, -⟩
        cases hr
      have hent := (hl.table rid).symm.trans hg
      simp only [Ledger.entry, Ledger.recordReap, List.contains_append] at hent ⊢
      have : ((ReservationStore.expired w.daemon.reservations now).map (·.reservationId)).contains rid = false := by
        simpa using hno
      rw [this, Bool.or_false]
      exact hent.symm
    | some r =>
      have hent := (hl.table rid).symm.trans hg
      by_cases he : r.expiredAt now = true
      · have hin : ((ReservationStore.expired w.daemon.reservations now).map (·.reservationId)).contains rid = true := by
          rw [List.contains_iff_mem]
          exact hmem.2 ⟨r, hg, he⟩
        simp only [Ledger.entry, Ledger.recordReap, List.contains_append, hin, Bool.or_true, if_true]
        simp [Option.filter, he]
      · have hout : ((ReservationStore.expired w.daemon.reservations now).map (·.reservationId)).contains rid = false := by
          have : rid ∉ (ReservationStore.expired w.daemon.reservations now).map (·.reservationId) := by
            rw [hmem, hg]
            rintro ⟨r', hr', he'⟩
            cases hr'
            exact he he'
          simpa using this
        simp only [Ledger.entry, Ledger.recordReap, List.contains_append, hout, Bool.or_false] at hent ⊢
        rw [hent]
        simp [Option.filter, he]
  · by_cases hx : rid ∈ (ReservationStore.expired w.daemon.reservations now).map (·.reservationId)
    · obtain ⟨r, hr, -⟩ := (hl.mem_expired_ids now rid).1 hx
      exact hl.mem_grants hr
    · apply hl.known
      have : ((ReservationStore.expired w.daemon.reservations now).map (·.reservationId)).contains rid = false := by
        simpa using hx
      simp only [Ledger.unsettled, Ledger.recordReap, List.contains_append, this, Bool.or_false] at hrid ⊢
      exact hrid

theorem linked_grant {w : World} (hl : Linked w) (r : Reservation) (hr : r.committed = false)
    (hfresh : r.reservationId ∉ w.ledger.grants.map (·.reservationId)) (d' : BrokerDaemon)
    (hd : d'.reservations = w.daemon.reservations.create r) :
    Linked ⟨d', w.ledger.addGrant r⟩ := by
  have huns : w.ledger.unsettled r.reservationId = true := by
    by_contra h
    exact hfresh (hl.known _ (by simpa using h))
  obtain ⟨hc, h1, h2⟩ := (w.ledger.unsettled_eq_true_iff _).1 huns
  have hnone : w.ledger.grants.find? (fun g => g.reservationId = r.reservationId) = none := by
    rw [List.find?_eq_none]
    intro g hg
    simp only [decide_eq_true_eq]
    exact fun he => hfresh (List.mem_map.2 ⟨g, hg, he⟩)
  refine ⟨?_, ?_, fun rid => ?_, fun rid hrid => ?_⟩
  · rw [Ledger.addGrant, List.map_append, List.nodup_append]
    refine ⟨hl.nodup, by simp, ?_⟩
    intro x hx y hy
    simp only [List.map_cons, List.map_nil, List.mem_singleton] at hy
    subst hy
    exact fun he => hfresh (he ▸ hx)
  · intro g hg
    rcases List.mem_append.1 hg with hg | hg
    · exact hl.unmarked g hg
    · rw [List.mem_singleton.1 hg]; exact hr
  · rw [hd, ReservationStore.create, Dict.get?_set]
    by_cases hx : rid = r.reservationId
    · subst hx
      rw [if_pos rfl]
      symm
      refine (Ledger.entry_eq_some_iff _ _ _).2 ⟨h1, h2, r, ?_, ?_⟩
      · simp [Ledger.addGrant, hnone]
      · have : w.ledger.committed.contains r.reservationId = false := by simpa using hc
        rw [Ledger.addGrant, this, ← hr]
    · rw [if_neg hx, hl.table rid]
      simp [Ledger.entry, Ledger.addGrant, Ne.symm hx]
  · rw [Ledger.addGrant, List.map_append]
    exact List.mem_append_left _ (hl.known rid hrid)

/-- **The ledger stays linked to the table** through every step. -/
theorem linked_of_step {py : Builtins} {w w' : World} {e : Event} (hl : Linked w)
    (h : (brokerMachine py).step w e = some w') : Linked w' := by
  rcases effect_of_step h with ⟨msg, uuid, now, a, d₁, -, -, hfresh, hch⟩ | ⟨msg, uuid, now, a, -, -⟩ |
    ⟨msg, uuid, now, a, -, -⟩ | ⟨now⟩ | ⟨msg, uuid, now, d', hsame, -, -, -⟩
  · refine linked_grant hl _ rfl hfresh _ ?_
    have hres : d₁.reservations = w.daemon.reservations := by rw [hch.rest]
    show d₁.reservations.create _ = _
    rw [hres]
  · exact linked_commit hl a _ (BrokerDaemon.settleCommit_snd py w.daemon a now).1
  · exact linked_release hl a _ (BrokerDaemon.settleRelease_snd w.daemon a).1
  · exact linked_reap hl now
  · have hres : d'.reservations = w.daemon.reservations := by rw [hsame]
    exact ⟨hl.nodup, hl.unmarked, fun rid => by rw [← hl.table rid, ← hres], hl.known⟩

theorem buckets_isSome_of_step {py : Builtins} {w w' : World} {e : Event} (h : (brokerMachine py).step w e = some w')
    (p : ProviderId) : (w'.daemon.buckets p).isSome = (w.daemon.buckets p).isSome := by
  rcases effect_of_step h with ⟨msg, uuid, now, a, d₁, -, -, -, hch⟩ | ⟨msg, uuid, now, a, -, -⟩ |
    ⟨msg, uuid, now, a, -, -⟩ | ⟨now⟩ | ⟨msg, uuid, now, d', -, hbk, -, -⟩
  · show (d₁.buckets p).isSome = _
    rcases hch.bucket with ⟨-, hsame⟩ | ⟨b, b', hb, -, hupd⟩
    · rw [hsame]
    · rw [hupd]
      by_cases hp : p = a.provider
      · rw [hp, Function.update_self, hb]; rfl
      · rw [Function.update_of_ne hp]
  · exact (BrokerDaemon.settleCommit_snd py w.daemon a now).2.2 p
  · exact (BrokerDaemon.settleRelease_snd w.daemon a).2.2 p
  · rfl
  · exact hbk p

theorem limiters_isSome_of_step {py : Builtins} {w w' : World} {e : Event} (h : (brokerMachine py).step w e = some w')
    (p : ProviderId) : (w'.daemon.limiters p).isSome = (w.daemon.limiters p).isSome := by
  rcases effect_of_step h with ⟨msg, uuid, now, a, d₁, -, -, -, hch⟩ | ⟨msg, uuid, now, a, -, -⟩ |
    ⟨msg, uuid, now, a, -, -⟩ | ⟨now⟩ | ⟨msg, uuid, now, d', hsame, -, -, -⟩
  · show (d₁.limiters p).isSome = _
    rcases hch.limiter with ⟨-, hsame⟩ | ⟨l₀, l₁, hl₀, -, hupd⟩
    · rw [hsame]
    · rw [hupd]
      by_cases hp : p = a.provider
      · rw [hp, Function.update_self, hl₀]; rfl
      · rw [Function.update_of_ne hp]
  · rw [(BrokerDaemon.settleCommit_snd py w.daemon a now).2.1]
  · rw [(BrokerDaemon.settleRelease_snd w.daemon a).2.1]
    by_cases hp : p = a.provider
    · rw [hp, Function.update_self, Option.isSome_map]
    · rw [Function.update_of_ne hp]
  · rfl
  · show (d'.limiters p).isSome = _
    rw [hsame]

end Broker
end DevHarness
