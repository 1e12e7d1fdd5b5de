import DevHarness.Broker.Client
/-!
# Refunds — the tokens credited back on behalf of a reservation

COMMIT credits what the reservation did not use and keeps the entry; RELEASE credits all of it and drops the entry; both
credit the provider the message names.  `CreditClean` is a step that credits, if it credits, a reservation of that
provider on whose behalf nothing was credited before, for a usage that is not negative: along a run every state has its
credits in order exactly when every step is clean (`creditsOk_iff_creditClean`).
-/
namespace DevHarness
namespace Broker

open Lib

/-! ## Credits in order -/

/-- The most a settling message may give back of a reservation. -/
def allowance (g : Reservation) : Settling → PyFloat
  | .commit actual => g.tokens.sub (actual.max (.fin 0))
  | .release => g.tokens

/-- A credit to the bucket its reservation was granted against, within its allowance. -/
def FairCredit (L : Ledger) (c : Credit) : Prop :=
  ∃ g ∈ L.grants, g.reservationId = c.reservationId ∧ c.provider = g.provider ∧
    c.amount.le (allowance g c.settling) = true

/-- **Credits in order**: one at most on behalf of a reservation, to its own bucket, within its allowance. -/
structure CreditsOk (L : Ledger) : Prop where
  once : (L.credits.map (·.reservationId)).Nodup
  fair : ∀ c ∈ L.credits, FairCredit L c

def creditable (d : BrokerDaemon) (p : ProviderId) (amount : PyFloat) : Bool := (d.buckets p).isSome && amount.isPos

/-- A COMMIT that credits does so once, to its own bucket, for a usage that is not negative. -/
def CommitClean (w : World) (a : BrokerDaemon.CommitArgs) : Prop :=
  ∀ r ∈ w.daemon.reservations.get? a.reservationId, creditable w.daemon a.provider (r.tokens.sub a.actual) = true →
    a.reservationId ∉ w.ledger.credits.map (·.reservationId) ∧ a.provider = r.provider ∧ a.actual.lt (.fin 0) = false

/-- A RELEASE that credits does so once, to its own bucket. -/
def ReleaseClean (w : World) (a : BrokerDaemon.ReleaseArgs) : Prop :=
  ∀ r ∈ w.daemon.reservations.get? a.reservationId, creditable w.daemon a.provider r.tokens = true →
    a.reservationId ∉ w.ledger.credits.map (·.reservationId) ∧ a.provider = r.provider

/-- **A clean step** for the credits. -/
def CreditClean (py : Builtins) (w : World) : Event → Prop
  | .reap _ => True
  | .message msg _ _ =>
    (msg.op = "COMMIT" → ∀ a ∈ (BrokerDaemon.commitArgs py msg.data).toOption, CommitClean w a) ∧
    (msg.op = "RELEASE" → ∀ a ∈ (BrokerDaemon.releaseArgs py msg.data).toOption, ReleaseClean w a)

instance (w : World) (a : BrokerDaemon.CommitArgs) : Decidable (CommitClean w a) :=
  inferInstanceAs (Decidable (∀ r ∈ w.daemon.reservations.get? a.reservationId, _ → _))

instance (w : World) (a : BrokerDaemon.ReleaseArgs) : Decidable (ReleaseClean w a) :=
  inferInstanceAs (Decidable (∀ r ∈ w.daemon.reservations.get? a.reservationId, _ → _))

instance (py : Builtins) (w : World) : ∀ e, Decidable (CreditClean py w e)
  | .reap _ => isTrue trivial
  | .message msg _ _ => inferInstanceAs (Decidable ((msg.op = "COMMIT" → ∀ a ∈ _, CommitClean w a) ∧
      (msg.op = "RELEASE" → ∀ a ∈ _, ReleaseClean w a)))

/-! ## One more credit -/

theorem creditsOk_of_same {L L' : Ledger} (hg : L'.grants = L.grants) (hc : L'.credits = L.credits) :
    CreditsOk L' ↔ CreditsOk L := by
  constructor
  · rintro ⟨h1, h2⟩
    rw [hc] at h1 h2
    refine ⟨h1, fun c hm => ?_⟩
    obtain ⟨g, hgm, h⟩ := h2 c hm
    exact ⟨g, hg ▸ hgm, h⟩
  · rintro ⟨h1, h2⟩
    refine ⟨hc ▸ h1, fun c hm => ?_⟩
    obtain ⟨g, hgm, h⟩ := h2 c (hc ▸ hm)
    exact ⟨g, hg.symm ▸ hgm, h⟩

/-- **One more credit keeps the credits in order** exactly when it is the first of its reservation and fair. -/
theorem creditsOk_append {L L' : Ledger} {c : Credit} (hg : L'.grants = L.grants) (hc : L'.credits = L.credits ++ [c]) :
    CreditsOk L' ↔ CreditsOk L ∧ c.reservationId ∉ L.credits.map (·.reservationId) ∧ FairCredit L c := by
  have hfair : ∀ x, FairCredit L' x ↔ FairCredit L x := by
    intro x
    unfold FairCredit
    rw [hg]
  constructor
  · rintro ⟨h1, h2⟩
    rw [hc, List.map_append, List.nodup_append] at h1
    rw [hc] at h2
    refine ⟨⟨h1.1, fun x hx => (hfair x).1 (h2 x (List.mem_append_left _ hx))⟩, fun hm => ?_, ?_⟩
    · exact h1.2.2 _ hm _ (by simp) rfl
    · exact (hfair c).1 (h2 c (by simp))
  · rintro ⟨⟨h1, h2⟩, hnew, hf⟩
    refine ⟨?_, fun x hx => ?_⟩
    · rw [hc, List.map_append, List.nodup_append]
      refine ⟨h1, by simp, ?_⟩
      intro x hx y hy
      simp only [List.map_cons, List.map_nil, List.mem_singleton] at hy
      subst hy
      exact fun he => hnew (he ▸ hx)
    · rw [hc] at hx
      rcases List.mem_append.1 hx with hx | hx
      · exact (hfair x).2 (h2 x hx)
      · rw [List.mem_singleton.1 hx]
        exact (hfair c).2 hf

theorem fairCredit_iff {w : World} (hl : Linked w) {r : Reservation} {c : Credit}
    (hr : w.daemon.reservations.get? c.reservationId = some r) :
    FairCredit w.ledger c ↔ c.provider = r.provider ∧ c.amount.le (allowance r c.settling) = true := by
  obtain ⟨-, -, g, hfind, hrg⟩ := (w.ledger.entry_eq_some_iff c.reservationId r).1 ((hl.table _).symm.trans hr)
  have hg := List.mem_of_find?_eq_some hfind
  have hid : g.reservationId = c.reservationId := by simpa using List.find?_some hfind
  have hprov : r.provider = g.provider := by rw [hrg]
  have htok : allowance r c.settling = allowance g c.settling := by rw [hrg]; cases c.settling <;> rfl
  rw [hprov, htok]
  constructor
  · rintro ⟨g', hg', hid', h⟩
    have : g' = g := List.inj_on_of_nodup_map hl.nodup hg' hg (hid'.trans hid.symm)
    rw [← this]
    exact h
  · intro h
    exact ⟨g, hg, hid, h⟩

/-- What COMMIT gives back of a positive finite count is within its allowance exactly when the usage is not negative. -/
theorem commit_le_allowance_iff {q : ℚ} {actual : PyFloat} (hpos : ((PyFloat.fin q).sub actual).isPos = true) :
    ((PyFloat.fin q).sub actual).le ((PyFloat.fin q).sub (actual.max (.fin 0))) = true ↔ actual.lt (.fin 0) = false := by
  cases actual with
  | fin x =>
    by_cases hx : x < 0
    · simp only [PyFloat.max, PyFloat.lt, PyFloat.sub, PyFloat.le, hx, decide_true, if_true, decide_eq_true_eq]
      constructor
      · intro h; linarith
      · intro h; cases h
    · simp [PyFloat.max, PyFloat.lt, PyFloat.sub, PyFloat.le, hx]
  | inf => cases hpos
  | negInf => simp [PyFloat.max, PyFloat.lt, PyFloat.sub, PyFloat.le]
  | nan => cases hpos

/-! ## The invariant -/

/-- Credits in order, and a count charged to a bucket is a positive rational. -/
structure CreditInv (w : World) : Prop where
  linked : Linked w
  credits : CreditsOk w.ledger
  charged : ∀ g ∈ w.ledger.grants, (w.daemon.buckets g.provider).isSome = true → ∃ q, 0 < q ∧ g.tokens = .fin q

theorem charged_of_step {py : Builtins} {w w' : World} {e : Event} (hinv : CreditInv w)
    (h : (brokerMachine py).step w e = some w') :
    ∀ g ∈ w'.ledger.grants, (w'.daemon.buckets g.provider).isSome = true → ∃ q, 0 < q ∧ g.tokens = .fin q := by
  intro g hg hb
  rw [buckets_isSome_of_step h] at hb
  rcases effect_of_step h with ⟨msg, uuid, now, a, d₁, -, -, -, hch⟩ | ⟨msg, uuid, now, a, -, -⟩ |
    ⟨msg, uuid, now, a, -, -⟩ | ⟨now⟩ | ⟨msg, uuid, now, d', -, -, -, -⟩
  · rcases List.mem_append.1 hg with hg | hg
    · exact hinv.charged g hg hb
    · rw [List.mem_singleton.1 hg] at hb ⊢
      rcases hch.bucket with ⟨hnone, -⟩ | ⟨b, b', -, hacq, -⟩
      · rw [show (ReservationStore.fresh uuid a.provider a.tokens a.callback now).provider = a.provider from rfl,
          hnone] at hb
        cases hb
      · obtain ⟨q, hq, hpos⟩ := TokenBucket.fin_pos_of_tryAcquire hacq
        exact ⟨q, hpos, hq⟩
  · exact hinv.charged g (Ledger.grants_recordCommit w.ledger w.daemon a ▸ hg) hb
  · exact hinv.charged g (Ledger.grants_recordRelease w.ledger w.daemon a ▸ hg) hb
  · exact hinv.charged g hg hb
  · exact hinv.charged g hg hb

theorem CreditInv.tokens_of_get? {w : World} (hinv : CreditInv w) {rid : String} {r : Reservation}
    (hr : w.daemon.reservations.get? rid = some r) (hb : (w.daemon.buckets r.provider).isSome = true) :
    ∃ q, 0 < q ∧ r.tokens = .fin q := by
  obtain ⟨g, hg, -, hrg⟩ := Ledger.mem_of_entry ((hinv.linked.table rid).symm.trans hr)
  have hprov : r.provider = g.provider := by rw [hrg]
  have htok : r.tokens = g.tokens := by rw [hrg]
  rw [htok]
  exact hinv.charged g hg (hprov ▸ hb)

theorem creditsOk_commit_iff {w : World} (hinv : CreditInv w) (a : BrokerDaemon.CommitArgs) :
    CreditsOk (w.ledger.recordCommit w.daemon a) ↔ CommitClean w a := by
  unfold CommitClean
  cases hr : w.daemon.reservations.get? a.reservationId with
  | none =>
    rw [Ledger.recordCommit, hr]
    simp [hinv.credits]
  | some r =>
    have hdelta : w.daemon.reservations.commitDelta a.reservationId a.actual =
        (PyFloat.fin 0).max (r.tokens.sub a.actual) := by rw [ReservationStore.commitDelta, hr]
    have hrec : (w.ledger.recordCommit w.daemon a).grants = w.ledger.grants ∧
        (w.ledger.recordCommit w.daemon a).credits = w.ledger.credits ++ Ledger.creditOf w.daemon a.provider
          a.reservationId ((PyFloat.fin 0).max (r.tokens.sub a.actual)) (.commit a.actual) := by
      rw [Ledger.recordCommit, hr, ← hdelta]
      exact ⟨rfl, rfl⟩
    have hcr : ((w.daemon.buckets a.provider).isSome && ((PyFloat.fin 0).max (r.tokens.sub a.actual)).isPos) =
        creditable w.daemon a.provider (r.tokens.sub a.actual) := by rw [PyFloat.isPos_max_zero]; rfl
    by_cases hcred : creditable w.daemon a.provider (r.tokens.sub a.actual) = true
    · have hpos : ((PyFloat.fin 0).max (r.tokens.sub a.actual)).isPos = true := by
        rw [← hcr, Bool.and_eq_true] at hcred; exact hcred.2
      have hbk : (w.daemon.buckets a.provider).isSome = true := by
        rw [← hcr, Bool.and_eq_true] at hcred; exact hcred.1
      have hnew : Ledger.creditOf w.daemon a.provider a.reservationId
          ((PyFloat.fin 0).max (r.tokens.sub a.actual)) (.commit a.actual) =
          [⟨a.reservationId, a.provider, r.tokens.sub a.actual, .commit a.actual⟩] := by
        rw [Ledger.creditOf, hcr, if_pos hcred, PyFloat.max_zero_sub_isPos hpos]
      rw [hnew] at hrec
      rw [creditsOk_append hrec.1 hrec.2, fairCredit_iff hinv.linked hr]
      have hbound : a.provider = r.provider →
          ((r.tokens.sub a.actual).le (allowance r (.commit a.actual)) = true ↔ a.actual.lt (.fin 0) = false) := by
        intro hp
        obtain ⟨q, -, hq⟩ := hinv.tokens_of_get? hr (hp ▸ hbk)
        rw [allowance, hq]
        refine commit_le_allowance_iff ?_
        rw [← hq, ← PyFloat.max_zero_sub_isPos hpos]
        exact hpos
      constructor
      · rintro ⟨-, hn, hp, hle⟩ x hx -
        cases hx
        exact ⟨hn, hp, (hbound hp).1 hle⟩
      · intro h
        obtain ⟨hn, hp, hle⟩ := h r rfl hcred
        exact ⟨hinv.credits, hn, hp, (hbound hp).2 hle⟩
    · have hnew : Ledger.creditOf w.daemon a.provider a.reservationId
          ((PyFloat.fin 0).max (r.tokens.sub a.actual)) (.commit a.actual) = [] := by
        rw [Ledger.creditOf, hcr, if_neg hcred]
      rw [hnew, List.append_nil] at hrec
      rw [creditsOk_of_same hrec.1 hrec.2]
      refine iff_of_true hinv.credits (fun x hx hc => ?_)
      cases hx
      exact absurd hc hcred

theorem creditsOk_release_iff {w : World} (hinv : CreditInv w) (a : BrokerDaemon.ReleaseArgs) :
    CreditsOk (w.ledger.recordRelease w.daemon a) ↔ ReleaseClean w a := by
  unfold ReleaseClean
  cases hr : w.daemon.reservations.get? a.reservationId with
  | none =>
    rw [Ledger.recordRelease, hr]
    simp [hinv.credits]
  | some r =>
    have htok : w.daemon.reservations.releaseTokens a.reservationId = r.tokens := by
      rw [ReservationStore.releaseTokens, hr]
    have hrec : (w.ledger.recordRelease w.daemon a).grants = w.ledger.grants ∧
        (w.ledger.recordRelease w.daemon a).credits = w.ledger.credits ++ Ledger.creditOf w.daemon a.provider
          a.reservationId r.tokens .release := by
      rw [Ledger.recordRelease, hr, ← htok]
      exact ⟨rfl, rfl⟩
    by_cases hcred : creditable w.daemon a.provider r.tokens = true
    · have hbk : (w.daemon.buckets a.provider).isSome = true := by
        rw [creditable, Bool.and_eq_true] at hcred; exact hcred.1
      have hnew : Ledger.creditOf w.daemon a.provider a.reservationId r.tokens .release =
          [⟨a.reservationId, a.provider, r.tokens, .release⟩] := if_pos hcred
      rw [hnew] at hrec
      rw [creditsOk_append hrec.1 hrec.2, fairCredit_iff hinv.linked hr]
      constructor
      · rintro ⟨-, hn, hp, -⟩ x hx -
        cases hx
        exact ⟨hn, hp⟩
      · intro h
        obtain ⟨hn, hp⟩ := h r rfl hcred
        refine ⟨hinv.credits, hn, hp, ?_⟩
        obtain ⟨q, -, hq⟩ := hinv.tokens_of_get? hr (hp ▸ hbk)
        rw [allowance, hq]
        simp [PyFloat.le]
    · have hnew : Ledger.creditOf w.daemon a.provider a.reservationId r.tokens .release = [] := if_neg hcred
      rw [hnew, List.append_nil] at hrec
      rw [creditsOk_of_same hrec.1 hrec.2]
      refine iff_of_true hinv.credits (fun x hx hc => ?_)
      cases hx
      exact absurd hc hcred

/-- **A step leaves the credits in order exactly when it is clean.** -/
theorem creditsOk_iff_of_step {py : Builtins} {w w' : World} {e : Event} (hinv : CreditInv w)
    (h : (brokerMachine py).step w e = some w') : CreditsOk w'.ledger ↔ CreditClean py w e := by
  rcases effect_of_step h with ⟨msg, uuid, now, a, d₁, hop, -, -, -⟩ | ⟨msg, uuid, now, a, hop, hargs⟩ |
    ⟨msg, uuid, now, a, hop, hargs⟩ | ⟨now⟩ | ⟨msg, uuid, now, d', -, -, hco, hre⟩
  · refine iff_of_true ⟨hinv.credits.once, fun c hc => ?_⟩ ⟨fun hc => ?_, fun hc => ?_⟩
    · obtain ⟨g, hg, hrest⟩ := hinv.credits.fair c hc
      exact ⟨g, List.mem_append_left _ hg, hrest⟩
    · rw [hop] at hc; exact absurd hc (by decide)
    · rw [hop] at hc; exact absurd hc (by decide)
  · rw [show CreditsOk (World.ledger ⟨_, w.ledger.recordCommit w.daemon a⟩) ↔ _ from creditsOk_commit_iff hinv a]
    constructor
    · intro hc
      refine ⟨fun _ x hx => ?_, fun hl => absurd (hop.symm.trans hl) (by decide)⟩
      rw [hargs] at hx
      cases hx
      exact hc
    · exact fun hc => hc.1 hop a (by rw [hargs]; rfl)
  · rw [show CreditsOk (World.ledger ⟨_, w.ledger.recordRelease w.daemon a⟩) ↔ _ from creditsOk_release_iff hinv a]
    constructor
    · intro hc
      refine ⟨fun hl => absurd (hop.symm.trans hl) (by decide), fun _ x hx => ?_⟩
      rw [hargs] at hx
      cases hx
      exact hc
    · exact fun hc => hc.2 hop a (by rw [hargs]; rfl)
  · exact iff_of_true ⟨hinv.credits.once, hinv.credits.fair⟩ trivial
  · refine iff_of_true hinv.credits ⟨fun hop x hx => ?_, fun hop x hx => ?_⟩
    · obtain ⟨er, her⟩ := hco hop
      rw [her] at hx
      cases hx
    · obtain ⟨er, her⟩ := hre hop
      rw [her] at hx
      cases hx

/-- **Along a run the credits stay in order exactly when every step is clean.** -/
theorem creditsOk_iff_creditClean (py : Builtins) (cfg : HarnessConfig) (now : ℚ) (d : BrokerDaemon)
    (hd : BrokerDaemon.init cfg now = some d) (es : List Event) :
    (brokerMachine py).Along (fun _ _ w' => CreditsOk w'.ledger) ⟨d, {}⟩ es ↔
      (brokerMachine py).Along (fun w e _ => CreditClean py w e) ⟨d, {}⟩ es := by
  refine (brokerMachine py).along_iff_along CreditInv ?_ ?_ es ⟨d, {}⟩ ?_
  · intro w e w' hinv h
    exact creditsOk_iff_of_step hinv h
  · intro w e w' hinv hok h
    exact ⟨linked_of_step hinv.linked h, hok, charged_of_step hinv h⟩
  · exact ⟨linked_init d (asBuilt_init hd).table, ⟨List.nodup_nil, fun c hc => by cases hc⟩, fun g hg => by cases hg⟩

/-! ## A provider with a bucket of sixty -/

def sixtyPerMinute : HarnessConfig := { providers := Dict.empty.set "ollama" { rpm := some 60 } }

def committedOnce : List Event :=
  [.message (BrokerClient.reserve .ollama (.fin 10) "") "r1" 0,
    .message (BrokerClient.commit .ollama "r1" (.fin 4) "" ⟨0, 0⟩ "") "" 0]

def committedTwice : List Event :=
  [.message (BrokerClient.reserve .ollama (.fin 10) "") "r1" 0,
    .message (BrokerClient.reserve .ollama (.fin 10) "") "r2" 0,
    .message (BrokerClient.commit .ollama "r1" (.fin 0) "" ⟨0, 0⟩ "") "" 0,
    .message (BrokerClient.commit .ollama "r1" (.fin 0) "" ⟨0, 0⟩ "") "" 0]

theorem creditsOk_committedOnce : ∃ d, BrokerDaemon.init sixtyPerMinute 0 = some d ∧
    (brokerMachine Builtins.decimal).Along (fun _ _ w' => CreditsOk w'.ledger) ⟨d, {}⟩ committedOnce := by
  obtain ⟨d, hd⟩ := Option.isSome_iff_exists.1
    (show (BrokerDaemon.init sixtyPerMinute 0).isSome = true by decide +kernel)
  have hclean : (BrokerDaemon.init sixtyPerMinute 0).all (fun d => decide ((brokerMachine Builtins.decimal).Along
      (fun w e _ => CreditClean Builtins.decimal w e) ⟨d, {}⟩ committedOnce)) = true := by decide +kernel
  rw [hd, Option.all_some, decide_eq_true_eq] at hclean
  exact ⟨d, hd, (creditsOk_iff_creditClean Builtins.decimal sixtyPerMinute 0 d hd committedOnce).2 hclean⟩

/-- **A second COMMIT credits again**: twenty tokens come back on behalf of a reservation of ten, and the bucket is full
while another reservation still holds ten. -/
theorem commit_credits_twice : ∃ d w, BrokerDaemon.init sixtyPerMinute 0 = some d ∧
    (brokerMachine Builtins.decimal).run ⟨d, {}⟩ committedTwice = some w ∧ ¬ CreditsOk w.ledger ∧
    w.ledger.credits = [⟨"r1", .ollama, .fin 10, .commit (.fin 0)⟩, ⟨"r1", .ollama, .fin 10, .commit (.fin 0)⟩] ∧
    (w.daemon.buckets .ollama).map (·.tokens) = some 60 ∧ w.ledger.unsettled "r2" = true := by
  obtain ⟨d, hd⟩ := Option.isSome_iff_exists.1
    (show (BrokerDaemon.init sixtyPerMinute 0).isSome = true by decide +kernel)
  let after (d : BrokerDaemon) := (brokerMachine Builtins.decimal).run ⟨d, {}⟩ committedTwice
  have hrun : (BrokerDaemon.init sixtyPerMinute 0).all (fun d => (after d).isSome) = true := by decide +kernel
  have hafter : (BrokerDaemon.init sixtyPerMinute 0).all (fun d => (after d).all (fun w => decide (
      w.ledger.credits = [⟨"r1", .ollama, .fin 10, .commit (.fin 0)⟩, ⟨"r1", .ollama, .fin 10, .commit (.fin 0)⟩] ∧
      (w.daemon.buckets .ollama).map (·.tokens) = some 60 ∧ w.ledger.unsettled "r2" = true))) = true := by
    decide +kernel
  rw [hd, Option.all_some] at hrun hafter
  obtain ⟨w, hw⟩ := Option.isSome_iff_exists.1 hrun
  rw [hw, Option.all_some, decide_eq_true_eq] at hafter
  refine ⟨d, w, hd, hw, fun hok => ?_, hafter⟩
  have hnodup := hok.once
  rw [hafter.1] at hnodup
  exact absurd hnodup (by decide)

end Broker
end DevHarness
