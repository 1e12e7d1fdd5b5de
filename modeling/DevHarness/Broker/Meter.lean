import DevHarness.Broker.History
/-!
# Meter — the usages a history committed, and what the daemon accounts of them

`usages` is kept beside the daemon, like the ledger: each COMMIT of a model in the registry, with its price, and the
granted reservation it settles, if it settles one.  Of all a message can do, only such a COMMIT moves what the daemon
accounts, and only when its counts convert to floats, for else pricing it raises: the account is a fold of
`Account.charge` over `commits`, the usages that were priced (`account_of_run`).
-/
namespace DevHarness
namespace Broker

open Lib

/-! ## The usages committed -/

structure Commit where
  settles : Option Reservation
  cost : ℚ
  tokens : ℤ
  now : ℚ
  callback : String
  -- The counts convert to floats.
  priced : Bool
  deriving DecidableEq

/-- The granted reservation a COMMIT of this id settles: none when the id is unknown, or settled already. -/
def Ledger.settledBy (L : Ledger) (rid : String) : Option Reservation :=
  if L.unsettled rid then L.grants.find? (fun g => g.reservationId = rid) else none

/-- The usage of a COMMIT of a model in the registry. -/
def BrokerDaemon.usageOf (py : Builtins) (d : BrokerDaemon) (a : BrokerDaemon.CommitArgs) (now : ℚ)
    (settles : Option Reservation) : Option Commit :=
  if a.model = "" then none else (d.registry.get? a.model).map (fun m => ⟨settles, price m a.usage,
    a.usage.inputTokens + a.usage.outputTokens, now, a.callback, decide (a.usage.Fits py)⟩)

/-- The usage an event commits: that of a COMMIT whose fields convert. -/
def commitOf (py : Builtins) (w : World) : Event → Option Commit
  | .reap _ => none
  | .message msg _ now =>
    if msg.op = "COMMIT" then match BrokerDaemon.commitArgs py msg.data with
      | .error _ => none
      | .ok a => w.daemon.usageOf py a now (w.ledger.settledBy a.reservationId)
    else none

structure Metered where
  world : World
  usages : List Commit := []

/-- The usages whose pricing did not raise. -/
def committed (cs : List Commit) : List Commit := cs.filter (·.priced)

def Metered.commits (m : Metered) : List Commit := committed m.usages

def Metered.step (py : Builtins) (m : Metered) (e : Event) : Option Metered :=
  (World.step py m.world e).map (fun w => ⟨w, m.usages ++ (commitOf py m.world e).toList⟩)

def meterMachine (py : Builtins) : Machine Metered Event := ⟨Metered.step py⟩

theorem committed_append (cs ds : List Commit) : committed (cs ++ ds) = committed cs ++ committed ds :=
  List.filter_append cs ds

theorem commitOf_of_ne {py : Builtins} {msg : BrokerMessage} (hop : msg.op ≠ "COMMIT") (w : World) (uuid : String)
    (now : ℚ) : commitOf py w (.message msg uuid now) = none := if_neg hop

theorem meter_step_eq_some {py : Builtins} {m m' : Metered} {e : Event} (h : (meterMachine py).step m e = some m') :
    (brokerMachine py).step m.world e = some m'.world ∧ m'.usages = m.usages ++ (commitOf py m.world e).toList := by
  obtain ⟨w, hw, rfl⟩ := Option.map_eq_some_iff.1 h
  exact ⟨hw, rfl⟩

/-! ## The account -/

/-- What the daemon accounts of usages. -/
structure Account where
  registry : ModelRegistry
  governor : CostGovernor
  kill : KillSwitch
  tpmBurn : ℤ
  cumulativeUsd : ℚ

def BrokerDaemon.account (d : BrokerDaemon) : Account := ⟨d.registry, d.governor, d.kill, d.tpmBurn, d.cumulativeUsd⟩

/-- One usage committed: charged, or refused by the governor with the switch tripped. -/
def Account.charge (A : Account) (c : Commit) : Account :=
  let g := (A.governor.commitCost c.cost c.now).2
  if (A.governor.rollDay c.now).breaches c.cost then { A with governor := g, kill := A.kill.trip c.callback }
  else { A with governor := g, tpmBurn := A.tpmBurn + c.tokens, cumulativeUsd := g.runUsd }

def Account.init (cfg : HarnessConfig) (start : ℚ) : Account := ⟨loadModels cfg, CostGovernor.init cfg start, {}, 0, 0⟩

def Account.after (A : Account) (cs : List Commit) : Account := cs.foldl Account.charge A

theorem Account.after_snoc (A : Account) (cs : List Commit) (c : Commit) :
    A.after (cs ++ [c]) = (A.after cs).charge c := by
  unfold Account.after
  rw [List.foldl_append]
  rfl

namespace BrokerDaemon

section
variable {py : Builtins} {d : BrokerDaemon} {a : CommitArgs} (now : ℚ)

theorem account_charge {m : ModelEntry} (hm : d.registry.get? a.model = some m) (hu : a.usage.Fits py)
    (s : Option Reservation) : (d.charge py a now).2.account = d.account.charge
      ⟨s, price m a.usage, a.usage.inputTokens + a.usage.outputTokens, now, a.callback, decide (a.usage.Fits py)⟩ := by
  unfold charge Account.charge
  rw [CostGovernor.commit_priced d.governor hm hu]
  unfold CostGovernor.commitCost
  by_cases hb : (d.governor.rollDay now).breaches (price m a.usage) = true
  · simp only [account, hb, if_true]
  · simp only [account, hb, if_false, recordLatency, Bool.false_eq_true]

theorem account_charge_unknown (hm : d.registry.get? a.model = none) : (d.charge py a now).2.account = d.account := by
  unfold charge
  rw [CostGovernor.commit_unknown d.governor hm]

/-- A usage too large for a float raises before the governor counts it. -/
theorem account_charge_overflow {m : ModelEntry} (hm : d.registry.get? a.model = some m) (hu : ¬ a.usage.Fits py) :
    (d.charge py a now).2.account = d.account := by
  unfold charge
  rw [CostGovernor.commit_overflow d.governor hm hu]

end

/-- **What a charge adds to the account**: the usage, if it is of a known model and has a price. -/
theorem account_charge_usage (py : Builtins) (d : BrokerDaemon) (a : CommitArgs) (now : ℚ) (s : Option Reservation)
    (hname : a.model ≠ "") :
    (d.charge py a now).2.account = d.account.after (committed (d.usageOf py a now s).toList) := by
  unfold usageOf committed
  rw [if_neg hname]
  cases hm : d.registry.get? a.model with
  | none => exact account_charge_unknown now hm
  | some m =>
    by_cases hu : a.usage.Fits py
    · rw [account_charge now hm hu s]
      simp [hu, Account.after]
    · rw [account_charge_overflow now hm hu]
      simp [hu, Account.after]

theorem account_settleCommit (py : Builtins) (d : BrokerDaemon) (a : CommitArgs) (now : ℚ) (s : Option Reservation) :
    (d.settleCommit py a now).2.account = d.account.after (committed (d.usageOf py a now s).toList) := by
  obtain ⟨d₁, h1, hrest, -⟩ := creditBucket_eq
    ({ d with reservations := d.reservations.commit a.reservationId }) a.provider
    (d.reservations.commitDelta a.reservationId a.actual)
  have hacc : d₁.account = d.account := by rw [hrest]; rfl
  have hreg : d₁.registry = d.registry := by rw [hrest]
  unfold settleCommit
  simp only [h1]
  by_cases hname : a.model = ""
  · have hnone : d.usageOf py a now s = none := if_pos hname
    rw [if_pos hname, hnone]
    exact hacc
  · rw [if_neg hname]
    have hcharge : (d₁.charge py a now).2.account = d.account.after (committed (d.usageOf py a now s).toList) := by
      have husage : d₁.usageOf py a now s = d.usageOf py a now s := by rw [usageOf, usageOf, hreg]
      rw [account_charge_usage py d₁ a now s hname, husage, hacc]
    rw [← hcharge]
    cases d₁.charge py a now with
    | mk r d₂ => cases r <;> rfl

theorem account_settleRelease (d : BrokerDaemon) (a : ReleaseArgs) : (d.settleRelease a).2.account = d.account := by
  obtain ⟨d₁, h1, hrest, -⟩ := creditBucket_eq
    ({ d with reservations := d.reservations.release a.reservationId }) a.provider
    (d.reservations.releaseTokens a.reservationId)
  have hacc : d₁.account = d.account := by rw [hrest]; rfl
  have hfree : (d₁.freeSlot a.provider).2.account = d₁.account := by
    unfold freeSlot
    cases d₁.limiters a.provider <;> rfl
  unfold settleRelease
  simp only [h1]
  cases hc : d₁.freeSlot a.provider with
  | mk r d₂ =>
    rw [hc] at hfree
    cases r <;> exact hfree.trans hacc

theorem account_buildBuckets {now : ℚ} : ∀ (ps : List ProviderPolicy) (d d' : BrokerDaemon),
    buildBuckets now ps d = some d' → d'.account = d.account
  | [], d, d', h => by cases h; rfl
  | p :: ps, d, d', h => by
    obtain ⟨d₂, h₂, h₃⟩ := Option.bind_eq_some_iff.1 h
    obtain ⟨d₁, h₀, h₁⟩ := Option.bind_eq_some_iff.1 h₂
    have hb : d₁.account = d.account := by
      unfold addBucket at h₀
      cases hr : p.rpm with
      | none => rw [hr] at h₀; cases h₀; rfl
      | some rpm =>
        rw [hr] at h₀
        obtain ⟨b, -, rfl⟩ := Option.map_eq_some_iff.1 h₀
        rfl
    have hl : d₂.account = d₁.account := by
      unfold addLimiter at h₁
      cases hr : p.maxConcurrency with
      | none => rw [hr] at h₁; cases h₁; rfl
      | some n =>
        rw [hr] at h₁
        obtain ⟨l, -, rfl⟩ := Option.map_eq_some_iff.1 h₁
        rfl
    exact (account_buildBuckets ps d₂ d' h₃).trans (hl.trans hb)

theorem account_init {cfg : HarnessConfig} {now : ℚ} {d : BrokerDaemon} (h : init cfg now = some d) :
    d.account = Account.init cfg now :=
  account_buildBuckets _ _ _ h

end BrokerDaemon

/-- **Only a usage priced moves the account**, and it is charged. -/
theorem account_of_step {py : Builtins} {m m' : Metered} {e : Event} (h : (meterMachine py).step m e = some m') :
    m'.world.daemon.account = (m.world.daemon.account).after (committed (commitOf py m.world e).toList) := by
  obtain ⟨hw, -⟩ := meter_step_eq_some h
  generalize m'.world = w' at hw ⊢
  rcases effect_of_step hw with ⟨msg, uuid, now, a, d₁, hop, -, -, hch⟩ | ⟨msg, uuid, now, a, hop, hargs⟩ |
    ⟨msg, uuid, now, a, hop, -⟩ | ⟨now⟩ | ⟨msg, uuid, now, d', hsame, -, hargs, -⟩
  · rw [commitOf_of_ne (by rw [hop]; decide)]
    have hrest : d₁.account = m.world.daemon.account := by rw [hch.rest]; rfl
    exact hrest
  · show (m.world.daemon.settleCommit py a now).2.account = _
    rw [BrokerDaemon.account_settleCommit py _ _ _ (m.world.ledger.settledBy a.reservationId)]
    simp only [commitOf, hop, hargs, if_true]
  · rw [commitOf_of_ne (by rw [hop]; decide)]
    exact BrokerDaemon.account_settleRelease _ _
  · rfl
  · have hno : commitOf py m.world (.message msg uuid now) = none := by
      by_cases hop : msg.op = "COMMIT"
      · obtain ⟨e, he⟩ := hargs hop
        simp only [commitOf, hop, he, if_true]
      · exact commitOf_of_ne hop _ _ _
    rw [hno]
    show d'.account = _
    rw [hsame]
    rfl

/-- The account is the fold of the charges of the usages priced, from the daemon as built. -/
def Accounted (cfg : HarnessConfig) (start : ℚ) (m : Metered) : Prop :=
  m.world.daemon.account = (Account.init cfg start).after m.commits

theorem accounted_init {cfg : HarnessConfig} {start : ℚ} {d : BrokerDaemon} (h : BrokerDaemon.init cfg start = some d) :
    Accounted cfg start ⟨⟨d, {}⟩, []⟩ :=
  BrokerDaemon.account_init h

theorem accounted_of_step {py : Builtins} {cfg : HarnessConfig} {start : ℚ} {m m' : Metered} {e : Event}
    (hinv : Accounted cfg start m) (h : (meterMachine py).step m e = some m') : Accounted cfg start m' := by
  unfold Accounted at hinv ⊢
  rw [account_of_step h, hinv, Metered.commits, Metered.commits, (meter_step_eq_some h).2, committed_append]
  unfold Account.after
  rw [List.foldl_append]

/-- **After any run the account is the fold of the charges** of the usages priced. -/
theorem account_of_run (py : Builtins) {cfg : HarnessConfig} {start : ℚ} {d : BrokerDaemon}
    (hd : BrokerDaemon.init cfg start = some d) {es : List Event} {m : Metered}
    (h : (meterMachine py).run ⟨⟨d, {}⟩, []⟩ es = some m) : Accounted cfg start m :=
  (meterMachine py).inv_of_run (Accounted cfg start) (fun _ _ _ hi hs => accounted_of_step hi hs) es _ m (accounted_init hd) h

end Broker
end DevHarness
