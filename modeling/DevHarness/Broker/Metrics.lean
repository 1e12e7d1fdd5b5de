import DevHarness.Broker.Budget
/-!
# Metrics — the spend METRICS reports against the reservations settled

METRICS should report the cost and tokens of the reservations COMMIT settled.  What it does report follows the governor:
a COMMIT that settles nothing is counted, and one that passes a ceiling or is too large for a float is not.
-/
namespace DevHarness
namespace Broker

open Lib

/-! ## The law -/

/-- The usages of reservations that COMMIT settled. -/
def settled (cs : List Commit) : List Commit := cs.filter (fun c => c.settles.isSome)

def totalTokens (cs : List Commit) : ℤ := (cs.map (·.tokens)).sum

/-- **METRICS reports what was settled**: the cost and the tokens of the usages of settled reservations. -/
def MetricsExact (m : Metered) : Prop :=
  m.world.daemon.metricsReply.data.get? "cumulative_usd" = some (.float (.fin (totalUsd (settled m.usages)))) ∧
    m.world.daemon.metricsReply.data.get? "tpm_burn" = some (.int (totalTokens (settled m.usages)))

/-- **A clean step** for METRICS: a usage either settles a reservation, has a price and passes no ceiling, or settles none
and has no price or passes one, or it is nothing. -/
def MetricsClean (py : Builtins) (m : Metered) (e : Event) (_ : Metered) : Prop :=
  ∀ c ∈ commitOf py m.world e,
    (c.settles.isSome = true ↔ c.priced = true ∧ (m.world.daemon.governor.rollDay c.now).breaches c.cost = false) ∨
      (c.cost = 0 ∧ c.tokens = 0)

instance (m : Metered) : Decidable (MetricsExact m) := inferInstanceAs (Decidable (_ ∧ _))

instance (py : Builtins) (m : Metered) (e : Event) (m' : Metered) : Decidable (MetricsClean py m e m') :=
  inferInstanceAs (Decidable (∀ c ∈ commitOf py m.world e, (_ ↔ _) ∨ _))

/-! ## A step -/

theorem metricsExact_iff (m : Metered) :
    MetricsExact m ↔ m.world.daemon.account.cumulativeUsd = totalUsd (settled m.usages) ∧
      m.world.daemon.account.tpmBurn = totalTokens (settled m.usages) := by
  have husd : m.world.daemon.metricsReply.data.get? "cumulative_usd" =
      some (.float (.fin m.world.daemon.cumulativeUsd)) := Dict.get?_set_self _ _ _
  have htok : m.world.daemon.metricsReply.data.get? "tpm_burn" = some (.int m.world.daemon.tpmBurn) := by
    have hne : ("tpm_burn" : String) ≠ "cumulative_usd" := by decide
    exact (Dict.get?_set_ne _ _ hne).trans (Dict.get?_set_self _ _ _)
  unfold MetricsExact
  rw [husd, htok]
  simp [BrokerDaemon.account]

theorem settled_snoc (cs : List Commit) (c : Commit) :
    settled (cs ++ [c]) = settled cs ++ if c.settles.isSome then [c] else [] := by
  unfold settled
  rw [List.filter_append]
  by_cases h : c.settles.isSome = true
  · simp [h]
  · simp [h]

theorem totals_settled_snoc (cs : List Commit) (c : Commit) :
    totalUsd (settled (cs ++ [c])) = totalUsd (settled cs) + (if c.settles.isSome then c.cost else 0) ∧
      totalTokens (settled (cs ++ [c])) = totalTokens (settled cs) + if c.settles.isSome then c.tokens else 0 := by
  rw [settled_snoc]
  by_cases h : c.settles.isSome = true
  · simp only [h, if_true, totalUsd_snoc, true_and]
    simp [totalTokens]
  · simp [h]

/-- What a charge adds to the two figures: the usage, unless the governor refuses it. -/
theorem Account.charge_figures {A : Account} (hrun : A.cumulativeUsd = A.governor.runUsd) (c : Commit) :
    (A.charge c).cumulativeUsd = A.cumulativeUsd + (if (A.governor.rollDay c.now).breaches c.cost then 0 else c.cost) ∧
      (A.charge c).tpmBurn = A.tpmBurn + (if (A.governor.rollDay c.now).breaches c.cost then 0 else c.tokens) ∧
      (A.charge c).cumulativeUsd = (A.charge c).governor.runUsd := by
  unfold Account.charge CostGovernor.commitCost
  by_cases hb : (A.governor.rollDay c.now).breaches c.cost = true
  · simp only [hb, if_true, add_zero, true_and]
    rw [CostGovernor.rollDay_runUsd]
    exact hrun
  · simp only [hb, if_false, Bool.false_eq_true, and_true]
    rw [CostGovernor.rollDay_runUsd, hrun]

/-- What one usage adds to the two figures, priced or not. -/
theorem Account.after_figures {A : Account} (hrun : A.cumulativeUsd = A.governor.runUsd) (c : Commit) :
    let counts := c.priced && !(A.governor.rollDay c.now).breaches c.cost
    (A.after (committed [c])).cumulativeUsd = A.cumulativeUsd + (if counts then c.cost else 0) ∧
      (A.after (committed [c])).tpmBurn = A.tpmBurn + (if counts then c.tokens else 0) ∧
      (A.after (committed [c])).cumulativeUsd = (A.after (committed [c])).governor.runUsd := by
  obtain ⟨h1, h2, h3⟩ := Account.charge_figures hrun c
  by_cases hp : c.priced = true
  · have hafter : A.after (committed [c]) = A.charge c := by simp [committed, hp, Account.after]
    rw [hafter]
    refine ⟨?_, ?_, h3⟩
    · rw [h1]
      cases (A.governor.rollDay c.now).breaches c.cost <;> simp [hp]
    · rw [h2]
      cases (A.governor.rollDay c.now).breaches c.cost <;> simp [hp]
  · have hafter : A.after (committed [c]) = A := by simp [committed, hp, Account.after]
    rw [hafter]
    exact ⟨by simp [hp], by simp [hp], hrun⟩

/-- The figures stay exact through one usage just when it is counted as it should be. -/
theorem counted_iff (settles counts : Bool) (cost : ℚ) (tokens : ℤ) :
    ((if counts then cost else 0) = (if settles then cost else 0) ∧
      (if counts then tokens else 0) = if settles then tokens else 0) ↔
    (settles = true ↔ counts = true) ∨ (cost = 0 ∧ tokens = 0) := by
  cases settles <;> cases counts <;> simp [eq_comm]

/-- The figures are exact, and the spend reported is the governor's. -/
structure MetricsInv (m : Metered) : Prop where
  exact : MetricsExact m
  run : m.world.daemon.account.cumulativeUsd = m.world.daemon.account.governor.runUsd

theorem metricsExact_iff_of_step {py : Builtins} {m m' : Metered} {e : Event} (hinv : MetricsInv m)
    (h : (meterMachine py).step m e = some m') : MetricsExact m' ↔ MetricsClean py m e m' := by
  obtain ⟨husd, htok⟩ := (metricsExact_iff m).1 hinv.exact
  rw [metricsExact_iff, account_of_step h, (meter_step_eq_some h).2]
  unfold MetricsClean
  cases hc : commitOf py m.world e with
  | none =>
    have hsame : m.usages ++ (none : Option Commit).toList = m.usages := List.append_nil _
    rw [hsame]
    exact iff_of_true ⟨husd, htok⟩ (fun c hc => by cases hc)
  | some c =>
    obtain ⟨h1, h2, -⟩ := Account.after_figures hinv.run c
    have hafter : (m.world.daemon.account).after (committed (some c).toList) =
        m.world.daemon.account.after (committed [c]) := rfl
    have hsnoc : m.usages ++ (some c).toList = m.usages ++ [c] := rfl
    obtain ⟨hu, ht⟩ := totals_settled_snoc m.usages c
    rw [hafter, hsnoc, h1, h2, hu, ht, husd, htok, add_right_inj, add_right_inj, counted_iff]
    simp [BrokerDaemon.account]

theorem metricsInv_of_step {py : Builtins} {m m' : Metered} {e : Event} (hinv : MetricsInv m) (hexact : MetricsExact m')
    (h : (meterMachine py).step m e = some m') : MetricsInv m' := by
  refine ⟨hexact, ?_⟩
  rw [account_of_step h]
  cases commitOf py m.world e with
  | none => exact hinv.run
  | some c => exact (Account.after_figures hinv.run c).2.2

def spendTwice : List Event :=
  [.message (BrokerClient.reserve .anthropic (.fin 1) "") "r1" 0,
    .message (BrokerClient.commit .anthropic "r1" (.fin 1) "anthropic-default" ⟨1000000, 0⟩ "") "" 1,
    .message (BrokerClient.commit .anthropic "r1" (.fin 1) "anthropic-default" ⟨1000000, 0⟩ "") "" 2]

end Broker
end DevHarness
