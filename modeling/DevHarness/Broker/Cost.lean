import DevHarness.Contracts
import DevHarness.Lib.Dict
import DevHarness.Lib.Python
/-!
# Cost — configuration, model registry, cost governor and kill switch

`config.py`, `broker/policies.py`, `providers/registry.py`, `broker/cost.py`, `broker/kill_switch.py`.  Prices, budgets
and spends are exact rationals; a token count too large for a float has no price.
-/
namespace DevHarness
namespace Broker

open Lib

/-! ## Configuration and registries -/

/-- The fields of a provider block that the broker reads. -/
structure ProviderConfig where
  rpm : Option ℤ := none
  tpm : Option ℤ := none
  maxConcurrency : Option ℤ := none
  contextWindow : Option ℤ := none
  usdPerMtokIn : Option ℚ := none
  usdPerMtokOut : Option ℚ := none

structure HarnessConfig where
  providers : Dict String ProviderConfig := Dict.empty
  budgetUsdPerRun : Option ℚ := none
  budgetUsdPerDay : Option ℚ := none

/-- `_to_provider_id`: the member the lower-cased name spells, `OLLAMA` by default. -/
def toProviderId (name : String) : ProviderId :=
  (ProviderId.members.find? (fun pid => pid.value = name.toLower)).getD .ollama

structure ProviderPolicy where
  provider : ProviderId
  rpm : Option ℤ
  tpm : Option ℤ
  maxConcurrency : Option ℤ

/-- `PolicyRegistry._load`: a later block with the same provider id replaces an earlier one. -/
def loadPolicies (cfg : HarnessConfig) : Dict ProviderId ProviderPolicy :=
  cfg.providers.items.foldl (fun d p =>
    d.set (toProviderId p.1) ⟨toProviderId p.1, p.2.rpm, p.2.tpm, p.2.maxConcurrency⟩) Dict.empty

structure ModelEntry where
  modelId : String
  provider : ProviderId
  contextWindow : ℤ
  maxOutput : ℤ
  usdPerMtokIn : ℚ
  usdPerMtokOut : ℚ

def modelIdsFor (provider : ProviderId) : List String :=
  if provider = .ollama then ["qwen2.5-coder:7b", "llama3:8b"] else [provider.value ++ "-default"]

def contextOf (pconf : ProviderConfig) : ℤ :=
  match pconf.contextWindow with
  | none => 8192
  | some c => if c = 0 then 8192 else c

def modelEntry (provider : ProviderId) (pconf : ProviderConfig) (modelId : String) : ModelEntry where
  modelId := modelId
  provider := provider
  contextWindow := contextOf pconf
  maxOutput := max 1 ((contextOf pconf).tdiv 2)
  usdPerMtokIn := pconf.usdPerMtokIn.getD 0
  usdPerMtokOut := pconf.usdPerMtokOut.getD 0

abbrev ModelRegistry := Dict String ModelEntry

def loadModels (cfg : HarnessConfig) : ModelRegistry :=
  cfg.providers.items.foldl (fun d p =>
    (modelIdsFor (toProviderId p.1)).foldl (fun d m => d.set m (modelEntry (toProviderId p.1) p.2 m)) d) Dict.empty

inductive Raised where
  | py (e : PyExc)
  | unknownModel (modelId : String)
  | budgetExceeded
  deriving DecidableEq

def resolve (reg : ModelRegistry) (modelId : String) : Except Raised ModelEntry :=
  match reg.get? modelId with
  | none => .error (.unknownModel modelId)
  | some e => .ok e

/-! ## The cost governor -/

structure Usage where
  inputTokens : ℤ
  outputTokens : ℤ

/-- `_usd`: each count is multiplied by a float. -/
def usd (py : Builtins) (e : ModelEntry) (u : Usage) : Except PyExc ℚ := do
  let usdIn ← py.mul u.inputTokens e.usdPerMtokIn
  let usdOut ← py.mul u.outputTokens e.usdPerMtokOut
  return usdIn / 1000000 + usdOut / 1000000

/-- The price of a usage, whatever its size. -/
def price (e : ModelEntry) (u : Usage) : ℚ :=
  u.inputTokens * e.usdPerMtokIn / 1000000 + u.outputTokens * e.usdPerMtokOut / 1000000

/-- Both counts convert to floats. -/
def Usage.Fits (py : Builtins) (u : Usage) : Prop := ¬ py.Overflows u.inputTokens ∧ ¬ py.Overflows u.outputTokens

instance (py : Builtins) (u : Usage) : Decidable (u.Fits py) := inferInstanceAs (Decidable (_ ∧ _))

/-- **A usage is priced** exactly when both its counts convert, whatever the prices. -/
theorem usd_eq (py : Builtins) (e : ModelEntry) (u : Usage) :
    usd py e u = if u.Fits py then .ok (price e u) else .error .overflowError := by
  unfold usd Builtins.mul Usage.Fits
  by_cases hin : py.Overflows u.inputTokens
  · simp [hin, bind, Except.bind]
  · by_cases hout : py.Overflows u.outputTokens
    · simp [hin, hout, bind, Except.bind]
    · simp [hin, hout, bind, Except.bind, pure, Except.pure, price]

/-- `cost_usd`: the price of a usage of a model in the registry. -/
def costUsd (py : Builtins) (reg : ModelRegistry) (modelId : String) (u : Usage) : Except Raised ℚ :=
  match resolve reg modelId with
  | .error e => .error e
  | .ok m => match usd py m u with
    | .error e => .error (.py e)
    | .ok cost => .ok cost

theorem costUsd_ne_budgetExceeded (py : Builtins) (reg : ModelRegistry) (modelId : String) (u : Usage) :
    costUsd py reg modelId u ≠ .error .budgetExceeded := by
  unfold costUsd resolve
  cases reg.get? modelId with
  | none => simp
  | some m =>
    dsimp only
    cases usd py m u <;> simp

def daySeconds : ℚ := 86400

@[ext] structure CostGovernor where
  budgetUsdPerRun : Option ℚ
  budgetUsdPerDay : Option ℚ
  runUsd : ℚ
  dayUsd : ℚ
  dayStart : ℚ
  deriving DecidableEq

namespace CostGovernor

def init (cfg : HarnessConfig) (now : ℚ) : CostGovernor := ⟨cfg.budgetUsdPerRun, cfg.budgetUsdPerDay, 0, 0, now⟩

def dayElapsed (g : CostGovernor) (now : ℚ) : Bool := decide (daySeconds ≤ now - g.dayStart)

def rollDay (g : CostGovernor) (now : ℚ) : CostGovernor :=
  if g.dayElapsed now then { g with dayUsd := 0, dayStart := now } else g

def breaches (g : CostGovernor) (cost : ℚ) : Bool :=
  g.budgetUsdPerRun.any (fun b => decide (b < g.runUsd + cost)) ||
    g.budgetUsdPerDay.any (fun b => decide (b < g.dayUsd + cost))

def commitCost (g : CostGovernor) (cost now : ℚ) : Except Raised ℚ × CostGovernor :=
  if (g.rollDay now).breaches cost then (.error .budgetExceeded, g.rollDay now)
  else (.ok cost, { g.rollDay now with
    runUsd := (g.rollDay now).runUsd + cost
    dayUsd := (g.rollDay now).dayUsd + cost })

/-- `commit`: the model is resolved and the usage priced before anything is counted. -/
def commit (g : CostGovernor) (py : Builtins) (reg : ModelRegistry) (modelId : String) (u : Usage) (now : ℚ) :
    Except Raised ℚ × CostGovernor :=
  match costUsd py reg modelId u with
  | .error e => (.error e, g)
  | .ok cost => g.commitCost cost now

section
variable {py : Builtins} {reg : ModelRegistry} {modelId : String} {m : ModelEntry} {u : Usage}

theorem commit_unknown (g : CostGovernor) (hm : reg.get? modelId = none) (now : ℚ) :
    g.commit py reg modelId u now = (.error (.unknownModel modelId), g) := by
  simp only [commit, costUsd, resolve, hm]

theorem commit_priced (g : CostGovernor) (hm : reg.get? modelId = some m) (hu : u.Fits py) (now : ℚ) :
    g.commit py reg modelId u now = g.commitCost (price m u) now := by
  simp only [commit, costUsd, resolve, hm, usd_eq, if_pos hu]

theorem commit_overflow (g : CostGovernor) (hm : reg.get? modelId = some m) (hu : ¬ u.Fits py) (now : ℚ) :
    g.commit py reg modelId u now = (.error (.py .overflowError), g) := by
  simp only [commit, costUsd, resolve, hm, usd_eq, if_neg hu]

end

/-- **A commit leaves the governor as it was** exactly when no day has elapsed and the cost is nothing or refused. -/
theorem commitCost_snd_eq_self_iff (g : CostGovernor) (cost now : ℚ) :
    (g.commitCost cost now).2 = g ↔ g.dayElapsed now = false ∧ (cost = 0 ∨ g.breaches cost = true) := by
  unfold commitCost
  by_cases hd : g.dayElapsed now = true
  · -- a rolled day has another start
    have hroll : g.rollDay now = { g with dayUsd := 0, dayStart := now } := by rw [rollDay, if_pos hd]
    have hstart : now ≠ g.dayStart := by
      intro he
      simp only [dayElapsed, he, sub_self, decide_eq_true_eq, daySeconds] at hd
      norm_num at hd
    constructor
    · intro h
      exfalso
      apply hstart
      have := congrArg CostGovernor.dayStart h
      rw [hroll] at this
      split at this <;> exact this
    · rintro ⟨h, -⟩
      rw [hd] at h; cases h
  · have hroll : g.rollDay now = g := by rw [rollDay, if_neg hd]
    rw [hroll]
    have hd' : g.dayElapsed now = false := by simpa using hd
    by_cases hb : g.breaches cost = true
    · simp [hb, hd']
    · rw [if_neg hb]
      constructor
      · intro h
        have hr := congrArg CostGovernor.runUsd h
        have : g.runUsd + cost = g.runUsd := hr
        exact ⟨hd', Or.inl (by linarith)⟩
      · rintro ⟨-, h⟩
        rcases h with h | h
        · subst h; ext <;> simp
        · exact absurd h hb

end CostGovernor

/-! ## The kill switch -/

structure InterruptRequest where
  command : CriticCommand
  reason : String
  deriving DecidableEq

structure KillSwitch where
  tripped : Bool := false
  emitted : ℕ := 0
  -- The envelopes passed to `emit`, oldest first.
  sent : List InterruptRequest := []
  deriving DecidableEq

/-- `trip`: one envelope in the life of the switch. -/
def KillSwitch.trip (k : KillSwitch) (callbackEndpoint : String) : KillSwitch :=
  if k.tripped then k
  else ⟨true, k.emitted + 1, k.sent ++ [⟨.stop, "BUDGET:" ++ callbackEndpoint⟩]⟩

end Broker
end DevHarness
