import DevHarness.Broker.Meter
import DevHarness.Broker.Client
import Mathlib.Algebra.BigOperators.Group.List.Basic
/-!
# Budget — what was spent before a reservation is granted

As long as no usage has taken the spend past a ceiling, the governor's two totals are those of the usages committed, in
the run and in the open day window (`Tallied`); the usage that does trips the switch, and a tripped switch grants
nothing.  A usage too large for a float is not committed, its COMMIT raises; with exact floats there is none.
-/
namespace DevHarness
namespace Broker

open Lib

/-! ## What was spent -/

def totalUsd (cs : List Commit) : ℚ := (cs.map (·.cost)).sum

/-- The day window open after these usages, its start and its usages: a usage a full day after the start opens the
next. -/
def dayWindow (start : ℚ) (cs : List Commit) : ℚ × List Commit :=
  cs.foldl (fun w c => if daySeconds ≤ c.now - w.1 then (c.now, [c]) else (w.1, w.2 ++ [c])) (start, [])

/-- The usage takes the spend past a ceiling, of the run or of the day window it falls in. -/
def Passes (cfg : HarnessConfig) (start : ℚ) (pre : List Commit) (c : Commit) : Prop :=
  (∃ b ∈ cfg.budgetUsdPerRun, b < totalUsd (pre ++ [c])) ∨
    ∃ b ∈ cfg.budgetUsdPerDay, b < totalUsd (dayWindow start (pre ++ [c])).2

def SomePassed (cfg : HarnessConfig) (start : ℚ) (cs : List Commit) : Prop :=
  ∃ pre c post, cs = pre ++ c :: post ∧ Passes cfg start pre c

theorem totalUsd_snoc (cs : List Commit) (c : Commit) : totalUsd (cs ++ [c]) = totalUsd cs + c.cost := by
  simp [totalUsd]

theorem dayWindow_snoc (start : ℚ) (cs : List Commit) (c : Commit) :
    dayWindow start (cs ++ [c]) = if daySeconds ≤ c.now - (dayWindow start cs).1 then (c.now, [c])
      else ((dayWindow start cs).1, (dayWindow start cs).2 ++ [c]) := by
  unfold dayWindow
  rw [List.foldl_append]
  rfl

theorem not_somePassed_nil (cfg : HarnessConfig) (start : ℚ) : ¬ SomePassed cfg start [] := by
  rintro ⟨pre, c, post, h, -⟩
  cases pre <;> cases h

theorem snoc_eq_append_cons {α : Type} {cs pre post : List α} {x c : α} (h : cs ++ [x] = pre ++ c :: post) :
    (pre = cs ∧ c = x ∧ post = []) ∨ ∃ post', cs = pre ++ c :: post' := by
  rcases List.eq_nil_or_concat post with rfl | ⟨post', y, rfl⟩
  · obtain ⟨rfl, hx⟩ := List.append_inj' h rfl
    cases hx
    exact Or.inl ⟨rfl, rfl, rfl⟩
  · have h' : cs ++ [x] = (pre ++ c :: post') ++ [y] := by simpa using h
    exact Or.inr ⟨post', (List.append_inj' h' rfl).1⟩

theorem somePassed_snoc (cfg : HarnessConfig) (start : ℚ) (cs : List Commit) (c : Commit) :
    SomePassed cfg start (cs ++ [c]) ↔ SomePassed cfg start cs ∨ Passes cfg start cs c := by
  constructor
  · rintro ⟨pre, x, post, h, hp⟩
    rcases snoc_eq_append_cons h with ⟨rfl, rfl, -⟩ | ⟨post', rfl⟩
    · exact Or.inr hp
    · exact Or.inl ⟨pre, x, post', rfl, hp⟩
  · rintro (⟨pre, x, post, rfl, hp⟩ | hp)
    · exact ⟨pre, x, post ++ [c], by simp, hp⟩
    · exact ⟨cs, c, [], rfl, hp⟩

/-! ## The governor's totals -/

/-- The governor's budgets are the configured ones, its totals those of the usages as long as none passed a ceiling, and
the switch has tripped just when one has. -/
structure Tallied (cfg : HarnessConfig) (start : ℚ) (cs : List Commit) (A : Account) : Prop where
  perRun : A.governor.budgetUsdPerRun = cfg.budgetUsdPerRun
  perDay : A.governor.budgetUsdPerDay = cfg.budgetUsdPerDay
  totals : ¬ SomePassed cfg start cs → A.governor.runUsd = totalUsd cs ∧
    A.governor.dayUsd = totalUsd (dayWindow start cs).2 ∧ A.governor.dayStart = (dayWindow start cs).1
  tripped : A.kill.tripped = true ↔ SomePassed cfg start cs

theorem KillSwitch.trip_tripped (k : KillSwitch) (callbackEndpoint : String) :
    (k.trip callbackEndpoint).tripped = true := by
  unfold KillSwitch.trip
  split
  · assumption
  · rfl

theorem CostGovernor.rollDay_runUsd (g : CostGovernor) (now : ℚ) : (g.rollDay now).runUsd = g.runUsd := by
  unfold CostGovernor.rollDay
  split <;> rfl

theorem CostGovernor.rollDay_budgets (g : CostGovernor) (now : ℚ) :
    (g.rollDay now).budgetUsdPerRun = g.budgetUsdPerRun ∧ (g.rollDay now).budgetUsdPerDay = g.budgetUsdPerDay := by
  unfold CostGovernor.rollDay
  split <;> exact ⟨rfl, rfl⟩

/-- With the totals in step, rolling the day and adding the usage is opening the window it falls in. -/
theorem Tallied.rolled {cfg : HarnessConfig} {start : ℚ} {cs : List Commit} {A : Account} (h : Tallied cfg start cs A)
    (hno : ¬ SomePassed cfg start cs) (c : Commit) :
    (A.governor.rollDay c.now).dayUsd + c.cost = totalUsd (dayWindow start (cs ++ [c])).2 ∧
      (A.governor.rollDay c.now).dayStart = (dayWindow start (cs ++ [c])).1 := by
  obtain ⟨-, hday, hstart⟩ := h.totals hno
  rw [dayWindow_snoc]
  unfold CostGovernor.rollDay CostGovernor.dayElapsed
  rw [hstart]
  by_cases he : daySeconds ≤ c.now - (dayWindow start cs).1
  · simp only [he, decide_true, if_true]
    exact ⟨by simp [totalUsd], trivial⟩
  · simp only [he, decide_false, if_false, Bool.false_eq_true]
    exact ⟨by rw [hday, totalUsd_snoc], hstart⟩

theorem Tallied.breaches_iff {cfg : HarnessConfig} {start : ℚ} {cs : List Commit} {A : Account}
    (h : Tallied cfg start cs A) (hno : ¬ SomePassed cfg start cs) (c : Commit) :
    (A.governor.rollDay c.now).breaches c.cost = true ↔ Passes cfg start cs c := by
  obtain ⟨hday, -⟩ := h.rolled hno c
  have hrun : (A.governor.rollDay c.now).runUsd + c.cost = totalUsd (cs ++ [c]) := by
    rw [CostGovernor.rollDay_runUsd, (h.totals hno).1, totalUsd_snoc]
  obtain ⟨hb1, hb2⟩ := A.governor.rollDay_budgets c.now
  unfold CostGovernor.breaches Passes
  rw [hrun, hday, hb1, hb2, h.perRun, h.perDay]
  simp [Option.any_eq_true]

theorem tallied_snoc {cfg : HarnessConfig} {start : ℚ} {cs : List Commit} {A : Account} (h : Tallied cfg start cs A)
    (c : Commit) : Tallied cfg start (cs ++ [c]) (A.charge c) := by
  obtain ⟨hb1, hb2⟩ := A.governor.rollDay_budgets c.now
  unfold Account.charge CostGovernor.commitCost
  by_cases hb : (A.governor.rollDay c.now).breaches c.cost = true
  · simp only [hb, if_true]
    have hpassed : SomePassed cfg start (cs ++ [c]) := by
      rw [somePassed_snoc]
      by_cases hno : SomePassed cfg start cs
      · exact Or.inl hno
      · exact Or.inr ((h.breaches_iff hno c).1 hb)
    exact ⟨hb1.trans h.perRun, hb2.trans h.perDay, fun hno => absurd hpassed hno,
      iff_of_true (KillSwitch.trip_tripped _ _) hpassed⟩
  · simp only [hb, if_false, Bool.false_eq_true]
    refine ⟨hb1.trans h.perRun, hb2.trans h.perDay, fun hno => ?_, ?_⟩
    · rw [somePassed_snoc, not_or] at hno
      obtain ⟨hday, hstart⟩ := h.rolled hno.1 c
      refine ⟨?_, hday, hstart⟩
      dsimp only
      rw [CostGovernor.rollDay_runUsd, (h.totals hno.1).1, totalUsd_snoc]
    · dsimp only
      rw [h.tripped, somePassed_snoc]
      refine ⟨Or.inl, fun hor => hor.elim id (fun hp => ?_)⟩
      by_contra hno
      exact hb ((h.breaches_iff hno c).2 hp)

/-- **The governor's totals are those of the usages committed** until one passes a ceiling, which trips the switch. -/
theorem tallied_after (cfg : HarnessConfig) (start : ℚ) (cs : List Commit) :
    Tallied cfg start cs ((Account.init cfg start).after cs) := by
  induction cs using List.reverseRecOn with
  | nil =>
    refine ⟨rfl, rfl, fun _ => ⟨by simp [totalUsd, Account.after, Account.init, CostGovernor.init],
      by simp [totalUsd, dayWindow, Account.after, Account.init, CostGovernor.init], rfl⟩, ?_⟩
    exact iff_of_false (by simp [Account.after, Account.init]) (not_somePassed_nil cfg start)
  | append_singleton cs c ih =>
    rw [Account.after_snoc]
    exact tallied_snoc ih c

/-! ## A grant -/

/-- The event is a RESERVE, and the daemon grants it. -/
def Event.Granted (py : Builtins) (d : BrokerDaemon) : Event → Prop
  | .reap _ => False
  | .message msg uuid now => msg.op = "RESERVE" ∧
      (d.handleMessage py msg uuid now).1.toOption.any (fun reply => reply.ok) = true

instance (py : Builtins) (d : BrokerDaemon) : ∀ e : Event, Decidable (e.Granted py d)
  | .reap _ => inferInstanceAs (Decidable False)
  | .message msg _ _ => inferInstanceAs (Decidable (msg.op = "RESERVE" ∧ _))

/-- These usages are within the budget; a negative one is reached by the first of them. -/
def WithinBudget (budget : Option ℚ) (cs : List Commit) : Prop :=
  ∀ b ∈ budget, totalUsd cs ≤ b ∨ (b < 0 ∧ cs = [])

/-- **A grant within budget**: what was committed before it, in the run and in the open day window, is within the
ceilings, and nothing committed before it went past one. -/
def GrantsWithinBudgets (py : Builtins) (cfg : HarnessConfig) (start : ℚ) (m : Metered) (e : Event) (_ : Metered) :
    Prop :=
  e.Granted py m.world.daemon → WithinBudget cfg.budgetUsdPerRun m.commits ∧
    WithinBudget cfg.budgetUsdPerDay (dayWindow start m.commits).2 ∧ ¬ SomePassed cfg start m.commits

theorem not_granted_of_tripped {py : Builtins} {d : BrokerDaemon} (h : d.kill.tripped = true) (e : Event) :
    ¬ e.Granted py d := by
  cases e with
  | reap now => exact id
  | message msg uuid now =>
    rintro ⟨hop, hok⟩
    rw [BrokerDaemon.handleMessage_reserve hop, BrokerDaemon.reserve, if_pos h] at hok
    cases hok

/-- With no ceiling passed, the last usage was within both. -/
theorem withinBudgets_of_not_somePassed {cfg : HarnessConfig} {start : ℚ} (cs : List Commit)
    (hno : ¬ SomePassed cfg start cs) :
    WithinBudget cfg.budgetUsdPerRun cs ∧ WithinBudget cfg.budgetUsdPerDay (dayWindow start cs).2 := by
  rcases List.eq_nil_or_concat cs with rfl | ⟨pre, c, rfl⟩
  · have hnil : ∀ budget, WithinBudget budget [] := by
      intro budget b _
      rcases lt_or_ge b 0 with hb | hb
      · exact Or.inr ⟨hb, rfl⟩
      · exact Or.inl hb
    exact ⟨hnil _, hnil _⟩
  · rw [List.concat_eq_append] at hno ⊢
    rw [somePassed_snoc, not_or] at hno
    obtain ⟨hrun, hday⟩ := not_or.1 hno.2
    refine ⟨fun b hb => Or.inl ?_, fun b hb => Or.inl ?_⟩
    · by_contra hlt
      exact hrun ⟨b, hb, not_le.1 hlt⟩
    · by_contra hlt
      exact hday ⟨b, hb, not_le.1 hlt⟩

/-- With exact floats every usage is priced. -/
theorem priced_of_exact {py : Builtins} (hexact : py.floats = .exact) (w : World) (e : Event) :
    committed (commitOf py w e).toList = (commitOf py w e).toList := by
  refine List.filter_eq_self.2 (fun c hc => ?_)
  cases e with
  | reap now => cases hc
  | message msg uuid now =>
    simp only [commitOf] at hc
    split at hc
    · split at hc
      · cases hc
      · rename_i a _
        have hu : a.usage.Fits py := ⟨Builtins.not_overflows_of_exact hexact _, Builtins.not_overflows_of_exact hexact _⟩
        unfold BrokerDaemon.usageOf at hc
        split at hc
        · cases hc
        · simp only [Option.mem_toList, Option.map_eq_some_iff] at hc
          obtain ⟨m, -, rfl⟩ := hc
          simpa using hu
    · cases hc

theorem commits_eq_usages_of_step {py : Builtins} (hexact : py.floats = .exact) {m m' : Metered} {e : Event}
    (hinv : m.commits = m.usages) (h : (meterMachine py).step m e = some m') : m'.commits = m'.usages := by
  have hall : committed m.usages = m.usages := hinv
  rw [Metered.commits, (meter_step_eq_some h).2, committed_append, hall, priced_of_exact hexact]

/-- **Every grant is within the budgets**, along every run of a daemon as built; with exact floats the usages committed are
those of every COMMIT of a known model. -/
theorem grantsWithinBudgets (py : Builtins) (cfg : HarnessConfig) (start : ℚ) (d : BrokerDaemon)
    (hd : BrokerDaemon.init cfg start = some d) (es : List Event) :
    (meterMachine py).Along (GrantsWithinBudgets py cfg start) ⟨⟨d, {}⟩, []⟩ es ∧
      (py.floats = .exact → (meterMachine py).Along (fun _ _ m' => m'.commits = m'.usages) ⟨⟨d, {}⟩, []⟩ es) := by
  constructor
  · refine (meterMachine py).along_of_inv (Accounted cfg start) (fun m e m' hinv hstep => ⟨?_, ?_⟩) es _
      (accounted_init hd)
    · intro hgrant
      have htally := tallied_after cfg start m.commits
      have hno : ¬ SomePassed cfg start m.commits := by
        intro hpassed
        have htrip := htally.tripped.2 hpassed
        rw [← hinv] at htrip
        exact not_granted_of_tripped htrip e hgrant
      obtain ⟨hrun, hday⟩ := withinBudgets_of_not_somePassed m.commits hno
      exact ⟨hrun, hday, hno⟩
    · exact accounted_of_step hinv hstep
  · intro hexact
    refine (meterMachine py).along_of_inv (fun m => m.commits = m.usages) (fun m e m' hinv hstep => ?_) es _ rfl
    have hnext := commits_eq_usages_of_step hexact hinv hstep
    exact ⟨hnext, hnext⟩

/-- `[providers.anthropic] usd_per_mtok_in = 1`, and two dollars a run. -/
def twoDollars : HarnessConfig where
  providers := Dict.empty.set "anthropic" { usdPerMtokIn := some 1 }
  budgetUsdPerRun := some 2

def spendThrice : List Event :=
  [.message (BrokerClient.reserve .anthropic (.fin 1) "") "r1" 0,
    .message (BrokerClient.commit .anthropic "r1" (.fin 1) "anthropic-default" ⟨1000000, 0⟩ "") "" 1,
    .message (BrokerClient.reserve .anthropic (.fin 1) "") "r2" 2,
    .message (BrokerClient.commit .anthropic "r2" (.fin 1) "anthropic-default" ⟨2000000, 0⟩ "") "" 3,
    .message (BrokerClient.reserve .anthropic (.fin 1) "") "r3" 4]

/-- The same text conversions over exact floats. -/
def exactFloats : Builtins := { Builtins.decimal with floats := .exact }

theorem grantsWithinBudgets_spendThrice : ∃ d, BrokerDaemon.init twoDollars 0 = some d ∧
    (meterMachine Builtins.decimal).Along (GrantsWithinBudgets Builtins.decimal twoDollars 0) ⟨⟨d, {}⟩, []⟩ spendThrice ∧
    (meterMachine exactFloats).Along (fun _ _ m' => m'.commits = m'.usages) ⟨⟨d, {}⟩, []⟩ spendThrice := by
  obtain ⟨d, hd⟩ := Option.isSome_iff_exists.1
    (show (BrokerDaemon.init twoDollars 0).isSome = true by decide +kernel)
  exact ⟨d, hd, (grantsWithinBudgets Builtins.decimal twoDollars 0 d hd spendThrice).1,
    (grantsWithinBudgets exactFloats twoDollars 0 d hd spendThrice).2 rfl⟩

/-- **A negative ceiling grants the first reservation**: with nothing committed the total is zero already. -/
theorem granted_above_negative : ∃ d, BrokerDaemon.init { budgetUsdPerRun := some (-1) } 0 = some d ∧
    (Event.message (BrokerClient.reserve .ollama (.fin 1) "") "r1" 0).Granted Builtins.decimal d ∧
    -1 < totalUsd [] := by
  have hinit : (BrokerDaemon.init { budgetUsdPerRun := some (-1) } 0).any (fun d => decide (
      (Event.message (BrokerClient.reserve .ollama (.fin 1) "") "r1" 0).Granted Builtins.decimal d)) = true := by
    decide +kernel
  obtain ⟨d, hd, h⟩ := (Option.any_eq_true _ _).1 hinit
  rw [decide_eq_true_eq] at h
  exact ⟨d, hd, h, by norm_num [totalUsd]⟩

end Broker
end DevHarness
