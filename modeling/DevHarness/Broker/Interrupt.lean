import DevHarness.Broker.Budget
/-!
# Interrupt — the one interrupt of a run that passes a budget, and whom it is addressed to

The switch trips on the first usage committed that passes a ceiling and never again.  Its envelope goes to the
`callback_endpoint` of that COMMIT message, not to the one the reservation recorded; a usage too large for a float trips
nothing.
-/
namespace DevHarness
namespace Broker

open Lib

/-- The first of the usages that takes the spend past a ceiling. -/
def FirstPassed (cfg : HarnessConfig) (start : ℚ) (cs : List Commit) (c : Commit) : Prop :=
  ∃ pre post, cs = pre ++ c :: post ∧ Passes cfg start pre c ∧ ¬ SomePassed cfg start pre

/-- **The interrupt reaches the owner**: one envelope was emitted, and it is addressed to the endpoint recorded in the
reservation that this usage settles. -/
def InterruptsOwner (m : Metered) (c : Commit) : Prop :=
  ∃ r, c.settles = some r ∧ m.world.daemon.kill.emitted = 1 ∧
    m.world.daemon.kill.sent = [⟨.stop, "BUDGET:" ++ r.callbackEndpoint⟩]

theorem firstPassed_snoc {cfg : HarnessConfig} {start : ℚ} {cs : List Commit} {x c : Commit}
    (h : FirstPassed cfg start (cs ++ [x]) c) :
    FirstPassed cfg start cs c ∨ (c = x ∧ Passes cfg start cs x ∧ ¬ SomePassed cfg start cs) := by
  obtain ⟨pre, post, heq, hp, hno⟩ := h
  rcases snoc_eq_append_cons heq with ⟨rfl, rfl, -⟩ | ⟨post', rfl⟩
  · exact Or.inr ⟨rfl, hp, hno⟩
  · exact Or.inl ⟨pre, post', rfl, hp, hno⟩

theorem FirstPassed.somePassed {cfg : HarnessConfig} {start : ℚ} {cs : List Commit} {c : Commit}
    (h : FirstPassed cfg start cs c) : SomePassed cfg start cs := by
  obtain ⟨pre, post, heq, hp, -⟩ := h
  exact ⟨pre, c, post, heq, hp⟩

theorem exists_firstPassed {cfg : HarnessConfig} {start : ℚ} {cs : List Commit} (h : SomePassed cfg start cs) :
    ∃ c, FirstPassed cfg start cs c := by
  induction cs using List.reverseRecOn with
  | nil => exact absurd h (not_somePassed_nil cfg start)
  | append_singleton cs x ih =>
    by_cases hcs : SomePassed cfg start cs
    · obtain ⟨c, pre, post, rfl, hp, hno⟩ := ih hcs
      exact ⟨c, pre, post ++ [x], by simp, hp, hno⟩
    · have hp := ((somePassed_snoc cfg start cs x).1 h).resolve_left hcs
      exact ⟨x, cs, [], rfl, hp, hcs⟩

theorem Account.charge_kill (A : Account) (c : Commit) :
    (A.charge c).kill = if (A.governor.rollDay c.now).breaches c.cost then A.kill.trip c.callback else A.kill := by
  unfold Account.charge
  by_cases hb : (A.governor.rollDay c.now).breaches c.cost = true
  · simp only [hb, if_true]
  · simp only [hb, if_false, Bool.false_eq_true]

/-- **The switch emits once**, for the first usage past a ceiling, to the endpoint that COMMIT carries. -/
theorem kill_after (cfg : HarnessConfig) (start : ℚ) (cs : List Commit) :
    (¬ SomePassed cfg start cs → ((Account.init cfg start).after cs).kill = {}) ∧
      ∀ c, FirstPassed cfg start cs c →
        ((Account.init cfg start).after cs).kill = ⟨true, 1, [⟨.stop, "BUDGET:" ++ c.callback⟩]⟩ := by
  induction cs using List.reverseRecOn with
  | nil => exact ⟨fun _ => rfl, fun c hc => absurd hc.somePassed (not_somePassed_nil cfg start)⟩
  | append_singleton cs x ih =>
    have htally := tallied_after cfg start cs
    rw [Account.after_snoc, Account.charge_kill]
    refine ⟨fun hno => ?_, fun c hc => ?_⟩
    · rw [somePassed_snoc, not_or] at hno
      rw [if_neg (fun hb => hno.2 ((htally.breaches_iff hno.1 x).1 hb))]
      exact ih.1 hno.1
    · rcases firstPassed_snoc hc with hc | ⟨rfl, hp, hno⟩
      · -- tripped already: the switch does nothing more
        have hk := ih.2 c hc
        rw [hk]
        split <;> rfl
      · rw [if_pos ((htally.breaches_iff hno c).2 hp), ih.1 hno]
        rfl

/-- An engine reserves with its endpoint, and the COMMIT that overspends carries this one. -/
def overspend (callback : String) : List Event :=
  [.message (BrokerClient.reserve .anthropic (.fin 1) "/run/engine.sock") "r1" 0,
    .message (BrokerClient.commit .anthropic "r1" (.fin 1) "anthropic-default" ⟨3000000, 0⟩ callback) "" 1]

def overspent (callback : String) : Commit :=
  ⟨some (ReservationStore.fresh "r1" .anthropic (.fin 1) "/run/engine.sock" 0), 3, 3000000, 1, callback, true⟩

theorem somePassed_overspent (callback : String) : SomePassed twoDollars 0 [overspent callback] :=
  ⟨[], overspent callback, [], rfl, Or.inl ⟨2, rfl, by norm_num [totalUsd, overspent]⟩⟩

end Broker
end DevHarness
