import DevHarness.Engine.SdlcRuns
import DevHarness.Engine.PersonaNodes
import Mathlib.Algebra.Order.BigOperators.Group.Finset
import Mathlib.Algebra.Group.Action.Defs
/-!
# GraphCalls — what a whole run of the graph asks of its client (`build_graph`, `engine/pipeline.py`)

The machine of `SdlcGraph` with the persona nodes at its stages: every step of it is one of that machine's, taken with
what the node asked and returned.  `allowance` is what a persona may still ask; a prompt is taken from it, and nothing
gives it back, since a chunk is developed once a visit at most and the ceiling bounds the visits.
-/
namespace DevHarness
namespace Engine

open Lib (Text)

/-! ## Developing a chunk once a visit -/

/-- A chunk that may still come to its developer in this visit. -/
def Ready (s : Run) (c : Nat) : Prop := s.pool.status c = .pending ∨ s.exec c = .submitted ∨ s.exec c = .bound

instance (s : Run) (c : Nat) : Decidable (Ready s c) := inferInstanceAs (Decidable (_ ∨ _))

/-- How often a chunk may still come to its developer: once in each visit left, and in this one. -/
def developable (s : Run) (c : Nat) : Nat :=
  match s.node with
  | .develop => e2eCeiling - s.e2eRetryCount
  | .developing => (e2eCeiling - (s.e2eRetryCount + 1)) + (if Ready s c then 1 else 0)
  | _ => 0

/-- The chunk whose developer an act runs. -/
def Act.develops : Act → Option Nat
  | .develop c _ => some c
  | _ => none

theorem Moves.ready {e e' : Exec} {st st' : ChunkStatus} (h : Moves e st e' st')
    (hr : st' = .pending ∨ e' = .submitted ∨ e' = .bound) : st = .pending ∨ e = .submitted ∨ e = .bound := by
  cases h <;> simp_all

section Visit

variable {cfg : PipelineConfig}

/-- **Nothing gives a chunk back to its developer** inside a visit. -/
theorem ready_of_step {s s' : Run} {a : Act} (ho : Orderly cfg s) (h : cfg.step s a = some s') (hn : s.node = .developing)
    (hn' : s'.node = .developing) {c : Nat} (hr : Ready s' c) : Ready s c := by
  have hv := ho.visit hn
  cases effect_of_step h with
  | enter hd =>
    rw [hn] at hd
    cases hd
  | turn _ hp =>
    rcases turn_spec hv hp with ⟨-, he⟩ | ⟨p, taken, ht, he⟩
    · rw [he] at hr
      exact hr
    · rw [he] at hr
      by_cases hc : c ∈ taken
      · exact Or.inl (claimed_ready ht hc).2.1
      · rcases hr with hr | hr
        · change p.status c = .pending at hr
          rw [ht.status c, if_neg hc] at hr
          exact Or.inl hr
        · dsimp only at hr
          rw [if_neg hc] at hr
          exact Or.inr hr
  | wake _ hp hd hall => exact hr
  | @settle d rest ok _ hp hres =>
    rcases hr with hr | hr
    · change (s.pool.settle d rest ok).status c = .pending at hr
      rw [Pool.settle_status] at hr
      by_cases hc : c = d
      · rw [hc, Function.update_self] at hr
        split at hr <;> cases hr
      · rw [Function.update_of_ne hc] at hr
        exact Or.inl hr
    · exact Or.inr hr
  | @execute _ d e st ws _ hm ht hbegins hleave hturn =>
    by_cases hc : c = d
    · rw [hc] at hr ⊢
      unfold Ready at hr
      rw [move_exec_self, move_status_self] at hr
      exact hm.ready hr
    · unfold Ready at hr
      rw [move_exec_of_ne s hc, move_status_of_ne s hc] at hr
      exact hr
  | @leave raised _ hp hall => exact absurd hn' (leave_node_ne cfg s raised)

/-- **The developer runs once**: its chunk was bound, and is neither bound nor pending any more. -/
theorem developed_of_step {s s' : Run} {c : Nat} {ok : Bool} (h : cfg.step s (.develop c ok) = some s') :
    s.node = .developing ∧ s'.node = .developing ∧ Ready s c ∧ ¬ Ready s' c ∧ (s.exec c).Active := by
  simp only [PipelineConfig.step, Option.ite_none_right_eq_some, Option.some.injEq] at h
  obtain ⟨⟨hn, he⟩, rfl⟩ := h
  have hready : Ready s c := Or.inr (Or.inr he)
  have hactive : (s.exec c).Active := by simp [Exec.Active, he]
  unfold PipelineConfig.runDeveloper
  split
  · rename_i hst
    exact ⟨hn, hn, hready, by simp [Ready, hst], hactive⟩
  · split
    · exact ⟨hn, hn, hready, by simp [Ready], hactive⟩
    · exact ⟨hn, hn, hready, by simp [Ready], hactive⟩

end Visit

namespace SdlcConfig

variable {cfg : SdlcConfig}

/-- What the developer of a chunk of the plan is run on lies in the plan. -/
theorem develops_lt {past : List SdlcAct} {s : SdlcRun} {c : Nat} {ok : Bool} {r : Run} (h : Kept cfg past s)
    (hr : cfg.work s.run (.develop c ok) = some r) : c < cfg.chunks.length := by
  have hi := h.inOrder
  unfold work at hr
  unfold InOrder at hi
  cases hp : PipelineConfig.ofChunks cfg.developLimit cfg.chunks cfg.maxParallelWorkers with
  | none =>
    rw [hp] at hr
    cases hr
  | some p =>
    rw [hp] at hr hi
    obtain ⟨hn, -, -, -, hactive⟩ := developed_of_step hr
    have hv := hi.1.visit hn
    rw [← chunks_of_ofChunks hp]
    exact lt_of_mem_order (hv.sub c (hv.active c hactive))

/-- **A step of the work leaves a chunk's developer no more runs**, and one less when it runs it. -/
theorem developable_step {past : List SdlcAct} {s : SdlcRun} {a : Act} {r : Run} (h : Kept cfg past s)
    (hr : cfg.work s.run a = some r) (c : Nat) :
    developable r c + (if a.develops = some c then 1 else 0) ≤ developable s.run c := by
  obtain ⟨-, hl, -⟩ := work_step h.inOrder h.counted hr
  have hcounted := counted_loops h.counted hl
  cases hl with
  | begins hn hn' hc hd =>
    obtain ⟨-, hlt⟩ := h.counted.retries (Or.inl hn)
    have he := (h.counted.retries (Or.inl hn)).1
    simp only [developable, hn, hn', hc, Act.develops, reduceCtorEq, if_false]
    split <;> omega
  | goes hn hn' hc hd henter hleave =>
    have hi := h.inOrder
    unfold work at hr
    unfold InOrder at hi
    cases hp : PipelineConfig.ofChunks cfg.developLimit cfg.chunks cfg.maxParallelWorkers with
    | none =>
      rw [hp] at hr
      cases a with
      | enter => exact absurd rfl henter
      | leave => exact absurd rfl hleave
      | _ => cases hr
    | some p =>
      rw [hp] at hr hi
      have hready : Ready r c → Ready s.run c := ready_of_step hi.1 hr hn hn'
      simp only [developable, hn, hn', hc]
      by_cases hdev : a.develops = some c
      · obtain ⟨ok, rfl⟩ : ∃ ok, a = .develop c ok := by
          cases a <;> simp_all [Act.develops]
        obtain ⟨-, -, hbefore, hafter, -⟩ := developed_of_step hr
        rw [if_pos hdev, if_pos hbefore, if_neg hafter]
      · rw [if_neg hdev]
        by_cases hafter : Ready r c
        · rw [if_pos hafter, if_pos (hready hafter)]
        · rw [if_neg hafter]
          omega
  | @returns raised hn hclear =>
    have he := (h.counted.retries (Or.inr hn)).1
    simp only [developable, hn, Act.develops, reduceCtorEq, if_false]
    cases hnode : (developReturns cfg.chunks.length s.run raised).node with
    | develop =>
      have he' := (hcounted.retries (Or.inl hnode)).1
      have hone : past.count (.work .leave) + [Act.leave].count .leave = s.run.e2eRetryCount + 1 := by rw [he]; rfl
      dsimp only
      rw [he', hone]
      omega
    | developing => exact absurd hnode (developReturns_node_ne _ _ _)
    | integrate => exact Nat.zero_le _
    | hitl => exact Nat.zero_le _

end SdlcConfig

/-! ## The graph with its personas -/

structure GraphConfig where
  sdlc : SdlcConfig
  personas : Personas
  -- `Chunk.title`, by place
  title : Nat → Text

/-- A run of the graph, with the channels the personas read and write and the prompts that reached the client. -/
structure GraphRun where
  sdlc : SdlcRun
  groomed : Option GroomedRequirements
  design : Option TechnicalDesign
  -- `tui_state.critic_gatekeeper_status`
  gate : ExecutionState
  sent : List (Persona × List Message)

inductive GraphAct where
  -- a persona's node, with what the client answers its prompts
  | groom (answers : List Text)
  | design (answers : List Text)
  | develop (c : Nat) (answers : List Text) (applied : Bool)
  | criticise (answers : List Text)
  | other (a : SdlcAct)

/-- The acts of the graph that are a persona's. -/
def SdlcAct.ofPersona : SdlcAct → Bool
  | .groom | .design | .criticise => true
  | .work a => a.develops.isSome
  | _ => false

namespace GraphConfig

variable (cfg : GraphConfig)

def step (s : GraphRun) : GraphAct → Option GraphRun
  | .groom answers =>
    if s.sdlc.stage = .groomer then
      match cfg.personas.groomerNode s.groomed ⟨answers, s.sent⟩ with
      | (.ok update, a) => (cfg.sdlc.step s.sdlc .groom).map (fun r =>
          { s with sdlc := r, groomed := update.or s.groomed, sent := a.sent })
      | (.error _, a) => (cfg.sdlc.step s.sdlc .raise).map (fun r => { s with sdlc := r, sent := a.sent })
    else none
  | .design answers =>
    if s.sdlc.stage = .architect then
      match cfg.personas.architectNode s.groomed s.design ⟨answers, s.sent⟩ with
      | (.ok update, a) => (cfg.sdlc.step s.sdlc .design).map (fun r =>
          { s with sdlc := r, design := update.or s.design, sent := a.sent })
      | (.error _, a) => (cfg.sdlc.step s.sdlc .raise).map (fun r => { s with sdlc := r, sent := a.sent })
    else none
  | .develop c answers applied =>
    match cfg.sdlc.chunks[c]? with
    | none => none
    | some chunk =>
      -- a completed chunk is not implemented again
      if s.sdlc.run.pool.status c = .completed then
        (cfg.sdlc.step s.sdlc (.work (.develop c true))).map (fun r => { s with sdlc := r })
      else
        match cfg.personas.developerReply c chunk (cfg.title c) s.design ⟨answers, s.sent⟩ with
        | (reply, a) => (cfg.sdlc.step s.sdlc (.work (.develop c (reply.isOk && applied)))).map (fun r =>
            { s with sdlc := r, sent := a.sent })
  | .criticise answers =>
    if s.sdlc.stage = .critic then
      match cfg.personas.criticNode ⟨answers, s.sent⟩ with
      | (.ok verdict, a) => (cfg.sdlc.step s.sdlc .criticise).map (fun r =>
          { s with sdlc := r, gate := Gatekeeper.statusFor verdict.verdict, sent := a.sent })
      | (.error _, a) => (cfg.sdlc.step s.sdlc .raise).map (fun r => { s with sdlc := r, sent := a.sent })
    else none
  | .other a =>
    if a.ofPersona = true then none
    else (cfg.sdlc.step s.sdlc a).map (fun r =>
      { s with sdlc := r, gate := if a = .escalate then .stopped else s.gate })

def machine : Lib.Machine GraphRun GraphAct := ⟨cfg.step⟩

/-- The start of a run, with the channels its thread was left with. -/
def init (status : Nat → ChunkStatus) (assigned : Nat → Option String) (workspace : WorkerWorkspace)
    (groomed : Option GroomedRequirements) (design : Option TechnicalDesign) (gate : ExecutionState) : GraphRun :=
  ⟨SdlcConfig.init status assigned workspace, groomed, design, gate, []⟩

end GraphConfig

/-! ## What a step can do -/

/-- The stage of a persona, weighed as `stageWeight` weighs it. -/
def Persona.weight : Persona → Nat
  | .groomer => 4
  | .architect => 3
  | .developer _ => 2
  | .critic => 1

/-- **A step of the graph is one of the machine below it**, with the prompts of the stage's persona and the update of its
channel; what is not a persona's asks nothing. -/
inductive GraphEffect (cfg : GraphConfig) (s : GraphRun) : SdlcAct → GraphRun → Prop
  | groomer {b : SdlcAct} {r : SdlcRun} {groomed : Option GroomedRequirements} {sent : List (Persona × List Message)}
      (hstage : s.sdlc.stage = .groomer) (hr : cfg.sdlc.step s.sdlc b = some r) (hb : b = .groom ∨ b = .raise)
      (hset : b = .groom → groomed.isSome) (hkeep : s.groomed.isSome = true → groomed = s.groomed)
      (hasks : Asks cfg.personas .groomer (if s.groomed.isSome = true then 0 else 1 + Personas.maxRepairs) s.sent sent) :
      GraphEffect cfg s b { s with sdlc := r, groomed := groomed, sent := sent }
  | architect {b : SdlcAct} {r : SdlcRun} {design : Option TechnicalDesign} {sent : List (Persona × List Message)}
      (hstage : s.sdlc.stage = .architect) (hr : cfg.sdlc.step s.sdlc b = some r) (hb : b = .design ∨ b = .raise)
      (hset : b = .design → design.isSome) (hkeep : s.design.isSome = true → design = s.design)
      (hsound : s.design = none → ∀ d ∈ design, Personas.Sound d)
      (hasks : Asks cfg.personas .architect (if s.design.isSome = true then 0 else 1 + Personas.maxRepairs) s.sent sent) :
      GraphEffect cfg s b { s with sdlc := r, design := design, sent := sent }
  | developer {c : Nat} {ok : Bool} {r : SdlcRun} {sent : List (Persona × List Message)}
      (hr : cfg.sdlc.step s.sdlc (.work (.develop c ok)) = some r)
      (hasks : Asks cfg.personas (.developer c) 1 s.sent sent) :
      GraphEffect cfg s (.work (.develop c ok)) { s with sdlc := r, sent := sent }
  | critic {b : SdlcAct} {r : SdlcRun} {gate : ExecutionState} {sent : List (Persona × List Message)}
      (hstage : s.sdlc.stage = .critic) (hr : cfg.sdlc.step s.sdlc b = some r) (hb : b = .criticise ∨ b = .raise)
      (hasks : Asks cfg.personas .critic 1 s.sent sent) :
      GraphEffect cfg s b { s with sdlc := r, gate := gate, sent := sent }
  | other {b : SdlcAct} {r : SdlcRun} {gate : ExecutionState} (hb : b.ofPersona = false)
      (hr : cfg.sdlc.step s.sdlc b = some r) : GraphEffect cfg s b { s with sdlc := r, gate := gate }

theorem graph_effect_of_step {cfg : GraphConfig} {s s' : GraphRun} {a : GraphAct} (h : cfg.step s a = some s') :
    ∃ b, GraphEffect cfg s b s' := by
  cases a with
  | groom answers =>
    simp only [GraphConfig.step, Option.ite_none_right_eq_some] at h
    obtain ⟨hstage, h⟩ := h
    obtain ⟨hasks, hupdate⟩ := Personas.groomerNode_spec cfg.personas s.groomed ⟨answers, s.sent⟩
    cases hnode : cfg.personas.groomerNode s.groomed ⟨answers, s.sent⟩ with
    | mk outcome a =>
      rw [hnode] at h hasks hupdate
      cases outcome with
      | error e =>
        obtain ⟨r, hr, rfl⟩ := Option.map_eq_some_iff.1 h
        exact ⟨.raise, .groomer hstage hr (Or.inr rfl) (fun hb => by cases hb) (fun _ => rfl) hasks⟩
      | ok update =>
        obtain ⟨r, hr, rfl⟩ := Option.map_eq_some_iff.1 h
        obtain ⟨hset, hnone⟩ := hupdate update rfl
        exact ⟨.groom, .groomer hstage hr (Or.inl rfl) (fun _ => hset) (fun hs => by rw [hnone hs]; rfl) hasks⟩
  | design answers =>
    simp only [GraphConfig.step, Option.ite_none_right_eq_some] at h
    obtain ⟨hstage, h⟩ := h
    obtain ⟨hasks, hupdate⟩ := Personas.architectNode_spec cfg.personas s.groomed s.design ⟨answers, s.sent⟩
    cases hnode : cfg.personas.architectNode s.groomed s.design ⟨answers, s.sent⟩ with
    | mk outcome a =>
      rw [hnode] at h hasks hupdate
      cases outcome with
      | error e =>
        obtain ⟨r, hr, rfl⟩ := Option.map_eq_some_iff.1 h
        exact ⟨.raise, .architect hstage hr (Or.inr rfl) (fun hb => by cases hb) (fun _ => rfl)
          (fun hs d hd => by rw [hs] at hd; cases hd) hasks⟩
      | ok update =>
        obtain ⟨r, hr, rfl⟩ := Option.map_eq_some_iff.1 h
        obtain ⟨hset, hnone, hsound⟩ := hupdate update rfl
        refine ⟨.design, .architect hstage hr (Or.inl rfl) (fun _ => hset) (fun hs => by rw [hnone hs]; rfl)
          (fun hs d hd => hsound d ?_) hasks⟩
        rw [hs, Option.or_none] at hd
        exact hd
  | develop c answers applied =>
    simp only [GraphConfig.step] at h
    cases hchunk : cfg.sdlc.chunks[c]? with
    | none =>
      rw [hchunk] at h
      cases h
    | some chunk =>
      rw [hchunk] at h
      dsimp only at h
      split at h
      · obtain ⟨r, hr, rfl⟩ := Option.map_eq_some_iff.1 h
        exact ⟨_, .developer hr (Asks.nothing _ _ _ _)⟩
      · obtain ⟨r, hr, rfl⟩ := Option.map_eq_some_iff.1 h
        exact ⟨_, .developer hr (Personas.asks_developerReply _ _ _ _ _ _)⟩
  | criticise answers =>
    simp only [GraphConfig.step, Option.ite_none_right_eq_some] at h
    obtain ⟨hstage, h⟩ := h
    have hasks := Personas.asks_criticNode cfg.personas ⟨answers, s.sent⟩
    cases hnode : cfg.personas.criticNode ⟨answers, s.sent⟩ with
    | mk outcome a =>
      rw [hnode] at h hasks
      cases outcome with
      | error e =>
        obtain ⟨r, hr, rfl⟩ := Option.map_eq_some_iff.1 h
        exact ⟨.raise, .critic hstage hr (Or.inr rfl) hasks⟩
      | ok verdict =>
        obtain ⟨r, hr, rfl⟩ := Option.map_eq_some_iff.1 h
        exact ⟨.criticise, .critic hstage hr (Or.inl rfl) hasks⟩
  | other b =>
    simp only [GraphConfig.step, Option.ite_none_left_eq_some] at h
    obtain ⟨hb, h⟩ := h
    obtain ⟨r, hr, rfl⟩ := Option.map_eq_some_iff.1 h
    exact ⟨b, .other (Bool.eq_false_iff.2 hb) hr⟩

/-! ## What is left to ask -/

/-- The prompts of a persona. -/
def asked (who : Persona) (sent : List (Persona × List Message)) : Nat := (sent.map Prod.fst).count who

/-- **What a persona may still ask**: nothing past its stage, and nothing for a channel that is set. -/
def allowance (cfg : GraphConfig) (s : GraphRun) (who : Persona) : Nat :=
  if who.weight ≤ stageWeight s.sdlc.stage then
    match who with
    | .groomer => if s.groomed.isSome = true then 0 else 1 + Personas.maxRepairs
    | .architect => if s.design.isSome = true then 0 else 1 + Personas.maxRepairs
    | .developer c => if c < cfg.sdlc.chunks.length then developable s.sdlc.run c else 0
    | .critic => 1
  else 0

theorem asked_append_of_asks {P : Personas} {who : Persona} {k : Nat} {sent sent' : List (Persona × List Message)}
    (h : Asks P who k sent sent') : asked who sent' ≤ asked who sent + k ∧ ∀ p, p ≠ who → asked p sent' = asked p sent := by
  obtain ⟨new, rfl, hlen, hall⟩ := h
  refine ⟨?_, fun p hp => ?_⟩
  · have hle := List.count_le_length (a := who) (l := new.map Prod.fst)
    rw [List.length_map] at hle
    rw [asked, asked, List.map_append, List.count_append]
    omega
  · have hzero : (new.map Prod.fst).count p = 0 := List.count_eq_zero.2 (fun hmem => by
      obtain ⟨x, hx, rfl⟩ := List.mem_map.1 hmem
      exact hp (hall x hx).1)
    rw [asked, asked, List.map_append, List.count_append, hzero, Nat.add_zero]

theorem allowance_of_lt {cfg : GraphConfig} {s : GraphRun} {who : Persona} (h : stageWeight s.sdlc.stage < who.weight) :
    allowance cfg s who = 0 := if_neg (Nat.not_le.2 h)

/-- **Nothing that is not done by the developer gives allowance back**, as the stages and the channels only go on. -/
theorem allowance_le {cfg : GraphConfig} {s s' : GraphRun} {who : Persona}
    (hstage : stageWeight s'.sdlc.stage ≤ stageWeight s.sdlc.stage)
    (hgroomed : s.groomed.isSome = true → s'.groomed.isSome = true)
    (hdesign : s.design.isSome = true → s'.design.isSome = true)
    (hrun : ∀ c, who = .developer c → developable s'.sdlc.run c ≤ developable s.sdlc.run c) :
    allowance cfg s' who ≤ allowance cfg s who := by
  unfold allowance
  by_cases hw : who.weight ≤ stageWeight s'.sdlc.stage
  · rw [if_pos hw, if_pos (Nat.le_trans hw hstage)]
    cases who with
    | groomer =>
      dsimp only
      by_cases hs : s.groomed.isSome = true
      · rw [if_pos hs, if_pos (hgroomed hs)]
      · rw [if_neg hs]
        split <;> omega
    | architect =>
      dsimp only
      by_cases hs : s.design.isSome = true
      · rw [if_pos hs, if_pos (hdesign hs)]
      · rw [if_neg hs]
        split <;> omega
    | developer c =>
      dsimp only
      split
      · exact hrun c rfl
      · exact Nat.le_refl 0
    | critic => exact Nat.le_refl 1
  · rw [if_neg hw]
    exact Nat.zero_le _

theorem stageWeight_le_of_step {cfg : SdlcConfig} {s r : SdlcRun} {b : SdlcAct} (h : cfg.step s b = some r) :
    stageWeight r.stage ≤ stageWeight s.stage := by
  rcases sdlc_step_cases h with ⟨a, r', -, -, -, rfl⟩ | ⟨-, -, hlt⟩
  · exact Nat.le_refl _
  · exact Nat.le_of_lt hlt

theorem developable_le_of_step {cfg : SdlcConfig} {past : List SdlcAct} {s r : SdlcRun} {b : SdlcAct}
    (hk : cfg.Kept past s) (h : cfg.step s b = some r) (c : Nat) : developable r.run c ≤ developable s.run c := by
  rcases sdlc_step_cases h with ⟨a, r', -, -, hr, rfl⟩ | ⟨-, hrun, -⟩
  · exact Nat.le_trans (Nat.le_add_right _ _) (SdlcConfig.developable_step hk hr c)
  · rw [hrun]

/-- A stage that is left is not come back to. -/
theorem stageWeight_lt_of_step {cfg : SdlcConfig} {s r : SdlcRun} {b : SdlcAct} (h : cfg.step s b = some r)
    (hb : ∀ a, b ≠ .work a) : stageWeight r.stage < stageWeight s.stage := by
  rcases sdlc_step_cases h with ⟨a, r', rfl, -⟩ | ⟨-, -, hlt⟩
  · exact absurd rfl (hb a)
  · exact hlt

theorem GraphEffect.step {cfg : GraphConfig} {s s' : GraphRun} {b : SdlcAct} (h : GraphEffect cfg s b s') :
    cfg.sdlc.step s.sdlc b = some s'.sdlc := by
  cases h <;> assumption

/-- A channel that is set stays as it is. -/
theorem GraphEffect.channels {cfg : GraphConfig} {s s' : GraphRun} {b : SdlcAct} (h : GraphEffect cfg s b s') :
    (s.groomed.isSome = true → s'.groomed = s.groomed) ∧ (s.design.isSome = true → s'.design = s.design) := by
  cases h with
  | groomer _ _ _ _ hkeep _ => exact ⟨hkeep, fun _ => rfl⟩
  | architect _ _ _ _ hkeep _ _ => exact ⟨fun _ => rfl, hkeep⟩
  | _ => exact ⟨fun _ => rfl, fun _ => rfl⟩

theorem allowance_of_effect {cfg : GraphConfig} {past : List SdlcAct} {s s' : GraphRun} {b : SdlcAct}
    (hk : cfg.sdlc.Kept past s.sdlc) (h : GraphEffect cfg s b s') (who : Persona) :
    allowance cfg s' who ≤ allowance cfg s who := by
  refine allowance_le (stageWeight_le_of_step h.step) (fun hs => ?_) (fun hs => ?_)
    (fun c _ => developable_le_of_step hk h.step c)
  · rw [h.channels.1 hs]
    exact hs
  · rw [h.channels.2 hs]
    exact hs

/-- A persona's prompts against its allowance, when it alone has asked. -/
theorem spent_of_asks {cfg : GraphConfig} {past : List SdlcAct} {s s' : GraphRun} {b : SdlcAct} {p : Persona} {k : Nat}
    (hk : cfg.sdlc.Kept past s.sdlc) (h : GraphEffect cfg s b s') (hasks : Asks cfg.personas p k s.sent s'.sent)
    (hown : k + allowance cfg s' p ≤ allowance cfg s p) (who : Persona) :
    asked who s'.sent + allowance cfg s' who ≤ asked who s.sent + allowance cfg s who := by
  obtain ⟨hmine, hothers⟩ := asked_append_of_asks hasks
  by_cases hw : who = p
  · rw [hw]
    omega
  · rw [hothers who hw]
    exact Nat.add_le_add_left (allowance_of_effect hk h who) _

/-- A persona whose stage is left with its prompts has no allowance left. -/
theorem spent_of_left {cfg : GraphConfig} {s s' : GraphRun} {b : SdlcAct} {p : Persona} {k : Nat}
    (h : GraphEffect cfg s b s') (hb : ∀ a, b ≠ .work a) (hstage : stageWeight s.sdlc.stage = p.weight)
    (hallow : allowance cfg s p = k) : k + allowance cfg s' p ≤ allowance cfg s p := by
  have hlt := stageWeight_lt_of_step h.step hb
  rw [allowance_of_lt (by omega), hallow]
  exact Nat.le_refl k

/-- **What is asked is taken from the allowance.** -/
theorem spent_of_effect {cfg : GraphConfig} {past : List SdlcAct} {s s' : GraphRun} {b : SdlcAct}
    (hk : cfg.sdlc.Kept past s.sdlc) (h : GraphEffect cfg s b s') (who : Persona) :
    asked who s'.sent + allowance cfg s' who ≤ asked who s.sent + allowance cfg s who := by
  have h' := h
  cases h with
  | groomer hstage hr hb hset hkeep hasks =>
    refine spent_of_asks hk h' hasks (spent_of_left h' ?_ (by rw [hstage]; rfl) (by rw [allowance, hstage]; rfl)) who
    rcases hb with rfl | rfl <;> simp
  | architect hstage hr hb hset hkeep hsound hasks =>
    refine spent_of_asks hk h' hasks (spent_of_left h' ?_ (by rw [hstage]; rfl) (by rw [allowance, hstage]; rfl)) who
    rcases hb with rfl | rfl <;> simp
  | critic hstage hr hb hasks =>
    refine spent_of_asks hk h' hasks (spent_of_left h' ?_ (by rw [hstage]; rfl) (by rw [allowance, hstage]; rfl)) who
    rcases hb with rfl | rfl <;> simp
  | @developer c ok r sent hr hasks =>
    refine spent_of_asks hk h' hasks ?_ who
    rcases sdlc_step_cases hr with ⟨a, r', ha, hstage, hwork, rfl⟩ | ⟨hno, -, -⟩
    · cases ha
      have hlt := SdlcConfig.develops_lt hk hwork
      have hdown := SdlcConfig.developable_step hk hwork c
      have hallow : ∀ t : GraphRun, t.sdlc.stage = .workers →
          allowance cfg t (.developer c) = developable t.sdlc.run c := by
        intro t ht
        rw [allowance, ht]
        exact if_pos hlt
      rw [Act.develops, if_pos rfl] at hdown
      have hafter := hallow { s with sdlc := { s.sdlc with run := r' }, sent := sent } hstage
      rw [hallow s hstage, hafter, Nat.add_comm]
      exact hdown
    · exact absurd rfl (hno _)
  | other hb hr => exact Nat.add_le_add_left (allowance_of_effect hk h' who) _

/-! ## Whole runs -/

/-- The prompts of a step are those of the persona whose stage it is. -/
theorem GraphEffect.asks {cfg : GraphConfig} {s s' : GraphRun} {b : SdlcAct} (h : GraphEffect cfg s b s') :
    ∃ p k, (s'.sent = s.sent ∨ stageWeight s.sdlc.stage = p.weight) ∧ Asks cfg.personas p k s.sent s'.sent := by
  cases h with
  | groomer hstage hr hb hset hkeep hasks => exact ⟨.groomer, _, Or.inr (by rw [hstage]; rfl), hasks⟩
  | architect hstage hr hb hset hkeep hsound hasks => exact ⟨.architect, _, Or.inr (by rw [hstage]; rfl), hasks⟩
  | @developer c ok r sent hr hasks =>
    refine ⟨.developer c, 1, Or.inr ?_, hasks⟩
    rcases sdlc_step_cases hr with ⟨a, r', -, hstage, -⟩ | ⟨hno, -, -⟩
    · rw [hstage]
      rfl
    · exact absurd rfl (hno _)
  | critic hstage hr hb hasks => exact ⟨.critic, _, Or.inr (by rw [hstage]; rfl), hasks⟩
  | other hb hr => exact ⟨.critic, 0, Or.inl rfl, Asks.nothing _ _ _ _⟩

/-- A stage past the architect's has a design to work on, unless the run has ended. -/
def Staffed (s : GraphRun) : Prop := stageWeight s.sdlc.stage ≤ 2 → 1 ≤ stageWeight s.sdlc.stage → s.design.isSome

/-- **What a run of the graph keeps.** -/
structure Conducted (cfg : GraphConfig) (start s : GraphRun) : Prop where
  kept : ∃ past, cfg.sdlc.Kept past s.sdlc
  spent : ∀ who, asked who s.sent + allowance cfg s who ≤ allowance cfg start who
  inTurn : (s.sent.map Prod.fst).Pairwise (fun p q => q.weight ≤ p.weight)
  upto : ∀ x ∈ s.sent, stageWeight s.sdlc.stage ≤ x.1.weight
  short : ∀ x ∈ s.sent, ∃ messages, messages.length ≤ 4 ∧ x.2 = cfg.personas.clipped messages
  staffed : Staffed s
  designed : ∀ x ∈ s.sent, x.1.weight ≤ 2 → s.design.isSome
  groomed : start.groomed.isSome = true → s.groomed = start.groomed
  design : start.design.isSome = true → s.design = start.design
  sound : start.design = none → ∀ d ∈ s.design, Personas.Sound d

theorem staffed_of_effect {cfg : GraphConfig} {s s' : GraphRun} {b : SdlcAct} (h : GraphEffect cfg s b s')
    (hs : Staffed s) : Staffed s' := by
  have hle := stageWeight_le_of_step h.step
  have hkeep : s.design.isSome = true → s'.design.isSome = true := fun hset => by
    rw [h.channels.2 hset]
    exact hset
  by_cases hw : stageWeight s.sdlc.stage ≤ 2
  · exact fun _ h1 => hkeep (hs hw (Nat.le_trans h1 hle))
  · cases h with
    | groomer hstage hr hb hset _ _ =>
      rcases hb with rfl | rfl
      · simp only [SdlcConfig.step, if_pos hstage, Option.some.injEq] at hr
        rw [← hr]
        exact fun h2 _ => absurd h2 (by simp [stageWeight])
      · simp only [SdlcConfig.step, Option.ite_none_right_eq_some, Option.some.injEq] at hr
        rw [← hr.2]
        exact fun _ h1 => absurd h1 (by simp [stageWeight])
    | architect hstage hr hb hset _ _ _ =>
      rcases hb with rfl | rfl
      · exact fun _ _ => hset rfl
      · simp only [SdlcConfig.step, Option.ite_none_right_eq_some, Option.some.injEq] at hr
        rw [← hr.2]
        exact fun _ h1 => absurd h1 (by simp [stageWeight])
    | critic hstage _ _ _ => exact absurd (show stageWeight s.sdlc.stage ≤ 2 by rw [hstage]; decide) hw
    | developer hr _ =>
      rcases sdlc_step_cases hr with ⟨a, r', -, hstage, -⟩ | ⟨hno, -, -⟩
      · exact absurd (show stageWeight s.sdlc.stage ≤ 2 by rw [hstage]; decide) hw
      · exact absurd rfl (hno _)
    | @other b r gate hb hr =>
      have hwork : s.sdlc.stage ≠ .workers := by
        rintro hstage
        exact hw (by rw [hstage]; decide)
      cases b with
      | groom => cases hb
      | design => cases hb
      | criticise => cases hb
      | raise =>
        simp only [SdlcConfig.step, Option.ite_none_right_eq_some, Option.some.injEq] at hr
        rw [← hr.2]
        exact fun _ h1 => absurd h1 (by simp [stageWeight])
      | _ =>
        simp only [SdlcConfig.step, Option.ite_none_right_eq_some] at hr
        first | exact absurd hr.1 hwork | exact absurd hr.1.1 hwork

theorem conducted_init (cfg : GraphConfig) (status : Nat → ChunkStatus) (assigned : Nat → Option String)
    (workspace : WorkerWorkspace) (groomed : Option GroomedRequirements) (design : Option TechnicalDesign)
    (gate : ExecutionState) :
    Conducted cfg (GraphConfig.init status assigned workspace groomed design gate)
      (GraphConfig.init status assigned workspace groomed design gate) where
  kept := ⟨[], SdlcConfig.kept_init cfg.sdlc status assigned workspace⟩
  spent := fun who => by simp [asked, GraphConfig.init]
  inTurn := List.Pairwise.nil
  upto := fun x hx => by cases hx
  short := fun x hx => by cases hx
  staffed := fun h2 => absurd h2 (show ¬ 4 ≤ 2 by decide)
  designed := fun x hx => by cases hx
  groomed := fun _ => rfl
  design := fun _ => rfl
  sound := fun hnone d hd => by
    rw [hnone] at hd
    cases hd

/-- **A step keeps it.** -/
theorem conducted_step {cfg : GraphConfig} {start s s' : GraphRun} {a : GraphAct} (h : Conducted cfg start s)
    (hstep : cfg.step s a = some s') : Conducted cfg start s' := by
  obtain ⟨b, he⟩ := graph_effect_of_step hstep
  obtain ⟨past, hk⟩ := h.kept
  obtain ⟨hgroomed, hdesign⟩ := he.channels
  obtain ⟨p, k, hp, new, hsent, -, hnew⟩ := he.asks
  have hweight : ∀ x ∈ new, stageWeight s.sdlc.stage = x.1.weight := by
    intro x hx
    rcases hp with hp | hp
    · rw [hp, List.self_eq_append_right] at hsent
      rw [hsent] at hx
      cases hx
    · rw [(hnew x hx).1]
      exact hp
  have hset : s.design.isSome = true → s'.design.isSome = true := fun hs => by
    rw [hdesign hs]
    exact hs
  refine ⟨⟨past ++ [b], (SdlcConfig.kept_step hk he.step).1⟩,
    fun who => Nat.le_trans (spent_of_effect hk he who) (h.spent who), ?_, fun x hx => ?_, fun x hx => ?_,
    staffed_of_effect he h.staffed, fun x hx hx2 => ?_, fun hs => ?_, fun hs => ?_, fun hnone => ?_⟩
  · rw [hsent, List.map_append, List.pairwise_append]
    refine ⟨h.inTurn, ?_, fun q hq r hr => ?_⟩
    · rw [List.pairwise_map]
      refine List.pairwise_of_forall_mem_list (fun x hx y hy => ?_)
      rw [← hweight x hx, ← hweight y hy]
    · obtain ⟨x, hx, rfl⟩ := List.mem_map.1 hq
      obtain ⟨y, hy, rfl⟩ := List.mem_map.1 hr
      rw [← hweight y hy]
      exact h.upto x hx
  · refine Nat.le_trans (stageWeight_le_of_step he.step) ?_
    rw [hsent] at hx
    rcases List.mem_append.1 hx with hx | hx
    · exact h.upto x hx
    · exact Nat.le_of_eq (hweight x hx)
  · rw [hsent] at hx
    rcases List.mem_append.1 hx with hx | hx
    · exact h.short x hx
    · exact (hnew x hx).2
  · rw [hsent] at hx
    rcases List.mem_append.1 hx with hx | hx
    · exact hset (h.designed x hx hx2)
    · refine hset (h.staffed (by rw [hweight x hx]; exact hx2) ?_)
      rw [hweight x hx]
      cases x.1 <;> simp [Persona.weight]
  · rw [hgroomed (by rw [h.groomed hs]; exact hs)]
    exact h.groomed hs
  · rw [hdesign (by rw [h.design hs]; exact hs)]
    exact h.design hs
  · intro d hd
    cases hsome : s.design with
    | some d' =>
      rw [hdesign (by rw [hsome]; rfl)] at hd
      exact h.sound hnone d hd
    | none =>
      cases he with
      | architect _ _ _ _ _ hsound _ => exact hsound hsome d hd
      | _ =>
        dsimp only at hd
        rw [hsome] at hd
        cases hd

theorem conducted_of_run {cfg : GraphConfig} {start s : GraphRun} {as : List GraphAct} (h : Conducted cfg start start)
    (hr : cfg.machine.run start as = some s) : Conducted cfg start s :=
  cfg.machine.inv_of_run (Conducted cfg start) (fun _ _ _ h hstep => conducted_step h hstep) as _ _ h hr

/-- What a persona may ask in a run of `n` chunks from these channels. -/
def quota (n : Nat) (groomed : Option GroomedRequirements) (design : Option TechnicalDesign) : Persona → Nat
  | .groomer => if groomed.isSome = true then 0 else 1 + Personas.maxRepairs
  | .architect => if design.isSome = true then 0 else 1 + Personas.maxRepairs
  | .developer c => if c < n then e2eCeiling else 0
  | .critic => 1

/-- **The prompts of a run** of `n` chunks: each persona within its quota, all of them within its sum, one persona after
the other; a prompt is of four messages at most, and with a model's entry it fits the budget exactly when that has two
tokens for each of its messages. -/
structure Billed (cfg : GraphConfig) (groomed : Option GroomedRequirements) (design : Option TechnicalDesign)
    (sent : List (Persona × List Message)) : Prop where
  each : ∀ who, asked who sent ≤ quota cfg.sdlc.chunks.length groomed design who
  total : sent.length ≤ quota cfg.sdlc.chunks.length groomed design .groomer +
    quota cfg.sdlc.chunks.length groomed design .architect + e2eCeiling * cfg.sdlc.chunks.length + 1
  inTurn : (sent.map Prod.fst).Pairwise (fun p q => q.weight ≤ p.weight)
  fits : ∀ x ∈ sent, x.2.length ≤ 4 ∧ ∀ entry, cfg.personas.modelEntry = some entry →
    ((countMessages x.2 : ℤ) ≤ promptBudget entry ↔ 2 * (x.2.length : ℤ) ≤ promptBudget entry)

theorem allowance_init (cfg : GraphConfig) (status : Nat → ChunkStatus) (assigned : Nat → Option String)
    (workspace : WorkerWorkspace) (groomed : Option GroomedRequirements) (design : Option TechnicalDesign)
    (gate : ExecutionState) (who : Persona) :
    allowance cfg (GraphConfig.init status assigned workspace groomed design gate) who =
      quota cfg.sdlc.chunks.length groomed design who := by
  cases who <;> rfl

/-- The personas of a run of `n` chunks. -/
def personas (n : Nat) : Finset Persona := {.groomer, .architect, .critic} ∪ (Finset.range n).image .developer

/-- **What all have asked** is what each has. -/
theorem length_le_of_quota {n : Nat} {groomed : Option GroomedRequirements} {design : Option TechnicalDesign}
    {sent : List (Persona × List Message)} (h : ∀ who, asked who sent ≤ quota n groomed design who) :
    sent.length ≤ quota n groomed design .groomer + quota n groomed design .architect + e2eCeiling * n + 1 := by
  have hmem : ∀ p ∈ (sent.map Prod.fst : Multiset Persona), p ∈ personas n := by
    intro p hp
    rw [Multiset.mem_coe] at hp
    have hpos : 0 < asked p sent := List.count_pos_iff.2 hp
    cases p with
    | developer c =>
      have hq := h (.developer c)
      rw [quota] at hq
      split at hq
      · rename_i hc
        exact Finset.mem_union_right _ (Finset.mem_image_of_mem _ (Finset.mem_range.2 hc))
      · omega
    | _ => simp [personas]
  have hdisjoint : Disjoint ({.groomer, .architect, .critic} : Finset Persona) ((Finset.range n).image .developer) := by
    simp [Finset.disjoint_left]
  have hdevelopers : ∑ p ∈ (Finset.range n).image .developer, quota n groomed design p ≤ e2eCeiling * n := by
    refine Nat.le_trans (Finset.sum_le_card_nsmul _ _ e2eCeiling (fun p hp => ?_)) ?_
    · obtain ⟨c, hc, rfl⟩ := Finset.mem_image.1 hp
      rw [quota, if_pos (Finset.mem_range.1 hc)]
    · rw [smul_eq_mul, Nat.mul_comm]
      exact Nat.mul_le_mul_left _ (Nat.le_trans Finset.card_image_le (Nat.le_of_eq (Finset.card_range n)))
  have hothers : ∑ p ∈ ({.groomer, .architect, .critic} : Finset Persona), quota n groomed design p =
      quota n groomed design .groomer + quota n groomed design .architect + 1 := by
    simp [quota, Nat.add_assoc]
  have hcard := Multiset.sum_count_eq_card hmem
  rw [Multiset.coe_card, List.length_map] at hcard
  calc sent.length = ∑ p ∈ personas n, (sent.map Prod.fst : Multiset Persona).count p := hcard.symm
    _ ≤ ∑ p ∈ personas n, quota n groomed design p := Finset.sum_le_sum (fun p _ => by
        rw [Multiset.coe_count]
        exact h p)
    _ ≤ _ := by
        rw [personas, Finset.sum_union hdisjoint, hothers]
        omega

theorem clipped_fits {P : Personas} {messages : List Message} (h : messages.length ≤ 4) :
    (P.clipped messages).length ≤ 4 ∧ ∀ entry, P.modelEntry = some entry →
      ((countMessages (P.clipped messages) : ℤ) ≤ promptBudget entry ↔
        2 * ((P.clipped messages).length : ℤ) ≤ promptBudget entry) := by
  unfold Personas.clipped
  cases hentry : P.modelEntry with
  | none => exact ⟨h, fun entry he => by cases he⟩
  | some entry =>
    dsimp only
    rw [length_fitMessages]
    refine ⟨h, fun entry' he => ?_⟩
    cases he
    exact fitMessages_fits_iff messages entry

namespace GraphConfig

/-- **What a run asks of its client is bounded**, whatever the client answers, the suites and git say, and the executions
interleave. -/
theorem billed_of_run (cfg : GraphConfig) (status : Nat → ChunkStatus) (assigned : Nat → Option String)
    (workspace : WorkerWorkspace) (groomed : Option GroomedRequirements) (design : Option TechnicalDesign)
    (gate : ExecutionState) (as : List GraphAct) (s : GraphRun)
    (hr : cfg.machine.run (init status assigned workspace groomed design gate) as = some s) :
    Billed cfg groomed design s.sent := by
  have h := conducted_of_run (conducted_init cfg status assigned workspace groomed design gate) hr
  have heach : ∀ who, asked who s.sent ≤ quota cfg.sdlc.chunks.length groomed design who := fun who => by
    rw [← allowance_init cfg status assigned workspace groomed design gate who]
    exact Nat.le_trans (Nat.le_add_right _ _) (h.spent who)
  refine ⟨heach, length_le_of_quota heach, h.inTurn, fun x hx => ?_⟩
  obtain ⟨messages, hlen, hclip⟩ := h.short x hx
  rw [hclip]
  exact clipped_fits hlen

/-- **The channels of a run**: what was set stays, a design made in the run is sound, and neither a developer nor the critic
is asked anything before there is one. -/
structure Channelled (groomed : Option GroomedRequirements) (design : Option TechnicalDesign) (s : GraphRun) : Prop where
  requirements : groomed.isSome = true → s.groomed = groomed
  architecture : design.isSome = true → s.design = design
  sound : design = none → ∀ d ∈ s.design, Personas.Sound d
  designed : ∀ x ∈ s.sent, x.1.weight ≤ 2 → s.design.isSome

theorem channelled_of_run (cfg : GraphConfig) (status : Nat → ChunkStatus) (assigned : Nat → Option String)
    (workspace : WorkerWorkspace) (groomed : Option GroomedRequirements) (design : Option TechnicalDesign)
    (gate : ExecutionState) (as : List GraphAct) (s : GraphRun)
    (hr : cfg.machine.run (init status assigned workspace groomed design gate) as = some s) :
    Channelled groomed design s := by
  have h := conducted_of_run (conducted_init cfg status assigned workspace groomed design gate) hr
  exact ⟨h.groomed, h.design, h.sound, h.designed⟩

/-- One chunk, and schemas that take any JSON. -/
def anyJson : GraphConfig where
  sdlc := SdlcConfig.oneChunk
  personas :=
    { modelEntry := some ⟨100, 60⟩
      rawInput := "add a page".toList
      groomerPrompt := "groom".toList
      architectPrompt := "design".toList
      developerPrompt := "develop".toList
      criticPrompt := "judge".toList
      validateGroomed := fun _ => .ok ⟨"a page".toList, "V7".toList, 0⟩
      validateDesign := fun _ => .ok ⟨"one page".toList, ⟨"\x7b\x7d".toList, []⟩, .approved⟩
      validateVerdict := fun _ => .ok ⟨.approved, "all".toList, [], fun h => by cases h⟩
      jsonError := fun _ => "Expecting value".toList
      designText := fun _ => [] }
  title := fun _ => "the page".toList

/-- The groomer repairs, the first suite is red, and the second is green. -/
def repairedRun : List GraphAct :=
  let attempt := fun (outcome : TestOutcome) => [GraphAct.other (.work .enter), .other (.work .turn), .other (.work (.bind 0 true)),
    .develop 0 ["\x7b\"a.md\": \"x\"\x7d".toList] true, .other (.work (.test 0 outcome))]
  [.groom ["no".toList, "\x7b\x7d".toList], .design ["\x7b\x7d".toList]] ++ attempt .failed ++
    [.other (.work (.wake [0])), .other (.work .settle), .other (.work .leave)] ++ attempt .passed ++
    [.other (.work (.commit 0 true)), .other (.work (.wake [0])), .other (.work .settle), .other (.work .turn),
      .other (.work .leave)]

theorem billed_repairedRun : ∃ s, anyJson.machine.run (init (fun _ => .pending) (fun _ => none) emptyWorkspace none none
    .ready) repairedRun = some s ∧ s.sent.map Prod.fst = [.groomer, .groomer, .architect, .developer 0, .developer 0] ∧
      Billed anyJson none none s.sent := by
  obtain ⟨s, hs, hsent⟩ := (Option.any_eq_true (p := fun s : GraphRun =>
      decide (s.sent.map Prod.fst = [.groomer, .groomer, .architect, .developer 0, .developer 0])) _).1
    (show (anyJson.machine.run (init (fun _ => .pending) (fun _ => none) emptyWorkspace none none .ready) repairedRun).any _
      = true by decide +kernel)
  exact ⟨s, hs, of_decide_eq_true hsent, billed_of_run _ _ _ _ _ _ _ _ s hs⟩

theorem channelled_repairedRun : ∃ s, anyJson.machine.run (init (fun _ => .pending) (fun _ => none) emptyWorkspace none none
    .ready) repairedRun = some s ∧ Channelled none none s := by
  obtain ⟨s, hs⟩ := Option.isSome_iff_exists.1 (show (anyJson.machine.run (init (fun _ => .pending) (fun _ => none)
    emptyWorkspace none none .ready) repairedRun).isSome = true by decide +kernel)
  exact ⟨s, hs, channelled_of_run _ _ _ _ _ _ _ _ s hs⟩

end GraphConfig
end Engine
end DevHarness
