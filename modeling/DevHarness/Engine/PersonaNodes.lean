import DevHarness.Contracts
import DevHarness.Engine.Context
import DevHarness.Engine.Gatekeeper
import DevHarness.Engine.PersonaReplies
/-!
# PersonaNodes — what the persona nodes ask of the client (`engine/nodes/*.py`, `engine/personas/validators.py`)

Each node of the graph that completes: the groomer and the architect through the validator that repairs once, the
developer and the critic with one prompt.  A node gets the client's answers to its own prompts, and a client that has no
more answers raises; what it asked is appended to `sent`.  The schemas are pydantic's, so they are parameters.
`Asks` is what every node promises: how many prompts, whose, and of how many messages.
-/
namespace DevHarness
namespace Engine

open Lib (Text Dict)
open Lib.Text (strip join)
open Lib.JsonText (Value loads)
open Gatekeeper (Verdict)

/-! ## Artifacts -/

/-- Locked requirements; the only status is `LOCKED`. -/
structure GroomedRequirements where
  prdContent : Text
  version : Text
  lockedAtTimestamp : ℤ
  deriving DecidableEq

structure InterfaceContracts where
  openapiSpec : Text
  dbSchema : Text
  deriving DecidableEq

inductive DesignStatus where
  | approved
  | pending
  | rejected
  deriving DecidableEq, Repr

structure TechnicalDesign where
  architectureSpec : Text
  interfaceContracts : InterfaceContracts
  status : DesignStatus
  deriving DecidableEq

/-- The critic's verdict: a rejection cites its reasons. -/
structure CriticVerdict where
  verdict : Verdict
  target : Text
  reasons : List Text
  cites : verdict = .rejected → reasons ≠ []

/-! ## The client -/

inductive Persona where
  | groomer
  | architect
  | developer (c : ℕ)
  | critic
  deriving DecidableEq, Repr

/-- What the nodes are made of: the prompts on disk, the model's entry when one is given, and what pydantic and `json` do. -/
structure Personas where
  modelEntry : Option ModelEntry
  rawInput : Text
  groomerPrompt : Text
  architectPrompt : Text
  developerPrompt : Text
  criticPrompt : Text
  validateGroomed : Value → Except Text GroomedRequirements
  validateDesign : Value → Except Text TechnicalDesign
  validateVerdict : Value → Except Text CriticVerdict
  -- `str(exc)` of the `JSONDecodeError`
  jsonError : Text → Text
  -- `f"{design}"`
  designText : Option TechnicalDesign → Text

inductive NodeError where
  -- whatever the client raises
  | client
  -- `PersonaOutputError`
  | personaOutput (message : Text)
  -- `EngineError`, with its remediation
  | engine (message remediation : Text)
  deriving DecidableEq

/-- A node at work: the answers it will get, and all prompts that reached the client so far. -/
structure Asking where
  answers : List Text
  sent : List (Persona × List Message)

def system (content : Text) : Message := ⟨"system".toList, content, none⟩
def user (content : Text) : Message := ⟨"user".toList, content, none⟩
def assistant (content : Text) : Message := ⟨"assistant".toList, content, none⟩

namespace Personas

variable (P : Personas)

/-- What `_BudgetedClient` makes of a prompt; without an entry the client is not wrapped. -/
def clipped (messages : List Message) : List Message :=
  match P.modelEntry with
  | none => messages
  | some entry => fitMessages messages entry

/-- `complete`; none when the client raises. -/
def complete (who : Persona) (messages : List Message) (a : Asking) : Option Text × Asking :=
  (a.answers.head?, ⟨a.answers.tail, a.sent ++ [(who, P.clipped messages)]⟩)

/-! ## `PersonaOutputValidator` -/

def defaultRepairPrompt (raw error : Text) : Text :=
  "Your previous output was not a valid JSON object for the required schema.\nError: ".toList ++ error ++
    "\nReturn ONLY one corrected JSON object that satisfies the output contract. No prose and no markdown fences.\n".toList ++
    "Previous output:\n".toList ++ raw

def maxRepairs : ℕ := 1

/-- `_parse`. -/
def parse {α : Type} (modelValidate : Value → Except Text α) (text : Text) : Except Text α :=
  match loads text with
  | none => .error ("invalid JSON: ".toList ++ P.jsonError text)
  | some data => match modelValidate data with
    | .ok value => .ok value
    | .error e => .error ("schema validation failed: ".toList ++ e)

def malformed (model : String) (error : Text) : Text :=
  "persona output for ".toList ++ model.toList ++ " is malformed after ".toList ++ (toString maxRepairs).toList ++
    " repair retry: ".toList ++ error

/-- The loop of repairs, with the retries left, the last text and what is wrong with it. -/
def repair {α : Type} (who : Persona) (model : String) (modelValidate : Value → Except Text α) (messages : List Message) :
    ℕ → Text → Text → Asking → Except NodeError α × Asking
  | 0, _, error, a => (.error (.personaOutput (malformed model error)), a)
  | n + 1, text, error, a =>
    match P.complete who (messages ++ [assistant text, user (defaultRepairPrompt text error)]) a with
    | (none, a) => (.error .client, a)
    | (some text, a) => match P.parse modelValidate text with
      | .ok value => (.ok value, a)
      | .error error => repair who model modelValidate messages n text error a

def validate {α : Type} (who : Persona) (model : String) (modelValidate : Value → Except Text α) (messages : List Message)
    (a : Asking) : Except NodeError α × Asking :=
  match P.complete who messages a with
  | (none, a) => (.error .client, a)
  | (some text, a) => match P.parse modelValidate text with
    | .ok value => (.ok value, a)
    | .error error => P.repair who model modelValidate messages maxRepairs text error a

/-! ## The nodes -/

/-- `GroomerNode.__call__`: the update, nothing when the channel is set. -/
def groomerNode (groomed : Option GroomedRequirements) (a : Asking) : Except NodeError (Option GroomedRequirements) × Asking :=
  if groomed.isSome = true then (.ok none, a)
  else match P.validate .groomer "GroomedRequirements" P.validateGroomed [system P.groomerPrompt, user P.rawInput] a with
    | (.ok value, a) => (.ok (some value), a)
    | (.error e, a) => (.error e, a)

def requirementsPrompt (groomed : GroomedRequirements) : Text :=
  "Locked requirements (".toList ++ groomed.version ++ ", status LOCKED):\n\n".toList ++ groomed.prdContent

def isEmptyDesign (design : TechnicalDesign) : Bool :=
  strip design.architectureSpec = [] ||
    (strip design.interfaceContracts.openapiSpec = [] && strip design.interfaceContracts.dbSchema = [])

/-- `_enforce_contract`. -/
def enforceContract (design : TechnicalDesign) : Except NodeError TechnicalDesign :=
  let spec := design.interfaceContracts.openapiSpec
  if strip spec ≠ [] ∧ loads spec = none then
    .error (.personaOutput ("architect output has a non-JSON openapi_spec: ".toList ++ P.jsonError spec))
  else if isEmptyDesign design = true ∧ design.status = .approved then .ok { design with status := .rejected }
  else .ok design

/-- `ArchitectNode.__call__`. -/
def architectNode (groomed : Option GroomedRequirements) (design : Option TechnicalDesign) (a : Asking) :
    Except NodeError (Option TechnicalDesign) × Asking :=
  if design.isSome = true then (.ok none, a)
  else match groomed with
    | none => (.error (.engine "architect node requires groomed_requirements, but the channel is absent".toList
        "Run the groomer node first so a locked PRD exists.".toList), a)
    | some groomed =>
      match P.validate .architect "TechnicalDesign" P.validateDesign
          [system P.architectPrompt, user (requirementsPrompt groomed)] a with
      | (.error e, a) => (.error e, a)
      | (.ok value, a) => match P.enforceContract value with
        | .error e => (.error e, a)
        | .ok design => (.ok (some design), a)

def chunkPrompt (chunk : Chunk) (title : Text) (design : Option TechnicalDesign) : Text :=
  let dependencies := join [',', ' '] (chunk.dependencies.map String.toList)
  "Implement chunk '".toList ++ chunk.chunkId.toList ++ "': ".toList ++ title ++ "\nDependencies: ".toList ++
    (if dependencies = [] then "none".toList else dependencies) ++ "\n\nApproved design:\n".toList ++ P.designText design

/-- `DeveloperNode.__call__` up to its write map; the chunk is `c` of the plan. -/
def developerReply (c : ℕ) (chunk : Chunk) (title : Text) (design : Option TechnicalDesign) (a : Asking) :
    Except NodeError (Dict Text Text) × Asking :=
  match P.complete (.developer c) [system P.developerPrompt, user (P.chunkPrompt chunk title design)] a with
  | (none, a) => (.error .client, a)
  | (some text, a) => match parseFileWrites P.jsonError text with
    | .error e => (.error (.personaOutput e), a)
    | .ok writes => (.ok writes, a)

def parseVerdict (text : Text) : Except Text CriticVerdict :=
  match loads (stripFences text) with
  | none => .error ("critic output is not a JSON verdict object: ".toList ++ P.jsonError (stripFences text))
  | some data => match P.validateVerdict data with
    | .ok verdict => .ok verdict
    | .error e => .error ("critic verdict failed validation: ".toList ++ e)

/-- `CriticNode.__call__`, up to the status it publishes. -/
def criticNode (a : Asking) : Except NodeError CriticVerdict × Asking :=
  match P.complete .critic [system P.criticPrompt, user P.rawInput] a with
  | (none, a) => (.error .client, a)
  | (some text, a) => match P.parseVerdict text with
    | .error e => (.error (.personaOutput e), a)
    | .ok verdict => (.ok verdict, a)

end Personas

/-! ## What a node asks -/

/-- **At most `k` prompts more, all of `who`**, each of four messages at most. -/
def Asks (P : Personas) (who : Persona) (k : ℕ) (sent sent' : List (Persona × List Message)) : Prop :=
  ∃ new, sent' = sent ++ new ∧ new.length ≤ k ∧
    ∀ x ∈ new, x.1 = who ∧ ∃ messages, messages.length ≤ 4 ∧ x.2 = P.clipped messages

variable {P : Personas} {who : Persona}

theorem Asks.nothing (P : Personas) (who : Persona) (k : ℕ) (sent : List (Persona × List Message)) :
    Asks P who k sent sent := ⟨[], (List.append_nil _).symm, Nat.zero_le _, fun x hx => by cases hx⟩

theorem Asks.trans {k l : ℕ} {a b c : List (Persona × List Message)} (h : Asks P who k a b) (h' : Asks P who l b c) :
    Asks P who (k + l) a c := by
  obtain ⟨new, rfl, hlen, hall⟩ := h
  obtain ⟨new', rfl, hlen', hall'⟩ := h'
  refine ⟨new ++ new', List.append_assoc _ _ _, ?_, fun x hx => ?_⟩
  · rw [List.length_append]
    omega
  · rcases List.mem_append.1 hx with hx | hx
    · exact hall x hx
    · exact hall' x hx

theorem Asks.le {k l : ℕ} {a b : List (Persona × List Message)} (h : Asks P who k a b) (hle : k ≤ l) : Asks P who l a b := by
  obtain ⟨new, hnew, hlen, hall⟩ := h
  exact ⟨new, hnew, Nat.le_trans hlen hle, hall⟩

namespace Personas

theorem asks_complete (P : Personas) (who : Persona) {messages : List Message} (h : messages.length ≤ 4) (a : Asking) :
    Asks P who 1 a.sent (P.complete who messages a).2.sent :=
  ⟨_, rfl, Nat.le_refl 1, fun x hx => by
    rw [List.mem_singleton.1 hx]
    exact ⟨rfl, messages, h, rfl⟩⟩

theorem asks_repair {α : Type} (model : String) (modelValidate : Value → Except Text α) {messages : List Message}
    (h : messages.length ≤ 2) : ∀ (n : ℕ) (text error : Text) (a : Asking),
      Asks P who n a.sent (P.repair who model modelValidate messages n text error a).2.sent
  | 0, _, _, a => Asks.nothing P who 0 a.sent
  | n + 1, text, error, a => by
    have hlen : (messages ++ [assistant text, user (defaultRepairPrompt text error)]).length ≤ 4 := by
      rw [List.length_append]
      simpa using h
    have hone := asks_complete P who hlen a
    rw [repair, Nat.add_comm]
    cases hc : P.complete who (messages ++ [assistant text, user (defaultRepairPrompt text error)]) a with
    | mk answer b =>
      rw [hc] at hone
      cases answer with
      | none => exact hone.le (Nat.le_add_right 1 n)
      | some text' =>
        dsimp only
        cases P.parse modelValidate text' with
        | ok value => exact hone.le (Nat.le_add_right 1 n)
        | error error' => exact hone.trans (asks_repair model modelValidate h n text' error' b)

/-- **The validator** asks once, and once more for each repair. -/
theorem asks_validate {α : Type} (P : Personas) (who : Persona) (model : String) (modelValidate : Value → Except Text α) {messages : List Message}
    (h : messages.length ≤ 2) (a : Asking) :
    Asks P who (1 + maxRepairs) a.sent (P.validate who model modelValidate messages a).2.sent := by
  have hone := asks_complete P who (show messages.length ≤ 4 by omega) a
  rw [validate]
  cases hc : P.complete who messages a with
  | mk answer b =>
    rw [hc] at hone
    cases answer with
    | none => exact hone.le (Nat.le_add_right 1 _)
    | some text =>
      dsimp only
      cases P.parse modelValidate text with
      | ok value => exact hone.le (Nat.le_add_right 1 _)
      | error error => exact hone.trans (asks_repair model modelValidate h maxRepairs text error b)

/-- **The groomer** asks nothing once its channel is set; what it returns sets it. -/
theorem groomerNode_spec (P : Personas) (groomed : Option GroomedRequirements) (a : Asking) :
    Asks P .groomer (if groomed.isSome = true then 0 else 1 + maxRepairs) a.sent (P.groomerNode groomed a).2.sent ∧
    ∀ update, (P.groomerNode groomed a).1 = .ok update →
      (update.or groomed).isSome ∧ (groomed.isSome = true → update = none) := by
  rw [groomerNode]
  by_cases hset : groomed.isSome = true
  · rw [if_pos hset, if_pos hset]
    refine ⟨Asks.nothing P _ _ _, fun update hu => ?_⟩
    cases hu
    exact ⟨hset, fun _ => rfl⟩
  · rw [if_neg hset, if_neg hset]
    have hasks := asks_validate P .groomer "GroomedRequirements" P.validateGroomed
      (show [system P.groomerPrompt, user P.rawInput].length ≤ 2 from Nat.le_refl 2) a
    cases hv : P.validate .groomer "GroomedRequirements" P.validateGroomed [system P.groomerPrompt, user P.rawInput] a with
    | mk outcome b =>
      rw [hv] at hasks
      cases outcome with
      | error e => exact ⟨hasks, fun update hu => by cases hu⟩
      | ok value =>
        refine ⟨hasks, fun update hu => ?_⟩
        cases hu
        exact ⟨rfl, fun h => absurd h hset⟩

/-- **A design under its contract**: its spec parses when it is not blank, and an empty design is not approved. -/
structure Sound (design : TechnicalDesign) : Prop where
  parses : strip design.interfaceContracts.openapiSpec ≠ [] → (loads design.interfaceContracts.openapiSpec).isSome
  substance : design.status = .approved → isEmptyDesign design = false

theorem sound_of_enforceContract {design enforced : TechnicalDesign} (h : P.enforceContract design = .ok enforced) :
    Sound enforced := by
  unfold enforceContract at h
  dsimp only at h
  split at h
  · cases h
  · rename_i hspec
    have hparses : strip design.interfaceContracts.openapiSpec ≠ [] →
        (loads design.interfaceContracts.openapiSpec).isSome := fun hne =>
      Option.ne_none_iff_isSome.1 (fun hnone => hspec ⟨hne, hnone⟩)
    split at h
    · cases h
      exact ⟨hparses, fun habs => by cases habs⟩
    · rename_i hempty
      cases h
      exact ⟨hparses, fun happroved => Bool.eq_false_iff.2 (fun he => hempty ⟨he, happroved⟩)⟩

/-- **The architect** asks nothing once its channel is set; what it returns sets it, under its contract. -/
theorem architectNode_spec (P : Personas) (groomed : Option GroomedRequirements) (design : Option TechnicalDesign)
    (a : Asking) :
    Asks P .architect (if design.isSome = true then 0 else 1 + maxRepairs) a.sent
      (P.architectNode groomed design a).2.sent ∧
    ∀ update, (P.architectNode groomed design a).1 = .ok update →
      (update.or design).isSome ∧ (design.isSome = true → update = none) ∧ ∀ d ∈ update, Sound d := by
  unfold architectNode
  by_cases hset : design.isSome = true
  · rw [if_pos hset, if_pos hset]
    refine ⟨Asks.nothing P _ _ _, fun update hu => ?_⟩
    cases hu
    exact ⟨hset, fun _ => rfl, fun d hd => by cases hd⟩
  · rw [if_neg hset, if_neg hset]
    cases groomed with
    | none => exact ⟨Asks.nothing P _ _ _, fun update hu => by cases hu⟩
    | some groomed =>
      have hasks := asks_validate P .architect "TechnicalDesign" P.validateDesign
        (show [system P.architectPrompt, user (requirementsPrompt groomed)].length ≤ 2 from Nat.le_refl 2) a
      dsimp only
      cases hv : P.validate .architect "TechnicalDesign" P.validateDesign
          [system P.architectPrompt, user (requirementsPrompt groomed)] a with
      | mk outcome b =>
        rw [hv] at hasks
        cases outcome with
        | error e => exact ⟨hasks, fun update hu => by cases hu⟩
        | ok value =>
          dsimp only
          cases he : P.enforceContract value with
          | error e => exact ⟨hasks, fun update hu => by cases hu⟩
          | ok enforced =>
            refine ⟨hasks, fun update hu => ?_⟩
            cases hu
            refine ⟨rfl, fun h => absurd h hset, fun d hd => ?_⟩
            cases hd
            exact sound_of_enforceContract he

theorem asks_developerReply (P : Personas) (c : ℕ) (chunk : Chunk) (title : Text) (design : Option TechnicalDesign)
    (a : Asking) : Asks P (.developer c) 1 a.sent (P.developerReply c chunk title design a).2.sent := by
  have hone := asks_complete P (.developer c)
    (show [system P.developerPrompt, user (P.chunkPrompt chunk title design)].length ≤ 4 by simp) a
  rw [developerReply]
  cases hc : P.complete (.developer c) [system P.developerPrompt, user (P.chunkPrompt chunk title design)] a with
  | mk answer b =>
    rw [hc] at hone
    cases answer with
    | none => exact hone
    | some text =>
      dsimp only
      cases parseFileWrites P.jsonError text <;> exact hone

theorem asks_criticNode (P : Personas) (a : Asking) : Asks P .critic 1 a.sent (P.criticNode a).2.sent := by
  have hone := asks_complete P .critic (show [system P.criticPrompt, user P.rawInput].length ≤ 4 by simp) a
  rw [criticNode]
  cases hc : P.complete .critic [system P.criticPrompt, user P.rawInput] a with
  | mk answer b =>
    rw [hc] at hone
    cases answer with
    | none => exact hone
    | some text =>
      dsimp only
      cases P.parseVerdict text <;> exact hone

end Personas
end Engine
end DevHarness
