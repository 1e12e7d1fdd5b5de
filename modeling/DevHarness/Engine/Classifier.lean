import DevHarness.Lib.Text
import DevHarness.Lib.Pattern
/-!
# Classifier — end-to-end test reports (`engine/classifier.py`)

A report is read line by line into the chunk verdicts and the end-to-end verdict, of which the last line read stands.  A
report whose end-to-end lines contradict each other is classified by the last of them instead of going to HITL.
-/
namespace DevHarness
namespace Engine
namespace Classifier

open Lib (Text)
open Lib.Text (isSpace strip splitlines)
open Lib.Pattern (Piece fullMatch Settled Words)

inductive Verdict where
  | pass
  | fail
  deriving DecidableEq

def Verdict.text : Verdict → Text
  | .pass => "PASS".toList
  | .fail => "FAIL".toList

inductive Classification where
  | chunkImplementationBug
  | integrationSpecMismatch
  deriving DecidableEq

def Classification.value : Classification → String
  | .chunkImplementationBug => "CHUNK_IMPLEMENTATION_BUG"
  | .integrationSpecMismatch => "INTEGRATION_SPEC_MISMATCH"

structure E2EReport where
  classification : Option Classification := none
  stackTrace : Text := []
  failedChunkId : Option Text := none
  deriving DecidableEq

structure RouteDecision where
  nextNode : Option String := none
  escalateToHitl : Bool := false
  deriving DecidableEq

structure ClassificationResult where
  report : Option E2EReport
  decision : Option RouteDecision
  unparseable : Bool
  deriving DecidableEq

def hitlDecision : RouteDecision where
  nextNode := some "hitl"
  escalateToHitl := true

/-- `_CHUNK_RE`, ended by one of the two verdicts.  No stripped line ends in a newline, so `$` is its end. -/
def chunkRe (v : Verdict) : List (Piece Char) :=
  [.literal "chunk:".toList, .run 0 isSpace, .run 1 (fun c => !isSpace c), .run 1 isSpace, .literal "status:".toList,
    .run 0 isSpace, .literal v.text]

/-- `_E2E_RE`. -/
def e2eRe (v : Verdict) : List (Piece Char) := [.literal "e2e:".toList, .run 0 isSpace, .literal v.text]

/-- `_CHUNK_RE.match`: the two groups. -/
def matchChunk (line : Text) : Option (Text × Verdict) :=
  match fullMatch (chunkRe .pass) line with
  | some parts => some (parts.getD 2 [], .pass)
  | none => (fullMatch (chunkRe .fail) line).map (fun parts => (parts.getD 2 [], .fail))

/-- `_E2E_RE.match`: the group. -/
def matchE2e (line : Text) : Option Verdict :=
  match fullMatch (e2eRe .pass) line with
  | some _ => some .pass
  | none => (fullMatch (e2eRe .fail) line).map (fun _ => .fail)

/-- `_parse`, over the lines still to read. -/
def parseFrom : List Text → List (Text × Verdict) → Option Verdict → Option (List (Text × Verdict) × Verdict)
  | [], chunks, e2e => e2e.map (fun v => (chunks, v))
  | raw :: raws, chunks, e2e =>
    if strip raw = [] then parseFrom raws chunks e2e
    else match matchChunk (strip raw) with
      | some c => parseFrom raws (chunks ++ [c]) e2e
      | none => match matchE2e (strip raw) with
        | some v => parseFrom raws chunks (some v)
        | none => none

def parse (text : Text) : Option (List (Text × Verdict) × Verdict) := parseFrom (splitlines text) [] none

def classifyReport (text : Text) : ClassificationResult :=
  match parse text with
  | none => ⟨none, some hitlDecision, true⟩
  | some (chunks, e2e) =>
    if e2e = .pass then ⟨some { stackTrace := text }, none, false⟩
    else if chunks = [] then ⟨none, some hitlDecision, true⟩
    else match chunks.find? (fun c => c.2 = .fail) with
      | some c => ⟨some ⟨some .chunkImplementationBug, text, some c.1⟩, none, false⟩
      | none => ⟨some ⟨some .integrationSpecMismatch, text, none⟩, none, false⟩

/-! ## The grammar -/

/-- `chunk: <id> status: PASS|FAIL` -/
def ChunkLine (line id : Text) (v : Verdict) : Prop :=
  ∃ s₁ s₂ s₃, line = "chunk:".toList ++ s₁ ++ id ++ s₂ ++ "status:".toList ++ s₃ ++ v.text ∧
    (∀ c ∈ s₁, isSpace c = true) ∧ id ≠ [] ∧ (∀ c ∈ id, isSpace c = false) ∧ s₂ ≠ [] ∧
    (∀ c ∈ s₂, isSpace c = true) ∧ ∀ c ∈ s₃, isSpace c = true

/-- `e2e: PASS|FAIL` -/
def E2eLine (line : Text) (v : Verdict) : Prop := ∃ s, line = "e2e:".toList ++ s ++ v.text ∧ ∀ c ∈ s, isSpace c = true

def Grammatical (line : Text) : Prop := (∃ id v, ChunkLine line id v) ∨ ∃ v, E2eLine line v

/-- The non-blank lines, stripped. -/
def nonBlank (raws : List Text) : List Text := (raws.map strip).filter (fun line => decide (line ≠ []))

def content (text : Text) : List Text := nonBlank (splitlines text)

def chunkVerdicts (lines : List Text) : List (Text × Verdict) := lines.filterMap matchChunk

def e2eVerdicts (lines : List Text) : List Verdict := lines.filterMap matchE2e

theorem Verdict.eq_of_append_eq {a b : Text} {v w : Verdict} (h : a ++ v.text = b ++ w.text) : v = w := by
  have hlast := congrArg List.getLast? h
  cases v <;> cases w
  · rfl
  · simp [Verdict.text] at hlast
  · simp [Verdict.text] at hlast
  · rfl

theorem settled_chunkRe (v : Verdict) : Settled (chunkRe v) := by
  have hs : ∀ d : Char, isSpace d = false → ∀ a : Char, isSpace a = true → decide (a = d) = false := by
    intro d hd a ha
    rw [decide_eq_false_iff_not]
    rintro rfl
    rw [hd] at ha
    cases ha
  refine ⟨⟨Nat.one_pos, fun a ha => ?_⟩, ⟨Nat.one_pos, fun a ha => ?_⟩, ?_, ?_, trivial⟩
  · show (!isSpace a) = false
    rw [ha]
    rfl
  · rw [Bool.not_eq_true'] at ha
    exact ha
  · exact hs 's' (by decide)
  · cases v
    · exact hs 'P' (by decide)
    · exact hs 'F' (by decide)

theorem settled_e2eRe (v : Verdict) : Settled (e2eRe v) := by
  cases v <;> exact ⟨fun a ha => decide_eq_false (by rintro rfl; revert ha; decide), trivial⟩

theorem words_chunkRe_iff {v : Verdict} {parts : List Text} : Words (chunkRe v) parts ↔
    ∃ s₁ id s₂ s₃, parts = ["chunk:".toList, s₁, id, s₂, "status:".toList, s₃, v.text] ∧
      (∀ c ∈ s₁, isSpace c = true) ∧ id ≠ [] ∧ (∀ c ∈ id, isSpace c = false) ∧ s₂ ≠ [] ∧
      (∀ c ∈ s₂, isSpace c = true) ∧ ∀ c ∈ s₃, isSpace c = true := by
  constructor
  · intro h
    simp only [Words, chunkRe, List.forall₂_cons_left_iff, List.forall₂_nil_left_iff, Piece.accepts_literal_iff] at h
    obtain ⟨_, _, rfl, ⟨s₁, _, h₁, ⟨id, _, hid, ⟨s₂, _, h₂, ⟨_, _, rfl, ⟨s₃, _, h₃, ⟨_, _, rfl, rfl, rfl⟩, rfl⟩, rfl⟩, rfl⟩,
      rfl⟩, rfl⟩, rfl⟩ := h
    refine ⟨s₁, id, s₂, s₃, rfl, h₁.2, List.length_pos_iff.1 hid.1, fun c hc => ?_, List.length_pos_iff.1 h₂.1, h₂.2, h₃.2⟩
    simpa using hid.2 c hc
  · rintro ⟨s₁, id, s₂, s₃, rfl, h₁, hid, hns, hs₂, h₂, h₃⟩
    refine .cons (Piece.accepts_literal_iff.2 rfl) (.cons ⟨Nat.zero_le _, h₁⟩ (.cons ⟨List.length_pos_iff.2 hid, ?_⟩
      (.cons ⟨List.length_pos_iff.2 hs₂, h₂⟩ (.cons (Piece.accepts_literal_iff.2 rfl) (.cons ⟨Nat.zero_le _, h₃⟩
        (.cons (Piece.accepts_literal_iff.2 rfl) .nil))))))
    intro c hc
    show (!isSpace c) = true
    rw [hns c hc]
    rfl

theorem words_e2eRe_iff {v : Verdict} {parts : List Text} : Words (e2eRe v) parts ↔
    ∃ s, parts = ["e2e:".toList, s, v.text] ∧ ∀ c ∈ s, isSpace c = true := by
  constructor
  · intro h
    simp only [Words, e2eRe, List.forall₂_cons_left_iff, List.forall₂_nil_left_iff, Piece.accepts_literal_iff] at h
    obtain ⟨_, _, rfl, ⟨s, _, hs, ⟨_, _, rfl, rfl, rfl⟩, rfl⟩, rfl⟩ := h
    exact ⟨s, rfl, hs.2⟩
  · rintro ⟨s, rfl, hs⟩
    exact .cons (Piece.accepts_literal_iff.2 rfl) (.cons ⟨Nat.zero_le _, hs⟩ (.cons (Piece.accepts_literal_iff.2 rfl) .nil))

theorem chunkLine_iff {line id : Text} {v : Verdict} :
    ChunkLine line id v ↔ ∃ parts, fullMatch (chunkRe v) line = some parts ∧ parts.getD 2 [] = id := by
  constructor
  · rintro ⟨s₁, s₂, s₃, rfl, hrest⟩
    refine ⟨["chunk:".toList, s₁, id, s₂, "status:".toList, s₃, v.text], ?_, rfl⟩
    rw [Lib.Pattern.fullMatch_eq_some_iff (settled_chunkRe v), words_chunkRe_iff]
    exact ⟨by simp only [List.flatten_cons, List.flatten_nil, List.append_nil, List.append_assoc],
      s₁, id, s₂, s₃, rfl, hrest⟩
  · rintro ⟨parts, hm, rfl⟩
    rw [Lib.Pattern.fullMatch_eq_some_iff (settled_chunkRe v), words_chunkRe_iff] at hm
    obtain ⟨rfl, s₁, id, s₂, s₃, rfl, hrest⟩ := hm
    refine ⟨s₁, s₂, s₃, ?_, hrest⟩
    simp only [List.flatten_cons, List.flatten_nil, List.append_nil, List.append_assoc]
    rfl

theorem e2eLine_iff {line : Text} {v : Verdict} : E2eLine line v ↔ (fullMatch (e2eRe v) line).isSome = true := by
  rw [Option.isSome_iff_exists]
  constructor
  · rintro ⟨s, rfl, hs⟩
    refine ⟨["e2e:".toList, s, v.text], ?_⟩
    rw [Lib.Pattern.fullMatch_eq_some_iff (settled_e2eRe v), words_e2eRe_iff]
    exact ⟨by simp only [List.flatten_cons, List.flatten_nil, List.append_nil, List.append_assoc], s, rfl, hs⟩
  · rintro ⟨parts, hm⟩
    rw [Lib.Pattern.fullMatch_eq_some_iff (settled_e2eRe v), words_e2eRe_iff] at hm
    obtain ⟨rfl, s, rfl, hs⟩ := hm
    exact ⟨s, by simp only [List.flatten_cons, List.flatten_nil, List.append_nil, List.append_assoc], hs⟩

theorem ChunkLine.verdict_unique {line id id' : Text} {v w : Verdict} (h : ChunkLine line id v)
    (h' : ChunkLine line id' w) : v = w := by
  obtain ⟨_, _, _, he, -⟩ := h
  obtain ⟨_, _, _, he', -⟩ := h'
  exact Verdict.eq_of_append_eq (he.symm.trans he')

theorem E2eLine.verdict_unique {line : Text} {v w : Verdict} (h : E2eLine line v) (h' : E2eLine line w) : v = w := by
  obtain ⟨_, he, -⟩ := h
  obtain ⟨_, he', -⟩ := h'
  exact Verdict.eq_of_append_eq (he.symm.trans he')

/-- **`_CHUNK_RE` is the grammar of chunk lines.** -/
theorem matchChunk_eq_some_iff {line id : Text} {v : Verdict} : matchChunk line = some (id, v) ↔ ChunkLine line id v := by
  unfold matchChunk
  cases hp : fullMatch (chunkRe .pass) line with
  | some parts =>
    have hline : ChunkLine line (parts.getD 2 []) .pass := chunkLine_iff.2 ⟨parts, hp, rfl⟩
    dsimp only
    rw [Option.some.injEq, Prod.mk.injEq]
    constructor
    · rintro ⟨rfl, rfl⟩
      exact hline
    · intro h
      obtain rfl := hline.verdict_unique h
      obtain ⟨parts', hp', rfl⟩ := chunkLine_iff.1 h
      rw [hp] at hp'
      cases hp'
      exact ⟨rfl, rfl⟩
  | none =>
    dsimp only
    rw [Option.map_eq_some_iff]
    constructor
    · rintro ⟨parts, hf, he⟩
      obtain ⟨rfl, rfl⟩ := Prod.mk.inj he
      exact chunkLine_iff.2 ⟨parts, hf, rfl⟩
    · intro h
      obtain ⟨parts, hm, rfl⟩ := chunkLine_iff.1 h
      cases v with
      | pass => rw [hp] at hm; cases hm
      | fail => exact ⟨parts, hm, rfl⟩

/-- **`_E2E_RE` is the grammar of end-to-end lines.** -/
theorem matchE2e_eq_some_iff {line : Text} {v : Verdict} : matchE2e line = some v ↔ E2eLine line v := by
  unfold matchE2e
  cases hp : fullMatch (e2eRe .pass) line with
  | some parts =>
    have hline : E2eLine line .pass := e2eLine_iff.2 (by rw [hp]; rfl)
    dsimp only
    rw [Option.some.injEq]
    constructor
    · rintro rfl
      exact hline
    · exact fun h => hline.verdict_unique h
  | none =>
    dsimp only
    rw [Option.map_eq_some_iff]
    constructor
    · rintro ⟨parts, hf, rfl⟩
      exact e2eLine_iff.2 (by rw [hf]; rfl)
    · intro h
      obtain ⟨parts, hm⟩ := Option.isSome_iff_exists.1 (e2eLine_iff.1 h)
      cases v with
      | pass => rw [hp] at hm; cases hm
      | fail => exact ⟨parts, hm, rfl⟩

/-- A line of one kind is not of the other. -/
theorem matchE2e_of_chunk {line : Text} {c : Text × Verdict} (h : matchChunk line = some c) : matchE2e line = none := by
  obtain ⟨s₁, s₂, s₃, rfl, -⟩ := matchChunk_eq_some_iff.1 h
  rw [Option.eq_none_iff_forall_ne_some]
  intro v hv
  obtain ⟨s, he, -⟩ := matchE2e_eq_some_iff.1 hv
  simp at he

theorem grammatical_iff {line : Text} :
    Grammatical line ↔ (matchChunk line).isSome = true ∨ (matchE2e line).isSome = true := by
  rw [Grammatical, Option.isSome_iff_exists, Option.isSome_iff_exists, Prod.exists]
  simp only [matchChunk_eq_some_iff, matchE2e_eq_some_iff]

/-! ## The documented classification -/

/-- **A report the rules accept**: every line is in the grammar, the end-to-end verdict is there and is one, and a failure
comes with chunk lines. -/
def Accepted (lines : List Text) : Prop :=
  (∀ line ∈ lines, Grammatical line) ∧ e2eVerdicts lines ≠ [] ∧
    (∀ v ∈ e2eVerdicts lines, ∀ w ∈ e2eVerdicts lines, v = w) ∧
    (Verdict.fail ∈ e2eVerdicts lines → chunkVerdicts lines ≠ [])

/-- What the rules make of the verdicts: the classification and the failing chunk. -/
def documented (lines : List Text) : Option Classification × Option Text :=
  if Verdict.pass ∈ e2eVerdicts lines then (none, none)
  else match (chunkVerdicts lines).find? (fun c => c.2 = .fail) with
    | some c => (some .chunkImplementationBug, some c.1)
    | none => (some .integrationSpecMismatch, none)

/-- The result without the text it carries along. -/
def ClassificationResult.outcome (r : ClassificationResult) :
    Option (Option Classification × Option Text) × Option RouteDecision × Bool :=
  (r.report.map (fun rep => (rep.classification, rep.failedChunkId)), r.decision, r.unparseable)

/-- End-to-end lines moved about; the chunk lines stay in their order. -/
def Moved (lines lines' : List Text) : Prop :=
  lines'.Perm lines ∧
    lines'.filter (fun l => (matchChunk l).isSome) = lines.filter (fun l => (matchChunk l).isSome)

/-- **Classified by the rules**: the documented report of an accepted text, HITL for any other, and no report changes
when end-to-end lines are moved. -/
def ByTheRules (text : Text) : Prop :=
  (Accepted (content text) → classifyReport text =
    ⟨some ⟨(documented (content text)).1, text, (documented (content text)).2⟩, none, false⟩) ∧
  (¬ Accepted (content text) → classifyReport text = ⟨none, some hitlDecision, true⟩) ∧
  ((classifyReport text).report ≠ none → ∀ text', Moved (content text) (content text') →
    (classifyReport text').outcome = (classifyReport text).outcome)

theorem nonBlank_cons_of_blank {raw : Text} (h : strip raw = []) (raws : List Text) :
    nonBlank (raw :: raws) = nonBlank raws :=
  List.filter_cons_of_neg (by simp [h])

theorem nonBlank_cons {raw : Text} (h : strip raw ≠ []) (raws : List Text) :
    nonBlank (raw :: raws) = strip raw :: nonBlank raws :=
  List.filter_cons_of_pos (by simp [h])

theorem parseFrom_of_grammatical : ∀ (raws : List Text) (chunks : List (Text × Verdict)) (e2e : Option Verdict),
    (∀ line ∈ nonBlank raws, Grammatical line) → parseFrom raws chunks e2e =
      ((e2eVerdicts (nonBlank raws)).getLast?.or e2e).map (fun v => (chunks ++ chunkVerdicts (nonBlank raws), v))
  | [], chunks, e2e, _ => by
    rw [parseFrom]
    simp [nonBlank, e2eVerdicts, chunkVerdicts]
  | raw :: raws, chunks, e2e, h => by
    rw [parseFrom]
    by_cases hblank : strip raw = []
    · rw [nonBlank_cons_of_blank hblank] at h ⊢
      rw [if_pos hblank]
      exact parseFrom_of_grammatical raws chunks e2e h
    · rw [nonBlank_cons hblank, List.forall_mem_cons] at h
      rw [nonBlank_cons hblank, if_neg hblank]
      obtain ⟨hline, hlines⟩ := h
      cases hc : matchChunk (strip raw) with
      | some c =>
        dsimp only
        rw [parseFrom_of_grammatical raws (chunks ++ [c]) e2e hlines, e2eVerdicts, e2eVerdicts, chunkVerdicts, chunkVerdicts,
          List.filterMap_cons_none (matchE2e_of_chunk hc), List.filterMap_cons_some hc, List.append_assoc,
          List.singleton_append]
      | none =>
        cases he : matchE2e (strip raw) with
        | none =>
          rw [grammatical_iff, hc, he] at hline
          exact absurd hline (by simp)
        | some v =>
          dsimp only
          rw [parseFrom_of_grammatical raws chunks (some v) hlines, e2eVerdicts, e2eVerdicts, chunkVerdicts, chunkVerdicts,
            List.filterMap_cons_some he, List.filterMap_cons_none hc, List.getLast?_cons]
          cases (List.filterMap matchE2e _).getLast? <;> rfl

/-- A malformed line ends the reading. -/
theorem parseFrom_of_malformed : ∀ (raws : List Text) (chunks : List (Text × Verdict)) (e2e : Option Verdict),
    (¬ ∀ line ∈ nonBlank raws, Grammatical line) → parseFrom raws chunks e2e = none
  | [], chunks, e2e, h => by
    exfalso
    apply h
    intro line hl
    cases hl
  | raw :: raws, chunks, e2e, h => by
    rw [parseFrom]
    by_cases hblank : strip raw = []
    · rw [nonBlank_cons_of_blank hblank] at h
      rw [if_pos hblank]
      exact parseFrom_of_malformed raws chunks e2e h
    · rw [nonBlank_cons hblank, List.forall_mem_cons, grammatical_iff] at h
      rw [if_neg hblank]
      cases hc : matchChunk (strip raw) with
      | some c =>
        rw [hc] at h
        exact parseFrom_of_malformed raws _ e2e (fun hl => h ⟨Or.inl rfl, hl⟩)
      | none =>
        cases he : matchE2e (strip raw) with
        | none => rfl
        | some v =>
          rw [he] at h
          exact parseFrom_of_malformed raws chunks _ (fun hl => h ⟨Or.inr rfl, hl⟩)

theorem classifyReport_of_malformed {text : Text} (h : ¬ ∀ line ∈ content text, Grammatical line) :
    classifyReport text = ⟨none, some hitlDecision, true⟩ := by
  rw [classifyReport, parse, parseFrom_of_malformed _ _ _ h]

/-- **Of a well-formed text**: the last end-to-end line decides, and the chunk lines if it is a failure. -/
theorem classifyReport_of_grammatical {text : Text} (h : ∀ line ∈ content text, Grammatical line) :
    classifyReport text = match (e2eVerdicts (content text)).getLast? with
      | none => ⟨none, some hitlDecision, true⟩
      | some .pass => ⟨some ⟨none, text, none⟩, none, false⟩
      | some .fail =>
        if chunkVerdicts (content text) = [] then ⟨none, some hitlDecision, true⟩
        else match (chunkVerdicts (content text)).find? (fun c => c.2 = .fail) with
          | some c => ⟨some ⟨some .chunkImplementationBug, text, some c.1⟩, none, false⟩
          | none => ⟨some ⟨some .integrationSpecMismatch, text, none⟩, none, false⟩ := by
  have hparse : parse text = (e2eVerdicts (content text)).getLast?.map (fun v => (chunkVerdicts (content text), v)) := by
    rw [parse, parseFrom_of_grammatical _ _ _ h, Option.or_none, List.nil_append]
    rfl
  rw [classifyReport, hparse]
  cases (e2eVerdicts (content text)).getLast? with
  | none => rfl
  | some v => cases v <;> rfl

theorem getLast?_of_agree {v : Verdict} : ∀ {vs : List Verdict}, v ∈ vs → (∀ a ∈ vs, ∀ b ∈ vs, a = b) →
    vs.getLast? = some v := by
  intro vs hv hagree
  cases hl : vs.getLast? with
  | none =>
    rw [List.getLast?_eq_none_iff.1 hl] at hv
    cases hv
  | some w => rw [hagree w (List.mem_of_getLast? hl) v hv]

theorem Accepted.classifyReport_eq {text : Text} (h : Accepted (content text)) : classifyReport text =
    ⟨some ⟨(documented (content text)).1, text, (documented (content text)).2⟩, none, false⟩ := by
  obtain ⟨hlines, hne, hagree, hchunks⟩ := h
  rw [classifyReport_of_grammatical hlines, documented]
  obtain ⟨v, hv⟩ := List.exists_mem_of_ne_nil _ hne
  rw [getLast?_of_agree hv hagree]
  cases v with
  | pass => rw [if_pos hv]
  | fail =>
    have hpass : Verdict.pass ∉ e2eVerdicts (content text) := fun hp => by cases hagree _ hp _ hv
    dsimp only
    rw [if_neg (hchunks hv), if_neg hpass]
    cases (chunkVerdicts (content text)).find? (fun c => c.2 = .fail) <;> rfl

theorem chunkVerdicts_filter : ∀ (lines : List Text),
    chunkVerdicts (lines.filter (fun l => (matchChunk l).isSome)) = chunkVerdicts lines
  | [] => rfl
  | l :: lines => by
    have ih := chunkVerdicts_filter lines
    unfold chunkVerdicts at ih ⊢
    cases hc : matchChunk l with
    | none => rw [List.filter_cons_of_neg (by rw [hc]; simp), ih, List.filterMap_cons_none hc]
    | some c =>
      rw [List.filter_cons_of_pos (by rw [hc]; rfl), List.filterMap_cons_some hc, ih, List.filterMap_cons_some hc]

theorem Moved.accepted {lines lines' : List Text} (hm : Moved lines lines') (h : Accepted lines) :
    Accepted lines' ∧ documented lines' = documented lines := by
  obtain ⟨hperm, hfilter⟩ := hm
  have hchunks : chunkVerdicts lines' = chunkVerdicts lines := by
    rw [← chunkVerdicts_filter, hfilter, chunkVerdicts_filter]
  have he2e : ∀ v, v ∈ e2eVerdicts lines' ↔ v ∈ e2eVerdicts lines := fun v => (hperm.filterMap matchE2e).mem_iff
  obtain ⟨hlines, hne, hagree, hfail⟩ := h
  refine ⟨⟨fun l hl => hlines l (hperm.mem_iff.1 hl), fun hnil => hne ?_, fun v hv w hw => ?_, fun hv => ?_⟩, ?_⟩
  · rw [List.eq_nil_iff_forall_not_mem] at hnil ⊢
    exact fun v hv => hnil v ((he2e v).2 hv)
  · exact hagree v ((he2e v).1 hv) w ((he2e w).1 hw)
  · rw [hchunks]
    exact hfail ((he2e _).1 hv)
  · unfold documented
    rw [hchunks]
    by_cases hp : Verdict.pass ∈ e2eVerdicts lines
    · rw [if_pos hp, if_pos ((he2e _).2 hp)]
    · rw [if_neg hp, if_neg (fun h => hp ((he2e _).1 h))]

/-- The end-to-end lines agree, or the text goes to HITL for another reason. -/
def NoContradiction (lines : List Text) : Prop :=
  (∀ v ∈ e2eVerdicts lines, ∀ w ∈ e2eVerdicts lines, v = w) ∨ (¬ ∀ line ∈ lines, Grammatical line) ∨
    (chunkVerdicts lines = [] ∧ (e2eVerdicts lines).getLast? = some .fail)

theorem not_accepted_of_contradiction {lines : List Text}
    (h : ¬ ∀ v ∈ e2eVerdicts lines, ∀ w ∈ e2eVerdicts lines, v = w) : ¬ Accepted lines := fun ha => h ha.2.2.1

theorem classifyReport_of_not_accepted {text : Text} (hno : ¬ Accepted (content text))
    (hc : NoContradiction (content text)) : classifyReport text = ⟨none, some hitlDecision, true⟩ := by
  by_cases hlines : ∀ line ∈ content text, Grammatical line
  · rw [classifyReport_of_grammatical hlines]
    rcases hc with hagree | hmal | ⟨hnil, hlast⟩
    · cases hl : (e2eVerdicts (content text)).getLast? with
      | none => rfl
      | some v =>
        have hv := List.mem_of_getLast? hl
        have hne : e2eVerdicts (content text) ≠ [] := List.ne_nil_of_mem hv
        cases v with
        | pass =>
          exfalso
          exact hno ⟨hlines, hne, hagree, fun hf => by cases hagree _ hf _ hv⟩
        | fail =>
          dsimp only
          rw [if_pos]
          by_contra hchunks
          exact hno ⟨hlines, hne, hagree, fun _ => hchunks⟩
    · exact absurd hlines hmal
    · rw [hlast]
      dsimp only
      rw [if_pos hnil]
  · exact classifyReport_of_malformed hlines

/-- A well-formed text whose end-to-end lines contradict each other is reported on all the same. -/
theorem report_of_contradiction {text : Text} (h : ¬ NoContradiction (content text)) :
    (classifyReport text).report ≠ none := by
  rw [NoContradiction, not_or, not_or, not_not, not_and] at h
  obtain ⟨hcontra, hlines, hrest⟩ := h
  rw [classifyReport_of_grammatical hlines]
  cases hl : (e2eVerdicts (content text)).getLast? with
  | none =>
    rw [List.getLast?_eq_none_iff.1 hl] at hcontra
    exact absurd (fun v hv => by cases hv) hcontra
  | some v =>
    cases v with
    | pass => simp
    | fail =>
      have hchunks : chunkVerdicts (content text) ≠ [] := fun hnil => hrest hnil hl
      dsimp only
      rw [if_neg hchunks]
      cases (chunkVerdicts (content text)).find? (fun c => c.2 = .fail) <;> simp

/-- **A text is classified by the rules exactly when its end-to-end lines do not contradict each other**, or it goes to
HITL for another reason: a malformed line, or a failure last and no chunk lines. -/
theorem byTheRules_iff (text : Text) : ByTheRules text ↔ NoContradiction (content text) := by
  constructor
  · rintro ⟨-, hhitl, -⟩
    by_contra hcontra
    have hreport := report_of_contradiction hcontra
    rw [hhitl (not_accepted_of_contradiction (not_or.1 hcontra).1)] at hreport
    exact hreport rfl
  · intro hc
    refine ⟨fun h => h.classifyReport_eq, fun h => classifyReport_of_not_accepted h hc, fun hreport text' hm => ?_⟩
    have hacc : Accepted (content text) := by
      by_contra hno
      rw [classifyReport_of_not_accepted hno hc] at hreport
      exact hreport rfl
    obtain ⟨hacc', hdoc⟩ := hm.accepted hacc
    rw [hacc.classifyReport_eq, hacc'.classifyReport_eq, hdoc]
    rfl

def contradictory : Text := "chunk: chunk-1 status: PASS\ne2e: FAIL\ne2e: PASS\n".toList

/-- **The later of two contradictory lines is believed**: the report says nothing failed. -/
theorem later_verdict_believed : (classifyReport contradictory).report = some ⟨none, contradictory, none⟩ ∧
    e2eVerdicts (content contradictory) = [.fail, .pass] ∧ ¬ ByTheRules contradictory := by
  have hreport : (classifyReport contradictory).report = some ⟨none, contradictory, none⟩ := by decide +kernel
  have hverdicts : e2eVerdicts (content contradictory) = [.fail, .pass] := by decide +kernel
  refine ⟨hreport, hverdicts, fun h => ?_⟩
  have hno : ¬ Accepted (content contradictory) := by
    refine not_accepted_of_contradiction ?_
    rw [hverdicts]
    decide
  rw [h.2.1 hno] at hreport
  cases hreport

end Classifier
end Engine
end DevHarness
