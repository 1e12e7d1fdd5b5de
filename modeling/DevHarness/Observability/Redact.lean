import DevHarness.Lib.Text
import DevHarness.Lib.Pattern
/-!
# Redact — secrets in log and stream text (`observability/redact.py`)

Three substitutions, one after another.  The marker is shorter than any secret, so a text with a secret in it comes out
shorter; a text cut up can be redacted in pieces where no match of any of the three lies across a cut.
-/
namespace DevHarness
namespace Observability

open Lib (Text)
open Lib.Text (isSpace toNat_of_isAlphanum)
open Lib.Pattern

/-- `[A-Za-z0-9_-]` -/
def isKeyChar (c : Char) : Bool := c.isAlphanum || c = '_' || c = '-'

/-- `[A-Za-z0-9._-]` whatever the case: four letters outside ASCII fold to one inside. -/
def isBearerChar (c : Char) : Bool :=
  c.isAlphanum || c = '.' || c = '_' || c = '-' || c.toNat = 0x130 || c.toNat = 0x131 || c.toNat = 0x17f || c.toNat = 0x212a

def anthropicKey : List (Piece Char) := [.literal "sk-ant-api03-".toList, .run 10 isKeyChar]

def openaiKey : List (Piece Char) := [.literal "sk-".toList, .run 20 Char.isAlphanum]

def bearerToken : List (Piece Char) :=
  [.each ("bearer".toList.map (fun a b => decide (b.toLower = a))), .run 1 isSpace, .run 20 isBearerChar]

/-- `_PATTERNS` -/
def patterns : List (List (Piece Char)) := [anthropicKey, openaiKey, bearerToken]

def redacted : Text := "***REDACTED***".toList

/-- One pass: `pattern.sub(REDACTED, text)`. -/
def pass (text : Text) (pattern : List (Piece Char)) : Text := sub pattern redacted 0 text

def redact (text : Text) : Text := patterns.foldl pass text

/-- Some pattern matches somewhere in the text. -/
def HoldsSecret (text : Text) : Prop := ∃ pattern ∈ patterns, Occurs pattern text

instance (text : Text) : Decidable (HoldsSecret text) := inferInstanceAs (Decidable (∃ pattern ∈ patterns, Occurs pattern text))

/-- **No match of any pass lies across a cut.** -/
def Seamless : List (List (Piece Char)) → List Text → Prop
  | [], _ => True
  | pattern :: rest, tokens => UncutAll pattern tokens ∧ Seamless rest (tokens.map (fun t => pass t pattern))

instance Seamless.decidable : ∀ ps tokens, Decidable (Seamless ps tokens)
  | [], _ => isTrue trivial
  | _ :: ps, _ => @instDecidableAnd _ _ _ (Seamless.decidable ps _)

/-- What the passes need of a pattern. -/
structure Redacts (pattern : List (Piece Char)) : Prop where
  settled : Settled pattern
  longer : redacted.length < least pattern

theorem isBearerChar_of_isSpace {c : Char} (h : isSpace c = true) : isBearerChar c = false := by
  simp only [isSpace, Bool.or_eq_true, Bool.and_eq_true, decide_eq_true_eq] at h
  rw [← Bool.not_eq_true]
  intro hc
  simp only [isBearerChar, Bool.or_eq_true, decide_eq_true_eq] at hc
  rcases hc with ((((((hc | rfl) | rfl) | rfl) | hc) | hc) | hc) | hc
  · have hn := toNat_of_isAlphanum hc
    omega
  · revert h
    decide
  · revert h
    decide
  · revert h
    decide
  all_goals omega

theorem redacts_of_mem : ∀ pattern ∈ patterns, Redacts pattern := by
  intro pattern h
  simp only [patterns, List.mem_cons, List.not_mem_nil, or_false] at h
  rcases h with rfl | rfl | rfl
  · exact ⟨trivial, by decide⟩
  · exact ⟨trivial, by decide⟩
  · exact ⟨⟨⟨by decide, fun _ ha => isBearerChar_of_isSpace ha⟩, trivial⟩, by decide⟩

theorem length_pass_le {pattern : List (Piece Char)} (h : Redacts pattern) (text : Text) :
    (pass text pattern).length ≤ text.length := by
  have hle := length_sub_le (Nat.le_of_lt h.longer) text 0 (Nat.zero_le _)
  rwa [Nat.add_zero] at hle

theorem length_foldl_pass_le : ∀ (ps : List (List (Piece Char))), (∀ p ∈ ps, Redacts p) → ∀ (text : Text),
    (ps.foldl pass text).length ≤ text.length
  | [], _, text => Nat.le_refl _
  | p :: ps, h, text => by
    rw [List.forall_mem_cons] at h
    exact Nat.le_trans (length_foldl_pass_le ps h.2 (pass text p)) (length_pass_le h.1 text)

theorem foldl_pass_eq_self : ∀ (ps : List (List (Piece Char))) (text : Text), (∀ p ∈ ps, ¬ Occurs p text) →
    ps.foldl pass text = text
  | [], _, _ => rfl
  | p :: ps, text, h => by
    rw [List.forall_mem_cons] at h
    rw [List.foldl_cons, pass, sub_eq_self redacted h.1]
    exact foldl_pass_eq_self ps text h.2

theorem length_foldl_pass_lt : ∀ (ps : List (List (Piece Char))), (∀ p ∈ ps, Redacts p) → ∀ (text : Text),
    (∃ p ∈ ps, Occurs p text) → (ps.foldl pass text).length < text.length
  | [], _, _, h => by
    obtain ⟨p, hp, -⟩ := h
    cases hp
  | p :: ps, hps, text, h => by
    rw [List.forall_mem_cons] at hps
    rw [List.foldl_cons]
    by_cases hp : Occurs p text
    · exact Nat.lt_of_le_of_lt (length_foldl_pass_le ps hps.2 _) (length_sub_lt hps.1.longer hp)
    · -- the pass changes nothing, and a later one does
      rw [pass, sub_eq_self redacted hp]
      refine length_foldl_pass_lt ps hps.2 text ?_
      obtain ⟨q, hq, hocc⟩ := h
      rcases List.mem_cons.1 hq with rfl | hq
      · exact absurd hocc hp
      · exact ⟨q, hq, hocc⟩

theorem redact_eq_self {text : Text} (h : ¬ HoldsSecret text) : redact text = text :=
  foldl_pass_eq_self patterns text (fun p hp hocc => h ⟨p, hp, hocc⟩)

/-- **A text with a secret in it comes out shorter.** -/
theorem length_redact_lt {text : Text} (h : HoldsSecret text) : (redact text).length < text.length :=
  length_foldl_pass_lt patterns redacts_of_mem text h

theorem foldl_pass_flatten : ∀ (ps : List (List (Piece Char))), (∀ p ∈ ps, Redacts p) → ∀ (tokens : List Text),
    Seamless ps tokens → ps.foldl pass tokens.flatten = (tokens.map (ps.foldl pass)).flatten
  | [], _, tokens, _ => by simp
  | p :: ps, hps, tokens, h => by
    rw [List.forall_mem_cons] at hps
    obtain ⟨huncut, hrest⟩ := h
    have hpos : 0 < least p := Nat.lt_of_le_of_lt (Nat.zero_le _) hps.1.longer
    rw [List.foldl_cons, pass, sub_flatten hps.1.settled hpos redacted tokens huncut]
    have ih := foldl_pass_flatten ps hps.2 _ hrest
    rw [List.map_map] at ih
    exact ih

/-- **Redaction in pieces**, where no match lies across a cut. -/
theorem redact_flatten {tokens : List Text} (h : Seamless patterns tokens) :
    redact tokens.flatten = (tokens.map redact).flatten :=
  foldl_pass_flatten patterns redacts_of_mem tokens h

/-! ## After redaction -/

theorem redacted_ne_nil : redacted ≠ [] := by decide

/-- What the marker is between its outer stars. -/
def inner : Text := "**REDACTED**".toList

theorem apart_redacted {w : Text} (hne : w ≠ []) (hstar : '*' ∉ w) (hinner : ¬ w <:+: inner) : Apart redacted w :=
  apart_of_marks hne hstar hinner

/-- A pattern that is left alone by the marker. -/
theorem leavesWords_of_mem : ∀ pattern ∈ patterns, LeavesWords redacted pattern := by
  intro pattern h parts hwords
  have hlong := Nat.lt_of_lt_of_le (redacts_of_mem pattern h).longer (least_le hwords)
  have hstar : ∀ p ∈ pattern, p.Rejects '*' := by
    simp only [patterns, List.mem_cons, List.not_mem_nil, or_false] at h
    rcases h with rfl | rfl | rfl <;>
      simp only [anthropicKey, openaiKey, bearerToken, List.forall_mem_cons, List.not_mem_nil, false_implies,
        implies_true, and_true, Piece.Rejects, Piece.literal] <;> decide
  refine apart_redacted ?_ (notMem_of_rejects hstar hwords) (fun hinfix => ?_)
  · intro hnil
    rw [hnil, List.length_nil] at hlong
    exact absurd hlong (Nat.not_lt_zero _)
  · have hle := hinfix.length_le
    have hinner : inner.length ≤ redacted.length := by decide
    omega

/-- What occurs after the passes occurred before them, and is none of their patterns. -/
theorem occurs_foldl_pass : ∀ (ps : List (List (Piece Char))), (∀ p ∈ ps, p ∈ patterns) → ∀ {q} (_ : q ∈ patterns)
    {text : Text}, Occurs q (ps.foldl pass text) → Occurs q text ∧ q ∉ ps
  | [], _, _, _, _, h => ⟨h, List.not_mem_nil⟩
  | p :: ps, hps, q, hq, text, h => by
    rw [List.forall_mem_cons] at hps
    obtain ⟨hocc, hnot⟩ := occurs_foldl_pass ps hps.2 hq h
    obtain ⟨hp, hplong⟩ := redacts_of_mem p hps.1
    obtain ⟨hqs, hqlong⟩ := redacts_of_mem q hq
    have hpos : 0 < least p := Nat.lt_of_le_of_lt (Nat.zero_le _) hplong
    have hqpos : 0 < least q := Nat.lt_of_le_of_lt (Nat.zero_le _) hqlong
    refine ⟨occurs_of_sub hp hpos hqs hqpos redacted_ne_nil (leavesWords_of_mem q hq) hocc, ?_⟩
    rw [List.mem_cons, not_or]
    refine ⟨?_, hnot⟩
    rintro rfl
    exact not_occurs_sub hp hpos redacted_ne_nil (leavesWords_of_mem q hq) hocc

/-- **A redacted text holds no secret.** -/
theorem not_holdsSecret_redact (text : Text) : ¬ HoldsSecret (redact text) := by
  rintro ⟨q, hq, hocc⟩
  exact (occurs_foldl_pass patterns (fun _ h => h) hq hocc).2 hq

/-- **Redacting twice is redacting once.** -/
theorem redact_redact (text : Text) : redact (redact text) = redact text :=
  redact_eq_self (not_holdsSecret_redact text)

/-! ## What survives -/

/-- A text that comes through redaction: it holds no secret itself, and somewhere no match touches it. -/
def Survives (w text : Text) : Prop := ¬ HoldsSecret w ∧ ∃ u v, text = u ++ (w ++ v) ∧ Seamless patterns [u, w, v]

theorem seamless_of_foldl_pass : ∀ (ps : List (List (Piece Char))), (∀ p ∈ ps, Redacts p) → ∀ {w text x y : Text},
    w ≠ [] → Apart redacted w → ps.foldl pass text = x ++ (w ++ y) →
      (∀ p ∈ ps, ¬ Occurs p w) ∧ ∃ u v, text = u ++ (w ++ v) ∧ Seamless ps [u, w, v]
  | [], _, w, text, x, y, _, _, h => ⟨fun p hp => absurd hp List.not_mem_nil, x, y, h, trivial⟩
  | p :: ps, hps, w, text, x, y, hw, ha, h => by
    rw [List.forall_mem_cons] at hps
    obtain ⟨hnot, u', v', hpass, hseamless⟩ := seamless_of_foldl_pass ps hps.2 hw ha h
    have hpos : 0 < least p := Nat.lt_of_le_of_lt (Nat.zero_le _) hps.1.longer
    obtain ⟨u, v, rfl, hu, hwv, hocc, hu', hv'⟩ := sub_eq_split hps.1.settled hpos redacted_ne_nil hw ha hpass
    refine ⟨List.forall_mem_cons.2 ⟨hocc, hnot⟩, u, v, rfl, ⟨?_, ?_, uncut_nil p v 0 (Nat.zero_le _), trivial⟩, ?_⟩
    · simpa using hu
    · simpa using hwv
    · have hself : pass w p = w := sub_eq_self redacted hocc
      have hmap : [u, w, v].map (fun t => pass t p) = [u', w, v'] := by
        rw [List.map_cons, List.map_cons, List.map_cons, List.map_nil, hself, pass, hu', pass, hv']
      rw [hmap]
      exact hseamless

/-- **A text without a star is found after redaction exactly when it survives.** -/
theorem infix_redact_iff {w text : Text} (hw : w ≠ []) (ha : Apart redacted w) : w <:+: redact text ↔ Survives w text := by
  constructor
  · rintro ⟨x, y, h⟩
    rw [List.append_assoc] at h
    obtain ⟨hnot, hsplit⟩ := seamless_of_foldl_pass patterns redacts_of_mem hw ha h.symm
    exact ⟨fun ⟨p, hp, hocc⟩ => hnot p hp hocc, hsplit⟩
  · rintro ⟨hsecret, u, v, rfl, hseamless⟩
    have hflat := redact_flatten hseamless
    simp only [List.flatten_cons, List.flatten_nil, List.append_nil, List.map_cons, List.map_nil,
      redact_eq_self hsecret] at hflat
    exact ⟨redact u, redact v, by rw [hflat, List.append_assoc]⟩

end Observability
end DevHarness
