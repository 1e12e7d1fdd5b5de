import DevHarness.Lib.Dict
import DevHarness.Observability.Redact
import Mathlib.Data.List.Sort
/-!
# ExecutionCanvas — the token stream reassembled (`tui/panels/execution_canvas.py`)

Each token is redacted on its own when it arrives and kept under its `seq`; the text shown is the tokens in the order of
`seq`.  The order of arrival does not matter, where the stream was cut does.
-/
namespace DevHarness
namespace Tui

open Lib
open Observability (redact HoldsSecret Seamless patterns)

structure AgentTokenStreamPayload where
  seq : ℤ
  token : Text

structure ExecutionCanvas where
  tokens : Dict ℤ Text := Dict.empty

namespace ExecutionCanvas

def onToken (canvas : ExecutionCanvas) (payload : AgentTokenStreamPayload) : ExecutionCanvas :=
  ⟨canvas.tokens.set payload.seq (redact payload.token)⟩

def renderedText (canvas : ExecutionCanvas) : Text :=
  ((canvas.tokens.keys.insertionSort (· ≤ ·)).map (fun seq => canvas.tokens.getD seq [])).flatten

end ExecutionCanvas

/-- The text of a canvas after the tokens have arrived. -/
def rendered (arrivals : List AgentTokenStreamPayload) : Text := (arrivals.foldl ExecutionCanvas.onToken {}).renderedText

/-- A stream of a text: its tokens in the order of `seq`. -/
structure StreamOf (text : Text) (stream : List AgentTokenStreamPayload) : Prop where
  ordered : stream.Pairwise (fun a b => a.seq < b.seq)
  text : (stream.map (·.token)).flatten = text

/-- **Every stream of the text, in every order of arrival, is reassembled to its redaction.** -/
def Reassembles (text : Text) : Prop :=
  ∀ stream arrivals, StreamOf text stream → arrivals.Perm stream → rendered arrivals = redact text

theorem tokens_foldl_onToken : ∀ (arrivals : List AgentTokenStreamPayload) (canvas : ExecutionCanvas),
    (arrivals.foldl ExecutionCanvas.onToken canvas).tokens =
      (arrivals.map (fun p => (p.seq, redact p.token))).foldl (fun d p => d.set p.1 p.2) canvas.tokens
  | [], _ => rfl
  | p :: arrivals, canvas => tokens_foldl_onToken arrivals (canvas.onToken p)

/-- **The order of arrival does not matter**: the canvas shows the tokens' redactions in the order of `seq`. -/
theorem rendered_eq {stream arrivals : List AgentTokenStreamPayload} (hs : stream.Pairwise (fun a b => a.seq < b.seq))
    (hp : arrivals.Perm stream) : rendered arrivals = (stream.map (fun p => redact p.token)).flatten := by
  have htokens : (arrivals.foldl ExecutionCanvas.onToken {}).tokens =
      Dict.ofList (arrivals.map (fun p => (p.seq, redact p.token))) := tokens_foldl_onToken arrivals {}
  have hnodup : ((arrivals.map (fun p => (p.seq, redact p.token))).map Prod.fst).Nodup := by
    rw [List.map_map]
    refine ((hp.map _).nodup_iff).2 (List.pairwise_map.2 (hs.imp (fun h => ?_)))
    exact ne_of_lt h
  have hget : ∀ p ∈ stream, (arrivals.foldl ExecutionCanvas.onToken {}).tokens.get? p.seq = some (redact p.token) := by
    intro p hmem
    rw [htokens]
    exact Dict.get?_ofList_of_nodup hnodup (List.mem_map.2 ⟨p, hp.mem_iff.2 hmem, rfl⟩)
  have hkeys : (arrivals.foldl ExecutionCanvas.onToken {}).tokens.keys.insertionSort (· ≤ ·) = stream.map (·.seq) := by
    have hseqs : (stream.map (·.seq)).Pairwise (· < ·) := List.pairwise_map.2 hs
    refine List.Perm.eq_of_pairwise (fun a b _ _ => le_antisymm) (List.pairwise_insertionSort _ _) (hseqs.imp le_of_lt) ?_
    refine (List.perm_insertionSort _ _).trans ((List.perm_ext_iff_of_nodup ?_ (hseqs.imp ne_of_lt)).2 (fun k => ?_))
    · exact (arrivals.foldl ExecutionCanvas.onToken {}).tokens.nodup
    · rw [Dict.mem_keys_iff, List.mem_map]
      constructor
      · rintro ⟨v, hv⟩
        rw [htokens] at hv
        obtain ⟨p, hmem, he⟩ := List.mem_map.1 (Dict.mem_of_get?_ofList hv)
        exact ⟨p, hp.mem_iff.1 hmem, (Prod.mk.inj he).1⟩
      · rintro ⟨p, hmem, rfl⟩
        exact ⟨_, hget p hmem⟩
  unfold rendered ExecutionCanvas.renderedText
  rw [hkeys, List.map_map]
  congr 1
  refine List.map_congr_left (fun p hmem => ?_)
  rw [Function.comp_apply, Dict.getD, hget p hmem, Option.getD_some]

/-- A text streamed one character a token, numbered from `n`. -/
def singles : ℤ → Text → List AgentTokenStreamPayload
  | _, [] => []
  | n, c :: text => ⟨n, [c]⟩ :: singles (n + 1) text

theorem lt_of_mem_singles : ∀ {text : Text} {n : ℤ} {p : AgentTokenStreamPayload}, p ∈ singles n text → n ≤ p.seq
  | [], _, _, h => by cases h
  | c :: text, n, p, h => by
    rcases List.mem_cons.1 h with rfl | h
    · exact le_refl n
    · have hle := lt_of_mem_singles h
      omega

theorem pairwise_singles : ∀ (text : Text) (n : ℤ), (singles n text).Pairwise (fun a b => a.seq < b.seq)
  | [], _ => List.Pairwise.nil
  | c :: text, n => by
    refine List.Pairwise.cons (fun p hp => ?_) (pairwise_singles text (n + 1))
    have hle := lt_of_mem_singles hp
    dsimp only
    omega

/-- No character alone is a secret. -/
theorem redact_single (c : Char) : redact [c] = [c] := by
  refine Observability.redact_eq_self ?_
  rintro ⟨pattern, hmem, hocc⟩
  have hle := hocc.least_le
  have hlong := (Observability.redacts_of_mem pattern hmem).longer
  rw [List.length_singleton] at hle
  have hmarker : Observability.redacted.length = 14 := by decide
  omega

theorem flatten_singles : ∀ (text : Text) (n : ℤ),
    ((singles n text).map (·.token)).flatten = text ∧ ((singles n text).map (fun p => redact p.token)).flatten = text
  | [], _ => ⟨rfl, rfl⟩
  | c :: text, n => by
    obtain ⟨htokens, hredacted⟩ := flatten_singles text (n + 1)
    rw [singles, List.map_cons, List.map_cons, List.flatten_cons, List.flatten_cons, htokens, hredacted, redact_single]
    exact ⟨rfl, rfl⟩

theorem mem_infix_flatten {token : Text} {tokens : List Text} (h : token ∈ tokens) : token <:+: tokens.flatten := by
  obtain ⟨before, after, rfl⟩ := List.append_of_mem h
  exact ⟨before.flatten, after.flatten, by simp⟩

/-- **A text is reassembled to its redaction from every stream exactly when nothing in it is a secret**; from one stream
it is when no match of a pass lies across a cut. -/
theorem reassembles_iff (text : Text) : (Reassembles text ↔ ¬ HoldsSecret text) ∧
    ∀ stream arrivals, StreamOf text stream → arrivals.Perm stream → Seamless patterns (stream.map (·.token)) →
      rendered arrivals = redact text := by
  refine ⟨⟨fun hall hsecret => ?_, fun hno stream arrivals hs hp => ?_⟩, fun stream arrivals hs hp hseam => ?_⟩
  · -- cut into single characters, the text is shown as it is
    have hshown := hall (singles 0 text) (singles 0 text) ⟨pairwise_singles text 0, (flatten_singles text 0).1⟩
      (List.Perm.refl _)
    rw [rendered_eq (pairwise_singles text 0) (List.Perm.refl _), (flatten_singles text 0).2] at hshown
    have hlt := Observability.length_redact_lt hsecret
    rw [← hshown] at hlt
    exact lt_irrefl _ hlt
  · rw [rendered_eq hs.ordered hp, Observability.redact_eq_self hno]
    have hsame : ∀ p ∈ stream, redact p.token = p.token := by
      intro p hmem
      refine Observability.redact_eq_self ?_
      rintro ⟨pattern, hpattern, hocc⟩
      have hinfix : p.token <:+: text := hs.text ▸ mem_infix_flatten (List.mem_map_of_mem hmem)
      exact hno ⟨pattern, hpattern, hocc.of_infix (Observability.redacts_of_mem pattern hpattern).settled hinfix⟩
    rw [List.map_congr_left hsame]
    exact hs.text
  · rw [rendered_eq hs.ordered hp, ← hs.text, Observability.redact_flatten hseam, List.map_map]
    rfl

/-- A key cut at a space before it, the later part first. -/
theorem reassembles_seamless : StreamOf "key sk-ant-api03-ABCDEFGHIJ".toList
      [⟨0, "key ".toList⟩, ⟨1, "sk-ant-api03-ABCDEFGHIJ".toList⟩] ∧
    rendered [⟨1, "sk-ant-api03-ABCDEFGHIJ".toList⟩, ⟨0, "key ".toList⟩] =
      redact "key sk-ant-api03-ABCDEFGHIJ".toList := by
  have hstream : StreamOf "key sk-ant-api03-ABCDEFGHIJ".toList
      [⟨0, "key ".toList⟩, ⟨1, "sk-ant-api03-ABCDEFGHIJ".toList⟩] := ⟨by simp, by decide⟩
  exact ⟨hstream, (reassembles_iff _).2 _ _ hstream (List.Perm.swap _ _ _) (by decide +kernel)⟩

/-- **A key cut in two is shown whole.** -/
theorem cut_key_shown : rendered [⟨0, "sk-ant-api03-ABC".toList⟩, ⟨1, "DEFGHIJ".toList⟩] =
      "sk-ant-api03-ABCDEFGHIJ".toList ∧
    redact "sk-ant-api03-ABCDEFGHIJ".toList = "***REDACTED***".toList ∧ ¬ Reassembles "sk-ant-api03-ABCDEFGHIJ".toList := by
  have hshown : rendered [⟨0, "sk-ant-api03-ABC".toList⟩, ⟨1, "DEFGHIJ".toList⟩] = "sk-ant-api03-ABCDEFGHIJ".toList := by
    decide +kernel
  have hredacted : redact "sk-ant-api03-ABCDEFGHIJ".toList = "***REDACTED***".toList := by decide +kernel
  refine ⟨hshown, hredacted, fun h => ?_⟩
  have hsame := h [⟨0, "sk-ant-api03-ABC".toList⟩, ⟨1, "DEFGHIJ".toList⟩]
    [⟨0, "sk-ant-api03-ABC".toList⟩, ⟨1, "DEFGHIJ".toList⟩] ⟨by simp, by decide⟩ (List.Perm.refl _)
  rw [hshown, hredacted] at hsame
  revert hsame
  decide

end Tui
end DevHarness
