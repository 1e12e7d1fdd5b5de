import DevHarness.Observability.Artifacts
/-!
# Secrets — the keys a transcript may hold (`observability/redact.py`, `observability/artifacts.py`)

The store redacts the message and every string at the top of an entry; strings further down stay as they are.  A key is
found in what is stored where it stood further down, or where no match of the three patterns touches it (`Survives`):
an Anthropic key is a match itself, a key of OpenRouter is not.
-/
namespace DevHarness
namespace Observability

open Lib (Text Dict)
open Lib.JsonText (Value)
open Lib.Pattern

mutual

/-- The strings of a value, at any depth. -/
def strings : Value → List Text
  | .str s => [s]
  | .list items => stringsOfItems items
  | .dict items => stringsOfMembers items
  | _ => []

def stringsOfItems : List Value → List Text
  | [] => []
  | v :: rest => strings v ++ stringsOfItems rest

def stringsOfMembers : List (Text × Value) → List Text
  | [] => []
  | (_, v) :: rest => strings v ++ stringsOfMembers rest

end

/-- A text stands in a string of the entry, at any depth. -/
def Holds (w : Text) (e : Entry) : Prop := ∃ k v, e.get? k = some v ∧ ∃ s ∈ strings v, w <:+: s

/-- The providers with keys. -/
inductive KeyProvider where
  | anthropic
  | openRouter
  deriving DecidableEq

def KeyProvider.stem : KeyProvider → Text
  | .anthropic => "sk-ant-api03-".toList
  | .openRouter => "sk-or-v1-".toList

structure ApiKey where
  provider : KeyProvider
  body : Text
  chars : ∀ c ∈ body, isKeyChar c = true

def ApiKey.text (key : ApiKey) : Text := key.provider.stem ++ key.body

/-- No entry of any state of the run holds the key. -/
def NeverStored (py : Str) (cap : ℤ) (history : List Entry) (key : ApiKey) : Prop :=
  ∀ past, past <+: history → ∀ s entries, RunArtifactStore.appendAll py ⟨cap, none⟩ past = some s →
    s.entries = some entries → ∀ e ∈ entries, ¬ Holds key.text e

def Idempotent : Prop := ∀ text, redact (redact text) = redact text

/-- **An entry whose keys are masked**: none stands in a string below the top, and none at the top survives. -/
def Masked (py : Str) (key : ApiKey) (e : Entry) : Prop :=
  ¬ Survives key.text (py.str (e.getD messageKey (.str []))) ∧
  ∀ k v, e.get? k = some v → k ≠ messageKey → match v with
    | .str s => ¬ Survives key.text s
    | v => ∀ s ∈ strings v, ¬ key.text <:+: s

/-! ## Keys -/

theorem ApiKey.text_ne_nil (key : ApiKey) : key.text ≠ [] := by
  have hstem : key.provider.stem ≠ [] := by
    cases key.provider <;> decide
  exact fun h => hstem (List.append_eq_nil_iff.1 h).1

theorem ApiKey.apart (key : ApiKey) : Apart redacted key.text := by
  have hstem : 's' ∈ key.provider.stem := by
    cases key.provider <;> decide
  have hs : 's' ∈ key.text := List.mem_append_left _ hstem
  have hinner : 's' ∉ inner := by decide
  have hstem' : '*' ∉ key.provider.stem := by
    cases key.provider <;> decide
  have hbody : '*' ∉ key.body := by
    intro h
    have hstar : isKeyChar '*' = false := by decide
    rw [key.chars '*' h] at hstar
    cases hstar
  refine apart_redacted key.text_ne_nil (fun hstar => ?_) (fun hin => hinner (hin.subset hs))
  rcases List.mem_append.1 hstar with h | h
  · exact hstem' h
  · exact hbody h

theorem anthropicKey_mem : anthropicKey ∈ patterns := by
  rw [patterns]
  exact List.mem_cons_self

/-- **No Anthropic key survives**: it is a match itself. -/
theorem not_survives_anthropic {key : ApiKey} (hp : key.provider = .anthropic) (hlong : 10 ≤ key.body.length)
    (text : Text) : ¬ Survives key.text text := by
  rintro ⟨hsecret, -⟩
  have hwords : Words anthropicKey [KeyProvider.anthropic.stem, key.body] := by
    rw [anthropicKey]
    exact List.Forall₂.cons (Piece.accepts_literal_iff.2 rfl) (List.Forall₂.cons ⟨hlong, key.chars⟩ List.Forall₂.nil)
  have hocc := occurs_of_word (redacts_of_mem anthropicKey anthropicKey_mem).settled hwords
  rw [List.flatten_cons, List.flatten_singleton, ← hp] at hocc
  exact hsecret ⟨anthropicKey, anthropicKey_mem, hocc⟩

/-! ## Entries -/

/-- Where a value at the top of an entry is stored with the key in it. -/
theorem strings_redactStrings {key : ApiKey} {v : Value} :
    (∃ s ∈ strings (match v with | .str s => .str (redact s) | v => v), key.text <:+: s) ↔
      ¬ match v with
        | .str s => ¬ Survives key.text s
        | v => ∀ s ∈ strings v, ¬ key.text <:+: s := by
  cases v <;> simp [strings, infix_redact_iff key.text_ne_nil key.apart]

theorem get?_redactEntry (py : Str) (e : Entry) (k : Text) : (redactEntry py e).get? k =
    if k = messageKey then some (.str (redact (py.str (e.getD messageKey (.str [])))))
    else (e.get? k).map (fun | .str s => .str (redact s) | v => v) := by
  rw [redactEntry, redactStrings, Dict.get?_mapValues, Dict.get?_set]
  split
  · simp [redact_redact]
  · rfl

theorem not_holds_redactEntry_iff {py : Str} {key : ApiKey} {e : Entry} :
    ¬ Holds key.text (redactEntry py e) ↔ Masked py key e := by
  constructor
  · intro h
    refine ⟨fun hsurvives => ?_, fun k v hv hk => ?_⟩
    · have hstored : (redactEntry py e).get? messageKey =
          some (.str (redact (py.str (e.getD messageKey (.str []))))) := by
        rw [get?_redactEntry, if_pos rfl]
      refine h ⟨messageKey, _, hstored, redact (py.str (e.getD messageKey (.str []))), ?_, ?_⟩
      · rw [strings]
        exact List.mem_cons_self
      · exact (infix_redact_iff key.text_ne_nil key.apart).2 hsurvives
    · by_contra hnot
      obtain ⟨s, hs, hw⟩ := strings_redactStrings.2 hnot
      exact h ⟨k, _, by rw [get?_redactEntry, if_neg hk, hv]; rfl, s, hs, hw⟩
  · rintro ⟨hmessage, hrest⟩ ⟨k, v, hv, s, hs, hw⟩
    rw [get?_redactEntry] at hv
    split at hv
    · cases hv
      rw [strings] at hs
      rw [List.mem_singleton.1 hs] at hw
      exact hmessage ((infix_redact_iff key.text_ne_nil key.apart).1 hw)
    · rename_i hk
      obtain ⟨v', hv', rfl⟩ := Option.map_eq_some_iff.1 hv
      exact strings_redactStrings.1 ⟨s, hs, hw⟩ (hrest k v' hv' hk)

/-! ## Runs -/

theorem entries_of_appendAll {py : Str} {cap : ℤ} {past : List Entry} {s : RunArtifactStore} {entries : List Entry}
    (hs : RunArtifactStore.appendAll py ⟨cap, none⟩ past = some s) (hentries : s.entries = some entries) :
    Kept cap (past.map (redactEntry py)) entries := by
  obtain ⟨s', hs', hrotate⟩ := RunArtifactStore.entries_appendAll py cap past
  rw [hs'] at hs
  cases hs
  rw [hrotate] at hentries
  cases hentries
  exact kept_rotate cap _

/-- The entry appended last is stored. -/
theorem newest_mem {cap : ℤ} {past kept : List Entry} {e : Entry} (h : Kept cap (past ++ [e]) kept) : e ∈ kept := by
  obtain ⟨dropped, hsplit⟩ := h.suffix
  have hne := h.newest (by simp)
  obtain ⟨init, last, rfl⟩ : ∃ init last, kept = init ++ [last] := ⟨_, _, (List.dropLast_append_getLast hne).symm⟩
  rw [← List.append_assoc] at hsplit
  have hlast := (List.append_inj' hsplit rfl).2
  rw [List.singleton_inj.1 hlast]
  exact List.mem_append_right _ List.mem_cons_self

/-- Every entry is the newest once, and the newest is stored. -/
theorem masked_of_neverStored {py : Str} {cap : ℤ} {history : List Entry} {key : ApiKey}
    (hnever : NeverStored py cap history key) : ∀ e ∈ history, Masked py key e := by
  intro e he
  obtain ⟨before, after, rfl⟩ := List.append_of_mem he
  obtain ⟨s, hs, hrotate⟩ := RunArtifactStore.entries_appendAll py cap (before ++ [e])
  have hkept := kept_rotate cap ((before ++ [e]).map (redactEntry py))
  have hpast : before ++ [e] <+: before ++ e :: after := ⟨after, by simp⟩
  have hnot := hnever _ hpast s _ hs hrotate (redactEntry py e)
  rw [List.map_append, List.map_cons, List.map_nil] at hkept hnot
  exact not_holds_redactEntry_iff.1 (hnot (newest_mem hkept))

/-- **No key is ever stored, on exactly the histories whose entries are all masked.** -/
theorem neverStored_iff (py : Str) (cap : ℤ) (history : List Entry) (key : ApiKey) :
    (NeverStored py cap history key ∧ Idempotent) ↔ ∀ e ∈ history, Masked py key e := by
  constructor
  · rintro ⟨hnever, -⟩
    exact masked_of_neverStored hnever
  · intro h
    refine ⟨fun past hpast s entries hs hentries e he => ?_, redact_redact⟩
    have hmem := (entries_of_appendAll hs hentries).suffix.subset he
    obtain ⟨e', he', rfl⟩ := List.mem_map.1 hmem
    exact not_holds_redactEntry_iff.2 (h e' (hpast.subset he'))

/-! ## A key of OpenRouter -/

def exampleKey : ApiKey where
  provider := .openRouter
  body := "0123456789abcdef0123456789abcdef0123456789abcdef0123456789abcdef".toList
  chars := List.all_eq_true.1 (by decide)

def plainStr : Str where
  str
    | .str s => s
    | _ => []
  str_str _ := rfl

/-- The message is the key. -/
def keyEntry : Entry := Dict.empty.set messageKey (.str exampleKey.text)

theorem openRouter_stored : ¬ (NeverStored plainStr 1000000 [keyEntry] exampleKey ∧ Idempotent) := by
  rintro ⟨hnever, -⟩
  have hsurvives : Survives exampleKey.text exampleKey.text :=
    ⟨by decide +kernel, [], [], (List.append_nil _).symm, by decide +kernel⟩
  refine (masked_of_neverStored hnever keyEntry List.mem_cons_self).1 ?_
  rw [keyEntry, Dict.getD, Dict.get?_set_self]
  exact hsurvives

end Observability
end DevHarness
