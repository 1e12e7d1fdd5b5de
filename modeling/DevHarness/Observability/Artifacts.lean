import Mathlib.Algebra.GroupWithZero.Nat
import DevHarness.Lib.Dict
import DevHarness.Lib.JsonText
import DevHarness.Lib.Python
import DevHarness.Observability.Redact
/-!
# Artifacts — the transcript of a run, redacted and rotated (`observability/artifacts.py`)

Every append reads the file, redacts the new entry, drops the oldest entries until the rest is within the cap, and writes
the file again.  Rotating after every append comes to rotating once at the end (`rotate_append`), and what is left is the
longest end of the history the cap has room for (`kept_rotate`).
-/
namespace DevHarness
namespace Observability

open Lib (Text Dict translateNewlines translateNewlines_of_notMem)
open Lib.JsonText (Value dumps loads loads_dumps not_mem_dumps dumps_opens)

/-- `str` of a value; of a string it is the string. -/
structure Str where
  str : Value → Text
  str_str : ∀ s, str (.str s) = s

abbrev Entry := Dict Text Value

/-- `json.dumps` of an entry. -/
def encode (e : Entry) : Text := dumps (.dict e.items)

/-- `len(json.dumps(e).encode("utf-8"))`. -/
def size (e : Entry) : ℕ := (String.ofList (encode e)).utf8ByteSize

def totalSize (entries : List Entry) : ℕ := (entries.map size).sum

def messageKey : Text := "message".toList

/-- The loop over the items: every string is redacted. -/
def redactStrings (e : Entry) : Entry :=
  e.mapValues (fun
    | .str s => .str (redact s)
    | v => v)

/-- The entry as `append` stores it. -/
def redactEntry (py : Str) (e : Entry) : Entry :=
  redactStrings (e.set messageKey (.str (redact (py.str (e.getD messageKey (.str []))))))

/-- Drop the oldest until under the cap, never the newest. -/
def rotate (cap : ℤ) : List Entry → List Entry
  | [] => []
  | [e] => [e]
  | e :: f :: rest => if (totalSize (e :: f :: rest) : ℤ) ≤ cap then e :: f :: rest else rotate cap (f :: rest)

/-! ## The file -/

/-- `_write`. -/
def write (entries : List Entry) : Text := (entries.map (fun e => encode e ++ ['\n'])).flatten

/-- The lines of an open file, after what the line has so far. -/
def linesFrom : Text → Text → List Text
  | line, [] => if line = [] then [] else [line]
  | line, c :: text => if c = '\n' then (line ++ ['\n']) :: linesFrom [] text else linesFrom (line ++ [c]) text

/-- `json.loads` of a line; only an object is an entry. -/
def readEntry (line : Text) : Option Entry :=
  match loads line with
  | some (.dict items) => some (Dict.ofList items)
  | _ => none

/-- `_load`; it raises on a line that cannot be read. -/
def load (file : Option Text) : Option (List Entry) :=
  match file with
  | none => some []
  | some text => ((linesFrom [] (translateNewlines text)).filter (fun line => Text.strip line ≠ [])).mapM readEntry

/-- `RunArtifactStore`, with its file, which may not exist yet. -/
structure RunArtifactStore where
  capBytes : ℤ := 1000000
  file : Option Text := none
  deriving DecidableEq

namespace RunArtifactStore

def append (py : Str) (s : RunArtifactStore) (entry : Entry) : Option RunArtifactStore :=
  match load s.file with
  | none => none
  | some entries => some { s with file := some (write (rotate s.capBytes (entries ++ [redactEntry py entry]))) }

def entries (s : RunArtifactStore) : Option (List Entry) := load s.file

/-- A history of appends, if none raises. -/
def appendAll (py : Str) (s : RunArtifactStore) : List Entry → Option RunArtifactStore
  | [] => some s
  | e :: history => (s.append py e).bind (fun s' => s'.appendAll py history)

end RunArtifactStore

/-! ## Reading back -/

theorem linesFrom_append {line piece : Text} (h : '\n' ∉ piece) (rest : Text) :
    linesFrom line (piece ++ '\n' :: rest) = (line ++ piece ++ ['\n']) :: linesFrom [] rest := by
  induction piece generalizing line with
  | nil => rw [List.nil_append, linesFrom, if_pos rfl, List.append_nil]
  | cons c piece ih =>
    rw [List.mem_cons, not_or] at h
    rw [List.cons_append, linesFrom, if_neg (Ne.symm h.1), ih h.2]
    simp

theorem newline_notMem_encode (e : Entry) : '\n' ∉ encode e := not_mem_dumps _ (by decide)

theorem linesFrom_write (entries : List Entry) :
    linesFrom [] (write entries) = entries.map (fun e => encode e ++ ['\n']) := by
  induction entries with
  | nil => rfl
  | cons e entries ih =>
    have hlines := @linesFrom_append [] _ (newline_notMem_encode e) (write entries)
    rw [List.nil_append, ih] at hlines
    have hwrite : write (e :: entries) = encode e ++ '\n' :: write entries := by
      rw [write, List.map_cons, List.flatten_cons, List.append_assoc, List.singleton_append, write]
    rw [hwrite, hlines, List.map_cons]

theorem return_notMem_write (entries : List Entry) : '\r' ∉ write entries := by
  intro h
  obtain ⟨line, hline, hr⟩ := List.mem_flatten.1 h
  obtain ⟨e, -, rfl⟩ := List.mem_map.1 hline
  rcases List.mem_append.1 hr with hr | hr
  · exact not_mem_dumps _ (by decide) hr
  · exact absurd (List.mem_singleton.1 hr) (by decide)

theorem strip_ne_nil {c : Char} {text : Text} (hc : Text.isSpace c = false) : Text.strip (c :: text) ≠ [] := by
  intro h
  have hl : Text.lstrip (c :: text) = c :: text :=
    List.dropWhile_cons_of_neg (by rw [hc]; exact Bool.false_ne_true)
  rw [Text.strip, hl, List.rdropWhile_eq_nil_iff] at h
  have hspace := h c List.mem_cons_self
  rw [hc] at hspace
  cases hspace

theorem readEntry_encode (e : Entry) : readEntry (encode e ++ ['\n']) = some e := by
  rw [readEntry, encode, loads_dumps]
  exact congrArg some (Dict.ofList_items e)

/-- **What is written is loaded.** -/
theorem load_write (entries : List Entry) : load (some (write entries)) = some entries := by
  have hlines : (entries.map (fun e => encode e ++ ['\n'])).filter (fun line => Text.strip line ≠ []) =
      entries.map (fun e => encode e ++ ['\n']) := by
    refine List.filter_eq_self.2 (fun line hline => ?_)
    obtain ⟨e, -, rfl⟩ := List.mem_map.1 hline
    have hopen : encode e ++ ['\n'] = '{' :: (Lib.JsonText.dumpsMembers e.items ++ ['\n']) := by
      rw [encode, dumps, List.cons_append]
    rw [hopen, decide_eq_true_eq]
    exact strip_ne_nil (by decide)
  have hread : ∀ es : List Entry, (es.map (fun e => encode e ++ ['\n'])).mapM readEntry = some es := by
    intro es
    induction es with
    | nil => rfl
    | cons e es ih => rw [List.map_cons, List.mapM_cons, readEntry_encode, ih]; rfl
  simp only [load]
  rw [translateNewlines_of_notMem (return_notMem_write entries), linesFrom_write, hlines, hread]

/-! ## Rotation -/

theorem totalSize_append (a b : List Entry) : totalSize (a ++ b) = totalSize a + totalSize b := by
  rw [totalSize, List.map_append, List.sum_append, totalSize, totalSize]

/-- **Rotating before an append changes nothing**: the next rotation drops what this one drops. -/
theorem rotate_append (cap : ℤ) : ∀ (entries more : List Entry),
    rotate cap (rotate cap entries ++ more) = rotate cap (entries ++ more)
  | [], _ => rfl
  | [_], _ => rfl
  | e :: f :: rest, more => by
    rw [rotate]
    split
    · rfl
    · rename_i h
      have hover : ¬ (totalSize (e :: f :: (rest ++ more)) : ℤ) ≤ cap := by
        have hsum := totalSize_append (e :: f :: rest) more
        rw [List.cons_append, List.cons_append] at hsum
        omega
      rw [rotate_append cap (f :: rest) more, List.cons_append, List.cons_append, List.cons_append, rotate, if_neg hover]

/-- **What the cap has room for**: an end of the history, the newest in it, within the cap unless it is the newest alone,
and no longer end is. -/
structure Kept (cap : ℤ) (history kept : List Entry) : Prop where
  suffix : kept <:+ history
  newest : history ≠ [] → kept ≠ []
  fits : 2 ≤ kept.length → (totalSize kept : ℤ) ≤ cap
  longest : ∀ s, s <:+ history → kept.length < s.length → cap < totalSize s

theorem kept_rotate (cap : ℤ) : ∀ history : List Entry, Kept cap history (rotate cap history)
  | [] => ⟨List.suffix_refl _, fun h => absurd rfl h, fun h => absurd h (by simp [rotate]), fun s hs hlt => by
      rw [List.suffix_nil.1 hs] at hlt
      exact absurd hlt (Nat.lt_irrefl _)⟩
  | [e] => ⟨List.suffix_refl _, fun h => h, fun h => absurd h (by simp [rotate]), fun s hs hlt => by
      have hle := hs.length_le
      rw [rotate] at hlt
      omega⟩
  | e :: f :: rest => by
    rw [rotate]
    split
    · rename_i h
      exact ⟨List.suffix_refl _, fun h => h, fun _ => h, fun s hs hlt => absurd hlt (Nat.not_lt.2 hs.length_le)⟩
    · rename_i h
      obtain ⟨hsuffix, hnewest, hfits, hlongest⟩ := kept_rotate cap (f :: rest)
      refine ⟨hsuffix.trans (List.suffix_cons e _), fun _ => hnewest (List.cons_ne_nil f rest), hfits, fun s hs hlt => ?_⟩
      rcases List.suffix_cons_iff.1 hs with rfl | hs
      · exact not_le.1 h
      · exact hlongest s hs hlt

/-- There is only one such end. -/
theorem kept_unique {cap : ℤ} {history a b : List Entry} (ha : Kept cap history a) (hb : Kept cap history b) : a = b := by
  have hle : ∀ {a b : List Entry}, Kept cap history a → Kept cap history b → b.length ≤ a.length := by
    intro a b ha hb
    by_contra hlt
    rw [not_le] at hlt
    have hover := ha.longest b hb.suffix hlt
    have hone : ¬ 2 ≤ b.length := fun h => absurd (hb.fits h) (not_le.2 hover)
    have hnil : a = [] := List.length_eq_zero_iff.1 (by omega)
    refine ha.newest (fun hh => ?_) hnil
    have hbnil := hb.suffix
    rw [hh, List.suffix_nil] at hbnil
    rw [hbnil] at hlt
    exact absurd hlt (Nat.not_lt_zero _)
  have hlen := Nat.le_antisymm (hle hb ha) (hle ha hb)
  obtain ⟨s, hs⟩ := ha.suffix
  obtain ⟨t, ht⟩ := hb.suffix
  exact (List.append_inj' (hs.trans ht.symm) hlen).2

/-! ## Histories -/

namespace RunArtifactStore

theorem load_append {py : Str} {s : RunArtifactStore} {old : List Entry} (h : load s.file = some old) (entry : Entry) :
    ∃ s', s.append py entry = some s' ∧ s'.capBytes = s.capBytes ∧
      load s'.file = some (rotate s.capBytes (old ++ [redactEntry py entry])) := by
  refine ⟨{ s with file := some (write (rotate s.capBytes (old ++ [redactEntry py entry]))) }, ?_, rfl, load_write _⟩
  rw [append, h]

/-- **A history of appends**, on a file there may have been before. -/
theorem load_appendAll (py : Str) : ∀ (history : List Entry) {s : RunArtifactStore} {old : List Entry},
    load s.file = some old → ∃ s', s.appendAll py history = some s' ∧ s'.capBytes = s.capBytes ∧
      load s'.file = some (if history = [] then old else rotate s.capBytes (old ++ history.map (redactEntry py)))
  | [], s, old, h => ⟨s, rfl, rfl, by rw [if_pos rfl, h]⟩
  | e :: history, s, old, h => by
    obtain ⟨s', happend, hcap, hload⟩ := @load_append py s old h e
    obtain ⟨s'', hall, hcap', hload'⟩ := load_appendAll py history hload
    refine ⟨s'', ?_, hcap'.trans hcap, ?_⟩
    · rw [appendAll, happend, Option.bind_some, hall]
    · rw [hload', if_neg (List.cons_ne_nil e history)]
      split
      · rename_i hnil
        rw [hnil]
        rfl
      · rw [hcap, rotate_append, List.append_assoc]
        rfl

/-- An append after a history. -/
theorem appendAll_concat (py : Str) : ∀ (history : List Entry) (s : RunArtifactStore) (e : Entry),
    s.appendAll py (history ++ [e]) = (s.appendAll py history).bind (fun s' => s'.append py e)
  | [], s, e => by
    rw [List.nil_append, appendAll, appendAll, Option.bind_some]
    cases s.append py e <;> rfl
  | f :: history, s, e => by
    rw [List.cons_append, appendAll, appendAll]
    cases s.append py f with
    | none => rfl
    | some s' =>
      rw [Option.bind_some, Option.bind_some, appendAll_concat py history s' e]

theorem entries_appendAll (py : Str) (cap : ℤ) (history : List Entry) :
    ∃ s, appendAll py ⟨cap, none⟩ history = some s ∧ s.entries = some (rotate cap (history.map (redactEntry py))) := by
  obtain ⟨s, hall, -, hload⟩ := @load_appendAll py history ⟨cap, none⟩ [] rfl
  refine ⟨s, hall, ?_⟩
  rw [entries, hload]
  split
  · rename_i hnil
    rw [hnil]
    rfl
  · rfl

/-- **The transcript is the end of the redacted history the cap has room for**, and rotating step by step is rotating the
whole history once. -/
theorem entries_eq_rotate (py : Str) (cap : ℤ) (history : List Entry) :
    ∃ s, appendAll py ⟨cap, none⟩ history = some s ∧
      s.entries = some (rotate cap (history.map (redactEntry py))) ∧
      Kept cap (history.map (redactEntry py)) (rotate cap (history.map (redactEntry py))) := by
  obtain ⟨s, hall, hentries⟩ := entries_appendAll py cap history
  exact ⟨s, hall, hentries, kept_rotate cap _⟩

end RunArtifactStore
end Observability
end DevHarness
