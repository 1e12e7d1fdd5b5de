import DevHarness.Observability.Artifacts
/-!
# Scrollback — a window of live lines over a transcript on disk (`tui/scrollback.py`)

The oldest lines spill to the store when the window is full.  The store redacts what it is given and rotates at its cap,
so the history is what was appended only where the spilled lines hold no secret, fit the cap, and nothing older is left in
the file (`intact_iff`).
-/
namespace DevHarness
namespace Tui

open Lib (Text Dict)
open Lib.JsonText (Value)
open Observability

/-- `max_lines`, at least one. -/
abbrev Capacity := { n : ℕ // 1 ≤ n }

/-- The message of the `ScrollbackError` for a capacity below one. -/
def checkCapacity (maxLines : ℤ) : Except String Capacity :=
  if h : maxLines < 1 then .error ("max_lines must be >= 1, got " ++ toString maxLines)
  else .ok ⟨maxLines.toNat, Lib.one_le_toNat h⟩

/-- `ScrollbackBuffer` over a path, with the store it builds there. -/
structure ScrollbackBuffer where
  maxLines : Capacity
  live : List Text := []
  spill : RunArtifactStore
  spilledCount : ℕ := 0

def lineKey : Text := "line".toList

/-- The entry a line is spilled as. -/
def spillEntry (line : Text) : Entry := Dict.empty.set lineKey (.str line)

namespace ScrollbackBuffer

/-- A buffer over a path, where a transcript may be already. -/
def init (maxLines : Capacity) (transcript : Option (List Entry)) : ScrollbackBuffer where
  maxLines := maxLines
  spill := { file := transcript.map write }

/-- `_spill_line`. -/
def spillLine (py : Str) (b : ScrollbackBuffer) (line : Text) : Option ScrollbackBuffer :=
  (b.spill.append py (spillEntry line)).map (fun s => { b with spill := s, spilledCount := b.spilledCount + 1 })

/-- The loop of `append`: the oldest line is spilled while there are too many. -/
def shrink (py : Str) (b : ScrollbackBuffer) : List Text → Option ScrollbackBuffer
  | [] => some { b with live := [] }
  | oldest :: rest =>
    if b.maxLines < (oldest :: rest).length then (b.spillLine py oldest).bind (fun b' => b'.shrink py rest)
    else some { b with live := oldest :: rest }

def append (py : Str) (b : ScrollbackBuffer) (line : Text) : Option ScrollbackBuffer := b.shrink py (b.live ++ [line])

def appendAll (py : Str) (b : ScrollbackBuffer) : List Text → Option ScrollbackBuffer
  | [] => some b
  | line :: lines => (b.append py line).bind (fun b' => b'.appendAll py lines)

/-- `str(entry["line"])`, which raises where there is none. -/
def lineOf (py : Str) (e : Entry) : Option Text := (e.get? lineKey).map py.str

/-- `spilled`. -/
def spilled (py : Str) (b : ScrollbackBuffer) : Option (List Text) := b.spill.entries.bind (fun es => es.mapM (lineOf py))

def allLines (py : Str) (b : ScrollbackBuffer) : Option (List Text) := (b.spilled py).map (fun lines => lines ++ b.live)

end ScrollbackBuffer

/-- **Nothing is lost, reordered or altered**: the history is what was appended. -/
def Intact (py : Str) (maxLines : Capacity) (transcript : Option (List Entry)) (lines : List Text) : Prop :=
  ∃ b, (ScrollbackBuffer.init maxLines transcript).appendAll py lines = some b ∧ b.allLines py = some lines

/-- The lines that do not fit the window. -/
def overflow (maxLines : Capacity) (lines : List Text) : List Text := lines.take (lines.length - maxLines)

/-- The entry a line without a secret is stored as. -/
def storedLine (line : Text) : Entry := (spillEntry line).set messageKey (.str [])

/-- **A history the store keeps**: the spilled lines hold no secret, they fit its cap unless there is only one, and there
is no room left for what was in the file before. -/
def Keepable (maxLines : Capacity) (transcript : Option (List Entry)) (lines : List Text) : Prop :=
  if overflow maxLines lines = [] then transcript.getD [] = []
  else (∀ l ∈ overflow maxLines lines, ¬ HoldsSecret l) ∧
    (2 ≤ (overflow maxLines lines).length → (totalSize ((overflow maxLines lines).map storedLine) : ℤ) ≤ 1000000) ∧
    ∀ e ∈ (transcript.getD []).getLast?, (1000000 : ℤ) < totalSize (e :: (overflow maxLines lines).map storedLine)

/-! ## Spilling -/

namespace ScrollbackBuffer

/-- What a buffer has taken, split into what it spilled and what is live. -/
structure Holds (py : Str) (store : RunArtifactStore) (maxLines : Capacity) (taken : List Text)
    (b : ScrollbackBuffer) (gone : List Text) : Prop where
  capacity : b.maxLines = maxLines
  stored : store.appendAll py (gone.map spillEntry) = some b.spill
  whole : gone ++ b.live = taken
  bounded : b.live.length ≤ maxLines
  full : gone ≠ [] → b.live.length = maxLines

theorem shrink_of_le {py : Str} {b : ScrollbackBuffer} : ∀ {live : List Text}, live.length ≤ b.maxLines →
    b.shrink py live = some { b with live := live }
  | [], _ => by rw [shrink]
  | line :: live, h => by rw [shrink, if_neg (Nat.not_lt.2 h)]

/-- The store takes every line that is spilled. -/
theorem Holds.exists_spillLine {py : Str} {store : RunArtifactStore} {maxLines : Capacity} {taken gone : List Text}
    {b : ScrollbackBuffer} {old : List Entry} (h : b.Holds py store maxLines taken gone)
    (hload : load store.file = some old) (line : Text) :
    ∃ s, b.spillLine py line = some { b with spill := s, spilledCount := b.spilledCount + 1 } ∧
      store.appendAll py ((gone ++ [line]).map spillEntry) = some s := by
  obtain ⟨s', hs', -, hes⟩ := RunArtifactStore.load_appendAll py (gone.map spillEntry) hload
  rw [h.stored] at hs'
  cases hs'
  obtain ⟨s, hs, -, -⟩ := RunArtifactStore.load_append hes (spillEntry line)
  refine ⟨s, ?_, ?_⟩
  · rw [spillLine, hs]
    rfl
  · rw [List.map_append, List.map_cons, List.map_nil, RunArtifactStore.appendAll_concat, h.stored, Option.bind_some, hs]

/-- **One line** is taken, and at most one is spilled. -/
theorem Holds.append {py : Str} {store : RunArtifactStore} {maxLines : Capacity} {taken gone : List Text}
    {b : ScrollbackBuffer} {old : List Entry} (h : b.Holds py store maxLines taken gone)
    (hload : load store.file = some old) (line : Text) :
    ∃ b' gone', b.append py line = some b' ∧ b'.Holds py store maxLines (taken ++ [line]) gone' := by
  have hbounded := h.bounded
  rw [ScrollbackBuffer.append]
  cases hlive : b.live ++ [line] with
  | nil => exact absurd hlive (by simp)
  | cons oldest rest =>
    have hlen : rest.length = b.live.length := by
      have hlen := congrArg List.length hlive
      simp only [List.length_append, List.length_cons, List.length_nil] at hlen
      omega
    have htaken : gone ++ oldest :: rest = taken ++ [line] := by
      rw [← hlive, ← List.append_assoc, h.whole]
    rw [shrink, h.capacity, List.length_cons]
    split
    case isTrue hover =>
      obtain ⟨s, hspill, hstored⟩ := h.exists_spillLine hload oldest
      have hfits : rest.length ≤ b.maxLines := by
        rw [h.capacity]
        omega
      rw [hspill, Option.bind_some]
      refine ⟨{ b with live := rest, spill := s, spilledCount := b.spilledCount + 1 }, gone ++ [oldest], shrink_of_le hfits,
        h.capacity, hstored, ?_, ?_, fun _ => ?_⟩
      · rw [List.append_assoc, List.singleton_append, htaken]
      · dsimp only
        omega
      · dsimp only
        omega
    case isFalse hroom =>
      refine ⟨_, gone, rfl, rfl, h.stored, htaken, ?_, fun hgone => ?_⟩
      · rw [List.length_cons]
        omega
      · have hfull := h.full hgone
        omega

/-- **A sequence of lines.** -/
theorem Holds.appendAll {py : Str} {store : RunArtifactStore} {maxLines : Capacity} {old : List Entry}
    (hload : load store.file = some old) : ∀ (lines : List Text) {taken gone : List Text} {b : ScrollbackBuffer},
      b.Holds py store maxLines taken gone →
        ∃ b' gone', b.appendAll py lines = some b' ∧ b'.Holds py store maxLines (taken ++ lines) gone'
  | [], taken, gone, b, h => ⟨b, gone, rfl, by rwa [List.append_nil]⟩
  | line :: lines, taken, gone, b, h => by
    obtain ⟨b', gone', happend, h'⟩ := h.append hload line
    obtain ⟨b'', gone'', hall, h''⟩ := Holds.appendAll hload lines h'
    refine ⟨b'', gone'', ?_, by rwa [List.append_assoc] at h''⟩
    rw [ScrollbackBuffer.appendAll, happend, Option.bind_some, hall]

/-- What was spilled is what did not fit. -/
theorem Holds.gone_eq {py : Str} {store : RunArtifactStore} {maxLines : Capacity} {taken gone : List Text}
    {b : ScrollbackBuffer} (h : b.Holds py store maxLines taken gone) : gone = overflow maxLines taken := by
  have hlen := congrArg List.length h.whole
  rw [List.length_append] at hlen
  have hbounded := h.bounded
  rw [overflow, ← h.whole, List.length_append]
  by_cases hgone : gone = []
  · rw [hgone, List.length_nil, Nat.zero_add, Nat.sub_eq_zero_of_le hbounded, List.take_zero]
  · rw [h.full hgone, Nat.add_sub_cancel, List.take_left' rfl]

end ScrollbackBuffer

/-! ## What the store keeps of it -/

theorem redactEntry_spillEntry (py : Str) (line : Text) : redactEntry py (spillEntry line) = storedLine (redact line) := by
  have hmessage : (spillEntry line).getD messageKey (.str []) = .str [] := rfl
  have hnil : redact [] = [] := rfl
  rw [redactEntry, hmessage, py.str_str, hnil]
  rfl

theorem lineOf_storedLine (py : Str) (line : Text) : ScrollbackBuffer.lineOf py (storedLine line) = some line := by
  have hget : (storedLine line).get? lineKey = some (.str line) := rfl
  rw [ScrollbackBuffer.lineOf, hget, Option.map_some, py.str_str]

theorem mapM_lineOf_storedLine (py : Str) : ∀ lines : List Text,
    (lines.map storedLine).mapM (ScrollbackBuffer.lineOf py) = some lines
  | [] => rfl
  | line :: lines => by
    rw [List.map_cons, List.mapM_cons, lineOf_storedLine, mapM_lineOf_storedLine py lines]
    rfl

theorem length_of_mapM {α β : Type} {f : α → Option β} : ∀ {xs : List α} {ys : List β}, xs.mapM f = some ys →
    ys.length = xs.length
  | [], ys, h => by
    cases h
    rfl
  | x :: xs, ys, h => by
    rw [List.mapM_cons] at h
    obtain ⟨y, -, h⟩ := Option.bind_eq_some_iff.1 h
    obtain ⟨zs, hzs, h⟩ := Option.bind_eq_some_iff.1 h
    cases h
    rw [List.length_cons, List.length_cons, length_of_mapM hzs]

/-- Nothing older is kept beside the spilled lines where there is no room for it. -/
theorem kept_overflow {cap : ℤ} {old stored : List Entry} (hne : stored ≠ [])
    (hfits : 2 ≤ stored.length → (totalSize stored : ℤ) ≤ cap)
    (hroom : ∀ e ∈ old.getLast?, cap < totalSize (e :: stored)) : Kept cap (old ++ stored) stored := by
  refine ⟨List.suffix_append old stored, fun _ => hne, hfits, fun s hs hlt => ?_⟩
  -- a longer end has the last of the old entries in it
  obtain ⟨before, hbefore⟩ := hs
  rcases List.append_eq_append_iff.1 hbefore with ⟨more, rfl, rfl⟩ | ⟨more, rfl, hstored⟩
  · cases hmore : more.getLast? with
    | none =>
      rw [List.getLast?_eq_none_iff.1 hmore, List.nil_append] at hlt
      exact absurd hlt (Nat.lt_irrefl _)
    | some e =>
      have hover := hroom e (by rw [List.getLast?_append, hmore]; rfl)
      rw [← List.dropLast_append_getLast? e hmore, List.append_assoc, List.singleton_append, totalSize_append]
      push_cast
      omega
  · have hlen := congrArg List.length hstored
    rw [List.length_append] at hlen
    omega

theorem totalSize_of_kept {cap : ℤ} {old stored : List Entry} (h : Kept cap (old ++ stored) stored) :
    (2 ≤ stored.length → (totalSize stored : ℤ) ≤ cap) ∧ ∀ e ∈ old.getLast?, cap < totalSize (e :: stored) := by
  refine ⟨h.fits, fun e he => h.longest _ ⟨old.dropLast, ?_⟩ (Nat.lt_succ_self _)⟩
  rw [List.append_cons, List.dropLast_append_getLast? e he]

/-- **The lines read back are the lines spilled** exactly when the store has altered none and kept all of them alone. -/
theorem mapM_rotate_iff (py : Str) {cap : ℤ} {old : List Entry} {gone : List Text} (hne : gone ≠ []) :
    (rotate cap (old ++ gone.map (fun l => storedLine (redact l)))).mapM (ScrollbackBuffer.lineOf py) = some gone ↔
      (∀ l ∈ gone, ¬ HoldsSecret l) ∧ (2 ≤ gone.length → (totalSize (gone.map storedLine) : ℤ) ≤ cap) ∧
        ∀ e ∈ old.getLast?, cap < totalSize (e :: gone.map storedLine) := by
  have hkept := kept_rotate cap (old ++ gone.map (fun l => storedLine (redact l)))
  constructor
  · intro h
    have hlen := length_of_mapM h
    -- as many entries as lines, so the entries of the lines
    have heq : rotate cap (old ++ gone.map (fun l => storedLine (redact l))) = gone.map (fun l => storedLine (redact l)) := by
      obtain ⟨before, hbefore⟩ := hkept.suffix
      refine (List.append_inj' hbefore ?_).2
      rw [← hlen, List.length_map]
    have hread := mapM_lineOf_storedLine py (gone.map redact)
    rw [List.map_map] at hread
    rw [heq] at h hkept
    have hredact : gone.map redact = gone := Option.some.inj (hread.symm.trans h)
    have hplain : ∀ l ∈ gone, redact l = l := fun l hl => List.map_inj_left.1 (hredact.trans (List.map_id gone).symm) l hl
    have hstored : gone.map (fun l => storedLine (redact l)) = gone.map storedLine :=
      List.map_congr_left (fun l hl => by rw [hplain l hl])
    rw [hstored] at hkept
    have hsizes := totalSize_of_kept hkept
    rw [List.length_map] at hsizes
    refine ⟨fun l hl hsecret => ?_, hsizes⟩
    have hlt := length_redact_lt hsecret
    rw [hplain l hl] at hlt
    exact absurd hlt (Nat.lt_irrefl _)
  · rintro ⟨hplain, hfits, hroom⟩
    have hstored : gone.map (fun l => storedLine (redact l)) = gone.map storedLine :=
      List.map_congr_left (fun l hl => by rw [redact_eq_self (hplain l hl)])
    rw [hstored] at hkept ⊢
    have hmap : gone.map storedLine ≠ [] := fun h => hne (List.map_eq_nil_iff.1 h)
    rw [kept_unique hkept (kept_overflow hmap (by rwa [List.length_map]) hroom), mapM_lineOf_storedLine]

theorem load_transcript (transcript : Option (List Entry)) : load (transcript.map write) = some (transcript.getD []) := by
  cases transcript with
  | none => rfl
  | some old => exact load_write old

/-- **What comes back is what was appended** exactly when the store gives the spilled lines back. -/
theorem intact_iff_read (py : Str) (maxLines : Capacity) (transcript : Option (List Entry)) (lines : List Text) :
    Intact py maxLines transcript lines ↔
      (if overflow maxLines lines = [] then transcript.getD [] else rotate 1000000
        (transcript.getD [] ++ (overflow maxLines lines).map fun l => storedLine (redact l))).mapM
          (ScrollbackBuffer.lineOf py) = some (overflow maxLines lines) := by
  have hload : load (ScrollbackBuffer.init maxLines transcript).spill.file = some (transcript.getD []) :=
    load_transcript transcript
  have hinit : (ScrollbackBuffer.init maxLines transcript).Holds py (ScrollbackBuffer.init maxLines transcript).spill
      maxLines [] [] :=
    ⟨rfl, rfl, rfl, Nat.zero_le _, fun h => absurd rfl h⟩
  obtain ⟨b, gone, hall, hb⟩ := hinit.appendAll hload lines
  obtain ⟨s, hs, -, hentries⟩ := RunArtifactStore.load_appendAll py (gone.map spillEntry) hload
  rw [hb.stored] at hs
  cases hs
  have hwhole := hb.whole
  rw [List.nil_append] at hwhole
  have hgone := hb.gone_eq
  rw [List.nil_append] at hgone
  -- the live lines are the rest of what was appended
  have hintact : Intact py maxLines transcript lines ↔ b.spilled py = some gone := by
    have hlines : b.allLines py = some lines ↔ b.spilled py = some gone := by
      rw [ScrollbackBuffer.allLines, Option.map_eq_some_iff]
      constructor
      · rintro ⟨read, hread, heq⟩
        rw [hread, List.append_cancel_right (heq.trans hwhole.symm)]
      · intro h
        exact ⟨gone, h, hwhole⟩
    constructor
    · rintro ⟨b', hb', hlines'⟩
      rw [hall] at hb'
      cases hb'
      exact hlines.1 hlines'
    · exact fun h => ⟨b, hall, hlines.2 h⟩
  have hmap : (gone.map spillEntry).map (redactEntry py) = gone.map (fun l => storedLine (redact l)) := by
    rw [List.map_map]
    exact List.map_congr_left (fun l _ => redactEntry_spillEntry py l)
  rw [hintact, ScrollbackBuffer.spilled, RunArtifactStore.entries, hentries, Option.bind_some, ← hgone, hmap]
  simp only [List.map_eq_nil_iff]
  rfl

/-- **The history is what was appended on exactly the histories the store keeps.** -/
theorem intact_iff (py : Str) (maxLines : Capacity) (transcript : Option (List Entry)) (lines : List Text) :
    Intact py maxLines transcript lines ↔ Keepable maxLines transcript lines := by
  rw [intact_iff_read, Keepable]
  by_cases hnil : overflow maxLines lines = []
  · rw [hnil, if_pos rfl, if_pos rfl]
    constructor
    · intro h
      exact List.length_eq_zero_iff.1 (length_of_mapM h).symm
    · intro h
      rw [h]
      rfl
  · rw [if_neg hnil, if_neg hnil]
    exact mapM_rotate_iff py hnil

/-- The first line is a key, and a second one does not fit beside it. -/
theorem key_altered : ¬ Intact ⟨fun | .str s => s | _ => [], fun _ => rfl⟩ ⟨1, Nat.le_refl 1⟩ none
    ["sk-ant-api03-0123456789".toList, "done".toList] := by
  rw [intact_iff_read, if_neg (by decide), mapM_rotate_iff _ (by decide)]
  rintro ⟨hplain, -⟩
  exact hplain "sk-ant-api03-0123456789".toList (by decide) (by decide +kernel)

end Tui
end DevHarness
