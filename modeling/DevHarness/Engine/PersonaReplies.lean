import DevHarness.Lib.JsonText
import DevHarness.Lib.Dict
/-!
# PersonaReplies — a reply unwrapped and parsed (`engine/nodes/developer.py`, `engine/nodes/critic.py`)

The developer's reply is a JSON write map, bare or inside one markdown fence.  Unwrapping a fence goes over the lines of
the reply and joins them again, so the body comes out as it went in exactly when the newline is its only line boundary
(`stripFences_fenced_iff`); what `json.dumps` writes has none at all, so a written map is read back either way.
-/
namespace DevHarness
namespace Engine

open Lib (Text Dict)
open Lib.Text (isSpace isLineBreak splitlines linesFrom strip join Unbroken)
open Lib.JsonText (Value loads dumps)

/-! ## Fences -/

def fence : Text := "```".toList

/-- `_strip_fences`, the developer's and the critic's. -/
def stripFences (text : Text) : Text :=
  let stripped := strip text
  if fence.isPrefixOf stripped = false then stripped
  else
    -- without the opening ``` or ```json line
    let lines := (splitlines stripped).tail
    join ['\n'] (if lines.getLast?.any (fun l => strip l = fence) = true then lines.dropLast else lines)

/-- A body inside a fence, as a reply has it. -/
def fenced (info body : Text) : Text := fence ++ info ++ '\n' :: (body ++ '\n' :: fence)

theorem strip_fenced (info body : Text) : strip (fenced info body) = fenced info body := by
  have hopen : fenced info body = Char.ofNat 96 :: (fence.tail ++ info ++ '\n' :: (body ++ '\n' :: fence)) := rfl
  have hclose : fenced info body = fence ++ info ++ '\n' :: (body ++ '\n' :: fence.tail) ++ [Char.ofNat 96] := by
    simp [fenced, fence]
  exact Lib.Text.strip_eq_self hopen hclose (by decide) (by decide)

theorem splitlines_fenced {info : Text} (hinfo : Unbroken info) (body : Text) :
    splitlines (fenced info body) = (fence ++ info) :: linesFrom [] (body ++ '\n' :: fence) := by
  have hopen : Unbroken (fence ++ info) := Unbroken.append (by decide) hinfo
  rw [splitlines, fenced, Lib.Text.linesFrom_append hopen, List.nil_append, Lib.Text.linesFrom_newline]

/-- **A fenced reply** is the lines between its fences, joined by newlines. -/
theorem stripFences_fenced {before after info : Text} (hbefore : ∀ c ∈ before, isSpace c = true)
    (hafter : ∀ c ∈ after, isSpace c = true) (hinfo : Unbroken info) {body : Text} {lines : List Text}
    (hlines : linesFrom [] (body ++ '\n' :: fence) = lines ++ [fence]) :
    stripFences (before ++ fenced info body ++ after) = join ['\n'] lines := by
  have hfence : fence.isPrefixOf (fenced info body) = true := by simp [fenced, fence]
  unfold stripFences
  dsimp only
  rw [Lib.Text.strip_padded hbefore hafter, strip_fenced, hfence, if_neg (by decide), splitlines_fenced hinfo,
    List.tail_cons, hlines, List.getLast?_concat, if_pos (by decide), List.dropLast_concat]

theorem exists_lines (body : Text) : ∃ lines, linesFrom [] (body ++ '\n' :: fence) = lines ++ [fence] :=
  Lib.Text.exists_linesFrom_append_newline [] body fence

theorem stripFences_of_newlines {before after info body : Text} (hbefore : ∀ c ∈ before, isSpace c = true)
    (hafter : ∀ c ∈ after, isSpace c = true) (hinfo : Unbroken info)
    (h : ∀ c ∈ body, isLineBreak c = true → c = '\n') : stripFences (before ++ fenced info body ++ after) = body := by
  have hall := Lib.Text.linesFrom_append_newline h [] fence (fun c hc => by cases hc)
  rw [List.nil_append, show linesFrom [] fence = [fence] by decide] at hall
  rw [stripFences_fenced hbefore hafter hinfo hall]
  exact List.intercalate_splitOn '\n'

/-- What comes out of a fence has no line boundary but newlines. -/
theorem eq_newline_of_mem_stripFences {before after info : Text} (hbefore : ∀ c ∈ before, isSpace c = true)
    (hafter : ∀ c ∈ after, isSpace c = true) (hinfo : Unbroken info) (body : Text) :
    ∀ c ∈ stripFences (before ++ fenced info body ++ after), isLineBreak c = true → c = '\n' := by
  obtain ⟨lines, hlines⟩ := exists_lines body
  rw [stripFences_fenced hbefore hafter hinfo hlines]
  refine Lib.Text.eq_newline_of_mem_join (fun l hl => ?_)
  have hl' : l ∈ splitlines (body ++ '\n' :: fence) := by
    rw [splitlines, hlines]
    exact List.mem_append_left _ hl
  exact Lib.Text.unbroken_of_mem_splitlines hl'

/-- What is no line boundary comes out of a fence. -/
theorem filter_stripFences {before after info : Text} (hbefore : ∀ c ∈ before, isSpace c = true)
    (hafter : ∀ c ∈ after, isSpace c = true) (hinfo : Unbroken info) (body : Text) :
    (stripFences (before ++ fenced info body ++ after)).filter (fun c => !isLineBreak c) =
      body.filter (fun c => !isLineBreak c) := by
  obtain ⟨lines, hlines⟩ := exists_lines body
  have hchars := Lib.Text.filter_flatten_linesFrom [] (body ++ '\n' :: fence)
  rw [hlines, List.nil_append, List.flatten_append, List.filter_append, List.filter_append] at hchars
  rw [stripFences_fenced hbefore hafter hinfo hlines, Lib.Text.filter_join]
  exact List.append_cancel_right hchars

/-- **A body comes out of its fence as it went in exactly when** the newline is the only line boundary in it: any other is
replaced by a newline or lost, and the rest of the body comes out. -/
theorem stripFences_fenced_iff (before after info body : Text) (hbefore : ∀ c ∈ before, isSpace c = true)
    (hafter : ∀ c ∈ after, isSpace c = true) (hinfo : Unbroken info) :
    (stripFences (before ++ fenced info body ++ after) = body ↔ ∀ c ∈ body, isLineBreak c = true → c = '\n') ∧
    (∀ c ∈ stripFences (before ++ fenced info body ++ after), isLineBreak c = true → c = '\n') ∧
    (stripFences (before ++ fenced info body ++ after)).filter (fun c => !isLineBreak c) =
      body.filter (fun c => !isLineBreak c) := by
  have hout := eq_newline_of_mem_stripFences hbefore hafter hinfo body
  refine ⟨⟨fun h => ?_, stripFences_of_newlines hbefore hafter hinfo⟩, hout, filter_stripFences hbefore hafter hinfo body⟩
  rw [h] at hout
  exact hout

theorem stripFences_fenced_twoLines :
    stripFences (['\n'] ++ fenced "json".toList ['{', '\n', '}'] ++ [' ']) = ['{', '\n', '}'] :=
  (stripFences_fenced_iff ['\n'] [' '] "json".toList ['{', '\n', '}'] (List.forall_mem_singleton.2 rfl)
    (List.forall_mem_singleton.2 rfl) (by decide)).1.2 (List.forall_mem_cons.2 ⟨fun h => absurd h (by decide),
      List.forall_mem_cons.2 ⟨fun _ => rfl, List.forall_mem_singleton.2 (fun h => absurd h (by decide))⟩⟩)

-- a line separator inside a fenced body is lost
example : stripFences (fenced "json".toList ['a', '\u2028', 'b']) = ['a', '\n', 'b'] := by decide

/-! ## Write maps -/

def asStr : Value → Option Text
  | .str s => some s
  | _ => none

/-- The message of the `PersonaOutputError`; `jsonError` is what `json` says of a text it refuses. -/
def parseFileWrites (jsonError : Text → Text) (text : Text) : Except Text (Dict Text Text) :=
  match loads (stripFences text) with
  | none => .error ("developer output is not a JSON file-write map: ".toList ++ jsonError (stripFences text))
  | some (.dict items) =>
    let data := Dict.ofList items
    if data.values.all (fun v => (asStr v).isSome) = true then .ok (data.mapValues (fun v => (asStr v).getD []))
    else .error "developer output must be a JSON object of relative_path -> content string pairs.".toList
  | some _ => .error "developer output must be a JSON object of relative_path -> content string pairs.".toList

/-- A write map as `json.dumps` writes it. -/
def written (writes : Dict Text Text) : Text := dumps (.dict (writes.mapValues Value.str).items)

theorem unbroken_written (writes : Dict Text Text) : Unbroken (written writes) := by
  intro c hc
  have hrange := Lib.JsonText.printable_dumps _ c hc
  simp only [isLineBreak, Bool.or_eq_false_iff, Bool.and_eq_false_iff, decide_eq_false_iff_not]
  omega

/-- A written map stands between braces, so it has no blank at its ends and is no fence. -/
theorem stripFences_written {before after : Text} (hbefore : ∀ c ∈ before, isSpace c = true)
    (hafter : ∀ c ∈ after, isSpace c = true) (writes : Dict Text Text) :
    stripFences (before ++ written writes ++ after) = written writes := by
  obtain ⟨body, hbody⟩ := Lib.JsonText.dumps_dict_braces (writes.mapValues Value.str).items
  have hopen : written writes = '{' :: (body ++ ['}']) := hbody
  have hstrip : strip (written writes) = written writes :=
    Lib.Text.strip_eq_self hopen (show written writes = '{' :: body ++ ['}'] from hbody) (by decide) (by decide)
  have hbare : fence.isPrefixOf (written writes) = false := by
    rw [written, hbody]
    rfl
  unfold stripFences
  dsimp only
  rw [Lib.Text.strip_padded hbefore hafter, hstrip, if_pos hbare]

theorem parse_of_unwrapped (jsonError : Text → Text) {text : Text} {writes : Dict Text Text}
    (h : stripFences text = written writes) : parseFileWrites jsonError text = .ok writes := by
  have hstr : (Dict.ofList (writes.mapValues Value.str).items).mapValues (fun v => (asStr v).getD []) = writes := by
    rw [Dict.ofList_items]
    simp [Dict.mapValues, asStr, Function.comp_def]
  have hall : (Dict.ofList (writes.mapValues Value.str).items).values.all (fun v => (asStr v).isSome) = true := by
    rw [Dict.ofList_items]
    simp [Dict.mapValues, Dict.values, asStr]
  rw [parseFileWrites, h, written, Lib.JsonText.loads_dumps_self]
  dsimp only
  rw [if_pos hall, hstr]

/-- **A write map that `json.dumps` wrote is read back**, bare or fenced, whatever its contents hold and whatever blanks
stand around it. -/
theorem parseFileWrites_written (jsonError : Text → Text) (writes : Dict Text Text) (before after info : Text)
    (hbefore : ∀ c ∈ before, isSpace c = true) (hafter : ∀ c ∈ after, isSpace c = true) (hinfo : Unbroken info) :
    parseFileWrites jsonError (before ++ written writes ++ after) = .ok writes ∧
    parseFileWrites jsonError (before ++ fenced info (written writes) ++ after) = .ok writes := by
  refine ⟨parse_of_unwrapped jsonError (stripFences_written hbefore hafter writes), parse_of_unwrapped jsonError ?_⟩
  refine stripFences_of_newlines hbefore hafter hinfo (fun c hc hbreak => ?_)
  rw [unbroken_written writes c hc] at hbreak
  cases hbreak

def oneWrite : Dict Text Text := ⟨[("a.md".toList, fence ++ ['\n', '\u2028', '"'])], by decide⟩

theorem parseFileWrites_written_oneWrite :
    parseFileWrites id (['\n'] ++ written oneWrite ++ [' ']) = .ok oneWrite ∧
    parseFileWrites id (['\n'] ++ fenced "json".toList (written oneWrite) ++ [' ']) = .ok oneWrite :=
  parseFileWrites_written id oneWrite ['\n'] [' '] "json".toList (List.forall_mem_singleton.2 rfl)
    (List.forall_mem_singleton.2 rfl) (by decide)

end Engine
end DevHarness
