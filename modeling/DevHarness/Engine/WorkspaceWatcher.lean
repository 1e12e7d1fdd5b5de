import DevHarness.Contracts
import DevHarness.Lib.Dict
import DevHarness.Lib.MapDiff
import Mathlib.Data.Finset.Dedup
import Mathlib.Data.List.Sort
import Mathlib.Data.String.Basic
/-!
# WorkspaceWatcher — the changes a polled workspace reports (`engine/workspace_watcher.py`)

A scan fingerprints the files it can read, diffs them against the scan before and numbers one envelope for each change,
those of the files first and then the one of the git state.  The first scan only takes the baseline, and a scan whose git
read raises changes nothing.
-/
namespace DevHarness
namespace Engine

open Lib (Dict KeyChange Describes changeAt)

/-! ## Scanning the files -/

/-- What `rglob` yields: the parts of the relative path, whether it is a file, and its bytes if they can be read. -/
structure Entry where
  parts : List String
  isFile : Bool
  bytes : Option (List UInt8)

def excludedDirs : List String := [".git", ".dev-harness", "__pycache__", ".mypy_cache", ".ruff_cache"]

def Entry.rel (e : Entry) : String := String.intercalate "/" e.parts

/-- The bytes a scan takes of an entry; `none` is each `continue` of its loop. -/
def Entry.data (e : Entry) : Option (List UInt8) :=
  if e.isFile = true ∧ ∀ part ∈ e.parts, part ∉ excludedDirs then e.bytes else none

/-- The size and the content digest. -/
abbrev Fingerprint := ℕ × String

section Scanning
variable (sha256 : List UInt8 → String)

def fingerprint (data : List UInt8) : Fingerprint := (data.length, sha256 data)

def see {V : Type} (f : List UInt8 → V) (seen : Dict String V) (e : Entry) : Dict String V :=
  match e.data with
  | some data => seen.set e.rel (f data)
  | none => seen

/-- `_scan_files`; no entries at all where the workspace does not exist. -/
def scanFiles (workspace : Option (List Entry)) : Dict String Fingerprint :=
  match workspace with
  | none => Dict.empty
  | some entries => entries.foldl (see (fingerprint sha256)) Dict.empty

/-- The contents a scan sees: the bytes of every watched file, by its path. -/
def contents (workspace : Option (List Entry)) : Dict String (List UInt8) :=
  match workspace with
  | none => Dict.empty
  | some entries => entries.foldl (see id) Dict.empty

theorem mapValues_foldl_see {V : Type} (f : List UInt8 → V) : ∀ (entries : List Entry) (seen : Dict String (List UInt8)),
    entries.foldl (see f) (seen.mapValues f) = (entries.foldl (see id) seen).mapValues f
  | [], _ => rfl
  | e :: entries, seen => by
    have hsee : see f (seen.mapValues f) e = (see id seen e).mapValues f := by
      unfold see
      cases e.data with
      | none => rfl
      | some data => exact (Dict.mapValues_set seen f e.rel data).symm
    rw [List.foldl_cons, List.foldl_cons, hsee, mapValues_foldl_see f entries]

/-- **A scan fingerprints the contents it sees**, no more and no less. -/
theorem scanFiles_eq (workspace : Option (List Entry)) :
    scanFiles sha256 workspace = (contents workspace).mapValues (fingerprint sha256) := by
  cases workspace with
  | none => rfl
  | some entries => exact mapValues_foldl_see (fingerprint sha256) entries Dict.empty

theorem get?_scanFiles (workspace : Option (List Entry)) (rel : String) :
    (scanFiles sha256 workspace).get? rel = ((contents workspace).get? rel).map (fingerprint sha256) := by
  rw [scanFiles_eq, Dict.get?_mapValues]

end Scanning

/-! ## The diff -/

abbrev ChangeType := KeyChange

def ChangeType.value : ChangeType → String
  | .modified => "modified"
  | .created => "created"
  | .deleted => "deleted"

/-- The order of the tuples `(rel, change_type)`. -/
def tupleLe (a b : String × ChangeType) : Prop := a.1 < b.1 ∨ (a.1 = b.1 ∧ ChangeType.value a.2 ≤ ChangeType.value b.2)

instance : DecidableRel tupleLe := fun _ _ => inferInstanceAs (Decidable (_ ∨ _))

section Diff
variable {φ : Type} [DecidableEq φ]

/-- The loop over the current items: created, modified or neither. -/
def seenChange (previous : Dict String φ) (item : String × φ) : Option (String × ChangeType) :=
  match previous.get? item.1 with
  | none => some (item.1, .created)
  | some old => if old ≠ item.2 then some (item.1, .modified) else none

/-- The loop over the previous paths. -/
def goneChanges (previous current : Dict String φ) : List (String × ChangeType) :=
  (previous.keys.filter (fun rel => rel ∉ current.keys)).map (fun rel => (rel, KeyChange.deleted))

/-- `_file_changes`. -/
def fileChanges (previous current : Dict String φ) : List (String × ChangeType) :=
  (current.items.filterMap (seenChange previous) ++ goneChanges previous current).insertionSort tupleLe

theorem seenChange_eq_some_iff {previous : Dict String φ} {item : String × φ} {rel : String} {c : ChangeType} :
    seenChange previous item = some (rel, c) ↔
      item.1 = rel ∧ changeAt (previous.get? rel) (some item.2) = some c := by
  unfold seenChange
  constructor
  · intro h
    cases hp : previous.get? item.1 with
    | none =>
      rw [hp] at h
      cases h
      rw [hp]
      exact ⟨rfl, rfl⟩
    | some old =>
      rw [hp] at h
      dsimp only at h
      split at h
      · rename_i hne
        cases h
        rw [hp, changeAt, if_neg hne]
        exact ⟨rfl, rfl⟩
      · cases h
  · rintro ⟨rfl, h⟩
    cases hp : previous.get? item.1 with
    | none =>
      rw [hp] at h
      cases h
      rfl
    | some old =>
      rw [hp, changeAt] at h
      dsimp only
      split at h
      · cases h
      · rename_i hne
        cases h
        rw [if_pos hne]

theorem keys_seenChange_sublist (previous : Dict String φ) : ∀ (items : List (String × φ)),
    ((items.filterMap (seenChange previous)).map Prod.fst).Sublist (items.map Prod.fst)
  | [] => List.Sublist.refl _
  | item :: items => by
    have ih := keys_seenChange_sublist previous items
    cases h : seenChange previous item with
    | none =>
      rw [List.filterMap_cons_none h, List.map_cons]
      exact ih.cons item.1
    | some p =>
      rw [List.filterMap_cons_some h, List.map_cons, List.map_cons, ← (seenChange_eq_some_iff.1 h).1]
      exact ih.cons_cons item.1

theorem mem_seenChanges_iff {previous current : Dict String φ} {rel : String} {c : ChangeType} :
    (rel, c) ∈ current.items.filterMap (seenChange previous) ↔
      ∃ v, current.get? rel = some v ∧ changeAt (previous.get? rel) (some v) = some c := by
  rw [List.mem_filterMap]
  constructor
  · rintro ⟨⟨rel', v⟩, hitem, hseen⟩
    obtain ⟨rfl, hchange⟩ := seenChange_eq_some_iff.1 hseen
    exact ⟨v, (current.get?_eq_some_iff _ _).2 hitem, hchange⟩
  · rintro ⟨v, hv, hchange⟩
    exact ⟨(rel, v), (current.get?_eq_some_iff rel v).1 hv, seenChange_eq_some_iff.2 ⟨rfl, hchange⟩⟩

omit [DecidableEq φ] in
theorem get?_eq_none_iff {d : Dict String φ} {rel : String} : d.get? rel = none ↔ rel ∉ d.keys := by
  rw [d.mem_keys_iff, Option.eq_none_iff_forall_ne_some, not_exists]

omit [DecidableEq φ] in
theorem mem_goneChanges_iff {previous current : Dict String φ} {rel : String} {c : ChangeType} :
    (rel, c) ∈ goneChanges previous current ↔
      c = .deleted ∧ (∃ v, previous.get? rel = some v) ∧ current.get? rel = none := by
  unfold goneChanges
  rw [List.mem_map, ← previous.mem_keys_iff, get?_eq_none_iff]
  constructor
  · rintro ⟨rel', hrel', he⟩
    obtain ⟨rfl, rfl⟩ := Prod.mk.inj he
    obtain ⟨hprev, hcur⟩ := List.mem_filter.1 hrel'
    exact ⟨rfl, hprev, by simpa using hcur⟩
  · rintro ⟨rfl, hprev, hcur⟩
    exact ⟨rel, List.mem_filter.2 ⟨hprev, by simpa using hcur⟩, rfl⟩

/-- No path is named twice: the first loop goes over the paths that are there, the second over those that are not. -/
theorem nodup_changes (previous current : Dict String φ) :
    ((current.items.filterMap (seenChange previous) ++ goneChanges previous current).map Prod.fst).Nodup := by
  have hsub := keys_seenChange_sublist previous current.items
  have hgone : (goneChanges previous current).map Prod.fst = previous.keys.filter (fun rel => rel ∉ current.keys) := by
    rw [goneChanges, List.map_map]
    exact List.map_id _
  rw [List.map_append, hgone]
  refine List.Nodup.append (current.nodup.sublist hsub) (previous.nodup.filter _) ?_
  intro rel hseen hfilter
  have hnot : rel ∉ current.keys := by simpa using (List.mem_filter.1 hfilter).2
  exact hnot (hsub.subset hseen)

/-- **The diff describes the step from one scan to the next.** -/
theorem describes_fileChanges (previous current : Dict String φ) :
    Describes previous.get? current.get? (fileChanges previous current) := by
  refine Describes.of_perm ⟨nodup_changes previous current, fun rel c => ?_⟩ (List.perm_insertionSort tupleLe _)
  rw [List.mem_append, mem_seenChanges_iff, mem_goneChanges_iff]
  cases hcur : current.get? rel with
  | some v => simp
  | none =>
    cases hprev : previous.get? rel with
    | none => simp [changeAt]
    | some old => simp [changeAt, eq_comm]

end Diff

/-! ## Emission -/

inductive WatchPayload where
  | fileChange (path : String) (changeType : ChangeType)
  | gitStatusUpdate (branch : String) (dirtyCount : ℤ)
  deriving DecidableEq

def WatchPayload.type : WatchPayload → EventType
  | .fileChange _ _ => .fileChange
  | .gitStatusUpdate _ _ => .gitStatusUpdate

structure WorkspaceWatcher where
  seq : ℕ := 0
  fingerprints : Dict String Fingerprint := Dict.empty
  branch : Option String := none
  dirtyCount : Option ℤ := none
  primed : Bool := false
  -- what `publish` was called with so far
  published : List (Envelope WatchPayload) := []

namespace WorkspaceWatcher

/-- `_envelope`, with a `publish` that does not raise. -/
def envelope (w : WorkspaceWatcher) (payload : WatchPayload) : Envelope WatchPayload × WorkspaceWatcher :=
  let envelope : Envelope WatchPayload := ⟨payload.type, w.seq, payload⟩
  (envelope, { w with seq := w.seq + 1, published := w.published ++ [envelope] })

/-- `_envelope` on each payload in turn. -/
def envelopes : List WatchPayload → WorkspaceWatcher → List (Envelope WatchPayload) × WorkspaceWatcher
  | [], w => ([], w)
  | payload :: payloads, w =>
    let sent := w.envelope payload
    let rest := envelopes payloads sent.2
    (sent.1 :: rest.1, rest.2)

end WorkspaceWatcher

/-- What a scan reads: the files below the workspace, and `(branch, uncommitted_count)` unless git raises. -/
structure Scan where
  workspace : Option (List Entry)
  gitState : Option (String × ℤ)

namespace WorkspaceWatcher

variable (sha256 : List UInt8 → String)

def emitChanges (w : WorkspaceWatcher) (current : Dict String Fingerprint) (branch : String) (dirtyCount : ℤ) :
    List (Envelope WatchPayload) × WorkspaceWatcher :=
  let files := envelopes ((fileChanges w.fingerprints current).map (fun c => .fileChange c.1 c.2)) w
  if some branch ≠ w.branch ∨ some dirtyCount ≠ w.dirtyCount then
    let git := files.2.envelope (.gitStatusUpdate branch dirtyCount)
    (files.1 ++ [git.1], git.2)
  else files

/-- `scan_once`: the envelopes it returns, or `none` where it raises. -/
def scanOnce (w : WorkspaceWatcher) (scan : Scan) : Option (List (Envelope WatchPayload)) × WorkspaceWatcher :=
  let current := scanFiles sha256 scan.workspace
  match scan.gitState with
  | none => (none, w)
  | some (branch, dirtyCount) =>
    let emitted := if w.primed = true then w.emitChanges current branch dirtyCount else ([], w)
    (some emitted.1, { emitted.2 with
      fingerprints := current
      branch := some branch
      dirtyCount := some dirtyCount
      primed := true })

/-- A watcher after some scans. -/
def after (scans : List Scan) : WorkspaceWatcher := scans.foldl (fun w scan => (w.scanOnce sha256 scan).2) {}

/-- The envelopes that number some payloads from `n` on. -/
def numbered : ℕ → List WatchPayload → List (Envelope WatchPayload)
  | _, [] => []
  | n, payload :: payloads => ⟨payload.type, n, payload⟩ :: numbered (n + 1) payloads

theorem numbered_append : ∀ (payloads payloads' : List WatchPayload) (n : ℕ),
    numbered n (payloads ++ payloads') = numbered n payloads ++ numbered (n + payloads.length) payloads'
  | [], _, _ => rfl
  | payload :: payloads, payloads', n => by
    rw [List.cons_append, numbered, numbered, numbered_append payloads payloads' (n + 1), List.length_cons,
      Nat.add_assoc, Nat.add_comm 1]
    rfl

/-- **Emitting numbers the payloads** from the watcher's own number on, and publishes what it returns. -/
theorem envelopes_eq : ∀ (payloads : List WatchPayload) (w : WorkspaceWatcher),
    envelopes payloads w = (numbered w.seq payloads,
      { w with seq := w.seq + payloads.length, published := w.published ++ numbered w.seq payloads })
  | [], w => by simp [envelopes, numbered]
  | payload :: payloads, w => by
    rw [envelopes, envelopes_eq payloads (w.envelope payload).2]
    simp only [envelope, numbered, List.length_cons, List.append_assoc, List.singleton_append]
    rw [Nat.add_assoc, Nat.add_comm 1]

/-- The payloads of one scan, the file changes first. -/
def payloads (w : WorkspaceWatcher) (current : Dict String Fingerprint) (branch : String) (dirtyCount : ℤ) :
    List WatchPayload :=
  if w.primed = true then
    (fileChanges w.fingerprints current).map (fun c => .fileChange c.1 c.2) ++
      if some branch ≠ w.branch ∨ some dirtyCount ≠ w.dirtyCount then [.gitStatusUpdate branch dirtyCount] else []
  else []

/-- **What a scan does**: number its payloads, publish and return them, and take the new baseline. -/
theorem scanOnce_eq (w : WorkspaceWatcher) (workspace : Option (List Entry)) (branch : String) (dirtyCount : ℤ) :
    w.scanOnce sha256 ⟨workspace, some (branch, dirtyCount)⟩ =
      (some (numbered w.seq (w.payloads (scanFiles sha256 workspace) branch dirtyCount)),
        ⟨w.seq + (w.payloads (scanFiles sha256 workspace) branch dirtyCount).length, scanFiles sha256 workspace,
          some branch, some dirtyCount, true,
          w.published ++ numbered w.seq (w.payloads (scanFiles sha256 workspace) branch dirtyCount)⟩) := by
  unfold scanOnce payloads
  dsimp only
  by_cases hp : w.primed = true
  · rw [if_pos hp, if_pos hp, emitChanges, envelopes_eq]
    dsimp only
    by_cases hgit : some branch ≠ w.branch ∨ some dirtyCount ≠ w.dirtyCount
    · rw [if_pos hgit, if_pos hgit, numbered_append]
      simp [envelope, numbered, Nat.add_assoc]
    · rw [if_neg hgit, if_neg hgit, List.append_nil]
  · rw [if_neg hp, if_neg hp]
    simp [numbered]

/-! ## Runs -/

/-- The last scan of a run that did not raise. -/
def lastSeen (scans : List Scan) : Option Scan :=
  scans.foldl (fun previous scan => if scan.gitState.isSome = true then some scan else previous) none

/-- The change a FILE_CHANGE envelope tells. -/
def fileEvent (e : Envelope WatchPayload) : Option (String × ChangeType) :=
  match e.type, e.payload with
  | .fileChange, .fileChange path changeType => some (path, changeType)
  | _, _ => none

/-- An event, folded over a set of paths. -/
def foldEvent (paths : Finset String) (e : Envelope WatchPayload) : Finset String :=
  match fileEvent e with
  | some change => Lib.replay paths change
  | none => paths

def paths (workspace : Option (List Entry)) : Finset String := (contents workspace).keys.toFinset

/-- Size and digest tell apart the two contents of every path that is in both scans. -/
def ToldApart (previous scan : Scan) : Prop :=
  ∀ rel, ∀ a ∈ (contents previous.workspace).get? rel, ∀ b ∈ (contents scan.workspace).get? rel,
    fingerprint sha256 a = fingerprint sha256 b → a = b

/-- **The events of a scan tell its changes**: none on the first scan; after that one FILE_CHANGE for each path whose
fingerprint came, went or is another, which is each path whose content did if they are told apart; and, folded over
the paths of the scan before, they give the paths of this one. -/
def Reports (previous : Option Scan) (scan : Scan) (events : List (Envelope WatchPayload)) : Prop :=
  match previous with
  | none => events = []
  | some previous =>
    Describes (scanFiles sha256 previous.workspace).get? (scanFiles sha256 scan.workspace).get?
      (events.filterMap fileEvent) ∧
    (ToldApart sha256 previous scan →
      Describes (contents previous.workspace).get? (contents scan.workspace).get? (events.filterMap fileEvent)) ∧
    events.foldl foldEvent (paths previous.workspace) = paths scan.workspace

/-- **A scan as it should be**, at a watcher whose last scan was `previous`: it reports, and publishes what it returns;
where git raises it leaves the watcher alone. -/
def ScanReports (w : WorkspaceWatcher) (previous : Option Scan) (scan : Scan) : Prop :=
  match scan.gitState with
  | none => w.scanOnce sha256 scan = (none, w)
  | some _ => ∃ events w', w.scanOnce sha256 scan = (some events, w') ∧ w'.published = w.published ++ events ∧
      Reports sha256 previous scan events

/-- The numbers `0, 1, …` up to `n`. -/
def numbersBelow (n : ℕ) : List ℤ := (List.range n).map (fun i : ℕ => (i : ℤ))

/-- **What a watcher keeps**: the fingerprints of its last scan, and all published numbered from 0 without a gap. -/
structure Watching (scans : List Scan) (w : WorkspaceWatcher) : Prop where
  primed : w.primed = (lastSeen scans).isSome
  baseline : ∀ previous ∈ lastSeen scans, w.fingerprints = scanFiles sha256 previous.workspace
  seq : w.published.length = w.seq
  numbers : w.published.map Envelope.seq = numbersBelow w.seq

theorem length_numbered : ∀ (payloads : List WatchPayload) (n : ℕ), (numbered n payloads).length = payloads.length
  | [], _ => rfl
  | payload :: payloads, n => by rw [numbered, List.length_cons, List.length_cons, length_numbered payloads (n + 1)]

theorem numbersBelow_succ (n : ℕ) : numbersBelow (n + 1) = numbersBelow n ++ [(n : ℤ)] := by
  rw [numbersBelow, List.range_succ, List.map_append]
  rfl

/-- Numbered payloads carry on where the numbers below `n` stop. -/
theorem numbersBelow_add : ∀ (payloads : List WatchPayload) (n : ℕ),
    numbersBelow n ++ (numbered n payloads).map Envelope.seq = numbersBelow (n + payloads.length)
  | [], n => by simp [numbered]
  | payload :: payloads, n => by
    have ih := numbersBelow_add payloads (n + 1)
    rw [numbersBelow_succ, List.append_assoc] at ih
    rw [List.length_cons, ← Nat.add_assoc, Nat.add_right_comm, ← ih]
    rfl

theorem lastSeen_snoc (scans : List Scan) (scan : Scan) :
    lastSeen (scans ++ [scan]) = if scan.gitState.isSome = true then some scan else lastSeen scans := by
  rw [lastSeen, List.foldl_append]
  rfl

theorem after_snoc (scans : List Scan) (scan : Scan) :
    after sha256 (scans ++ [scan]) = ((after sha256 scans).scanOnce sha256 scan).2 := by
  rw [after, List.foldl_append]
  rfl

variable {sha256}

/-- **A scan keeps the watching.** -/
theorem Watching.scan {scans : List Scan} {w : WorkspaceWatcher} (h : Watching sha256 scans w) (scan : Scan) :
    Watching sha256 (scans ++ [scan]) (w.scanOnce sha256 scan).2 := by
  obtain ⟨workspace, gitState⟩ := scan
  cases gitState with
  | none =>
    have hlast : lastSeen (scans ++ [⟨workspace, none⟩]) = lastSeen scans := lastSeen_snoc _ _
    exact ⟨by rw [hlast]; exact h.primed, by rw [hlast]; exact h.baseline, h.seq, h.numbers⟩
  | some git =>
    obtain ⟨branch, dirtyCount⟩ := git
    have hlast : lastSeen (scans ++ [⟨workspace, some (branch, dirtyCount)⟩]) =
      some ⟨workspace, some (branch, dirtyCount)⟩ := lastSeen_snoc _ _
    rw [scanOnce_eq]
    refine ⟨by rw [hlast]; rfl, fun previous hprev => ?_, ?_, ?_⟩
    · rw [hlast] at hprev
      cases hprev
      rfl
    · dsimp only
      rw [List.length_append, length_numbered, h.seq]
    · dsimp only
      rw [List.map_append, h.numbers, numbersBelow_add]

theorem watching_after (scans : List Scan) : Watching sha256 scans (after sha256 scans) := by
  induction scans using List.reverseRecOn with
  | nil => exact ⟨rfl, nofun, rfl, rfl⟩
  | append_singleton scans scan ih =>
    rw [after_snoc]
    exact ih.scan scan

/-- The file events of a scan are the changes found, whatever happened to the git state. -/
theorem filterMap_fileEvent_numbered : ∀ (payloads : List WatchPayload) (n : ℕ),
    (numbered n payloads).filterMap fileEvent = payloads.filterMap (fun payload => fileEvent ⟨payload.type, 0, payload⟩)
  | [], _ => rfl
  | payload :: payloads, n => by
    have ih := filterMap_fileEvent_numbered payloads (n + 1)
    rw [numbered, List.filterMap_cons, List.filterMap_cons, ih]
    rfl

theorem fileEvents_payloads {w : WorkspaceWatcher} (hp : w.primed = true) (current : Dict String Fingerprint)
    (branch : String) (dirtyCount : ℤ) (n : ℕ) :
    (numbered n (w.payloads current branch dirtyCount)).filterMap fileEvent = fileChanges w.fingerprints current := by
  have hgit : (if some branch ≠ w.branch ∨ some dirtyCount ≠ w.dirtyCount then
      [WatchPayload.gitStatusUpdate branch dirtyCount] else []).filterMap
        (fun payload => fileEvent ⟨payload.type, 0, payload⟩) = [] := by
    split <;> rfl
  rw [filterMap_fileEvent_numbered, payloads, if_pos hp, List.filterMap_append, hgit, List.append_nil,
    List.filterMap_map]
  exact List.filterMap_some

theorem foldl_foldEvent (events : List (Envelope WatchPayload)) (keys : Finset String) :
    events.foldl foldEvent keys = (events.filterMap fileEvent).foldl Lib.replay keys := by
  rw [List.foldl_filterMap]
  congr 1
  funext paths e
  unfold foldEvent
  cases fileEvent e <;> rfl

theorem mem_paths_iff {workspace : Option (List Entry)} {rel : String} :
    rel ∈ paths workspace ↔ ((scanFiles sha256 workspace).get? rel).isSome = true := by
  rw [paths, List.mem_toFinset, Dict.mem_keys_iff, get?_scanFiles, Option.isSome_map, Option.isSome_iff_exists]

theorem ToldApart.changeAt_eq {previous scan : Scan} (h : ToldApart sha256 previous scan) (rel : String) :
    changeAt ((contents previous.workspace).get? rel) ((contents scan.workspace).get? rel) =
      changeAt ((scanFiles sha256 previous.workspace).get? rel) ((scanFiles sha256 scan.workspace).get? rel) := by
  rw [get?_scanFiles, get?_scanFiles]
  exact (Lib.changeAt_map (h rel)).symm

/-- **At a watcher that watches, a scan reports.** -/
theorem Watching.scanReports {scans : List Scan} {w : WorkspaceWatcher} (h : Watching sha256 scans w) (scan : Scan) :
    ScanReports sha256 w (lastSeen scans) scan := by
  obtain ⟨workspace, gitState⟩ := scan
  cases gitState with
  | none => rfl
  | some git =>
    obtain ⟨branch, dirtyCount⟩ := git
    refine ⟨_, _, scanOnce_eq sha256 w workspace branch dirtyCount, rfl, ?_⟩
    have hprimed := h.primed
    cases hlast : lastSeen scans with
    | none =>
      rw [hlast] at hprimed
      rw [payloads, if_neg (by rw [hprimed]; exact nofun)]
      rfl
    | some previous =>
      rw [hlast] at hprimed
      have hfiles := fileEvents_payloads hprimed (scanFiles sha256 workspace) branch dirtyCount w.seq
      rw [h.baseline previous hlast] at hfiles
      have hdesc := describes_fileChanges (scanFiles sha256 previous.workspace) (scanFiles sha256 workspace)
      rw [← hfiles] at hdesc
      refine ⟨hdesc, fun hapart => hdesc.congr hapart.changeAt_eq, ?_⟩
      rw [foldl_foldEvent]
      exact hdesc.foldl_replay (fun _ => mem_paths_iff) (fun _ => mem_paths_iff)

/-- **Every run of scans reports.**  Whatever the scans see, each of them, after those before it, reports what changed
since the last one that did not raise, and all the envelopes of the run are numbered 0, 1, 2 and so on. -/
theorem scans_report (sha256 : List UInt8 → String) (scans : List Scan) :
    (∀ pre scan post, scans = pre ++ scan :: post →
      ScanReports sha256 (after sha256 pre) (lastSeen pre) scan) ∧
    (after sha256 scans).published.map Envelope.seq = numbersBelow (after sha256 scans).published.length := by
  have hwatching : Watching sha256 scans (after sha256 scans) := watching_after scans
  refine ⟨fun pre scan post _ => (watching_after pre).scanReports scan, ?_⟩
  rw [hwatching.seq]
  exact hwatching.numbers

/-- Two scans: `a.py` is emptied, `b.py` goes and `c.py` comes, below a cache that is not watched. -/
def before : Scan := ⟨some [⟨["a.py"], true, some [120]⟩, ⟨["b.py"], true, some []⟩], some ("main", 0)⟩

def now : Scan where
  workspace := some [⟨["a.py"], true, some []⟩, ⟨["c.py"], true, some [120]⟩, ⟨["__pycache__"], false, none⟩,
    ⟨["__pycache__", "a.pyc"], true, some [120]⟩]
  gitState := some ("main", 2)

/-- SHA-256 on the contents above. -/
def digest (data : List UInt8) : String :=
  if data = [] then "e3b0c44298fc1c149afbf4c8996fb92427ae41e4649b934ca495991b7852b855"
  else "2d711642b726b04401627ca9fbac32f5c8530fb1903cc4db02258717921a4881"

theorem scans_report_before_now :
    (after digest [before, now]).published.map (fun e => (e.seq, e.payload)) =
      [(0, .fileChange "a.py" .modified), (1, .fileChange "b.py" .deleted), (2, .fileChange "c.py" .created),
        (3, .gitStatusUpdate "main" 2)] ∧
    ScanReports digest (after digest [before]) (some before) now :=
  ⟨by decide +kernel, (scans_report digest [before, now]).1 [before] now [] rfl⟩

end WorkspaceWatcher

end Engine
end DevHarness
