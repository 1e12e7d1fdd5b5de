import DevHarness.Engine.WorkspaceWatcher
/-!
# RepoManager — the panel of the workspace's changes (`tui/panels/repo_manager.py`)

The panel keeps the last status and the last change of every path, and writes them into its table once it is mounted.
What the watcher publishes tells of every path whether the workspace has it (`telling_record`).  The
table has the two fixed rows and one row a path changed since the mount (`row_since_mount`), and the rows share their
keys: what the branch cell shows is the branch unless a file is called `branch` (`displayed_since_mount`).
-/
namespace DevHarness
namespace Tui

open Lib (Dict PresentBy)
open Engine (ChangeType WatchPayload WorkspaceWatcher Scan scanFiles)
open Engine.WorkspaceWatcher (numbered payloads paths mem_paths_iff after lastSeen lastSeen_snoc Watching watching_after
  scanOnce_eq)

/-- The keys of the fixed rows. -/
def branchRow : String := "branch"

def dirtyRow : String := "dirty"

/-- The panel; its table is there with the value column, and holds that column's cells by the key of their row. -/
structure RepoManager where
  isMounted : Bool := false
  table : Option (Dict String String) := none
  branch : String := ""
  dirtyCount : ℤ := 0
  changedPaths : Dict String ChangeType := Dict.empty
  deriving DecidableEq

namespace RepoManager

def ensureRow (rows : Dict String String) (key value : String) : Dict String String :=
  if (rows.get? key).isSome = true then rows else rows.set key value

/-- `_ensure_rows`: the rows of the table after it. -/
def ensureRows (p : RepoManager) : Dict String String :=
  ensureRow (ensureRow (p.table.getD Dict.empty) branchRow p.branch) dirtyRow (toString p.dirtyCount)

def onMount (p : RepoManager) : RepoManager := { p with table := some p.ensureRows }

/-- `on_file_change`; `update_cell` and `add_row` are one setting of the row. -/
def onFileChange (p : RepoManager) (path : String) (changeType : ChangeType) : RepoManager :=
  let p' := { p with changedPaths := p.changedPaths.set path changeType }
  if p.isMounted = true then { p' with table := some (p'.ensureRows.set path changeType.value) } else p'

def onGitStatus (p : RepoManager) (branch : String) (dirtyCount : ℤ) : RepoManager :=
  let p' := { p with branch, dirtyCount }
  if p.isMounted = true then
    { p' with table := some ((p'.ensureRows.set branchRow branch).set dirtyRow (toString dirtyCount)) }
  else p'

def rows (p : RepoManager) : Dict String String := p.table.getD Dict.empty

/-- Empty without the column or the row. -/
def displayedBranch (p : RepoManager) : String := (p.rows.get? branchRow).getD ""

def displayedDirtyCount (p : RepoManager) : String := (p.rows.get? dirtyRow).getD ""

end RepoManager

/-- What happens to a panel: the toolkit runs `on_mount` and sets `is_mounted`, and the events come at any time. -/
inductive PanelAct where
  | onMount
  | mounted
  | fileChange (path : String) (changeType : ChangeType)
  | gitStatus (branch : String) (dirtyCount : ℤ)
  deriving DecidableEq

namespace RepoManager

def act (p : RepoManager) : PanelAct → RepoManager
  | .onMount => p.onMount
  | .mounted => { p with isMounted := true }
  | .fileChange path changeType => p.onFileChange path changeType
  | .gitStatus branch dirtyCount => p.onGitStatus branch dirtyCount

def history (p : RepoManager) (acts : List PanelAct) : RepoManager := acts.foldl act p

theorem history_append (p : RepoManager) (acts acts' : List PanelAct) :
    p.history (acts ++ acts') = (p.history acts).history acts' := List.foldl_append

end RepoManager

/-- The change an act tells, and the status. -/
def PanelAct.change : PanelAct → Option (String × ChangeType)
  | .fileChange path changeType => some (path, changeType)
  | _ => none

def PanelAct.status : PanelAct → Option (String × ℤ)
  | .gitStatus branch dirtyCount => some (branch, dirtyCount)
  | _ => none

/-- The last change of a path, and the last status. -/
def lastChange (acts : List PanelAct) (path : String) : Option ChangeType :=
  ((acts.filterMap PanelAct.change).reverse.find? (fun p => p.1 = path)).map Prod.snd

def lastStatus (acts : List PanelAct) : Option (String × ℤ) := (acts.filterMap PanelAct.status).getLast?

/-- The text an act puts into the cell of a row, where it puts one. -/
def PanelAct.write (row : String) : PanelAct → Option String
  | .fileChange path changeType => if path = row then some changeType.value else none
  | .gitStatus branch dirtyCount =>
    if row = branchRow then some branch else if row = dirtyRow then some (toString dirtyCount) else none
  | _ => none

def lastWrite (acts : List PanelAct) (row : String) : Option String := (acts.filterMap (PanelAct.write row)).getLast?

/-! ## What the panel records -/

namespace RepoManager

theorem changedPaths_act (p : RepoManager) (a : PanelAct) : (p.act a).changedPaths =
    (a.change.toList).foldl (fun d c => d.set c.1 c.2) p.changedPaths := by
  cases a with
  | fileChange path changeType => simp only [act, onFileChange, PanelAct.change, Option.toList]; split <;> rfl
  | gitStatus branch dirtyCount => simp only [act, onGitStatus, PanelAct.change, Option.toList]; split <;> rfl
  | _ => rfl

theorem status_act (p : RepoManager) (a : PanelAct) :
    ((p.act a).branch, (p.act a).dirtyCount) = a.status.getD (p.branch, p.dirtyCount) := by
  cases a with
  | fileChange path changeType => simp only [act, onFileChange, PanelAct.status]; split <;> rfl
  | gitStatus branch dirtyCount => simp only [act, onGitStatus, PanelAct.status]; split <;> rfl
  | _ => rfl

theorem isMounted_act (p : RepoManager) (a : PanelAct) (h : p.isMounted = true) : (p.act a).isMounted = true := by
  cases a with
  | fileChange path changeType => simp [act, onFileChange, h]
  | gitStatus branch dirtyCount => simp [act, onGitStatus, h]
  | onMount => exact h
  | mounted => rfl

theorem changedPaths_history : ∀ (acts : List PanelAct) (p : RepoManager), (p.history acts).changedPaths =
    (acts.filterMap PanelAct.change).foldl (fun d c => d.set c.1 c.2) p.changedPaths
  | [], _ => rfl
  | a :: acts, p => by
    have ih := changedPaths_history acts (p.act a)
    rw [changedPaths_act] at ih
    rw [List.filterMap_cons]
    cases hc : a.change with
    | none => rw [hc] at ih; exact ih
    | some c => rw [hc] at ih; exact ih

/-- **The record is the last change of each path**, over whatever was on record before. -/
theorem get?_changedPaths_history (acts : List PanelAct) (p : RepoManager) (path : String) :
    (p.history acts).changedPaths.get? path = (lastChange acts path).or (p.changedPaths.get? path) := by
  rw [changedPaths_history, Dict.get?_foldl_set, lastChange]

theorem status_history (acts : List PanelAct) (p : RepoManager) :
    ((p.history acts).branch, (p.history acts).dirtyCount) = (lastStatus acts).getD (p.branch, p.dirtyCount) := by
  induction acts using List.reverseRecOn with
  | nil => rfl
  | append_singleton acts a ih =>
    have hlast : p.history (acts ++ [a]) = (p.history acts).act a := p.history_append acts [a]
    rw [hlast, status_act, ih, lastStatus, lastStatus, List.filterMap_append]
    cases hs : a.status with
    | none => simp [hs]
    | some status => simp [hs]

/-! ## What the table shows -/

theorem get?_ensureRow (rows : Dict String String) (key value row : String) :
    (ensureRow rows key value).get? row = if row = key then some ((rows.get? key).getD value) else rows.get? row := by
  unfold ensureRow
  cases hkey : rows.get? key with
  | some text =>
    rw [Option.isSome_some, if_pos rfl]
    split
    · rename_i hrow
      rw [hrow, hkey]
      rfl
    · rfl
  | none =>
    rw [if_neg (by simp), Dict.get?_set]
    rfl

theorem get?_ensureRows_of_ne (p : RepoManager) {row : String} (hb : row ≠ branchRow) (hd : row ≠ dirtyRow) :
    p.ensureRows.get? row = p.rows.get? row := by
  rw [ensureRows, get?_ensureRow, if_neg hd, get?_ensureRow, if_neg hb]
  rfl

/-- The fixed rows are there once the rows are ensured, and keep the text they have. -/
theorem get?_ensureRows_of_some (p : RepoManager) {row text : String} (h : p.rows.get? row = some text) :
    p.ensureRows.get? row = some text := by
  rw [rows] at h
  rw [ensureRows, get?_ensureRow, get?_ensureRow, get?_ensureRow]
  by_cases hd : row = dirtyRow
  · have hne : dirtyRow ≠ branchRow := by decide
    rw [if_pos hd, if_neg hne, ← hd, h]
    rfl
  · rw [if_neg hd]
    split
    · rename_i hb
      rw [← hb, h]
      rfl
    · exact h

/-- **A mounted panel writes each act into the table**: the cell of a row is what the act puts there, or what it was; a
row without one is new only where it is a fixed row. -/
theorem get?_rows_act (p : RepoManager) (a : PanelAct) (hmounted : p.isMounted = true) (row : String) :
    (∀ text, a.write row = some text → (p.act a).rows.get? row = some text) ∧
    (a.write row = none → ∀ text, p.rows.get? row = some text → (p.act a).rows.get? row = some text) ∧
    (a.write row = none → row ≠ branchRow → row ≠ dirtyRow → (p.act a).rows.get? row = p.rows.get? row) := by
  cases a with
  | mounted => exact ⟨nofun, fun _ _ h => h, fun _ _ _ => rfl⟩
  | onMount => exact ⟨nofun, fun _ _ h => p.get?_ensureRows_of_some h, fun _ hb hd => p.get?_ensureRows_of_ne hb hd⟩
  | fileChange path changeType =>
    have hact : (p.act (.fileChange path changeType)).rows =
        (ensureRows { p with changedPaths := p.changedPaths.set path changeType }).set path changeType.value := by
      simp only [act, onFileChange, if_pos hmounted, rows]
      rfl
    rw [hact, PanelAct.write, Dict.get?_set]
    by_cases hpath : path = row
    · rw [if_pos hpath, if_pos hpath.symm]
      exact ⟨fun text h => h, nofun, nofun⟩
    · rw [if_neg hpath, if_neg (Ne.symm hpath)]
      exact ⟨nofun, fun _ _ h => get?_ensureRows_of_some _ h, fun _ hb hd => get?_ensureRows_of_ne _ hb hd⟩
  | gitStatus branch dirtyCount =>
    have hact : (p.act (.gitStatus branch dirtyCount)).rows =
        ((ensureRows { p with branch, dirtyCount }).set branchRow branch).set dirtyRow (toString dirtyCount) := by
      simp only [act, onGitStatus, if_pos hmounted, rows]
      rfl
    rw [hact, PanelAct.write, Dict.get?_set, Dict.get?_set]
    by_cases hb : row = branchRow
    · have hne : branchRow ≠ dirtyRow := by decide
      rw [hb, if_pos rfl, if_neg hne, if_pos rfl]
      exact ⟨fun text h => h, nofun, nofun⟩
    · rw [if_neg hb, if_neg hb]
      by_cases hd : row = dirtyRow
      · rw [if_pos hd, if_pos hd]
        exact ⟨fun text h => h, nofun, nofun⟩
      · rw [if_neg hd, if_neg hd]
        exact ⟨nofun, fun _ _ h => get?_ensureRows_of_some _ h, fun _ hb hd => get?_ensureRows_of_ne _ hb hd⟩

theorem isMounted_history (acts : List PanelAct) : ∀ (p : RepoManager), p.isMounted = true →
    (p.history acts).isMounted = true := by
  induction acts with
  | nil => exact fun _ h => h
  | cons a acts ih => exact fun p h => ih (p.act a) (p.isMounted_act a h)

/-- Before the panel is mounted no event reaches the table: only the fixed rows can be there. -/
theorem get?_rows_before (pre : List PanelAct) (hpre : PanelAct.mounted ∉ pre) :
    (history {} pre).isMounted = false ∧
      ∀ row, row ≠ branchRow → row ≠ dirtyRow → (history {} pre).rows.get? row = none := by
  induction pre using List.reverseRecOn with
  | nil => exact ⟨rfl, fun _ _ _ => rfl⟩
  | append_singleton pre a ih =>
    rw [List.mem_append, not_or] at hpre
    obtain ⟨hmounted, hrows⟩ := ih hpre.1
    have hlast : history {} (pre ++ [a]) = (history {} pre).act a := history_append {} pre [a]
    rw [hlast]
    cases a with
    | mounted => exact absurd List.mem_cons_self hpre.2
    | onMount =>
      refine ⟨hmounted, fun row hb hd => ?_⟩
      show (history {} pre).ensureRows.get? row = none
      rw [get?_ensureRows_of_ne _ hb hd, hrows row hb hd]
    | fileChange path changeType =>
      simp only [act, onFileChange, hmounted, Bool.false_eq_true, if_false]
      exact ⟨trivial, hrows⟩
    | gitStatus branch dirtyCount =>
      simp only [act, onGitStatus, hmounted, Bool.false_eq_true, if_false]
      exact ⟨trivial, hrows⟩

/-- **From the mount on the table is a log of last writes**: the cell of a row is the last text written there, and a
row nothing was written to is not there unless it is a fixed row or was there before. -/
theorem get?_rows_history (post : List PanelAct) (p : RepoManager) (hmounted : p.isMounted = true) (row : String) :
    (∀ text, lastWrite post row = some text → (p.history post).rows.get? row = some text) ∧
    (lastWrite post row = none → row ≠ branchRow → row ≠ dirtyRow →
      (p.history post).rows.get? row = p.rows.get? row) := by
  induction post using List.reverseRecOn with
  | nil => exact ⟨nofun, fun _ _ _ => rfl⟩
  | append_singleton post a ih =>
    have hlast : p.history (post ++ [a]) = (p.history post).act a := p.history_append post [a]
    obtain ⟨hwrite, hkeep, hother⟩ := (p.history post).get?_rows_act a (isMounted_history post p hmounted) row
    rw [hlast, lastWrite, List.filterMap_append]
    cases ha : a.write row with
    | some text =>
      have hone : [a].filterMap (PanelAct.write row) = [text] := by simp [ha]
      rw [hone, List.getLast?_concat]
      exact ⟨fun text' h => Option.some.inj h ▸ hwrite text ha, nofun⟩
    | none =>
      have hone : [a].filterMap (PanelAct.write row) = [] := by simp [ha]
      rw [hone, List.append_nil]
      refine ⟨fun text h => hkeep ha text (ih.1 text h), fun h hb hd => ?_⟩
      rw [hother ha hb hd]
      exact ih.2 h hb hd

/-- No file is called as a fixed row. -/
def NoneCalledAsRow (acts : List PanelAct) : Prop :=
  ∀ c ∈ acts.filterMap PanelAct.change, c.1 ≠ branchRow ∧ c.1 ≠ dirtyRow

/-- **Where no file is called as they are, only a status writes the fixed rows**, and both at once. -/
theorem lastWrite_fixed {post : List PanelAct} (hnone : NoneCalledAsRow post) :
    lastWrite post branchRow = (lastStatus post).map Prod.fst ∧
      lastWrite post dirtyRow = (lastStatus post).map (fun status => toString status.2) := by
  have hwrites : ∀ (row : String) (text : String × ℤ → String), row = branchRow ∨ row = dirtyRow →
      (∀ branch dirtyCount, (PanelAct.gitStatus branch dirtyCount).write row = some (text (branch, dirtyCount))) →
      post.filterMap (PanelAct.write row) = (post.filterMap PanelAct.status).map text := by
    intro row text hrow htext
    rw [List.map_filterMap]
    refine List.filterMap_congr (fun a ha => ?_)
    cases a with
    | gitStatus branch dirtyCount => exact htext branch dirtyCount
    | fileChange path changeType =>
      have hne := hnone (path, changeType) (List.mem_filterMap.2 ⟨_, ha, rfl⟩)
      have hpath : path ≠ row := hrow.elim (fun h => h ▸ hne.1) (fun h => h ▸ hne.2)
      simp [PanelAct.write, PanelAct.status, hpath]
    | _ => rfl
  have hd : dirtyRow ≠ branchRow := by decide
  refine ⟨?_, ?_⟩
  · rw [lastWrite, hwrites branchRow Prod.fst (Or.inl rfl), List.getLast?_map, lastStatus]
    exact fun _ _ => by rw [PanelAct.write, if_pos rfl]
  · rw [lastWrite, hwrites dirtyRow (fun status => toString status.2) (Or.inr rfl), List.getLast?_map, lastStatus]
    exact fun _ _ => by rw [PanelAct.write, if_neg hd, if_pos rfl]

/-- **What the table shows of a mounted panel**, whatever came before the mount: in every row the last text written
since, no row without one but the fixed rows, and so, unless a file is called `branch` or `dirty`, the branch and the
dirty count of the panel from the first status on. -/
theorem displayed_since_mount (pre post : List PanelAct) (hpre : PanelAct.mounted ∉ pre) :
    (∀ row text, lastWrite post row = some text →
      (history {} (pre ++ .mounted :: post)).rows.get? row = some text) ∧
    (∀ row, lastWrite post row = none → row ≠ branchRow → row ≠ dirtyRow →
      (history {} (pre ++ .mounted :: post)).rows.get? row = none) ∧
    (NoneCalledAsRow post → (lastStatus post).isSome = true →
      (history {} (pre ++ .mounted :: post)).displayedBranch = (history {} (pre ++ .mounted :: post)).branch ∧
      (history {} (pre ++ .mounted :: post)).displayedDirtyCount =
        toString (history {} (pre ++ .mounted :: post)).dirtyCount) := by
  obtain ⟨-, hbefore⟩ := get?_rows_before pre hpre
  have hsplit : history {} (pre ++ .mounted :: post) = ((history {} pre).act .mounted).history post :=
    history_append {} pre (.mounted :: post)
  rw [hsplit]
  have hrows := get?_rows_history post ((history {} pre).act .mounted) rfl
  refine ⟨fun row text h => (hrows row).1 text h, fun row h hb hd => ?_, fun hnone hstatus => ?_⟩
  · rw [(hrows row).2 h hb hd]
    exact hbefore row hb hd
  · obtain ⟨status, hlast⟩ := Option.isSome_iff_exists.1 hstatus
    obtain ⟨hbranch, hdirty⟩ := lastWrite_fixed hnone
    have hfields := status_history post ((history {} pre).act .mounted)
    rw [hlast] at hbranch hdirty hfields
    obtain ⟨hb, hd⟩ := Prod.mk.inj hfields
    rw [displayedBranch, displayedDirtyCount, (hrows branchRow).1 _ hbranch, (hrows dirtyRow).1 _ hdirty, hb, hd]
    exact ⟨rfl, rfl⟩

theorem displayed_since_mount_early :
    (∀ row text, lastWrite [.gitStatus "main" 2] row = some text →
      (history {} [.fileChange "a.py" .created, .onMount, .mounted, .gitStatus "main" 2]).rows.get? row = some text) ∧
    (∀ row, lastWrite [.gitStatus "main" 2] row = none → row ≠ branchRow → row ≠ dirtyRow →
      (history {} [.fileChange "a.py" .created, .onMount, .mounted, .gitStatus "main" 2]).rows.get? row = none) ∧
    (NoneCalledAsRow [.gitStatus "main" 2] → (lastStatus [.gitStatus "main" 2]).isSome = true →
      (history {} [.fileChange "a.py" .created, .onMount, .mounted, .gitStatus "main" 2]).displayedBranch =
        (history {} [.fileChange "a.py" .created, .onMount, .mounted, .gitStatus "main" 2]).branch ∧
      (history {} [.fileChange "a.py" .created, .onMount, .mounted, .gitStatus "main" 2]).displayedDirtyCount =
        toString (history {} [.fileChange "a.py" .created, .onMount, .mounted, .gitStatus "main" 2]).dirtyCount) :=
  displayed_since_mount [.fileChange "a.py" .created, .onMount] [.gitStatus "main" 2] (by decide)

-- a file called `branch` takes the branch's row
example : (history {} [.onMount, .mounted, .gitStatus "main" 2, .fileChange "branch" .created]).displayedBranch =
    "created" := by decide

/-! ## The panel of a watcher -/

/-- What the panel's handlers take of an envelope. -/
def ofEnvelope (e : Envelope WatchPayload) : Option PanelAct :=
  match e.type, e.payload with
  | .fileChange, .fileChange path changeType => some (.fileChange path changeType)
  | .gitStatusUpdate, .gitStatusUpdate branch dirtyCount => some (.gitStatus branch dirtyCount)
  | _, _ => none

def toActs (events : List (Envelope WatchPayload)) : List PanelAct := events.filterMap ofEnvelope

theorem change_toActs_numbered : ∀ (payloads : List WatchPayload) (n : ℕ),
    (toActs (numbered n payloads)).filterMap PanelAct.change =
      (numbered n payloads).filterMap WorkspaceWatcher.fileEvent
  | [], _ => rfl
  | .fileChange path changeType :: payloads, n => congrArg ((path, changeType) :: ·) (change_toActs_numbered payloads (n + 1))
  | .gitStatusUpdate _ _ :: payloads, n => change_toActs_numbered payloads (n + 1)

theorem status_toActs_fileChanges : ∀ (changes : List (String × ChangeType)) (rest : List WatchPayload) (n : ℕ),
    (toActs (numbered n (changes.map (fun c => WatchPayload.fileChange c.1 c.2) ++ rest))).filterMap
        PanelAct.status =
      (toActs (numbered (n + changes.length) rest)).filterMap PanelAct.status
  | [], _, _ => rfl
  | c :: changes, rest, n => by
    have ih := status_toActs_fileChanges changes rest (n + 1)
    rw [Nat.add_assoc, Nat.add_comm 1] at ih
    exact ih

/-- The first scan of a run that did not raise. -/
def firstSeen (scans : List Scan) : Option Scan := scans.find? (fun scan => scan.gitState.isSome)

/-- **What a watcher has told**: nothing before its first scan, and since then, of every path, whether the last scan saw
it, and of the git state what the last scan read. -/
structure Telling (sha256 : List UInt8 → String) (scans : List Scan) (w : WorkspaceWatcher) : Prop where
  seen : lastSeen scans = none ↔ firstSeen scans = none
  silent : lastSeen scans = none → w.published = []
  git : ∀ last ∈ lastSeen scans, ∃ branch dirtyCount, last.gitState = some (branch, dirtyCount) ∧
    w.branch = some branch ∧ w.dirtyCount = some dirtyCount
  present : ∀ first ∈ firstSeen scans, ∀ last ∈ lastSeen scans, ∀ rel,
    ((scanFiles sha256 last.workspace).get? rel).isSome = true ↔
      PresentBy (((scanFiles sha256 first.workspace).get? rel).isSome = true) (lastChange (toActs w.published) rel)
  status : ∀ first ∈ firstSeen scans, ∀ last ∈ lastSeen scans,
    last.gitState = (lastStatus (toActs w.published)).or first.gitState

theorem firstSeen_snoc (scans : List Scan) (scan : Scan) :
    firstSeen (scans ++ [scan]) = (firstSeen scans).or (if scan.gitState.isSome = true then some scan else none) := by
  rw [firstSeen, List.find?_append, ← firstSeen]
  congr 1
  simp [List.find?]
  cases scan.gitState <;> rfl

theorem lastChange_append (acts acts' : List PanelAct) (rel : String) :
    lastChange (acts ++ acts') rel = (lastChange acts' rel).or (lastChange acts rel) := by
  unfold lastChange
  rw [List.filterMap_append, List.reverse_append, List.find?_append, Option.map_or]

theorem lastStatus_append (acts acts' : List PanelAct) :
    lastStatus (acts ++ acts') = (lastStatus acts').or (lastStatus acts) := by
  unfold lastStatus
  rw [List.filterMap_append, List.getLast?_append]

variable {sha256 : List UInt8 → String}

/-- **The changes a primed watcher tells of a scan** are those between the two scans. -/
theorem lastChange_toActs_payloads {w : WorkspaceWatcher} (hp : w.primed = true)
    (current : Dict String Engine.Fingerprint) (branch : String) (dirtyCount : ℤ) (n : ℕ) (rel : String) :
    lastChange (toActs (numbered n (w.payloads current branch dirtyCount))) rel =
      Lib.changeAt (w.fingerprints.get? rel) (current.get? rel) := by
  rw [lastChange, change_toActs_numbered, Engine.WorkspaceWatcher.fileEvents_payloads hp]
  exact (Engine.describes_fileChanges w.fingerprints current).find? rel

theorem lastStatus_toActs_payloads {w : WorkspaceWatcher} (hp : w.primed = true)
    (current : Dict String Engine.Fingerprint) (branch : String) (dirtyCount : ℤ) (n : ℕ) :
    lastStatus (toActs (numbered n (w.payloads current branch dirtyCount))) =
      if some branch ≠ w.branch ∨ some dirtyCount ≠ w.dirtyCount then some (branch, dirtyCount) else none := by
  rw [lastStatus, payloads, if_pos hp, status_toActs_fileChanges]
  split <;> rfl

/-- **A scan tells what it saw**, on top of what was told. -/
theorem Telling.scan {scans : List Scan} {w : WorkspaceWatcher} (h : Telling sha256 scans w)
    (hw : Watching sha256 scans w) (scan : Scan) : Telling sha256 (scans ++ [scan]) (w.scanOnce sha256 scan).2 := by
  obtain ⟨workspace, gitState⟩ := scan
  cases gitState with
  | none =>
    -- the git read raised: nothing is published and the scan does not count
    have hlast : lastSeen (scans ++ [⟨workspace, none⟩]) = lastSeen scans := lastSeen_snoc _ _
    have hfirst : firstSeen (scans ++ [⟨workspace, none⟩]) = firstSeen scans := by
      rw [firstSeen_snoc]
      exact Option.or_none
    exact ⟨by rw [hlast, hfirst]; exact h.seen, by rw [hlast]; exact h.silent, by rw [hlast]; exact h.git,
      by rw [hfirst, hlast]; exact h.present, by rw [hfirst, hlast]; exact h.status⟩
  | some git =>
    obtain ⟨branch, dirtyCount⟩ := git
    have hlast : lastSeen (scans ++ [⟨workspace, some (branch, dirtyCount)⟩]) =
      some ⟨workspace, some (branch, dirtyCount)⟩ := lastSeen_snoc _ _
    have hprimed := hw.primed
    rw [scanOnce_eq]
    cases hprev : lastSeen scans with
    | none =>
      -- the first scan takes the baseline and tells nothing
      have hfirst : firstSeen (scans ++ [⟨workspace, some (branch, dirtyCount)⟩]) =
          some ⟨workspace, some (branch, dirtyCount)⟩ := by
        rw [firstSeen_snoc, h.seen.1 hprev]
        rfl
      rw [hprev] at hprimed
      have hpayloads : w.payloads (scanFiles sha256 workspace) branch dirtyCount = [] := by
        rw [payloads, hprimed]
        rfl
      rw [hpayloads, h.silent hprev]
      refine ⟨by simp [hlast, hfirst], by simp [hlast], ?_, ?_, ?_⟩
      · rw [hlast]
        rintro _ ⟨⟩
        exact ⟨branch, dirtyCount, rfl, rfl, rfl⟩
      · rw [hlast, hfirst]
        rintro _ ⟨⟩ _ ⟨⟩ rel
        exact Iff.rfl
      · rw [hlast, hfirst]
        rintro _ ⟨⟩ _ ⟨⟩
        rfl
    | some previous =>
      rw [hprev] at hprimed
      obtain ⟨first, hseen⟩ : ∃ first, firstSeen scans = some first := by
        refine Option.ne_none_iff_exists'.1 (fun hnone => ?_)
        rw [h.seen.2 hnone] at hprev
        cases hprev
      have hfirst : firstSeen (scans ++ [⟨workspace, some (branch, dirtyCount)⟩]) = some first := by
        rw [firstSeen_snoc, hseen]
        rfl
      obtain ⟨branch', dirtyCount', hgit, hwb, hwd⟩ := h.git previous hprev
      refine ⟨by simp [hlast, hfirst], by simp [hlast], ?_, ?_, ?_⟩
      · rw [hlast]
        rintro _ ⟨⟩
        exact ⟨branch, dirtyCount, rfl, rfl, rfl⟩
      · rw [hlast, hfirst]
        rintro _ ⟨⟩ _ ⟨⟩ rel
        rw [toActs, List.filterMap_append, ← toActs, ← toActs, lastChange_append,
          lastChange_toActs_payloads hprimed, hw.baseline previous hprev]
        exact Lib.presentBy_or_changeAt (h.present first hseen previous hprev rel)
      · rw [hlast, hfirst]
        rintro _ ⟨⟩ _ ⟨⟩
        rw [toActs, List.filterMap_append, ← toActs, ← toActs, lastStatus_append, lastStatus_toActs_payloads hprimed,
          hwb, hwd, Option.or_assoc, ← h.status first hseen previous hprev, hgit]
        by_cases hsame : branch = branch' ∧ dirtyCount = dirtyCount'
        · rw [if_neg (by simp [hsame.1, hsame.2]), hsame.1, hsame.2]
          rfl
        · rw [if_pos (by simpa [imp_iff_not_or] using hsame)]
          rfl

theorem telling_after (scans : List Scan) : Telling sha256 scans (after sha256 scans) := by
  induction scans using List.reverseRecOn with
  | nil => exact ⟨Iff.rfl, fun _ => rfl, nofun, nofun, nofun⟩
  | append_singleton scans scan ih =>
    rw [Engine.WorkspaceWatcher.after_snoc]
    exact ih.scan (watching_after scans) scan

variable (sha256)

/-- **The changes a watcher published tell of every path whether the workspace has it**: by its last change a path is in
the workspace of the last scan or not, and without one it is as it was at the first; and the last status is that of the
last scan, or none came and it is as at the first. -/
theorem telling_record (scans : List Scan) {first last : Scan} (hfirst : firstSeen scans = some first)
    (hlast : lastSeen scans = some last) :
    (∀ rel, rel ∈ paths last.workspace ↔
      PresentBy (rel ∈ paths first.workspace) (lastChange (toActs (after sha256 scans).published) rel)) ∧
    last.gitState = (lastStatus (toActs (after sha256 scans).published)).or first.gitState := by
  have htelling : Telling sha256 scans (after sha256 scans) := telling_after scans
  refine ⟨fun rel => ?_, htelling.status first hfirst last hlast⟩
  rw [mem_paths_iff, mem_paths_iff]
  exact htelling.present first hfirst last hlast rel

end RepoManager
end Tui
end DevHarness
