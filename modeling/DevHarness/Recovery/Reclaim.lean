import DevHarness.Lib.Dict
import DevHarness.Lib.Machine
import DevHarness.Lib.Python
import DevHarness.Storage.WorkspaceLock
import Mathlib.Data.List.Sort
import Mathlib.Data.String.Basic
/-!
# Reclaim — removing the artifacts of dead processes (`recovery/reclaim.py`)

A live process is known by a pid recorded beside its artifact.  The workspace lock writes its record; the servers and
the worktrees are made without one, so what `reclaim` takes for an orphan may be in use: it removes nothing of a live
process exactly when each of its artifacts has a record that names a live process (`keepsLive_iff_recorded`).
-/
namespace DevHarness
namespace Recovery

open Lib Storage

/-- A worker's directory: the process that made it, and its `.pid` file. -/
structure Worktree where
  creator : ℕ
  pidFile : Option String
  deriving DecidableEq

/-- A workspace: its processes and lock file, the streaming socket by the process that bound it, the socket's `.pid`
sidecar, and the worktrees by worker. -/
structure Site where
  lock : Workspace := {}
  socket : Option ℕ := none
  socketPid : Option String := none
  worktrees : Dict String Worktree := Dict.empty

inductive Artifact where
  | socket
  | lock
  | worktree (name : String)
  deriving DecidableEq, Repr

/-- `ReclaimReport`, without the time it took. -/
structure ReclaimReport where
  socketRemoved : Bool
  lockRemoved : Bool
  worktreesRemoved : List String
  liveArtifacts : List Artifact
  deriving DecidableEq, Repr

section
variable (py : Builtins)

/-- `_read_pid`, of the text of a file that may be missing. -/
def readPid (text : Option String) : Option ℤ :=
  match text with
  | none => none
  | some content => if strip content = "" then none else py.intOfStr (firstField ':' (strip content))

namespace Site

/-- `_pid_alive`, of a pid read from a file. -/
def pidAlive (s : Site) (pid : ℤ) : Bool := decide (0 < pid) && s.lock.pidAlive pid.toNat

def isLive (s : Site) (text : Option String) : Bool :=
  match readPid py text with
  | none => false
  | some pid => s.pidAlive pid

/-- The lock file's record is what its owner wrote. -/
def isLiveOwner (s : Site) (record : Option Owner) : Bool := record.any (fun owner => s.lock.pidAlive owner.pid)

def reclaimSocket (s : Site) (live : List Artifact) : Bool × List Artifact × Site :=
  if s.socket = none then (false, live, s)
  else if s.isLive py s.socketPid then (false, live ++ [.socket], s)
  else (true, live, { s with socket := none, socketPid := none })

def reclaimLock (s : Site) (live : List Artifact) : Bool × List Artifact × Site :=
  match s.lock.disk.readText with
  | none => (false, live, s)
  | some record =>
    if s.isLiveOwner record then (false, live ++ [.lock], s)
    else (true, live, { s with lock := { s.lock with disk := s.lock.disk.unlink } })

/-- `manager.list`: the directories in order of their names. -/
def listWorktrees (s : Site) : List String := s.worktrees.keys.insertionSort (· ≤ ·)

def pidFileOf (s : Site) (name : String) : Option String := (s.worktrees.get? name).bind Worktree.pidFile

def destroyWorktree (s : Site) (name : String) : Site := { s with worktrees := s.worktrees.pop name }

/-- The loop of `_reclaim_worktrees`. -/
def reclaimWorktrees : List String → List Artifact → Site → List String × List Artifact × Site
  | [], live, s => ([], live, s)
  | name :: names, live, s =>
    if s.isLive py (s.pidFileOf name) then reclaimWorktrees names (live ++ [.worktree name]) s
    else (name :: (reclaimWorktrees names live (s.destroyWorktree name)).1,
      (reclaimWorktrees names live (s.destroyWorktree name)).2)

def reclaim (s : Site) : ReclaimReport × Site :=
  let socket := s.reclaimSocket py []
  let lock := socket.2.2.reclaimLock socket.2.1
  let worktrees := reclaimWorktrees py lock.2.2.listWorktrees lock.2.1 lock.2.2
  (⟨socket.1, lock.1, worktrees.1, worktrees.2.1⟩, worktrees.2.2)

/-! ## The processes of a workspace -/

/-- `IpcServer.start` on a Unix socket: whatever is at the path is unlinked, and the path bound. -/
def startServer (s : Site) (pid : ℕ) : Site := { s with socket := some pid }

def stopServer (s : Site) : Site := { s with socket := none }

/-- `WorktreeManager.create`, the `.pid` file being what the checkout brings: `none` where the directory exists. -/
def createWorktree (s : Site) (pid : ℕ) (name : String) (pidFile : Option String) : Option Site :=
  match s.worktrees.get? name with
  | some _ => none
  | none => some { s with worktrees := s.worktrees.set name ⟨pid, pidFile⟩ }

/-- The loop of `resume`, one bind after another until one raises. -/
def rebind (pid : ℕ) : List (String × Option String) → Site → Site
  | [], s => s
  | (name, pidFile) :: binds, s => match s.createWorktree pid name pidFile with
    | none => s
    | some s' => rebind pid binds s'

end Site

inductive SiteStep where
  | lock (step : LockStep)
  | start (pid : ℕ)
  | stop (pid : ℕ)
  | bind (pid : ℕ) (worker : String) (pidFile : Option String)
  | write (worker : String) (pidFile : Option String)
  | release (worker : String)
  | reclaim (pid : ℕ)
  | resume (pid : ℕ) (binds : List (String × Option String))

/-- One step; `write` is what a worker does to the `.pid` file of its worktree. -/
def Site.step (hostname : String) (s : Site) : SiteStep → Option Site
  | .lock step => (s.lock.step hostname step).map (fun w => { s with lock := w })
  | .start pid => if s.lock.pidAlive pid then some (s.startServer pid) else none
  | .stop pid => if s.lock.pidAlive pid then some s.stopServer else none
  | .bind pid worker pidFile => if s.lock.pidAlive pid then s.createWorktree pid worker pidFile else none
  | .write worker pidFile => (s.worktrees.get? worker).map (fun wt =>
      { s with worktrees := s.worktrees.set worker { wt with pidFile } })
  | .release worker => some (s.destroyWorktree worker)
  | .reclaim pid => if s.lock.pidAlive pid then some (s.reclaim py).2 else none
  | .resume pid binds => if s.lock.pidAlive pid then some (Site.rebind pid binds (s.reclaim py).2) else none

def siteMachine (hostname : String) : Machine Site SiteStep := ⟨Site.step py hostname⟩

/-! ## What a live process keeps -/

/-- A process past its lock call holds this file. -/
def HoldsFile (s : Site) (inode : ℕ) : Prop :=
  ∃ p, s.lock.pidAlive p = true ∧ (s.lock.processes p).lock.lockedFile = some inode

/-- **Nothing of a live process is removed**: the socket it bound, the lock file it holds, the worktrees it made. -/
structure Keeps (s s' : Site) : Prop where
  socket : ∀ p, s.socket = some p → s.lock.pidAlive p = true → s'.socket = some p
  lock : ∀ i, s.lock.disk.lockPath = some i → HoldsFile s i → s'.lock.disk.lockPath = some i
  worktrees : ∀ name wt, s.worktrees.get? name = some wt → s.lock.pidAlive wt.creator = true →
    s'.worktrees.get? name = some wt

/-- **Every artifact of a live process names a live process** in the record beside it. -/
structure Recorded (s : Site) : Prop where
  socket : ∀ p, s.socket = some p → s.lock.pidAlive p = true → s.isLive py s.socketPid = true
  lock : ∀ i, s.lock.disk.lockPath = some i → HoldsFile s i → s.isLiveOwner (s.lock.disk.content i) = true
  worktrees : ∀ name wt, s.worktrees.get? name = some wt → s.lock.pidAlive wt.creator = true →
    s.isLive py wt.pidFile = true

/-- The law of a step: a `reclaim`, and the `reclaim` of a `resume`, keep what live processes have, and the binds of a
`resume` keep what that has left. -/
def KeepsLive (s : Site) (step : SiteStep) (s' : Site) : Prop :=
  match step with
  | .reclaim _ => Keeps s s'
  | .resume _ _ => Keeps s (s.reclaim py).2 ∧ s'.socket = (s.reclaim py).2.socket ∧ s'.lock = (s.reclaim py).2.lock ∧
      ∀ name wt, (s.reclaim py).2.worktrees.get? name = some wt → s'.worktrees.get? name = some wt
  | _ => True

def RecordedWhenReclaimed (s : Site) (step : SiteStep) : Prop :=
  match step with
  | .reclaim _ | .resume _ _ => Recorded py s
  | _ => True

/-! ## What `reclaim` removes -/

namespace Site

theorem reclaimSocket_spec (s : Site) (live : List Artifact) :
    (s.reclaimSocket py live).2.2.lock = s.lock ∧ (s.reclaimSocket py live).2.2.worktrees = s.worktrees ∧
      (s.reclaimSocket py live).2.2.socket = if s.isLive py s.socketPid then s.socket else none := by
  unfold reclaimSocket
  split
  · rename_i hnone
    rw [hnone]
    exact ⟨rfl, rfl, by simp⟩
  · split
    · exact ⟨rfl, rfl, rfl⟩
    · exact ⟨rfl, rfl, rfl⟩

theorem reclaimLock_spec (s : Site) (live : List Artifact) :
    (s.reclaimLock live).2.2.socket = s.socket ∧ (s.reclaimLock live).2.2.worktrees = s.worktrees ∧
      (s.reclaimLock live).2.2.lock.processes = s.lock.processes ∧
      ∀ i, s.lock.disk.lockPath = some i → (s.reclaimLock live).2.2.lock.disk.lockPath =
        if s.isLiveOwner (s.lock.disk.content i) then some i else none := by
  unfold reclaimLock Disk.readText
  cases hp : s.lock.disk.lockPath with
  | none => exact ⟨rfl, rfl, rfl, fun i hi => by cases hi⟩
  | some i =>
    simp only [Option.map_some]
    split
    · rename_i hlive
      refine ⟨rfl, rfl, rfl, fun j hj => ?_⟩
      cases hj
      rw [if_pos hlive, hp]
    · rename_i hdead
      refine ⟨rfl, rfl, rfl, fun j hj => ?_⟩
      cases hj
      rw [if_neg hdead]
      rfl

/-- A process at a stage of `_reclaim_lock`. -/
def atReclaim (w : Workspace) (pid : ℕ) (stage : ReclaimStage) : Workspace :=
  w.setProcess pid { w.processes pid with reclaim := stage }

theorem atReclaim_step (hostname : String) {w : Workspace} {pid : ℕ} (halive : (w.processes pid).alive = true)
    (stage : ReclaimStage) : (lockMachine hostname).step (atReclaim w pid stage) (.advanceReclaim pid) =
      (advanceReclaim w.pidAlive w.disk stage).map (fun r => { atReclaim w pid r.1 with disk := r.2 }) := by
  have hpids : (atReclaim w pid stage).pidAlive = w.pidAlive := by
    funext q
    unfold Workspace.pidAlive atReclaim
    rw [setProcess_processes]
    split
    · rename_i hq
      rw [hq]
    · rfl
  have hset : ∀ p, (atReclaim w pid stage).setProcess pid p = w.setProcess pid p := by
    intro p
    simp only [atReclaim, Workspace.setProcess, Function.update_idem]
  have hself : (atReclaim w pid stage).processes pid = { w.processes pid with reclaim := stage } :=
    Function.update_self _ _ _
  have halive' : ((atReclaim w pid stage).processes pid).alive = true := by rw [hself]; exact halive
  simp only [lockMachine, Workspace.step, if_pos halive', hpids, hset]
  rw [hself]
  rfl

/-- **The removal of a stale lock is a run of its calls**, with no other process in between. -/
theorem reclaimLock_run (hostname : String) (s : Site) (live : List Artifact) {pid : ℕ}
    (halive : (s.lock.processes pid).alive = true) (hidle : (s.lock.processes pid).reclaim = .idle) :
    ∃ calls, (lockMachine hostname).run s.lock (.reclaim pid :: List.replicate calls (.advanceReclaim pid)) =
      some (s.reclaimLock live).2.2.lock := by
  have hstart : (lockMachine hostname).step s.lock (.reclaim pid) = some (atReclaim s.lock pid .starting) :=
    if_pos ⟨halive, hidle⟩
  have hidle' : atReclaim s.lock pid .idle = s.lock := by
    unfold atReclaim Workspace.setProcess
    rw [← hidle, Function.update_eq_self]
  -- a call that only reads, and the one that removes the file
  have hread : ∀ stage next, advanceReclaim s.lock.pidAlive s.lock.disk stage = some (next, s.lock.disk) →
      (lockMachine hostname).step (atReclaim s.lock pid stage) (.advanceReclaim pid) = some (atReclaim s.lock pid next) :=
    fun stage next h => by rw [atReclaim_step hostname halive, h]; rfl
  have hremove : (lockMachine hostname).step (atReclaim s.lock pid .removing) (.advanceReclaim pid) =
      some { s.lock with disk := s.lock.disk.unlink } := by
    rw [atReclaim_step hostname halive]
    show some ({ atReclaim s.lock pid .idle with disk := s.lock.disk.unlink } : Workspace) = _
    rw [hidle']
  unfold reclaimLock Disk.readText
  cases hpath : s.lock.disk.lockPath with
  | none =>
    refine ⟨1, ?_⟩
    have h1 := hread .starting .idle (by simp [advanceReclaim, hpath])
    simp only [List.replicate, Machine.run, hstart, h1, hidle', Option.map_none]
  | some i =>
    have h1 := hread .starting .reading (by simp [advanceReclaim, hpath])
    cases hrecord : s.lock.disk.content i with
    | none =>
      refine ⟨3, ?_⟩
      have h2 := hread .reading .removing (by simp [advanceReclaim, Disk.readText, hpath, hrecord])
      simp only [List.replicate, Machine.run, hstart, h1, h2, hremove, Option.map_some, hrecord]
      rfl
    | some owner =>
      have h2 := hread .reading (.checking owner.pid) (by simp [advanceReclaim, Disk.readText, hpath, hrecord])
      cases hlive : s.lock.pidAlive owner.pid with
      | true =>
        refine ⟨3, ?_⟩
        have h3 := hread (.checking owner.pid) .idle (by simp [advanceReclaim, hlive])
        simp only [List.replicate, Machine.run, hstart, h1, h2, h3, hidle', Option.map_some, hrecord, isLiveOwner,
          Option.any_some, hlive, if_true]
      | false =>
        refine ⟨4, ?_⟩
        have h3 := hread (.checking owner.pid) .removing (by simp [advanceReclaim, hlive])
        simp only [List.replicate, Machine.run, hstart, h1, h2, h3, hremove, Option.map_some, hrecord, isLiveOwner,
          Option.any_some, hlive]
        rfl

theorem isLive_congr {s s' : Site} (h : s'.lock.processes = s.lock.processes) (text : Option String) :
    s'.isLive py text = s.isLive py text := by
  unfold isLive pidAlive Workspace.pidAlive
  rw [h]

theorem reclaimWorktrees_spec : ∀ (names : List String) (live : List Artifact) (s : Site),
    (reclaimWorktrees py names live s).2.2.lock = s.lock ∧ (reclaimWorktrees py names live s).2.2.socket = s.socket ∧
      ∀ name, (reclaimWorktrees py names live s).2.2.worktrees.get? name =
        if name ∈ names ∧ s.isLive py (s.pidFileOf name) = false then none else s.worktrees.get? name
  | [], live, s => ⟨rfl, rfl, fun name => by simp [reclaimWorktrees]⟩
  | n :: names, live, s => by
    rw [reclaimWorktrees]
    split
    · rename_i hlive
      obtain ⟨hlock, hsocket, hget⟩ := reclaimWorktrees_spec names (live ++ [.worktree n]) s
      refine ⟨hlock, hsocket, fun name => ?_⟩
      rw [hget]
      by_cases hn : name = n
      · subst hn
        rw [if_neg (by rw [hlive]; simp), if_neg (by rw [hlive]; simp)]
      · simp [hn]
    · rename_i hdead
      obtain ⟨hlock, hsocket, hget⟩ := reclaimWorktrees_spec names live (s.destroyWorktree n)
      refine ⟨hlock, hsocket, fun name => ?_⟩
      rw [hget]
      have hpop : (s.destroyWorktree n).worktrees.get? name = if name = n then none else s.worktrees.get? name :=
        s.worktrees.get?_pop n name
      by_cases hn : name = n
      · subst hn
        rw [hpop, if_pos rfl, ite_self, if_pos ⟨List.mem_cons_self, by simpa using hdead⟩]
      · rw [if_neg hn] at hpop
        have hfile : (s.destroyWorktree n).pidFileOf name = s.pidFileOf name := by
          unfold pidFileOf
          rw [hpop]
        rw [hpop, hfile]
        have hlive : (s.destroyWorktree n).isLive py (s.pidFileOf name) = s.isLive py (s.pidFileOf name) :=
          isLive_congr py rfl _
        rw [hlive]
        simp [hn]

theorem mem_listWorktrees (s : Site) (name : String) :
    name ∈ s.listWorktrees ↔ ∃ wt, s.worktrees.get? name = some wt := by
  rw [listWorktrees, List.mem_insertionSort, Dict.mem_keys_iff]

/-- **What `reclaim` leaves**: of the socket, the lock file and the worktrees, those with a live record. -/
theorem reclaim_spec (s : Site) :
    (s.reclaim py).2.socket = (if s.isLive py s.socketPid then s.socket else none) ∧
    (∀ i, s.lock.disk.lockPath = some i → (s.reclaim py).2.lock.disk.lockPath =
      if s.isLiveOwner (s.lock.disk.content i) then some i else none) ∧
    ∀ name, (s.reclaim py).2.worktrees.get? name =
      if s.isLive py (s.pidFileOf name) then s.worktrees.get? name else none := by
  obtain ⟨hlock₁, hworktrees₁, hsocket₁⟩ := s.reclaimSocket_spec py []
  obtain ⟨hsocket₂, hworktrees₂, hprocesses₂, hpath₂⟩ :=
    (s.reclaimSocket py []).2.2.reclaimLock_spec (s.reclaimSocket py []).2.1
  generalize hs₁ : (s.reclaimSocket py []).2.2 = s₁ at *
  generalize hs₂ : (s₁.reclaimLock (s.reclaimSocket py []).2.1).2.2 = s₂ at *
  obtain ⟨hlock₃, hsocket₃, hget₃⟩ := reclaimWorktrees_spec py s₂.listWorktrees
    (s₁.reclaimLock (s.reclaimSocket py []).2.1).2.1 s₂
  have hreclaim : (s.reclaim py).2 = (reclaimWorktrees py s₂.listWorktrees
      (s₁.reclaimLock (s.reclaimSocket py []).2.1).2.1 s₂).2.2 := by
    simp only [reclaim, hs₁, hs₂]
  rw [hreclaim]
  refine ⟨?_, fun i hi => ?_, fun name => ?_⟩
  · rw [hsocket₃, hsocket₂, hsocket₁]
  · have howner : s₁.isLiveOwner = s.isLiveOwner := by
      unfold isLiveOwner Workspace.pidAlive
      rw [hlock₁]
    rw [hlock₃, hpath₂ i (by rw [hlock₁]; exact hi), howner, hlock₁]
  · have hfile : s₂.pidFileOf name = s.pidFileOf name := by
      unfold pidFileOf
      rw [hworktrees₂, hworktrees₁]
    have hlive : s₂.isLive py (s.pidFileOf name) = s.isLive py (s.pidFileOf name) :=
      isLive_congr py (by rw [hprocesses₂, hlock₁]) _
    rw [hget₃, hfile, hlive, hworktrees₂, hworktrees₁]
    cases hl : s.isLive py (s.pidFileOf name) with
    | true => simp
    | false =>
      cases hg : s.worktrees.get? name with
      | none => simp
      | some wt =>
        have hmem : name ∈ s₂.listWorktrees :=
          (s₂.mem_listWorktrees name).2 ⟨wt, by rw [hworktrees₂, hworktrees₁]; exact hg⟩
        rw [if_pos ⟨hmem, rfl⟩]
        simp

theorem rebind_keeps (pid : ℕ) : ∀ (binds : List (String × Option String)) (s : Site),
    (rebind pid binds s).socket = s.socket ∧ (rebind pid binds s).lock = s.lock ∧
      ∀ name wt, s.worktrees.get? name = some wt → (rebind pid binds s).worktrees.get? name = some wt
  | [], s => ⟨rfl, rfl, fun _ _ h => h⟩
  | (n, pidFile) :: binds, s => by
    rw [rebind, createWorktree]
    cases hg : s.worktrees.get? n with
    | some wt => exact ⟨rfl, rfl, fun _ _ h => h⟩
    | none =>
      obtain ⟨hsocket, hlock, hkeeps⟩ := rebind_keeps pid binds { s with worktrees := s.worktrees.set n ⟨pid, pidFile⟩ }
      refine ⟨hsocket, hlock, fun name wt h => hkeeps name wt ?_⟩
      have hne : name ≠ n := by
        rintro rfl
        rw [hg] at h
        cases h
      exact (Dict.get?_set_ne _ _ hne).trans h

end Site

/-- **`reclaim` keeps what live processes have exactly when each has its record.** -/
theorem keeps_reclaim_iff (s : Site) : Keeps s (s.reclaim py).2 ↔ Recorded py s := by
  obtain ⟨hsocket, hlock, hworktrees⟩ := s.reclaim_spec py
  have hfile : ∀ name wt, s.worktrees.get? name = some wt → s.pidFileOf name = wt.pidFile := by
    intro name wt h
    rw [Site.pidFileOf, h]
    rfl
  constructor
  · intro h
    refine ⟨fun p hp hlive => ?_, fun i hi hholds => ?_, fun name wt hwt hlive => ?_⟩
    · have hkept := h.socket p hp hlive
      rw [hsocket] at hkept
      by_contra hdead
      rw [if_neg hdead] at hkept
      cases hkept
    · have hkept := h.lock i hi hholds
      rw [hlock i hi] at hkept
      by_contra hdead
      rw [if_neg hdead] at hkept
      cases hkept
    · have hkept := h.worktrees name wt hwt hlive
      rw [hworktrees, hfile name wt hwt] at hkept
      by_contra hdead
      rw [if_neg hdead] at hkept
      cases hkept
  · intro h
    refine ⟨fun p hp hlive => ?_, fun i hi hholds => ?_, fun name wt hwt hlive => ?_⟩
    · rw [hsocket, if_pos (h.socket p hp hlive), hp]
    · rw [hlock i hi, if_pos (h.lock i hi hholds)]
    · rw [hworktrees, hfile name wt hwt, if_pos (h.worktrees name wt hwt hlive), hwt]

/-- **Live processes keep their artifacts**: in every run, from any workspace, each `reclaim` and `resume` removes none
of a live process's socket, lock file and worktrees if and only if each of these has a record naming a live process
whenever one runs. -/
theorem keepsLive_iff_recorded (hostname : String) (s : Site) (steps : List SiteStep) :
    (siteMachine py hostname).Along (KeepsLive py) s steps ↔
      (siteMachine py hostname).Along (fun s step _ => RecordedWhenReclaimed py s step) s steps := by
  refine (siteMachine py hostname).along_iff_along (fun _ => True) (fun s step s' _ hstep => ?_)
    (fun _ _ _ _ _ _ => trivial) steps s trivial
  have hstep' : Site.step py hostname s step = some s' := hstep
  cases step with
  | reclaim pid =>
    simp only [Site.step, Option.ite_none_right_eq_some, Option.some.injEq] at hstep'
    obtain ⟨-, rfl⟩ := hstep'
    exact keeps_reclaim_iff py s
  | resume pid binds =>
    simp only [Site.step, Option.ite_none_right_eq_some, Option.some.injEq] at hstep'
    obtain ⟨-, rfl⟩ := hstep'
    obtain ⟨hsocket, hlock, hkeeps⟩ := Site.rebind_keeps pid binds (s.reclaim py).2
    exact (and_iff_left ⟨hsocket, hlock, hkeeps⟩).trans (keeps_reclaim_iff py s)
  | lock step => exact Iff.rfl
  | start pid => exact Iff.rfl
  | stop pid => exact Iff.rfl
  | bind pid worker pidFile => exact Iff.rfl
  | write worker pidFile => exact Iff.rfl
  | release worker => exact Iff.rfl

/-! ## Where no record is written -/

/-- No record beside the socket or in a worktree. -/
structure Unrecorded (s : Site) : Prop where
  socket : s.socketPid = none
  worktrees : ∀ name wt, s.worktrees.get? name = some wt → wt.pidFile = none

/-- The step brings no `.pid` file into a worktree: none is checked out, and no worker writes one. -/
def BringsNoPid : SiteStep → Prop
  | .bind _ _ pidFile | .write _ pidFile => pidFile = none
  | .resume _ binds => ∀ b ∈ binds, b.2 = none
  | _ => True

theorem unrecorded_reclaim {s : Site} (h : Unrecorded s) :
    (s.reclaim py).2.socket = none ∧ ∀ name, (s.reclaim py).2.worktrees.get? name = none := by
  obtain ⟨hsocket, -, hworktrees⟩ := s.reclaim_spec py
  refine ⟨?_, fun name => ?_⟩
  · rw [hsocket, h.socket]
    rfl
  · have hfile : s.pidFileOf name = none := by
      unfold Site.pidFileOf
      cases hg : s.worktrees.get? name with
      | none => rfl
      | some wt => exact h.worktrees name wt hg
    rw [hworktrees, hfile]
    rfl

theorem reclaimWorktrees_socketPid : ∀ (names : List String) (live : List Artifact) (s : Site),
    (Site.reclaimWorktrees py names live s).2.2.socketPid = s.socketPid
  | [], _, _ => rfl
  | n :: names, live, s => by
    rw [Site.reclaimWorktrees]
    split
    · exact reclaimWorktrees_socketPid names _ s
    · exact reclaimWorktrees_socketPid names live (s.destroyWorktree n)

theorem reclaim_socketPid {s : Site} (h : s.socketPid = none) : (s.reclaim py).2.socketPid = none := by
  have hsocket : ∀ live, (s.reclaimSocket py live).2.2.socketPid = none := by
    intro live
    unfold Site.reclaimSocket
    split
    · exact h
    · split
      · exact h
      · rfl
  have hlock : ∀ (s' : Site) live, (s'.reclaimLock live).2.2.socketPid = s'.socketPid := by
    intro s' live
    unfold Site.reclaimLock
    split
    · rfl
    · split <;> rfl
  unfold Site.reclaim
  simp only
  rw [reclaimWorktrees_socketPid, hlock, hsocket]

theorem unrecorded_create {s s' : Site} (h : Unrecorded s) {pid : ℕ} {name : String}
    (hs : s.createWorktree pid name none = some s') : Unrecorded s' := by
  unfold Site.createWorktree at hs
  split at hs
  · cases hs
  · cases hs
    refine ⟨h.socket, fun n wt hwt => ?_⟩
    have hwt' : (s.worktrees.set name ⟨pid, none⟩).get? n = some wt := hwt
    rw [Dict.get?_set] at hwt'
    split at hwt'
    · cases hwt'
      rfl
    · exact h.worktrees n wt hwt'

theorem unrecorded_rebind (pid : ℕ) : ∀ (binds : List (String × Option String)) {s : Site}, Unrecorded s →
    (∀ b ∈ binds, b.2 = none) → Unrecorded (Site.rebind pid binds s)
  | [], _, h, _ => h
  | (name, pidFile) :: binds, s, h, hnone => by
    have hfile : pidFile = none := hnone (name, pidFile) List.mem_cons_self
    rw [Site.rebind, hfile]
    cases hc : s.createWorktree pid name none with
    | none => exact h
    | some s' => exact unrecorded_rebind pid binds (unrecorded_create h hc) (fun b hb => hnone b (List.mem_cons_of_mem _ hb))

theorem unrecorded_step {hostname : String} {s s' : Site} {step : SiteStep} (h : Unrecorded s) (hnone : BringsNoPid step)
    (hstep : (siteMachine py hostname).step s step = some s') : Unrecorded s' := by
  have hstep' : Site.step py hostname s step = some s' := hstep
  have hreclaim : Unrecorded (s.reclaim py).2 := by
    refine ⟨reclaim_socketPid py h.socket, fun name wt hwt => ?_⟩
    rw [(unrecorded_reclaim py h).2 name] at hwt
    cases hwt
  cases step with
  | lock step =>
    obtain ⟨w, -, rfl⟩ := Option.map_eq_some_iff.1 hstep'
    exact ⟨h.socket, h.worktrees⟩
  | start pid =>
    simp only [Site.step, Option.ite_none_right_eq_some, Option.some.injEq] at hstep'
    obtain ⟨-, rfl⟩ := hstep'
    exact ⟨h.socket, h.worktrees⟩
  | stop pid =>
    simp only [Site.step, Option.ite_none_right_eq_some, Option.some.injEq] at hstep'
    obtain ⟨-, rfl⟩ := hstep'
    exact ⟨h.socket, h.worktrees⟩
  | bind pid worker pidFile =>
    simp only [Site.step, Option.ite_none_right_eq_some] at hstep'
    have hfile : pidFile = none := hnone
    rw [hfile] at hstep'
    exact unrecorded_create h hstep'.2
  | write worker pidFile =>
    obtain ⟨wt, -, rfl⟩ := Option.map_eq_some_iff.1 hstep'
    refine ⟨h.socket, fun name wt' hwt => ?_⟩
    have hwt' : (s.worktrees.set worker { wt with pidFile }).get? name = some wt' := hwt
    rw [Dict.get?_set] at hwt'
    split at hwt'
    · cases hwt'
      exact hnone
    · exact h.worktrees name wt' hwt'
  | release worker =>
    cases hstep'
    refine ⟨h.socket, fun name wt hwt => ?_⟩
    have hwt' : (s.worktrees.pop worker).get? name = some wt := hwt
    rw [Dict.get?_pop] at hwt'
    split at hwt'
    · cases hwt'
    · exact h.worktrees name wt hwt'
  | reclaim pid =>
    simp only [Site.step, Option.ite_none_right_eq_some, Option.some.injEq] at hstep'
    obtain ⟨-, rfl⟩ := hstep'
    exact hreclaim
  | resume pid binds =>
    simp only [Site.step, Option.ite_none_right_eq_some, Option.some.injEq] at hstep'
    obtain ⟨-, rfl⟩ := hstep'
    exact unrecorded_rebind pid binds hreclaim hnone

/-- **Nothing in the repository writes a record**: in every run from a workspace without one, into which no worker and no
checkout brings a `.pid` file, `reclaim` removes the socket and every worktree, whoever made them. -/
theorem reclaim_removes_all (hostname : String) {s t : Site} (steps : List SiteStep) (h : Unrecorded s)
    (hnone : ∀ step ∈ steps, BringsNoPid step) (hrun : (siteMachine py hostname).run s steps = some t) :
    (t.reclaim py).2.socket = none ∧ ∀ name, (t.reclaim py).2.worktrees.get? name = none := by
  suffices hend : Unrecorded t from unrecorded_reclaim py hend
  induction steps generalizing s with
  | nil =>
    cases hrun
    exact h
  | cons step steps ih =>
    obtain ⟨s', hstep, hrest⟩ := (siteMachine py hostname).run_cons_eq_some.1 hrun
    exact ih (unrecorded_step py h (hnone step List.mem_cons_self) hstep)
      (fun x hx => hnone x (List.mem_cons_of_mem _ hx)) hrest

end

/-! ## A session started beside a running one -/

/-- Process 1 has bound the streaming socket and a worker's worktree; process 2 starts. -/
def besideEngine : List SiteStep :=
  [.lock (.spawn 1), .start 1, .bind 1 "worker-1" none, .lock (.spawn 2)]

/-- **A live engine loses its socket and its worktree** to a `reclaim` of another process. -/
theorem reclaim_removes_live : ∃ s s', (siteMachine Builtins.decimal "host").run {} besideEngine = some s ∧
    (siteMachine Builtins.decimal "host").step s (.reclaim 2) = some s' ∧ s'.lock.pidAlive 1 = true ∧
    s.socket = some 1 ∧ s'.socket = none ∧ s.worktrees.get? "worker-1" = some ⟨1, none⟩ ∧
    s'.worktrees.get? "worker-1" = none ∧ ¬ KeepsLive Builtins.decimal s (.reclaim 2) s' := by
  have hrun : ((siteMachine Builtins.decimal "host").run {} besideEngine).any (fun s =>
      ((siteMachine Builtins.decimal "host").step s (.reclaim 2)).any (fun s' => decide (
        (s.lock.pidAlive 1 = true ∧ s'.lock.pidAlive 1 = true) ∧ s.socket = some 1 ∧ s'.socket = none ∧
        s.worktrees.get? "worker-1" = some ⟨1, none⟩ ∧ s'.worktrees.get? "worker-1" = none))) = true := by
    decide +kernel
  obtain ⟨s, hs, h⟩ := (Option.any_eq_true _ _).1 hrun
  obtain ⟨s', hs', h⟩ := (Option.any_eq_true _ _).1 h
  rw [decide_eq_true_eq] at h
  obtain ⟨⟨hlive, hlive'⟩, hsocket, hgone, hworktree, hgone'⟩ := h
  refine ⟨s, s', hs, hs', hlive', hsocket, hgone, hworktree, hgone', fun hkeeps => ?_⟩
  have hkept := hkeeps.socket 1 hsocket hlive
  rw [hgone] at hkept
  cases hkept

end Recovery
end DevHarness
