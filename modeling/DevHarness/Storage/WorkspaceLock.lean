import DevHarness.Lib.Machine
import Mathlib.Logic.Function.Basic
/-!
# WorkspaceLock — processes locking one lock file (`storage/workspace_lock.py`, `recovery/reclaim.py`)

Each process has a lock thread, in `acquire` or `release`, and may be in `reclaim`'s removal of the lock; every label
is one file system call of one process, or its start or death.  The advisory lock is on the inode a process opened, and
the path may come to name another.  Where no step locks a file the path no longer names, or removes one that is locked
(`LockKept`), at most one process is between `acquire` and `release` (`mutuallyExclusive_of_lockKept`).
-/
namespace DevHarness
namespace Storage

open Lib

/-- What `_write_owner` writes; an empty file has none. -/
structure Owner where
  pid : ℕ
  hostname : String
  deriving DecidableEq, Repr

/-- The lock file: the inode its path names, and of each inode the content and the process with the advisory lock. -/
structure Disk where
  lockPath : Option ℕ := none
  content : ℕ → Option Owner := fun _ => none
  flock : ℕ → Option ℕ := fun _ => none
  nextInode : ℕ := 0

namespace Disk

/-- `open(lock_path, "a+")`, which creates the file where there is none. -/
def openAppend (d : Disk) : ℕ × Disk :=
  match d.lockPath with
  | some i => (i, d)
  | none => (d.nextInode, { d with
      lockPath := some d.nextInode
      content := Function.update d.content d.nextInode none
      nextInode := d.nextInode + 1 })

/-- `LOCK_EX | LOCK_NB`: `none` is the `LockException`. -/
def lock (d : Disk) (inode pid : ℕ) : Option Disk :=
  match d.flock inode with
  | some _ => none
  | none => some { d with flock := Function.update d.flock inode (some pid) }

def unlock (d : Disk) (inode : ℕ) : Disk := { d with flock := Function.update d.flock inode none }

def truncate (d : Disk) (inode : ℕ) : Disk := { d with content := Function.update d.content inode none }

def write (d : Disk) (inode : ℕ) (owner : Owner) : Disk :=
  { d with content := Function.update d.content inode (some owner) }

/-- `lock_path.unlink(missing_ok=True)`. -/
def unlink (d : Disk) : Disk := { d with lockPath := none }

/-- `lock_path.read_text`: `none` is the `OSError` of a missing file. -/
def readText (d : Disk) : Option (Option Owner) := d.lockPath.map d.content

/-- The system closes what a dead process had open, which drops its locks. -/
def dropLocks (d : Disk) (pid : ℕ) : Disk :=
  { d with flock := fun i => if d.flock i = some pid then none else d.flock i }

end Disk

/-- Where a process is in `acquire` or `release`: what it has done, and on which open file. -/
inductive LockStage where
  | idle
  | opening
  | opened (fh : ℕ)
  | locked (fh : ℕ)
  | truncated (fh : ℕ)
  | refused (fh : ℕ)
  | reading
  | checking (pid : ℕ)
  | removing
  | waiting
  | acquired (fh : ℕ)
  | releasing (fh : ℕ)
  | unlocked (fh : ℕ)
  | unlinking
  deriving DecidableEq, Repr

/-- Where a process is in `_reclaim_lock`. -/
inductive ReclaimStage where
  | idle
  | starting
  | reading
  | checking (pid : ℕ)
  | removing
  deriving DecidableEq, Repr

structure Process where
  alive : Bool := false
  lock : LockStage := .idle
  reclaim : ReclaimStage := .idle
  deriving DecidableEq, Repr

structure Workspace where
  disk : Disk := {}
  processes : ℕ → Process := fun _ => {}

inductive LockStep where
  | spawn (pid : ℕ)
  | crash (pid : ℕ)
  | acquire (pid : ℕ)
  | release (pid : ℕ)
  | expire (pid : ℕ)
  | advance (pid : ℕ)
  | reclaim (pid : ℕ)
  | advanceReclaim (pid : ℕ)
  deriving DecidableEq, Repr

/-- `_pid_alive`. -/
def Workspace.pidAlive (w : Workspace) (pid : ℕ) : Bool := decide (0 < pid) && (w.processes pid).alive

/-- The next call of `acquire` (with its `_write_owner` and `_reclaim_stale`) or `release`. -/
def advanceLock (hostname : String) (pid : ℕ) (pidAlive : ℕ → Bool) (d : Disk) : LockStage → Option (LockStage × Disk)
  | .idle | .acquired _ => none
  | .opening => some (.opened d.openAppend.1, d.openAppend.2)
  | .opened fh => match d.lock fh pid with
    | none => some (.refused fh, d)
    | some d' => some (.locked fh, d')
  | .locked fh => some (.truncated fh, d.truncate fh)
  | .truncated fh => some (.acquired fh, d.write fh ⟨pid, hostname⟩)
  | .refused _ => some (.reading, d)
  | .reading => match d.readText with
    | none => some (.waiting, d)
    | some none => some (.waiting, d)
    | some (some owner) => some (.checking owner.pid, d)
  | .checking owner => some (if pidAlive owner then .waiting else .removing, d)
  | .removing => some (.opening, d.unlink)
  | .waiting => some (.opening, d)
  | .releasing fh => some (.unlocked fh, d.unlock fh)
  | .unlocked _ => some (.unlinking, d)
  | .unlinking => some (.idle, d.unlink)

/-- The next call of `_reclaim_lock`: a lock file without a readable owner is stale. -/
def advanceReclaim (pidAlive : ℕ → Bool) (d : Disk) : ReclaimStage → Option (ReclaimStage × Disk)
  | .idle => none
  | .starting => some (if d.lockPath.isSome then .reading else .idle, d)
  | .reading => match d.readText with
    | none => some (.removing, d)
    | some none => some (.removing, d)
    | some (some owner) => some (.checking owner.pid, d)
  | .checking owner => some (if pidAlive owner then .idle else .removing, d)
  | .removing => some (.idle, d.unlink)

namespace Workspace

def setProcess (w : Workspace) (pid : ℕ) (p : Process) : Workspace :=
  { w with processes := Function.update w.processes pid p }

/-- One step of a live process; a dead one may only be started, under a positive pid. -/
def step (hostname : String) (w : Workspace) : LockStep → Option Workspace
  | .spawn pid =>
    if 0 < pid ∧ (w.processes pid).alive = false then some (w.setProcess pid { alive := true }) else none
  | .crash pid =>
    if (w.processes pid).alive then
      some { w.setProcess pid {} with disk := w.disk.dropLocks pid }
    else none
  | .acquire pid =>
    if (w.processes pid).alive ∧ (w.processes pid).lock = .idle then
      some (w.setProcess pid { w.processes pid with lock := .opening })
    else none
  | .release pid =>
    if (w.processes pid).alive then match (w.processes pid).lock with
      | .acquired fh => some (w.setProcess pid { w.processes pid with lock := .releasing fh })
      -- without a handle `release` only removes the file
      | .idle => some (w.setProcess pid { w.processes pid with lock := .unlinking })
      | _ => none
    else none
  | .expire pid =>
    if (w.processes pid).alive ∧ (w.processes pid).lock = .waiting then
      some (w.setProcess pid { w.processes pid with lock := .idle })
    else none
  | .advance pid =>
    if (w.processes pid).alive then
      (advanceLock hostname pid w.pidAlive w.disk (w.processes pid).lock).map (fun r =>
        { w.setProcess pid { w.processes pid with lock := r.1 } with disk := r.2 })
    else none
  | .reclaim pid =>
    if (w.processes pid).alive ∧ (w.processes pid).reclaim = .idle then
      some (w.setProcess pid { w.processes pid with reclaim := .starting })
    else none
  | .advanceReclaim pid =>
    if (w.processes pid).alive then
      (Storage.advanceReclaim w.pidAlive w.disk (w.processes pid).reclaim).map (fun r =>
        { w.setProcess pid { w.processes pid with reclaim := r.1 } with disk := r.2 })
    else none

end Workspace

def lockMachine (hostname : String) : Machine Workspace LockStep := ⟨Workspace.step hostname⟩

/-- The process is between the return of `acquire` and the start of `release`. -/
def Workspace.Holds (w : Workspace) (pid : ℕ) : Prop :=
  (w.processes pid).alive = true ∧ ∃ fh, (w.processes pid).lock = .acquired fh

def MutuallyExclusive (w : Workspace) : Prop := ∀ p q, w.Holds p → w.Holds q → p = q

/-- The file the path names, if any, is not locked. -/
def Disk.Unlocked (d : Disk) : Prop := ∀ i ∈ d.lockPath, d.flock i = none

instance (d : Disk) : Decidable d.Unlocked := inferInstanceAs (Decidable (∀ i ∈ d.lockPath, _))

/-- The next call, where it grants the lock, grants it on the file the path names; where it removes the file, no process
has it locked. -/
def LockStage.Keeps (d : Disk) : LockStage → Prop
  | .opened fh => d.flock fh = none → d.lockPath = some fh
  | .removing | .unlinking => d.Unlocked
  | _ => True

instance (d : Disk) (st : LockStage) : Decidable (st.Keeps d) := by
  cases st <;> unfold LockStage.Keeps <;> infer_instance

/-- **The step keeps the lock where the path is**: a lock granted is granted on the file the path names, and a file is
removed only while no process has it locked. -/
def LockKept (w : Workspace) : LockStep → Prop
  | .advance pid => (w.processes pid).lock.Keeps w.disk
  | .advanceReclaim pid => (w.processes pid).reclaim = .removing → w.disk.Unlocked
  | .spawn _ | .crash _ | .acquire _ | .release _ | .expire _ | .reclaim _ => True

instance (w : Workspace) (step : LockStep) : Decidable (LockKept w step) := by
  cases step <;> unfold LockKept <;> infer_instance

/-! ## What a call does to the file and its lock -/

/-- The file a process has locked at this stage. -/
def LockStage.lockedFile : LockStage → Option ℕ
  | .locked fh | .truncated fh | .acquired fh | .releasing fh => some fh
  | _ => none

/-- **What a call of `acquire` or `release` does**: leave the path and the locks, create the file, lock it, unlock it or
remove it. -/
theorem advanceLock_cases {hostname : String} {pid : ℕ} {pidAlive : ℕ → Bool} {d d' : Disk} {st st' : LockStage}
    (h : advanceLock hostname pid pidAlive d st = some (st', d')) :
    (d'.lockPath = d.lockPath ∧ d'.flock = d.flock ∧ st'.lockedFile = st.lockedFile) ∨
    (d.lockPath = none ∧ d'.flock = d.flock ∧ st.lockedFile = none ∧ st'.lockedFile = none) ∨
    (∃ fh, st = .opened fh ∧ d.flock fh = none ∧ d'.lockPath = d.lockPath ∧
      d'.flock = Function.update d.flock fh (some pid) ∧ st'.lockedFile = some fh) ∨
    (∃ fh, st.lockedFile = some fh ∧ d'.lockPath = d.lockPath ∧ d'.flock = Function.update d.flock fh none ∧
      st'.lockedFile = none) ∨
    ((st = .removing ∨ st = .unlinking) ∧ d'.flock = d.flock ∧ st.lockedFile = none ∧ st'.lockedFile = none) := by
  cases st with
  | idle => cases h
  | acquired fh => cases h
  | opening =>
    cases h
    unfold Disk.openAppend
    cases hp : d.lockPath with
    | some i => exact Or.inl ⟨hp, rfl, rfl⟩
    | none => exact Or.inr (Or.inl ⟨rfl, rfl, rfl, rfl⟩)
  | opened fh =>
    unfold advanceLock Disk.lock at h
    cases hf : d.flock fh with
    | some p =>
      simp only [hf] at h
      cases h
      exact Or.inl ⟨rfl, rfl, rfl⟩
    | none =>
      simp only [hf] at h
      cases h
      exact Or.inr (Or.inr (Or.inl ⟨fh, rfl, hf, rfl, rfl, rfl⟩))
  | locked fh => cases h; exact Or.inl ⟨rfl, rfl, rfl⟩
  | truncated fh => cases h; exact Or.inl ⟨rfl, rfl, rfl⟩
  | refused fh => cases h; exact Or.inl ⟨rfl, rfl, rfl⟩
  | reading =>
    unfold advanceLock at h
    cases hr : d.readText with
    | none => simp only [hr] at h; cases h; exact Or.inl ⟨rfl, rfl, rfl⟩
    | some o =>
      cases o with
      | none => simp only [hr] at h; cases h; exact Or.inl ⟨rfl, rfl, rfl⟩
      | some owner => simp only [hr] at h; cases h; exact Or.inl ⟨rfl, rfl, rfl⟩
  | checking owner =>
    cases h
    refine Or.inl ⟨rfl, rfl, ?_⟩
    split <;> rfl
  | removing => cases h; exact Or.inr (Or.inr (Or.inr (Or.inr ⟨Or.inl rfl, rfl, rfl, rfl⟩)))
  | waiting => cases h; exact Or.inl ⟨rfl, rfl, rfl⟩
  | releasing fh => cases h; exact Or.inr (Or.inr (Or.inr (Or.inl ⟨fh, rfl, rfl, rfl, rfl⟩)))
  | unlocked fh => cases h; exact Or.inl ⟨rfl, rfl, rfl⟩
  | unlinking => cases h; exact Or.inr (Or.inr (Or.inr (Or.inr ⟨Or.inr rfl, rfl, rfl, rfl⟩)))

/-- What a call of `reclaim` does: nothing to the locks, and nothing to the path but remove it as stale. -/
theorem advanceReclaim_cases {pidAlive : ℕ → Bool} {d d' : Disk} {st st' : ReclaimStage}
    (h : advanceReclaim pidAlive d st = some (st', d')) :
    d'.flock = d.flock ∧ (d'.lockPath = d.lockPath ∨ st = .removing) := by
  cases st with
  | idle => cases h
  | starting => cases h; exact ⟨rfl, Or.inl rfl⟩
  | reading =>
    unfold advanceReclaim at h
    cases hr : d.readText with
    | none => simp only [hr] at h; cases h; exact ⟨rfl, Or.inl rfl⟩
    | some o =>
      cases o with
      | none => simp only [hr] at h; cases h; exact ⟨rfl, Or.inl rfl⟩
      | some owner => simp only [hr] at h; cases h; exact ⟨rfl, Or.inl rfl⟩
  | checking owner => cases h; exact ⟨rfl, Or.inl rfl⟩
  | removing => cases h; exact ⟨rfl, Or.inr rfl⟩

/-! ## The locked file is the one the path names -/

/-- Each process past its lock call has its file locked, and a locked file is the one the path names. -/
structure LockInv (w : Workspace) : Prop where
  held : ∀ p, (w.processes p).alive = true → ∀ fh, (w.processes p).lock.lockedFile = some fh → w.disk.flock fh = some p
  named : ∀ i p, w.disk.flock i = some p → w.disk.lockPath = some i

theorem LockInv.mutuallyExclusive {w : Workspace} (h : LockInv w) : MutuallyExclusive w := by
  rintro p q ⟨hp, i, hi⟩ ⟨hq, j, hj⟩
  have hpi := h.held p hp i (by rw [hi]; rfl)
  have hqj := h.held q hq j (by rw [hj]; rfl)
  have hij : some i = some j := (h.named i p hpi).symm.trans (h.named j q hqj)
  cases hij
  exact Option.some.inj (hpi.symm.trans hqj)

/-- A step that locks nothing and unlocks nothing, and leaves the path of a locked file. -/
theorem LockInv.quiet {w w' : Workspace} (h : LockInv w) (hflock : w'.disk.flock = w.disk.flock)
    (hpath : w'.disk.lockPath = w.disk.lockPath ∨ ∀ i, w.disk.flock i = none)
    (hprocesses : ∀ p, (w'.processes p).alive = true → ∀ fh, (w'.processes p).lock.lockedFile = some fh →
      (w.processes p).alive = true ∧ (w.processes p).lock.lockedFile = some fh) : LockInv w' := by
  refine ⟨fun p hp fh hfh => ?_, fun i p hi => ?_⟩
  · rw [hflock]
    obtain ⟨hlive, hheld⟩ := hprocesses p hp fh hfh
    exact h.held p hlive fh hheld
  · rw [hflock] at hi
    rcases hpath with hsame | hnone
    · rw [hsame]
      exact h.named i p hi
    · rw [hnone i] at hi
      cases hi

/-- No file is locked when the one the path names is not. -/
theorem LockInv.flock_none {w : Workspace} (h : LockInv w) (hunlocked : w.disk.Unlocked) (i : ℕ) :
    w.disk.flock i = none := by
  cases hi : w.disk.flock i with
  | none => rfl
  | some p =>
    have hnone := hunlocked i (h.named i p hi)
    rw [hi] at hnone
    cases hnone

@[simp] theorem setProcess_processes (w : Workspace) (pid : ℕ) (p : Process) (q : ℕ) :
    (w.setProcess pid p).processes q = if q = pid then p else w.processes q :=
  Function.update_apply _ _ _ _

/-- Only this process moves, and with no file locked that it had not locked. -/
theorem setProcess_holds_less {w : Workspace} {pid : ℕ} {p' : Process} (h : p'.alive = true → ∀ fh,
      p'.lock.lockedFile = some fh →
        (w.processes pid).alive = true ∧ (w.processes pid).lock.lockedFile = some fh) :
    ∀ p, ((w.setProcess pid p').processes p).alive = true → ∀ fh,
      ((w.setProcess pid p').processes p).lock.lockedFile = some fh →
        (w.processes p).alive = true ∧ (w.processes p).lock.lockedFile = some fh := by
  intro p hp fh hfh
  rw [setProcess_processes] at hp hfh
  by_cases hpid : p = pid
  · rw [if_pos hpid] at hp hfh
    rw [hpid]
    exact h hp fh hfh
  · rw [if_neg hpid] at hp hfh
    exact ⟨hp, hfh⟩

theorem lockInv_crash {w : Workspace} (h : LockInv w) (pid : ℕ) :
    LockInv { w.setProcess pid {} with disk := w.disk.dropLocks pid } := by
  refine ⟨fun p hp fh hfh => ?_, fun i p hi => ?_⟩
  · have hnone : ({} : Process).alive = true → ∀ fh, ({} : Process).lock.lockedFile = some fh →
        (w.processes pid).alive = true ∧ (w.processes pid).lock.lockedFile = some fh := fun hdead => by cases hdead
    have hless := setProcess_holds_less hnone p hp fh hfh
    have hne : p ≠ pid := by
      rintro rfl
      have hdead : ((w.setProcess p {}).processes p).alive = true := hp
      rw [setProcess_processes, if_pos rfl] at hdead
      cases hdead
    have hheld := h.held p hless.1 fh hless.2
    show (if w.disk.flock fh = some pid then none else w.disk.flock fh) = some p
    rw [if_neg (by rw [hheld]; exact fun heq => hne (Option.some.inj heq)), hheld]
  · have hi' : (if w.disk.flock i = some pid then none else w.disk.flock i) = some p := hi
    split at hi'
    · cases hi'
    · exact h.named i p hi'

/-- A lock granted on the file the path names. -/
theorem lockInv_lock {w : Workspace} (h : LockInv w) {pid fh : ℕ} {p' : Process} {d' : Disk}
    (hfree : w.disk.flock fh = none) (hnamed : w.disk.lockPath = some fh) (hpath : d'.lockPath = w.disk.lockPath)
    (hflock : d'.flock = Function.update w.disk.flock fh (some pid)) (hheld : p'.lock.lockedFile = some fh) :
    LockInv { w.setProcess pid p' with disk := d' } := by
  -- nothing else is locked: it would be the file the path names
  have hnone : ∀ i, w.disk.flock i = none :=
    h.flock_none (fun i hi => by cases hnamed.symm.trans hi; exact hfree)
  refine ⟨fun p hp i hi => ?_, fun i p hi => ?_⟩
  · have hi' : ((w.setProcess pid p').processes p).lock.lockedFile = some i := hi
    have hp' : ((w.setProcess pid p').processes p).alive = true := hp
    show d'.flock i = some p
    rw [hflock]
    rw [setProcess_processes] at hi' hp'
    by_cases hpid : p = pid
    · rw [if_pos hpid, hheld] at hi'
      cases hi'
      rw [Function.update_self, hpid]
    · rw [if_neg hpid] at hi' hp'
      have hother := h.held p hp' i hi'
      rw [hnone i] at hother
      cases hother
  · have hi' : d'.flock i = some p := hi
    rw [hflock] at hi'
    by_cases hfh : i = fh
    · show d'.lockPath = some i
      rw [hpath, hnamed, hfh]
    · rw [Function.update_of_ne hfh, hnone i] at hi'
      cases hi'

theorem lockInv_unlock {w : Workspace} (h : LockInv w) {pid fh : ℕ} {p' : Process} {d' : Disk}
    (hlive : (w.processes pid).alive = true) (hheld : (w.processes pid).lock.lockedFile = some fh)
    (hpath : d'.lockPath = w.disk.lockPath) (hflock : d'.flock = Function.update w.disk.flock fh none)
    (hnone : p'.lock.lockedFile = none) : LockInv { w.setProcess pid p' with disk := d' } := by
  have hpid := h.held pid hlive fh hheld
  refine ⟨fun p hp i hi => ?_, fun i p hi => ?_⟩
  · have hi' : ((w.setProcess pid p').processes p).lock.lockedFile = some i := hi
    have hp' : ((w.setProcess pid p').processes p).alive = true := hp
    show d'.flock i = some p
    rw [hflock]
    rw [setProcess_processes] at hi' hp'
    by_cases hsame : p = pid
    · rw [if_pos hsame, hnone] at hi'
      cases hi'
    · rw [if_neg hsame] at hi' hp'
      have hother := h.held p hp' i hi'
      have hne : i ≠ fh := by
        rintro rfl
        exact hsame (Option.some.inj (hother.symm.trans hpid))
      rw [Function.update_of_ne hne, hother]
  · have hi' : d'.flock i = some p := hi
    rw [hflock] at hi'
    show d'.lockPath = some i
    rw [hpath]
    by_cases hfh : i = fh
    · rw [hfh, Function.update_self] at hi'
      cases hi'
    · rw [Function.update_of_ne hfh] at hi'
      exact h.named i p hi'

theorem lockInv_advance {hostname : String} {w : Workspace} {pid : ℕ} (h : LockInv w)
    (hlive : (w.processes pid).alive = true) (hkept : LockKept w (.advance pid)) {r : LockStage × Disk}
    (hr : advanceLock hostname pid w.pidAlive w.disk (w.processes pid).lock = some r) :
    LockInv { w.setProcess pid { w.processes pid with lock := r.1 } with disk := r.2 } := by
  obtain ⟨st', d'⟩ := r
  have hkeeps : (w.processes pid).lock.Keeps w.disk := hkept
  rcases advanceLock_cases hr with ⟨hpath, hflock, hsame⟩ | ⟨hmissing, hflock, -, hnone⟩ |
    ⟨fh, hst, hfree, hpath, hflock, hheld⟩ | ⟨fh, hheld, hpath, hflock, hnone⟩ | ⟨hst, hflock, -, hnone⟩
  · refine h.quiet hflock (Or.inl hpath) (setProcess_holds_less (fun _ fh hfh => ⟨hlive, ?_⟩))
    rw [← hsame]
    exact hfh
  · refine h.quiet hflock (Or.inr (h.flock_none (fun i hi => ?_))) (setProcess_holds_less (fun _ fh hfh => ?_))
    · rw [hmissing] at hi
      cases hi
    · rw [hnone] at hfh
      cases hfh
  · have hnamed : w.disk.lockPath = some fh := by
      rw [hst] at hkeeps
      exact hkeeps hfree
    exact lockInv_lock h hfree hnamed hpath hflock hheld
  · exact lockInv_unlock h hlive hheld hpath hflock hnone
  · have hunlocked : w.disk.Unlocked := by
      rcases hst with hst | hst
      · rw [hst] at hkeeps
        exact hkeeps
      · rw [hst] at hkeeps
        exact hkeeps
    refine h.quiet hflock (Or.inr (h.flock_none hunlocked)) (setProcess_holds_less (fun _ fh hfh => ?_))
    rw [hnone] at hfh
    cases hfh

theorem lockInv_step {hostname : String} {w w' : Workspace} {step : LockStep} (h : LockInv w) (hkept : LockKept w step)
    (hstep : (lockMachine hostname).step w step = some w') : LockInv w' := by
  have hstep' : Workspace.step hostname w step = some w' := hstep
  cases step with
  | spawn pid =>
    simp only [Workspace.step, Option.ite_none_right_eq_some, Option.some.injEq] at hstep'
    obtain ⟨-, rfl⟩ := hstep'
    exact h.quiet rfl (Or.inl rfl) (setProcess_holds_less (fun _ fh hfh => by cases hfh))
  | crash pid =>
    simp only [Workspace.step, Option.ite_none_right_eq_some, Option.some.injEq] at hstep'
    obtain ⟨-, rfl⟩ := hstep'
    exact lockInv_crash h pid
  | acquire pid =>
    simp only [Workspace.step, Option.ite_none_right_eq_some, Option.some.injEq] at hstep'
    obtain ⟨-, rfl⟩ := hstep'
    exact h.quiet rfl (Or.inl rfl) (setProcess_holds_less (fun _ fh hfh => by cases hfh))
  | release pid =>
    simp only [Workspace.step, Option.ite_none_right_eq_some] at hstep'
    obtain ⟨hlive, hstep'⟩ := hstep'
    cases hst : (w.processes pid).lock <;> rw [hst] at hstep' <;> cases hstep'
    · exact h.quiet rfl (Or.inl rfl) (setProcess_holds_less (fun _ fh hfh => by cases hfh))
    · refine h.quiet rfl (Or.inl rfl) (setProcess_holds_less (fun _ fh hfh => ⟨hlive, ?_⟩))
      rw [hst]
      exact hfh
  | expire pid =>
    simp only [Workspace.step, Option.ite_none_right_eq_some, Option.some.injEq] at hstep'
    obtain ⟨-, rfl⟩ := hstep'
    exact h.quiet rfl (Or.inl rfl) (setProcess_holds_less (fun _ fh hfh => by cases hfh))
  | advance pid =>
    simp only [Workspace.step, Option.ite_none_right_eq_some, Option.map_eq_some_iff] at hstep'
    obtain ⟨hlive, r, hr, rfl⟩ := hstep'
    exact lockInv_advance h hlive hkept hr
  | reclaim pid =>
    simp only [Workspace.step, Option.ite_none_right_eq_some, Option.some.injEq] at hstep'
    obtain ⟨⟨hlive, -⟩, rfl⟩ := hstep'
    exact h.quiet rfl (Or.inl rfl) (setProcess_holds_less (fun _ fh hfh => ⟨hlive, hfh⟩))
  | advanceReclaim pid =>
    simp only [Workspace.step, Option.ite_none_right_eq_some, Option.map_eq_some_iff] at hstep'
    obtain ⟨hlive, ⟨st', d'⟩, hr, rfl⟩ := hstep'
    obtain ⟨hflock, hpath⟩ := advanceReclaim_cases hr
    refine h.quiet hflock ?_ (setProcess_holds_less (fun _ fh hfh => ⟨hlive, hfh⟩))
    rcases hpath with hsame | hst
    · exact Or.inl hsame
    · exact Or.inr (h.flock_none (hkept hst))

/-- **The workspace lock**: from any lock file an earlier session left, in every run whose steps keep the lock where
the path is, crashes at any step included, at most one live process is between `acquire` and `release`. -/
theorem mutuallyExclusive_of_lockKept (hostname : String) (disk : Disk) (hfree : ∀ i, disk.flock i = none)
    (steps : List LockStep) (w : Workspace)
    (hkept : (lockMachine hostname).Along (fun w step _ => LockKept w step) { disk } steps)
    (hrun : (lockMachine hostname).run { disk } steps = some w) : MutuallyExclusive w := by
  have hinit : LockInv { disk } := by
    refine ⟨(fun p hp => by cases hp), fun i p hi => ?_⟩
    rw [hfree i] at hi
    cases hi
  have hend := (lockMachine hostname).inv_of_along LockInv (fun w step w' h hk hs => lockInv_step h hk hs) steps _ _ hinit
    hkept hrun
  exact hend.mutuallyExclusive

/-! ## Three processes -/

/-- Process 2 opens the lock file while process 1 holds it and locks it as soon as 1 has unlocked it; 1 then removes
the file, and 3 locks a new one. -/
def lockRemoved : List LockStep :=
  [.spawn 1, .spawn 2, .spawn 3, .acquire 1, .advance 1, .advance 1, .advance 1, .advance 1, .acquire 2, .advance 2,
    .release 1, .advance 1, .advance 2, .advance 1, .advance 1, .advance 2, .advance 2, .acquire 3, .advance 3,
    .advance 3, .advance 3, .advance 3]

/-- Process 1 dies with the lock; 2 finds it free and gives it back, and 3 takes it after a refusal. -/
def lockReturned : List LockStep :=
  [.spawn 1, .spawn 2, .spawn 3, .acquire 1, .advance 1, .advance 1, .advance 1, .advance 1, .crash 1, .acquire 2,
    .advance 2, .advance 2, .advance 2, .advance 2, .acquire 3, .advance 3, .advance 3, .advance 3, .advance 3,
    .advance 3, .release 2, .advance 2, .advance 2, .advance 2, .advance 3, .advance 3, .advance 3, .advance 3,
    .advance 3]

theorem mutuallyExclusive_lockReturned : ∃ w, (lockMachine "host").run {} lockReturned = some w ∧ w.Holds 3 ∧
    MutuallyExclusive w := by
  have hrun : ((lockMachine "host").run {} lockReturned).any (fun w => decide ((w.processes 3).alive = true ∧
      (w.processes 3).lock = .acquired 1)) = true := by decide +kernel
  obtain ⟨w, hw, hholds⟩ := (Option.any_eq_true _ _).1 hrun
  rw [decide_eq_true_eq] at hholds
  have hkept : (lockMachine "host").Along (fun w step _ => LockKept w step) {} lockReturned := by decide +kernel
  exact ⟨w, hw, ⟨hholds.1, 1, hholds.2⟩, mutuallyExclusive_of_lockKept "host" {} (fun _ => rfl) lockReturned w hkept hw⟩

/-- **Two processes hold the lock**, of two files: `release` unlocks the file before it removes it. -/
theorem two_hold_lock : ∃ w, (lockMachine "host").run {} lockRemoved = some w ∧ w.Holds 2 ∧ w.Holds 3 ∧
    ¬ MutuallyExclusive w := by
  have hrun : ((lockMachine "host").run {} lockRemoved).any (fun w => decide (((w.processes 2).alive = true ∧
      (w.processes 2).lock = .acquired 0) ∧ (w.processes 3).alive = true ∧ (w.processes 3).lock = .acquired 1)) = true := by
    decide +kernel
  obtain ⟨w, hw, hholds⟩ := (Option.any_eq_true _ _).1 hrun
  rw [decide_eq_true_eq] at hholds
  obtain ⟨⟨h2, h2'⟩, h3, h3'⟩ := hholds
  refine ⟨w, hw, ⟨h2, 0, h2'⟩, ⟨h3, 1, h3'⟩, fun hexcl => ?_⟩
  have heq := hexcl 2 3 ⟨h2, 0, h2'⟩ ⟨h3, 1, h3'⟩
  omega

end Storage
end DevHarness
