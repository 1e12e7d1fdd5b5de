import Mathlib.Algebra.Order.Field.Rat
import Mathlib.Order.Monotone.Defs
import Mathlib.Data.Finset.Basic
import Mathlib.Data.Rat.Floor
import Mathlib.Tactic.Linarith
/-!
# Signals — SIGINT, a grace period, SIGKILL, and a reap that does not wait (`core/signals.py`)

A group answers signals as long as one of its processes has not been waited for, a zombie included, so the probe of the grace
period does not tell a leader that has exited from one that still runs.  Nobody but the caller waits for a child that leads a
group: with such a leader the period always runs out, and the one `waitpid` after SIGKILL comes before the leader is dead.
-/
namespace DevHarness
namespace Core

/-- A process of the group: when it exits if it is not killed, how long it takes to die of SIGKILL, and how long after its
exit somebody other than the caller waits for it. -/
structure Member where
  exit : Option ℚ
  dying : ℚ
  collected : Option ℚ
  dying_pos : 0 < dying
  collected_nonneg : ∀ d ∈ collected, 0 ≤ d

namespace Member

/-- The exit of a member to which SIGKILL was sent at the time `killed`, if it was. -/
def exitAt (m : Member) : Option ℚ → Option ℚ
  | none => m.exit
  | some k => some (m.exit.elim (k + m.dying) fun e => min e (k + m.dying))

/-- It has exited, be it as a zombie. -/
def hasExited (m : Member) (killed : Option ℚ) (now : ℚ) : Bool :=
  (m.exitAt killed).any fun e => e ≤ now

/-- It has exited and has been waited for. -/
def isGone (m : Member) (killed : Option ℚ) (now : ℚ) : Bool :=
  (m.exitAt killed).any fun e => m.collected.any fun d => e + d ≤ now

variable {m : Member} {killed : Option ℚ} {now later : ℚ}

theorem hasExited_iff : m.hasExited killed now = true ↔ ∃ e, m.exitAt killed = some e ∧ e ≤ now := by
  unfold hasExited
  cases m.exitAt killed <;> simp

theorem isGone_iff :
    m.isGone killed now = true ↔ ∃ e, m.exitAt killed = some e ∧ ∃ d, m.collected = some d ∧ e + d ≤ now := by
  unfold isGone
  cases m.exitAt killed <;> cases m.collected <;> simp

theorem hasExited_of_isGone (h : m.isGone killed now = true) : m.hasExited killed now = true := by
  obtain ⟨e, he, d, hd, hle⟩ := isGone_iff.1 h
  have := m.collected_nonneg d hd
  exact hasExited_iff.2 ⟨e, he, by linarith⟩

theorem isGone_mono (hle : now ≤ later) (h : m.isGone killed now = true) : m.isGone killed later = true := by
  obtain ⟨e, he, d, hd, h'⟩ := isGone_iff.1 h
  exact isGone_iff.2 ⟨e, he, d, hd, h'.trans hle⟩

/-- SIGKILL does not put an exit off. -/
theorem hasExited_killed {k : ℚ} (h : m.hasExited none now = true) : m.hasExited (some k) now = true := by
  obtain ⟨e, he, h'⟩ := hasExited_iff.1 h
  rw [exitAt] at he
  exact hasExited_iff.2 ⟨min e (k + m.dying), by rw [exitAt, he]; rfl, (min_le_left _ _).trans h'⟩

/-- **A killed process is not dead at once**: up to the time of SIGKILL nothing is different. -/
theorem hasExited_before_kill {k : ℚ} (hle : now ≤ k) : m.hasExited (some k) now = m.hasExited none now := by
  have hd := m.dying_pos
  rw [Bool.eq_iff_iff, hasExited_iff, hasExited_iff, exitAt, exitAt]
  constructor
  · rintro ⟨e, he, h⟩
    cases hx : m.exit with
    | none =>
      rw [hx] at he
      obtain rfl := Option.some.inj he
      simp only [Option.elim_none] at h
      linarith
    | some x =>
      rw [hx] at he
      obtain rfl := Option.some.inj he
      rw [Option.elim_some, min_le_iff] at h
      exact ⟨x, rfl, h.resolve_right (by linarith)⟩
  · rintro ⟨e, he, h⟩
    exact ⟨_, rfl, by rw [he, Option.elim_some]; exact (min_le_left _ _).trans h⟩

end Member

/-- A process group, and whether its leader is a child of the caller. -/
structure ProcessGroup where
  leader : Member
  others : List Member
  isChild : Bool

namespace ProcessGroup

/-- A signal to the group finds somebody; a zombie that nobody has waited for is enough. -/
def answers (g : ProcessGroup) (killed : Option ℚ) (now : ℚ) : Bool :=
  (g.leader :: g.others).any fun m => !m.isGone killed now

def running (g : ProcessGroup) (killed : Option ℚ) (now : ℚ) : Bool :=
  (g.leader :: g.others).any fun m => !m.hasExited killed now

variable {g : ProcessGroup} {killed : Option ℚ} {now later : ℚ}

theorem answers_earlier (hle : now ≤ later) (h : g.answers killed later = true) : g.answers killed now = true := by
  rw [answers, List.any_eq_true] at h ⊢
  obtain ⟨m, hm, h⟩ := h
  refine ⟨m, hm, ?_⟩
  rw [Bool.not_eq_true'] at h ⊢
  exact Bool.eq_false_iff.2 fun hg => Bool.eq_false_iff.1 h (Member.isGone_mono hle hg)

theorem leader_isGone (h : g.answers killed now = false) : g.leader.isGone killed now = true := by
  rw [answers, List.any_eq_false] at h
  simpa using h g.leader List.mem_cons_self

theorem running_before_kill {k : ℚ} (hle : now ≤ k) : g.running (some k) now = g.running none now := by
  simp only [running, Member.hasExited_before_kill hle]

end ProcessGroup

/-- The group and the clock: the `n`-th call of the system is made at the time `clock n`, and time goes by. -/
structure System where
  group : ProcessGroup
  clock : ℕ → ℚ
  monotone : Monotone clock
  past : ℚ → ℕ
  passes : ∀ t, t ≤ clock (past t)

structure InterruptResult where
  pgid : ℤ
  sigintSent : Bool
  sigkillSent : Bool
  alreadyDead : Bool
  reaped : ℕ
  reapFailed : Bool
  deriving DecidableEq

/-- What `interrupt` leaves behind: its result, the groups still tracked, when SIGKILL reached the group, and the time of the
last call. -/
structure Outcome where
  result : InterruptResult
  tracked : Finset ℤ
  killed : Option ℚ
  returned : ℚ

/-- The answer of `waitpid(pgid, WNOHANG)`. -/
inductive Waited where
  | childProcessError
  | nothing
  | reaped
  deriving DecidableEq

namespace System

/-- `killpg`, `false` for the `ProcessLookupError` of a group that is gone; nobody has been killed yet. -/
def killpg (s : System) (n : ℕ) : Bool := s.group.answers none (s.clock n)

/-- `_signal`. -/
def signal (s : System) (n : ℕ) : Bool := s.killpg n

/-- `_probe_alive`: signal 0. -/
def probeAlive (s : System) (n : ℕ) : Bool := s.killpg n

/-- `waitpid` for the leader, as long as the caller has not collected it. -/
def waitpid (s : System) (killed : Option ℚ) (n : ℕ) : Waited :=
  if !s.group.isChild || s.group.leader.isGone killed (s.clock n) then .childProcessError
  else if s.group.leader.hasExited killed (s.clock n) then .reaped
  else .nothing

/-- The loop of `_reap`; `left` processes of that id are still to be collected by the caller.  The last component counts the
calls made. -/
def reapLoop (s : System) (killed : Option ℚ) : (left n reaped : ℕ) → ℕ × Bool × ℕ
  | 0, n, reaped => (reaped, reaped == 0, n + 1)
  | left + 1, n, reaped =>
    match s.waitpid killed n with
    | .childProcessError => (reaped, reaped == 0, n + 1)
    | .nothing => (reaped, false, n + 1)
    | .reaped => reapLoop s killed left (n + 1) (reaped + 1)

/-- `_reap`: one process has the id of the group. -/
def reap (s : System) (killed : Option ℚ) (n : ℕ) : ℕ × Bool × ℕ := s.reapLoop killed 1 n 0

theorem clock_lt_deadline {s : System} {deadline : ℚ} {n : ℕ} (h : ¬deadline ≤ s.clock (n + 1)) : n < s.past deadline := by
  by_contra hge
  exact h ((s.passes deadline).trans (s.monotone (by omega)))

/-- The loop of `_wait_for_exit`, a probe and a reading of the clock each time round. -/
def waitLoop (s : System) (deadline : ℚ) (n : ℕ) : Bool × ℕ :=
  if !s.probeAlive n then (true, n + 1)
  else if h : deadline ≤ s.clock (n + 1) then (false, n + 2)
  else waitLoop s deadline (n + 2)
termination_by s.past deadline - n
decreasing_by
  have := clock_lt_deadline h
  omega

def waitForExit (s : System) (grace : ℚ) (n : ℕ) : Bool × ℕ := s.waitLoop (s.clock n + grace) (n + 1)

/-- `interrupt`, with the SIGINT as call 0. -/
def interrupt (s : System) (grace : ℚ) (tracked : Finset ℤ) (pgid : ℤ) : Outcome :=
  if !s.signal 0 then
    let (reaped, reapFailed, n) := s.reap none 1
    ⟨⟨pgid, false, false, true, reaped, reapFailed⟩, tracked.erase pgid, none, s.clock (n - 1)⟩
  else
    match s.waitForExit grace 1 with
    | (true, n) =>
      let (reaped, reapFailed, n') := s.reap none n
      ⟨⟨pgid, true, false, false, reaped, reapFailed⟩, tracked.erase pgid, none, s.clock (n' - 1)⟩
    | (false, n) =>
      let killed := if s.signal n then some (s.clock n) else none
      let (reaped, reapFailed, n') := s.reap killed (n + 1)
      ⟨⟨pgid, true, true, false, reaped, reapFailed⟩, tracked.erase pgid, killed, s.clock (n' - 1)⟩

/-- **One `waitpid` that does not wait**: it deals with a child if and only if the child has exited by then. -/
theorem reap_iff (s : System) (killed : Option ℚ) (n : ℕ) :
    (s.group.isChild = true → 1 ≤ (s.reap killed n).1 ∨
      s.group.leader.isGone killed (s.clock ((s.reap killed n).2.2 - 1)) = true) ↔
    (s.group.isChild = true → s.group.leader.hasExited killed (s.clock n) = true) := by
  refine imp_congr_right fun hc => ?_
  by_cases hg : s.group.leader.isGone killed (s.clock n) = true
  · have hr : s.reap killed n = (0, true, n + 1) := by simp [reap, reapLoop, waitpid, hg]
    rw [hr]
    exact iff_of_true (.inr hg) (Member.hasExited_of_isGone hg)
  · by_cases he : s.group.leader.hasExited killed (s.clock n) = true
    · have hr : s.reap killed n = (1, false, n + 2) := by simp [reap, reapLoop, waitpid, hc, hg, he]
      rw [hr]
      exact iff_of_true (.inl le_rfl) he
    · have hr : s.reap killed n = (0, false, n + 1) := by simp [reap, reapLoop, waitpid, hc, hg, he]
      rw [hr]
      exact iff_of_false (by rintro (h | h); exacts [absurd h (by omega), hg h]) he

/-! ## The grace period -/

/-- The reading that ends the grace period, should the group still be there: the first one at or after the deadline. -/
def Expires (s : System) (grace : ℚ) (i : ℕ) : Prop :=
  s.clock 1 + grace ≤ s.clock (2 * i + 3) ∧ ∀ j < i, s.clock (2 * j + 3) < s.clock 1 + grace

variable {s : System} {grace : ℚ} {i j : ℕ}

theorem exists_expires (s : System) (grace : ℚ) : ∃ i, s.Expires grace i := by
  have hex : ∃ i, s.clock 1 + grace ≤ s.clock (2 * i + 3) :=
    ⟨s.past (s.clock 1 + grace), (s.passes _).trans (s.monotone (by omega))⟩
  classical
  exact ⟨Nat.find hex, Nat.find_spec hex, fun j hj => not_le.1 (Nat.find_min hex hj)⟩

theorem Expires.unique (hi : s.Expires grace i) (hj : s.Expires grace j) : i = j := by
  rcases lt_trichotomy i j with h | h | h
  · exact absurd hi.1 (not_le.2 (hj.2 i h))
  · exact h
  · exact absurd hj.1 (not_le.2 (hi.2 j h))

theorem killpg_earlier {n n' : ℕ} (hle : n ≤ n') (h : s.killpg n' = true) : s.killpg n = true :=
  ProcessGroup.answers_earlier (s.monotone hle) h

/-- A group that still answers the last probe has answered all of them, and runs the period out. -/
theorem waitLoop_expired (hi : s.Expires grace i) (ha : s.killpg (2 * i + 2) = true) :
    ∀ k j, j + k = i → s.waitLoop (s.clock 1 + grace) (2 * j + 2) = (false, 2 * i + 4) := by
  intro k
  induction k with
  | zero =>
    intro j hj
    obtain rfl : j = i := hj
    rw [waitLoop, probeAlive, ha, dif_pos hi.1]
    rfl
  | succ k ih =>
    intro j hj
    have hp : s.killpg (2 * j + 2) = true := killpg_earlier (by omega) ha
    rw [waitLoop, probeAlive, hp, dif_neg (not_le.2 (hi.2 j (by omega)))]
    exact ih (j + 1) (by omega)

/-- A group that does not is found to be gone by one of the probes. -/
theorem waitLoop_gone (hi : s.Expires grace i) (ha : s.killpg (2 * i + 2) = false) :
    ∀ k j, j + k = i → ∃ n, s.waitLoop (s.clock 1 + grace) (2 * j + 2) = (true, n + 1) ∧ s.killpg n = false := by
  intro k
  induction k with
  | zero =>
    intro j hj
    obtain rfl : j = i := hj
    exact ⟨_, by rw [waitLoop, probeAlive, ha]; rfl, ha⟩
  | succ k ih =>
    intro j hj
    cases hp : s.killpg (2 * j + 2) with
    | false => exact ⟨_, by rw [waitLoop, probeAlive, hp]; rfl, hp⟩
    | true =>
      obtain ⟨n, hn, hk⟩ := ih (j + 1) (by omega)
      refine ⟨n, ?_, hk⟩
      rw [waitLoop, probeAlive, hp, dif_neg (not_le.2 (hi.2 j (by omega)))]
      exact hn

theorem reap_gone {n n' : ℕ} (hle : n ≤ n') (h : s.killpg n = false) : s.reap none n' = (0, true, n' + 1) := by
  have hg := Member.isGone_mono (s.monotone hle) (ProcessGroup.leader_isGone h)
  simp [reap, reapLoop, waitpid, hg]

/-- The outcome of an interrupt whose probe, or whose SIGINT, finds nobody. -/
theorem interrupt_gone (hi : s.Expires grace i) (ha : s.killpg (2 * i + 2) = false) (tracked : Finset ℤ) (pgid : ℤ) :
    ∃ sigint n, s.interrupt grace tracked pgid =
      ⟨⟨pgid, sigint, false, !sigint, 0, true⟩, tracked.erase pgid, none, s.clock n⟩ ∧
      s.group.leader.isGone none (s.clock n) = true := by
  cases h0 : s.killpg 0 with
  | false =>
    refine ⟨false, 1, ?_, Member.isGone_mono (s.monotone (by omega)) (ProcessGroup.leader_isGone h0)⟩
    simp [interrupt, signal, h0, reap_gone (Nat.zero_le 1) h0]
  | true =>
    obtain ⟨n, hn, hk⟩ := waitLoop_gone hi ha i 0 (by omega)
    refine ⟨true, n + 1, ?_, Member.isGone_mono (s.monotone (by omega)) (ProcessGroup.leader_isGone hk)⟩
    simp [interrupt, signal, h0, waitForExit, hn, reap_gone (Nat.le_succ n) hk]

/-- When SIGKILL reaches the group, if anybody is left. -/
def killedAt (s : System) (n : ℕ) : Option ℚ := if s.signal n then some (s.clock n) else none

/-- The outcome of an interrupt that runs the grace period out. -/
theorem interrupt_expired (hi : s.Expires grace i) (ha : s.killpg (2 * i + 2) = true) (tracked : Finset ℤ) (pgid : ℤ) :
    s.interrupt grace tracked pgid =
      ⟨⟨pgid, true, true, false, (s.reap (s.killedAt (2 * i + 4)) (2 * i + 5)).1,
          (s.reap (s.killedAt (2 * i + 4)) (2 * i + 5)).2.1⟩,
        tracked.erase pgid, s.killedAt (2 * i + 4),
        s.clock ((s.reap (s.killedAt (2 * i + 4)) (2 * i + 5)).2.2 - 1)⟩ := by
  have h0 : s.killpg 0 = true := killpg_earlier (Nat.zero_le _) ha
  have hn := waitLoop_expired hi ha i 0 (by omega)
  simp [interrupt, signal, h0, waitForExit, hn, killedAt]

/-! ## What an interrupt leaves behind -/

/-- A child that leads the group has been waited for when `interrupt` returns. -/
def LeaderReaped (s : System) (o : Outcome) : Prop :=
  s.group.isChild = true → 1 ≤ o.result.reaped ∨ s.group.leader.isGone o.killed o.returned = true

/-- SIGKILL is for a group of which somebody still ran when the grace period was over. -/
def KillsOnlyRunning (s : System) (grace : ℚ) (o : Outcome) : Prop :=
  o.result.sigkillSent = true → s.group.running o.killed (s.clock 1 + grace) = true

/-- The exits fall so that the escalation works: whenever the group still answers the last probe of the grace period, one of
its processes was running when the period was over, and a child that leads it has exited by the `waitpid` right after
SIGKILL. -/
def InTime (s : System) (grace : ℚ) : Prop :=
  ∀ i, s.Expires grace i → s.group.answers none (s.clock (2 * i + 2)) = true →
    (s.group.isChild = true →
      s.group.leader.hasExited (some (s.clock (2 * i + 4))) (s.clock (2 * i + 5)) = true) ∧
    s.group.running none (s.clock 1 + grace) = true

/-- A SIGKILL that finds nobody changes nothing: the leader is gone already. -/
theorem hasExited_killedAt (n n' : ℕ) (hle : n ≤ n') :
    s.group.leader.hasExited (s.killedAt n) (s.clock n') =
      s.group.leader.hasExited (some (s.clock n)) (s.clock n') := by
  rw [killedAt]
  cases h : s.signal n with
  | true => rfl
  | false =>
    have hg := Member.hasExited_of_isGone (Member.isGone_mono (s.monotone hle) (ProcessGroup.leader_isGone h))
    simp only [Bool.false_eq_true, if_false]
    rw [hg, Member.hasExited_killed hg]

theorem running_killedAt {n : ℕ} {t : ℚ} (hle : t ≤ s.clock n) :
    s.group.running (s.killedAt n) t = s.group.running none t := by
  rw [killedAt]
  split
  · exact ProcessGroup.running_before_kill hle
  · rfl

/-- A leader that nobody else waits for is there to the end: the grace period runs out and SIGKILL is sent, however early
the whole group has exited. -/
theorem sigkill_of_uncollected (s : System) (grace : ℚ) (tracked : Finset ℤ) (pgid : ℤ)
    (h : s.group.leader.collected = none) : (s.interrupt grace tracked pgid).result.sigkillSent = true := by
  obtain ⟨i, hi⟩ := exists_expires s grace
  have ha : s.killpg (2 * i + 2) = true := by
    refine Bool.not_eq_false _ ▸ fun hg => ?_
    obtain ⟨e, -, d, hd, -⟩ := Member.isGone_iff.1 (ProcessGroup.leader_isGone hg)
    rw [h] at hd
    cases hd
  rw [interrupt_expired hi ha]

/-- **When an interrupt keeps its promises.** -/
theorem interrupt_iff (s : System) (grace : ℚ) (tracked : Finset ℤ) (pgid : ℤ) :
    (s.LeaderReaped (s.interrupt grace tracked pgid) ∧ s.KillsOnlyRunning grace (s.interrupt grace tracked pgid)) ↔
      s.InTime grace := by
  obtain ⟨i, hi⟩ := exists_expires s grace
  have hin : s.InTime grace ↔ (s.killpg (2 * i + 2) = true →
      (s.group.isChild = true →
        s.group.leader.hasExited (some (s.clock (2 * i + 4))) (s.clock (2 * i + 5)) = true) ∧
      s.group.running none (s.clock 1 + grace) = true) :=
    ⟨fun h => h i hi, fun h j hj => by obtain rfl := hi.unique hj; exact h⟩
  rw [hin]
  cases ha : s.killpg (2 * i + 2) with
  | false =>
    obtain ⟨sigint, n, he, hg⟩ := interrupt_gone hi ha tracked pgid
    rw [he]
    exact iff_of_true ⟨fun _ => .inr hg, fun h => by cases h⟩ (fun h => by cases h)
  | true =>
    have hd : s.clock 1 + grace ≤ s.clock (2 * i + 4) := hi.1.trans (s.monotone (by omega))
    rw [interrupt_expired hi ha, LeaderReaped, KillsOnlyRunning]
    simp only [reap_iff, hasExited_killedAt _ _ (Nat.le_succ (2 * i + 4)), running_killedAt hd, true_imp_iff]

/-! A runner that ignores SIGINT and takes a tenth of a second to die, polled every 0.05 s for the default 3 s. -/

def stubborn : System where
  group := ⟨⟨none, 1 / 10, none, by norm_num, by simp⟩, [], true⟩
  clock n := n / 40
  monotone := fun a b h => by
    have : (a : ℚ) ≤ b := by exact_mod_cast h
    linarith
  past t := ⌈40 * t⌉₊
  passes t := by
    have := Nat.le_ceil (40 * t)
    linarith

/-- **The zombie**: `interrupt` returns, the runner is dying, and nobody will wait for it. -/
theorem stubborn_zombie :
    ¬(stubborn.LeaderReaped (stubborn.interrupt 3 {7} 7) ∧
      stubborn.KillsOnlyRunning 3 (stubborn.interrupt 3 {7} 7)) := by
  have hi : stubborn.Expires 3 59 := by
    refine ⟨by norm_num [stubborn], fun j hj => ?_⟩
    have : (j : ℚ) ≤ 58 := by exact_mod_cast Nat.le_of_lt_succ hj
    simp only [stubborn, Nat.cast_add, Nat.cast_mul, Nat.cast_ofNat, Nat.cast_one]
    linarith
  rintro ⟨h, -⟩
  rw [interrupt_expired hi rfl, LeaderReaped] at h
  have hx := (reap_iff _ _ _).1 h rfl
  rw [hasExited_killedAt _ _ (by omega), Member.hasExited_iff] at hx
  obtain ⟨e, he, hle⟩ := hx
  obtain rfl := Option.some.inj he
  norm_num [stubborn] at hle

end System
end Core
end DevHarness
