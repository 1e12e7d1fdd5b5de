import DevHarness.Lib.Machine
import Mathlib.Data.List.Basic
/-!
# Bootstrap — finding the engine daemon or spawning one (`engine/bootstrap.py`, `ipc/discovery.py`)

A daemon serves the control path of its workspace or a TCP port, which it publishes in a file.  `ensure_daemon` spawns
one when none is running, and takes a control path that exists for a daemon that listens: a path whose daemon was killed
is a running daemon to it (`decides_iff`).
-/
namespace DevHarness
namespace Engine
namespace Bootstrap

open Lib (Machine)

/-- A control endpoint: the path derived from the workspace, or a port on loopback. -/
inductive Endpoint where
  | unix
  | tcp (port : ℕ)
  deriving DecidableEq, Repr

/-- A workspace as its daemons and clients see it. -/
structure Site where
  /-- The daemons that listen on a control endpoint, each with its endpoint. -/
  listening : List (ℕ × Endpoint) := []
  /-- The control path, with the daemon that bound it. -/
  controlSocketPath : Option ℕ := none
  /-- The endpoint published for the control socket. -/
  controlEndpointFile : Option Endpoint := none
  spawned : ℕ := 0
  deriving DecidableEq, Repr

namespace Site

/-! ## The daemon -/

/-- `EngineDaemon.start`: a path is cleaned up and bound, a port the system had free is bound and published. -/
def startDaemon (s : Site) (d : ℕ) : Endpoint → Site
  | .unix => { s with listening := s.listening ++ [(d, .unix)], controlSocketPath := some d }
  | .tcp port => { s with
      listening := s.listening ++ [(d, .tcp port)], controlEndpointFile := some (.tcp port) }

def quit (s : Site) (d : ℕ) : List (ℕ × Endpoint) := s.listening.filter (fun x => x.1 ≠ d)

/-- `EngineDaemon.stop`: the socket is closed, its path cleaned up, and the endpoint files removed. -/
def stopDaemon (s : Site) (d : ℕ) : Site := { s with
  listening := s.quit d
  controlSocketPath := if (d, .unix) ∈ s.listening then none else s.controlSocketPath
  controlEndpointFile := none }

/-! ## The client -/

/-- `endpoint_is_alive`: the path exists, or the port accepts. -/
def endpointIsAlive (s : Site) : Endpoint → Bool
  | .unix => s.controlSocketPath.isSome
  | .tcp port => s.listening.any (fun x => x.2 = .tcp port)

/-- `_is_running`. -/
def isRunning (s : Site) : Bool :=
  if s.controlSocketPath.isSome then true
  else match s.controlEndpointFile with
    | none => false
    | some discovered => s.endpointIsAlive discovered

/-- The endpoint the handshake connects to. -/
def resolveEndpoint (s : Site) : Endpoint :=
  match s.controlEndpointFile with
  | none => .unix
  | some discovered => if s.endpointIsAlive discovered = true then discovered else .unix

/-- `ensure_daemon`, with the daemon that would be spawned. -/
def ensureDaemon (s : Site) (d : ℕ) (e : Endpoint) : Site :=
  if s.isRunning = true then s else { s.startDaemon d e with spawned := s.spawned + 1 }

inductive Act where
  | start (d : ℕ) (e : Endpoint)
  | stop (d : ℕ)
  | kill (d : ℕ)
  | ensure (d : ℕ) (e : Endpoint)
  deriving DecidableEq, Repr

/-- A new daemon, on the path or on a port nobody listens on. -/
def CanStart (s : Site) (d : ℕ) (e : Endpoint) : Prop :=
  (∀ x ∈ s.listening, x.1 ≠ d) ∧ (e = .unix ∨ ∀ x ∈ s.listening, x.2 ≠ e)

instance (s : Site) (d : ℕ) (e : Endpoint) : Decidable (s.CanStart d e) := inferInstanceAs (Decidable (_ ∧ _))

def Listens (s : Site) (d : ℕ) : Prop := ∃ x ∈ s.listening, x.1 = d

instance (s : Site) (d : ℕ) : Decidable (s.Listens d) := inferInstanceAs (Decidable (∃ x ∈ s.listening, x.1 = d))

def step (s : Site) : Act → Option Site
  | .start d e => if s.CanStart d e then some (s.startDaemon d e) else none
  | .stop d => if s.Listens d then some (s.stopDaemon d) else none
  | .kill d => if s.Listens d then some { s with listening := s.quit d } else none
  | .ensure d e => if s.CanStart d e then some (s.ensureDaemon d e) else none

def machine : Machine Site Act where
  step := step

/-- A live daemon accepts on this endpoint of the workspace. -/
def AcceptsOn (s : Site) : Endpoint → Prop
  | .unix => ∃ d, s.controlSocketPath = some d ∧ (d, .unix) ∈ s.listening
  | .tcp port => s.controlEndpointFile = some (.tcp port) ∧ ∃ d, (d, .tcp port) ∈ s.listening

/-- **A live daemon accepts on the workspace's control endpoint**, the path or what is published. -/
def Accepting (s : Site) : Prop := ∃ e, s.AcceptsOn e

/-- **`ensure_daemon` decides rightly**: it spawns exactly when no live daemon accepts. -/
def Decides (s : Site) : Act → Site → Prop
  | .ensure _ _, s' => (¬ s.Accepting → s'.spawned = s.spawned + 1) ∧ (s.Accepting → s'.spawned = s.spawned)
  | _, _ => True

/-- **No path is left over** when a daemon is ensured: where the control path exists, the daemon that bound it listens,
or one listens on the port that is published. -/
def NoPathLeft (s : Site) : Act → Site → Prop
  | .ensure _ _, _ => ∀ d, s.controlSocketPath = some d →
      (d, .unix) ∈ s.listening ∨ ∃ x ∈ s.listening, s.controlEndpointFile = some x.2 ∧ x.2 ≠ .unix
  | _, _ => True

/-! ## What counts as running -/

/-- Only ports are published. -/
def PublishesPorts (s : Site) : Prop := s.controlEndpointFile ≠ some .unix

theorem publishesPorts_start {s : Site} (h : s.PublishesPorts) (d : ℕ) (e : Endpoint) :
    (s.startDaemon d e).PublishesPorts := by
  cases e with
  | unix => exact h
  | tcp port => exact fun he => by cases he

theorem publishesPorts_step {s s' : Site} {a : Act} (h : s.PublishesPorts) (hstep : step s a = some s') :
    s'.PublishesPorts := by
  cases a <;> simp only [step] at hstep <;> split at hstep <;> cases hstep
  case start.isTrue d e _ => exact publishesPorts_start h d e
  case stop.isTrue => exact fun he => by cases he
  case kill.isTrue => exact h
  case ensure.isTrue d e _ =>
    unfold ensureDaemon
    split
    · exact h
    · exact publishesPorts_start h d e

theorem endpointIsAlive_tcp_iff {s : Site} {port : ℕ} :
    s.endpointIsAlive (.tcp port) = true ↔ ∃ d, (d, .tcp port) ∈ s.listening := by
  simp [endpointIsAlive]

/-- **An accepting daemon counts as running.** -/
theorem isRunning_of_accepting {s : Site} (h : s.Accepting) : s.isRunning = true := by
  obtain ⟨e, he⟩ := h
  unfold isRunning
  cases e with
  | unix =>
    obtain ⟨d, hpath, -⟩ := he
    rw [hpath]
    rfl
  | tcp port =>
    split
    · rfl
    · rw [he.1]
      exact endpointIsAlive_tcp_iff.2 he.2

/-- **What counts as running accepts**, unless a path is left over. -/
theorem noPathLeft_iff {s : Site} (hports : s.PublishesPorts) (d : ℕ) (e : Endpoint) (s' : Site) :
    s.NoPathLeft (.ensure d e) s' ↔ (s.isRunning = true → s.Accepting) := by
  constructor
  · intro hleft hrunning
    unfold isRunning at hrunning
    split at hrunning
    · rename_i hpath
      obtain ⟨owner, howner⟩ := Option.isSome_iff_exists.1 hpath
      rcases hleft owner howner with hlistens | ⟨⟨x, port⟩, hx, hfile, hport⟩
      · exact ⟨.unix, owner, howner, hlistens⟩
      · cases port with
        | unix => exact absurd rfl hport
        | tcp port => exact ⟨.tcp port, hfile, x, hx⟩
    · split at hrunning
      · cases hrunning
      · rename_i discovered hfile
        cases discovered with
        | unix => exact absurd hfile hports
        | tcp port => exact ⟨.tcp port, hfile, endpointIsAlive_tcp_iff.1 hrunning⟩
  · intro h owner howner
    have hrunning : s.isRunning = true := by
      unfold isRunning
      rw [howner]
      rfl
    obtain ⟨e, he⟩ := h hrunning
    cases e with
    | unix =>
      obtain ⟨d, hpath, hlistens⟩ := he
      rw [howner, Option.some.injEq] at hpath
      exact Or.inl (hpath ▸ hlistens)
    | tcp port =>
      obtain ⟨hfile, d, hlistens⟩ := he
      exact Or.inr ⟨_, hlistens, hfile, by simp⟩

theorem decides_ensure_iff {s : Site} (d : ℕ) (e : Endpoint) :
    s.Decides (.ensure d e) (s.ensureDaemon d e) ↔ (s.isRunning = true → s.Accepting) := by
  have hspawned : (s.ensureDaemon d e).spawned = if s.isRunning = true then s.spawned else s.spawned + 1 := by
    unfold ensureDaemon
    split <;> rfl
  show ((¬ s.Accepting → (s.ensureDaemon d e).spawned = s.spawned + 1) ∧
    (s.Accepting → (s.ensureDaemon d e).spawned = s.spawned)) ↔ _
  rw [hspawned]
  constructor
  · intro h hrunning
    by_contra hnone
    have hcount := h.1 hnone
    rw [if_pos hrunning] at hcount
    omega
  · intro h
    refine ⟨fun hnone => if_neg (fun hrunning => hnone (h hrunning)), fun haccepting => ?_⟩
    exact if_pos (isRunning_of_accepting haccepting)

/-! ## The handshake after it -/

theorem acceptsOn_resolveEndpoint {s : Site} (hports : s.PublishesPorts) (h : s.Accepting) :
    s.AcceptsOn s.resolveEndpoint := by
  unfold resolveEndpoint
  obtain ⟨e, he⟩ := h
  split
  · rename_i hfile
    cases e with
    | unix => exact he
    | tcp port =>
      have hsame := hfile.symm.trans he.1
      cases hsame
  · rename_i discovered hfile
    cases discovered with
    | unix => exact absurd hfile hports
    | tcp port =>
      split
      · rename_i halive
        exact ⟨hfile, endpointIsAlive_tcp_iff.1 halive⟩
      · rename_i hdead
        cases e with
        | unix => exact he
        | tcp port' =>
          have hsame := hfile.symm.trans he.1
          cases hsame
          exact absurd (endpointIsAlive_tcp_iff.2 he.2) hdead

theorem accepting_startDaemon (s : Site) (d : ℕ) (e : Endpoint) : (s.startDaemon d e).Accepting := by
  cases e with
  | unix => exact ⟨.unix, d, rfl, List.mem_append_right _ (List.mem_singleton_self _)⟩
  | tcp port => exact ⟨.tcp port, rfl, d, List.mem_append_right _ (List.mem_singleton_self _)⟩

/-- **The handshake finds a live daemon** where no path is left over. -/
theorem handshake_accepted {s : Site} (hports : s.PublishesPorts) {d : ℕ} {e : Endpoint} {s' : Site}
    (hleft : s.NoPathLeft (.ensure d e) s') :
    (s.ensureDaemon d e).AcceptsOn (s.ensureDaemon d e).resolveEndpoint := by
  unfold ensureDaemon
  split
  · rename_i hrunning
    exact acceptsOn_resolveEndpoint hports ((noPathLeft_iff hports d e s').1 hleft hrunning)
  · exact acceptsOn_resolveEndpoint (publishesPorts_start hports d e) (accepting_startDaemon s d e)

/-! ## Where a path is left over -/

/-- The control path, where it exists, is that of a daemon that listens on it. -/
def PathKept (s : Site) : Prop := ∀ d, s.controlSocketPath = some d → (d, .unix) ∈ s.listening

/-- No daemon is killed while the control path leads to it. -/
def KillsOffPath (s : Site) : Act → Site → Prop
  | .kill d, _ => s.controlSocketPath ≠ some d
  | _, _ => True

theorem pathKept_start {s : Site} (h : s.PathKept) (d : ℕ) (e : Endpoint) : (s.startDaemon d e).PathKept := by
  intro owner howner
  cases e with
  | unix =>
    cases howner
    exact List.mem_append_right _ (List.mem_singleton_self _)
  | tcp port => exact List.mem_append_left _ (h owner howner)

theorem mem_quit {s : Site} {d owner : ℕ} {e : Endpoint} (hne : owner ≠ d) (h : (owner, e) ∈ s.listening) :
    (owner, e) ∈ s.quit d := List.mem_filter.2 ⟨h, by simpa using hne⟩

theorem pathKept_step {s s' : Site} {a : Act} (h : s.PathKept) (hkill : s.KillsOffPath a s')
    (hstep : step s a = some s') : s'.PathKept := by
  cases a <;> simp only [step] at hstep <;> split at hstep <;> cases hstep
  case start.isTrue d e _ => exact pathKept_start h d e
  case stop.isTrue d _ =>
    intro owner howner
    by_cases hbound : (d, .unix) ∈ s.listening
    · rw [stopDaemon, if_pos hbound] at howner
      cases howner
    · rw [stopDaemon, if_neg hbound] at howner
      exact mem_quit (fun he => hbound (he ▸ h owner howner)) (h owner howner)
  case kill.isTrue d _ =>
    intro owner howner
    exact mem_quit (fun he => hkill (he ▸ howner)) (h owner howner)
  case ensure.isTrue d e _ =>
    unfold ensureDaemon
    split
    · exact h
    · exact pathKept_start h d e

/-- **A path is left over only by a kill** of the daemon it leads to. -/
theorem noPathLeft_of_killsOffPath (acts : List Act) (h : machine.Along KillsOffPath {} acts) :
    machine.Along NoPathLeft {} acts := by
  refine machine.along_of_along PathKept (fun s a s' hkept hkill hstep => ⟨?_, pathKept_step hkept hkill hstep⟩) acts {}
    (fun d hd => by cases hd) h
  cases a with
  | ensure d e => exact fun owner howner => Or.inl (hkept owner howner)
  | _ => trivial

/-- **A daemon is spawned exactly when none accepts, exactly where no path is left over**, in every history. -/
theorem decides_iff (acts : List Act) : machine.Along Decides {} acts ↔ machine.Along NoPathLeft {} acts := by
  refine machine.along_iff_along PublishesPorts (fun s a s' hports hstep => ?_)
    (fun s a s' hports _ hstep => publishesPorts_step hports hstep) acts {} (fun he => by cases he)
  cases a with
  | ensure d e =>
    simp only [machine, step] at hstep
    split at hstep
    · cases hstep
      rw [decides_ensure_iff, noPathLeft_iff hports]
    · cases hstep
  | _ => exact Iff.rfl

/-- **A killed daemon counts as running**: nobody listens, and no daemon is spawned. -/
theorem killed_daemon_counts_as_running :
    ∃ s, machine.run {} [.start 0 .unix, .kill 0] = some s ∧ s.listening = [] ∧ s.isRunning = true ∧
      (s.ensureDaemon 1 .unix).spawned = 0 ∧
      ¬ machine.Along Decides {} [.start 0 .unix, .kill 0, .ensure 1 .unix] := by
  refine ⟨_, rfl, rfl, rfl, rfl, fun h => ?_⟩
  have hspawn := h.2.2.1.1
  have hnone : ¬ (Site.Accepting { controlSocketPath := some 0 } ) := by
    rintro ⟨e, he⟩
    cases e with
    | unix =>
      obtain ⟨d, -, hlistens⟩ := he
      cases hlistens
    | tcp port => cases he.1
  cases hspawn hnone

end Site
end Bootstrap
end Engine
end DevHarness
