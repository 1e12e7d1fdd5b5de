import DevHarness.Lib.Machine
import Mathlib.Logic.Function.Basic
/-!
# SocketPaths — daemons coming and going on two socket paths (`engine/daemon.py`, `ipc/server.py`, `ipc/control_server.py`)

A daemon binds the streaming path and then the control path, each after removing what is there, and removes both when it
stops.  Every label is one call of one daemon on one path.  Nobody looks whose path it is that he removes; the paths
lead to the daemons that run exactly in the runs in which no path is removed while another daemon serves it
(`keepsPaths_iff`).
-/
namespace DevHarness
namespace Engine
namespace SocketPaths

open Lib (Machine)

inductive SocketPath where
  | streaming
  | control
  deriving DecidableEq, Repr

/-- What a daemon does next in `start` or `stop`. -/
inductive Stage where
  | idle
  -- `IpcServer.start`: `cleanup`, `bind_server`
  | cleaningStreaming
  | bindingStreaming
  -- `ControlServer.start`
  | cleaningControl
  | bindingControl
  | running
  -- `IpcServer.stop`: `close`, `cleanup`
  | closingStreaming
  | unlinkingStreaming
  -- `ControlServer.stop`
  | closingControl
  | unlinkingControl
  deriving DecidableEq, Repr

/-- The path a daemon is about to remove. -/
def Stage.removes : Stage → Option SocketPath
  | .cleaningStreaming | .unlinkingStreaming => some .streaming
  | .cleaningControl | .unlinkingControl => some .control
  | _ => none

/-- The paths a daemon serves: those it has bound and not yet closed. -/
def Stage.serves : Stage → SocketPath → Bool
  | .cleaningControl, .streaming | .bindingControl, .streaming => true
  | .running, _ | .closingStreaming, _ => true
  | .unlinkingStreaming, .control | .closingControl, .control => true
  | _, _ => false

/-- The daemons, and of each path the daemon whose socket it names, while the path is there. -/
structure Site where
  stage : ℕ → Stage
  bound : SocketPath → Option ℕ

namespace Site

def init : Site := ⟨fun _ => .idle, fun _ => none⟩

def goTo (s : Site) (d : ℕ) (stage : Stage) : Site := { s with stage := Function.update s.stage d stage }

/-- `cleanup`. -/
def cleanup (s : Site) (path : SocketPath) : Site := { s with bound := Function.update s.bound path none }

/-- `bind_server`; a path that is there raises, and the process ends. -/
def bindServer (s : Site) (d : ℕ) (path : SocketPath) (next : Stage) : Site :=
  match s.bound path with
  | some _ => s.goTo d .idle
  | none => { s.goTo d next with bound := Function.update s.bound path (some d) }

def advance (s : Site) (d : ℕ) : Option Site :=
  match s.stage d with
  | .idle | .running => none
  | .cleaningStreaming => some ((s.cleanup .streaming).goTo d .bindingStreaming)
  | .bindingStreaming => some (s.bindServer d .streaming .cleaningControl)
  | .cleaningControl => some ((s.cleanup .control).goTo d .bindingControl)
  | .bindingControl => some (s.bindServer d .control .running)
  | .closingStreaming => some (s.goTo d .unlinkingStreaming)
  | .unlinkingStreaming => some ((s.cleanup .streaming).goTo d .closingControl)
  | .closingControl => some (s.goTo d .unlinkingControl)
  | .unlinkingControl => some ((s.cleanup .control).goTo d .idle)

inductive Act where
  | start (d : ℕ)
  | stop (d : ℕ)
  | kill (d : ℕ)
  -- the daemon's next call
  | advance (d : ℕ)
  deriving DecidableEq, Repr

def step (s : Site) : Act → Option Site
  | .start d => if s.stage d = .idle then some (s.goTo d .cleaningStreaming) else none
  | .stop d => if s.stage d = .running then some (s.goTo d .closingStreaming) else none
  | .kill d => if s.stage d = .idle then none else some (s.goTo d .idle)
  | .advance d => s.advance d

def machine : Machine Site Act where
  step := step

/-- **A removal takes no other live daemon's path, and running daemons keep theirs.** -/
structure KeepsPaths (s : Site) (a : Act) (s' : Site) : Prop where
  removal : ∀ d path, a = .advance d → (s.stage d).removes = some path →
    ∀ e, e ≠ d → s.bound path = some e → (s.stage e).serves path = false
  running : ∀ d path, s'.stage d = .running → s'.bound path = some d

/-- **A path is removed only while no other daemon serves it.** -/
def RemovesUnserved (s : Site) : Act → Site → Prop
  | .advance d, _ => ∀ path, (s.stage d).removes = some path → ∀ e, e ≠ d → (s.stage e).serves path = false
  | _, _ => True

/-- Who serves a path is who it leads to. -/
def Leads (s : Site) : Prop := ∀ d path, (s.stage d).serves path = true → s.bound path = some d

/-! ## What a call does to who serves -/

theorem serves_goTo {s : Site} {d e : ℕ} {stage : Stage} {path : SocketPath}
    (h : ((s.goTo d stage).stage e).serves path = true) :
    (e = d ∧ stage.serves path = true) ∨ (e ≠ d ∧ (s.stage e).serves path = true) := by
  change (Function.update s.stage d stage e).serves path = true at h
  by_cases he : e = d
  · rw [he, Function.update_self] at h
    exact Or.inl ⟨he, h⟩
  · rw [Function.update_of_ne he] at h
    exact Or.inr ⟨he, h⟩

/-- A daemon that goes where it serves no more than before leaves the paths as they lead. -/
theorem leads_goTo {s : Site} (h : s.Leads) {d : ℕ} {stage : Stage}
    (hless : ∀ path, stage.serves path = true → (s.stage d).serves path = true) : (s.goTo d stage).Leads := by
  intro e path hserves
  rcases serves_goTo hserves with ⟨rfl, hstage⟩ | ⟨-, hstage⟩
  · exact h e path (hless path hstage)
  · exact h e path hstage

/-- **A path nobody else serves may go**, where its remover serves it neither before nor after. -/
theorem leads_cleanup {s : Site} (h : s.Leads) {d : ℕ} {path : SocketPath} {stage : Stage}
    (hothers : ∀ e, e ≠ d → (s.stage e).serves path = false) (hown : stage.serves path = false)
    (hless : ∀ p, stage.serves p = true → (s.stage d).serves p = true) : ((s.cleanup path).goTo d stage).Leads := by
  intro e p hserves
  have hne : p ≠ path := by
    rintro rfl
    rcases serves_goTo hserves with ⟨-, hstage⟩ | ⟨he, hstage⟩
    · rw [hown] at hstage
      cases hstage
    · have hnone := hothers e he
      change (s.stage e).serves p = true at hstage
      rw [hnone] at hstage
      cases hstage
  have hbefore : s.bound p = some e := by
    rcases serves_goTo hserves with ⟨rfl, hstage⟩ | ⟨-, hstage⟩
    · exact h e p (hless p hstage)
    · exact h e p hstage
  show Function.update s.bound path none p = some e
  rw [Function.update_of_ne hne, hbefore]

theorem leads_bindServer {s : Site} (h : s.Leads) {d : ℕ} {path : SocketPath} {next : Stage}
    (hless : ∀ p, p ≠ path → next.serves p = true → (s.stage d).serves p = true) : (s.bindServer d path next).Leads := by
  unfold bindServer
  cases hbound : s.bound path with
  | some owner => exact leads_goTo h (fun p hp => by cases p <;> cases hp)
  | none =>
    intro e p hserves
    change ((s.goTo d next).stage e).serves p = true at hserves
    show Function.update s.bound path (some d) p = some e
    by_cases hp : p = path
    · rw [hp, Function.update_self]
      rcases serves_goTo hserves with ⟨rfl, -⟩ | ⟨-, hstage⟩
      · rfl
      · -- somebody else serving would have the path lead to him
        have hlead := h e p hstage
        rw [hp, hbound] at hlead
        cases hlead
    · rw [Function.update_of_ne hp]
      rcases serves_goTo hserves with ⟨rfl, hstage⟩ | ⟨-, hstage⟩
      · exact h e p (hless p hp hstage)
      · exact h e p hstage

theorem leads_advance {s s' : Site} {d : ℕ} (h : s.Leads)
    (hothers : ∀ path, (s.stage d).removes = some path → ∀ e, e ≠ d → (s.stage e).serves path = false)
    (hstep : s.advance d = some s') : s'.Leads := by
  unfold advance at hstep
  cases hstage : s.stage d <;> rw [hstage] at hstep hothers <;> cases hstep
  case cleaningStreaming =>
    exact leads_cleanup h (hothers _ rfl) rfl (fun p hp => by cases p <;> cases hp)
  case bindingStreaming =>
    exact leads_bindServer h (fun p hne hp => by cases p <;> first | exact absurd rfl hne | cases hp)
  case cleaningControl =>
    exact leads_cleanup h (hothers _ rfl) rfl (fun p hp => by rw [hstage]; cases p <;> first | rfl | cases hp)
  case bindingControl =>
    exact leads_bindServer h (fun p hne hp => by rw [hstage]; cases p <;> first | rfl | exact absurd rfl hne)
  case closingStreaming => exact leads_goTo h (fun p hp => by rw [hstage]; cases p <;> rfl)
  case unlinkingStreaming =>
    exact leads_cleanup h (hothers _ rfl) rfl (fun p hp => by rw [hstage]; cases p <;> first | rfl | cases hp)
  case closingControl => exact leads_goTo h (fun p hp => by cases p <;> cases hp)
  case unlinkingControl =>
    exact leads_cleanup h (hothers _ rfl) rfl (fun p hp => by cases p <;> cases hp)

theorem leads_step {s s' : Site} {a : Act} (h : s.Leads) (hremoves : s.RemovesUnserved a s')
    (hstep : step s a = some s') : s'.Leads := by
  cases a with
  | advance d => exact leads_advance h hremoves hstep
  | start d =>
    simp only [step] at hstep
    split at hstep <;> cases hstep
    exact leads_goTo h (fun p hp => by cases p <;> cases hp)
  | stop d =>
    simp only [step] at hstep
    split at hstep <;> cases hstep
    rename_i hrunning
    exact leads_goTo h (fun p hp => by rw [hrunning]; cases p <;> rfl)
  | kill d =>
    simp only [step] at hstep
    split at hstep <;> cases hstep
    exact leads_goTo h (fun p hp => by cases p <;> cases hp)

/-- **The paths keep leading to the daemons that run exactly where a path is removed only while no other daemon serves
it**, in every run. -/
theorem keepsPaths_iff (acts : List Act) : machine.Along KeepsPaths init acts ↔ machine.Along RemovesUnserved init acts := by
  have hremoves : ∀ (s : Site) (a : Act) (s' : Site), s.Leads → s.KeepsPaths a s' → s.RemovesUnserved a s' := by
    intro s a s' hleads hkeeps
    cases a with
    | advance d =>
      intro path hpath e he
      by_contra hserves
      rw [Bool.not_eq_false] at hserves
      have hnot := hkeeps.removal d path rfl hpath e he (hleads e path hserves)
      rw [hserves] at hnot
      cases hnot
    | _ => trivial
  refine machine.along_iff_along Leads (fun s a s' hleads hstep => ⟨hremoves s a s' hleads, fun hr => ?_⟩)
    (fun s a s' hleads hkeeps hstep => leads_step hleads (hremoves s a s' hleads hkeeps) hstep) acts init
    (fun d path h => by cases path <;> cases h)
  refine ⟨fun d path ha hpath e he _ => ?_, fun d path hrunning => ?_⟩
  · subst ha
    exact hr path hpath e he
  · exact leads_step hleads hr hstep d path (by rw [hrunning]; cases path <;> rfl)

/-! ## A second start -/

/-- **A second daemon takes the path of the first**, which runs on with no streaming path leading to it. -/
theorem second_start_takes_path :
    ∃ s, machine.run init [.start 0, .advance 0, .advance 0, .advance 0, .advance 0, .start 1, .advance 1] = some s ∧
      s.stage 0 = .running ∧ s.bound .streaming = none ∧ ¬ machine.Along KeepsPaths init
        [.start 0, .advance 0, .advance 0, .advance 0, .advance 0, .start 1, .advance 1] := by
  have hrun : (machine.run init [.start 0, .advance 0, .advance 0, .advance 0, .advance 0, .start 1, .advance 1]).any
      (fun s => decide (s.stage 0 = .running ∧ s.bound .streaming = none)) = true := by decide +kernel
  obtain ⟨s, hs, h⟩ := (Option.any_eq_true _ _).1 hrun
  rw [decide_eq_true_eq] at h
  refine ⟨s, hs, h.1, h.2, fun halong => ?_⟩
  have hkept := machine.inv_of_along (fun s => ∀ d path, s.stage d = .running → s.bound path = some d)
    (fun _ _ _ _ hk _ => hk.running) _ init s (fun d path hd => by cases hd) halong hs
  have hlead := hkept 0 .streaming h.1
  rw [h.2] at hlead
  cases hlead

end Site
end SocketPaths
end Engine
end DevHarness
