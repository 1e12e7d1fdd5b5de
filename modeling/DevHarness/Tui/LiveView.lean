import DevHarness.Ipc.ServedClient
import DevHarness.Tui.Bridge
import DevHarness.Tui.LiveFeed
/-!
# LiveView — what the panels show of a running engine (`tui/app.py`, `tui/live_feed.py`)

The engine's push loop, the socket, the feed's reader loop, the bridge and the panels together.  At every moment the
panels show what the first of the published envelopes make of them, and after enough rounds of the feed what all of them
do (`shows_published`).  With the watcher as the publisher of the changes, the repo panel then tells the workspace of
the last scan (`shows_workspace`).
-/
namespace DevHarness
namespace Tui

open Lib (Dict Machine PresentBy)
open Ipc (EnvelopeCodec Socket IsOpen bytesOf PushServer PushAct)
open Observability (redact)
open Engine (Scan)
open Engine.WorkspaceWatcher (after lastSeen)

/-- The panels with handlers. -/
structure HermesApp where
  repo : RepoManager := {}
  canvas : ExecutionCanvas := {}
  -- the canvas's samples of the test progress
  samples : List ℚ := []

variable {σ τ : Type}

/-- `_handle_file_change`. -/
def handleFileChange (env : Envelope (EventPayload σ τ)) (ui : HermesApp) : HermesApp :=
  match env.payload with
  | .fileChange path changeType => { ui with repo := ui.repo.onFileChange path changeType }
  | _ => ui

/-- `_handle_git_status`. -/
def handleGitStatus (env : Envelope (EventPayload σ τ)) (ui : HermesApp) : HermesApp :=
  match env.payload with
  | .gitStatusUpdate branch dirtyCount => { ui with repo := ui.repo.onGitStatus branch dirtyCount }
  | _ => ui

/-- `_handle_token`. -/
def handleToken (env : Envelope (EventPayload σ τ)) (ui : HermesApp) : HermesApp :=
  match env.payload with
  | .agentTokenStream payload => { ui with canvas := ui.canvas.onToken payload }
  | _ => ui

/-- `_handle_progress` and `on_test_progress`. -/
def handleProgress (env : Envelope (EventPayload σ τ)) (ui : HermesApp) : HermesApp :=
  match env.payload with
  | .testProgress passed total =>
    { ui with samples := ui.samples ++ [if total = 0 then 0 else (passed : ℚ) / total] }
  | _ => ui

/-- `_attach_live_feed`: the panels `bind` in turn. -/
def attachLiveFeed (ui : HermesApp) : Bridge σ τ HermesApp :=
  ((((({ ui } : Bridge σ τ HermesApp).on .fileChange handleFileChange).on .gitStatusUpdate handleGitStatus).on
    .agentTokenStream handleToken).on .testProgress handleProgress)

/-- What the UI thread runs: the call the feed made for an envelope, or a step of the repo panel's mount. -/
inductive UiStep (σ τ : Type) where
  | call (env : Envelope (EventPayload σ τ))
  | onMount
  | mounted

namespace UiStep

def env : UiStep σ τ → Option (Envelope (EventPayload σ τ))
  | .call env => some env
  | _ => none

end UiStep

/-- What the handlers hand the repo panel, and the canvas, of an envelope. -/
def panelAct (env : Envelope (EventPayload σ τ)) : Option PanelAct :=
  match env.type, env.payload with
  | .fileChange, .fileChange path changeType => some (.fileChange path changeType)
  | .gitStatusUpdate, .gitStatusUpdate branch dirtyCount => some (.gitStatus branch dirtyCount)
  | _, _ => none

def tokenOf (env : Envelope (EventPayload σ τ)) : Option AgentTokenStreamPayload :=
  match env.type, env.payload with
  | .agentTokenStream, .agentTokenStream payload => some payload
  | _, _ => none

def UiStep.act : UiStep σ τ → Option PanelAct
  | .call env => panelAct env
  | .onMount => some .onMount
  | .mounted => some .mounted

/-- One step of the UI thread. -/
def uiStep (b : Bridge σ τ HermesApp) : UiStep σ τ → Bridge σ τ HermesApp
  | .call env => b.apply env
  | .onMount => { b with ui := { b.ui with repo := b.ui.repo.act .onMount } }
  | .mounted => { b with ui := { b.ui with repo := b.ui.repo.act .mounted } }

def uiRun (steps : List (UiStep σ τ)) : Bridge σ τ HermesApp := steps.foldl uiStep (attachLiveFeed {})

/-! ## One step -/

/-- **Each panel takes of an envelope what its own handlers do.** -/
theorem panels_apply (b : Bridge σ τ HermesApp) (hb : b.handlers = (attachLiveFeed (σ := σ) (τ := τ) {}).handlers)
    (env : Envelope (EventPayload σ τ)) :
    (b.apply env).ui.repo = (panelAct env).toList.foldl RepoManager.act b.ui.repo ∧
      (b.apply env).ui.canvas = (tokenOf env).toList.foldl ExecutionCanvas.onToken b.ui.canvas := by
  obtain ⟨type, seq, payload⟩ := env
  unfold Bridge.apply
  rw [hb]
  cases type <;> cases payload <;> exact ⟨rfl, rfl⟩

theorem handlers_uiStep (b : Bridge σ τ HermesApp) (step : UiStep σ τ) : (uiStep b step).handlers = b.handlers := by
  cases step <;> rfl

theorem uiRun_snoc (steps : List (UiStep σ τ)) (step : UiStep σ τ) :
    uiRun (steps ++ [step]) = uiStep (uiRun steps) step := by
  rw [uiRun, List.foldl_append]
  rfl

/-- **What a run of the UI thread leaves**: the envelopes applied are counted, the last SNAPSHOT is the state, and each
panel has been through its own acts. -/
theorem uiRun_eq (steps : List (UiStep σ τ)) :
    (uiRun steps).handlers = (attachLiveFeed (σ := σ) (τ := τ) {}).handlers ∧
    (uiRun steps).applied = (steps.filterMap UiStep.env).length ∧
    (uiRun steps).state = ((steps.filterMap UiStep.env).filterMap Bridge.snapshotOf).getLast? ∧
    (uiRun steps).ui.repo = RepoManager.history {} (steps.filterMap UiStep.act) ∧
    (uiRun steps).ui.canvas = ((steps.filterMap UiStep.env).filterMap tokenOf).foldl ExecutionCanvas.onToken {} := by
  induction steps using List.reverseRecOn with
  | nil => exact ⟨rfl, rfl, rfl, rfl, rfl⟩
  | append_singleton steps step ih =>
    obtain ⟨hhandlers, happlied, hstate, hrepo, hcanvas⟩ := ih
    rw [uiRun_snoc]
    refine ⟨(handlers_uiStep _ _).trans hhandlers, ?_⟩
    simp only [List.filterMap_append]
    cases step with
    | call env =>
      obtain ⟨hrepo', hcanvas'⟩ := panels_apply (uiRun steps) hhandlers env
      refine ⟨?_, ?_, ?_, ?_⟩
      · rw [List.length_append, ← happlied]
        rfl
      · show (Bridge.snapshotOf env).or (uiRun steps).state = _
        rw [hstate, List.getLast?_append]
        cases hs : Bridge.snapshotOf env <;> simp [UiStep.env, hs]
      · show ((uiRun steps).apply env).ui.repo = _
        rw [hrepo', hrepo, RepoManager.history_append]
        cases ha : panelAct env <;> simp [UiStep.act, ha, RepoManager.history]
      · show ((uiRun steps).apply env).ui.canvas = _
        rw [hcanvas', hcanvas, List.foldl_append]
        cases ht : tokenOf env <;> simp [UiStep.env, ht]
    | onMount =>
      have hnone : [(.onMount : UiStep σ τ)].filterMap UiStep.env = [] := rfl
      rw [hnone, List.filterMap_nil, List.filterMap_nil, List.append_nil, List.append_nil, List.append_nil]
      refine ⟨happlied, hstate, ?_, hcanvas⟩
      rw [RepoManager.history_append, ← hrepo]
      rfl
    | mounted =>
      have hnone : [(.mounted : UiStep σ τ)].filterMap UiStep.env = [] := rfl
      rw [hnone, List.filterMap_nil, List.filterMap_nil, List.append_nil, List.append_nil, List.append_nil]
      refine ⟨happlied, hstate, ?_, hcanvas⟩
      rw [RepoManager.history_append, ← hrepo]
      rfl

/-! ## The view -/

/-- **The panels show some envelopes**: of every path the last change, the last status, the last SNAPSHOT's state, and of
tokens in the order of `seq` the text, each redacted. -/
structure Shows (envs : List (Envelope (EventPayload σ τ))) (b : Bridge σ τ HermesApp) : Prop where
  applied : b.applied = envs.length
  state : b.state = (envs.filterMap Bridge.snapshotOf).getLast?
  changes : ∀ path, b.ui.repo.changedPaths.get? path = lastChange (envs.filterMap panelAct) path
  status : (b.ui.repo.branch, b.ui.repo.dirtyCount) = (lastStatus (envs.filterMap panelAct)).getD ("", 0)
  text : (envs.filterMap tokenOf).Pairwise (fun a b => a.seq < b.seq) →
    b.ui.canvas.renderedText = ((envs.filterMap tokenOf).map (fun p => redact p.token)).flatten

/-- The mount takes no part in what the panel records. -/
theorem filterMap_act (steps : List (UiStep σ τ)) {β : Type} (f : PanelAct → Option β)
    (hmount : f .onMount = none ∧ f .mounted = none) :
    (steps.filterMap UiStep.act).filterMap f = ((steps.filterMap UiStep.env).filterMap panelAct).filterMap f := by
  rw [List.filterMap_filterMap, List.filterMap_filterMap, List.filterMap_filterMap]
  refine List.filterMap_congr (fun step _ => ?_)
  cases step with
  | call env => rfl
  | onMount => exact hmount.1
  | mounted => exact hmount.2

theorem shows_uiRun (steps : List (UiStep σ τ)) : Shows (steps.filterMap UiStep.env) (uiRun steps) := by
  obtain ⟨-, happlied, hstate, hrepo, hcanvas⟩ := uiRun_eq steps
  refine ⟨happlied, hstate, fun path => ?_, ?_, fun hordered => ?_⟩
  · rw [hrepo, RepoManager.get?_changedPaths_history, lastChange, filterMap_act steps _ ⟨rfl, rfl⟩, ← lastChange]
    exact Option.or_none
  · rw [hrepo, RepoManager.status_history, lastStatus, filterMap_act steps _ ⟨rfl, rfl⟩, ← lastStatus]
  · rw [hcanvas]
    exact rendered_eq hordered (List.Perm.refl _)

section Engine
variable {ι : Type} [DecidableEq ι] (codec : EnvelopeCodec (EventPayload σ τ)) (c : ι)

/-- **A viewer's connection to a run of the engine**: attached from the start, never dropped and with no failed send; the
bytes of its frames arrive in any pieces, with timeouts between frames alone. -/
structure Viewed (acts : List (PushAct ι (EventPayload σ τ))) (s : PushServer ι (EventPayload σ τ)) (socket : Socket) :
    Prop where
  run : (PushServer.machine codec).run {} (.accept c :: acts) = some s
  attached : .drop c ∉ acts
  sends : s.failed c = false
  encodable : ∀ e, .publish e ∈ acts → Ipc.encodable codec e = true
  json : ∀ e ∈ s.published, codec.RoundTrips e
  isOpen : IsOpen socket
  arrives : ∃ frames, Sent codec (s.sent c) frames ∧ bytesOf socket = frames.flatten ∧ TimeoutsBetween 0 frames socket

/-- What the feed has handed on after some rounds. -/
def handedOn (n : ℕ) (socket : Socket) : List (Envelope (EventPayload σ τ)) :=
  (LiveFeed.rounds codec n { conn := some socket }).pushed

variable {codec c}

theorem Viewed.handedOn {acts : List (PushAct ι (EventPayload σ τ))} {s : PushServer ι (EventPayload σ τ)}
    {socket : Socket} (h : Viewed codec c acts s socket) :
    (∀ n, handedOn codec n socket <+: s.published) ∧
      (s.isIdle = true → ∃ n, Tui.handedOn codec n socket = s.published) := by
  have hsent := (PushServer.serves_run h.run h.attached h.encodable).sent h.sends
  obtain ⟨frames, hframes, hbytes, htimeouts⟩ := h.arrives
  have hfirsts : s.sent c <+: s.published := by
    rw [← hsent, List.append_assoc, List.append_assoc]
    exact List.prefix_append _ _
  have hjson : ∀ e ∈ s.sent c, codec.RoundTrips e := fun e he => h.json e (hfirsts.subset he)
  have hdelivers : Delivers codec (s.sent c) frames { conn := some socket } :=
    (delivers_iff_of_inSync codec _ 0 (le_refl _) ⟨rfl, rfl, h.isOpen, hjson, hframes, rfl, rfl, hbytes⟩).2 htimeouts
  refine ⟨fun n => ?_, fun hidle => ?_⟩
  · have hstep := (hdelivers.2 n).2.1
    rw [Tui.handedOn, hstep]
    exact (List.take_prefix _ _).trans hfirsts
  · obtain ⟨n, hn⟩ := hdelivers.1
    exact ⟨n, hn.trans (PushServer.sent_eq_of_isIdle hidle hsent)⟩

variable (codec c)

/-- **The panels show what was published.**  Over every run of the engine's push loop and every way the bytes arrive at a
viewer that is never dropped and never missed by a send, where every envelope can be encoded: after any rounds of the
feed the panels show a prefix of the published envelopes, and once the loop is idle enough rounds show all of them. -/
theorem shows_published (acts : List (PushAct ι (EventPayload σ τ))) (s : PushServer ι (EventPayload σ τ))
    (socket : Socket) (h : Viewed codec c acts s socket) :
    (∀ n steps, steps.filterMap UiStep.env = handedOn codec n socket →
      ∃ k, Shows (s.published.take k) (uiRun steps)) ∧
    (s.isIdle = true → ∃ n, ∀ steps, steps.filterMap UiStep.env = handedOn codec n socket →
      Shows s.published (uiRun steps)) := by
  obtain ⟨hfirsts, hall⟩ := h.handedOn
  refine ⟨fun n steps hsteps => ?_, fun hidle => ?_⟩
  · refine ⟨(handedOn codec n socket).length, ?_⟩
    rw [← List.prefix_iff_eq_take.1 (hfirsts n), ← hsteps]
    exact shows_uiRun steps
  · obtain ⟨n, hn⟩ := hall hidle
    refine ⟨n, fun steps hsteps => ?_⟩
    rw [← hn, ← hsteps]
    exact shows_uiRun steps

/-- **The repo panel tells the workspace of the last scan**, where the watcher's envelopes are the changes the engine
published: once the loop is idle and the feed has read on, wherever the mount fell, every path is in that workspace or
not as its last change on record says, and without one as in the workspace of the first scan. -/
theorem shows_workspace (sha256 : List UInt8 → String) (scans : List Scan)
    (acts : List (PushAct ι (EventPayload σ τ))) (s : PushServer ι (EventPayload σ τ)) (socket : Socket)
    (h : Viewed codec c acts s socket) (hidle : s.isIdle = true)
    (hscans : s.published.filterMap panelAct = RepoManager.toActs (after sha256 scans).published) {first last : Scan}
    (hfirst : RepoManager.firstSeen scans = some first) (hlast : lastSeen scans = some last) :
    ∃ n, ∀ steps, steps.filterMap UiStep.env = handedOn codec n socket →
      (∀ rel, rel ∈ Engine.WorkspaceWatcher.paths last.workspace ↔
        PresentBy (rel ∈ Engine.WorkspaceWatcher.paths first.workspace)
          ((uiRun steps).ui.repo.changedPaths.get? rel)) ∧
      ((lastStatus (s.published.filterMap panelAct)).isSome = true →
        last.gitState = some ((uiRun steps).ui.repo.branch, (uiRun steps).ui.repo.dirtyCount)) := by
  obtain ⟨n, hn⟩ := h.handedOn.2 hidle
  refine ⟨n, fun steps hsteps => ?_⟩
  have hshows := shows_uiRun steps
  rw [hsteps, hn] at hshows
  obtain ⟨hpaths, hstatus⟩ := RepoManager.telling_record sha256 scans hfirst hlast
  rw [← hscans] at hpaths hstatus
  refine ⟨fun rel => ?_, fun hsome => ?_⟩
  · rw [hshows.changes]
    exact hpaths rel
  · rw [hstatus, hshows.status]
    cases hs : lastStatus (s.published.filterMap panelAct) with
    | none => rw [hs] at hsome; cases hsome
    | some status => rfl

end Engine

/-! ## A modified file seen by one viewer -/

def modified : Envelope (EventPayload Unit Unit) := ⟨.fileChange, 0, .fileChange "a.py" .modified⟩

def modifiedJson : List UInt8 :=
  ("\x7b\"type\":\"FILE_CHANGE\",\"seq\":0,\"payload\":\x7b\"type\":\"FILE_CHANGE\",\"path\":\"a.py\"," ++
    "\"change_type\":\"modified\"\x7d\x7d").toList.map (fun c => UInt8.ofNat c.toNat)

/-- Pydantic on the JSON of this event. -/
def modifiedCodec : EnvelopeCodec (EventPayload Unit Unit) where
  modelDumpJson _ := some modifiedJson
  modelValidateJson bytes := if bytes = modifiedJson then some modified else none

def modifiedFrame : List UInt8 := Ipc.pack modifiedJson.length ++ modifiedJson

/-- The socket is idle, the frame comes in two pieces, and it is idle again. -/
def modifiedArrives : Socket :=
  .timeout :: Ipc.pushBack (modifiedFrame.take 10) (Ipc.pushBack (modifiedFrame.drop 10) [.timeout])

def publishModified : List (PushAct ℕ (EventPayload Unit Unit)) := [.publish modified, .poll, .copy, .send true]

def modifiedSent : PushServer ℕ (EventPayload Unit Unit) where
  conns := [0]
  published := [modified]
  batches := [([0], [modified])]
  sent := Function.update (fun _ => []) 0 [modified]

theorem encode_modified : Ipc.encode modifiedCodec modified = .ok modifiedFrame := by
  decide +kernel

theorem viewed_modified : Viewed modifiedCodec 0 publishModified modifiedSent modifiedArrives where
  run := by
    simp [publishModified, modifiedSent, Machine.run, PushServer.machine, PushServer.step, PushServer.send,
      PushServer.sends, PushServer.next, encode_modified]
  attached := by simp [publishModified]
  sends := rfl
  encodable := by
    intro e he
    have hsame : e = modified := by simpa [publishModified] using he
    rw [hsame, Ipc.encodable, encode_modified]
  json := by
    intro e he
    have hsame : e = modified := by simpa [modifiedSent] using he
    rw [hsame]
    rintro body ⟨⟩
    simp only [modifiedCodec, if_true]
  isOpen := by decide +kernel
  arrives := by
    refine ⟨[modifiedFrame], ?_, by decide +kernel, by decide +kernel⟩
    exact .cons encode_modified .nil

theorem shows_published_modified :
    (∀ n steps, steps.filterMap UiStep.env = handedOn modifiedCodec n modifiedArrives →
      ∃ k, Shows (modifiedSent.published.take k) (uiRun steps)) ∧
    (modifiedSent.isIdle = true → ∃ n, ∀ steps, steps.filterMap UiStep.env = handedOn modifiedCodec n modifiedArrives →
      Shows modifiedSent.published (uiRun steps)) :=
  shows_published modifiedCodec 0 publishModified modifiedSent modifiedArrives viewed_modified

/-- The two scans: `a.py` is emptied. -/
def full : Scan := ⟨some [⟨["a.py"], true, some [120]⟩], some ("main", 0)⟩

def emptied : Scan := ⟨some [⟨["a.py"], true, some []⟩], some ("main", 0)⟩

theorem shows_workspace_modified :
    ∃ n, ∀ steps, steps.filterMap UiStep.env = handedOn modifiedCodec n modifiedArrives →
      (∀ rel, rel ∈ Engine.WorkspaceWatcher.paths emptied.workspace ↔
        PresentBy (rel ∈ Engine.WorkspaceWatcher.paths full.workspace)
          ((uiRun steps).ui.repo.changedPaths.get? rel)) ∧
      ((lastStatus (modifiedSent.published.filterMap panelAct)).isSome = true →
        emptied.gitState = some ((uiRun steps).ui.repo.branch, (uiRun steps).ui.repo.dirtyCount)) :=
  shows_workspace modifiedCodec 0 Engine.WorkspaceWatcher.digest [full, emptied] publishModified modifiedSent
    modifiedArrives viewed_modified rfl (by decide +kernel) rfl rfl

end Tui
end DevHarness
