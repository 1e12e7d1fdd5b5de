import DevHarness.Contracts
import DevHarness.Lib.Machine
import Mathlib.Algebra.Order.Field.Rat
import Mathlib.Data.List.Chain
import Mathlib.Tactic.Linarith
/-!
# OllamaLoader — requests debounced by a condition wait (`providers/ollama_loader.py`)

The settle window is a wait on the condition that every request notifies.  So the next request of the burst does not extend
the window but ends it, and the drain thread loads in the middle of the burst.  A load is begun in good time only when no
request came in since its settle wait began and no caller is waiting for the lock; there is one such load at most.
-/
namespace DevHarness
namespace Providers

open Lib

/-- `DEBOUNCE_SECONDS`. -/
def debounceSeconds : ℚ := 2 / 100

structure ModelConfigChangePayload where
  type : String
  provider : String
  model : String
  deriving DecidableEq

def modelConfigChange (model : String) : Envelope ModelConfigChangePayload where
  type := .modelConfigChange
  payload := ⟨"MODEL_CONFIG_CHANGE", "ollama", model⟩

/-- Where the drain thread is.  It holds the lock while it loads and emits, wants it at `top` and after its waits, and has
given it up during them. -/
inductive Drain where
  | top
  | idle (since : ℚ)
  | woken
  | settling (since : ℚ)
  | settled (since : ℚ)
  | loading (target : String) (start : ℚ)
  | loaded (target : String)
  deriving DecidableEq

namespace Drain

def lockFree : Drain → Bool
  | loading _ _ | loaded _ => false
  | _ => true

/-- `notify_all`, as the drain thread sees it. -/
def notify : Drain → Drain
  | idle _ => woken
  | settling since => settled since
  | d => d

/-- The load that has been begun and has not been emitted. -/
def underway : Drain → List String
  | loading target _ => [target]
  | loaded target => [target]
  | _ => []

end Drain

/-- The loader with its callers and the clock.  `callers` have entered `ensure_loaded` and wait for the lock; `calls`,
`requests` and `loads` are what was called, what was recorded under the lock and what was begun to load, oldest first.
`disturbed` says that a request was recorded since the last settle wait began, and `early` counts the loads begun although one
was, or although a caller waited for the lock. -/
structure OllamaLoader where
  currentModel : Option String
  pendingModel : Option String
  loadEvents : ℕ
  loadWindows : List (ℚ × ℚ)
  drain : Drain
  now : ℚ
  callers : List String
  calls : List (ℚ × String)
  requests : List String
  loads : List String
  emitted : List (Envelope ModelConfigChangePayload)
  disturbed : Bool
  early : ℕ
  deriving DecidableEq

/-- What can happen next; the scheduler chooses. -/
inductive Event where
  | tick (d : ℚ)
  | call (model : String)
  | record (i : ℕ)
  | timeout
  | drain
  deriving DecidableEq

namespace OllamaLoader

/-- `__init__`. -/
def init (now : ℚ) : OllamaLoader where
  currentModel := none
  pendingModel := none
  loadEvents := 0
  loadWindows := []
  drain := .top
  now := now
  callers := []
  calls := []
  requests := []
  loads := []
  emitted := []
  disturbed := false
  early := 0

def tick (s : OllamaLoader) (d : ℚ) : Option OllamaLoader := if 0 ≤ d then some { s with now := s.now + d } else none

/-- A thread enters `ensure_loaded`. -/
def call (s : OllamaLoader) (model : String) : OllamaLoader :=
  { s with
    callers := s.callers ++ [model]
    calls := s.calls ++ [(s.now, model)] }

/-- `ensure_loaded` under the lock, for the `i`-th of the waiting callers. -/
def ensureLoaded (s : OllamaLoader) (i : ℕ) : Option OllamaLoader :=
  if s.drain.lockFree then
    s.callers[i]?.map fun model => { s with
      pendingModel := some model
      drain := s.drain.notify
      callers := s.callers.eraseIdx i
      requests := s.requests ++ [model]
      disturbed := true }
  else none

/-- A wait of the drain thread times out, at its timeout or later. -/
def timeOut (s : OllamaLoader) : Option OllamaLoader :=
  match s.drain with
  | .idle since => if since + 1 / 10 ≤ s.now then some { s with drain := .woken } else none
  | .settling since => if since + debounceSeconds ≤ s.now then some { s with drain := .settled since } else none
  | _ => none

/-- A load begun now is early. -/
def hurried (s : OllamaLoader) : Bool := s.disturbed || !s.callers.isEmpty

/-- `_drain_loop` from one point where it can be overtaken to the next. -/
def drainLoop (s : OllamaLoader) : Option OllamaLoader :=
  match s.drain with
  | .top =>
    if s.pendingModel = none ∨ s.pendingModel = s.currentModel then some { s with drain := .idle s.now }
    else some { s with drain := .settling s.now, disturbed := false }
  | .woken => some { s with drain := .top }
  | .settled _ =>
    if s.pendingModel = s.currentModel then some { s with drain := .top }
    -- a model that has been recorded is never unset
    else s.pendingModel.map fun target => { s with
      drain := .loading target s.now
      loads := s.loads ++ [target]
      early := if s.hurried then s.early + 1 else s.early }
  | .loading target start => some { s with
      drain := .loaded target
      loadEvents := s.loadEvents + 1
      currentModel := some target
      loadWindows := s.loadWindows ++ [(start, s.now)] }
  | .loaded target => some { s with
      drain := .top
      emitted := s.emitted ++ [modelConfigChange target] }
  | .idle _ | .settling _ => none

def machine : Machine OllamaLoader Event where
  step s
    | .tick d => s.tick d
    | .call model => some (s.call model)
    | .record i => s.ensureLoaded i
    | .timeout => s.timeOut
    | .drain => s.drainLoop

/-! ## What a step can do -/

inductive Moves (s : OllamaLoader) : Event → OllamaLoader → Prop
  | tick {d : ℚ} (hd : 0 ≤ d) : Moves s (.tick d) { s with now := s.now + d }
  | call (model : String) : Moves s (.call model) (s.call model)
  | record {i : ℕ} {model : String} (hfree : s.drain.lockFree = true) (hm : s.callers[i]? = some model) :
    Moves s (.record i) { s with
      pendingModel := some model
      drain := s.drain.notify
      callers := s.callers.eraseIdx i
      requests := s.requests ++ [model]
      disturbed := true }
  | wake {since : ℚ} (hdr : s.drain = .idle since) : Moves s .timeout { s with drain := .woken }
  | due {since : ℚ} (hdr : s.drain = .settling since) (hdue : since + debounceSeconds ≤ s.now) :
    Moves s .timeout { s with drain := .settled since }
  | rest (hdr : s.drain = .top) (hq : s.pendingModel = none ∨ s.pendingModel = s.currentModel) :
    Moves s .drain { s with drain := .idle s.now }
  | settle (hdr : s.drain = .top) (hne : s.pendingModel ≠ s.currentModel) :
    Moves s .drain { s with drain := .settling s.now, disturbed := false }
  | again (hdr : s.drain = .woken) : Moves s .drain { s with drain := .top }
  | skip {since : ℚ} (hdr : s.drain = .settled since) (heq : s.pendingModel = s.currentModel) :
    Moves s .drain { s with drain := .top }
  | load {since : ℚ} {target : String} (hdr : s.drain = .settled since) (hne : s.pendingModel ≠ s.currentModel)
      (hp : s.pendingModel = some target) :
    Moves s .drain { s with
      drain := .loading target s.now
      loads := s.loads ++ [target]
      early := if s.hurried then s.early + 1 else s.early }
  | finish {target : String} {start : ℚ} (hdr : s.drain = .loading target start) :
    Moves s .drain { s with
      drain := .loaded target
      loadEvents := s.loadEvents + 1
      currentModel := some target
      loadWindows := s.loadWindows ++ [(start, s.now)] }
  | emit {target : String} (hdr : s.drain = .loaded target) :
    Moves s .drain { s with drain := .top, emitted := s.emitted ++ [modelConfigChange target] }

variable {s s' : OllamaLoader} {e : Event}

theorem moves_of_timeOut (h : s.timeOut = some s') : Moves s .timeout s' := by
  unfold timeOut at h
  split at h
  case h_1 since hdr =>
    split at h <;> cases h
    exact .wake hdr
  case h_2 since hdr =>
    split at h
    case isTrue hdue =>
      cases h
      exact .due hdr hdue
    case isFalse => cases h
  case h_3 => cases h

theorem moves_of_drainLoop (h : s.drainLoop = some s') : Moves s .drain s' := by
  unfold drainLoop at h
  split at h
  case h_1 hdr =>
    split at h
    case isTrue hq =>
      cases h
      exact .rest hdr hq
    case isFalse hq =>
      cases h
      exact .settle hdr (not_or.1 hq).2
  case h_2 hdr =>
    cases h
    exact .again hdr
  case h_3 since hdr =>
    split at h
    case isTrue heq =>
      cases h
      exact .skip hdr heq
    case isFalse hne =>
      obtain ⟨target, hp, rfl⟩ := Option.map_eq_some_iff.1 h
      exact .load hdr hne hp
  case h_4 target start hdr =>
    cases h
    exact .finish hdr
  case h_5 target hdr =>
    cases h
    exact .emit hdr
  case h_6 | h_7 => cases h

theorem moves_of_step (h : machine.step s e = some s') : Moves s e s' := by
  cases e with
  | tick d =>
    simp only [machine, OllamaLoader.tick] at h
    split at h
    case isTrue hd =>
      cases h
      exact .tick hd
    case isFalse => cases h
  | call model =>
    cases h
    exact .call model
  | record i =>
    simp only [machine, ensureLoaded] at h
    split at h
    case isTrue hfree =>
      obtain ⟨model, hm, rfl⟩ := Option.map_eq_some_iff.1 h
      exact .record hfree hm
    case isFalse => cases h
  | timeout => exact moves_of_timeOut h
  | drain => exact moves_of_drainLoop h

/-! ## What every run keeps -/

/-- What the drain thread has in hand is the newest model. -/
def InHand (s : OllamaLoader) : Prop :=
  match s.drain with
  | .idle _ => s.pendingModel = s.currentModel
  | .loading target start => s.pendingModel = some target ∧ start ≤ s.now ∧ ∀ w ∈ s.loadWindows, w.2 ≤ start
  | .loaded target => s.pendingModel = some target ∧ s.currentModel = some target
  | _ => True

structure Sound (s : OllamaLoader) : Prop where
  unset : s.pendingModel = none → s.currentModel = none
  newest : ∀ model, s.requests.getLast? = some model → s.pendingModel = some model
  quiet : s.requests = [] → s.pendingModel = s.currentModel
  asked : s.requests.length + s.callers.length = s.calls.length
  apart : s.loadWindows.Pairwise fun w w' => w.2 ≤ w'.1
  past : ∀ w ∈ s.loadWindows, w.1 ≤ w.2 ∧ w.2 ≤ s.now
  emits : s.loads.map modelConfigChange = s.emitted ++ s.drain.underway.map modelConfigChange
  inHand : s.InHand

/-- **Nothing a schedule can do** breaks it. -/
theorem Sound.step (hs : s.Sound) (h : machine.step s e = some s') : s'.Sound := by
  have hem := hs.emits
  have hin := hs.inHand
  unfold InHand at hin
  cases moves_of_step h with
  | tick hd =>
    refine { hs with past := fun w hw => ?_, inHand := ?_ }
    · obtain ⟨h1, h2⟩ := hs.past w hw
      exact ⟨h1, by simp only; linarith⟩
    · unfold InHand
      cases hdr : s.drain <;> simp only [hdr] at hin ⊢ <;> try exact hin
      exact ⟨hin.1, by linarith [hin.2.1], hin.2.2⟩
  | call model =>
    refine { hs with asked := ?_ }
    have hask := hs.asked
    simp only [OllamaLoader.call, List.length_append, List.length_singleton]
    omega
  | record hfree hm =>
    obtain ⟨hi, -⟩ := List.getElem?_eq_some_iff.1 hm
    have hask := hs.asked
    refine ⟨by simp, by simp, by simp, ?_, hs.apart, hs.past, ?_, ?_⟩
    · simp only [List.length_append, List.length_singleton, List.length_eraseIdx_of_lt hi]
      omega
    · rw [hem]
      cases hdr : s.drain <;> rfl
    · unfold InHand
      cases hdr : s.drain <;> simp [Drain.notify, Drain.lockFree, hdr] at hfree ⊢
  | wake hdr | due hdr _ | settle hdr _ | again hdr | skip hdr _ =>
    rw [hdr] at hem
    exact { hs with emits := hem, inHand := trivial }
  | rest hdr hq =>
    rw [hdr] at hem
    refine { hs with emits := hem, inHand := ?_ }
    rcases hq with hn | heq
    · exact hn.trans (hs.unset hn).symm
    · exact heq
  | load hdr hne hp =>
    rw [hdr] at hem
    refine { hs with emits := ?_, inHand := ⟨hp, le_rfl, fun w hw => (hs.past w hw).2⟩ }
    simp only [Drain.underway, List.map_nil, List.append_nil] at hem
    simp only [List.map_append, hem, Drain.underway]
  | finish hdr =>
    rw [hdr] at hem hin
    obtain ⟨hp, hle, hw⟩ := hin
    refine ⟨fun hn => ?_, hs.newest, fun _ => hp, hs.asked, ?_, ?_, hem, ⟨hp, rfl⟩⟩
    · rw [hp] at hn
      cases hn
    · exact List.pairwise_append.2 ⟨hs.apart, List.pairwise_singleton _ _, by simpa using hw⟩
    · simpa [or_imp, forall_and, hle] using hs.past
  | emit hdr =>
    rw [hdr] at hem
    refine { hs with emits := ?_, inHand := trivial }
    rw [hem]
    simp [Drain.underway]

/-! ## The loads of a burst -/

/-- The calls of a burst: each less than `DEBOUNCE_SECONDS` after the one before. -/
def Spaced (s : OllamaLoader) : Prop := s.calls.IsChain fun c c' => c'.1 < c.1 + debounceSeconds

instance (s : OllamaLoader) : Decidable s.Spaced := inferInstanceAs (Decidable (List.IsChain _ _))

/-- A settle wait that was left alone has heard of every call, and the calls are as long ago as it has lasted. -/
def LeftAlone (s : OllamaLoader) : Prop :=
  match s.drain with
  | .settling since => s.hurried = false → ∀ c ∈ s.calls, c.1 ≤ since
  | .settled since => s.hurried = false → since + debounceSeconds ≤ s.now ∧ ∀ c ∈ s.calls, c.1 ≤ since
  | _ => True

structure OnTime (s : OllamaLoader) : Prop where
  past : ∀ c ∈ s.calls, c.1 ≤ s.now
  leftAlone : s.LeftAlone

theorem hurried_call (s : OllamaLoader) (model : String) : (s.call model).hurried = true := by
  simp [hurried, OllamaLoader.call]

theorem OnTime.step (hs : s.OnTime) (h : machine.step s e = some s') : s'.OnTime := by
  obtain ⟨hpast, hleft⟩ := hs
  unfold LeftAlone at hleft
  cases moves_of_step h with
  | tick hd =>
    refine ⟨fun c hc => by linarith [hpast c hc], ?_⟩
    unfold LeftAlone
    cases hdr : s.drain <;> simp only [hdr] at hleft ⊢
    · exact hleft
    · exact fun hh => ⟨by linarith [(hleft hh).1], (hleft hh).2⟩
  | call model =>
    refine ⟨fun c hc => ?_, ?_⟩
    · rcases List.mem_append.1 hc with hc | hc
      · exact hpast c hc
      · rw [List.mem_singleton.1 hc]
        exact le_rfl
    · unfold LeftAlone
      rw [hurried_call]
      cases hdr : s.drain <;> simp [OllamaLoader.call, hdr]
  | record hfree hm =>
    refine ⟨hpast, ?_⟩
    unfold LeftAlone
    cases hdr : s.drain <;> simp [Drain.notify, hurried]
  | due hdr hdue =>
    rw [hdr] at hleft
    exact ⟨hpast, fun hh => ⟨hdue, hleft hh⟩⟩
  | settle hdr hne => exact ⟨hpast, fun _ => hpast⟩
  | wake | rest | again | skip | load | finish | emit => exact ⟨hpast, trivial⟩

/-- The burst is over: nobody waits, the last call is long enough ago for another one not to belong to it, and the drain thread
has nothing to do after the load in hand. -/
structure Over (s : OllamaLoader) : Prop where
  callers : s.callers = []
  last : ∃ c, s.calls.getLast? = some c ∧ c.1 + debounceSeconds ≤ s.now
  done : match s.drain with
    | .settling _ | .settled _ => False
    | .loading _ _ | .loaded _ => True
    | _ => s.pendingModel = s.currentModel

/-- **At most one load is begun in good time**, and the burst is over then. -/
def Counted (s : OllamaLoader) : Prop :=
  s.loads.length = s.early ∨ (s.loads.length = s.early + 1 ∧ s.Over)

theorem Spaced.of_step (hsp : s'.Spaced) (h : machine.step s e = some s') : s.Spaced := by
  cases moves_of_step h with
  | call model => exact (List.isChain_append.1 hsp).1
  | _ => exact hsp

theorem Over.not_spaced_call (ho : s.Over) (model : String) : ¬(s.call model).Spaced := by
  intro h
  obtain ⟨c, hc, hle⟩ := ho.last
  have hlt := (List.isChain_append.1 h).2.2 c hc (s.now, model) rfl
  simp only at hlt
  linarith

/-- A load begun in good time is the last. -/
theorem over_of_leftAlone {since : ℚ} {target : String} (hs : s.Sound) (ht : s.OnTime) (hdr : s.drain = .settled since)
    (hne : s.pendingModel ≠ s.currentModel) (hh : s.hurried = false) :
    Over { s with drain := .loading target s.now, loads := s.loads ++ [target] } := by
  have hleft := ht.leftAlone
  unfold LeftAlone at hleft
  rw [hdr] at hleft
  obtain ⟨hdue, hpast⟩ := hleft hh
  rw [hurried, Bool.or_eq_false_iff, Bool.not_eq_false', List.isEmpty_iff] at hh
  have hcalls : s.calls ≠ [] := by
    intro hnil
    have hask := hs.asked
    rw [hnil, List.length_nil] at hask
    exact hne (hs.quiet (List.eq_nil_of_length_eq_zero (by omega)))
  refine ⟨hh.2, ⟨_, List.getLast?_eq_getLast_of_ne_nil hcalls, ?_⟩, trivial⟩
  have hlast := hpast _ (List.getLast_mem hcalls)
  simp only
  linarith

theorem Counted.step (hs : s.Sound) (ht : s.OnTime) (hsp : s'.Spaced) (hc : s.Counted)
    (h : machine.step s e = some s') : s'.Counted := by
  have hdone := @Over.done s
  cases moves_of_step h with
  | tick hd =>
    refine hc.imp_right fun ⟨hl, ho⟩ => ⟨hl, ho.callers, ?_, ho.done⟩
    obtain ⟨c, hlast, hle⟩ := ho.last
    exact ⟨c, hlast, by simp only; linarith⟩
  | call model => exact hc.imp_right fun ⟨_, ho⟩ => absurd hsp (ho.not_spaced_call model)
  | record hfree hm =>
    refine hc.imp_right fun ⟨_, ho⟩ => ?_
    rw [ho.callers] at hm
    cases hm
  | wake hdr | again hdr =>
    rw [hdr] at hdone
    exact hc.imp_right fun ⟨hl, ho⟩ => ⟨hl, ho.callers, ho.last, hdone ho⟩
  | due hdr _ | skip hdr _ =>
    rw [hdr] at hdone
    exact hc.imp_right fun ⟨_, ho⟩ => (hdone ho).elim
  | rest hdr hq =>
    rw [hdr] at hdone
    exact hc.imp_right fun ⟨hl, ho⟩ => ⟨hl, ho.callers, ho.last, hdone ho⟩
  | settle hdr hne =>
    rw [hdr] at hdone
    exact hc.imp_right fun ⟨_, ho⟩ => absurd (hdone ho) hne
  | load hdr hne hp =>
    rw [hdr] at hdone
    have hl : s.loads.length = s.early := hc.resolve_right fun ⟨_, ho⟩ => hdone ho
    cases hh : s.hurried with
    | true => exact .inl (by simp [hl])
    | false => exact .inr ⟨by simp [hl], over_of_leftAlone hs ht hdr hne hh⟩
  | finish hdr => exact hc.imp_right fun ⟨hl, ho⟩ => ⟨hl, ho.callers, ho.last, trivial⟩
  | emit hdr =>
    have hin := hs.inHand
    unfold InHand at hin
    rw [hdr] at hin
    exact hc.imp_right fun ⟨hl, ho⟩ => ⟨hl, ho.callers, ho.last, hin.1.trans hin.2.symm⟩

/-- The next step begins a load out of time: a request came in since the settle wait began, which may have ended it, or a
caller still waits for the lock. -/
def BeginsEarly (s : OllamaLoader) : Bool :=
  match s.drain with
  | .settled _ => s.pendingModel ≠ s.currentModel && s.hurried
  | _ => false

/-- The law of a patient run: no more than one load is begun early. -/
def Patient (s : OllamaLoader) (e : Event) (_ : OllamaLoader) : Prop :=
  e = .drain → s.BeginsEarly = true → s.early = 0

instance (s : OllamaLoader) (e : Event) (s' : OllamaLoader) : Decidable (s.Patient e s') :=
  inferInstanceAs (Decidable (_ → _ → _))

theorem early_le_one (he : s.early ≤ 1) (hp : s.Patient e s') (h : machine.step s e = some s') : s'.early ≤ 1 := by
  cases moves_of_step h with
  | load hdr hne _ =>
    simp only
    split
    case isTrue hh =>
      have h0 := hp rfl (by simp [BeginsEarly, hdr, hne, hh])
      omega
    case isFalse => exact he
  | _ => exact he

/-! ## The drain thread on its own -/

/-- The drain thread with nobody calling, until it is back in its idle wait; the label is the time it takes. -/
def alone : Machine OllamaLoader ℚ where
  step s d := match s.drain with
    | .idle _ => none
    | .settling _ => (s.tick d).bind timeOut
    | _ => (s.tick d).bind drainLoop

/-- How far it is from there. -/
def rank (s : OllamaLoader) : ℕ :=
  match s.drain with
  | .idle _ => 0
  | .top => if s.pendingModel = s.currentModel then 1 else 6
  | .woken => if s.pendingModel = s.currentModel then 2 else 7
  | .settling _ => 5
  | .settled _ => if s.pendingModel = s.currentModel then 2 else 4
  | .loading _ _ => 3
  | .loaded _ => 2

def AtRest (s : OllamaLoader) : Prop := s.callers = [] ∧ ∃ since, s.drain = .idle since

/-- A step of the thread on its own is one of the machine, after some time. -/
theorem step_of_alone {d : ℚ} (h : alone.step s d = some s') :
    ∃ t e, machine.step s (.tick d) = some t ∧ machine.step t e = some s' ∧ t.drain = s.drain ∧
      (e = .timeout ∧ (∃ since, s.drain = .settling since) ∨ e = .drain) := by
  simp only [alone] at h
  split at h
  case h_1 => cases h
  case h_2 since hdr =>
    obtain ⟨t, ht, h⟩ := Option.bind_eq_some_iff.1 h
    refine ⟨t, .timeout, ht, h, ?_, .inl ⟨rfl, since, hdr⟩⟩
    cases moves_of_step (e := .tick d) ht
    rfl
  case h_3 =>
    obtain ⟨t, ht, h⟩ := Option.bind_eq_some_iff.1 h
    refine ⟨t, .drain, ht, h, ?_, .inr rfl⟩
    cases moves_of_step (e := .tick d) ht
    rfl

theorem rank_of_tick {d : ℚ} (h : machine.step s (.tick d) = some s') : s'.rank = s.rank := by
  cases moves_of_step h
  rfl

/-- Each piece of its work brings the drain thread nearer, once its idle wait is over. -/
theorem rank_lt (hs : s.Sound) (h : machine.step s e = some s')
    (he : e = .timeout ∧ (∃ since, s.drain = .settling since) ∨ e = .drain) :
    s'.rank < s.rank ∧ s'.callers = s.callers ∧ s'.requests = s.requests := by
  cases moves_of_step h with
  | tick _ | call _ | record _ _ => simp at he
  | wake hdr => simp [hdr] at he
  | due hdr _ =>
    refine ⟨?_, rfl, rfl⟩
    simp only [rank, hdr]
    split <;> omega
  | rest hdr _ =>
    refine ⟨?_, rfl, rfl⟩
    simp only [rank, hdr]
    split <;> omega
  | settle hdr hne => exact ⟨by simp [rank, hdr, hne], rfl, rfl⟩
  | again hdr =>
    refine ⟨?_, rfl, rfl⟩
    simp only [rank, hdr]
    split <;> omega
  | skip hdr heq => exact ⟨by simp [rank, hdr, heq], rfl, rfl⟩
  | load hdr hne _ => exact ⟨by simp [rank, hdr, hne], rfl, rfl⟩
  | finish hdr => exact ⟨by simp [rank, hdr], rfl, rfl⟩
  | emit hdr =>
    have hin := hs.inHand
    unfold InHand at hin
    rw [hdr] at hin
    exact ⟨by simp [rank, hdr, hin.1, hin.2], rfl, rfl⟩

theorem tick_zero (s : OllamaLoader) : s.tick 0 = some s := by simp [OllamaLoader.tick]

theorem exists_drainLoop (hs : s.Sound) (hi : ∀ since, s.drain ≠ .idle since) (hw : ∀ since, s.drain ≠ .settling since) :
    ∃ s', s.drainLoop = some s' := by
  unfold drainLoop
  cases hdr : s.drain with
  | idle since => exact absurd hdr (hi since)
  | settling since => exact absurd hdr (hw since)
  | top =>
    simp only
    split
    · exact ⟨_, rfl⟩
    · exact ⟨_, rfl⟩
  | settled since =>
    simp only
    split
    case isTrue => exact ⟨_, rfl⟩
    case isFalse heq =>
      cases hp : s.pendingModel with
      | none => exact absurd (hp.trans (hs.unset hp).symm) heq
      | some target => exact ⟨_, rfl⟩
  | woken => exact ⟨_, rfl⟩
  | loading target start => exact ⟨_, rfl⟩
  | loaded target => exact ⟨_, rfl⟩

theorem exists_alone (hs : s.Sound) (hi : ∀ since, s.drain ≠ .idle since) : ∃ d s', alone.step s d = some s' := by
  by_cases hw : ∃ since, s.drain = .settling since
  · obtain ⟨since, hdr⟩ := hw
    have hle : since + debounceSeconds ≤ s.now + max 0 (since + debounceSeconds - s.now) := by
      linarith [le_max_right 0 (since + debounceSeconds - s.now)]
    refine ⟨max 0 (since + debounceSeconds - s.now), ?_⟩
    simp only [alone, hdr, OllamaLoader.tick, le_max_left, if_true, Option.bind_some, timeOut, hle]
    exact ⟨_, rfl⟩
  · have hw' : ∀ since, s.drain ≠ .settling since := fun since h => hw ⟨since, h⟩
    obtain ⟨s', h⟩ := exists_drainLoop hs hi hw'
    refine ⟨0, s', ?_⟩
    simp only [alone]
    rw [tick_zero, Option.bind_some, h]

/-- The thread is back in its idle wait, and the model requested last is the one loaded. -/
def Served (requests : List String) (s : OllamaLoader) : Prop :=
  s.AtRest ∧ ∀ model, requests.getLast? = some model → s.currentModel = some model

/-- **Once the calls have stopped the loader serves the newest**: whatever time its steps take, the drain thread comes to rest
after finitely many of them. -/
theorem terminates (hs : s.Sound) (hc : s.callers = []) : alone.Terminates (Served s.requests) s := by
  refine alone.terminates_of_measure (fun t => t.Sound ∧ t.callers = [] ∧ t.requests = s.requests) rank
    (fun t d t' ht h => ?_) (fun t ht => ?_) ⟨hs, hc, rfl⟩
  · obtain ⟨u, e, hu, hstep, hdr, he⟩ := step_of_alone h
    obtain ⟨hsound, hcallers, hreq⟩ := ht
    have hus := hsound.step hu
    rw [← hdr] at he
    obtain ⟨hlt, h1, h2⟩ := rank_lt hus hstep he
    have hrank := rank_of_tick hu
    cases moves_of_step hu
    exact ⟨⟨hus.step hstep, h1.trans hcallers, h2.trans hreq⟩, by omega⟩
  · obtain ⟨hsound, hcallers, hreq⟩ := ht
    by_cases hidle : ∃ since, t.drain = .idle since
    · refine .inl ⟨⟨hcallers, hidle⟩, fun model hm => ?_⟩
      obtain ⟨since, hdr⟩ := hidle
      have hin := hsound.inHand
      unfold InHand at hin
      rw [hdr] at hin
      exact hin.symm.trans (hsound.newest model (hreq ▸ hm))
    · exact .inr (exists_alone hsound fun since hdr => hidle ⟨since, hdr⟩)

/-! ## A burst, from its first call -/

/-- A loader that has nothing to do, with the histories of the burst to come. -/
structure Fresh (s : OllamaLoader) : Prop where
  recorded : s.pendingModel = s.currentModel
  apart : s.loadWindows.Pairwise fun w w' => w.2 ≤ w'.1
  past : ∀ w ∈ s.loadWindows, w.1 ≤ w.2 ∧ w.2 ≤ s.now
  drain : s.drain = .top ∨ s.drain = .woken ∨ ∃ since, s.drain = .idle since
  callers : s.callers = []
  calls : s.calls = []
  requests : s.requests = []
  loads : s.loads = []
  emitted : s.emitted = []
  early : s.early = 0

theorem fresh_init (now : ℚ) : (init now).Fresh where
  recorded := rfl
  apart := List.Pairwise.nil
  past := by simp [init]
  drain := .inl rfl
  callers := rfl
  calls := rfl
  requests := rfl
  loads := rfl
  emitted := rfl
  early := rfl

theorem Fresh.sound (hf : s.Fresh) : s.Sound where
  unset h := hf.recorded ▸ h
  newest model h := by simp [hf.requests] at h
  quiet _ := hf.recorded
  asked := by rw [hf.requests, hf.callers, hf.calls]; rfl
  apart := hf.apart
  past := hf.past
  emits := by
    rw [hf.loads, hf.emitted]
    rcases hf.drain with h | h | ⟨since, h⟩ <;> rw [h] <;> rfl
  inHand := by
    unfold InHand
    rcases hf.drain with h | h | ⟨since, h⟩ <;> rw [h]
    · trivial
    · trivial
    · exact hf.recorded

theorem Fresh.onTime (hf : s.Fresh) : s.OnTime where
  past c h := by simp [hf.calls] at h
  leftAlone := by
    unfold LeftAlone
    rcases hf.drain with h | h | ⟨since, h⟩ <;> rw [h] <;> trivial

/-- What the loader is for.  The windows of the loads, the one in progress included, do not overlap; each load that is over has
been announced by one event, but for the one the drain thread is about to announce. -/
structure Orderly (s : OllamaLoader) : Prop where
  loads_le : s.loads.length ≤ 2
  apart : s.loadWindows.Pairwise fun w w' => w.2 ≤ w'.1
  underway : ∀ target start, s.drain = .loading target start → ∀ w ∈ s.loadWindows, w.2 ≤ start
  announced : s.loads.map modelConfigChange = s.emitted ++ s.drain.underway.map modelConfigChange
  newest : s.callers = [] → alone.Terminates (Served s.requests) s

section Runs

variable {start : OllamaLoader} {es : List Event}

theorem sound_of_run (hf : start.Fresh) (hr : machine.run start es = some s) : s.Sound :=
  machine.inv_of_run Sound (fun _ _ _ hs h => hs.step h) es start s hf.sound hr

theorem counted_of_run (hf : start.Fresh) (hr : machine.run start es = some s) (hsp : s.Spaced) : s.Counted := by
  have hstart : start.Counted := .inl (by rw [hf.loads, hf.early]; rfl)
  have hinv := machine.inv_of_run (fun t => t.Sound ∧ t.OnTime ∧ (t.Spaced → t.Counted))
    (fun t e t' ⟨h1, h2, h3⟩ h =>
      ⟨h1.step h, h2.step h, fun hsp' => (h3 (hsp'.of_step h)).step h1 h2 hsp' h⟩)
    es start s ⟨hf.sound, hf.onTime, fun _ => hstart⟩ hr
  exact hinv.2.2 hsp

/-- A third early load is one too many, whatever follows. -/
theorem not_orderly_of_early (hf : start.Fresh) (hr : machine.run start es = some s) (hsp : s.Spaced)
    (he : 3 ≤ s.early) : ¬s.Orderly := by
  intro ho
  have hle := ho.loads_le
  rcases counted_of_run hf hr hsp with hl | ⟨hl, -⟩ <;> omega

/-- **A patient burst is orderly**: at most two loads, one after the other, each announced once, and the newest model loaded
in the end. -/
theorem orderly_of_patient (hf : start.Fresh) (hr : machine.run start es = some s) (hsp : s.Spaced)
    (hp : machine.Along Patient start es) : s.Orderly := by
  have hs := sound_of_run hf hr
  have he : s.early ≤ 1 := machine.inv_of_along (fun t => t.early ≤ 1) (fun _ _ _ hi hpat h => early_le_one hi hpat h)
    es start s (by rw [hf.early]; omega) hp hr
  refine ⟨?_, hs.apart, fun target st hdr => ?_, hs.emits, terminates hs⟩
  · rcases counted_of_run hf hr hsp with hl | ⟨hl, -⟩ <;> omega
  · have hin := hs.inHand
    unfold InHand at hin
    rw [hdr] at hin
    exact hin.2.2

end Runs

/-! The burst of the class docstring, a millisecond between the calls.  The first settle wait ends with the second request and
the second with the fourth, and the fifth takes the lock before the drain thread does. -/

def interleaved : List Event :=
  [.drain, .call "qwen2.5-coder:7b", .record 0, .drain, .drain, .tick (1 / 1000),
    .call "llama3:8b", .record 0, .drain, .drain, .drain, .tick (1 / 1000),
    .call "qwen2.5-coder:7b", .record 0, .drain, .tick (1 / 1000),
    .call "llama3:8b", .record 0, .tick (1 / 1000),
    .call "qwen2.5-coder:7b", .record 0, .drain, .drain, .drain, .tick (1 / 1000),
    .call "llama3:8b", .record 0, .drain, .tick (2 / 100), .timeout, .drain, .drain, .drain, .drain]

/-- Its first four requests make a patient run: one load is early, and the fourth asks for the model that was loaded. -/
theorem orderly_of_four_requests :
    ∃ s, machine.run (init 0) (interleaved.take 18 ++ [.drain, .drain]) = some s ∧ s.Orderly := by
  have hrun : (machine.run (init 0) (interleaved.take 18 ++ [.drain, .drain])).any fun s => s.Spaced := by
    decide +kernel
  obtain ⟨s, hr, hs⟩ := (Option.any_eq_true _ _).1 hrun
  exact ⟨s, hr, orderly_of_patient (fresh_init 0) hr (of_decide_eq_true hs) (by decide +kernel)⟩

/-- **The burst of the docstring thrashes**: six requests for two models, and three loads. -/
theorem interleaved_thrashes :
    ¬∀ (start : OllamaLoader) (es : List Event) (s : OllamaLoader), start.Fresh → machine.run start es = some s →
      s.Spaced → (∃ a b, ∀ c ∈ s.calls, c.2 = a ∨ c.2 = b) → s.Orderly := by
  intro h
  have hrun : (machine.run (init 0) interleaved).any fun s => s.Spaced ∧
      (∀ c ∈ s.calls, c.2 = "qwen2.5-coder:7b" ∨ c.2 = "llama3:8b") ∧ s.loads.length = 3 := by decide +kernel
  obtain ⟨s, hr, hs⟩ := (Option.any_eq_true _ _).1 hrun
  obtain ⟨hsp, hab, hl⟩ := of_decide_eq_true hs
  have hle := (h _ _ s (fresh_init 0) hr hsp ⟨_, _, hab⟩).loads_le
  omega

end OllamaLoader
end Providers
end DevHarness
