import DevHarness.Broker.Budget
import DevHarness.Broker.Slots
import Mathlib.Data.List.Count
/-!
# RoutedCalls — any number of routed calls against one daemon (`providers/broker_routed.py`, `broker/client.py`)

A call reserves, runs its provider and settles: a COMMIT when the provider returned, a RELEASE when it raised.  A request
is sent over a connection that may fail before the daemon has it or before the reply is read; the client cannot tell the
two apart and raises in both.  The steps of the calls interleave in any order, with the reaper among them.
-/
namespace DevHarness
namespace Broker

open Lib

/-- What becomes of a request on its connection. -/
inductive Link where
  | replied
  -- the daemon handled it, the reply was not read
  | replyLost
  -- the daemon never had it
  | unsent
  deriving DecidableEq

/-- `_request`: the reply read, if one is, and the daemon after it.  A handler that raises ends its connection, and no
reply is read. -/
def BrokerClient.request (py : Builtins) (d : BrokerDaemon) (msg : BrokerMessage) (uuid : String) (now : ℚ) :
    Link → Option BrokerMessage × BrokerDaemon
  | .replied => ((d.handleMessage py msg uuid now).1.toOption, (d.handleMessage py msg uuid now).2)
  | .replyLost => (none, (d.handleMessage py msg uuid now).2)
  | .unsent => (none, d)

/-- A value as a condition. -/
def truthy : Json → Bool
  | .null => false
  | .bool b => b
  | .int n => decide (n ≠ 0)
  | .float x => decide (x ≠ .fin 0)
  | .str s => decide (s ≠ "")
  | .container repr => decide (repr ≠ "[]" ∧ repr ≠ "{}")

/-- `reply.data.get("granted", False)`. -/
def BrokerMessage.granted (reply : BrokerMessage) : Bool := truthy (reply.data.getD "granted" (.bool false))

inductive CallEnd where
  | refused
  -- the RESERVE raised, its reservation granted by the daemon or not
  | unreserved (granted : Bool)
  | committed
  -- the COMMIT raised
  | uncommitted
  | released
  -- the RELEASE raised, handled by the daemon or not
  | unreleased (handled : Bool)
  deriving DecidableEq

/-- How far a call of `complete` is. -/
inductive CallPhase where
  -- the provider runs
  | calling (reservationId : String)
  | returned (reservationId : String) (usage : Usage)
  | raised (reservationId : String)
  | finished (callEnd : CallEnd)

namespace CallPhase

/-- The daemon took a slot for the call and has not been told to give it back. -/
def holdsSlot : CallPhase → Bool
  | .finished .refused => false
  | .finished (.unreserved granted) => granted
  | .finished .released => false
  | .finished (.unreleased handled) => !handled
  | _ => true

/-- The call is over and left its slot taken. -/
def keepsSlot : CallPhase → Bool
  | .finished e => (CallPhase.finished e).holdsSlot
  | _ => false

def isCalling : CallPhase → Bool
  | .calling _ => true
  | _ => false

/-- The provider was called. -/
def reached : CallPhase → Bool
  | .finished .refused => false
  | .finished (.unreserved _) => false
  | _ => true

end CallPhase

structure RoutedCall where
  provider : ProviderId
  model : String
  phase : CallPhase

/-- The daemon and the calls made so far, and the reservation ids it gave out. -/
structure RoutedSystem where
  daemon : BrokerDaemon
  issued : List String := []
  calls : List RoutedCall := []

inductive RoutedAct where
  -- a new call reserves
  | reserve (provider : ProviderId) (model uuid : String) (now : ℚ) (link : Link)
  | provider (i : ℕ) (result : Call)
  | commit (i : ℕ) (now : ℚ) (link : Link)
  | release (i : ℕ) (now : ℚ) (link : Link)
  | reap (now : ℚ)

namespace RoutedSystem

variable (py : Builtins)

/-- Where a call is after its RESERVE. -/
def afterReserve (d : BrokerDaemon) (msg : BrokerMessage) (uuid : String) (now : ℚ) (link : Link) : CallPhase :=
  match (BrokerClient.request py d msg uuid now link).1 with
  | some reply =>
    if reply.granted then .calling (py.str (reply.data.getD "reservation_id" (.str ""))) else .finished .refused
  | none => .finished (.unreserved (decide (link ≠ .unsent) &&
      (d.handleMessage py msg uuid now).1.toOption.any BrokerMessage.granted))

/-- The call's settling request, and how the call ends: read its reply, or raised. -/
def settle (s : RoutedSystem) (i : ℕ) (c : RoutedCall) (msg : BrokerMessage) (now : ℚ) (link : Link)
    (replied lost : CallEnd) : RoutedSystem :=
  let answer := BrokerClient.request py s.daemon msg "" now link
  { s with
    daemon := answer.2
    calls := s.calls.set i { c with phase := .finished (if answer.1.isSome then replied else lost) } }

def step (s : RoutedSystem) : RoutedAct → Option RoutedSystem
  | .reserve provider model uuid now link =>
    if uuid ∈ s.issued then none
    else
      let msg := BrokerClient.reserve provider (.fin 1) ""
      some ⟨(BrokerClient.request py s.daemon msg uuid now link).2, s.issued ++ [uuid],
        s.calls ++ [⟨provider, model, afterReserve py s.daemon msg uuid now link⟩]⟩
  | .provider i result => match s.calls[i]? with
    | some ⟨provider, model, .calling rid⟩ => some { s with calls := s.calls.set i ⟨provider, model, match result with
        | .returns usage => .returned rid usage
        | .raises => .raised rid⟩ }
    | _ => none
  | .commit i now link => match s.calls[i]? with
    | some ⟨provider, model, .returned rid usage⟩ =>
      some (s.settle py i ⟨provider, model, .returned rid usage⟩
        (BrokerClient.commit provider rid (.fin 1) model usage "") now link .committed .uncommitted)
    | _ => none
  | .release i now link => match s.calls[i]? with
    | some ⟨provider, model, .raised rid⟩ =>
      some (s.settle py i ⟨provider, model, .raised rid⟩ (BrokerClient.release provider rid) now link .released
        (.unreleased (decide (link ≠ .unsent))))
    | _ => none
  | .reap now => some { s with daemon := s.daemon.reap now }

def machine : Machine RoutedSystem RoutedAct := ⟨step py⟩

/-- The calls of a provider in such a phase. -/
def count (s : RoutedSystem) (p : ProviderId) (phase : CallPhase → Bool) : ℕ :=
  s.calls.countP (fun c => decide (c.provider = p) && phase c.phase)

/-- The slots of the limiter a provider has, against the calls that hold one. -/
def SlotsOf (n : ℕ) (s : RoutedSystem) (p : ProviderId) : Prop :=
  ∃ l, s.daemon.limiters p = some l ∧ l.maxConcurrency = n ∧ l.inFlight = (s.count p CallPhase.holdsSlot : ℤ) ∧
    l.permits + s.count p CallPhase.holdsSlot = n

end RoutedSystem

/-! ## The messages of a routed call -/

section Messages

variable (py : Builtins)

theorem reserveArgs_routed (p : ProviderId) :
    BrokerDaemon.reserveArgs py (BrokerClient.reserve p (.fin 1) "").data = .ok ⟨p, .fin 1, py.str (.str "")⟩ := by
  cases p <;> rfl

theorem commitArgs_routed (p : ProviderId) (rid model : String) (usage : Usage) :
    BrokerDaemon.commitArgs py (BrokerClient.commit p rid (.fin 1) model usage "").data =
      .ok ⟨py.str (.str rid), .fin 1, py.str (.str model), usage, p, py.str (.str "")⟩ := by
  cases p <;> rfl

theorem releaseArgs_routed (p : ProviderId) (rid : String) :
    BrokerDaemon.releaseArgs py (BrokerClient.release p rid).data = .ok ⟨py.str (.str rid), p⟩ := by
  cases p <;> rfl

theorem granted_refuse (op reason : String) : (BrokerDaemon.refuse op reason).granted = false := rfl

/-- **A routed RESERVE** charges a slot and a token and is granted, or is refused and takes no slot. -/
theorem handle_reserve_routed (d : BrokerDaemon) (p : ProviderId) (uuid : String) (now : ℚ) :
    (∃ d₁, d.kill.tripped = false ∧ BrokerDaemon.Charged d d₁ ⟨p, .fin 1, py.str (.str "")⟩ now ∧
      d.handleMessage py (BrokerClient.reserve p (.fin 1) "") uuid now =
        d₁.grant ⟨p, .fin 1, py.str (.str "")⟩ uuid now) ∨
    (∃ reply d', reply.granted = false ∧ d'.limiters = d.limiters ∧ d'.kill = d.kill ∧
      d.handleMessage py (BrokerClient.reserve p (.fin 1) "") uuid now = (.ok reply, d')) := by
  rw [BrokerDaemon.handleMessage_reserve rfl]
  rcases BrokerDaemon.reserve_cases py d (BrokerClient.reserve p (.fin 1) "").data uuid now with
    ⟨a, d₁, hargs, htrip, hch, heq⟩ | ⟨reason, d', href, -, heq⟩ | ⟨-, hargs, -⟩
  · rw [reserveArgs_routed] at hargs
    cases hargs
    exact Or.inl ⟨d₁, htrip, hch, heq⟩
  · refine Or.inr ⟨_, d', granted_refuse "RESERVE" reason, ?_, ?_, heq⟩
    · rcases href with rfl | ⟨a, -, rfl | ⟨b, -, rfl⟩⟩ <;> rfl
    · rcases href with rfl | ⟨a, -, rfl | ⟨b, -, rfl⟩⟩ <;> rfl
  · rw [reserveArgs_routed] at hargs
    cases hargs

theorem handle_commit_routed (d : BrokerDaemon) (p : ProviderId) (rid model : String) (usage : Usage) (uuid : String)
    (now : ℚ) : ∃ a, d.handleMessage py (BrokerClient.commit p rid (.fin 1) model usage "") uuid now =
      d.settleCommit py a now := by
  rw [BrokerDaemon.handleMessage_commit rfl, BrokerDaemon.commit_ok (commitArgs_routed py p rid model usage)]
  exact ⟨_, rfl⟩

theorem handle_release_routed (d : BrokerDaemon) (p : ProviderId) (rid uuid : String) (now : ℚ) :
    ∃ rid', d.handleMessage py (BrokerClient.release p rid) uuid now = d.settleRelease ⟨rid', p⟩ := by
  rw [BrokerDaemon.handleMessage_release rfl, BrokerDaemon.release_ok (releaseArgs_routed py p rid)]
  exact ⟨_, rfl⟩

end Messages

theorem Account.tripped_charge {A : Account} (h : A.kill.tripped = true) (c : Commit) :
    (A.charge c).kill.tripped = true := by
  unfold Account.charge
  dsimp only
  split
  · exact A.kill.trip_tripped c.callback
  · exact h

/-- **A tripped switch stays tripped** through a COMMIT, which may trip it, and a RELEASE. -/
theorem tripped_settleCommit {d : BrokerDaemon} (h : d.kill.tripped = true) (a : BrokerDaemon.CommitArgs) (now : ℚ) :
    (d.settleCommit py a now).2.kill.tripped = true := by
  have hacc := BrokerDaemon.account_settleCommit py d a now none
  show (d.settleCommit py a now).2.account.kill.tripped = true
  rw [hacc]
  generalize committed (d.usageOf py a now none).toList = cs
  induction cs using List.reverseRecOn with
  | nil => exact h
  | append_singleton cs c ih =>
    rw [Account.after_snoc]
    exact Account.tripped_charge ih c

theorem kill_settleRelease (d : BrokerDaemon) (a : BrokerDaemon.ReleaseArgs) :
    (d.settleRelease a).2.kill = d.kill :=
  congrArg Account.kill (BrokerDaemon.account_settleRelease d a)

/-! ## What a step does to the slots -/

namespace RoutedSystem

/-- **What one step does**: a call begins with a slot taken or without one, a call moves on and keeps its slot, a call
ends and its slot is given back, or nothing of this. -/
inductive Effect (s : RoutedSystem) (s' : RoutedSystem) : Prop where
  | begin (c : RoutedCall) (hcalls : s'.calls = s.calls ++ [c]) (htrip : s.daemon.kill.tripped = false)
      (hholds : c.phase.holdsSlot = true) (hkill : s'.daemon.kill = s.daemon.kill)
      (hslot : (s.daemon.limiters c.provider = none ∧ s'.daemon.limiters = s.daemon.limiters) ∨
        ∃ l l', s.daemon.limiters c.provider = some l ∧ l.acquire = (true, l') ∧
          s'.daemon.limiters = Function.update s.daemon.limiters c.provider (some l'))
  | fail (c : RoutedCall) (hcalls : s'.calls = s.calls ++ [c]) (hholds : c.phase.holdsSlot = false)
      (hreached : c.phase.reached = false) (hkill : s'.daemon.kill = s.daemon.kill)
      (hslot : s'.daemon.limiters = s.daemon.limiters)
  | move (i : ℕ) (c : RoutedCall) (phase : CallPhase) (hi : s.calls[i]? = some c)
      (hcalls : s'.calls = s.calls.set i { c with phase }) (hfrom : c.phase.holdsSlot = true)
      (hkeeps : c.phase.keepsSlot = false) (hto : phase.holdsSlot = true)
      (hreached : c.phase.reached = true) (hreached' : phase.reached = true)
      (hkill : s.daemon.kill.tripped = true → s'.daemon.kill.tripped = true)
      (hslot : s'.daemon.limiters = s.daemon.limiters)
  | free (i : ℕ) (c : RoutedCall) (phase : CallPhase) (hi : s.calls[i]? = some c)
      (hcalls : s'.calls = s.calls.set i { c with phase }) (hfrom : c.phase.holdsSlot = true)
      (hkeeps : c.phase.keepsSlot = false) (hto : phase.holdsSlot = false)
      (hreached : c.phase.reached = true) (hreached' : phase.reached = true) (hkill : s'.daemon.kill = s.daemon.kill)
      (hslot : s'.daemon.limiters = Function.update s.daemon.limiters c.provider
        ((s.daemon.limiters c.provider).map (fun l => l.release.2)))
  | quiet (hcalls : s'.calls = s.calls) (hkill : s'.daemon.kill = s.daemon.kill)
      (hslot : s'.daemon.limiters = s.daemon.limiters)

variable {py : Builtins} {s s' : RoutedSystem}

@[simp] theorem settle_daemon (i : ℕ) (c : RoutedCall) (msg : BrokerMessage) (now : ℚ) (link : Link)
    (replied lost : CallEnd) : (s.settle py i c msg now link replied lost).daemon =
      (BrokerClient.request py s.daemon msg "" now link).2 := rfl

theorem effect_reserve {provider : ProviderId} {model uuid : String} {now : ℚ} {link : Link}
    (h : (machine py).step s (.reserve provider model uuid now link) = some s') : Effect s s' := by
  have hstep : step py s (.reserve provider model uuid now link) = some s' := h
  rw [step] at hstep
  split at hstep
  · cases hstep
  cases hstep
  rcases handle_reserve_routed py s.daemon provider uuid now with ⟨d₁, htrip, hch, heq⟩ | ⟨reply, d', hno, hlim, hkill, heq⟩
  · have hlimiters : (d₁.grant ⟨provider, .fin 1, py.str (.str "")⟩ uuid now).2.limiters = d₁.limiters := rfl
    have hkill : (d₁.grant ⟨provider, .fin 1, py.str (.str "")⟩ uuid now).2.kill = s.daemon.kill := by
      show d₁.kill = s.daemon.kill
      rw [hch.rest]
    cases link with
    | replied =>
      refine .begin _ rfl htrip ?_ ?_ ?_
      · simp only [afterReserve, BrokerClient.request, heq]
        rfl
      · simp only [BrokerClient.request, heq, hkill]
      · simp only [BrokerClient.request, heq, hlimiters]
        exact hch.limiter
    | replyLost =>
      refine .begin _ rfl htrip ?_ ?_ ?_
      · simp only [afterReserve, BrokerClient.request, heq]
        rfl
      · simp only [BrokerClient.request, heq, hkill]
      · simp only [BrokerClient.request, heq, hlimiters]
        exact hch.limiter
    | unsent => exact .fail _ rfl rfl rfl rfl rfl
  · cases link with
    | replied =>
      refine .fail _ rfl ?_ ?_ ?_ ?_ <;>
        simp [afterReserve, BrokerClient.request, heq, Except.toOption, hno, hkill, hlim, CallPhase.holdsSlot,
          CallPhase.reached]
    | replyLost =>
      refine .fail _ rfl ?_ ?_ ?_ ?_ <;>
        simp [afterReserve, BrokerClient.request, heq, Except.toOption, hno, hkill, hlim, CallPhase.holdsSlot,
          CallPhase.reached]
    | unsent => exact .fail _ rfl rfl rfl rfl rfl

theorem effect_commit {i : ℕ} {now : ℚ} {link : Link} (h : (machine py).step s (.commit i now link) = some s') :
    Effect s s' := by
  have hstep : step py s (.commit i now link) = some s' := h
  simp only [step] at hstep
  split at hstep
  · rename_i provider model rid usage hi
    cases hstep
    obtain ⟨a, ha⟩ := handle_commit_routed py s.daemon provider rid model usage "" now
    refine .move i _ _ hi rfl rfl rfl ?_ rfl ?_ ?_ ?_
    · split <;> rfl
    · split <;> rfl
    · intro ht
      cases link <;> simp only [settle_daemon, BrokerClient.request, ha, tripped_settleCommit ht, ht]
    · cases link <;>
        simp only [settle_daemon, BrokerClient.request, ha, (BrokerDaemon.settleCommit_snd py s.daemon a now).2.1]
  · cases hstep

theorem effect_release {i : ℕ} {now : ℚ} {link : Link} (h : (machine py).step s (.release i now link) = some s') :
    Effect s s' := by
  have hstep : step py s (.release i now link) = some s' := h
  simp only [step] at hstep
  split at hstep
  · rename_i provider model rid hi
    cases hstep
    obtain ⟨rid', hr⟩ := handle_release_routed py s.daemon provider rid "" now
    have hlim := (BrokerDaemon.settleRelease_snd s.daemon ⟨rid', provider⟩).2.1
    cases link with
    | unsent => exact .move i _ _ hi rfl rfl rfl rfl rfl rfl id rfl
    | replied =>
      refine .free i _ _ hi rfl rfl rfl ?_ rfl ?_ ?_ ?_
      · split <;> rfl
      · split <;> rfl
      · simp only [settle_daemon, BrokerClient.request, hr, kill_settleRelease]
      · simp only [settle_daemon, BrokerClient.request, hr, hlim]
    | replyLost =>
      refine .free i _ _ hi rfl rfl rfl rfl rfl rfl ?_ ?_
      · simp only [settle_daemon, BrokerClient.request, hr, kill_settleRelease]
      · simp only [settle_daemon, BrokerClient.request, hr, hlim]
  · cases hstep

theorem effect_of_step {a : RoutedAct} (h : (machine py).step s a = some s') : Effect s s' := by
  cases a with
  | reserve provider model uuid now link => exact effect_reserve h
  | commit i now link => exact effect_commit h
  | release i now link => exact effect_release h
  | reap now =>
    cases h
    exact .quiet rfl rfl rfl
  | provider i result =>
    have hstep : step py s (.provider i result) = some s' := h
    simp only [step] at hstep
    split at hstep
    · rename_i provider model rid hi
      cases hstep
      refine .move i _ _ hi rfl rfl rfl ?_ rfl ?_ id rfl <;> cases result <;> rfl
    · cases hstep

/-! ## Counting the calls -/

theorem count_begin {c : RoutedCall} (h : s'.calls = s.calls ++ [c]) (p : ProviderId) (phase : CallPhase → Bool) :
    s'.count p phase = s.count p phase + if c.provider = p ∧ phase c.phase = true then 1 else 0 := by
  unfold count
  rw [h, List.countP_append, List.countP_singleton]
  simp only [Bool.and_eq_true, decide_eq_true_eq]

theorem count_set {i : ℕ} {c : RoutedCall} {next : CallPhase} (hi : s.calls[i]? = some c)
    (h : s'.calls = s.calls.set i { c with phase := next }) (p : ProviderId) (phase : CallPhase → Bool) :
    s'.count p phase + (if c.provider = p ∧ phase c.phase = true then 1 else 0) =
      s.count p phase + if c.provider = p ∧ phase next = true then 1 else 0 := by
  obtain ⟨hlt, hc⟩ := List.getElem?_eq_some_iff.1 hi
  have hpos : (if c.provider = p ∧ phase c.phase = true then 1 else 0) ≤ s.count p phase := by
    split
    · rename_i hcounted
      refine List.countP_pos_iff.2 ⟨c, hc ▸ List.getElem_mem hlt, ?_⟩
      simp [hcounted]
    · exact Nat.zero_le _
  unfold count at hpos ⊢
  rw [h, List.countP_set hlt, hc]
  simp only [Bool.and_eq_true, decide_eq_true_eq]
  omega

theorem count_congr (h : s'.calls = s.calls) (p : ProviderId) (phase : CallPhase → Bool) :
    s'.count p phase = s.count p phase := by
  unfold count
  rw [h]

/-- A call in progress and one that is over and kept its slot both hold one. -/
theorem calling_add_keeps_le (s : RoutedSystem) (p : ProviderId) :
    s.count p CallPhase.isCalling + s.count p CallPhase.keepsSlot ≤ s.count p CallPhase.holdsSlot := by
  unfold count
  induction s.calls with
  | nil => exact le_refl _
  | cons c calls ih =>
    have hone : (if c.phase.isCalling = true then 1 else 0) + (if c.phase.keepsSlot = true then 1 else 0) ≤
        if c.phase.holdsSlot = true then 1 else 0 := by
      cases c.phase with
      | finished e => cases h : (CallPhase.finished e).holdsSlot <;> simp [CallPhase.isCalling, CallPhase.keepsSlot, h]
      | _ => simp [CallPhase.isCalling, CallPhase.keepsSlot, CallPhase.holdsSlot]
    simp only [List.countP_cons, Bool.and_eq_true, decide_eq_true_eq]
    by_cases hp : c.provider = p
    · simp only [hp, true_and]
      omega
    · simpa [hp] using ih

/-! ## The slots of a provider -/

/-- **A step keeps the limiter in step with the calls that hold its slots.** -/
theorem slotsOf_of_effect {n : ℕ} {p : ProviderId} (h : s.SlotsOf n p) (he : Effect s s') : s'.SlotsOf n p := by
  obtain ⟨l, hl, hmax, hflight, hpermits⟩ := h
  cases he with
  | quiet hcalls hkill hslot => exact ⟨l, hslot ▸ hl, hmax, by rw [count_congr hcalls, hflight], by
      rw [count_congr hcalls, hpermits]⟩
  | fail c hcalls hholds hreached hkill hslot =>
    have hsame := count_begin hcalls p CallPhase.holdsSlot
    rw [hholds, if_neg (by simp), Nat.add_zero] at hsame
    exact ⟨l, hslot ▸ hl, hmax, by rw [hsame, hflight], by rw [hsame, hpermits]⟩
  | move i c phase hi hcalls hfrom hkeeps hto hreached hreached' hkill hslot =>
    have hsame := count_set hi hcalls p CallPhase.holdsSlot
    rw [hfrom, hto, Nat.add_right_cancel_iff] at hsame
    exact ⟨l, hslot ▸ hl, hmax, by rw [hsame, hflight], by rw [hsame, hpermits]⟩
  | begin c hcalls htrip hholds hkill hslot =>
    have hmore := count_begin hcalls p CallPhase.holdsSlot
    rw [hholds] at hmore
    by_cases hp : c.provider = p
    · subst hp
      rw [if_pos ⟨rfl, rfl⟩] at hmore
      rcases hslot with ⟨hnone, -⟩ | ⟨l₀, l', hl₀, hacq, hupd⟩
      · rw [hl] at hnone
        cases hnone
      · rw [hl] at hl₀
        cases hl₀
        obtain ⟨hpos, hperm, hfl, hmax'⟩ := LocalLimiter.acquire_true hacq
        refine ⟨l', by rw [hupd, Function.update_self], hmax'.trans hmax, ?_, ?_⟩
        · rw [hfl, hflight]
          omega
        · rw [hperm, hmore]
          omega
    · rw [if_neg (fun hc => hp hc.1), Nat.add_zero] at hmore
      refine ⟨l, ?_, hmax, by rw [hmore, hflight], by rw [hmore, hpermits]⟩
      rcases hslot with ⟨-, hsame⟩ | ⟨l₀, l', -, -, hupd⟩
      · rw [hsame, hl]
      · rw [hupd, Function.update_of_ne (Ne.symm hp), hl]
  | free i c phase hi hcalls hfrom hkeeps hto hreached hreached' hkill hslot =>
    have hless := count_set hi hcalls p CallPhase.holdsSlot
    rw [hfrom, hto] at hless
    simp only [and_true, Bool.false_eq_true, and_false, if_false, Nat.add_zero] at hless
    by_cases hp : c.provider = p
    · subst hp
      rw [if_pos rfl] at hless
      have hlt : l.permits < l.maxConcurrency := by omega
      have hrel : l.release.2.inFlight = l.inFlight - 1 ∧ l.release.2.permits = l.permits + 1 ∧
          l.release.2.maxConcurrency = l.maxConcurrency := by
        unfold LocalLimiter.release
        rw [dif_pos hlt]
        exact ⟨rfl, rfl, rfl⟩
      obtain ⟨hfl, hperm, hmax'⟩ := hrel
      refine ⟨l.release.2, by rw [hslot, Function.update_self, hl, Option.map_some], hmax'.trans hmax, ?_, ?_⟩
      · rw [hfl, hflight]
        omega
      · rw [hperm]
        omega
    · rw [if_neg hp, Nat.add_zero] at hless
      refine ⟨l, ?_, hmax, by rw [hless, hflight], by rw [hless, hpermits]⟩
      rw [hslot, Function.update_of_ne (Ne.symm hp), hl]

theorem slotsOf_init {cfg : HarnessConfig} {now : ℚ} {d : BrokerDaemon} (hd : BrokerDaemon.init cfg now = some d)
    {p : ProviderId} {l : LocalLimiter} (hl : d.limiters p = some l) :
    (RoutedSystem.mk d [] []).SlotsOf l.maxConcurrency p := by
  obtain ⟨hflight, hpermits⟩ := (asBuilt_init hd).limiters p l hl
  exact ⟨l, hl, rfl, hflight, hpermits⟩

theorem slotsOf_of_run {cfg : HarnessConfig} {now : ℚ} {d : BrokerDaemon} (hd : BrokerDaemon.init cfg now = some d)
    {p : ProviderId} {l : LocalLimiter} (hl : d.limiters p = some l) {acts : List RoutedAct}
    (h : (machine py).run ⟨d, [], []⟩ acts = some s) : s.SlotsOf l.maxConcurrency p :=
  (machine py).inv_of_run (fun s => s.SlotsOf l.maxConcurrency p)
    (fun _ _ _ hi hstep => slotsOf_of_effect hi (effect_of_step hstep)) acts _ s (slotsOf_init hd hl) h

/-- **The calls of a limited provider never outnumber its slots**: whatever the order of the calls' steps, the failures
of their connections and the clock, the limiter counts exactly the calls that hold a slot, and the calls its provider is
running and the ones that ended without giving their slot back are together no more than its concurrency. -/
theorem calls_within_slots (py : Builtins) (cfg : HarnessConfig) (now : ℚ) (d : BrokerDaemon)
    (hd : BrokerDaemon.init cfg now = some d) (p : ProviderId) (l : LocalLimiter) (hl : d.limiters p = some l)
    (acts : List RoutedAct) (s : RoutedSystem) (h : (machine py).run ⟨d, [], []⟩ acts = some s) :
    s.SlotsOf l.maxConcurrency p ∧
      s.count p CallPhase.isCalling + s.count p CallPhase.keepsSlot ≤ l.maxConcurrency := by
  have hslots := slotsOf_of_run hd hl h
  refine ⟨hslots, ?_⟩
  obtain ⟨l', _, _, _, hpermits⟩ := hslots
  have hle := s.calling_add_keeps_le p
  omega

/-! ## When no call begins any more -/

/-- Every slot of the provider is kept by a call that is over. -/
def Exhausted (n : ℕ) (p : ProviderId) (s : RoutedSystem) : Prop := s.SlotsOf n p ∧ n ≤ s.count p CallPhase.keepsSlot

theorem Exhausted.not_acquired {n : ℕ} {p : ProviderId} (h : Exhausted n p s) {l l' : LocalLimiter}
    (hl : s.daemon.limiters p = some l) : l.acquire ≠ (true, l') := by
  intro hacq
  obtain ⟨⟨l₀, hl₀, -, -, hpermits⟩, hkeeps⟩ := h
  rw [hl] at hl₀
  cases hl₀
  have hpos := (LocalLimiter.acquire_true hacq).1
  have hle := s.calling_add_keeps_le p
  omega

/-- A step where no call begins reaches the provider with no new call. -/
theorem reached_of_effect {p : ProviderId} (he : Effect s s')
    (hno : ∀ c, s'.calls = s.calls ++ [c] → c.phase.holdsSlot = true → s.daemon.kill.tripped = false →
      (∀ l, s.daemon.limiters p = some l → c.provider = p → ∃ l', l.acquire = (true, l')) → c.provider ≠ p) :
    s'.count p CallPhase.reached = s.count p CallPhase.reached := by
  cases he with
  | quiet hcalls hkill hslot => exact count_congr hcalls p _
  | fail c hcalls hholds hreached hkill hslot =>
    have hsame := count_begin hcalls p CallPhase.reached
    rwa [hreached, if_neg (by simp), Nat.add_zero] at hsame
  | move i c phase hi hcalls hfrom hkeeps hto hreached hreached' hkill hslot =>
    have hsame := count_set hi hcalls p CallPhase.reached
    rwa [hreached, hreached', Nat.add_right_cancel_iff] at hsame
  | free i c phase hi hcalls hfrom hkeeps hto hreached hreached' hkill hslot =>
    have hsame := count_set hi hcalls p CallPhase.reached
    rwa [hreached, hreached', Nat.add_right_cancel_iff] at hsame
  | begin c hcalls htrip hholds hkill hslot =>
    have hne := hno c hcalls hholds htrip (fun l hl hp => by
      subst hp
      rcases hslot with ⟨hnone, -⟩ | ⟨l₀, l', hl₀, hacq, -⟩
      · rw [hl] at hnone
        cases hnone
      · rw [hl] at hl₀
        cases hl₀
        exact ⟨l', hacq⟩)
    have hsame := count_begin hcalls p CallPhase.reached
    rwa [if_neg (fun hc => hne hc.1), Nat.add_zero] at hsame

theorem keeps_of_effect {p : ProviderId} (he : Effect s s') :
    s.count p CallPhase.keepsSlot ≤ s'.count p CallPhase.keepsSlot := by
  cases he with
  | quiet hcalls hkill hslot => rw [count_congr hcalls]
  | fail c hcalls hholds hreached hkill hslot =>
    rw [count_begin hcalls]
    exact Nat.le_add_right _ _
  | begin c hcalls htrip hholds hkill hslot =>
    rw [count_begin hcalls]
    exact Nat.le_add_right _ _
  | move i c phase hi hcalls hfrom hkeeps hto hreached hreached' hkill hslot =>
    have hset := count_set hi hcalls p CallPhase.keepsSlot
    rw [hkeeps, if_neg (by simp), Nat.add_zero] at hset
    omega
  | free i c phase hi hcalls hfrom hkeeps hto hreached hreached' hkill hslot =>
    have hset := count_set hi hcalls p CallPhase.keepsSlot
    rw [hkeeps, if_neg (by simp), Nat.add_zero] at hset
    omega

/-- **A limited provider serves no more calls than it has slots**: a call that returned keeps its slot for good, and once
every slot is kept by a call that is over, no further call of that provider is ever made. -/
theorem no_call_when_exhausted (py : Builtins) (cfg : HarnessConfig) (now : ℚ) (d : BrokerDaemon)
    (hd : BrokerDaemon.init cfg now = some d) (p : ProviderId) (l : LocalLimiter) (hl : d.limiters p = some l)
    (acts later : List RoutedAct) (s t : RoutedSystem) (h : (machine py).run ⟨d, [], []⟩ acts = some s)
    (hfull : s.count p CallPhase.keepsSlot = l.maxConcurrency) (hlater : (machine py).run s later = some t) :
    t.count p CallPhase.reached = s.count p CallPhase.reached ∧ t.count p CallPhase.isCalling = 0 := by
  have hstart : Exhausted l.maxConcurrency p s := ⟨slotsOf_of_run hd hl h, hfull.ge⟩
  have hend := (machine py).inv_of_run
    (fun r => Exhausted l.maxConcurrency p r ∧ r.count p CallPhase.reached = s.count p CallPhase.reached)
    (fun r a r' hi hstep => by
      have he := effect_of_step hstep
      refine ⟨⟨slotsOf_of_effect hi.1.1 he, hi.1.2.trans (keeps_of_effect he)⟩, ?_⟩
      refine (reached_of_effect he (fun c _ _ _ hslot hp => ?_)).trans hi.2
      obtain ⟨l₀, hl₀, -⟩ := hi.1.1
      obtain ⟨l', hacq⟩ := hslot l₀ hl₀ hp
      exact hi.1.not_acquired hl₀ hacq)
    later s t ⟨hstart, rfl⟩ hlater
  obtain ⟨⟨⟨l', _, _, _, hpermits⟩, hkeeps⟩, hreached⟩ := hend
  have hle := t.calling_add_keeps_le p
  exact ⟨hreached, by omega⟩

theorem tripped_of_effect (he : Effect s s') (h : s.daemon.kill.tripped = true) : s'.daemon.kill.tripped = true := by
  cases he with
  | quiet _ hkill _ => rw [hkill, h]
  | fail _ _ _ _ hkill _ => rw [hkill, h]
  | begin _ _ _ _ hkill _ => rw [hkill, h]
  | move _ _ _ _ _ _ _ _ _ _ hkill _ => exact hkill h
  | free _ _ _ _ _ _ _ _ _ _ hkill _ => rw [hkill, h]

/-! ## A provider with one slot -/

/-- One call that returns, from its reservation to its COMMIT. -/
def oneCall (p : ProviderId) (model : String) (usage : Usage) : List RoutedAct :=
  [.reserve p model "r1" 0 .replied, .provider 0 (.returns usage), .commit 0 1 .replied]

def anotherCall (p : ProviderId) (model : String) : List RoutedAct := [.reserve p model "r2" 2 .replied]

theorem calls_within_slots_oneCall : ∃ d l s, BrokerDaemon.init oneSlot 0 = some d ∧ d.limiters .ollama = some l ∧
    (machine Builtins.decimal).run ⟨d, [], []⟩ (oneCall .ollama "llama3:8b" ⟨10, 5⟩) = some s ∧
    s.SlotsOf l.maxConcurrency .ollama ∧
      s.count .ollama CallPhase.isCalling + s.count .ollama CallPhase.keepsSlot ≤ l.maxConcurrency := by
  have hrun : (BrokerDaemon.init oneSlot 0).any (fun d => (d.limiters .ollama).isSome &&
      ((machine Builtins.decimal).run ⟨d, [], []⟩ (oneCall .ollama "llama3:8b" ⟨10, 5⟩)).isSome) = true := by
    decide +kernel
  obtain ⟨d, hd, h⟩ := (Option.any_eq_true _ _).1 hrun
  rw [Bool.and_eq_true] at h
  obtain ⟨l, hl⟩ := Option.isSome_iff_exists.1 h.1
  obtain ⟨s, hs⟩ := Option.isSome_iff_exists.1 h.2
  exact ⟨d, l, s, hd, hl, hs, calls_within_slots Builtins.decimal oneSlot 0 d hd .ollama l hl _ s hs⟩

theorem no_call_after_oneCall : ∃ d s t, BrokerDaemon.init oneSlot 0 = some d ∧
    (machine Builtins.decimal).run ⟨d, [], []⟩ (oneCall .ollama "llama3:8b" ⟨10, 5⟩) = some s ∧
    (machine Builtins.decimal).run s (anotherCall .ollama "llama3:8b") = some t ∧
    t.count .ollama CallPhase.reached = s.count .ollama CallPhase.reached ∧ t.count .ollama CallPhase.isCalling = 0 := by
  have hrun : (BrokerDaemon.init oneSlot 0).any (fun d => (d.limiters .ollama).any (fun l =>
      ((machine Builtins.decimal).run ⟨d, [], []⟩ (oneCall .ollama "llama3:8b" ⟨10, 5⟩)).any (fun s =>
        decide (s.count .ollama CallPhase.keepsSlot = l.maxConcurrency) &&
          ((machine Builtins.decimal).run s (anotherCall .ollama "llama3:8b")).isSome))) = true := by
    decide +kernel
  obtain ⟨d, hd, h⟩ := (Option.any_eq_true _ _).1 hrun
  obtain ⟨l, hl, h⟩ := (Option.any_eq_true _ _).1 h
  obtain ⟨s, hs, h⟩ := (Option.any_eq_true _ _).1 h
  rw [Bool.and_eq_true, decide_eq_true_eq] at h
  obtain ⟨t, ht⟩ := Option.isSome_iff_exists.1 h.2
  exact ⟨d, s, t, hd, hs, ht,
    no_call_when_exhausted Builtins.decimal oneSlot 0 d hd .ollama l hl _ _ s t hs h.1 ht⟩

end RoutedSystem
end Broker
end DevHarness
