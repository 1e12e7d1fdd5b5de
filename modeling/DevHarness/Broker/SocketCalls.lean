import DevHarness.Broker.RoutedCalls
import DevHarness.Lib.Rpc
/-!
# SocketCalls — the routed calls over their connections (`broker/client.py`, `_BrokerSocketServer` in `broker/daemon.py`)

`RoutedCalls` takes a request and what becomes of it in one step.  Here it is written to a connection, handled when its
thread comes to it, and its reply read or given up: the calls of one client share its connection, a client that gives up
drops it, and the daemon may come to the request later, between the requests of others.  The moment it is handled is
where the call takes its step in `RoutedCalls`, and whether the reply will be read is not settled then; so a state here
is seen as a state there for either outcome of each reply in flight (`refined_of_run`).  The threads of `_handle_conn`
hold no lock around a handler; here the handlers run one at a time.
-/
namespace DevHarness
namespace Broker

open Lib

/-- A request, and the call that makes it. -/
structure SocketRequest where
  call : ℕ
  msg : BrokerMessage

namespace SocketRequest

def reserves (q : SocketRequest) : Bool := decide (q.msg.op = "RESERVE")

/-- A call makes one request of each kind. -/
def key (q : SocketRequest) : ℕ × Bool := (q.call, q.reserves)

end SocketRequest

abbrev SocketLog := List (SocketRequest × Option BrokerMessage)

/-- How far a call of `complete` is: blocked in a request, left by its exception, or neither. -/
inductive SocketPhase where
  | reserving
  | unreserved
  | running (phase : CallPhase)
  | settling (phase : CallPhase)
  | unsettled (phase : CallPhase)

structure SocketCall where
  -- the `BrokerClient` it goes through
  client : ℕ
  provider : ProviderId
  model : String
  phase : SocketPhase

/-- The COMMIT of a call whose provider returned, the RELEASE of one whose provider raised. -/
def settleMsg (provider : ProviderId) (model : String) : CallPhase → Option BrokerMessage
  | .returned rid usage => some (BrokerClient.commit provider rid (.fin 1) model usage "")
  | .raised rid => some (BrokerClient.release provider rid)
  | _ => none

/-- How the call ends with that request handled: its reply read, or not. -/
def settledEnd (replied : Bool) : CallPhase → CallEnd
  | .raised _ => if replied then .released else .unreleased true
  | _ => if replied then .committed else .uncommitted

/-- Where a call is with the reply to its RESERVE. -/
def afterReply (py : Builtins) : Option BrokerMessage → CallPhase
  | some reply =>
    if reply.granted then .calling (py.str (reply.data.getD "reservation_id" (.str ""))) else .finished .refused
  | none => .finished (.unreserved false)

namespace SocketCall

def received (py : Builtins) (c : SocketCall) (reply : BrokerMessage) : SocketCall :=
  { c with phase := match c.phase with
    | .reserving => .running (afterReply py (some reply))
    | .settling phase => .running (.finished (settledEnd true phase))
    | phase => phase }

def raised (c : SocketCall) : SocketCall :=
  { c with phase := match c.phase with
    | .reserving => .unreserved
    | .settling phase => .unsettled phase
    | phase => phase }

end SocketCall

structure SocketSystem where
  net : Rpc.Net BrokerDaemon SocketRequest BrokerMessage
  issued : List String := []
  calls : List SocketCall := []

inductive SocketAct where
  -- a new call reserves; `sent` when the request is written whole
  | reserve (client : ℕ) (provider : ProviderId) (model : String) (sent : Bool)
  | provider (i : ℕ) (result : Call)
  | settle (i : ℕ) (sent : Bool)
  -- the thread of a connection handles its next request
  | serve (c : ℕ) (uuid : String) (now : ℚ)
  | read (client : ℕ)
  | giveUp (client : ℕ)
  | reap (now : ℚ)

namespace SocketSystem

variable (py : Builtins)

/-- One pass of `_handle_conn`, its handler not interleaved with another; one that raises ends it without a reply. -/
def handle (d : BrokerDaemon) (q : SocketRequest) (i : String × ℚ) : Option BrokerMessage × BrokerDaemon :=
  ((d.handleMessage py q.msg i.1 i.2).1.toOption, (d.handleMessage py q.msg i.1 i.2).2)

/-- The start of `_request`: the client is not blocked in another one, and connects where it has no connection. -/
def begin (s : SocketSystem) (k : ℕ) (q : SocketRequest) (sent : Bool) :
    Option (Rpc.Net BrokerDaemon SocketRequest BrokerMessage) :=
  if (s.net.clients k).asking.isSome = true then none
  else if sent then s.net.ask k q else some (s.net.leave k)

def step (s : SocketSystem) : SocketAct → Option SocketSystem
  | .reserve k provider model sent =>
    (s.begin k ⟨s.calls.length, BrokerClient.reserve provider (.fin 1) ""⟩ sent).map (fun net =>
      { s with net, calls := s.calls ++ [⟨k, provider, model, if sent then .reserving else .unreserved⟩] })
  | .provider i result => match s.calls[i]? with
    | some ⟨k, provider, model, .running (.calling rid)⟩ =>
      some { s with calls := s.calls.set i ⟨k, provider, model, .running (match result with
        | .returns usage => .returned rid usage
        | .raises => .raised rid)⟩ }
    | _ => none
  | .settle i sent => match s.calls[i]? with
    | some ⟨k, provider, model, .running phase⟩ => match settleMsg provider model phase with
      | none => none
      | some msg => (s.begin k ⟨i, msg⟩ sent).map (fun net => { s with
          net, calls := s.calls.set i ⟨k, provider, model, if sent then .settling phase else .unsettled phase⟩ })
    | _ => none
  | .serve c uuid now =>
    if uuid ∈ s.issued then none
    else (s.net.serve (handle py) c (uuid, now)).map (fun net => { s with
      net, issued := if net.log.getLast?.any (fun x => x.1.reserves) = true then s.issued ++ [uuid] else s.issued })
  | .read k => match (s.net.clients k).asking, s.net.read k with
    | some q, some (reply, net) => (s.calls[q.call]?).map (fun c =>
        { s with net, calls := s.calls.set q.call (c.received py reply) })
    | _, _ => none
  | .giveUp k => match (s.net.clients k).asking with
    | some q => (s.calls[q.call]?).map (fun c =>
        { s with net := s.net.leave k, calls := s.calls.set q.call c.raised })
    | none => none
  | .reap now => some { s with net := { s.net with server := s.net.server.reap now } }

def machine : Machine SocketSystem SocketAct := ⟨step py⟩

end SocketSystem

/-! ## The log -/

/-- The calls whose RESERVE has been handled, in that order. -/
def reservedOrder (log : SocketLog) : List ℕ := (log.filter (fun x => x.1.reserves)).map (fun x => x.1.call)

/-- What the daemon replied to a call's RESERVE. -/
def reserveReply (log : SocketLog) (i : ℕ) : Option BrokerMessage :=
  (log.find? (fun x => x.1.reserves && decide (x.1.call = i))).bind Prod.snd

/-- The call's COMMIT or RELEASE has been handled. -/
def hasSettled (log : SocketLog) (i : ℕ) : Bool := log.any (fun x => !x.1.reserves && decide (x.1.call = i))

/-- Its handler did not raise. -/
def replied (log : SocketLog) (i : ℕ) : Bool := log.any (fun x => !x.1.reserves && decide (x.1.call = i) && x.2.isSome)

/-- Each call's request of each kind is handled once. -/
def Distinct (log : SocketLog) : Prop := (log.map (fun x => x.1.key)).Nodup

section Log

variable {log : SocketLog} {x : SocketRequest × Option BrokerMessage} {i : ℕ}

theorem mem_reservedOrder : i ∈ reservedOrder log ↔ ∃ x ∈ log, x.1.reserves = true ∧ x.1.call = i := by
  simp only [reservedOrder, List.mem_map, List.mem_filter, and_assoc]

theorem hasSettled_eq_true_iff : hasSettled log i = true ↔ ∃ x ∈ log, x.1.reserves = false ∧ x.1.call = i := by
  simp [hasSettled]

theorem reservedOrder_snoc : reservedOrder (log ++ [x]) =
    reservedOrder log ++ if x.1.reserves = true then [x.1.call] else [] := by
  rw [reservedOrder, reservedOrder, List.filter_append, List.map_append, List.filter_singleton]
  cases x.1.reserves <;> rfl

theorem hasSettled_snoc_of_ne (h : x.1.reserves = true ∨ x.1.call ≠ i) :
    hasSettled (log ++ [x]) i = hasSettled log i := by
  rw [hasSettled, hasSettled, List.any_append, List.any_cons, List.any_nil, Bool.or_false]
  rcases h with h | h <;> simp [h]

theorem replied_snoc_of_ne (h : x.1.reserves = true ∨ x.1.call ≠ i) : replied (log ++ [x]) i = replied log i := by
  rw [replied, replied, List.any_append, List.any_cons, List.any_nil, Bool.or_false]
  rcases h with h | h <;> simp [h]

theorem replied_eq_false (h : hasSettled log i = false) : replied log i = false := by
  rw [hasSettled, List.any_eq_false] at h
  rw [replied, List.any_eq_false]
  intro x hx habs
  exact h x hx (Bool.and_eq_true_iff.1 habs).1

theorem reserveReply_snoc_of_mem (h : i ∈ reservedOrder log) : reserveReply (log ++ [x]) i = reserveReply log i := by
  obtain ⟨y, hy, hres, hcall⟩ := mem_reservedOrder.1 h
  have hfound : (log.find? (fun x => x.1.reserves && decide (x.1.call = i))).isSome = true :=
    List.find?_isSome.2 ⟨y, hy, by simp [hres, hcall]⟩
  rw [reserveReply, reserveReply, List.find?_append, Option.or_of_isSome hfound]

theorem reserveReply_snoc_of_ne (h : x.1.reserves = false ∨ x.1.call ≠ i) :
    reserveReply (log ++ [x]) i = reserveReply log i := by
  have hno : [x].find? (fun x => x.1.reserves && decide (x.1.call = i)) = none := by
    rw [List.find?_singleton]
    rcases h with h | h <;> simp [h]
  rw [reserveReply, reserveReply, List.find?_append, hno, Option.or_none]

theorem reserveReply_snoc_self (h : i ∉ reservedOrder log) (hres : x.1.reserves = true) (hcall : x.1.call = i) :
    reserveReply (log ++ [x]) i = x.2 := by
  have hnone : log.find? (fun x => x.1.reserves && decide (x.1.call = i)) = none :=
    List.find?_eq_none.2 (fun y hy hfound => h (mem_reservedOrder.2 ⟨y, hy, by simpa using hfound⟩))
  rw [reserveReply, List.find?_append, hnone, Option.none_or, List.find?_singleton, if_pos (by simp [hres, hcall])]
  rfl

theorem nodup_reservedOrder (h : Distinct log) : (reservedOrder log).Nodup := by
  have hkeys : (reservedOrder log).map (fun i => (i, true)) =
      (log.filter (fun x => x.1.reserves)).map (fun x => x.1.key) := by
    rw [reservedOrder, List.map_map]
    refine List.map_congr_left (fun x hx => ?_)
    have hres : x.1.reserves = true := (List.mem_filter.1 hx).2
    simp [SocketRequest.key, hres]
  refine List.Nodup.of_map (fun i => (i, true)) ?_
  rw [hkeys]
  exact h.sublist (List.filter_sublist.map _)

theorem reserveReply_of_mem (h : Distinct log) (hx : x ∈ log) (hres : x.1.reserves = true) :
    reserveReply log x.1.call = x.2 := by
  have hfound : (log.find? (fun y => y.1.reserves && decide (y.1.call = x.1.call))).isSome = true :=
    List.find?_isSome.2 ⟨x, hx, by simp [hres]⟩
  obtain ⟨y, hy⟩ := Option.isSome_iff_exists.1 hfound
  have hkey : y.1.reserves = true ∧ y.1.call = x.1.call := by simpa using List.find?_some hy
  have hyx : y = x := List.inj_on_of_nodup_map h (List.mem_of_find?_eq_some hy) hx (by
    simp [SocketRequest.key, hkey.1, hkey.2, hres])
  rw [reserveReply, hy, hyx]
  rfl

end Log

/-! ## What holds of the calls and their requests -/

/-- Not over. -/
def CallPhase.isOpen : CallPhase → Bool
  | .finished _ => false
  | _ => true

theorem isOpen_of_settleMsg {provider : ProviderId} {model : String} {phase : CallPhase} {msg : BrokerMessage}
    (h : settleMsg provider model phase = some msg) : phase.isOpen = true := by
  cases phase with
  | finished e => cases h
  | _ => rfl

theorem not_reserves_of_settleMsg {provider : ProviderId} {model : String} {phase : CallPhase} {msg : BrokerMessage}
    (h : settleMsg provider model phase = some msg) (i : ℕ) : SocketRequest.reserves ⟨i, msg⟩ = false := by
  cases phase <;> cases h <;> rfl

namespace SocketSystem

/-- **A call's requests by its phase**: only its RESERVE while it is blocked in it or left by it; the reservation handled
from then on, and no other request before the call is over, but for the one it is blocked in or was left by. -/
def Fits (asked : List SocketRequest) (log : SocketLog) (i : ℕ) (c : SocketCall) : Prop :=
  match c.phase with
  | .reserving | .unreserved => ∀ q ∈ asked, q.call = i → q.reserves = true
  | .running phase => i ∈ reservedOrder log ∧
    ∀ q ∈ asked, q.call = i → q.reserves = false → phase.isOpen = false ∧ hasSettled log i = true
  | .settling phase | .unsettled phase => i ∈ reservedOrder log ∧
    ∃ msg, settleMsg c.provider c.model phase = some msg ∧
      ∀ q ∈ asked, q.call = i → q.reserves = false → q.msg = msg

/-- The call a client is blocked in waits for the reply to this request. -/
def Blocked (calls : List SocketCall) (k : ℕ) (q : SocketRequest) : Prop :=
  ∃ c, calls[q.call]? = some c ∧ c.client = k ∧
    if q.reserves = true then c.phase = .reserving else ∃ phase, c.phase = .settling phase

structure Wired (s : SocketSystem) : Prop where
  sound : s.net.Sound
  distinct : (s.net.asked.map SocketRequest.key).Nodup
  -- every request is a call's, and a RESERVE is that of its provider
  made : ∀ q ∈ s.net.asked, ∃ c, s.calls[q.call]? = some c ∧
    (q.reserves = true → q.msg = BrokerClient.reserve c.provider (.fin 1) "")
  fits : ∀ i c, s.calls[i]? = some c → Fits s.net.asked s.net.log i c
  blocked : ∀ k q, (s.net.clients k).asking = some q → q ∈ s.net.asked ∧ Blocked s.calls k q

theorem fits_mono {asked asked' : List SocketRequest} {log log' : SocketLog} {i : ℕ} {c : SocketCall}
    (h : Fits asked log i c) (hasked : ∀ q ∈ asked', q.call = i → q ∈ asked) (hlog : log ⊆ log') :
    Fits asked' log' i c := by
  have hreserved : i ∈ reservedOrder log → i ∈ reservedOrder log' := fun hi => by
    obtain ⟨x, hx, hrest⟩ := mem_reservedOrder.1 hi
    exact mem_reservedOrder.2 ⟨x, hlog hx, hrest⟩
  have hsettled : hasSettled log i = true → hasSettled log' i = true := fun hi => by
    obtain ⟨x, hx, hrest⟩ := hasSettled_eq_true_iff.1 hi
    exact hasSettled_eq_true_iff.2 ⟨x, hlog hx, hrest⟩
  unfold Fits at h ⊢
  cases hphase : c.phase with
  | reserving =>
    rw [hphase] at h
    exact fun q hq hi => h q (hasked q hq hi) hi
  | unreserved =>
    rw [hphase] at h
    exact fun q hq hi => h q (hasked q hq hi) hi
  | running phase =>
    rw [hphase] at h
    exact ⟨hreserved h.1, fun q hq hi hres => ⟨(h.2 q (hasked q hq hi) hi hres).1,
      hsettled (h.2 q (hasked q hq hi) hi hres).2⟩⟩
  | settling phase =>
    rw [hphase] at h
    obtain ⟨hi, msg, hmsg, hall⟩ := h
    exact ⟨hreserved hi, msg, hmsg, fun q hq hcall => hall q (hasked q hq hcall) hcall⟩
  | unsettled phase =>
    rw [hphase] at h
    obtain ⟨hi, msg, hmsg, hall⟩ := h
    exact ⟨hreserved hi, msg, hmsg, fun q hq hcall => hall q (hasked q hq hcall) hcall⟩

variable {py : Builtins} {s s' : SocketSystem}

theorem Wired.distinct_log (h : Wired s) : Distinct s.net.log := by
  have hnodup := (h.sound.conserved.map SocketRequest.key).nodup_iff.2 h.distinct
  rw [List.map_append, List.map_map] at hnodup
  exact hnodup.of_append_left

/-- What has been handled was asked. -/
theorem Wired.asked_of_mem (h : Wired s) {x : SocketRequest × Option BrokerMessage} (hx : x ∈ s.net.log) :
    x.1 ∈ s.net.asked := h.sound.handled_subperm.subset (List.mem_map_of_mem hx)

theorem Wired.lt_of_mem (h : Wired s) {i : ℕ} (hi : i ∈ reservedOrder s.net.log) : i < s.calls.length := by
  obtain ⟨x, hx, -, rfl⟩ := mem_reservedOrder.1 hi
  obtain ⟨c, hc, -⟩ := h.made x.1 (h.asked_of_mem hx)
  exact (List.getElem?_eq_some_iff.1 hc).1

/-- **One call moved on**, with what its client asked or gave up. -/
theorem Wired.setCall (h : Wired s) {i : ℕ} {c c' : SocketCall} (hi : s.calls[i]? = some c)
    {net : Rpc.Net BrokerDaemon SocketRequest BrokerMessage} (hsound : net.Sound)
    (hdistinct : (net.asked.map SocketRequest.key).Nodup) (hprovider : c'.provider = c.provider)
    (hasked : ∀ q ∈ net.asked, q ∈ s.net.asked ∨ (q.call = i ∧ q.reserves = false)) (hlog : s.net.log ⊆ net.log)
    (hfits : Fits net.asked net.log i c')
    (hblocked : ∀ k q, (net.clients k).asking = some q → ((s.net.clients k).asking = some q ∧ q.call ≠ i ∧ q ∈ net.asked) ∨
      (q ∈ net.asked ∧ q.call = i ∧ c'.client = k ∧
        if q.reserves = true then c'.phase = .reserving else ∃ phase, c'.phase = .settling phase)) :
    Wired { s with net, calls := s.calls.set i c' } where
  sound := hsound
  distinct := hdistinct
  made := fun q hq => by
    have hlt := (List.getElem?_eq_some_iff.1 hi).1
    rcases hasked q hq with hold | ⟨hcall, hres⟩
    · obtain ⟨c₀, hc₀, hmsg⟩ := h.made q hold
      by_cases hq : q.call = i
      · rw [hq, hi] at hc₀
        cases hc₀
        exact ⟨c', by rw [hq, List.getElem?_set_self hlt], fun hres => by rw [hmsg hres, hprovider]⟩
      · exact ⟨c₀, by rw [List.getElem?_set_ne (Ne.symm hq), hc₀], hmsg⟩
    · exact ⟨c', by rw [hcall, List.getElem?_set_self hlt], fun habs => by rw [hres] at habs; cases habs⟩
  fits := fun j c₁ hj => by
    have hlt := (List.getElem?_eq_some_iff.1 hi).1
    by_cases hji : j = i
    · rw [hji, List.getElem?_set_self hlt] at hj
      cases hj
      rw [hji]
      exact hfits
    · rw [List.getElem?_set_ne (Ne.symm hji)] at hj
      refine fits_mono (h.fits j c₁ hj) (fun q hq hcall => ?_) hlog
      rcases hasked q hq with hold | ⟨hqi, -⟩
      · exact hold
      · exact absurd (hcall.symm.trans hqi) hji
  blocked := fun k q hk => by
    have hlt := (List.getElem?_eq_some_iff.1 hi).1
    rcases hblocked k q hk with ⟨hold, hne, hmem⟩ | ⟨hmem, hcall, hclient, hphase⟩
    · obtain ⟨-, c₀, hc₀, hrest⟩ := h.blocked k q hold
      exact ⟨hmem, c₀, by rw [List.getElem?_set_ne (Ne.symm hne), hc₀], hrest⟩
    · exact ⟨hmem, c', by rw [hcall, List.getElem?_set_self hlt], hclient, hphase⟩

/-! ## A step keeps it -/

theorem begin_cases {k : ℕ} {q : SocketRequest} {sent : Bool} {net : Rpc.Net BrokerDaemon SocketRequest BrokerMessage}
    (h : s.begin k q sent = some net) : (s.net.clients k).asking = none ∧
      ((sent = true ∧ s.net.ask k q = some net) ∨ (sent = false ∧ net = s.net.leave k)) := by
  unfold begin at h
  split at h
  · cases h
  rename_i hidle
  refine ⟨Option.not_isSome_iff_eq_none.1 hidle, ?_⟩
  cases sent with
  | true => exact Or.inl ⟨rfl, h⟩
  | false =>
    cases h
    exact Or.inr ⟨rfl, rfl⟩

/-- A new request of a call does not repeat a key. -/
theorem Wired.distinct_snoc (h : Wired s) {q : SocketRequest}
    (hnew : ∀ q' ∈ s.net.asked, q'.call = q.call → q'.reserves ≠ q.reserves) :
    ((s.net.asked ++ [q]).map SocketRequest.key).Nodup := by
  rw [List.map_append, List.map_singleton, List.nodup_append]
  refine ⟨h.distinct, List.nodup_singleton _, fun a ha b hb => ?_⟩
  obtain ⟨q', hq', rfl⟩ := List.mem_map.1 ha
  rw [List.mem_singleton.1 hb]
  intro hkey
  exact hnew q' hq' (congrArg Prod.fst hkey) (congrArg Prod.snd hkey)

theorem lt_of_made (h : Wired s) {q : SocketRequest} (hq : q ∈ s.net.asked) : q.call < s.calls.length := by
  obtain ⟨c, hc, -⟩ := h.made q hq
  exact (List.getElem?_eq_some_iff.1 hc).1

/-- **A new call**, with its RESERVE asked or not. -/
theorem Wired.snocCall (h : Wired s) {c : SocketCall} {net : Rpc.Net BrokerDaemon SocketRequest BrokerMessage}
    (hsound : net.Sound) (hdistinct : (net.asked.map SocketRequest.key).Nodup)
    (hphase : c.phase = .reserving ∨ c.phase = .unreserved)
    (hasked : ∀ q ∈ net.asked, q ∈ s.net.asked ∨ q = ⟨s.calls.length, BrokerClient.reserve c.provider (.fin 1) ""⟩)
    (hlog : net.log = s.net.log)
    (hblocked : ∀ k q, (net.clients k).asking = some q → q ∈ net.asked ∧ ((s.net.clients k).asking = some q ∨
      (q = ⟨s.calls.length, BrokerClient.reserve c.provider (.fin 1) ""⟩ ∧ c.client = k ∧ c.phase = .reserving))) :
    Wired { s with net, calls := s.calls ++ [c] } := by
  have hold : ∀ {j : ℕ} {c₀ : SocketCall}, s.calls[j]? = some c₀ → (s.calls ++ [c])[j]? = some c₀ :=
    fun hj => by rw [List.getElem?_append_left (List.getElem?_eq_some_iff.1 hj).1, hj]
  refine ⟨hsound, hdistinct, fun q hq => ?_, fun i c₁ hi => ?_, fun k q hk => ?_⟩
  · rcases hasked q hq with hq | rfl
    · obtain ⟨c₀, hc₀, hmsg⟩ := h.made q hq
      exact ⟨c₀, hold hc₀, hmsg⟩
    · exact ⟨c, List.getElem?_concat_length, fun _ => rfl⟩
  · change (s.calls ++ [c])[i]? = some c₁ at hi
    change Fits net.asked net.log i c₁
    rw [List.getElem?_append] at hi
    split at hi
    · rename_i hlt
      refine fits_mono (h.fits i c₁ hi) (fun q hq hcall => ?_) (hlog ▸ List.Subset.refl _)
      rcases hasked q hq with hq | rfl
      · exact hq
      · exact absurd hlt (by rw [← hcall]; exact Nat.lt_irrefl _)
    · rename_i hge
      rw [List.getElem?_singleton] at hi
      split at hi
      · cases hi
        have honly : ∀ q ∈ net.asked, q.call = i → q.reserves = true := fun q hq hcall => by
          rcases hasked q hq with hq | rfl
          · exact absurd (lt_of_made h hq) (by rw [hcall]; exact hge)
          · rfl
        rcases hphase with hphase | hphase <;> rw [Fits, hphase] <;> exact honly
      · cases hi
  · obtain ⟨hq, hwas | ⟨rfl, hclient, hres⟩⟩ := hblocked k q hk
    · obtain ⟨-, c₀, hc₀, hrest⟩ := h.blocked k q hwas
      exact ⟨hq, c₀, hold hc₀, hrest⟩
    · exact ⟨hq, c, List.getElem?_concat_length, hclient, hres⟩

theorem wired_reserve (h : Wired s) {k : ℕ} {provider : ProviderId} {model : String} {sent : Bool}
    (hstep : step py s (.reserve k provider model sent) = some s') : Wired s' := by
  simp only [step] at hstep
  obtain ⟨net, hbegin, rfl⟩ := Option.map_eq_some_iff.1 hstep
  obtain ⟨hidle, ⟨rfl, hask⟩ | ⟨rfl, rfl⟩⟩ := begin_cases hbegin
  · obtain ⟨-, -, hlog, hasked, hself, hothers⟩ := Rpc.Net.ask_spec hask
    refine h.snocCall (h.sound.ask hask) ?_ (Or.inl rfl) (fun q hq => ?_) hlog (fun l q hl => ?_)
    · rw [hasked]
      exact h.distinct_snoc (fun q' hq' hcall => absurd (lt_of_made h hq') (by rw [hcall]; exact Nat.lt_irrefl _))
    · rw [hasked] at hq
      exact (List.mem_append.1 hq).imp id List.mem_singleton.1
    · rw [hasked]
      by_cases hlk : l = k
      · rw [hlk, hself] at hl
        cases hl
        exact ⟨List.mem_append_right _ (List.mem_singleton.2 rfl), Or.inr ⟨rfl, hlk.symm, rfl⟩⟩
      · rw [hothers l hlk] at hl
        exact ⟨List.mem_append_left _ (h.blocked l q hl).1, Or.inl hl⟩
  · refine h.snocCall (h.sound.leave k) h.distinct (Or.inr rfl) (fun q hq => Or.inl hq) rfl (fun l q hl => ?_)
    by_cases hlk : l = k
    · rw [hlk, Rpc.Net.leave_self] at hl
      cases hl
    · rw [Rpc.Net.leave_of_ne _ hlk] at hl
      exact ⟨(h.blocked l q hl).1, Or.inl hl⟩

/-- A client that waits for no reply of this call. -/
theorem Wired.call_ne (h : Wired s) {k : ℕ} {q : SocketRequest} (hk : (s.net.clients k).asking = some q) {i : ℕ}
    {c : SocketCall} (hi : s.calls[i]? = some c) (hne : c.client ≠ k ∨ ∃ phase, c.phase = .running phase) :
    q.call ≠ i := by
  obtain ⟨-, c₀, hc₀, hclient, hphase⟩ := h.blocked k q hk
  rintro rfl
  rw [hi] at hc₀
  cases hc₀
  rcases hne with hne | ⟨phase, hrun⟩
  · exact hne hclient
  · rw [hrun] at hphase
    split at hphase
    · cases hphase
    · obtain ⟨phase', hphase'⟩ := hphase
      cases hphase'

theorem wired_provider (h : Wired s) {i : ℕ} {result : Call} (hstep : step py s (.provider i result) = some s') :
    Wired s' := by
  simp only [step] at hstep
  split at hstep
  · rename_i k provider model rid hi
    cases hstep
    have hfits := h.fits i _ hi
    refine h.setCall hi h.sound h.distinct rfl (fun q hq => Or.inl hq) (List.Subset.refl _)
      ⟨hfits.1, fun q hq hcall hres => ?_⟩
      (fun l q hl => Or.inl ⟨hl, h.call_ne hl hi (Or.inr ⟨_, rfl⟩), (h.blocked l q hl).1⟩)
    have hopen := (hfits.2 q hq hcall hres).1
    cases hopen
  · cases hstep

theorem wired_settle (h : Wired s) {i : ℕ} {sent : Bool} (hstep : step py s (.settle i sent) = some s') : Wired s' := by
  simp only [step] at hstep
  split at hstep
  swap
  · cases hstep
  rename_i k provider model phase hi
  split at hstep
  · cases hstep
  rename_i msg hmsg
  obtain ⟨net, hbegin, rfl⟩ := Option.map_eq_some_iff.1 hstep
  have hfits := h.fits i _ hi
  have hnone : ∀ q ∈ s.net.asked, q.call = i → q.reserves = true := fun q hq hcall => by
    by_contra hres
    have hopen := (hfits.2 q hq hcall (Bool.eq_false_iff.2 hres)).1
    rw [isOpen_of_settleMsg hmsg] at hopen
    cases hopen
  have hsettles : SocketRequest.reserves ⟨i, msg⟩ = false := not_reserves_of_settleMsg hmsg i
  obtain ⟨hidle, ⟨rfl, hask⟩ | ⟨rfl, rfl⟩⟩ := begin_cases hbegin
  · obtain ⟨-, -, hlog, hasked, hself, hothers⟩ := Rpc.Net.ask_spec hask
    refine h.setCall hi (h.sound.ask hask) ?_ rfl (fun q hq => ?_) (hlog ▸ List.Subset.refl _) ?_ (fun l q hl => ?_)
    · rw [hasked]
      refine h.distinct_snoc (fun q' hq' hcall => ?_)
      rw [hnone q' hq' hcall, hsettles]
      exact fun habs => by cases habs
    · rw [hasked] at hq
      rcases List.mem_append.1 hq with hq | hq
      · exact Or.inl hq
      · rw [List.mem_singleton.1 hq]
        exact Or.inr ⟨rfl, hsettles⟩
    · rw [hasked, hlog]
      refine ⟨hfits.1, msg, hmsg, fun q hq hcall hres => ?_⟩
      rcases List.mem_append.1 hq with hq | hq
      · rw [hnone q hq hcall] at hres
        cases hres
      · rw [List.mem_singleton.1 hq]
    · rw [hasked]
      by_cases hlk : l = k
      · rw [hlk, hself] at hl
        cases hl
        exact Or.inr ⟨List.mem_append_right _ (List.mem_singleton.2 rfl), rfl, hlk.symm, by
          rw [hsettles]
          exact ⟨phase, rfl⟩⟩
      · rw [hothers l hlk] at hl
        exact Or.inl ⟨hl, h.call_ne hl hi (Or.inr ⟨_, rfl⟩), List.mem_append_left _ (h.blocked l q hl).1⟩
  · refine h.setCall hi (h.sound.leave k) h.distinct rfl (fun q hq => Or.inl hq) (List.Subset.refl _)
      ⟨hfits.1, msg, hmsg, fun q hq hcall hres => ?_⟩ (fun l q hl => ?_)
    · rw [hnone q hq hcall] at hres
      cases hres
    · by_cases hlk : l = k
      · rw [hlk, Rpc.Net.leave_self] at hl
        cases hl
      · rw [Rpc.Net.leave_of_ne _ hlk] at hl
        exact Or.inl ⟨hl, h.call_ne hl hi (Or.inr ⟨_, rfl⟩), (h.blocked l q hl).1⟩

theorem serve_cases {c : ℕ} {uuid : String} {now : ℚ} (hstep : step py s (.serve c uuid now) = some s') :
    ∃ q net, s.net.serve (handle py) c (uuid, now) = some net ∧ uuid ∉ s.issued ∧
      net.log = s.net.log ++ [(q, (handle py s.net.server q (uuid, now)).1)] ∧
      net.server = (handle py s.net.server q (uuid, now)).2 ∧ net.asked = s.net.asked ∧ net.clients = s.net.clients ∧
      s' = { s with net, issued := if q.reserves = true then s.issued ++ [uuid] else s.issued } := by
  simp only [step] at hstep
  split at hstep
  · cases hstep
  rename_i hfresh
  obtain ⟨net, hserve, rfl⟩ := Option.map_eq_some_iff.1 hstep
  obtain ⟨q, hlog, hserver, hasked, hclients⟩ := Rpc.Net.serve_spec hserve
  refine ⟨q, net, hserve, hfresh, hlog, hserver, hasked, hclients, ?_⟩
  rw [hlog, List.getLast?_concat, Option.any_some]

theorem wired_serve (h : Wired s) {c : ℕ} {uuid : String} {now : ℚ}
    (hstep : step py s (.serve c uuid now) = some s') : Wired s' := by
  obtain ⟨q, net, hserve, -, hlog, -, hasked, hclients, rfl⟩ := serve_cases hstep
  refine ⟨h.sound.serve hserve, ?_, fun q' hq' => ?_, fun i c₁ hi => ?_, fun k q' hk => ?_⟩
  · show (net.asked.map SocketRequest.key).Nodup
    rw [hasked]
    exact h.distinct
  · change q' ∈ net.asked at hq'
    rw [hasked] at hq'
    exact h.made q' hq'
  · show Fits net.asked net.log i c₁
    rw [hasked, hlog]
    exact fits_mono (h.fits i c₁ hi) (fun q' hq' _ => hq') (List.subset_append_left _ _)
  · change (net.clients k).asking = some q' at hk
    show q' ∈ net.asked ∧ _
    rw [hclients] at hk
    rw [hasked]
    exact h.blocked k q' hk

theorem read_step_cases {k : ℕ} (hstep : step py s (.read k) = some s') :
    ∃ q c reply net, (s.net.clients k).asking = some q ∧ s.net.read k = some (reply, net) ∧ s.calls[q.call]? = some c ∧
      s' = { s with net, calls := s.calls.set q.call (c.received py reply) } := by
  simp only [step] at hstep
  split at hstep
  · rename_i q reply net hq hread
    obtain ⟨c, hc, rfl⟩ := Option.map_eq_some_iff.1 hstep
    exact ⟨q, c, reply, net, hq, hread, hc, rfl⟩
  · cases hstep

theorem giveUp_cases {k : ℕ} (hstep : step py s (.giveUp k) = some s') :
    ∃ q c, (s.net.clients k).asking = some q ∧ s.calls[q.call]? = some c ∧
      s' = { s with net := s.net.leave k, calls := s.calls.set q.call c.raised } := by
  simp only [step] at hstep
  split at hstep
  · rename_i q hq
    obtain ⟨c, hc, rfl⟩ := Option.map_eq_some_iff.1 hstep
    exact ⟨q, c, hq, hc, rfl⟩
  · cases hstep

/-- The call of a client that waits, blocked in its RESERVE or in what settles it. -/
theorem Wired.waiting (h : Wired s) {k : ℕ} {q : SocketRequest} (hq : (s.net.clients k).asking = some q) {c : SocketCall}
    (hc : s.calls[q.call]? = some c) : c.client = k ∧ ((q.reserves = true ∧ c.phase = .reserving) ∨
      (q.reserves = false ∧ ∃ phase, c.phase = .settling phase)) := by
  obtain ⟨-, c₀, hc₀, hclient, hphase⟩ := h.blocked k q hq
  rw [hc] at hc₀
  cases hc₀
  refine ⟨hclient, ?_⟩
  cases hres : q.reserves with
  | true =>
    rw [if_pos hres] at hphase
    exact Or.inl ⟨rfl, hphase⟩
  | false =>
    rw [if_neg (Bool.eq_false_iff.1 hres)] at hphase
    exact Or.inr ⟨rfl, hphase⟩

/-- The other clients wait for the replies of other calls. -/
theorem Wired.others (h : Wired s) {k l : ℕ} {q : SocketRequest} {c : SocketCall} {i : ℕ} (hi : s.calls[i]? = some c)
    (hclient : c.client = k) (hlk : l ≠ k) (hl : (s.net.clients l).asking = some q) :
    (s.net.clients l).asking = some q ∧ q.call ≠ i ∧ q ∈ s.net.asked :=
  ⟨hl, h.call_ne hl hi (Or.inl (fun he => hlk (he.symm.trans hclient))), (h.blocked l q hl).1⟩

theorem wired_read (h : Wired s) {k : ℕ} (hstep : step py s (.read k) = some s') : Wired s' := by
  obtain ⟨q, c, reply, net, hq, hread, hc, rfl⟩ := read_step_cases hstep
  obtain ⟨-, hlog, hasked, hself, hothers⟩ := Rpc.Net.read_spec hread
  obtain ⟨q', hq', hmem⟩ := h.sound.read_answers hread
  rw [hq] at hq'
  cases hq'
  obtain ⟨hclient, hphase⟩ := h.waiting hq hc
  have hfits := h.fits q.call c hc
  refine h.setCall hc (h.sound.read hread) (by rw [hasked]; exact h.distinct) rfl
    (fun q' hq' => Or.inl (hasked ▸ hq')) (hlog ▸ List.Subset.refl _) ?_ (fun l q' hl => ?_)
  · rw [hasked, hlog]
    rcases hphase with ⟨hres, hphase⟩ | ⟨hres, phase, hphase⟩
    · rw [Fits, hphase] at hfits
      rw [Fits, SocketCall.received, hphase]
      refine ⟨mem_reservedOrder.2 ⟨_, hmem, hres, rfl⟩, fun q' hq' hcall habs => ?_⟩
      rw [hfits q' hq' hcall] at habs
      cases habs
    · rw [Fits, hphase] at hfits
      rw [Fits, SocketCall.received, hphase]
      exact ⟨hfits.1, fun _ _ _ _ => ⟨rfl, hasSettled_eq_true_iff.2 ⟨_, hmem, hres, rfl⟩⟩⟩
  · by_cases hlk : l = k
    · rw [hlk, hself] at hl
      cases hl
    · rw [hothers l hlk] at hl
      rw [hasked]
      exact Or.inl (h.others hc hclient hlk hl)

theorem wired_giveUp (h : Wired s) {k : ℕ} (hstep : step py s (.giveUp k) = some s') : Wired s' := by
  obtain ⟨q, c, hq, hc, rfl⟩ := giveUp_cases hstep
  obtain ⟨hclient, hphase⟩ := h.waiting hq hc
  have hfits := h.fits q.call c hc
  refine h.setCall hc (h.sound.leave k) h.distinct rfl (fun q' hq' => Or.inl hq') (List.Subset.refl _) ?_
    (fun l q' hl => ?_)
  · rcases hphase with ⟨-, hphase⟩ | ⟨-, phase, hphase⟩ <;>
    · rw [Fits, hphase] at hfits
      rw [Fits, SocketCall.raised, hphase]
      exact hfits
  · by_cases hlk : l = k
    · rw [hlk, Rpc.Net.leave_self] at hl
      cases hl
    · rw [Rpc.Net.leave_of_ne _ hlk] at hl
      exact Or.inl (h.others hc hclient hlk hl)

theorem wired_init (d : BrokerDaemon) : Wired ⟨{ server := d }, [], []⟩ where
  sound := Rpc.Net.sound_init d
  distinct := List.nodup_nil
  made := fun _ hq => by cases hq
  fits := fun _ _ hi => by cases hi
  blocked := fun _ _ hk => by cases hk

/-- **A step keeps it.** -/
theorem wired_step (h : Wired s) {a : SocketAct} (hstep : step py s a = some s') : Wired s' := by
  cases a with
  | reserve k provider model sent => exact wired_reserve h hstep
  | provider i result => exact wired_provider h hstep
  | settle i sent => exact wired_settle h hstep
  | serve c uuid now => exact wired_serve h hstep
  | read k => exact wired_read h hstep
  | giveUp k => exact wired_giveUp h hstep
  | reap now =>
    cases hstep
    exact ⟨h.sound.server _, h.distinct, h.made, h.fits, h.blocked⟩

/-- The start: the daemon, no client connected, no call made. -/
def start (d : BrokerDaemon) : SocketSystem := ⟨{ server := d }, [], []⟩

theorem wired_of_run {d : BrokerDaemon} {acts : List SocketAct} (h : (machine py).run (start d) acts = some s) : Wired s :=
  (machine py).inv_of_run Wired (fun _ _ _ h hstep => wired_step h hstep) acts _ s (wired_init d) h

end SocketSystem

end Broker
end DevHarness
